import TableDdl.Proofs.Lexer.Steps

/-!
# Lexing and places

A text is lexed in the same way wherever it stands. Its tokens have other places there and its
refusal another line; apart from that, lexing depends only on whether an operand may have ended
before the text.
-/

namespace TableDdl

/-! ## Quoted texts and comments -/

namespace Scan

/-- The text that was scanned, and what follows the closing mark if there is one. -/
def Delimited.outline : Delimited → List Char × Option (List Char)
  | closed text _ rest => (text, some rest)
  | unclosed text => (text, none)

@[simp] theorem Delimited.outline_push (character : Char) (scanned : Delimited) :
    (scanned.push character).outline = (character :: scanned.outline.1, scanned.outline.2) := by
  cases scanned <;> rfl

theorem outline_string (quote : Char) (location locationRight : Location)
    (characters : List Char) :
    (string quote location characters).outline =
      (string quote locationRight characters).outline := by
  fun_induction string quote location characters generalizing locationRight with
  | case1 => rfl
  | case2 location => simp [string, Delimited.outline]
  | case3 location notEscape => simp [string, notEscape, Delimited.outline]
  | case4 location character notEscape other => simp [string, notEscape, other, Delimited.outline]
  | case5 location next rest ih => simp [string, ih (locationRight.right 2)]
  | case6 location rest notEscape ih => simp [string, notEscape, ih (locationRight.right 2)]
  | case7 location next rest single notEscape =>
      simp [string, notEscape, single, Delimited.outline]
  | case8 location character next rest notEscape other ih =>
      simp [string, notEscape, other, ih (locationRight.after character)]

theorem outline_name (location locationRight : Location) (characters : List Char) :
    (name location characters).outline = (name locationRight characters).outline := by
  fun_induction name location characters generalizing locationRight with
  | case1 => rfl
  | case2 location => simp [name, Delimited.outline]
  | case3 location character other => simp [name, other, Delimited.outline]
  | case4 location rest ih => simp [name, ih (locationRight.right 2)]
  | case5 location next rest single => simp [name, single, Delimited.outline]
  | case6 location character next rest other ih =>
      simp [name, other, ih (locationRight.after character)]

theorem map_snd_comment (location locationRight : Location) (characters : List Char) :
    (comment location characters).map Prod.snd =
      (comment locationRight characters).map Prod.snd := by
  fun_induction comment location characters generalizing locationRight with
  | case1 => rfl
  | case2 => rfl
  | case3 location character next rest ended => simp [comment, ended]
  | case4 location character next rest other ih =>
      simp [comment, other, ih (locationRight.after character)]

end Scan

namespace Lexer

variable {α β : Type}

/-! ## Lexemes -/

/-- A result up to a view, and a refusal without its line. -/
def unplaced (view : α → β) : Except ParseError α → Except (Fault × String) β
  | .error error => .error (error.fault, error.token)
  | .ok value => .ok (view value)

/-- What a lexeme gives, without places. -/
def Lexeme.outline {start : List Char} (read : Lexeme start) : List Token × List Char :=
  (read.tokens.map Token.placeless, read.rest)


/-- What a quoted text gives that is scanned after its opening mark. -/
def quoted (fault : Fault) (mark : Char) (tokens : List Char → List Token)
    (scanned : Scan.Delimited) : Except (Fault × String) (List Token × List Char) :=
  scanned.outline.2.elim (.error (fault, String.ofList (mark :: scanned.outline.1)))
    fun left => .ok (tokens scanned.outline.1, left)

theorem unplaced_quotedLexeme (location : Location) {quote character : Char}
    {mark opened rest : List Char} {within : opened.length ≤ rest.length}
    {token : List Char → Token.Kind × List Char} :
    unplaced Lexeme.outline (quotedLexeme location quote character mark opened within token) =
      quoted .unterminatedString quote
        (fun text => [.bare (token text).1 (String.ofList (token text).2)])
        (Scan.string quote (location.right (mark.length + 1)) opened) := by
  unfold quotedLexeme
  dsimp only
  split <;> rename_i scanned <;> refine Eq.trans ?_ (congrArg (quoted _ _ _) scanned).symm <;> rfl

theorem unplaced_nameLexeme (location : Location) (rest : List Char) :
    unplaced Lexeme.outline (nameLexeme location Text.backtick rest) =
      quoted .unterminatedName Text.backtick nameTokens (Scan.name (location.right 1) rest) := by
  unfold nameLexeme
  dsimp only
  split
  · rename_i scanned
    exact (congrArg (quoted _ _ _) scanned).symm
  · rename_i text closing left scanned
    refine Eq.trans ?_ (congrArg (quoted _ _ _) scanned).symm
    by_cases empty : text = []
    · subst empty
      rfl
    · simp [unplaced, Lexeme.outline, quoted, Scan.Delimited.outline, nameTokens, backtickToken,
        empty, Token.placeless]

theorem unplaced_commentLexeme (location : Location) (character : Char) (rest : List Char) :
    unplaced Lexeme.outline (commentLexeme location character rest) =
      ((Scan.comment (location.right 2) (rest.drop 1)).map Prod.snd).elim
        (.error (.unterminatedComment, String.ofList ['/', '*'])) fun left => .ok ([], left) := by
  unfold commentLexeme
  split <;> rename_i scanned <;> simp only [scanned] <;> rfl

theorem unplaced_ite {view : α → β} {condition : Prop} [Decidable condition]
    {yes no yesRight noRight : Except ParseError α}
    (ifTrue : condition → unplaced view yes = unplaced view yesRight)
    (ifFalse : ¬ condition → unplaced view no = unplaced view noRight) :
    unplaced view (if condition then yes else no) =
      unplaced view (if condition then yesRight else noRight) := by
  by_cases holds : condition
  · rw [if_pos holds, if_pos holds, ifTrue holds]
  · rw [if_neg holds, if_neg holds, ifFalse holds]

/-- A lexeme depends on the place not at all, and on what precedes it as far as that can end an
operand. -/
theorem unplaced_lexeme {previous previousRight : Option Token}
    (same : previous.any endsOperand = previousRight.any endsOperand)
    (location locationRight : Location) (character : Char) (rest : List Char) :
    unplaced Lexeme.outline (lexeme previous location character rest) =
      unplaced Lexeme.outline (lexeme previousRight locationRight character rest) := by
  have sign : signsNumber previous rest = signsNumber previousRight rest := by
    rw [signsNumber, signsNumber, same]
  have strings {quote : Char} {mark opened : List Char} {within : opened.length ≤ rest.length}
      {token : List Char → Token.Kind × List Char} :
      unplaced Lexeme.outline (quotedLexeme location quote character mark opened within token) =
        unplaced Lexeme.outline
          (quotedLexeme locationRight quote character mark opened within token) := by
    rw [unplaced_quotedLexeme, unplaced_quotedLexeme, quoted, Scan.outline_string]
    rfl
  unfold lexeme
  rw [sign]
  refine unplaced_ite (fun _ => rfl) fun _ => unplaced_ite (fun _ => rfl) fun _ => ?_
  refine unplaced_ite (fun _ => rfl) fun _ => unplaced_ite (fun _ => ?_) fun _ => ?_
  · rw [unplaced_commentLexeme, unplaced_commentLexeme, Scan.map_snd_comment]
  refine unplaced_ite (fun _ => strings) fun _ => unplaced_ite (fun isName => ?_) fun _ => ?_
  · subst isName
    rw [unplaced_nameLexeme, unplaced_nameLexeme, quoted, Scan.outline_name]
    rfl
  refine unplaced_ite (fun _ => rfl) fun _ => unplaced_ite (fun _ => rfl) fun _ => ?_
  cases punctuation? character with
  | some kind => rfl
  | none => exact unplaced_ite (fun _ => strings) fun _ => unplaced_ite (fun _ => rfl) fun _ => rfl

/-! ## Texts -/

theorem unplaced_eq_cases {view : α → β} {left right : Except ParseError α}
    (same : unplaced view left = unplaced view right) :
    (∃ error errorRight, left = .error error ∧ right = .error errorRight ∧
        error.fault = errorRight.fault ∧ error.token = errorRight.token) ∨
      ∃ value valueRight, left = .ok value ∧ right = .ok valueRight ∧
        view value = view valueRight := by
  cases left with
  | error error =>
      cases right with
      | error errorRight =>
          obtain ⟨sameFault, sameToken⟩ := Prod.mk.inj (Except.error.inj same)
          exact .inl ⟨error, errorRight, rfl, rfl, sameFault, sameToken⟩
      | ok valueRight => cases same
  | ok value =>
      cases right with
      | error errorRight => cases same
      | ok valueRight => exact .inr ⟨value, valueRight, rfl, rfl, Except.ok.inj same⟩

theorem unplaced_map_append (body : List Token) (result : Except ParseError (List Token)) :
    unplaced (List.map Token.placeless) (result.map (body ++ ·)) =
      (unplaced (List.map Token.placeless) result).map (body.map Token.placeless ++ ·) := by
  cases result with
  | error error => rfl
  | ok tokens => simp [unplaced, Except.map]

/-- What a text is read as, and how it is refused, depends on the place not at all, and on what
precedes it as far as that can end an operand. -/
theorem unplaced_tokensFrom {previous previousRight : Option Token}
    (same : previous.any endsOperand = previousRight.any endsOperand)
    (location locationRight : Location) (characters : List Char) :
    unplaced (List.map Token.placeless) (tokensFrom previous location characters) =
      unplaced (List.map Token.placeless) (tokensFrom previousRight locationRight characters) := by
  fun_induction tokensFrom previous location characters
    generalizing previousRight locationRight with
  | case1 previous location =>
      rw [tokensFrom]
      rfl
  | case2 previous location character rest error refused =>
      have first := unplaced_lexeme same location locationRight character rest
      rw [refused] at first
      rw [tokensFrom]
      obtain ⟨_, errorRight, equal, refusedRight, sameFault, sameToken⟩ | ⟨_, _, found, -⟩ :=
        unplaced_eq_cases first
      · cases equal
        rw [refusedRight]
        exact congrArg Except.error (Prod.ext sameFault sameToken)
      · cases found
  | case3 previous location character rest read found ih =>
      have first := unplaced_lexeme same location locationRight character rest
      rw [found] at first
      obtain ⟨_, _, refused, -⟩ | ⟨_, readRight, equal, foundRight, sameOutline⟩ :=
        unplaced_eq_cases first
      · cases refused
      · cases equal
        obtain ⟨sameTokens, sameRest⟩ := Prod.mk.inj sameOutline
        have operand : (read.tokens.getLast?.or previous).any endsOperand =
            (readRight.tokens.getLast?.or previousRight).any endsOperand := by
          rw [any_endsOperand_or, any_endsOperand_or, sameTokens, same]
        have others := ih operand readRight.location
        rw [tokensFrom, foundRight]
        dsimp only
        rw [unplaced_map_append, unplaced_map_append, sameTokens, others, sameRest]

/-- Texts that are lexed as the same tokens up to a common rest have the same tokens, or are refused
for the same reason at the same token. -/
theorem unplaced_tokenize {text textRight : String} {tokens : List Token} {left : List Char}
    (lexes : Lexes false text.toList tokens left)
    (lexesRight : Lexes false textRight.toList tokens left) :
    unplaced (List.map Token.placeless) (Token.tokenize text) =
      unplaced (List.map Token.placeless) (Token.tokenize textRight) := by
  have nothing : (none : Option Token).any endsOperand = false := rfl
  obtain ⟨body, place, read, same⟩ := tokensFrom_eq_of_lexes lexes nothing .start
  obtain ⟨bodyRight, placeRight, readRight, sameRight⟩ :=
    tokensFrom_eq_of_lexes lexesRight nothing .start
  have operand : (body.getLast?.or none).any endsOperand =
      (bodyRight.getLast?.or none).any endsOperand := by
    rw [any_endsOperand_or, any_endsOperand_or, same, sameRight]
  rw [Token.tokenize, Token.tokenize, read, readRight, unplaced_map_append, unplaced_map_append,
    same, sameRight, unplaced_tokensFrom operand place placeRight]

end Lexer

end TableDdl
