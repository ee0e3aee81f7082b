import TableDdl.Proofs.Grammar.Parse
import TableDdl.Proofs.Lexer.Append
import TableDdl.Proofs.Lexer.Places
import TableDdl.Proofs.Lockstep.Parts

/-!
# Layout

Blanks and comments between two parts of a text only separate them. Any layout that starts with a
blank ends the last lexeme before it and leaves nothing behind but different places, so that it does
not matter which one it is.
-/

namespace TableDdl

namespace Lexer

/-- What may stand between tokens: blanks and complete comments. A comment between marks ends with
the first closing mark, and a comment in a line with the end of that line. -/
inductive Gaps : List Char → Prop where
  /-- Nothing. -/
  | nil : Gaps []
  /-- A blank, and what follows it. -/
  | blank {character : Char} {others : List Char} (isBlank : Text.isBlank character = true)
      (gaps : Gaps others) : Gaps (character :: others)
  /-- A comment between marks, and what follows it. -/
  | comment {body others : List Char} (noEnd : ¬ ['*', '/'] <:+: body) (gaps : Gaps others) :
      Gaps ('/' :: '*' :: (body ++ '*' :: '/' :: others))
  /-- A comment in a line, and what follows the line. -/
  | line {mark body others : List Char} (isMark : mark = ['#'] ∨ mark = ['-', '-'])
      (noBreak : '\n' ∉ body) (gaps : Gaps others) : Gaps (mark ++ (body ++ '\n' :: others))

/-- A separator of two parts of a text. -/
structure Layout where
  /-- The text of the separator. -/
  text : String
  /-- It starts with a blank. -/
  starts : ∃ character ∈ text.toList.head?, Text.isBlank character = true
  /-- All of it may stand between tokens. -/
  gaps : Gaps text.toList

/-- Lexing the text arrives at a comment in a line that lacks the end of the line. -/
def EndsInLineComment (text : String) : Prop :=
  ∃ tokens left, Lexes false text.toList tokens left ∧ OpenLine left

theorem Closes.suffix {mark : Char} {escapes : Bool} {characters text left : List Char}
    (closes : Closes mark escapes characters text left) : left <:+ characters := by
  induction closes with
  | close single => exact List.suffix_cons _ _
  | doubled after ih => exact ih.trans ((List.suffix_cons _ _).trans (List.suffix_cons _ _))
  | escape isEscape after ih =>
      exact ih.trans ((List.suffix_cons _ _).trans (List.suffix_cons _ _))
  | plain other noEscape after ih => exact ih.trans (List.suffix_cons _ _)

theorem suffix_comment {location after : Location} {characters left : List Char}
    (closed : Scan.comment location characters = some (after, left)) : left <:+ characters := by
  fun_induction Scan.comment location characters with
  | case1 => simp at closed
  | case2 => simp at closed
  | case3 location character next rest ended =>
      obtain ⟨-, rfl⟩ : location.right 2 = after ∧ rest = left := by simpa using closed
      exact (List.suffix_cons _ _).trans (List.suffix_cons _ _)
  | case4 location character next rest other ih => exact (ih closed).trans (List.suffix_cons _ _)

theorem Step.suffix {operand : Bool} {characters left : List Char} {tokens : List Token}
    (step : Step operand characters tokens left) : left <:+ characters := by
  have dropped (count : Nat) (character : Char) (rest : List Char) :
      rest.drop count <:+ character :: rest :=
    (List.drop_suffix _ _).trans (List.suffix_cons _ _)
  cases step with
  | blank isBlank => exact List.suffix_cons _ _
  | line mark => exact (List.dropWhile_suffix _).trans (List.suffix_cons _ _)
  | comment closed =>
      exact (suffix_comment closed).trans ((List.suffix_cons _ _).trans (List.suffix_cons _ _))
  | string mark closes => exact closes.suffix.trans (List.suffix_cons _ _)
  | name closes => exact closes.suffix.trans (List.suffix_cons _ _)
  | number digit scanned => exact dropped _ _ _
  | signed noOperand digit scanned => exact dropped _ _ _
  | mark known noLine noComment noSign => exact List.suffix_cons _ _
  | binary letter closes =>
      exact closes.suffix.trans ((List.suffix_cons _ _).trans (List.suffix_cons _ _))
  | word notBlank starts noBinary => exact dropped _ _ _

theorem Lexes.suffix {operand : Bool} {characters left : List Char} {tokens : List Token}
    (lexes : Lexes operand characters tokens left) : left <:+ characters := by
  induction lexes with
  | done => exact List.suffix_refl _
  | step first others ih => exact ih.trans first.suffix

/-- A text without the marks of such comments does not end in one. -/
theorem not_endsInLineComment {text : String} (noHash : '#' ∉ text.toList)
    (noDash : '-' ∉ text.toList) : ¬ EndsInLineComment text := by
  rintro ⟨tokens, left, lexes, mark, -⟩
  have inside := lexes.suffix.subset
  rcases mark with ⟨rest, rfl⟩ | ⟨rest, rfl⟩
  · exact noHash (inside (by simp))
  · exact noDash (inside (by simp))

theorem comment_of_noEnd {body : List Char} (noEnd : ¬ ['*', '/'] <:+: body)
    (others : List Char) (location : Location) :
    ∃ after, Scan.comment location (body ++ '*' :: '/' :: others) = some (after, others) := by
  induction body generalizing location with
  | nil => exact ⟨_, rfl⟩
  | cons character body ih =>
      have noEndLater : ¬ ['*', '/'] <:+: body := fun found =>
        noEnd (found.trans (List.suffix_cons _ _).isInfix)
      obtain ⟨after, found⟩ := ih noEndLater (location.after character)
      refine ⟨after, ?_⟩
      cases body with
      | nil => simpa [Scan.comment] using found
      | cons next body =>
          have other : ¬ (character = '*' ∧ next = '/') := by
            rintro ⟨rfl, rfl⟩
            exact noEnd ⟨[], body, rfl⟩
          simpa [Scan.comment, other] using found

theorem dropWhile_line {body : List Char} (noBreak : '\n' ∉ body) (others : List Char) :
    (body ++ '\n' :: others).dropWhile (· ≠ '\n') = '\n' :: others := by
  have inside : body.dropWhile (· ≠ '\n') = [] := by
    refine List.dropWhile_eq_nil_iff.mpr fun character member => ?_
    simpa using ne_of_mem_of_not_mem member noBreak
  rw [dropWhile_append_line fun _ => rfl, inside, List.nil_append]

/-- Nothing is read from blanks and comments. -/
theorem Gaps.lexes {characters : List Char} (gaps : Gaps characters) (operand : Bool)
    (rest : List Char) : Lexes operand (characters ++ rest) [] rest := by
  induction gaps with
  | nil => exact .done
  | blank isBlank gaps ih => exact .step (.blank isBlank) ih
  | @comment body others noEnd gaps ih =>
      obtain ⟨after, closed⟩ := comment_of_noEnd noEnd (others ++ rest) .start
      simp only [List.cons_append, List.append_assoc]
      exact .step (.comment closed) ih
  | @line mark body others isMark noBreak gaps ih =>
      have afterLine : Lexes operand ('\n' :: (others ++ rest)) [] rest :=
        .step (.blank (by decide)) ih
      simp only [List.append_assoc, List.cons_append]
      rcases isMark with rfl | rfl
      · rw [← dropWhile_line noBreak] at afterLine
        exact .step (.line (.inl rfl)) afterLine
      · have noBreakBefore : '\n' ∉ '-' :: body := by simpa using noBreak
        rw [← dropWhile_line noBreakBefore] at afterLine
        exact .step (.line (.inr ⟨rfl, rfl⟩)) afterLine

theorem Layout.boundary (layout : Layout) (rest : List Char) :
    Scan.Boundary (layout.text.toList ++ rest) ∧
      (layout.text.toList ++ rest).head? ≠ some '.' := by
  obtain ⟨character, first, isBlank⟩ := layout.starts
  obtain ⟨others, split⟩ := List.head?_eq_some_iff.mp first
  rw [split]
  refine ⟨Scan.boundary_blank isBlank, ?_⟩
  rintro isPoint
  obtain rfl : character = '.' := by simpa using isPoint
  exact absurd isBlank (by decide)

/-- A text and a layout after it are read as the text alone. -/
theorem lexes_layout {text : String} {tokens : List Token}
    (lexes : Lexes false text.toList tokens []) (ended : ¬ EndsInLineComment text)
    (layout : Layout) (after : String) :
    Lexes false (text ++ layout.text ++ after).toList tokens after.toList := by
  obtain ⟨boundary, noPoint⟩ := layout.boundary after.toList
  have before : Lexes false (text.toList ++ (layout.text.toList ++ after.toList)) tokens
      (layout.text.toList ++ after.toList) :=
    lexes.append_boundary boundary noPoint fun _ _ reached isOpen =>
      absurd ⟨_, _, reached, isOpen⟩ ended
  have whole := before.append (layout.gaps.lexes _ _)
  rwa [List.append_nil, ← List.append_assoc, ← String.toList_append, ← String.toList_append]
    at whole

end Lexer

open Grammar

theorem Token.forall₂_alike_of_map_placeless {left right : List Token}
    (same : left.map placeless = right.map placeless) :
    List.Forall₂ (Alike .exact) left right := by
  have placeless : List.Forall₂ (fun left right => left.placeless = right.placeless) left right :=
    List.forall₂_map_right_iff.mp (List.forall₂_map_left_iff.mp (List.forall₂_eq_eq_eq ▸ same))
  refine placeless.imp fun token tokenRight equal => ?_
  obtain ⟨kind, text, -⟩ := Token.mk.inj equal
  exact ⟨kind, text, fun _ => text⟩

/-- What is read from a text depends on its tokens only up to their places. -/
theorem Grammar.sameResult_parse {α γ : Type} {view : α → γ} {grammar : Grammar α}
    {settings : Settings} {text textRight : String}
    (same : Lexer.unplaced (List.map Token.placeless) (Token.tokenize text) =
      Lexer.unplaced (List.map Token.placeless) (Token.tokenize textRight))
    (matched : Matches ⟨.exact, [], [], 0⟩ ⟨settings, .none⟩ view grammar grammar) :
    SameResult .exact view (grammar.parse settings text) (grammar.parse settings textRight) := by
  unfold Grammar.parse
  obtain ⟨error, errorRight, refused, refusedRight, sameFault, sameToken⟩ |
    ⟨tokens, tokensRight, read, readRight, sameTokens⟩ := Lexer.unplaced_eq_cases same
  · rw [refused, refusedRight]
    exact .error ⟨congrArg Fault.message sameFault, sameToken⟩
  · rw [read, readRight]
    have alike := Cursor.sequence_alike (Token.forall₂_alike_of_map_placeless sameTokens)
    have first : 0 < (Cursor.sequence tokens).length := by simp [Cursor.sequence]
    have abreast : Lockstep.Abreast ⟨.exact, [], [], 0⟩ (Cursor.ofTokens tokens)
        (Cursor.ofTokens tokensRight) := Cursor.abreast_of_alike alike first
    exact (matched _ _ abreast (.inl ⟨rfl, rfl, rfl⟩)).1

/-- Which layout stands between two texts does not matter: both scripts have the same statements, or
both are refused with the same wording and at the same token. The first text must not end in a
comment that takes in the layout. -/
theorem Statement.parseScript_layout {before : String} {tokens : List Token}
    (lexed : Token.tokenize before = .ok tokens) (ended : ¬ Lexer.EndsInLineComment before)
    (after : String) (settings : Settings) (layout layoutRight : Lexer.Layout) :
    let result := parseScript settings (before ++ layout.text ++ after)
    let resultRight := parseScript settings (before ++ layoutRight.text ++ after)
    (∃ statements, result = .ok statements ∧ resultRight = .ok statements) ∨
      ∃ error errorRight, result = .error error ∧ resultRight = .error errorRight ∧
        error.fault.message = errorRight.fault.message ∧ error.token = errorRight.token := by
  intro result resultRight
  obtain ⟨body, last, -, lexes⟩ := Lexer.lexes_of_tokensFrom lexed
  have same := Lexer.unplaced_tokenize (Lexer.lexes_layout lexes ended layout after)
    (Lexer.lexes_layout lexes ended layoutRight after)
  have parsed : SameResult .exact (List.map (Statement.mapTexts Folding.exact.fold)) result
      resultRight := Grammar.sameResult_parse same Statement.matches_script
  rcases parsed.error_or_ok with ⟨error, errorRight, refused, refusedRight, alike⟩ | accepted
  · exact .inr ⟨error, errorRight, refused, refusedRight, alike.message, alike.token⟩
  · obtain ⟨statements, statementsRight, found, foundRight, equal⟩ := accepted
    obtain rfl : statements = statementsRight := by
      simpa only [Folding.exact, Statement.mapTexts_id, List.map_id] using equal
    exact .inl ⟨statements, found, foundRight⟩

/-- A line break and two comments separate words like a blank. -/
theorem Statement.parseScript_layout_drop :
    let before := "ALTER TABLE t DROP"
    let result := parseScript .standard (before ++ " " ++ "COLUMN c")
    let resultRight := parseScript .standard (before ++ "\n/* a * / */# b\n" ++ "COLUMN c")
    ¬ Lexer.EndsInLineComment before ∧
      result = .ok [.alterTable ⟨"t", [⟨.column, .drop, .name "c", []⟩], none⟩] ∧
      resultRight = .ok [.alterTable ⟨"t", [⟨.column, .drop, .name "c", []⟩], none⟩] := by
  intro before result resultRight
  let layout : Lexer.Layout := ⟨" ", ⟨' ', rfl, by decide⟩, .blank (by decide) .nil⟩
  have comments : Lexer.Gaps "/* a * / */# b\n".toList :=
    @Lexer.Gaps.comment " a * / ".toList _ (by decide)
      (@Lexer.Gaps.line ['#'] " b".toList _ (.inl rfl) (by decide) .nil)
  let layoutRight : Lexer.Layout :=
    ⟨"\n/* a * / */# b\n", ⟨'\n', rfl, by decide⟩, .blank (by decide) comments⟩
  have lexed : Token.tokenize before = .ok [⟨.word, "ALTER", ⟨1, 1⟩⟩, ⟨.word, "TABLE", ⟨1, 7⟩⟩,
      ⟨.word, "t", ⟨1, 13⟩⟩, ⟨.word, "DROP", ⟨1, 15⟩⟩, Token.finish ⟨1, 19⟩] :=
    eq_ok_of_toOption (by decide +kernel)
  have ended : ¬ Lexer.EndsInLineComment before :=
    Lexer.not_endsInLineComment (by decide) (by decide)
  have found : result = .ok [.alterTable ⟨"t", [⟨.column, .drop, .name "c", []⟩], none⟩] :=
    eq_ok_of_toOption (by decide +kernel)
  rcases Statement.parseScript_layout lexed ended "COLUMN c" .standard layout layoutRight with
    ⟨statements, foundLeft, foundRight⟩ | ⟨error, _, refused, -⟩
  · exact ⟨ended, found, foundRight.trans (foundLeft.symm.trans found)⟩
  · cases found.symm.trans refused

end TableDdl
