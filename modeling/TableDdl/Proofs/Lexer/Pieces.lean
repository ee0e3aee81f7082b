import TableDdl.Proofs.Grammar.Sequences
import TableDdl.Proofs.Number.Integers

/-!
# The tokens of pieces of text

The text of a statement is made of pieces: words, marks and blanks that are the same for every
statement, and names, strings and numbers between them. Each piece is read as its own tokens,
whatever follows; a piece that ends with a word or a number must have something after it that does
not go on with it.
-/

namespace TableDdl

namespace Lexer

open Scan (Boundary)

variable {operand : Bool} {rest left : List Char} {tokens more : List Token}

/-! ## Words, marks and blanks -/

/-- The characters of keywords. -/
def isKeywordCharacter (character : Char) : Bool := character.isUpper || character = '_'

/-- The characters that are tokens by themselves in the text of a statement. -/
def plainMarks : List Char := ['(', ')', ',', '=']

/-- The word that is being read, as tokens. -/
def wordTokens (word : List Char) : List Token :=
  if word = [] then [] else [.bare .word (String.ofList word)]

/-- The token of a mark; a blank has none. -/
def markTokens (character : Char) : List Token :=
  match punctuation? character with
  | some kind => [.bare kind (String.ofList [character])]
  | none => []

/-- The tokens of keywords, marks and blanks, and whether a word ends the text; `none` if there is
anything else. The word that is being read is given. -/
def plainFrom (word : List Char) : List Char → Option (List Token × Bool)
  | [] => some (wordTokens word, !word.isEmpty)
  | character :: rest =>
      if isKeywordCharacter character then plainFrom (word ++ [character]) rest
      else if character = ' ' ∨ character = '\n' ∨ character ∈ plainMarks then
        (plainFrom [] rest).map fun found =>
          (wordTokens word ++ markTokens character ++ found.1, found.2)
      else none

/-- The tokens of a text of keywords, marks and blanks, and whether a word ends it. -/
def plain? (text : String) : Option (List Token × Bool) := plainFrom [] text.toList

theorem startsWord_of_isKeywordCharacter {character : Char}
    (keyword : isKeywordCharacter character = true) :
    Text.isBlank character = false ∧ Text.startsWord character = true := by
  simp only [isKeywordCharacter, Bool.or_eq_true, decide_eq_true_eq] at keyword
  rcases keyword with upper | rfl
  · have bounds : 65 ≤ character.toNat ∧ character.toNat ≤ 90 := of_decide_eq_true upper
    constructor
    · simp only [Text.isBlank, Text.inRanges, Text.blankRanges, List.any_cons, List.any_nil,
        Bool.or_false, Bool.or_eq_false_iff, Bool.and_eq_false_iff, decide_eq_false_iff_not]
      omega
    · have letter : Text.isLetter character = true := by
        have alpha : character.isAlpha = (character.isUpper || character.isLower) := rfl
        rw [Text.isLetter, if_pos (by omega), alpha, upper, Bool.true_or]
      simp [Text.startsWord, letter]
  · decide

/-- A word is read as itself before what does not go on with it. -/
theorem step_word {character : Char} {others : List Char}
    (notBlank : Text.isBlank character = false) (starts : Text.startsWord character = true)
    (continues : ∀ other ∈ others, Text.continuesWord other = true) (boundary : Boundary rest) :
    Step operand (character :: (others ++ rest))
      [.bare .word (String.ofList (character :: others))] rest := by
  have word : Scan.word (others ++ rest) = others := by
    rw [Scan.word_append boundary, Scan.word_of_all continues]
  have noQuote : (others ++ rest).head? ≠ some Text.singleQuote := by
    cases others with
    | nil => exact boundary.ne _ (by decide)
    | cons next others =>
        intro quote
        have continuesNext := continues next (by simp)
        obtain rfl : next = Text.singleQuote := by simpa using quote
        exact absurd continuesNext (by decide)
  have step : Step operand (character :: (others ++ rest))
      [.bare .word (String.ofList (character :: Scan.word (others ++ rest)))]
      ((others ++ rest).drop (Scan.word (others ++ rest)).length) :=
    .word notBlank starts fun binary => noQuote binary.2
  rwa [word, List.drop_left] at step

theorem lexes_wordTokens {word : List Char}
    (keyword : ∀ character ∈ word, isKeywordCharacter character = true)
    (boundary : word ≠ [] → Boundary rest) :
    Lexes operand (word ++ rest) (wordTokens word) rest := by
  cases word with
  | nil => exact .done
  | cons character others =>
      obtain ⟨notBlank, starts⟩ := startsWord_of_isKeywordCharacter (keyword character (by simp))
      have continues : ∀ other ∈ others, Text.continuesWord other = true := fun other member =>
        Scan.continuesWord_of_startsWord (startsWord_of_isKeywordCharacter
          (keyword other (List.mem_cons_of_mem _ member))).2
      exact .single (step_word notBlank starts continues (boundary (by simp)))

theorem lexes_markTokens {character : Char}
    (known : character = ' ' ∨ character = '\n' ∨ character ∈ plainMarks) :
    Lexes operand (character :: rest) (markTokens character) rest := by
  have blank (isBlank : Text.isBlank character = true) (noMark : markTokens character = []) :
      Lexes operand (character :: rest) (markTokens character) rest := by
    rw [noMark]
    exact .single (.blank isBlank)
  rcases known with rfl | rfl | mark
  · exact blank (by decide) (by decide)
  · exact blank (by decide) (by decide)
  · have marks : ∀ character ∈ plainMarks, character ≠ '-' ∧ character ≠ '/' ∧
        (punctuation? character).isSome = true := by
      exact Text.forall_mem_of_all (by decide)
    obtain ⟨notMinus, notSlash, known⟩ := marks character mark
    obtain ⟨kind, known⟩ := Option.isSome_iff_exists.mp known
    have tokens : markTokens character = [.bare kind (String.ofList [character])] := by
      simp [markTokens, known]
    rw [tokens]
    exact .single (.mark known (fun bad => notMinus bad.1) (fun bad => notSlash bad.1)
      (fun bad => notMinus bad.1))

theorem lexes_plainFrom {word text : List Char} {open? : Bool}
    (keyword : ∀ character ∈ word, isKeywordCharacter character = true)
    (found : plainFrom word text = some (tokens, open?)) (boundary : open? = true → Boundary rest) :
    Lexes operand (word ++ (text ++ rest)) tokens rest := by
  induction text generalizing word operand tokens with
  | nil =>
      obtain ⟨rfl, rfl⟩ : wordTokens word = tokens ∧ (!word.isEmpty) = open? := by
        simpa [plainFrom] using found
      exact lexes_wordTokens keyword fun nonempty => boundary (by simpa using nonempty)
  | cons character text ih =>
      rw [plainFrom] at found
      split at found
      · rename_i isKeyword
        have longer : ∀ other ∈ word ++ [character], isKeywordCharacter other = true := by
          intro other member
          rcases List.mem_append.mp member with here | last
          · exact keyword other here
          · rwa [List.mem_singleton.mp last]
        have lexes : Lexes operand (word ++ [character] ++ (text ++ rest)) tokens rest :=
          ih longer found
        rwa [List.append_assoc] at lexes
      split at found
      · rename_i known
        obtain ⟨⟨others, openOthers⟩, foundOthers, same⟩ := Option.map_eq_some_iff.mp found
        obtain ⟨rfl, rfl⟩ := Prod.mk.inj same
        rw [List.append_assoc]
        have start : Boundary (character :: (text ++ rest)) := by
          refine Scan.boundary_cons ?_
          have all : ∀ character ∈ ' ' :: '\n' :: plainMarks, character ∈ Scan.boundaries := by
            exact Text.forall_mem_of_all (by decide)
          exact all character (by simpa using known)
        refine (lexes_wordTokens keyword fun _ => start).append ?_
        refine (lexes_markTokens known).append ?_
        have lexesOthers (operand : Bool) : Lexes operand ([] ++ (text ++ rest)) others rest :=
          ih (by simp) foundOthers
        exact lexesOthers _
      · simp at found

/-- A piece that ends with a mark or a blank. -/
theorem lexes_closed {text : String} (found : plain? text = some (tokens, false)) :
    Lexes operand (text.toList ++ rest) tokens rest := by
  have lexes : Lexes operand ([] ++ (text.toList ++ rest)) tokens rest :=
    lexes_plainFrom (by simp) found (by simp)
  exact lexes

/-- A piece that ends with a word. -/
theorem lexes_open {text : String} (found : plain? text = some (tokens, true))
    (boundary : Boundary rest) : Lexes operand (text.toList ++ rest) tokens rest := by
  have lexes : Lexes operand ([] ++ (text.toList ++ rest)) tokens rest :=
    lexes_plainFrom (by simp) found fun _ => boundary
  exact lexes

/-! ## Names and strings -/

/-- A text whose marks and, where there are escapes, backslashes are doubled is read back. -/
theorem closes_doubling {mark : Char} {escapes : Bool} {isDoubled : Char → Bool}
    (doublesMark : isDoubled mark = true)
    (doublesOthers : ∀ character, character ≠ mark →
      isDoubled character = true → escapes = true ∧ character = Text.backslash)
    (doublesEscape : escapes = true → isDoubled Text.backslash = true)
    (text : List Char) (single : rest.head? ≠ some mark) :
    Closes mark escapes (Text.doubling isDoubled text ++ mark :: rest) text rest := by
  induction text with
  | nil => exact .close single
  | cons character text ih =>
      rw [Text.doubling]
      split
      · rename_i doubled
        by_cases isMark : character = mark
        · subst isMark
          exact .doubled ih
        · obtain ⟨isEscape, rfl⟩ := doublesOthers character isMark doubled
          exact .escape isEscape ih
      · rename_i notDoubled
        refine .plain ?_ ?_ ih
        · rintro rfl
          exact notDoubled doublesMark
        · rintro isEscape rfl
          exact notDoubled (doublesEscape isEscape)

theorem step_quoteName (name : String) (single : rest.head? ≠ some Text.backtick) :
    Step operand ((Text.quoteName name).toList ++ rest) (Grammar.nameTokens name) rest := by
  have text : (Text.quoteName name).toList ++ rest =
      Text.backtick ::
        (Text.doubling (· == Text.backtick) name.toList ++ Text.backtick :: rest) := by
    simp [Text.quoteName]
  rw [text]
  refine .name (closes_doubling (by decide) ?_ (by simp) _ single)
  intro character other same
  exact absurd (by simpa using same) other

theorem step_quoteString (text : String) (single : rest.head? ≠ some Text.singleQuote) :
    Step operand ((Text.quoteString text).toList ++ rest) [.bare .quotedString text] rest := by
  have quoted : (Text.quoteString text).toList ++ rest = Text.singleQuote ::
      (Text.doubling (fun character => character == Text.backslash || character == Text.singleQuote)
        text.toList ++ Text.singleQuote :: rest) := by
    simp [Text.quoteString]
  have step : Step operand ((Text.quoteString text).toList ++ rest)
      [.bare .quotedString (String.ofList text.toList)] rest := by
    rw [quoted]
    refine .string (.inl rfl) (closes_doubling (by decide) ?_ (by decide) _ single)
    intro character other doubled
    refine ⟨rfl, ?_⟩
    simpa [other] using doubled
  rwa [String.ofList_toList] at step

/-! ## Numbers -/

/-- An integer is read as itself, with a sign where no operand has ended before. -/
theorem step_integer {sign digits : List Char} (signed : Text.IsSign sign)
    (whole : Text.IsDigits digits) (noOperand : sign ≠ [] → operand = false)
    (ends : Scan.EndsInteger rest) :
    Step operand (sign ++ digits ++ rest) [.bare .integer (String.ofList (sign ++ digits))]
      rest := by
  have scanned := Scan.number_of_digits whole ends
  obtain ⟨first, others, rfl⟩ := List.exists_cons_of_ne_nil whole.1
  have digit : first.isDigit = true := whole.2 first List.mem_cons_self
  rcases signed with rfl | rfl
  · have step : Step operand (first :: (others ++ rest)) _ _ := .number digit scanned
    simpa using step
  · have step : Step operand ('-' :: (first :: others ++ rest)) _ _ :=
      .signed (noOperand (by simp)) (by simpa using digit) scanned
    simpa using step

/-- An integer is written as a sign that may be missing and digits. -/
theorem exists_writeInt (value : Int) :
    ∃ sign digits, Text.IsSign sign ∧ Text.IsDigits digits ∧
      (Number.writeInt value).toList = sign ++ digits := by
  have whole (number : Nat) : Text.IsDigits (Nat.toDigits 10 number) :=
    ⟨Nat.toDigits_ne_nil, Number.all_isDigit_toDigits number⟩
  cases value with
  | ofNat number =>
      exact ⟨[], _, .inl rfl, whole number, by simp [Number.writeInt, Number.writeNat]⟩
  | negSucc number =>
      exact ⟨['-'], _, .inr rfl, whole (number + 1), by simp [Number.writeInt, Number.writeNat]⟩

theorem step_writeInt (value : Int) (ends : Scan.EndsInteger rest)
    (unsigned : operand = true → (Number.writeInt value).toList.head? ≠ some '-') :
    Step operand ((Number.writeInt value).toList ++ rest)
      [.bare .integer (Number.writeInt value)] rest := by
  obtain ⟨sign, digits, signed, whole, text⟩ := exists_writeInt value
  have noOperand : sign ≠ [] → operand = false := by
    intro isSigned
    obtain rfl := signed.resolve_left isSigned
    rw [Bool.eq_false_iff]
    exact fun isTrue => unsigned isTrue (by simp [text])
  have step := step_integer signed whole noOperand ends
  rwa [← text, String.ofList_toList] at step

theorem step_writeNat (value : Nat) (boundary : Boundary rest) (noPoint : rest.head? ≠ some '.') :
    Step operand ((Number.writeNat value).toList ++ rest)
      [.bare .integer (Number.writeNat value)] rest := by
  have whole : Text.IsDigits (Number.writeNat value).toList := by
    rw [Number.writeNat, String.toList_ofList]
    exact ⟨Nat.toDigits_ne_nil, Number.all_isDigit_toDigits value⟩
  simpa using step_integer (.inl rfl) whole (by simp) (boundary.endsInteger noPoint)

/-! ## Lists -/

/-- The characters that stand between the pieces of a statement. -/
def gaps : List Char := [' ', '\n', ',', '(', ')', '=']

/-- The text is empty or goes on with another piece. -/
def Gap (rest : List Char) : Prop := ∀ character ∈ rest.head?, character ∈ gaps

theorem gap_nil : Gap [] := by simp [Gap]

theorem gap_cons {character : Char} (member : character ∈ gaps) : Gap (character :: rest) := by
  simpa [Gap] using member

theorem Gap.boundary (gap : Gap rest) : Boundary rest := by
  have all : ∀ character ∈ gaps, Scan.endsRun character = true :=
    Text.forall_mem_of_all (by decide)
  exact fun character member => all character (gap character member)

theorem Gap.noPoint (gap : Gap rest) : rest.head? ≠ some '.' := by
  intro point
  exact absurd (gap '.' point) (by decide)

/-- Items with a separator between them that is read as a comma. -/
theorem lexes_intercalate {α : Type} (allowed : Bool → Prop) {render : α → String}
    {spell : α → List Token} {separator : String}
    (isComma : plain? separator = some ([Token.comma], false))
    (start : ∀ rest, Gap (separator.toList ++ rest)) (afterComma : allowed false)
    {items : List α}
    (lexes : ∀ item ∈ items, ∀ operand rest, allowed operand → Gap rest →
      Lexes operand ((render item).toList ++ rest) (spell item) rest)
    (isAllowed : allowed operand) (gap : Gap rest) :
    Lexes operand ((separator.intercalate (items.map render)).toList ++ rest)
      (Token.separated spell items) rest := by
  induction items generalizing operand with
  | nil => exact .done
  | cons first others ih =>
      cases others with
      | nil =>
          simpa [Token.separated] using lexes first (by simp) operand rest isAllowed gap
      | cons second others =>
          have text : (separator.intercalate ((first :: second :: others).map render)).toList ++
              rest = (render first).toList ++ (separator.toList ++
                ((separator.intercalate ((second :: others).map render)).toList ++ rest)) := by
            simp [String.intercalate_cons_cons]
          rw [text, Token.separated]
          refine (lexes first (by simp) operand _ isAllowed (start _)).append ?_
          have separatorLexes (operand : Bool) (rest : List Char) :
              Lexes operand (separator.toList ++ rest) [Token.comma] rest := lexes_closed isComma
          refine (separatorLexes _ _).append (ih ?_ afterComma)
          exact fun item member => lexes item (List.mem_cons_of_mem _ member)

/-! ## Putting pieces together -/

/-- The text is read as the tokens wherever a gap follows. -/
def Spelled (operand : Bool) (text : String) (tokens : List Token) : Prop :=
  ∀ rest, Gap rest → Lexes operand (text.toList ++ rest) tokens rest

/-- The text is read as the tokens, whatever follows. -/
def Closed (operand : Bool) (text : String) (tokens : List Token) : Prop :=
  ∀ rest, Lexes operand (text.toList ++ rest) tokens rest

/-- There is a gap before the text. -/
def Gapped (text : String) : Prop := ∀ rest, Gap rest → Gap (text.toList ++ rest)

theorem gapped_empty : Gapped "" := fun _ gap => gap

/-- The first character of the text is one that stands between pieces. -/
def startsGap (text : String) : Bool := text.toList.head?.any (gaps.contains ·)

theorem gap_of_startsGap {text : String} (starts : startsGap text = true) (rest : List Char) :
    Gap (text.toList ++ rest) := by
  cases found : text.toList with
  | nil => simp [startsGap, found] at starts
  | cons character others => exact gap_cons (by simpa [startsGap, found] using starts)

theorem gapped_of_startsGap {text : String} (starts : startsGap text = true) : Gapped text :=
  fun rest _ => gap_of_startsGap starts rest

theorem Gapped.append {first second : String} (before : Gapped first) (after : Gapped second) :
    Gapped (first ++ second) := by
  intro rest gap
  rw [String.toList_append, List.append_assoc]
  exact before _ (after rest gap)

/-- What starts with a gap does so whatever follows it. -/
theorem gapped_append {first second : String} (starts : startsGap first = true) :
    Gapped (first ++ second) := by
  intro rest _
  rw [String.toList_append, List.append_assoc]
  exact gap_of_startsGap starts _

theorem closed_plain {text : String} (found : plain? text = some (tokens, false)) :
    Closed operand text tokens :=
  fun _ => lexes_closed found

theorem spelled_plain {text : String} (found : plain? text = some (tokens, true)) :
    Spelled operand text tokens :=
  fun _ gap => lexes_open found gap.boundary

theorem Closed.spelled {text : String} (closed : Closed operand text tokens) :
    Spelled operand text tokens :=
  fun rest _ => closed rest

theorem spelled_empty : Spelled operand "" [] := fun _ _ => .done

theorem spelled_quoteName (name : String) :
    Spelled operand (Text.quoteName name) (Grammar.nameTokens name) :=
  fun _ gap => .single (step_quoteName name (gap.boundary.ne _ (by decide)))

theorem spelled_quoteString (text : String) :
    Spelled operand (Text.quoteString text) [.bare .quotedString text] :=
  fun _ gap => .single (step_quoteString text (gap.boundary.ne _ (by decide)))

theorem spelled_writeNat (value : Nat) :
    Spelled operand (Number.writeNat value) [.bare .integer (Number.writeNat value)] :=
  fun _ gap => .single (step_writeNat value gap.boundary gap.noPoint)

theorem Spelled.append {first second : String} (before : Spelled operand first tokens)
    (after : Spelled (operandAfter operand tokens) second more) (gapped : Gapped second) :
    Spelled operand (first ++ second) (tokens ++ more) := by
  intro rest gap
  rw [String.toList_append, List.append_assoc]
  exact (before _ (gapped rest gap)).append (after rest gap)

theorem Spelled.append_closed {first second : String} (before : Spelled operand first tokens)
    (after : Closed (operandAfter operand tokens) second more)
    (starts : startsGap second = true) : Closed operand (first ++ second) (tokens ++ more) := by
  intro rest
  rw [String.toList_append, List.append_assoc]
  exact (before _ (gap_of_startsGap starts rest)).append (after rest)

theorem Closed.append {first second : String} (before : Closed operand first tokens)
    (after : Spelled (operandAfter operand tokens) second more) :
    Spelled operand (first ++ second) (tokens ++ more) := by
  intro rest gap
  rw [String.toList_append, List.append_assoc]
  exact (before _).append (after rest gap)

theorem closed_empty : Closed operand "" [] := fun _ => .done

theorem Closed.append_closed {first second : String} (before : Closed operand first tokens)
    (after : Closed (operandAfter operand tokens) second more) :
    Closed operand (first ++ second) (tokens ++ more) := by
  intro rest
  rw [String.toList_append, List.append_assoc]
  exact (before _).append (after rest)

/-- A text with a gap before it that is read as the tokens. -/
structure Attached (text : String) (tokens : List Token) : Prop where
  spelled : ∀ operand, Spelled operand text tokens
  gapped : Gapped text

theorem attached_empty : Attached "" [] := ⟨fun _ => spelled_empty, gapped_empty⟩

theorem Attached.append {first second : String} (before : Attached first tokens)
    (after : Attached second more) : Attached (first ++ second) (tokens ++ more) :=
  ⟨fun operand => (before.spelled operand).append (after.spelled _) after.gapped,
    before.gapped.append after.gapped⟩

theorem Spelled.attach {first second : String} (before : Spelled operand first tokens)
    (after : Attached second more) : Spelled operand (first ++ second) (tokens ++ more) :=
  before.append (after.spelled _) after.gapped

/-- A piece with a gap before it, and what follows it. -/
theorem attached_closed {first second : String} (found : plain? first = some (tokens, false))
    (starts : startsGap first = true)
    (after : ∀ operand, Spelled (operandAfter operand tokens) second more) :
    Attached (first ++ second) (tokens ++ more) :=
  ⟨fun operand => (closed_plain found).append (after operand), gapped_append starts⟩

theorem attached_open {text : String} (found : plain? text = some (tokens, true))
    (starts : startsGap text = true) : Attached text tokens :=
  ⟨fun _ => spelled_plain found, gapped_of_startsGap starts⟩

/-- Items between parentheses, with a separator that is read as a comma; other words may follow in
one piece with the last parenthesis. -/
theorem closed_enclosed {α : Type} {opening separator closing : String} {render : α → String}
    {spell : α → List Token} {items : List α}
    (isOpening : plain? opening = some ([Token.opening], false))
    (isComma : plain? separator = some ([Token.comma], false))
    (isClosing : plain? closing = some (Token.closing :: more, false))
    (startsComma : startsGap separator = true) (startsClosing : startsGap closing = true)
    (spelled : ∀ item ∈ items, Spelled false (render item) (spell item)) :
    Closed operand (opening ++ separator.intercalate (items.map render) ++ closing)
      (Token.enclosed spell items ++ more) := by
  have list : Spelled false (separator.intercalate (items.map render))
      (Token.separated spell items) := by
    intro rest gap
    refine lexes_intercalate (fun operand => operand = false) isComma
      (gap_of_startsGap startsComma) rfl ?_ rfl gap
    rintro item member operand rest rfl gap
    exact spelled item member rest gap
  have opened : Spelled operand (opening ++ separator.intercalate (items.map render))
      (Token.opening :: Token.separated spell items) :=
    (closed_plain isOpening).append list
  have closed := opened.append_closed (closed_plain isClosing) startsClosing
  simpa [Token.enclosed] using closed

end Lexer

end TableDdl
