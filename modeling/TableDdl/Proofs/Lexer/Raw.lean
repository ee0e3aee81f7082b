import TableDdl.Proofs.Lexer.Pieces

/-!
# Reading the text of a run of tokens

The text of tokens that were read from some text is read as these tokens again, except that names
without any character are gone. Two kinds of tokens do not come back and are excluded: a literal of
bits with a quote or a backslash inside, because its inside is not written as it was read, and an
integer before a dot, because the two become a number with a fraction.
-/

namespace TableDdl

namespace Token

/-- There is no quote and no backslash between the quotes of a literal of bits. -/
def isClean (token : Token) : Bool :=
  token.kind ≠ .binaryLiteral || (token.text.toList.drop 2).dropLast.all fun character =>
    character ≠ Text.singleQuote && character ≠ Text.backslash

/-- No integer stands directly before a dot. -/
def undotted : List Token → Bool
  | [] => true
  | [_] => true
  | token :: next :: rest =>
      !(token.kind = .integer && next.kind = .dot) && undotted (next :: rest)

/-- The tokens by which a written token is read again. -/
def respelled (token : Token) : List Token :=
  if token.kind = .identifier then Grammar.nameTokens token.text else [token.placeless]

end Token

namespace Lexer

open Scan (Boundary)

variable {operand : Bool} {characters rest left : List Char} {tokens : List Token}

/-- What may follow the text of a token without changing it. -/
def Fits (token : Token) (rest : List Char) : Prop :=
  token.kind = .leftParen ∨ token.kind = .dot ∨
    Boundary rest ∧ (token.kind = .integer → rest.head? ≠ some '.')

/-- The token is read from its own text, whatever fits after it. -/
def Solid (operand : Bool) (token : Token) : Prop :=
  ∀ rest, Fits token rest → Step operand (token.spelling.toList ++ rest) token.respelled rest

theorem fits_number {kind : Token.Kind} {text : String} (notOpen : kind ≠ .leftParen)
    (notDot : kind ≠ .dot) (fits : Fits (.bare kind text) rest) :
    Boundary rest ∧ (kind = .integer → rest.head? ≠ some '.') := by
  rcases fits with isOpen | isDot | boundary
  · exact absurd isOpen notOpen
  · exact absurd isDot notDot
  · exact boundary

theorem kind_of_number {text : List Char} {kind : Token.Kind}
    (scanned : Scan.number characters = (kind, text)) :
    kind = .integer ∨ kind = .float ∨ kind = .word := by
  have form := Scan.number_form characters
  rw [scanned] at form
  cases form with
  | integer => exact .inl rfl
  | word => exact .inr (.inr rfl)
  | float => exact .inr (.inl rfl)

/-- A number is read again from its own text. -/
theorem number_append_of_number {text : List Char} {kind : Token.Kind}
    (scanned : Scan.number characters = (kind, text)) (boundary : Boundary rest)
    (noPoint : kind = .integer → rest.head? ≠ some '.') :
    Scan.number (text ++ rest) = (kind, text) := by
  have again := Scan.number_number scanned
  rw [Scan.number_append boundary (by simpa [again] using noPoint), again]

theorem number_starts {character : Char} {text : List Char} {kind : Token.Kind}
    (digit : character.isDigit = true)
    (scanned : Scan.number (character :: rest) = (kind, text)) :
    ∃ others, text = character :: others := by
  have first : Scan.digits (character :: rest) = character :: Scan.digits rest := by
    simp [Scan.digits, digit]
  have form := Scan.number_form (character :: rest)
  rw [scanned] at form
  cases form with
  | integer => exact ⟨_, first⟩
  | word after starts noExponent => exact ⟨_, by rw [first, List.cons_append]⟩
  | float nonempty => exact ⟨_, by rw [first, List.cons_append, List.cons_append]⟩

theorem closes_clean {text : List Char}
    (clean : ∀ character ∈ text, character ≠ Text.singleQuote ∧ character ≠ Text.backslash)
    (single : rest.head? ≠ some Text.singleQuote) :
    Closes Text.singleQuote true (text ++ Text.singleQuote :: rest) text rest := by
  induction text with
  | nil => exact .close single
  | cons character text ih =>
      obtain ⟨notQuote, notEscape⟩ := clean character (by simp)
      exact .plain notQuote (fun _ => notEscape)
        (ih fun other member => clean other (List.mem_cons_of_mem _ member))

theorem solid_number {character : Char} {text : List Char} {kind : Token.Kind}
    (digit : character.isDigit = true)
    (scanned : Scan.number (character :: rest) = (kind, text)) :
    Solid operand (.bare kind (String.ofList text)) := by
  intro more fits
  have kinds := kind_of_number scanned
  obtain ⟨boundary, noPoint⟩ :=
    fits_number (by rcases kinds with rfl | rfl | rfl <;> decide)
      (by rcases kinds with rfl | rfl | rfl <;> decide) fits
  have again := number_append_of_number scanned boundary noPoint
  obtain ⟨others, rfl⟩ := number_starts digit scanned
  have step : Step operand (character :: (others ++ more))
      [.bare kind (String.ofList (character :: others))]
      ((others ++ more).drop ((character :: others).length - 1)) := .number digit again
  rcases kinds with rfl | rfl | rfl <;>
    simpa [Token.spelling, Token.respelled, Token.placeless] using step

theorem solid_signed {text : List Char} {kind : Token.Kind}
    (digit : rest.head?.any Char.isDigit = true) (scanned : Scan.number rest = (kind, text)) :
    Solid false (.bare kind (String.ofList ('-' :: text))) := by
  intro more fits
  have kinds := kind_of_number scanned
  obtain ⟨boundary, noPoint⟩ :=
    fits_number (by rcases kinds with rfl | rfl | rfl <;> decide)
      (by rcases kinds with rfl | rfl | rfl <;> decide) fits
  have again := number_append_of_number scanned boundary noPoint
  cases rest with
  | nil => simp at digit
  | cons character rest =>
      have isDigit : character.isDigit = true := by simpa using digit
      obtain ⟨others, rfl⟩ := number_starts isDigit scanned
      have step : Step false ('-' :: ((character :: others) ++ more))
          [.bare kind (String.ofList ('-' :: character :: others))]
          (((character :: others) ++ more).drop (character :: others).length) :=
        .signed rfl (by simpa using isDigit) again
      rcases kinds with rfl | rfl | rfl <;>
        simpa [Token.spelling, Token.respelled, Token.placeless] using step

theorem solid_mark {character : Char} {kind : Token.Kind}
    (known : punctuation? character = some kind) :
    Solid operand (.bare kind (String.ofList [character])) := by
  intro more fits
  have symbols : ∀ character ∈ marks, punctuation? character ≠ some .identifier ∧
      punctuation? character ≠ some .quotedString := by
    exact Text.forall_mem_of_all (by decide)
  have notQuoted := symbols character (mem_marks_of_punctuation? known)
  rw [known] at notQuoted
  -- A sign or a slash has a boundary after it, so that it starts no number and no comment.
  have boundary (isSymbol : character = '-' ∨ character = '/') : Boundary more := by
    have isSymbolKind : kind = .symbol := by
      rcases isSymbol with rfl | rfl <;> exact (Option.some.inj known).symm
    subst isSymbolKind
    exact (fits_number (by decide) (by decide) fits).1
  have step : Step operand (character :: more) [.bare kind (String.ofList [character])] more := by
    refine .mark known ?_ ?_ ?_
    · rintro ⟨isMinus, dash⟩
      exact (boundary (.inl isMinus)).ne _ (by decide) dash
    · rintro ⟨isSlash, star⟩
      exact (boundary (.inr isSlash)).ne _ (by decide) star
    · rintro ⟨isMinus, digit, -⟩
      have noDigit := (boundary (.inl isMinus)).isDigit
      cases more with
      | nil => simp at digit
      | cons next others => simp [noDigit next (by simp)] at digit
  have notIdentifier : kind ≠ .identifier := fun same => notQuoted.1 (by rw [same])
  have spelling : (Token.bare kind (String.ofList [character])).spelling.toList = [character] := by
    have notString : kind ≠ .quotedString := fun same => notQuoted.2 (by rw [same])
    cases kind <;> simp_all [Token.spelling]
  rw [spelling]
  simpa [Token.respelled, notIdentifier, Token.placeless] using step

theorem solid_word {character : Char} (notBlank : Text.isBlank character = false)
    (starts : Text.startsWord character = true) :
    Solid operand (.bare .word (String.ofList (character :: Scan.word rest))) := by
  intro more fits
  obtain ⟨boundary, -⟩ := fits_number (by decide) (by decide) fits
  have continues : ∀ other ∈ Scan.word rest, Text.continuesWord other = true :=
    List.all_eq_true.mp List.all_takeWhile
  have step : Step operand (character :: (Scan.word rest ++ more))
      [.bare .word (String.ofList (character :: Scan.word rest))] more :=
    step_word notBlank starts continues boundary
  simpa [Token.spelling, Token.respelled, Token.placeless] using step

theorem solid_binary {character : Char} {text : List Char} (letter : character ∈ binaryMarks)
    (clean : (Token.bare .binaryLiteral (String.ofList
      (character :: Text.singleQuote :: (text ++ [Text.singleQuote])))).isClean = true) :
    Solid operand (.bare .binaryLiteral
      (String.ofList (character :: Text.singleQuote :: (text ++ [Text.singleQuote])))) := by
  intro more fits
  obtain ⟨boundary, -⟩ := fits_number (by decide) (by decide) fits
  have inside : ∀ character ∈ text,
      character ≠ Text.singleQuote ∧ character ≠ Text.backslash := by
    simpa [Token.isClean] using clean
  have step : Step operand (character :: Text.singleQuote :: (text ++ Text.singleQuote :: more))
      [.bare .binaryLiteral (String.ofList
        (character :: Text.singleQuote :: (text ++ [Text.singleQuote])))] more :=
    .binary letter (closes_clean inside (boundary.ne _ (by decide)))
  simpa [Token.spelling, Token.respelled, Token.placeless] using step

/-- Every token that was read is read again from its own text, unless it is a literal of bits with a
quote or a backslash inside. -/
theorem Step.solid (step : Step operand characters tokens left) {token : Token}
    (member : token ∈ tokens) (written : token.isWritten = true) (clean : token.isClean = true)
    {operandNow : Bool} (noOperand : operand = false → operandNow = false) :
    Solid operandNow token := by
  cases step with
  | blank isBlank => simp at member
  | line mark => simp at member
  | comment closed => simp at member
  | string mark closes =>
      obtain rfl := List.mem_singleton.mp member
      intro more fits
      obtain ⟨boundary, -⟩ := fits_number (by decide) (by decide) fits
      exact step_quoteString _ (boundary.ne _ (by decide))
  | @name rest text left closes =>
      have isIdentifier : token = .bare .identifier (String.ofList text) := by
        by_cases empty : text = []
        · simp [nameTokens, empty, backtickToken] at member
          subst member
          exact absurd written (by decide)
        · simp [nameTokens, empty, backtickToken] at member
          rcases member with rfl | rfl | rfl
          · exact absurd written (by decide)
          · rfl
          · exact absurd written (by decide)
      subst isIdentifier
      intro more fits
      obtain ⟨boundary, -⟩ := fits_number (by decide) (by decide) fits
      exact step_quoteName _ (boundary.ne _ (by decide))
  | number digit scanned =>
      obtain rfl := List.mem_singleton.mp member
      exact solid_number digit scanned
  | signed isFalse digit scanned =>
      obtain rfl := List.mem_singleton.mp member
      rw [noOperand isFalse]
      exact solid_signed digit scanned
  | mark known noLine noComment noSign =>
      obtain rfl := List.mem_singleton.mp member
      exact solid_mark known
  | binary letter closes =>
      obtain rfl := List.mem_singleton.mp member
      exact solid_binary letter clean
  | word notBlank starts noBinary =>
      obtain rfl := List.mem_singleton.mp member
      exact solid_word notBlank starts

/-- The tokens before which no space stands have no other text than their mark, and a name has at
least one character. -/
structure Proper (token : Token) : Prop where
  /-- An opening parenthesis. -/
  opening : token.kind = .leftParen → token.text = "("
  /-- A closing parenthesis. -/
  closing : token.kind = .rightParen → token.text = ")"
  /-- A comma. -/
  comma : token.kind = .comma → token.text = ","
  /-- A dot. -/
  dot : token.kind = .dot → token.text = "."
  /-- A name. -/
  name : token.kind = .identifier → token.text ≠ ""

theorem Step.proper (step : Step operand characters tokens left) :
    ∀ token ∈ tokens, Proper token := by
  have number {characters text : List Char} {kind : Token.Kind} {label : String}
      (scanned : Scan.number characters = (kind, text)) : Proper (.bare kind label) := by
    rcases kind_of_number scanned with rfl | rfl | rfl <;> constructor <;> simp
  cases step with
  | blank isBlank => simp
  | line mark => simp
  | comment closed => simp
  | string mark closes =>
      have string (text : String) : Proper (.bare .quotedString text) := by constructor <;> simp
      simpa using string _
  | @name rest text left closes =>
      have backtick : Proper backtickToken := by constructor <;> simp [backtickToken]
      by_cases empty : text = []
      · simpa [nameTokens, empty] using backtick
      · have name : Proper (.bare .identifier (String.ofList text)) := by
          constructor <;> simp [empty]
        simpa [nameTokens, empty, backtick] using name
  | number digit scanned => simpa using number scanned
  | signed noOperand digit scanned => simpa using number scanned
  | @mark character rest kind known noLine noComment noSign =>
      have all : ∀ character ∈ marks, punctuation? character ≠ some .identifier ∧
          (punctuation? character = some .leftParen → character = '(') ∧
          (punctuation? character = some .rightParen → character = ')') ∧
          (punctuation? character = some .comma → character = ',') ∧
          (punctuation? character = some .dot → character = '.') := by
        exact Text.forall_mem_of_all (by decide)
      have marked := all character (mem_marks_of_punctuation? known)
      rw [known] at marked
      intro token member
      obtain rfl := List.mem_singleton.mp member
      simp only [Option.some.injEq, ne_eq] at marked
      constructor
      · intro isOpen
        rw [marked.2.1 isOpen]
        rfl
      · intro isClosed
        rw [marked.2.2.1 isClosed]
        rfl
      · intro isComma
        rw [marked.2.2.2.1 isComma]
        rfl
      · intro isDot
        rw [marked.2.2.2.2 isDot]
        rfl
      · intro isName
        exact absurd isName marked.1
  | binary letter closes =>
      have binary (text : String) : Proper (.bare .binaryLiteral text) := by constructor <;> simp
      simpa using binary _
  | word notBlank starts noBinary =>
      have word (text : String) : Proper (.bare .word text) := by constructor <;> simp
      simpa using word _

/-- A lexeme has at most one token that is written; without one, it leaves an operand or is blank. -/
theorem Step.written (step : Step operand characters tokens left) :
    (tokens.filter Token.isWritten = [] ∧ (tokens = [] ∨ operandAfter operand tokens = true)) ∨
      ∃ token, tokens.filter Token.isWritten = [token] ∧ token ∈ tokens ∧
        token.placeless = token ∧
          ∀ operandNow, operandAfter operandNow token.respelled = operandAfter operand tokens := by
  have one {kind : Token.Kind} {text : String} (notName : kind ≠ .identifier)
      (notBacktick : kind ≠ .backtick) (notEnd : kind ≠ .endOfInput) :
      ∃ token, [Token.bare kind text].filter Token.isWritten = [token] ∧
        token ∈ [Token.bare kind text] ∧ token.placeless = token ∧ ∀ operandNow,
          operandAfter operandNow token.respelled = operandAfter operand [Token.bare kind text] := by
    refine ⟨.bare kind text, ?_, by simp, rfl, fun operandNow => ?_⟩
    · simp [Token.isWritten, Token.isEnd, notBacktick, notEnd]
    · simp [Token.respelled, notName, operandAfter]
  have number {characters text : List Char} {kind : Token.Kind}
      (scanned : Scan.number characters = (kind, text)) :
      kind ≠ .identifier ∧ kind ≠ .backtick ∧ kind ≠ .endOfInput := by
    rcases kind_of_number scanned with rfl | rfl | rfl <;> decide
  cases step with
  | blank isBlank => exact .inl ⟨rfl, .inl rfl⟩
  | line mark => exact .inl ⟨rfl, .inl rfl⟩
  | comment closed => exact .inl ⟨rfl, .inl rfl⟩
  | string mark closes => exact .inr (one (by decide) (by decide) (by decide))
  | @name rest text left closes =>
      by_cases empty : text = []
      · subst empty
        exact .inl ⟨rfl, .inr rfl⟩
      · refine .inr ⟨.bare .identifier (String.ofList text), ?_, ?_, rfl, fun operandNow => ?_⟩
        · simp [nameTokens, empty, backtickToken, Token.isWritten, Token.isEnd]
        · simp [nameTokens, empty]
        · simp [Token.respelled, Grammar.nameTokens, operandAfter, nameTokens, empty]
  | number digit scanned =>
      exact .inr (one (number scanned).1 (number scanned).2.1 (number scanned).2.2)
  | signed noOperand digit scanned =>
      exact .inr (one (number scanned).1 (number scanned).2.1 (number scanned).2.2)
  | @mark character rest kind known noLine noComment noSign =>
      have all : ∀ character ∈ marks, punctuation? character ≠ some .identifier ∧
          punctuation? character ≠ some .backtick ∧ punctuation? character ≠ some .endOfInput := by
        exact Text.forall_mem_of_all (by decide)
      have other := all character (mem_marks_of_punctuation? known)
      rw [known] at other
      exact .inr (one (fun same => other.1 (by rw [same])) (fun same => other.2.1 (by rw [same]))
        (fun same => other.2.2 (by rw [same])))
  | binary letter closes => exact .inr (one (by decide) (by decide) (by decide))
  | word notBlank starts noBinary => exact .inr (one (by decide) (by decide) (by decide))

/-- Tokens that can be written one after the other and are then read again. -/
def Respells : Bool → List Token → Prop
  | _, [] => True
  | operand, token :: others =>
      Solid operand token ∧ Proper token ∧ token.placeless = token ∧
        Respells (operandAfter operand token.respelled) others

theorem Lexes.respells (lexes : Lexes operand characters tokens left)
    (clean : ∀ token ∈ tokens, token.isClean = true) {operandNow : Bool}
    (noOperand : operand = false → operandNow = false) :
    Respells operandNow (tokens.filter Token.isWritten) := by
  induction lexes generalizing operandNow with
  | done => trivial
  | @step operand characters middle left tokens more first others ih =>
      have cleanOthers : ∀ token ∈ more, token.isClean = true :=
        fun token member => clean token (List.mem_append_right _ member)
      rw [List.filter_append]
      rcases first.written with ⟨none, blank⟩ | ⟨token, single, member, placeless, after⟩
      · rw [none, List.nil_append]
        refine ih cleanOthers ?_
        rcases blank with rfl | ended
        · exact noOperand
        · intro isFalse
          rw [ended] at isFalse
          exact Bool.noConfusion isFalse
      · rw [single]
        have written : token ∈ tokens.filter Token.isWritten := by simp [single]
        refine ⟨first.solid member (List.mem_filter.mp written).2
          (clean token (List.mem_append_left _ member)) noOperand, first.proper token member,
          placeless, ih cleanOthers ?_⟩
        rw [after operandNow]
        exact id

/-! ## The text of a run -/

theorem fits_spelledAfter {operand : Bool} {token : Token} {others : List Token}
    (respells : Respells operand others) (undotted : Token.undotted (token :: others) = true)
    (boundary : Boundary rest) (noPoint : rest.head? ≠ some '.') :
    Fits token ((Token.spelledAfter token others).toList ++ rest) := by
  cases others with
  | nil => exact .inr (.inr ⟨by simpa [Token.spelledAfter] using boundary, fun _ => by
      simpa [Token.spelledAfter] using noPoint⟩)
  | cons next others =>
      obtain ⟨-, proper, -⟩ := respells
      have starts (mark : Char) (spelling : next.spelling.toList = [mark])
          (member : mark ∈ Scan.boundaries) (noDot : token.kind = .integer → mark ≠ '.')
          (joined : Token.joined token next = true) :
          Fits token ((Token.spelledAfter token (next :: others)).toList ++ rest) := by
        refine .inr (.inr ?_)
        simp only [Token.spelledAfter, joined, if_true, String.toList_append, spelling]
        exact ⟨Scan.boundary_cons member, fun isInteger => by simpa using noDot isInteger⟩
      have spelled (kind : Token.Kind) (isKind : next.kind = kind) (plain : kind ≠ .identifier)
          (unquoted : kind ≠ .quotedString) : next.spelling = next.text := by
        subst isKind
        cases same : next.kind <;> simp_all [Token.spelling]
      by_cases joined : Token.joined token next = true
      · have cases := joined
        simp only [Token.joined, Bool.or_eq_true, decide_eq_true_eq, Bool.and_eq_true] at cases
        rcases cases with ((((opens | dot) | closes) | comma) | nextDot) | ⟨call, -⟩
        · exact .inl opens
        · exact .inr (.inl dot)
        · refine starts ')' ?_ (by decide) (fun _ => by decide) joined
          rw [spelled _ closes (by decide) (by decide), proper.closing closes]
          decide
        · refine starts ',' ?_ (by decide) (fun _ => by decide) joined
          rw [spelled _ comma (by decide) (by decide), proper.comma comma]
          decide
        · refine starts '.' ?_ (by decide) (fun isInteger => ?_) joined
          · rw [spelled _ nextDot (by decide) (by decide), proper.dot nextDot]
            decide
          · simp [Token.undotted, isInteger, nextDot] at undotted
        · refine starts '(' ?_ (by decide) (fun _ => by decide) joined
          rw [spelled _ call (by decide) (by decide), proper.opening call]
          decide
      · refine .inr (.inr ?_)
        simp only [Token.spelledAfter, joined, String.toList_append]
        exact ⟨Scan.boundary_cons (by decide), fun _ => by simp⟩

theorem undotted_tail {token : Token} {others : List Token}
    (undotted : Token.undotted (token :: others) = true) : Token.undotted others = true := by
  cases others with
  | nil => rfl
  | cons next others =>
      simp only [Token.undotted, Bool.and_eq_true] at undotted
      exact undotted.2

/-- The tokens after one that was read are read again from their text. -/
theorem lexes_spelledAfter {token : Token} {others : List Token}
    (respells : Respells operand others) (undotted : Token.undotted (token :: others) = true)
    (boundary : Boundary rest) (noPoint : rest.head? ≠ some '.') :
    Lexes operand ((Token.spelledAfter token others).toList ++ rest)
      (others.flatMap Token.respelled) rest := by
  induction others generalizing token operand with
  | nil => exact .done
  | cons next others ih =>
      obtain ⟨solid, -, -, respellsOthers⟩ := respells
      have undottedOthers := undotted_tail undotted
      have text : (Token.spelledAfter token (next :: others)).toList ++ rest =
          (if Token.joined token next then [] else [' ']) ++
            (next.spelling.toList ++ ((Token.spelledAfter next others).toList ++ rest)) := by
        by_cases joined : Token.joined token next = true <;> simp [Token.spelledAfter, joined]
      have here : Lexes operand (next.spelling.toList ++
          ((Token.spelledAfter next others).toList ++ rest)) next.respelled
            ((Token.spelledAfter next others).toList ++ rest) :=
        .single (solid _ (fits_spelledAfter respellsOthers undottedOthers boundary noPoint))
      rw [text, List.flatMap_cons]
      have both := here.append (ih respellsOthers undottedOthers)
      by_cases joined : Token.joined token next = true
      · rw [if_pos joined]
        exact both
      · rw [if_neg joined]
        have blank : Step operand (' ' :: (next.spelling.toList ++
            ((Token.spelledAfter next others).toList ++ rest))) []
              (next.spelling.toList ++ ((Token.spelledAfter next others).toList ++ rest)) :=
          .blank (by decide)
        have skipped := Lexes.step blank both
        exact skipped

/-- Tokens that can be written one after the other are read again from their text. -/
theorem Respells.lexes {written : List Token} (respells : Respells operand written)
    (undotted : Token.undotted written = true) (boundary : Boundary rest)
    (noPoint : rest.head? ≠ some '.') :
    Lexes operand ((Token.spelled written).toList ++ rest)
      (written.flatMap Token.respelled) rest := by
  cases written with
  | nil => exact .done
  | cons token others =>
      obtain ⟨solid, -, -, respellsOthers⟩ := respells
      rw [Token.spelled, String.toList_append, List.append_assoc, List.flatMap_cons]
      have fits := fits_spelledAfter respellsOthers undotted boundary noPoint
      exact (Lexes.single (solid _ fits)).append
        (lexes_spelledAfter respellsOthers undotted boundary noPoint)

/-- The text of tokens that were read is read as the tokens that are written. -/
theorem Lexes.renderRaw (lexes : Lexes operand characters tokens left)
    (clean : ∀ token ∈ tokens, token.isClean = true)
    (undotted : Token.undotted (tokens.filter Token.isWritten) = true) {operandNow : Bool}
    (noOperand : operand = false → operandNow = false) (boundary : Boundary rest)
    (noPoint : rest.head? ≠ some '.') :
    Lexes operandNow ((Token.renderRaw tokens).toList ++ rest)
      ((tokens.filter Token.isWritten).flatMap Token.respelled) rest :=
  (lexes.respells clean noOperand).lexes undotted boundary noPoint

/-! ## What is written again -/

theorem filter_respelled {token : Token} (written : token.isWritten = true) (proper : Proper token)
    (placeless : token.placeless = token) : token.respelled.filter Token.isWritten = [token] := by
  rw [Token.respelled]
  split
  · rename_i isName
    rw [Grammar.nameTokens_eq (proper.name isName)]
    have same : Token.bare .identifier token.text = token := by
      rw [← isName]
      exact placeless
    simp [same, written, show backtickToken.isWritten = false by decide]
  · simp [placeless, written]

/-- The tokens that are read again have the same text. -/
theorem Lexes.filter_flatMap_respelled (lexes : Lexes operand characters tokens left)
    (clean : ∀ token ∈ tokens, token.isClean = true) :
    ((tokens.filter Token.isWritten).flatMap Token.respelled).filter Token.isWritten =
      tokens.filter Token.isWritten := by
  have respells : Respells operand (tokens.filter Token.isWritten) := lexes.respells clean id
  have allWritten : ∀ token ∈ tokens.filter Token.isWritten, token.isWritten = true :=
    fun token member => (List.mem_filter.mp member).2
  generalize tokens.filter Token.isWritten = written at respells allWritten
  clear lexes clean
  induction written generalizing operand with
  | nil => rfl
  | cons token others ih =>
      obtain ⟨-, proper, placeless, respellsOthers⟩ := respells
      rw [List.flatMap_cons, List.filter_append,
        filter_respelled (allWritten token (by simp)) proper placeless,
        ih respellsOthers fun other member => allWritten other (List.mem_cons_of_mem _ member)]
      rfl

theorem depth?_cons_of_other {depth : Nat} {token : Token} {others : List Token}
    (notOpen : token.kind ≠ .leftParen) (notClosed : token.kind ≠ .rightParen) :
    Token.depth? depth (token :: others) = Token.depth? depth others := by
  cases kind : token.kind with
  | leftParen => exact absurd kind notOpen
  | rightParen => exact absurd kind notClosed
  | _ => simp only [Token.depth?, kind]

theorem depth?_filter (depth : Nat) (tokens : List Token) :
    Token.depth? depth (tokens.filter Token.isWritten) = Token.depth? depth tokens := by
  induction tokens generalizing depth with
  | nil => rfl
  | cons token others ih =>
      by_cases written : token.isWritten = true
      · rw [List.filter_cons_of_pos written]
        simp only [Token.depth?, ih]
      · rw [List.filter_cons_of_neg written, ih, depth?_cons_of_other]
        · intro isOpen
          simp [Token.isWritten, Token.isEnd, isOpen] at written
        · intro isClosed
          simp [Token.isWritten, Token.isEnd, isClosed] at written

theorem depth?_respelled (depth : Nat) (token : Token) (others : List Token) :
    Token.depth? depth (token.respelled ++ others) = Token.depth? depth (token :: others) := by
  rw [Token.respelled]
  split
  · rename_i isName
    rw [depth?_cons_of_other (by simp [isName]) (by simp [isName])]
    by_cases empty : token.text.toList = []
    · simp [Grammar.nameTokens, nameTokens, empty, backtickToken, Token.depth?]
    · simp [Grammar.nameTokens, nameTokens, empty, backtickToken, Token.depth?]
  · rfl

/-- The tokens that are read again have the same parentheses. -/
theorem depth?_flatMap_respelled (depth : Nat) (tokens : List Token) :
    Token.depth? depth ((tokens.filter Token.isWritten).flatMap Token.respelled) =
      Token.depth? depth tokens := by
  rw [← depth?_filter depth tokens]
  generalize tokens.filter Token.isWritten = written
  induction written generalizing depth with
  | nil => rfl
  | cons token others ih =>
      rw [List.flatMap_cons, depth?_respelled]
      simp only [Token.depth?, ih]

/-! ## Reading the text of a text -/

theorem undotted_map_placeless (tokens : List Token) :
    Token.undotted (tokens.map Token.placeless) = Token.undotted tokens := by
  fun_induction Token.undotted tokens with
  | case1 => rfl
  | case2 => rfl
  | case3 token next rest ih =>
      rw [List.map_cons, List.map_cons, Token.undotted, ← List.map_cons, ih]
      rfl

theorem filter_map_placeless (tokens : List Token) :
    (tokens.map Token.placeless).filter Token.isWritten =
      (tokens.filter Token.isWritten).map Token.placeless := by
  rw [List.filter_map]
  rfl

/-- An end of input is not written. -/
theorem filter_append_finish (body : List Token) (last : Location) :
    (body ++ [Token.finish last]).filter Token.isWritten = body.filter Token.isWritten := by
  simp [Token.isWritten, Token.isEnd, Token.finish]

end Lexer

/-- The text of the tokens of a text, with its spaces in the normalized places, is read as the same
tokens again, up to the backticks of names without any character. So putting the tokens together a
second time changes nothing. -/
theorem Token.tokenize_renderRaw {text : String} {tokens : List Token}
    (read : tokenize text = .ok tokens) (clean : ∀ token ∈ tokens, token.isClean = true)
    (separate : undotted (tokens.filter isWritten) = true) :
    ∃ again, tokenize (renderRaw tokens) = .ok again ∧
      (again.filter isWritten).map (fun token => (token.kind, token.text)) =
        (tokens.filter isWritten).map (fun token => (token.kind, token.text)) ∧
      renderRaw again = renderRaw tokens := by
  obtain ⟨body, last, rfl, lexes⟩ := Lexer.lexes_of_tokensFrom read
  have cleanBody : ∀ token ∈ body.map placeless, token.isClean = true := by
    rintro _ member
    obtain ⟨token, inBody, rfl⟩ := List.mem_map.mp member
    exact clean token (List.mem_append_left _ inBody)
  rw [Lexer.filter_append_finish] at separate ⊢
  have text : renderRaw (body ++ [finish last]) = renderRaw (body.map placeless) := by
    rw [renderRaw_map_placeless, renderRaw, renderRaw, Lexer.filter_append_finish]
  have lexesAgain := lexes.renderRaw cleanBody
    (by rwa [Lexer.filter_map_placeless, Lexer.undotted_map_placeless]) id Scan.boundary_nil
    (by simp)
  rw [List.append_nil, ← text] at lexesAgain
  obtain ⟨bodyAgain, lastAgain, readAgain, same⟩ := Lexer.tokenize_iff.mpr lexesAgain
  -- Without places, the tokens that are written are the same.
  have written : (bodyAgain.filter isWritten).map placeless =
      (body.filter isWritten).map placeless := by
    rw [← Lexer.filter_map_placeless, same, lexes.filter_flatMap_respelled cleanBody,
      Lexer.filter_map_placeless]
  refine ⟨_, readAgain, ?_, ?_⟩
  · have pairs := congrArg (List.map fun token : Token => (token.kind, token.text)) written
    rw [Lexer.filter_append_finish]
    simpa [Function.comp_def] using pairs
  · rw [text, ← renderRaw_map_placeless, renderRaw, renderRaw, Lexer.filter_map_placeless,
      Lexer.filter_append_finish, written, Lexer.filter_map_placeless]

/-- After a name without any character a minus sign is an operator, and it stays one without the
name; a sign that belongs to its number stays with it. -/
theorem Token.tokenize_renderRaw_signs :
    let text := "`` -5.e3 IN(-1,`a b` .c,x'0F')"
    ∃ tokens again, tokenize text = .ok tokens ∧
      renderRaw tokens = "- 5.e3 IN (-1, `a b`.c, x'0F')" ∧
      tokenize (renderRaw tokens) = .ok again ∧
      (again.filter isWritten).map (fun token => (token.kind, token.text)) =
        (tokens.filter isWritten).map (fun token => (token.kind, token.text)) := by
  intro text
  obtain ⟨tokens, found⟩ : ∃ tokens, (tokenize text).toOption = some tokens :=
    Option.isSome_iff_exists.mp (by decide +kernel)
  have read : tokenize text = .ok tokens := by
    cases result : tokenize text with
    | error error => simp [result, Except.toOption] at found
    | ok read => simpa [result, Except.toOption] using found
  have checked : (tokenize text).toOption.all (fun tokens =>
      tokens.all isClean && undotted (tokens.filter isWritten) &&
        decide (renderRaw tokens = "- 5.e3 IN (-1, `a b`.c, x'0F')")) = true := by
    decide +kernel
  simp only [found, Option.all_some, Bool.and_eq_true, List.all_eq_true, decide_eq_true_eq]
    at checked
  obtain ⟨⟨clean, separate⟩, written⟩ := checked
  obtain ⟨again, readAgain, same, -⟩ := tokenize_renderRaw read clean separate
  exact ⟨tokens, again, read, written, readAgain, same⟩

end TableDdl
