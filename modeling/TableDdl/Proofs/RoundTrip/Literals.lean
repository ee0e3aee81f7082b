import TableDdl.Proofs.Grammar.Parse
import TableDdl.Proofs.Lexer.Raw
import TableDdl.Proofs.Number.Doubles

/-!
# Canonical literals are read back

A literal that is kept as text is canonical if the text is that of one word, of one literal of bits
or of one number out of range, or if it is an expression in parentheses, with or without a word
before them. Every other literal is canonical. The text of a canonical literal is read as tokens
that do not depend on what follows, and from these tokens the literal is read again.
-/

namespace TableDdl

namespace Token

/-- The tokens of a text, without their places and without the end of input. -/
def read? (text : String) : Option (List Token) :=
  (tokenize text).toOption.map fun tokens => tokens.dropLast.map placeless

theorem read?_eq_some_iff {text : String} {tokens : List Token} :
    read? text = some tokens ↔ Lexer.Lexes false text.toList tokens [] := by
  rw [← Lexer.tokenize_iff]
  constructor
  · intro read
    obtain ⟨all, found, rfl⟩ := Option.map_eq_some_iff.mp read
    cases tokenized : tokenize text with
    | error error => simp [tokenized, Except.toOption] at found
    | ok tokens =>
        obtain rfl : tokens = all := by simpa [tokenized, Except.toOption] using found
        obtain ⟨body, last, rfl, -⟩ := Lexer.lexes_of_tokensFrom tokenized
        exact ⟨body, last, rfl, by simp⟩
  · rintro ⟨body, last, found, rfl⟩
    simp [read?, found, Except.toOption]

/-- The text is that of one token of the kind. -/
def Single (kind : Kind) (text : String) : Prop := read? text = some [.bare kind text]

instance (kind : Kind) (text : String) : Decidable (Single kind text) :=
  inferInstanceAs (Decidable (_ = _))

/-- The text is that of the tokens of some text, in which parentheses are balanced, no integer
stands before a dot, and no literal of bits has a quote or a backslash inside. -/
def IsExpression (text : String) : Prop :=
  ∃ source tokens, read? source = some tokens ∧ renderRaw tokens = text ∧
    depth? 0 tokens = some 0 ∧ (∀ token ∈ tokens, token.isClean = true) ∧
      undotted (tokens.filter isWritten) = true

/-- The text is an expression and that of its own tokens. -/
def isOwnExpression (text : String) : Bool :=
  (read? text).any fun tokens => decide (renderRaw tokens = text) &&
    decide (depth? 0 tokens = some 0) && tokens.all isClean && undotted (tokens.filter isWritten)

theorem isExpression_of_isOwnExpression {text : String} (own : isOwnExpression text = true) :
    IsExpression text := by
  obtain ⟨tokens, read, checks⟩ := (Option.any_eq_true _ _).mp own
  simp only [Bool.and_eq_true, decide_eq_true_eq, List.all_eq_true] at checks
  obtain ⟨⟨⟨written, balanced⟩, clean⟩, undotted⟩ := checks
  exact ⟨text, tokens, read, written, balanced, clean, undotted⟩

end Token

namespace Lexer

variable {operand : Bool} {characters rest left : List Char} {tokens : List Token}

/-- Only a sign depends on what comes before it. -/
theorem Step.anywhere (step : Step false characters tokens left)
    (unsigned : characters.head? ≠ some '-') (operand : Bool) :
    Step operand characters tokens left := by
  cases step with
  | blank isBlank => exact .blank isBlank
  | line mark => exact .line mark
  | comment closed => exact .comment closed
  | string mark closes => exact .string mark closes
  | name closes => exact .name closes
  | number digit scanned => exact .number digit scanned
  | signed noOperand digit scanned => exact absurd rfl unsigned
  | mark known noLine noComment noSign =>
      refine .mark known noLine noComment fun bad => unsigned ?_
      rw [bad.1, List.head?_cons]
  | binary letter closes => exact .binary letter closes
  | word notBlank starts noBinary => exact .word notBlank starts noBinary

/-- The kinds of tokens whose text is the one they are read from. -/
def verbatimKinds : List Token.Kind := [.word, .integer, .float, .binaryLiteral]

theorem spelling_bare {kind : Token.Kind} (verbatim : kind ∈ verbatimKinds) (text : String) :
    (Token.bare kind text).spelling = text ∧
      (Token.bare kind text).respelled = [.bare kind text] ∧
      (Token.bare kind text).isWritten = true := by
  have all : ∀ kind ∈ verbatimKinds, kind ≠ .identifier ∧ kind ≠ .quotedString ∧
      kind ≠ .backtick ∧ kind ≠ .endOfInput := by
    decide
  obtain ⟨notName, notString, notBacktick, notEnd⟩ := all kind verbatim
  refine ⟨?_, ?_, ?_⟩
  · cases kind <;> simp_all [Token.spelling]
  · simp [Token.respelled, notName, Token.placeless]
  · simp [Token.isWritten, Token.isEnd, notBacktick, notEnd]

theorem nonempty_of_single {kind : Token.Kind} {text : String} (single : Token.Single kind text) :
    text.toList ≠ [] := by
  intro empty
  have lexes := Token.read?_eq_some_iff.mp single
  rw [empty] at lexes
  generalize found : [Token.bare kind text] = tokens at lexes
  generalize ended : ([] : List Char) = characters at lexes
  cases lexes with
  | done => simp at found
  | step first others =>
      subst ended
      cases first

/-- A text that is one token is read as that token also where more follows. -/
theorem step_single {kind : Token.Kind} {text : String} (verbatim : kind ∈ verbatimKinds)
    (single : Token.Single kind text) (clean : (Token.bare kind text).isClean = true)
    (unsigned : operand = true → text.toList.head? ≠ some '-') (gap : Gap rest) :
    Step operand (text.toList ++ rest) [.bare kind text] rest := by
  obtain ⟨spelling, respelled, written⟩ := spelling_bare verbatim text
  have lexes := Token.read?_eq_some_iff.mp single
  have respells : Respells false [Token.bare kind text] := by
    have respells : Respells false ([Token.bare kind text].filter Token.isWritten) :=
      lexes.respells (by simpa using clean) id
    simpa [written] using respells
  have fits : Fits (Token.bare kind text) rest :=
    .inr (.inr ⟨gap.boundary, fun _ => gap.noPoint⟩)
  have step := respells.1 rest fits
  rw [spelling, respelled] at step
  cases operand with
  | false => exact step
  | true =>
      refine step.anywhere ?_ true
      cases first : text.toList with
      | nil => exact absurd first (nonempty_of_single single)
      | cons character others =>
          have noSign := unsigned rfl
          rw [first] at noSign
          simpa using noSign

/-- The tokens by which an expression is read, wherever no operand comes before it. -/
theorem exists_lexes_expression {text : String} (expression : Token.IsExpression text) :
    ∃ tokens, (∀ rest, Gap rest → Lexes false (text.toList ++ rest) tokens rest) ∧
      Token.renderRaw tokens = text ∧ Token.depth? 0 tokens = some 0 ∧
        ∀ token ∈ tokens, token.isEnd = false := by
  obtain ⟨source, tokens, read, rfl, balanced, clean, undotted⟩ := expression
  have lexes := Token.read?_eq_some_iff.mp read
  have again (rest : List Char) (gap : Gap rest) :
      Lexes false ((Token.renderRaw tokens).toList ++ rest)
        ((tokens.filter Token.isWritten).flatMap Token.respelled) rest :=
    lexes.renderRaw clean undotted id gap.boundary gap.noPoint
  refine ⟨_, again, ?_, ?_, (again [] gap_nil).isEnd_eq_false⟩
  · rw [Token.renderRaw, lexes.filter_flatMap_respelled clean]
    rfl
  · rw [depth?_flatMap_respelled, balanced]

/-- The tokens of an expression in parentheses, wherever it stands. -/
theorem exists_lexes_group {text : String} (expression : Token.IsExpression text) :
    ∃ inner, (∀ operand rest, Lexes operand ('(' :: (text.toList ++ ')' :: rest))
        (Token.opening :: (inner ++ [Token.closing])) rest) ∧
      Token.renderRaw inner = text ∧ Token.depth? 0 inner = some 0 ∧
        ∀ token ∈ inner, token.isEnd = false := by
  obtain ⟨inner, lexes, written, balanced, notEnd⟩ := exists_lexes_expression expression
  refine ⟨inner, fun operand rest => ?_, written, balanced, notEnd⟩
  have opening : Lexes operand ('(' :: (text.toList ++ ')' :: rest)) [Token.opening]
      (text.toList ++ ')' :: rest) := lexes_markTokens (by decide)
  have closing (operand : Bool) : Lexes operand (')' :: rest) [Token.closing] rest :=
    lexes_markTokens (by decide)
  exact opening.append ((lexes _ (gap_cons (by decide))).append (closing _))

end Lexer

namespace Literal

open Lexer (Gap Lexes Step)

/-- A literal that is read back from its text. -/
inductive Canonical : Literal → Prop where
  /-- An integer. -/
  | integer (value : Int64) : Canonical (.integer value)
  /-- A number with a fraction or an exponent. -/
  | float (value : Double) : Canonical (.float value)
  /-- A string. -/
  | string (text : String) : Canonical (.string text)
  /-- A word. -/
  | word {text : String} (single : Token.Single .word text) : Canonical (.raw text)
  /-- A literal of bits. -/
  | binary {text : String} (single : Token.Single .binaryLiteral text)
      (clean : (Token.bare .binaryLiteral text).isClean = true) : Canonical (.raw text)
  /-- An integer that is out of range. -/
  | largeInteger {text : String} (single : Token.Single .integer text)
      (large : Number.int64? text = none) : Canonical (.raw text)
  /-- Another number that is out of range. -/
  | largeFloat {text : String} (single : Token.Single .float text)
      (large : Number.double? text = none) : Canonical (.raw text)
  /-- An expression in parentheses. -/
  | group {text : String} (expression : Token.IsExpression text) :
      Canonical (.raw ("(" ++ text ++ ")"))
  /-- A call. -/
  | call {name text : String} (single : Token.Single .word name)
      (expression : Token.IsExpression text) : Canonical (.raw (name ++ "(" ++ text ++ ")"))

/-- The tokens of a literal. -/
def tokens : Literal → List Token
  | .integer value => [.bare .integer (Number.writeInt value.toInt)]
  | .float value => [.bare .float (numberLayout.write value)]
  | .string text => [.bare .quotedString text]
  | .raw text => (Token.read? text).getD []

variable {operand : Bool} {rest : List Char} {scope : Scope} {after : List Token}

theorem tokens_raw {text : String} {tokens : List Token}
    (lexes : Lexes false text.toList tokens []) : (raw text).tokens = tokens := by
  rw [Literal.tokens, Token.read?_eq_some_iff.mpr lexes, Option.getD_some]

theorem tokens_single {kind : Token.Kind} {text : String} (single : Token.Single kind text) :
    (raw text).tokens = [.bare kind text] := by
  rw [Literal.tokens, single, Option.getD_some]

/-! ## The tokens of a canonical literal -/

theorem step_signed {kind : Token.Kind} {digit : Char} {others : List Char}
    (isDigit : digit.isDigit = true)
    (scanned : Scan.number (digit :: others) = (kind, digit :: others)) (gap : Gap rest)
    (negative : Bool) (unsigned : operand = true → negative = false) :
    Step operand ((if negative then '-' :: digit :: others else digit :: others) ++ rest)
      [.bare kind (String.ofList (if negative then '-' :: digit :: others else digit :: others))]
      rest := by
  have again := Lexer.number_append_of_number scanned gap.boundary fun _ => gap.noPoint
  cases negative with
  | false =>
      have step : Step operand (digit :: (others ++ rest))
          [.bare kind (String.ofList (digit :: others))]
          ((others ++ rest).drop ((digit :: others).length - 1)) := .number isDigit again
      simpa using step
  | true =>
      have noOperand : operand = false := by
        cases operand with
        | false => rfl
        | true => exact absurd (unsigned rfl) (by decide)
      have step : Step operand ('-' :: ((digit :: others) ++ rest))
          [.bare kind (String.ofList ('-' :: digit :: others))]
          (((digit :: others) ++ rest).drop (digit :: others).length) :=
        .signed noOperand (by simpa using isDigit) again
      simpa using step

theorem step_write (value : Double) (gap : Gap rest)
    (unsigned : operand = true → (numberLayout.write value).toList.head? ≠ some '-') :
    Step operand ((numberLayout.write value).toList ++ rest)
      [.bare .float (numberLayout.write value)] rest := by
  obtain ⟨scanned, digit, others, text, isDigit⟩ :=
    NumberLayout.number_magnitude numberLayout value
  rw [text] at scanned
  have noSign : operand = true → value.negative = false := by
    intro isTrue
    cases negative : value.negative with
    | false => rfl
    | true => exact absurd (by simp [NumberLayout.write, negative]) (unsigned isTrue)
  have step := step_signed isDigit scanned gap value.negative noSign
  rw [NumberLayout.write, text, String.toList_ofList]
  exact step

/-- The tokens of a literal in parentheses. -/
theorem tokens_group {text : String} (expression : Token.IsExpression text) :
    ∃ inner, (raw ("(" ++ text ++ ")")).tokens = Token.opening :: (inner ++ [Token.closing]) ∧
      Token.renderRaw inner = text ∧ Token.depth? 0 inner = some 0 ∧
        (∀ token ∈ inner, token.isEnd = false) ∧
      ∀ operand rest, Lexes operand ('(' :: (text.toList ++ ')' :: rest))
        (Token.opening :: (inner ++ [Token.closing])) rest := by
  obtain ⟨inner, lexes, written, balanced, notEnd⟩ := Lexer.exists_lexes_group expression
  refine ⟨inner, tokens_raw ?_, written, balanced, notEnd, lexes⟩
  simpa using lexes false []

/-- The tokens of a call. -/
theorem tokens_call {name text : String} (single : Token.Single .word name)
    (expression : Token.IsExpression text) :
    ∃ inner, (raw (name ++ "(" ++ text ++ ")")).tokens =
        .bare .word name :: Token.opening :: (inner ++ [Token.closing]) ∧
      Token.renderRaw inner = text ∧ Token.depth? 0 inner = some 0 ∧
        (∀ token ∈ inner, token.isEnd = false) ∧
      ∀ operand rest, (operand = true → name.toList.head? ≠ some '-') →
        Lexes operand (name.toList ++ '(' :: (text.toList ++ ')' :: rest))
          (.bare .word name :: Token.opening :: (inner ++ [Token.closing])) rest := by
  obtain ⟨inner, lexes, written, balanced, notEnd⟩ := Lexer.exists_lexes_group expression
  have whole (operand : Bool) (rest : List Char)
      (unsigned : operand = true → name.toList.head? ≠ some '-') :
      Lexes operand (name.toList ++ '(' :: (text.toList ++ ')' :: rest))
        (.bare .word name :: Token.opening :: (inner ++ [Token.closing])) rest := by
    have word : Step operand (name.toList ++ '(' :: (text.toList ++ ')' :: rest))
        [.bare .word name] ('(' :: (text.toList ++ ')' :: rest)) :=
      Lexer.step_single (by decide) single (by simp [Token.isClean]) unsigned
        (Lexer.gap_cons (by decide))
    exact (Lexes.single word).append (lexes _ _)
  refine ⟨inner, tokens_raw ?_, written, balanced, notEnd, whole⟩
  simpa using whole false [] (by simp)

/-- A canonical literal is read as its tokens; after an operand it must have no sign. -/
theorem Canonical.lexes {literal : Literal} (canonical : literal.Canonical)
    (unsigned : operand = true → literal.render.toList.head? ≠ some '-') (gap : Gap rest) :
    Lexes operand (literal.render.toList ++ rest) literal.tokens rest := by
  cases canonical with
  | integer value =>
      exact .single
        (Lexer.step_writeInt value.toInt (gap.boundary.endsInteger gap.noPoint) unsigned)
  | float value => exact .single (step_write value gap unsigned)
  | string text => exact .single (Lexer.step_quoteString text (gap.boundary.ne _ (by decide)))
  | word single =>
      rw [tokens_single single]
      exact .single (Lexer.step_single (by decide) single (by simp [Token.isClean]) unsigned gap)
  | binary single clean =>
      rw [tokens_single single]
      exact .single (Lexer.step_single (by decide) single clean unsigned gap)
  | largeInteger single large =>
      rw [tokens_single single]
      exact .single (Lexer.step_single (by decide) single (by simp [Token.isClean]) unsigned gap)
  | largeFloat single large =>
      rw [tokens_single single]
      exact .single (Lexer.step_single (by decide) single (by simp [Token.isClean]) unsigned gap)
  | @group text expression =>
      obtain ⟨inner, found, -, -, -, lexes⟩ := tokens_group expression
      rw [found]
      simpa [render] using lexes operand rest
  | @call name text single expression =>
      obtain ⟨inner, found, -, -, -, lexes⟩ := tokens_call single expression
      have noSign : operand = true → name.toList.head? ≠ some '-' := by
        intro isTrue
        have first := unsigned isTrue
        obtain ⟨character, others, starts⟩ :=
          List.exists_cons_of_ne_nil (Lexer.nonempty_of_single single)
        simpa [render, starts] using first
      rw [found]
      simpa [render] using lexes operand rest noSign

/-- Canonical literals between parentheses are read as their tokens. -/
theorem attached_literals {literals : List Literal} {separator : String}
    (isComma : Lexer.plain? separator = some ([Token.comma], false))
    (startsComma : Lexer.startsGap separator = true)
    (canonical : ∀ literal ∈ literals, literal.Canonical) :
    Lexer.Attached (" (" ++ (renderAll separator literals ++ ")"))
      (Token.enclosed Literal.tokens literals) := by
  have list (operand : Bool) : Lexer.Closed operand (" (" ++ renderAll separator literals ++ ")")
      (Token.enclosed Literal.tokens literals ++ []) := by
    refine Lexer.closed_enclosed (by decide) isComma (by decide) startsComma (by decide) ?_
    intro literal member rest gap
    exact (canonical literal member).lexes (by simp) gap
  rw [List.append_nil, String.append_assoc] at list
  exact ⟨fun operand => (list operand).spelled, Lexer.gapped_append (by decide)⟩

/-! ## Reading a canonical literal -/

theorem reads_number {token : Token} {number : Literal}
    (isNumber : token.kind = .integer ∨ token.kind = .float) (typed : ofNumber token = number) :
    grammar.Reads scope (token :: after) number after := by
  subst typed
  unfold grammar
  refine Grammar.reads_current_bind (fun _ => rfl) ?_
  rcases isNumber with kind | kind <;> rw [kind]
  · exact Grammar.reads_advance_bind (Grammar.reads_pure _)
  · exact Grammar.reads_advance_bind (Grammar.reads_pure _)

theorem ofNumber_writeInt (value : Int64) :
    ofNumber (.bare .integer (Number.writeInt value.toInt)) = integer value := by
  simp [ofNumber, Number.int64?_writeInt]

theorem ofNumber_write (value : Double) :
    ofNumber (.bare .float (numberLayout.write value)) = float value := by
  simp [ofNumber, NumberLayout.double?_write]

theorem ofNumber_large {kind : Token.Kind} {text : String}
    (isNumber : kind = .integer ∧ Number.int64? text = none ∨
      kind = .float ∧ Number.double? text = none) : ofNumber (.bare kind text) = raw text := by
  rcases isNumber with ⟨rfl, large⟩ | ⟨rfl, large⟩ <;> simp [ofNumber, large]

theorem reads_string (text : String) :
    grammar.Reads scope (.bare .quotedString text :: after) (string text) after := by
  unfold grammar
  refine Grammar.reads_current_bind (fun _ => rfl) ?_
  exact Grammar.reads_advance_bind (Grammar.reads_pure _)

theorem reads_binary (text : String) :
    grammar.Reads scope (.bare .binaryLiteral text :: after) (raw text) after := by
  unfold grammar
  refine Grammar.reads_current_bind (fun _ => rfl) ?_
  exact Grammar.reads_advance_bind (Grammar.reads_pure _)

theorem reads_word (text : String) (noCall : Unseen "(" after) :
    grammar.Reads scope (.bare .word text :: after) (raw text) after := by
  unfold grammar
  refine Grammar.reads_current_bind (fun _ => rfl) ?_
  refine Grammar.reads_advance_bind (Grammar.reads_sees_bind_unseen noCall ?_)
  exact Grammar.reads_pure _

theorem reads_inParentheses {inner : List Token} (balanced : Token.depth? 0 inner = some 0)
    (notEnd : ∀ token ∈ inner, token.isEnd = false) :
    grammar.Reads scope (Token.opening :: (inner ++ Token.closing :: after))
      (raw ("(" ++ Token.renderRaw inner ++ ")")) after := by
  unfold grammar
  refine Grammar.reads_current_bind (fun _ => rfl) ?_
  exact (Grammar.reads_group notEnd balanced).bind (Grammar.reads_pure _)

theorem reads_call {name : String} {inner : List Token} (balanced : Token.depth? 0 inner = some 0)
    (notEnd : ∀ token ∈ inner, token.isEnd = false) :
    grammar.Reads scope (.bare .word name :: Token.opening :: (inner ++ Token.closing :: after))
      (raw (name ++ "(" ++ Token.renderRaw inner ++ ")")) after := by
  unfold grammar
  refine Grammar.reads_current_bind (fun _ => rfl) ?_
  refine Grammar.reads_advance_bind (Grammar.reads_sees_bind (by decide) ?_)
  exact (Grammar.reads_group notEnd balanced).bind (Grammar.reads_pure _)

/-- A canonical literal is read from its tokens, where no call follows. -/
theorem Canonical.reads {literal : Literal} (canonical : literal.Canonical)
    (noCall : Unseen "(" after) :
    grammar.Reads scope (literal.tokens ++ after) literal after := by
  cases canonical with
  | integer value => exact reads_number (.inl rfl) (ofNumber_writeInt value)
  | float value => exact reads_number (.inr rfl) (ofNumber_write value)
  | string text => exact reads_string text
  | @word text single =>
      rw [tokens_single single]
      exact reads_word text noCall
  | @binary text single clean =>
      rw [tokens_single single]
      exact reads_binary text
  | largeInteger single large =>
      rw [tokens_single single]
      exact reads_number (.inl rfl) (ofNumber_large (.inl ⟨rfl, large⟩))
  | largeFloat single large =>
      rw [tokens_single single]
      exact reads_number (.inr rfl) (ofNumber_large (.inr ⟨rfl, large⟩))
  | group expression =>
      obtain ⟨inner, found, rfl, balanced, notEnd, -⟩ := tokens_group expression
      rw [found, List.cons_append, List.append_assoc]
      exact reads_inParentheses balanced notEnd
  | call single expression =>
      obtain ⟨inner, found, rfl, balanced, notEnd, -⟩ := tokens_call single expression
      rw [found, List.cons_append, List.cons_append, List.append_assoc]
      exact reads_call balanced notEnd

end Literal

end TableDdl
