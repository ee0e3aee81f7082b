import TableDdl.Proofs.Grammar.View
import TableDdl.Proofs.Lexer.Numbers
import TableDdl.Token.Lexer

/-!
# Lexing without places

What a text is read as does not depend on where it stands, and on what precedes it only as far as
that can end an operand. One relation says, with one rule for each kind of lexeme, what is read from
a text and what is left of it; another one strings lexemes together. They describe the tokens of a
text up to their places, and they hold of a text together with all that follows, so that the tokens
of a text can be found piece by piece.
-/

namespace TableDdl

namespace Lexer

/-! ## Quoted texts -/

/-- What follows an opening mark is the text, with its marks doubled, then the mark, and then what
is left. Where there are escapes, a backslash changes the character after it. -/
inductive Closes (mark : Char) (escapes : Bool) : List Char → List Char → List Char → Prop where
  /-- The closing mark. -/
  | close {left : List Char} (single : left.head? ≠ some mark) :
      Closes mark escapes (mark :: left) [] left
  /-- A doubled mark. -/
  | doubled {rest text left : List Char} (after : Closes mark escapes rest text left) :
      Closes mark escapes (mark :: mark :: rest) (mark :: text) left
  /-- An escape. -/
  | escape {character : Char} {rest text left : List Char} (isEscape : escapes = true)
      (after : Closes mark escapes rest text left) :
      Closes mark escapes (Text.backslash :: character :: rest) (Scan.escaped character :: text) left
  /-- Any other character. -/
  | plain {character : Char} {rest text left : List Char} (other : character ≠ mark)
      (noEscape : escapes = true → character ≠ Text.backslash)
      (after : Closes mark escapes rest text left) :
      Closes mark escapes (character :: rest) (character :: text) left

theorem push_eq_closed_iff {character : Char} {scanned : Scan.Delimited} {text left : List Char}
    {closing : Location} :
    scanned.push character = .closed text closing left ↔
      ∃ inner, text = character :: inner ∧ scanned = .closed inner closing left := by
  cases scanned with
  | unclosed inner => simp [Scan.Delimited.push]
  | closed inner place rest =>
      simp only [Scan.Delimited.push, Scan.Delimited.closed.injEq]
      constructor
      · rintro ⟨rfl, rfl, rfl⟩
        exact ⟨inner, rfl, rfl, rfl, rfl⟩
      · rintro ⟨_, rfl, rfl, rfl, rfl⟩
        exact ⟨rfl, rfl, rfl⟩

theorem closes_of_string {quote : Char} {location closing : Location}
    {characters text left : List Char}
    (scanned : Scan.string quote location characters = .closed text closing left) :
    Closes quote true characters text left := by
  fun_induction Scan.string quote location characters generalizing text with
  | case1 => simp at scanned
  | case2 => simp at scanned
  | case3 location notEscape =>
      obtain ⟨rfl, rfl, rfl⟩ : text = [] ∧ location = closing ∧ left = [] := by
        simpa [eq_comm] using scanned
      exact .close (by simp)
  | case4 => simp at scanned
  | case5 location next rest ih =>
      obtain ⟨inner, rfl, scannedRest⟩ := push_eq_closed_iff.mp scanned
      exact .escape rfl (ih scannedRest)
  | case6 location rest notEscape ih =>
      obtain ⟨inner, rfl, scannedRest⟩ := push_eq_closed_iff.mp scanned
      exact .doubled (ih scannedRest)
  | case7 location next rest single notEscape =>
      obtain ⟨rfl, rfl, rfl⟩ : text = [] ∧ location = closing ∧ left = next :: rest := by
        simpa [eq_comm] using scanned
      exact .close (by simpa using single)
  | case8 location character next rest notEscape other ih =>
      obtain ⟨inner, rfl, scannedRest⟩ := push_eq_closed_iff.mp scanned
      exact .plain other (fun _ => notEscape) (ih scannedRest)

theorem closes_of_name {location closing : Location} {characters text left : List Char}
    (scanned : Scan.name location characters = .closed text closing left) :
    Closes Text.backtick false characters text left := by
  fun_induction Scan.name location characters generalizing text with
  | case1 => simp at scanned
  | case2 location =>
      obtain ⟨rfl, rfl, rfl⟩ : text = [] ∧ location = closing ∧ left = [] := by
        simpa [eq_comm] using scanned
      exact .close (by simp)
  | case3 => simp at scanned
  | case4 location rest ih =>
      obtain ⟨inner, rfl, scannedRest⟩ := push_eq_closed_iff.mp scanned
      exact .doubled (ih scannedRest)
  | case5 location next rest single =>
      obtain ⟨rfl, rfl, rfl⟩ : text = [] ∧ location = closing ∧ left = next :: rest := by
        simpa [eq_comm] using scanned
      exact .close (by simpa using single)
  | case6 location character next rest other ih =>
      obtain ⟨inner, rfl, scannedRest⟩ := push_eq_closed_iff.mp scanned
      exact .plain other (by simp) (ih scannedRest)

theorem string_of_closes {quote : Char} (notEscape : quote ≠ Text.backslash)
    {characters text left : List Char} (closes : Closes quote true characters text left)
    (location : Location) :
    ∃ closing, Scan.string quote location characters = .closed text closing left := by
  induction closes generalizing location with
  | @close left single =>
      refine ⟨location, ?_⟩
      cases left with
      | nil => simp [Scan.string, notEscape]
      | cons next rest =>
          have single : next ≠ quote := by simpa using single
          simp [Scan.string, notEscape, single]
  | doubled after ih =>
      obtain ⟨closing, scanned⟩ := ih (location.right 2)
      exact ⟨closing, by simp [Scan.string, notEscape, scanned, Scan.Delimited.push]⟩
  | escape isEscape after ih =>
      obtain ⟨closing, scanned⟩ := ih (location.right 2)
      exact ⟨closing, by simp [Scan.string, scanned, Scan.Delimited.push]⟩
  | @plain character rest text left other noEscape after ih =>
      obtain ⟨closing, scanned⟩ := ih (location.after character)
      cases rest with
      | nil => cases after
      | cons next rest =>
          exact ⟨closing, by simp [Scan.string, noEscape rfl, other, scanned, Scan.Delimited.push]⟩

theorem name_of_closes {characters text left : List Char}
    (closes : Closes Text.backtick false characters text left) (location : Location) :
    ∃ closing, Scan.name location characters = .closed text closing left := by
  induction closes generalizing location with
  | @close left single =>
      refine ⟨location, ?_⟩
      cases left with
      | nil => simp [Scan.name]
      | cons next rest =>
          have single : next ≠ Text.backtick := by simpa using single
          simp [Scan.name, single]
  | doubled after ih =>
      obtain ⟨closing, scanned⟩ := ih (location.right 2)
      exact ⟨closing, by simp [Scan.name, scanned, Scan.Delimited.push]⟩
  | escape isEscape after ih => simp at isEscape
  | @plain character rest text left other noEscape after ih =>
      obtain ⟨closing, scanned⟩ := ih (location.after character)
      cases rest with
      | nil => cases after
      | cons next rest => exact ⟨closing, by simp [Scan.name, other, scanned, Scan.Delimited.push]⟩

/-! ## Lexemes -/

/-- The mark around a quoted name, as a token. -/
def backtickToken : Token := .bare .backtick (String.ofList [Text.backtick])

/-- The tokens of a name in backticks. -/
def nameTokens (text : List Char) : List Token :=
  backtickToken ::
    ((if text = [] then [] else [.bare .identifier (String.ofList text)]) ++ [backtickToken])

/-- What is read as one lexeme from a text, and what is left of the text. The flag says whether an
operand may have ended before. -/
inductive Step (operand : Bool) : List Char → List Token → List Char → Prop where
  /-- A blank. -/
  | blank {character : Char} {rest : List Char} (isBlank : Text.isBlank character = true) :
      Step operand (character :: rest) [] rest
  /-- A comment up to the end of the line. -/
  | line {character : Char} {rest : List Char}
      (mark : character = '#' ∨ character = '-' ∧ rest.head? = some '-') :
      Step operand (character :: rest) [] (rest.dropWhile (· ≠ '\n'))
  /-- A comment between marks. -/
  | comment {rest left : List Char} {location after : Location}
      (closed : Scan.comment location rest = some (after, left)) :
      Step operand ('/' :: '*' :: rest) [] left
  /-- A quoted string. -/
  | string {quote : Char} {rest text left : List Char}
      (mark : quote = Text.singleQuote ∨ quote = Text.doubleQuote)
      (closes : Closes quote true rest text left) :
      Step operand (quote :: rest) [.bare .quotedString (String.ofList text)] left
  /-- A quoted name. -/
  | name {rest text left : List Char} (closes : Closes Text.backtick false rest text left) :
      Step operand (Text.backtick :: rest) (nameTokens text) left
  /-- A number without a sign, or a word that starts with a digit. -/
  | number {character : Char} {rest text : List Char} {kind : Token.Kind}
      (digit : character.isDigit = true) (scanned : Scan.number (character :: rest) = (kind, text)) :
      Step operand (character :: rest) [.bare kind (String.ofList text)]
        (rest.drop (text.length - 1))
  /-- A number with a sign, or a word that starts with a sign and a digit. -/
  | signed {rest text : List Char} {kind : Token.Kind} (noOperand : operand = false)
      (digit : rest.head?.any Char.isDigit = true) (scanned : Scan.number rest = (kind, text)) :
      Step operand ('-' :: rest) [.bare kind (String.ofList ('-' :: text))]
        (rest.drop text.length)
  /-- A character that is a token by itself. -/
  | mark {character : Char} {rest : List Char} {kind : Token.Kind}
      (known : punctuation? character = some kind)
      (noLine : ¬ (character = '-' ∧ rest.head? = some '-'))
      (noComment : ¬ (character = '/' ∧ rest.head? = some '*'))
      (noSign : ¬ (character = '-' ∧ rest.head?.any Char.isDigit = true ∧ operand = false)) :
      Step operand (character :: rest) [.bare kind (String.ofList [character])] rest
  /-- A literal of bits or of hexadecimal digits. -/
  | binary {character : Char} {rest text left : List Char} (letter : character ∈ binaryMarks)
      (closes : Closes Text.singleQuote true rest text left) :
      Step operand (character :: Text.singleQuote :: rest)
        [.bare .binaryLiteral
          (String.ofList (character :: Text.singleQuote :: (text ++ [Text.singleQuote])))] left
  /-- A word. -/
  | word {character : Char} {rest : List Char} (notBlank : Text.isBlank character = false)
      (starts : Text.startsWord character = true)
      (noBinary : ¬ (character ∈ binaryMarks ∧ rest.head? = some Text.singleQuote)) :
      Step operand (character :: rest) [.bare .word (String.ofList (character :: Scan.word rest))]
        (rest.drop (Scan.word rest).length)

theorem drop_length_takeWhile {α : Type} (holds : α → Bool) (list : List α) :
    list.drop (list.takeWhile holds).length = list.dropWhile holds := by
  induction list with
  | nil => rfl
  | cons head rest ih =>
      by_cases isHeld : holds head = true
      · simp [isHeld, ih]
      · simp [isHeld]

theorem step_of_quotedLexeme {operand : Bool} {location : Location} {quote character : Char}
    {mark opened rest : List Char} {within : opened.length ≤ rest.length}
    {token : List Char → Token.Kind × List Char} {read : Lexeme (character :: rest)}
    (found : quotedLexeme location quote character mark opened within token = .ok read)
    (conclude : ∀ text left, Closes quote true opened text left →
      Step operand (character :: rest)
        [.bare (token text).1 (String.ofList (token text).2)] left) :
    Step operand (character :: rest) (read.tokens.map Token.placeless) read.rest := by
  unfold quotedLexeme at found
  dsimp only at found
  split at found
  · simp at found
  · rename_i text closing left scanned
    simp only [Except.ok.injEq] at found
    subst found
    exact conclude text left (closes_of_string scanned)

theorem step_of_nameLexeme {operand : Bool} {location : Location} {rest : List Char}
    {read : Lexeme (Text.backtick :: rest)}
    (found : nameLexeme location Text.backtick rest = .ok read) :
    Step operand (Text.backtick :: rest) (read.tokens.map Token.placeless) read.rest := by
  unfold nameLexeme at found
  dsimp only at found
  split at found
  · simp at found
  · rename_i text closing left scanned
    simp only [Except.ok.injEq] at found
    subst found
    have tokens : Step operand (Text.backtick :: rest) (nameTokens text) left :=
      .name (closes_of_name scanned)
    by_cases empty : text = []
    · subst empty
      exact tokens
    · simpa [nameTokens, empty, backtickToken, Token.placeless] using tokens

theorem step_of_commentLexeme {operand : Bool} {location : Location} {rest : List Char}
    {read : Lexeme ('/' :: '*' :: rest)}
    (found : commentLexeme location '/' ('*' :: rest) = .ok read) :
    Step operand ('/' :: '*' :: rest) (read.tokens.map Token.placeless) read.rest := by
  unfold commentLexeme at found
  split at found
  · simp at found
  · rename_i after left closed
    cases found
    exact .comment closed

/-- What the lexeme is that starts with the character: the one rule that applies, with what it
gives or how it refuses the text. -/
inductive Rule (previous : Option Token) (location : Location) : (character : Char) →
    (rest : List Char) → Except ParseError (Lexeme (character :: rest)) → Prop where
  /-- A blank. -/
  | blank {character : Char} {rest : List Char} (isBlank : Text.isBlank character = true) :
      Rule previous location character rest
        (.ok (silent (location.after character) rest (Nat.le_refl _)))
  /-- A comment up to the end of the line. -/
  | line {character : Char} {rest : List Char}
      (mark : character = '#' ∨ character = '-' ∧ rest.head? = some '-') :
      Rule previous location character rest (.ok (lineCommentLexeme location character rest))
  /-- A comment between marks. -/
  | comment {rest : List Char} :
      Rule previous location '/' ('*' :: rest) (commentLexeme location '/' ('*' :: rest))
  /-- A quoted string. -/
  | string {quote : Char} {rest : List Char}
      (mark : quote = Text.singleQuote ∨ quote = Text.doubleQuote) :
      Rule previous location quote rest
        (quotedLexeme location quote quote [] rest (Nat.le_refl _) fun text =>
          (.quotedString, text))
  /-- A quoted name. -/
  | name {rest : List Char} :
      Rule previous location Text.backtick rest (nameLexeme location Text.backtick rest)
  /-- A number without a sign, or a word that starts with a digit. -/
  | number {character : Char} {rest text : List Char} {kind : Token.Kind}
      (digit : character.isDigit = true) (scanned : Scan.number (character :: rest) = (kind, text)) :
      Rule previous location character rest (.ok (single location kind text (text.length - 1)))
  /-- A number with a sign, or a word that starts with a sign and a digit. -/
  | signed {rest text : List Char} {kind : Token.Kind}
      (noOperand : previous.any endsOperand = false)
      (digit : rest.head?.any Char.isDigit = true) (scanned : Scan.number rest = (kind, text)) :
      Rule previous location '-' rest (.ok (single location kind ('-' :: text) text.length))
  /-- A character that is a token by itself. -/
  | mark {character : Char} {rest : List Char} {kind : Token.Kind}
      (known : punctuation? character = some kind)
      (noLine : ¬ (character = '-' ∧ rest.head? = some '-'))
      (noComment : ¬ (character = '/' ∧ rest.head? = some '*'))
      (noSign : ¬ (character = '-' ∧ signsNumber previous rest = true)) :
      Rule previous location character rest (.ok (single location kind [character] 0))
  /-- A literal of bits or of hexadecimal digits. -/
  | binary {character : Char} {rest : List Char} (letter : character ∈ binaryMarks) :
      Rule previous location character (Text.singleQuote :: rest)
        (quotedLexeme location Text.singleQuote character [character] rest (Nat.le_succ _)
          fun text => (.binaryLiteral, character :: Text.singleQuote :: (text ++ [Text.singleQuote])))
  /-- A word. -/
  | word {character : Char} {rest : List Char} (notBlank : Text.isBlank character = false)
      (starts : Text.startsWord character = true)
      (noBinary : ¬ (character ∈ binaryMarks ∧ rest.head? = some Text.singleQuote)) :
      Rule previous location character rest
        (.ok (single location .word (character :: Scan.word rest) (Scan.word rest).length))
  /-- A character with which nothing starts. -/
  | unexpected {character : Char} {rest : List Char} :
      Rule previous location character rest
        (.error (refuse .unexpectedCharacter location [character]))

theorem rule_lexeme (previous : Option Token) (location : Location) (character : Char)
    (rest : List Char) :
    Rule previous location character rest (lexeme previous location character rest) := by
  unfold lexeme
  by_cases isBlank : Text.isBlank character = true
  · rw [if_pos isBlank]
    exact .blank isBlank
  rw [if_neg isBlank]
  by_cases isHash : character = '#'
  · rw [if_pos isHash]
    exact .line (.inl isHash)
  rw [if_neg isHash]
  by_cases isLine : character = '-' ∧ rest.head? = some '-'
  · rw [if_pos isLine]
    exact .line (.inr isLine)
  rw [if_neg isLine]
  by_cases isComment : character = '/' ∧ rest.head? = some '*'
  · rw [if_pos isComment]
    obtain ⟨rfl, star⟩ := isComment
    obtain ⟨inner, rfl⟩ := List.head?_eq_some_iff.mp star
    exact .comment
  rw [if_neg isComment]
  by_cases isString : character = Text.singleQuote ∨ character = Text.doubleQuote
  · rw [if_pos isString]
    exact .string isString
  rw [if_neg isString]
  by_cases isName : character = Text.backtick
  · rw [if_pos isName]
    subst isName
    exact .name
  rw [if_neg isName]
  by_cases isDigit : character.isDigit = true
  · rw [if_pos isDigit]
    exact .number isDigit rfl
  rw [if_neg isDigit]
  by_cases isSigned : character = '-' ∧ signsNumber previous rest = true
  · rw [if_pos isSigned]
    obtain ⟨rfl, sign⟩ := isSigned
    obtain ⟨digit, noOperand⟩ : rest.head?.any Char.isDigit = true ∧
        previous.any endsOperand = false := by
      simpa [signsNumber] using sign
    exact .signed noOperand digit rfl
  rw [if_neg isSigned]
  cases known : punctuation? character with
  | some kind => exact .mark known isLine isComment isSigned
  | none =>
      dsimp only
      by_cases isBinary : character ∈ binaryMarks ∧ rest.head? = some Text.singleQuote
      · rw [if_pos isBinary]
        obtain ⟨letter, quote⟩ := isBinary
        obtain ⟨inner, rfl⟩ := List.head?_eq_some_iff.mp quote
        exact .binary letter
      rw [if_neg isBinary]
      by_cases starts : Text.startsWord character = true
      · rw [if_pos starts]
        exact .word (by simpa using isBlank) starts isBinary
      · rw [if_neg starts]
        exact .unexpected

theorem step_of_lexeme {previous : Option Token} {location : Location} {character : Char}
    {rest : List Char} {read : Lexeme (character :: rest)}
    (found : lexeme previous location character rest = .ok read) :
    Step (previous.any endsOperand) (character :: rest) (read.tokens.map Token.placeless)
      read.rest := by
  have rule := rule_lexeme previous location character rest
  generalize lexeme previous location character rest = outcome at rule found
  cases rule with
  | blank isBlank =>
      cases found
      exact .blank isBlank
  | line mark =>
      cases found
      simp only [lineCommentLexeme, silent, drop_length_takeWhile]
      exact .line mark
  | comment => exact step_of_commentLexeme found
  | string mark => exact step_of_quotedLexeme found fun text left closes => .string mark closes
  | name => exact step_of_nameLexeme found
  | number digit scanned =>
      cases found
      exact .number digit scanned
  | signed noOperand digit scanned =>
      cases found
      exact .signed noOperand digit scanned
  | mark known noLine noComment noSign =>
      cases found
      refine .mark known noLine noComment fun ⟨isMinus, digit, noOperand⟩ => noSign ⟨isMinus, ?_⟩
      simp [signsNumber, digit, noOperand]
  | binary letter =>
      exact step_of_quotedLexeme found fun text left closes => .binary letter closes
  | word notBlank starts noBinary =>
      cases found
      exact .word notBlank starts noBinary
  | unexpected => cases found

theorem comment_anywhere {location after : Location} {characters left : List Char}
    (closed : Scan.comment location characters = some (after, left)) (elsewhere : Location) :
    ∃ afterwards, Scan.comment elsewhere characters = some (afterwards, left) := by
  fun_induction Scan.comment location characters generalizing elsewhere with
  | case1 => simp at closed
  | case2 => simp at closed
  | case3 location character next rest ended =>
      obtain ⟨rfl, rfl⟩ : location.right 2 = after ∧ rest = left := by simpa using closed
      exact ⟨_, by rw [Scan.comment, if_pos ended]⟩
  | case4 location character next rest other ih =>
      obtain ⟨afterwards, found⟩ := ih closed (elsewhere.after character)
      exact ⟨afterwards, by simp only [Scan.comment, if_neg other, found]⟩

/-- A digit starts no lexeme that is tried before a number. -/
theorem isBlank_of_isDigit {character : Char} (digit : character.isDigit = true) :
    Text.isBlank character = false := by
  have bounds : 48 ≤ character.toNat ∧ character.toNat ≤ 57 := by
    simp only [Char.isDigit, Bool.and_eq_true, decide_eq_true_eq] at digit
    exact digit
  simp only [Text.isBlank, Text.inRanges, Text.blankRanges, List.any_cons, List.any_nil,
    Bool.or_false, Bool.or_eq_false_iff, Bool.and_eq_false_iff, decide_eq_false_iff_not]
  omega

/-- The characters that are tokens by themselves. -/
def marks : List Char := "(),=;.+-*/<>!%|&^~:@".toList

theorem mem_marks_of_punctuation? {character : Char} {kind : Token.Kind}
    (known : punctuation? character = some kind) : character ∈ marks := by
  have operators : ∀ character ∈ "+-*/<>!%|&^~:@".toList, character ∈ marks :=
    Text.forall_mem_of_all (by decide)
  unfold punctuation? at known
  split at known
  · subst character
    decide
  split at known
  · subst character
    decide
  split at known
  · subst character
    decide
  split at known
  · subst character
    decide
  split at known
  · subst character
    decide
  split at known
  · subst character
    decide
  split at known
  · exact operators character ‹_›
  · simp at known

theorem plain_of_mem_marks {character : Char} (member : character ∈ marks) :
    Text.isBlank character = false ∧ character ≠ '#' ∧ character ≠ Text.singleQuote ∧
      character ≠ Text.doubleQuote ∧ character ≠ Text.backtick ∧ character.isDigit = false := by
  have all : ∀ character ∈ marks, Text.isBlank character = false ∧ character ≠ '#' ∧
      character ≠ Text.singleQuote ∧ character ≠ Text.doubleQuote ∧ character ≠ Text.backtick ∧
        character.isDigit = false := by
    exact Text.forall_mem_of_all (by decide)
  exact all character member

theorem plain_of_mem_binaryMarks {character : Char} (letter : character ∈ binaryMarks) :
    Text.isBlank character = false ∧ character ≠ '#' ∧ character ≠ '-' ∧ character ≠ '/' ∧
      character ≠ Text.singleQuote ∧ character ≠ Text.doubleQuote ∧ character ≠ Text.backtick ∧
        character.isDigit = false ∧ punctuation? character = none := by
  have all : ∀ character ∈ binaryMarks, Text.isBlank character = false ∧ character ≠ '#' ∧
      character ≠ '-' ∧ character ≠ '/' ∧ character ≠ Text.singleQuote ∧
        character ≠ Text.doubleQuote ∧ character ≠ Text.backtick ∧ character.isDigit = false ∧
          punctuation? character = none := by
    exact Text.forall_mem_of_all (by decide)
  exact all character letter

/-- What starts a word is no mark. -/
theorem startsWord_of_mem_marks {character : Char}
    (member : character ∈ '#' :: Text.singleQuote :: Text.doubleQuote :: Text.backtick :: marks) :
    Text.startsWord character = false := by
  have all : ∀ character ∈ '#' :: Text.singleQuote :: Text.doubleQuote :: Text.backtick :: marks,
      Text.startsWord character = false := by
    exact Text.forall_mem_of_all (by decide)
  exact all character member

theorem lexeme_of_closes {location : Location} {quote character : Char}
    {mark opened rest text left : List Char} {within : opened.length ≤ rest.length}
    {token : List Char → Token.Kind × List Char} (notEscape : quote ≠ Text.backslash)
    (closes : Closes quote true opened text left) :
    ∃ read : Lexeme (character :: rest),
      quotedLexeme location quote character mark opened within token = .ok read ∧
        read.tokens.map Token.placeless = [.bare (token text).1 (String.ofList (token text).2)] ∧
          read.rest = left := by
  obtain ⟨closing, scanned⟩ :=
    string_of_closes notEscape closes (location.right (mark.length + 1))
  unfold quotedLexeme
  dsimp only
  split
  · rename_i unclosed
    simp [scanned] at unclosed
  · rename_i same
    obtain ⟨rfl, rfl, rfl⟩ : text = _ ∧ closing = _ ∧ left = _ := by simpa [scanned] using same
    exact ⟨_, rfl, rfl, rfl⟩

theorem lexeme_of_name {location : Location} {rest text left : List Char}
    (closes : Closes Text.backtick false rest text left) :
    ∃ read : Lexeme (Text.backtick :: rest),
      nameLexeme location Text.backtick rest = .ok read ∧
        read.tokens.map Token.placeless = nameTokens text ∧ read.rest = left := by
  obtain ⟨closing, scanned⟩ := name_of_closes closes (location.right 1)
  unfold nameLexeme
  dsimp only
  split
  · rename_i unclosed
    simp [scanned] at unclosed
  · rename_i same
    obtain ⟨rfl, rfl, rfl⟩ : text = _ ∧ closing = _ ∧ left = _ := by simpa [scanned] using same
    refine ⟨_, rfl, ?_, rfl⟩
    by_cases empty : text = []
    · simp [nameTokens, empty, backtickToken, Token.placeless]
    · simp [nameTokens, empty, backtickToken, Token.placeless]

theorem lexeme_of_comment {location elsewhere after : Location} {rest left : List Char}
    (closed : Scan.comment elsewhere rest = some (after, left)) :
    ∃ read : Lexeme ('/' :: '*' :: rest),
      commentLexeme location '/' ('*' :: rest) = .ok read ∧
        read.tokens.map Token.placeless = [] ∧ read.rest = left := by
  obtain ⟨afterwards, found⟩ := comment_anywhere closed (location.right 2)
  unfold commentLexeme
  split
  · rename_i unclosed
    simp [found] at unclosed
  · rename_i same
    obtain ⟨rfl, rfl⟩ : afterwards = _ ∧ left = _ := by simpa [found] using same
    exact ⟨_, rfl, rfl, rfl⟩

/-- Every rule describes the lexeme that is read. -/
theorem lexeme_of_step {operand : Bool} {character : Char} {rest left : List Char}
    {tokens : List Token} (step : Step operand (character :: rest) tokens left)
    {previous : Option Token} (same : previous.any endsOperand = operand) (location : Location) :
    ∃ read, lexeme previous location character rest = .ok read ∧
      read.tokens.map Token.placeless = tokens ∧ read.rest = left := by
  have lineRest : rest.drop (rest.takeWhile (· ≠ '\n')).length = rest.dropWhile (· ≠ '\n') :=
    drop_length_takeWhile _ _
  unfold lexeme
  cases step with
  | blank isBlank =>
      rw [if_pos isBlank]
      exact ⟨_, rfl, rfl, rfl⟩
  | line mark =>
      rcases mark with rfl | ⟨rfl, dash⟩
      · rw [if_neg (by decide), if_pos rfl]
        exact ⟨_, rfl, rfl, lineRest⟩
      · rw [if_neg (by decide), if_neg (by decide), if_pos ⟨rfl, dash⟩]
        exact ⟨_, rfl, rfl, lineRest⟩
  | comment closed =>
      rw [if_neg (by decide), if_neg (by decide), if_neg (by simp), if_pos ⟨rfl, rfl⟩]
      exact lexeme_of_comment closed
  | string mark closes =>
      have quotes : Text.isBlank character = false ∧ character ≠ '#' ∧ character ≠ '-' ∧
          character ≠ '/' ∧ character ≠ Text.backslash := by
        rcases mark with rfl | rfl <;> decide
      rw [if_neg (by simp [quotes]), if_neg (by simp [quotes]), if_neg (by simp [quotes]),
        if_neg (by simp [quotes]), if_pos mark]
      exact lexeme_of_closes quotes.2.2.2.2 closes
  | name closes =>
      rw [if_neg (by decide), if_neg (by decide), if_neg (fun bad => absurd bad.1 (by decide)),
        if_neg (fun bad => absurd bad.1 (by decide)), if_neg (by decide), if_pos rfl]
      exact lexeme_of_name closes
  | number digit scanned =>
      have other (mark : Char) (notDigit : mark.isDigit = false) : character ≠ mark := by
        rintro rfl
        simp [digit] at notDigit
      rw [if_neg (by simp [isBlank_of_isDigit digit]), if_neg (other _ (by decide)),
        if_neg (fun bad => other '-' (by decide) bad.1),
        if_neg (fun bad => other '/' (by decide) bad.1),
        if_neg (not_or.mpr ⟨other _ (by decide), other _ (by decide)⟩),
        if_neg (other _ (by decide)), if_pos digit, scanned]
      exact ⟨_, rfl, rfl, rfl⟩
  | signed noOperand digit scanned =>
      have notDash : rest.head? ≠ some '-' := by
        intro dash
        rw [dash] at digit
        exact absurd digit (by decide)
      have sign : signsNumber previous rest = true := by simp [signsNumber, digit, same, noOperand]
      rw [if_neg (by decide), if_neg (by decide), if_neg (fun bad => notDash bad.2),
        if_neg (by simp), if_neg (by decide), if_neg (by decide), if_neg (by decide),
        if_pos ⟨rfl, sign⟩, scanned]
      exact ⟨_, rfl, rfl, rfl⟩
  | mark known noLine noComment noSign =>
      obtain ⟨notBlank, notHash, notSingle, notDouble, notBacktick, notDigit⟩ :=
        plain_of_mem_marks (mem_marks_of_punctuation? known)
      have unsigned : ¬ (character = '-' ∧ signsNumber previous rest = true) := by
        rintro ⟨isMinus, sign⟩
        refine noSign ⟨isMinus, ?_⟩
        simpa [signsNumber, same] using sign
      rw [if_neg (by simp [notBlank]), if_neg notHash, if_neg noLine, if_neg noComment,
        if_neg (not_or.mpr ⟨notSingle, notDouble⟩), if_neg notBacktick, if_neg (by simp [notDigit]),
        if_neg unsigned, known]
      exact ⟨_, rfl, rfl, rfl⟩
  | binary letter closes =>
      obtain ⟨notBlank, notHash, notMinus, notSlash, notSingle, notDouble, notBacktick, notDigit,
        noMark⟩ := plain_of_mem_binaryMarks letter
      rw [if_neg (by simp [notBlank]), if_neg notHash, if_neg (fun bad => notMinus bad.1),
        if_neg (fun bad => notSlash bad.1), if_neg (not_or.mpr ⟨notSingle, notDouble⟩),
        if_neg notBacktick, if_neg (by simp [notDigit]), if_neg (fun bad => notMinus bad.1), noMark]
      dsimp only
      rw [if_pos ⟨letter, rfl⟩]
      exact lexeme_of_closes (by decide) closes
  | word notBlank starts noBinary =>
      have other (mark : Char) (member : mark ∈
          '#' :: Text.singleQuote :: Text.doubleQuote :: Text.backtick :: marks) :
          character ≠ mark := by
        rintro rfl
        simp [startsWord_of_mem_marks member] at starts
      have notDigit : ¬ character.isDigit = true := by
        simp [Scan.isDigit_of_startsWord starts]
      have noMark : punctuation? character = none := by
        cases known : punctuation? character with
        | none => rfl
        | some kind =>
            have member := mem_marks_of_punctuation? known
            exact absurd rfl (other _ (List.mem_append_right
              ['#', Text.singleQuote, Text.doubleQuote, Text.backtick] member))
      rw [if_neg (by simp [notBlank]), if_neg (other _ (by decide)),
        if_neg (fun bad => other '-' (by decide) bad.1),
        if_neg (fun bad => other '/' (by decide) bad.1),
        if_neg (not_or.mpr ⟨other _ (by decide), other _ (by decide)⟩),
        if_neg (other _ (by decide)), if_neg notDigit,
        if_neg (fun bad => other '-' (by decide) bad.1), noMark]
      dsimp only
      rw [if_neg noBinary, if_pos starts]
      exact ⟨_, rfl, rfl, rfl⟩

/-! ## Texts -/

/-- Whether an operand may have ended after the tokens, given whether it may have before them. -/
def operandAfter (operand : Bool) (tokens : List Token) : Bool :=
  (tokens.getLast?.map endsOperand).getD operand

@[simp] theorem operandAfter_nil (operand : Bool) : operandAfter operand [] = operand := rfl

theorem operandAfter_append (operand : Bool) (tokens more : List Token) :
    operandAfter operand (tokens ++ more) = operandAfter (operandAfter operand tokens) more := by
  simp only [operandAfter, List.getLast?_append]
  cases more.getLast? with
  | none => simp
  | some last => simp

@[simp] theorem operandAfter_concat (operand : Bool) (tokens : List Token) (token : Token) :
    operandAfter operand (tokens ++ [token]) = endsOperand token := by
  simp [operandAfter]

/-- What is read from a text as several lexemes, and what is left of it. -/
inductive Lexes : Bool → List Char → List Token → List Char → Prop where
  /-- Nothing is read. -/
  | done {operand : Bool} {rest : List Char} : Lexes operand rest [] rest
  /-- A lexeme is read, and then others. -/
  | step {operand : Bool} {characters middle left : List Char} {tokens more : List Token}
      (first : Step operand characters tokens middle)
      (others : Lexes (operandAfter operand tokens) middle more left) :
      Lexes operand characters (tokens ++ more) left

namespace Lexes

variable {operand : Bool} {characters middle left : List Char} {tokens more : List Token}

theorem single (first : Step operand characters tokens left) :
    Lexes operand characters tokens left := by
  simpa using Lexes.step first .done

theorem append (before : Lexes operand characters tokens middle)
    (after : Lexes (operandAfter operand tokens) middle more left) :
    Lexes operand characters (tokens ++ more) left := by
  induction before with
  | done => exact after
  | step first others ih =>
      rw [List.append_assoc]
      refine .step first (ih ?_)
      rwa [operandAfter_append] at after

/-- What holds of the tokens of every lexeme holds of all tokens of a text. -/
theorem forall_mem {holds : Token → Prop}
    (each : ∀ {operand : Bool} {characters left : List Char} {tokens : List Token},
      Step operand characters tokens left → ∀ token ∈ tokens, holds token)
    (lexes : Lexes operand characters tokens left) : ∀ token ∈ tokens, holds token := by
  induction lexes with
  | done => simp
  | step first others ih => exact List.forall_mem_append.mpr ⟨each first, ih⟩

end Lexes

theorem any_endsOperand_or (tokens : List Token) (previous : Option Token) :
    (tokens.getLast?.or previous).any endsOperand =
      operandAfter (previous.any endsOperand) (tokens.map Token.placeless) := by
  simp only [operandAfter, List.getLast?_map]
  cases tokens.getLast? with
  | none => rfl
  | some last => rfl

/-- A text is read from a place, lexeme by lexeme, up to its end. -/
inductive Tokenizes : Option Token → Location → List Char → List Token → Prop where
  /-- The text is at its end. -/
  | done {previous : Option Token} {location : Location} :
      Tokenizes previous location [] [Token.finish location]
  /-- A lexeme is read, and reading goes on after it. -/
  | more {previous : Option Token} {location : Location} {character : Char} {rest : List Char}
      {first : Lexeme (character :: rest)} {others : List Token}
      (found : lexeme previous location character rest = .ok first)
      (after : Tokenizes (first.tokens.getLast?.or previous) first.location first.rest others) :
      Tokenizes previous location (character :: rest) (first.tokens ++ others)

theorem tokenizes_of_tokensFrom {previous : Option Token} {location : Location}
    {characters : List Char} {tokens : List Token}
    (read : tokensFrom previous location characters = .ok tokens) :
    Tokenizes previous location characters tokens := by
  fun_induction tokensFrom previous location characters generalizing tokens with
  | case1 previous location =>
      obtain rfl : [Token.finish location] = tokens := by simpa using read
      exact .done
  | case2 => simp at read
  | case3 previous location character rest first found ih =>
      cases outcome : tokensFrom (first.tokens.getLast?.or previous) first.location first.rest with
      | error error => simp [outcome, Except.map] at read
      | ok others =>
          obtain rfl : first.tokens ++ others = tokens := by simpa [outcome, Except.map] using read
          exact .more found (ih outcome)

/-- The tokens that are read from a text are those of its lexemes, with their places, and an end. -/
theorem lexes_of_tokensFrom {previous : Option Token} {location : Location}
    {characters : List Char} {tokens : List Token}
    (read : tokensFrom previous location characters = .ok tokens) :
    ∃ body last, tokens = body ++ [Token.finish last] ∧
      Lexes (previous.any endsOperand) characters (body.map Token.placeless) [] := by
  have run := tokenizes_of_tokensFrom read
  clear read
  induction run with
  | @done previous location => exact ⟨[], location, rfl, .done⟩
  | @more previous location character rest first others found after ih =>
      obtain ⟨body, last, rfl, lexes⟩ := ih
      refine ⟨first.tokens ++ body, last, by rw [List.append_assoc], ?_⟩
      rw [List.map_append]
      rw [any_endsOperand_or] at lexes
      exact .step (step_of_lexeme found) lexes

/-- After the lexemes of a text, reading goes on with what is left of it. -/
theorem tokensFrom_eq_of_lexes {operand : Bool} {characters left : List Char}
    {tokens : List Token} (lexes : Lexes operand characters tokens left) {previous : Option Token}
    (same : previous.any endsOperand = operand) (location : Location) :
    ∃ body place, tokensFrom previous location characters =
        (tokensFrom (body.getLast?.or previous) place left).map (body ++ ·) ∧
      body.map Token.placeless = tokens := by
  induction lexes generalizing previous location with
  | @done operand rest =>
      refine ⟨[], location, ?_, rfl⟩
      cases read : tokensFrom previous location rest <;> simp [read, Except.map]
  | @step operand characters middle left tokens more first others ih =>
      obtain ⟨character, rest, rfl⟩ : ∃ character rest, characters = character :: rest := by
        cases first <;> exact ⟨_, _, rfl⟩
      obtain ⟨read, found, rfl, rfl⟩ := lexeme_of_step first same location
      have sameAfter : (read.tokens.getLast?.or previous).any endsOperand =
          operandAfter operand (read.tokens.map Token.placeless) := by
        rw [any_endsOperand_or, same]
      obtain ⟨body, place, readOthers, rfl⟩ := ih sameAfter read.location
      refine ⟨read.tokens ++ body, place, ?_, by rw [List.map_append]⟩
      rw [tokensFrom, found]
      dsimp only
      rw [readOthers, List.getLast?_append, Option.or_assoc]
      cases tokensFrom (body.getLast?.or (read.tokens.getLast?.or previous)) place left <;>
        simp [Except.map]

theorem tokensFrom_of_lexes {operand : Bool} {characters : List Char} {tokens : List Token}
    (lexes : Lexes operand characters tokens []) {previous : Option Token}
    (same : previous.any endsOperand = operand) (location : Location) :
    ∃ body last, tokensFrom previous location characters = .ok (body ++ [Token.finish last]) ∧
      body.map Token.placeless = tokens := by
  obtain ⟨body, last, read, sameTokens⟩ := tokensFrom_eq_of_lexes lexes same location
  rw [tokensFrom] at read
  exact ⟨body, last, read, sameTokens⟩

/-- A text has tokens exactly if all of it can be read as lexemes. -/
theorem tokenize_iff {text : String} {tokens : List Token} :
    (∃ body last, Token.tokenize text = .ok (body ++ [Token.finish last]) ∧
      body.map Token.placeless = tokens) ↔ Lexes false text.toList tokens [] := by
  constructor
  · rintro ⟨body, last, read, rfl⟩
    obtain ⟨same, _, equal, lexes⟩ := lexes_of_tokensFrom read
    obtain ⟨rfl, -⟩ := List.append_inj' equal rfl
    exact lexes
  · intro lexes
    exact tokensFrom_of_lexes lexes rfl .start

end Lexer

end TableDdl
