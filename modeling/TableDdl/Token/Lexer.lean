import TableDdl.Fault
import TableDdl.Text.Blank
import TableDdl.Token.Scan

/-!
# From text to tokens

Reading goes through the text one lexeme at a time. A lexeme is a blank or a comment, which gives no
token, or a token; a name in backticks gives up to three. A minus sign directly before a digit
belongs to the number unless what precedes it can end an operand, so reading remembers the last
token.
-/

namespace TableDdl

/-- What one step of reading gives. -/
structure Lexeme (start : List Char) where
  /-- The tokens that were read. -/
  tokens : List Token
  /-- The place where reading goes on. -/
  location : Location
  /-- The characters that are left. -/
  rest : List Char
  /-- Every step reads at least one character. -/
  shorter : rest.length < start.length

namespace Lexer

theorem length_rest_string_le (quote : Char) (location : Location) (characters : List Char) :
    (Scan.string quote location characters).rest.length ≤ characters.length := by
  fun_induction Scan.string quote location characters <;>
    simp_all <;> omega

theorem length_rest_name_le (location : Location) (characters : List Char) :
    (Scan.name location characters).rest.length ≤ characters.length := by
  fun_induction Scan.name location characters <;>
    simp_all <;> omega

theorem length_rest_comment_lt {location after : Location} {characters rest : List Char}
    (found : Scan.comment location characters = some (after, rest)) :
    rest.length < characters.length := by
  fun_induction Scan.comment location characters with
  | case1 => simp at found
  | case2 => simp at found
  | case3 =>
      simp only [Option.some.injEq, Prod.mk.injEq] at found
      rw [← found.2]
      simp only [List.length_cons]
      omega
  | case4 _ _ _ _ _ ih => exact Nat.lt_succ_of_lt (ih found)

/-- The kind of a character that is a token by itself. -/
def punctuation? (character : Char) : Option Token.Kind :=
  if character = '(' then some .leftParen
  else if character = ')' then some .rightParen
  else if character = ',' then some .comma
  else if character = '=' then some .equals
  else if character = ';' then some .semicolon
  else if character = '.' then some .dot
  else if character ∈ "+-*/<>!%|&^~:@".toList then some .symbol
  else none

/-- The letters that start a literal of bits or of hexadecimal digits. -/
def binaryMarks : List Char := ['b', 'B', 'x', 'X']

/-- The token can end an operand, so that a minus sign after it is an operator. The words after
which a literal stands are no operands. -/
def endsOperand (token : Token) : Bool :=
  token.kind ∈ [.integer, .float, .binaryLiteral, .word, .quotedString, .rightParen, .backtick] &&
    !token.isKeyword "DEFAULT" && !token.isKeyword "THAN"

/-- A minus sign that the given characters follow is the sign of a number. -/
def signsNumber (previous : Option Token) (rest : List Char) : Bool :=
  (rest.head?.any Char.isDigit) && !previous.any endsOperand

variable {location : Location} {character : Char} {rest : List Char}

/-- A lexeme that gives no token. -/
def silent (after : Location) (left : List Char) (shorter : left.length ≤ rest.length) :
    Lexeme (character :: rest) :=
  ⟨[], after, left, by simp only [List.length_cons]; omega⟩

/-- A lexeme of one token with `length` further characters on the same line. -/
def single (location : Location) (kind : Token.Kind) (text : List Char) (length : Nat) :
    Lexeme (character :: rest) :=
  ⟨[⟨kind, String.ofList text, location⟩], location.right (length + 1), rest.drop length,
    by simp only [List.length_cons, List.length_drop]; omega⟩

/-- The refusal of the text at a place. -/
def refuse (fault : Fault) (location : Location) (token : List Char) : ParseError :=
  ⟨fault, String.ofList token, some location.line⟩

/-- The lexeme of a quoted string whose opening quote stands before `opened`; `mark` is what stands
before that quote and is part of the token. -/
def quotedLexeme (location : Location) (quote : Char) (character : Char) (mark : List Char)
    (opened : List Char) (within : opened.length ≤ rest.length)
    (token : List Char → Token.Kind × List Char) :
    Except ParseError (Lexeme (character :: rest)) :=
  let inside := location.right (mark.length + 1)
  match scanned : Scan.string quote inside opened with
  | .unclosed text => .error (refuse .unterminatedString location (quote :: text))
  | .closed text closing left =>
      let (kind, spelling) := token text
      .ok ⟨[⟨kind, String.ofList spelling, location⟩], closing.right 1, left, by
        have bound := length_rest_string_le quote inside opened
        rw [scanned] at bound
        simp only [Scan.Delimited.rest] at bound
        simp only [List.length_cons]
        omega⟩

/-- The lexeme of a name in backticks: the backticks, and between them the name unless it is
empty. -/
def nameLexeme (location : Location) (character : Char) (rest : List Char) :
    Except ParseError (Lexeme (character :: rest)) :=
  let inside := location.right 1
  match scanned : Scan.name inside rest with
  | .unclosed text => .error (refuse .unterminatedName location (Text.backtick :: text))
  | .closed text closing left =>
      let mark := String.ofList [Text.backtick]
      let named : List Token :=
        if text = [] then [] else [⟨.identifier, String.ofList text, inside⟩]
      .ok ⟨⟨.backtick, mark, location⟩ :: (named ++ [⟨.backtick, mark, closing⟩]),
        closing.right 1, left, by
          have bound := length_rest_name_le inside rest
          rw [scanned] at bound
          simp only [Scan.Delimited.rest] at bound
          simp only [List.length_cons]
          omega⟩

/-- The lexeme of a comment that starts with a slash and a star, after the slash. -/
def commentLexeme (location : Location) (character : Char) (rest : List Char) :
    Except ParseError (Lexeme (character :: rest)) :=
  match found : Scan.comment (location.right 2) (rest.drop 1) with
  | none => .error (refuse .unterminatedComment location ['/', '*'])
  | some (after, left) =>
      .ok (silent after left (by
        have bound := length_rest_comment_lt found
        simp only [List.length_drop] at bound
        omega))

/-- The lexeme of a comment that goes to the end of its line. -/
def lineCommentLexeme (location : Location) (character : Char) (rest : List Char) :
    Lexeme (character :: rest) :=
  let skipped := (rest.takeWhile (· ≠ '\n')).length
  silent (location.right (skipped + 1)) (rest.drop skipped) (by simp)

/-- The lexeme that starts with the given character. -/
def lexeme (previous : Option Token) (location : Location) (character : Char) (rest : List Char) :
    Except ParseError (Lexeme (character :: rest)) :=
  if Text.isBlank character then .ok (silent (location.after character) rest (Nat.le_refl _))
  else if character = '#' then .ok (lineCommentLexeme location character rest)
  else if character = '-' ∧ rest.head? = some '-' then
    .ok (lineCommentLexeme location character rest)
  else if character = '/' ∧ rest.head? = some '*' then commentLexeme location character rest
  else if character = Text.singleQuote ∨ character = Text.doubleQuote then
    quotedLexeme location character character [] rest (Nat.le_refl _)
      fun text => (.quotedString, text)
  else if character = Text.backtick then nameLexeme location character rest
  else if character.isDigit then
    let (kind, text) := Scan.number (character :: rest)
    .ok (single location kind text (text.length - 1))
  else if character = '-' ∧ signsNumber previous rest then
    let (kind, text) := Scan.number rest
    .ok (single location kind ('-' :: text) text.length)
  else match punctuation? character with
    | some kind => .ok (single location kind [character] 0)
    | none =>
        if character ∈ binaryMarks ∧ rest.head? = some Text.singleQuote then
          quotedLexeme location Text.singleQuote character [character] (rest.drop 1)
            (by simp) fun text =>
              (.binaryLiteral, character :: Text.singleQuote :: (text ++ [Text.singleQuote]))
        else if Text.startsWord character then
          let text := character :: Scan.word rest
          .ok (single location .word text (text.length - 1))
        else .error (refuse .unexpectedCharacter location [character])

/-- The tokens of the characters from a place on, after the given last token. -/
def tokensFrom (previous : Option Token) (location : Location) :
    List Char → Except ParseError (List Token)
  | [] => .ok [Token.finish location]
  | character :: rest =>
      match lexeme previous location character rest with
      | .error error => .error error
      | .ok read =>
          (tokensFrom (read.tokens.getLast?.or previous) read.location read.rest).map
            (read.tokens ++ ·)
termination_by characters => characters.length
decreasing_by exact read.shorter

end Lexer

namespace Token

/-- The tokens of a text, the last of which is its end. -/
def tokenize (text : String) : Except ParseError (List Token) :=
  Lexer.tokensFrom none .start text.toList

end Token

end TableDdl
