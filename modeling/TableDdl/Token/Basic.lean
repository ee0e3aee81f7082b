import TableDdl.Text.Case

/-!
# Tokens

A text is read as a sequence of tokens, each with its kind, its text and the place where it starts.
Keywords are not told apart from other words: most of them are also names somewhere, so that the
grammars compare words by their text. A name in backticks is three tokens, of which the middle one
holds the name.
-/

namespace TableDdl

/-- A place in a text. -/
structure Location where
  /-- The line, counted from one. -/
  line : Nat
  /-- The column, counted from one. -/
  column : Nat
deriving DecidableEq, Repr

namespace Location

/-- The first place of a text. -/
def start : Location := ⟨1, 1⟩

/-- The place that many columns further on the same line. -/
def right (location : Location) (columns : Nat) : Location :=
  ⟨location.line, location.column + columns⟩

/-- The place after a character. -/
def after (location : Location) (character : Char) : Location :=
  if character = '\n' then ⟨location.line + 1, 1⟩ else location.right 1

end Location

/-- The kinds of tokens. -/
inductive Token.Kind where
  /-- A bare name or keyword. -/
  | word
  /-- The name between two backticks. -/
  | identifier
  /-- A quoted string, without its quotes and with its escapes resolved. -/
  | quotedString
  /-- A number without fraction and exponent. -/
  | integer
  /-- A number with a fraction or an exponent. -/
  | float
  /-- A literal of bits or of hexadecimal digits, such as `b'01'`, with its letter and quotes. -/
  | binaryLiteral
  /-- A backtick. -/
  | backtick
  /-- An opening parenthesis. -/
  | leftParen
  /-- A closing parenthesis. -/
  | rightParen
  /-- A comma. -/
  | comma
  /-- An equals sign. -/
  | equals
  /-- A semicolon. -/
  | semicolon
  /-- A dot. -/
  | dot
  /-- Any other character of an operator. -/
  | symbol
  /-- The end of the text. -/
  | endOfInput
deriving DecidableEq, Repr

/-- The kind is one of the punctuation marks, which have no other text than themselves. -/
def Token.Kind.isPunctuation : Token.Kind → Bool
  | backtick | leftParen | rightParen | comma | equals | semicolon | dot | symbol => true
  | word | identifier | quotedString | integer | float | binaryLiteral | endOfInput => false

/-- A token of a text. -/
structure Token where
  /-- The kind. -/
  kind : Token.Kind
  /-- The text. -/
  text : String
  /-- Where the token starts. -/
  location : Location
deriving DecidableEq, Repr

namespace Token

/-- The token that ends every text. -/
def finish (location : Location) : Token := ⟨.endOfInput, "", location⟩

/-- The token is an end of input. -/
def isEnd (token : Token) : Bool := token.kind = .endOfInput

/-- The token is a bare word that spells the keyword. -/
def isKeyword (token : Token) (keyword : String) : Bool :=
  token.kind = .word && Text.sameWord token.text keyword

/-- The token is a punctuation mark. -/
def isPunctuation (token : Token) : Bool := token.kind.isPunctuation

/-- The token is the keyword, in any case, or the punctuation mark that the text spells. -/
def spells (token : Token) (text : String) : Bool :=
  if token.kind = .word then Text.sameWord token.text text
  else token.isPunctuation && token.text == text

/-- The text of a bare word in upper case. -/
def keyword? (token : Token) : Option String :=
  if token.kind = .word then some (Text.upper token.text) else none

/-- How a refusal at this token names it. -/
def described (token : Token) : String :=
  if token.isEnd then "end of input" else token.text

end Token

end TableDdl
