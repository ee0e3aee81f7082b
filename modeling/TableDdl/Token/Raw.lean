import TableDdl.Text.Quoted
import TableDdl.Token.Basic

/-!
# Text of a run of tokens

Expressions are kept as text. Their tokens are put together with one space between them, except
that there is none inside parentheses, around a dot and before a comma, and that a parenthesis
directly after a name is a call.
-/

namespace TableDdl

namespace Token

/-- The words after which a parenthesis opens an operand and not the arguments of a call. -/
def operandKeywords : List String :=
  ["AND", "OR", "XOR", "NOT", "IN", "IS", "LIKE", "BETWEEN", "CHECK", "AS", "VALUES", "CASE",
    "WHEN", "THEN", "ELSE"]

/-- The token is written in the text of a run; backticks come with the name between them. -/
def isWritten (token : Token) : Bool :=
  token.kind ≠ .backtick && !token.isEnd

/-- No space stands between the two tokens. -/
def joined (previous token : Token) : Bool :=
  previous.kind = .leftParen || previous.kind = .dot ||
    token.kind = .rightParen || token.kind = .comma || token.kind = .dot ||
    (token.kind = .leftParen && (previous.kind = .identifier ||
      (previous.kind = .word && !operandKeywords.any (Text.sameWord previous.text))))

/-- The text by which the token is written. -/
def spelling (token : Token) : String :=
  match token.kind with
  | .identifier => Text.quoteName token.text
  | .quotedString => Text.quoteString token.text
  | _ => token.text

/-- The text of the tokens that follow a token. -/
def spelledAfter (previous : Token) : List Token → String
  | [] => ""
  | token :: rest =>
      (if joined previous token then "" else " ") ++ token.spelling ++ spelledAfter token rest

/-- The text of tokens all of which are written. -/
def spelled : List Token → String
  | [] => ""
  | token :: rest => token.spelling ++ spelledAfter token rest

/-- The text of a run of tokens, with its spaces in the normalized places. -/
def renderRaw (tokens : List Token) : String :=
  spelled (tokens.filter isWritten)

end Token

end TableDdl
