import TableDdl.Grammar.Group
import TableDdl.Literal.Basic
import TableDdl.Number.Reader

/-!
# Reading literals

The kind of a token decides what literal it is. A number outside the range of its type keeps its
text. A word is a literal by itself, and with the group after it if there is one; a group is a
literal, too.
-/

namespace TableDdl

namespace Literal

/-- The number that the token writes, or its text if that is no number in range. -/
def ofNumber (token : Token) : Literal :=
  let typed :=
    if token.kind = .integer then (Number.int64? token.text).map integer
    else (Number.double? token.text).map float
  typed.getD (raw token.text)

open Grammar in
/-- Reads a literal. -/
def grammar : Grammar Literal := do
  let token ← current
  match token.kind with
  | .integer | .float => advance; return ofNumber token
  | .quotedString => advance; return string token.text
  | .binaryLiteral => advance; return raw token.text
  | .word =>
      advance
      if ← sees "(" then
        return raw (token.text ++ "(" ++ (← group) ++ ")")
      else
        return raw token.text
  | .leftParen => return raw ("(" ++ (← group) ++ ")")
  | _ => refuse (.expected "literal value")

end Literal

namespace Grammar

/-- Reads a number without a sign that fits in 32 bits; `what` says what it stands for. -/
def unsigned (what : String) : Grammar UInt32 := do
  unless ← seesKind .integer do refuse (.expected ("integer " ++ what))
  match Number.uint32? (← current).text with
  | some value => advance; return value
  | none => refuse (.invalid what)

end Grammar

end TableDdl
