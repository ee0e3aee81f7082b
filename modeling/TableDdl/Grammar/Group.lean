import TableDdl.Grammar.Basic
import TableDdl.Token.Raw

/-!
# Parenthesized groups

A group is everything between a parenthesis and the one that closes it. It is kept as text.
-/

namespace TableDdl

namespace Grammar

/-- The number of tokens before the parenthesis that closes the given depth; there must be no end of
input among them. -/
def closingIndex? : Nat → List Token → Option Nat
  | _, [] => none
  | depth, token :: rest =>
      match token.kind with
      | .endOfInput => none
      | .leftParen => (closingIndex? (depth + 1) rest).map (· + 1)
      | .rightParen =>
          match depth with
          | 0 => some 0
          | outer + 1 => (closingIndex? outer rest).map (· + 1)
      | _ => (closingIndex? depth rest).map (· + 1)

/-- Reads a group and gives the text of the tokens between its parentheses. A group that is not
closed is refused with the line of its parenthesis, and the cursor is left on the end of input. -/
def group : Grammar String := fun scope start =>
  if start.current.spells "(" then
    let inner := start.ahead.tail
    match closingIndex? 0 inner with
    | some length =>
        ⟨.ok (Token.renderRaw (inner.take length)), start.skip (length + 2), .skip start _⟩
    | none =>
        ⟨.error ⟨.unclosedParenthesis, "(", some start.current.location.line⟩,
          start.skip (1 + (inner.takeWhile fun token => !token.isEnd).length), .skip start _⟩
  else refuse (.expected "opening bracket \"(\"") scope start

end Grammar

end TableDdl
