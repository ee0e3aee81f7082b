import Mathlib.Order.Bounds.Basic
import TableDdl.Proofs.Grammar.Positions
import TableDdl.Proofs.Grammar.View

/-!
# The balance of parentheses

The balance of tokens is the number of parentheses that open among them, less the number of those
that close. The depth at which a token lies ahead of a cursor is the balance of the tokens before
it. From one token to the next, the depth changes by at most one.
-/

namespace TableDdl

namespace Token

/-- The number of opening parentheses among the tokens, less the number of closing ones. -/
def balance (tokens : List Token) : Int :=
  tokens.countP (·.kind = .leftParen) - tokens.countP (·.kind = .rightParen)

variable {token : Token} {tokens : List Token}

@[simp] theorem balance_nil : balance [] = 0 := rfl

theorem balance_append (left right : List Token) :
    balance (left ++ right) = balance left + balance right := by
  simp only [balance, List.countP_append]
  omega

theorem balance_cons (token : Token) (tokens : List Token) :
    balance (token :: tokens) = balance [token] + balance tokens :=
  balance_append [token] tokens

@[simp] theorem balance_opening (opens : token.kind = .leftParen) : balance [token] = 1 := by
  simp [balance, opens]

@[simp] theorem balance_closing (closes : token.kind = .rightParen) : balance [token] = -1 := by
  simp [balance, closes]

@[simp] theorem balance_other (notOpen : token.kind ≠ .leftParen)
    (notClosed : token.kind ≠ .rightParen) : balance [token] = 0 := by
  simp [balance, notOpen, notClosed]

theorem neg_one_le_balance (token : Token) : -1 ≤ balance [token] := by
  by_cases opens : token.kind = .leftParen
  · simp [balance_opening opens]
  by_cases closes : token.kind = .rightParen
  · simp [balance_closing closes]
  · simp [balance_other opens closes]

/-- The token is a parenthesis. -/
def isParenthesis (token : Token) : Bool := token.kind = .leftParen || token.kind = .rightParen

end Token

namespace Cursor

variable {start : Cursor} {index : Nat}

/-- The refusal of a text in which a parenthesis from the cursor on is not closed. -/
def unclosed (start : Cursor) : ParseError :=
  ⟨.unclosedParenthesis, "(", some start.current.location.line⟩

/-- The depth at which the token at a distance ahead of the cursor lies. -/
def depthAt (start : Cursor) (index : Nat) : Int := Token.balance (start.ahead.take index)

theorem skip_zero (start : Cursor) : start.skip 0 = start := rfl

theorem advance_skip (start : Cursor) (index : Nat) :
    (start.skip index).advance = start.skip (index + 1) := by
  simp [skip, advance]

@[simp] theorem depthAt_zero (start : Cursor) : start.depthAt 0 = 0 := rfl

/-- The depth changes with the token that is passed. -/
theorem depthAt_succ (start : Cursor) (index : Nat) :
    start.depthAt (index + 1) =
      start.depthAt index + Token.balance [(start.skip index).current] := by
  cases ahead : start.ahead.drop index with
  | nil =>
      -- Behind the last token the cursor stays on the end of input, which is no parenthesis.
      have isEnd : (start.skip index).current.isEnd = true := isEnd_current_of_ahead_eq_nil ahead
      have kind := Token.kind_of_isEnd isEnd
      have long : start.ahead.length ≤ index := List.drop_eq_nil_iff.mp ahead
      rw [Token.balance_other (by simp [kind]) (by simp [kind]), depthAt, depthAt,
        List.take_of_length_le long, List.take_of_length_le (by omega), Int.add_zero]
  | cons token rest =>
      have current : (start.skip index).current = token := current_of_ahead_eq_cons ahead
      have next : start.ahead.take (index + 1) = start.ahead.take index ++ [token] := by
        rw [List.take_add, ahead]
        rfl
      rw [current, depthAt, next, Token.balance_append, depthAt]

end Cursor

end TableDdl
