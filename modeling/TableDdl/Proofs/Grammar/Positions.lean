import TableDdl.Cursor.Basic

/-!
# Positions of a cursor

A sequence of tokens always ends with an end of input. A cursor at an index of the sequence has the
tokens from that index on ahead, and sees the token at the index and the one after it. Every cursor
that it reaches is at an index of the same sequence that is not smaller, so that none of them looks
outside the sequence.
-/

namespace TableDdl

namespace Cursor

/-- The tokens from the cursor on, the last one included. -/
def tokens (cursor : Cursor) : List Token := cursor.ahead ++ [cursor.finish]

/-- The tokens through which a cursor moves: the given ones, with an end of input behind them if
they have none there. -/
def sequence (tokens : List Token) : List Token := (ofTokens tokens).tokens

/-- The cursor at an index of the sequence of the tokens. -/
def atIndex (tokens : List Token) (index : Nat) : Cursor := (ofTokens tokens).skip index

@[simp] theorem length_tokens (cursor : Cursor) :
    cursor.tokens.length = cursor.remaining + 1 := by
  simp [tokens, remaining]

theorem head?_tokens (cursor : Cursor) : cursor.tokens.head? = some cursor.current := by
  cases ahead : cursor.ahead <;> simp [tokens, current, ahead]

theorem ext_of_tokens {left right : Cursor} (same : left.tokens = right.tokens) : left = right := by
  obtain ⟨ahead, finish, isEnd⟩ := left
  obtain ⟨aheadRight, finishRight, isEndRight⟩ := right
  obtain ⟨rfl, last⟩ := List.append_inj' same rfl
  obtain rfl : finish = finishRight := by simpa using last
  rfl

theorem tokens_skip {cursor : Cursor} {count : Nat} (within : count ≤ cursor.remaining) :
    (cursor.skip count).tokens = cursor.tokens.drop count := by
  simp [tokens, skip, List.drop_append_of_le_length (show count ≤ cursor.ahead.length from within)]

variable {tokens : List Token} {index : Nat}

theorem tokens_atIndex (inside : index < (sequence tokens).length) :
    (atIndex tokens index).tokens = (sequence tokens).drop index := by
  apply tokens_skip
  simpa [sequence, Nat.lt_succ_iff] using inside

theorem remaining_atIndex (inside : index < (sequence tokens).length) :
    (atIndex tokens index).remaining = (sequence tokens).length - 1 - index := by
  have lengths := congrArg List.length (tokens_atIndex inside)
  rw [length_tokens, List.length_drop] at lengths
  omega

theorem Reaches.tokens_eq_drop {earlier later : Cursor} (reaches : earlier.Reaches later) :
    later.tokens = earlier.tokens.drop (earlier.remaining - later.remaining) := by
  obtain ⟨before, split⟩ := reaches.ahead
  have length : earlier.remaining - later.remaining = before.length := by
    simp [remaining, ← split]
  rw [length, Cursor.tokens, Cursor.tokens, reaches.finish, ← split, List.append_assoc,
    List.drop_left]

/-- Every cursor that is reached is at an index of the same sequence. -/
theorem Reaches.eq_atIndex {later : Cursor} (inside : index < (sequence tokens).length)
    (reaches : (atIndex tokens index).Reaches later) :
    later = atIndex tokens ((sequence tokens).length - 1 - later.remaining) ∧
      index ≤ (sequence tokens).length - 1 - later.remaining := by
  have start := remaining_atIndex inside
  have bound := reaches.remaining_le
  refine ⟨ext_of_tokens ?_, by omega⟩
  rw [reaches.tokens_eq_drop, tokens_atIndex inside, tokens_atIndex (by omega), List.drop_drop]
  congr 1
  omega

end Cursor

end TableDdl
