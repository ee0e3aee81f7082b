import TableDdl.Token.Basic

/-!
# Cursors

A cursor is a place in a sequence of tokens: the tokens that lie ahead, and the end of input behind
them, which is never passed. An end of input may also lie among the tokens ahead; a cursor that
stands on one is at an end, too.

A cursor reaches another one if the other lies further on in the same sequence. Everything that is
read from a sequence moves the cursor to one that it reaches.
-/

namespace TableDdl

/-- A place in a sequence of tokens. -/
structure Cursor where
  /-- The tokens from the cursor up to the last one. -/
  ahead : List Token
  /-- The last token. -/
  finish : Token
  /-- The last token is an end of input. -/
  finish_isEnd : finish.isEnd = true
deriving Repr

namespace Cursor

/-- The token on which the cursor stands. -/
def current (cursor : Cursor) : Token := cursor.ahead.headD cursor.finish

/-- The cursor on the next token; at the last token it stays. -/
def advance (cursor : Cursor) : Cursor := { cursor with ahead := cursor.ahead.tail }

/-- The token after the one on which the cursor stands. -/
def next (cursor : Cursor) : Token := cursor.advance.current

/-- The cursor stands on an end of input. -/
def atEnd (cursor : Cursor) : Bool := cursor.current.isEnd

/-- The number of tokens before the last one that lie ahead. -/
def remaining (cursor : Cursor) : Nat := cursor.ahead.length

/-- The place after the text of a token, or the start of a text if there is none. -/
def placeAfter : Option Token → Location
  | some token => token.location.right token.text.length
  | none => .start

/-- The cursor on the first of the tokens. An end of input is added if they do not have one at
their end. -/
def ofTokens (tokens : List Token) : Cursor :=
  match tokens.getLast? with
  | some last =>
      if isEnd : last.isEnd = true then ⟨tokens.dropLast, last, isEnd⟩
      else ⟨tokens, Token.finish (placeAfter (some last)), rfl⟩
  | none => ⟨[], Token.finish (placeAfter none), rfl⟩

/-- The later cursor lies at the earlier one or further on in the same sequence. -/
structure Reaches (earlier later : Cursor) : Prop where
  /-- What lies ahead of the later cursor lies ahead of the earlier one. -/
  ahead : later.ahead <:+ earlier.ahead
  /-- Both sequences have the same end. -/
  finish : later.finish = earlier.finish

namespace Reaches

theorem refl (cursor : Cursor) : cursor.Reaches cursor :=
  ⟨List.suffix_refl _, rfl⟩

theorem trans {first second third : Cursor} (before : first.Reaches second)
    (after : second.Reaches third) : first.Reaches third :=
  ⟨after.ahead.trans before.ahead, after.finish.trans before.finish⟩

theorem remaining_le {earlier later : Cursor} (reaches : earlier.Reaches later) :
    later.remaining ≤ earlier.remaining :=
  reaches.ahead.length_le

theorem advance (cursor : Cursor) : cursor.Reaches cursor.advance :=
  ⟨List.tail_suffix _, rfl⟩

end Reaches

theorem remaining_pos_of_not_atEnd {cursor : Cursor} (inside : cursor.atEnd = false) :
    0 < cursor.remaining := by
  cases ahead : cursor.ahead with
  | nil => simp [atEnd, current, ahead, cursor.finish_isEnd] at inside
  | cons token rest => simp [remaining, ahead]

theorem remaining_advance (cursor : Cursor) : cursor.advance.remaining = cursor.remaining - 1 := by
  simp [remaining, Cursor.advance]

/-- The cursor past the given number of tokens. -/
def skip (cursor : Cursor) (count : Nat) : Cursor :=
  { cursor with ahead := cursor.ahead.drop count }

theorem Reaches.skip (cursor : Cursor) (count : Nat) : cursor.Reaches (cursor.skip count) :=
  ⟨List.drop_suffix _ _, rfl⟩

/-- The tokens between two cursors of one sequence. -/
def between (earlier later : Cursor) : List Token :=
  earlier.ahead.take (earlier.remaining - later.remaining)

end Cursor

end TableDdl
