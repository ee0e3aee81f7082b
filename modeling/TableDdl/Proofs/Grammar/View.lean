import TableDdl.Proofs.Grammar.Finds

/-!
# Tokens without their places

What a grammar accepts depends on the kinds and texts of the tokens ahead, and not on where they
stand. A token without its place is the same token at the start of a text, and the view of a cursor
is what lies ahead of it, without places.
-/

namespace TableDdl

namespace Token

/-- The token of the kind and text, without a place of its own. -/
def bare (kind : Kind) (text : String) : Token := ⟨kind, text, .start⟩

/-- The token without its place. -/
def placeless (token : Token) : Token := bare token.kind token.text

@[simp] theorem kind_bare (kind : Kind) (text : String) : (bare kind text).kind = kind := rfl

@[simp] theorem text_bare (kind : Kind) (text : String) : (bare kind text).text = text := rfl

@[simp] theorem kind_placeless (token : Token) : token.placeless.kind = token.kind := rfl

@[simp] theorem text_placeless (token : Token) : token.placeless.text = token.text := rfl

@[simp] theorem placeless_bare (kind : Kind) (text : String) :
    (bare kind text).placeless = bare kind text := rfl

@[simp] theorem placeless_placeless (token : Token) :
    token.placeless.placeless = token.placeless := rfl

@[simp] theorem spells_placeless (token : Token) (text : String) :
    token.placeless.spells text = token.spells text := rfl

@[simp] theorem keyword?_placeless (token : Token) :
    token.placeless.keyword? = token.keyword? := rfl

@[simp] theorem isEnd_placeless (token : Token) : token.placeless.isEnd = token.isEnd := rfl

@[simp] theorem stopAt_placeless (stops : Stops) (token : Token) :
    stops.stopAt token.placeless = stops.stopAt token := rfl

theorem spells_of_isEnd {token : Token} (isEnd : token.isEnd = true) (text : String) :
    token.spells text = false := by
  have kind : token.kind = .endOfInput := by simpa [Token.isEnd] using isEnd
  simp [spells, isPunctuation, kind, Kind.isPunctuation]

theorem keyword?_of_isEnd {token : Token} (isEnd : token.isEnd = true) :
    token.keyword? = none := by
  have kind : token.kind = .endOfInput := by simpa [Token.isEnd] using isEnd
  simp [keyword?, kind]

theorem kind_of_isEnd {token : Token} (isEnd : token.isEnd = true) :
    token.kind = .endOfInput := by
  simpa [Token.isEnd] using isEnd

@[simp] theorem joined_placeless (left right : Token) :
    joined left.placeless right.placeless = joined left right := rfl

@[simp] theorem spelling_placeless (token : Token) :
    token.placeless.spelling = token.spelling := rfl

@[simp] theorem isWritten_placeless (token : Token) :
    token.placeless.isWritten = token.isWritten := rfl

theorem spelledAfter_map_placeless (previous : Token) (tokens : List Token) :
    spelledAfter previous.placeless (tokens.map placeless) = spelledAfter previous tokens := by
  induction tokens generalizing previous with
  | nil => rfl
  | cons token rest ih =>
      simp only [List.map_cons, spelledAfter]
      rw [ih, joined_placeless, spelling_placeless]

theorem renderRaw_map_placeless (tokens : List Token) :
    renderRaw (tokens.map placeless) = renderRaw tokens := by
  have written : (tokens.map placeless).filter isWritten =
      (tokens.filter isWritten).map placeless := by
    rw [List.filter_map]
    rfl
  rw [renderRaw, renderRaw, written]
  cases tokens.filter isWritten with
  | nil => rfl
  | cons token rest => simp [spelled, spelledAfter_map_placeless]

end Token

namespace Grammar

theorem closingIndex?_map_placeless (depth : Nat) (tokens : List Token) :
    closingIndex? depth (tokens.map Token.placeless) = closingIndex? depth tokens := by
  fun_induction closingIndex? depth tokens <;> simp_all [closingIndex?]

theorem closingIndex?_append {depth length : Nat} {tokens : List Token} (more : List Token)
    (closing : closingIndex? depth tokens = some length) :
    closingIndex? depth (tokens ++ more) = some length := by
  fun_induction closingIndex? depth tokens generalizing length <;>
    simp_all [closingIndex?]
  all_goals
    obtain ⟨inner, found, rfl⟩ := closing
    simp_all

theorem closingIndex?_lt {depth length : Nat} {tokens : List Token}
    (closing : closingIndex? depth tokens = some length) : length < tokens.length := by
  fun_induction closingIndex? depth tokens generalizing length <;> simp_all
  all_goals
    obtain ⟨inner, found, rfl⟩ := closing
    simp_all

/-- A closing parenthesis is found among the tokens up to it. -/
theorem closingIndex?_take {depth length : Nat} {tokens : List Token}
    (closing : closingIndex? depth tokens = some length) :
    closingIndex? depth (tokens.take (length + 1)) = some length := by
  fun_induction closingIndex? depth tokens generalizing length with
  | case1 => cases closing
  | case2 depth token rest ended => cases closing
  | case3 depth token rest opens ih =>
      obtain ⟨inner, found, rfl⟩ := Option.map_eq_some_iff.mp closing
      simp only [List.take_succ_cons, closingIndex?, opens, ih found, Option.map_some]
  | case4 token rest closes =>
      obtain rfl : 0 = length := by simpa using closing
      simp only [List.take_succ_cons, closingIndex?, closes]
  | case5 token rest closes outer ih =>
      obtain ⟨inner, found, rfl⟩ := Option.map_eq_some_iff.mp closing
      simp only [List.take_succ_cons, closingIndex?, closes, ih found, Option.map_some]
  | case6 depth token rest notEnd notOpen notClosed ih =>
      obtain ⟨inner, found, rfl⟩ := Option.map_eq_some_iff.mp closing
      simp only [List.take_succ_cons, closingIndex?, ih found, Option.map_some]

end Grammar

namespace Cursor

/-- What lies ahead of the cursor, without places. -/
def view (cursor : Cursor) : List Token := cursor.ahead.map Token.placeless

@[simp] theorem view_advance (cursor : Cursor) : cursor.advance.view = cursor.view.tail := by
  simp [view, advance]

@[simp] theorem view_skip (cursor : Cursor) (count : Nat) :
    (cursor.skip count).view = cursor.view.drop count := by
  simp [view, skip]

@[simp] theorem length_view (cursor : Cursor) : cursor.view.length = cursor.remaining := by
  simp [view, remaining]

theorem view_eq_nil_iff {cursor : Cursor} : cursor.view = [] ↔ cursor.ahead = [] := by
  simp [view]

theorem isEnd_current_of_ahead_eq_nil {cursor : Cursor} (done : cursor.ahead = []) :
    cursor.current.isEnd = true := by
  simp [current, done, cursor.finish_isEnd]

theorem current_of_ahead_eq_cons {cursor : Cursor} {token : Token} {rest : List Token}
    (ahead : cursor.ahead = token :: rest) : cursor.current = token := by
  simp [current, ahead]

theorem placeless_current_of_view_eq_cons {cursor : Cursor} {token : Token} {rest : List Token}
    (view : cursor.view = token :: rest) : cursor.current.placeless = token := by
  cases ahead : cursor.ahead with
  | nil => simp [Cursor.view, ahead] at view
  | cons head others =>
      simp only [Cursor.view, ahead, List.map_cons, List.cons.injEq] at view
      rw [current_of_ahead_eq_cons ahead, view.1]

end Cursor

end TableDdl
