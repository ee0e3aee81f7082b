import Mathlib.Data.List.TakeWhile
import TableDdl.Proofs.Extension.Commas
import TableDdl.Proofs.Nesting.Balance
import TableDdl.Proofs.Segments.Steps

/-!
# What a group takes

A group counts the parentheses behind the one that opens it and stops at the first closing one that
meets no open one. This is the parenthesis with which the balance, counted from the one that opens
the group, is back at zero for the first time.
-/

namespace TableDdl

namespace Token

/-- Behind the first tokens, counted by the length, there is a closing parenthesis that closes the
given depth, and none among them does; nor is there an end of input among them. -/
structure ClosesAt (depth : Int) (tokens : List Token) (length : Nat) : Prop where
  /-- A closing parenthesis is there. -/
  closes : ∃ token, tokens[length]? = some token ∧ token.kind = .rightParen
  /-- It lies at depth zero. -/
  balanced : depth + balance (tokens.take length) = 0
  /-- Everything before it lies inside. -/
  nonnegative : ∀ earlier ≤ length, 0 ≤ depth + balance (tokens.take earlier)
  /-- There is no end of input before it. -/
  inside : ∀ token ∈ tokens.take length, token.isEnd = false

variable {depth : Int} {token : Token} {tokens : List Token} {length : Nat}

theorem not_closesAt_nil : ¬ ClosesAt depth [] length := by
  rintro ⟨⟨token, there, -⟩, -⟩
  simp at there

theorem closesAt_cons_zero_iff :
    ClosesAt depth (token :: tokens) 0 ↔ token.kind = .rightParen ∧ depth = 0 := by
  constructor
  · rintro ⟨⟨first, there, closes⟩, balanced, -, -⟩
    obtain rfl : token = first := by simpa using there
    exact ⟨closes, by simpa using balanced⟩
  · rintro ⟨closes, rfl⟩
    refine ⟨⟨token, rfl, closes⟩, rfl, fun earlier zero => ?_, by simp⟩
    simp [Nat.le_zero.mp zero]

theorem ClosesAt.depth_nonneg (closes : ClosesAt depth tokens length) : 0 ≤ depth := by
  simpa using closes.nonnegative 0 (Nat.zero_le _)

/-- Behind the first token, the depth that is closed is the one behind it. -/
theorem closesAt_cons_succ_iff :
    ClosesAt depth (token :: tokens) (length + 1) ↔
      0 ≤ depth ∧ token.isEnd = false ∧ ClosesAt (depth + balance [token]) tokens length := by
  have behind (count : Nat) : depth + balance ((token :: tokens).take (count + 1)) =
      depth + balance [token] + balance (tokens.take count) := by
    rw [List.take_succ_cons, balance_cons]
    omega
  constructor
  · intro closesAt
    have here := closesAt.depth_nonneg
    obtain ⟨⟨last, there, closes⟩, balanced, nonnegative, inside⟩ := closesAt
    refine ⟨here, inside token (by simp), ⟨last, by simpa using there, closes⟩,
      ?_, ?_, ?_⟩
    · rw [← behind, balanced]
    · intro earlier before
      rw [← behind]
      exact nonnegative (earlier + 1) (by omega)
    · intro other member
      exact inside other (by simp [member])
  · rintro ⟨here, notEnd, ⟨last, there, closes⟩, balanced, nonnegative, inside⟩
    refine ⟨⟨last, by simpa using there, closes⟩, ?_, ?_, ?_⟩
    · rw [behind, balanced]
    · intro earlier before
      cases earlier with
      | zero => simpa using here
      | succ earlier =>
          rw [behind]
          exact nonnegative earlier (by omega)
    · rw [List.take_succ_cons, List.forall_mem_cons]
      exact ⟨notEnd, inside⟩

/-- A group is closed by the first parenthesis that closes its depth. -/
theorem closingIndex?_eq_some_iff {depth : Nat} :
    Grammar.closingIndex? depth tokens = some length ↔ ClosesAt depth tokens length := by
  fun_induction Grammar.closingIndex? depth tokens generalizing length with
  | case1 depth => simp [not_closesAt_nil]
  | case2 depth token rest ended =>
      have isEnd : token.isEnd = true := by simp [Token.isEnd, ended]
      cases length with
      | zero => simp [closesAt_cons_zero_iff, ended]
      | succ length => simp [closesAt_cons_succ_iff, isEnd]
  | case3 depth token rest opens ih =>
      have notEnd : token.isEnd = false := by simp [Token.isEnd, opens]
      cases length with
      | zero => simp [closesAt_cons_zero_iff, opens]
      | succ length => simp [closesAt_cons_succ_iff, notEnd, balance_opening opens, ih]
  | case4 token rest closes =>
      cases length with
      | zero => simp [closesAt_cons_zero_iff, closes]
      | succ length =>
          -- The token would bring the depth below zero.
          have low : ¬ ClosesAt (-1) rest length := fun closesAt => by
            have := closesAt.depth_nonneg
            omega
          simp [closesAt_cons_succ_iff, balance_closing closes, low]
  | case5 token rest closes outer ih =>
      have notEnd : token.isEnd = false := by simp [Token.isEnd, closes]
      cases length with
      | zero =>
          have deeper : ((outer + 1 : Nat) : Int) ≠ 0 := by omega
          simp only [closesAt_cons_zero_iff, deeper, and_false]
          simp
      | succ length =>
          have behind : ((outer + 1 : Nat) : Int) + balance [token] = outer := by
            rw [balance_closing closes]
            omega
          rw [closesAt_cons_succ_iff, behind, ← ih]
          simp [notEnd]
          omega
  | case6 depth token rest notEnd notOpen notClosed ih =>
      have notEnd : token.isEnd = false := by simpa [Token.isEnd] using notEnd
      cases length with
      | zero => simp [closesAt_cons_zero_iff, show token.kind ≠ .rightParen from notClosed]
      | succ length => simp [closesAt_cons_succ_iff, notEnd, balance_other notOpen notClosed, ih]

end Token

namespace Cursor

/-- The token at the distance closes the parenthesis on which the cursor stands: with it the balance
is back at zero for the first time, and no end of input comes before it. -/
structure Closes (start : Cursor) (index : Nat) : Prop where
  /-- The token is a closing parenthesis. -/
  closes : (start.skip index).current.kind = .rightParen
  /-- The balance is zero for the first time behind it. -/
  balanced : IsLeast {length | 0 < length ∧ start.depthAt length = 0} (index + 1)
  /-- There is no end of input before it. -/
  inside : ∀ earlier < index, (start.skip earlier).atEnd = false

variable {start : Cursor} {index : Nat}

theorem current_skip (start : Cursor) (index : Nat) :
    (start.skip index).current = start.ahead[index]?.getD start.finish := by
  simp [current, skip, List.headD_eq_head?_getD, List.head?_drop]

theorem atEnd_skip_of_getElem? {token : Token} (there : start.ahead[index]? = some token) :
    (start.skip index).atEnd = token.isEnd := by
  simp [atEnd, current_skip, there]

/-- The depth is counted from the parenthesis on which the cursor stands. -/
theorem depthAt_succ_of_opens (opens : start.current.kind = .leftParen) (index : Nat) :
    start.depthAt (index + 1) = 1 + Token.balance (start.ahead.tail.take index) := by
  have more : start.ahead ≠ [] := ahead_ne_nil_of_kind (by simp [opens])
  rw [depthAt, ahead_eq_cons more, List.take_succ_cons, Token.balance_cons,
    Token.balance_opening opens, List.tail_cons]

/-- Until the balance is back at zero for the first time, it is positive. -/
theorem depthAt_pos_of_isLeast {last : Nat} (opens : start.current.kind = .leftParen)
    (least : IsLeast {length | 0 < length ∧ start.depthAt length = 0} last)
    (positive : 0 < index) (before : index < last) : 0 < start.depthAt index := by
  induction index with
  | zero => omega
  | succ index ih =>
      have nonzero : start.depthAt (index + 1) ≠ 0 := by
        intro zero
        have := least.2 ⟨positive, zero⟩
        omega
      by_cases first : index = 0
      · subst first
        simp [depthAt_succ_of_opens opens]
      · have inside := ih (by omega) (by omega)
        have step := depthAt_succ start index
        have bound := Token.neg_one_le_balance (start.skip index).current
        omega

theorem exists_getElem?_of_kind (inside : (start.skip index).current.kind ≠ .endOfInput) :
    ∃ token, start.ahead[index]? = some token ∧ token = (start.skip index).current := by
  rw [current_skip] at inside ⊢
  cases there : start.ahead[index]? with
  | none => exact absurd (Token.kind_of_isEnd start.finish_isEnd) (by simpa [there] using inside)
  | some token => exact ⟨token, rfl, rfl⟩

/-- Behind the parenthesis on which the cursor stands, its group is closed at depth zero. -/
theorem Closes.closesAt {length : Nat} (opens : start.current.kind = .leftParen)
    (closesHere : start.Closes (length + 1)) : Token.ClosesAt 0 start.ahead.tail length := by
  obtain ⟨closes, least, inside⟩ := closesHere
  refine ⟨?_, ?_, ?_, ?_⟩
  · obtain ⟨token, there, rfl⟩ := exists_getElem?_of_kind (by rw [closes]; decide)
    exact ⟨_, by rw [List.getElem?_tail, there], closes⟩
  · have zero : start.depthAt (length + 1 + 1) = 0 := least.1.2
    have step := depthAt_succ start (length + 1)
    rw [Token.balance_closing closes] at step
    have here := depthAt_succ_of_opens opens length
    omega
  · intro earlier before
    have positive : 0 < start.depthAt (earlier + 1) :=
      depthAt_pos_of_isLeast opens least (by omega) (by omega)
    have here := depthAt_succ_of_opens opens earlier
    omega
  · intro token member
    obtain ⟨earlier, bound, rfl⟩ := List.mem_take_iff_getElem.mp member
    have there : start.ahead[earlier + 1]? = some start.ahead.tail[earlier] := by
      rw [← List.getElem?_tail]
      exact List.getElem?_eq_getElem _
    rw [← atEnd_skip_of_getElem? there]
    exact inside (earlier + 1) (by omega)

theorem closes_of_closesAt {length : Nat} (opens : start.current.kind = .leftParen)
    (closesAt : Token.ClosesAt 0 start.ahead.tail length) : start.Closes (length + 1) := by
  obtain ⟨⟨token, there, closes⟩, balanced, nonnegative, inside⟩ := closesAt
  rw [List.getElem?_tail] at there
  have last : (start.skip (length + 1)).current = token := by simp [current_skip, there]
  refine ⟨by rw [last, closes], ⟨⟨Nat.succ_pos _, ?_⟩, ?_⟩, ?_⟩
  · have here := depthAt_succ_of_opens opens length
    rw [depthAt_succ, last, Token.balance_closing closes]
    omega
  · rintro other ⟨positive, zero⟩
    obtain ⟨earlier, rfl⟩ := Nat.exists_eq_add_one_of_ne_zero (Nat.ne_zero_of_lt positive)
    by_contra before
    have here := depthAt_succ_of_opens opens earlier
    have := nonnegative earlier (by omega)
    omega
  · intro earlier before
    cases earlier with
    | zero => simp [skip_zero, atEnd, Token.isEnd, opens]
    | succ earlier =>
        have long : length + 1 < start.ahead.length := (List.getElem?_eq_some_iff.mp there).1
        have here : start.ahead[earlier + 1]? = some start.ahead[earlier + 1] :=
          List.getElem?_eq_getElem _
        rw [atEnd_skip_of_getElem? here]
        apply inside
        rw [List.mem_take_iff_getElem]
        exact ⟨earlier, by simp; omega, List.getElem_tail _⟩

/-- The tokens between the parenthesis on which the cursor stands and a later one. -/
theorem between_skip {length : Nat} (bound : length < start.ahead.tail.length) :
    start.advance.between (start.skip (length + 1)) = start.ahead.tail.take length := by
  simp only [between, advance, remaining, skip, List.length_drop, List.length_tail] at bound ⊢
  congr 1
  omega

end Cursor

namespace Grammar

variable {text : String} {tokens : List Token} {scope : Scope} {start : Cursor} {index : Nat}

/-- The group whose parenthesis is closed is found. -/
theorem finds_group_of_closes (opened : start.current.spells "(" = true)
    (opens : start.current.kind = .leftParen) (closes : start.Closes index) :
    group.Finds scope start (Token.renderRaw (start.advance.between (start.skip index)))
      (start.skip (index + 1)) := by
  cases index with
  | zero => exact absurd (opens.symm.trans closes.closes) (by decide)
  | succ length =>
      have closing := Token.closingIndex?_eq_some_iff.mpr (closes.closesAt opens)
      rw [Cursor.between_skip (closingIndex?_lt closing)]
      exact finds_group_iff.mpr ⟨opened, length, closing, rfl, rfl⟩

/-- A group whose parenthesis is not closed is refused at the end of input. -/
theorem group_of_not_closes (opened : start.current.spells "(" = true)
    (opens : start.current.kind = .leftParen)
    (inside : ∀ token ∈ start.ahead, token.isEnd = false) (never : ∀ index, ¬ start.Closes index) :
    (group scope start).result = .error start.unclosed ∧
      (group scope start).cursor.atEnd = true := by
  have none : closingIndex? 0 start.ahead.tail = none := by
    rw [Option.eq_none_iff_forall_ne_some]
    intro length closing
    have closesAt := Token.closingIndex?_eq_some_iff.mp closing
    exact never (length + 1) (Cursor.closes_of_closesAt opens closesAt)
  have entire : start.ahead.tail.takeWhile (fun token => !token.isEnd) = start.ahead.tail := by
    rw [List.takeWhile_eq_self_iff]
    intro token member
    simp [inside token (List.mem_of_mem_tail member)]
  simp only [group, opened, if_true, none, entire]
  refine ⟨rfl, Cursor.isEnd_current_of_ahead_eq_nil ?_⟩
  simp [Cursor.skip]
  omega

/-- A group of a text begins at an opening parenthesis only; elsewhere the text is refused there. It
is found exactly if its parenthesis is closed before the end of input: what is found is the text of
the tokens between both parentheses, and the cursor comes past the closing one. If the parenthesis
is not closed, the text is refused with its line, and the cursor is on the end of input. -/
theorem group_takes_balanced (read : Token.tokenize text = .ok tokens)
    (reaches : (Cursor.ofTokens tokens).Reaches start) (scope : Scope) :
    (start.current.kind ≠ .leftParen →
      (group scope start).result = .error ⟨.expected "opening bracket \"(\"",
        start.current.described, some start.current.location.line⟩ ∧
      (group scope start).cursor = start) ∧
    (start.current.kind = .leftParen →
      ((∃ taken, (group scope start).result = .ok taken) ↔ ∃ index, start.Closes index) ∧
      (∀ index, start.Closes index →
        (group scope start).result =
          .ok (Token.renderRaw (start.advance.between (start.skip index))) ∧
        (group scope start).cursor = start.skip (index + 1)) ∧
      ((∀ index, ¬ start.Closes index) →
        (group scope start).result = .error start.unclosed ∧
        (group scope start).cursor.atEnd = true)) := by
  have inside (token) (member : token ∈ start.ahead) : token.isEnd = false :=
    (Lexer.regular_ofTokens read token (reaches.ahead.subset member)).inside
  have spelled : start.current.spells "(" = true ↔ start.current.kind = .leftParen := by
    by_cases done : start.ahead = []
    · have isEnd := Cursor.isEnd_current_of_ahead_eq_nil done
      simp [Token.spells_of_isEnd isEnd, Token.kind_of_isEnd isEnd]
    · have member : start.current ∈ start.ahead := by
        rw [Cursor.ahead_eq_cons done]
        exact List.mem_cons_self
      exact (Lexer.paired_ofTokens read _ (reaches.ahead.subset member)).opening
  refine ⟨fun notOpen => ?_, fun opens => ⟨?_, ?_, ?_⟩⟩
  · have unspelled : ¬ start.current.spells "(" = true := mt spelled.mp notOpen
    simp [group, unspelled, refuse]
  · constructor
    · rintro ⟨taken, found⟩
      by_contra none
      have refused : (group scope start).result = .error start.unclosed :=
        (group_of_not_closes (spelled.mpr opens) opens inside (not_exists.mp none)).1
      rw [found] at refused
      cases refused
    · rintro ⟨index, closes⟩
      exact ⟨_, (finds_group_of_closes (spelled.mpr opens) opens closes).1⟩
  · intro index closes
    exact finds_group_of_closes (spelled.mpr opens) opens closes
  · exact group_of_not_closes (spelled.mpr opens) opens inside

/-- A partitioning expression is taken up to its own closing parenthesis, past the one of the call
in it. -/
theorem group_takes_call :
    ∃ tokens, Token.tokenize "(YEAR(`a`) + 1) PARTITIONS" = .ok tokens ∧
      (group ⟨.standard, .none⟩ (.ofTokens tokens)).result = .ok "YEAR(`a`) + 1" ∧
      (group ⟨.standard, .none⟩ (.ofTokens tokens)).cursor = (Cursor.ofTokens tokens).skip 10 := by
  let tokens : List Token := [⟨.leftParen, "(", ⟨1, 1⟩⟩, ⟨.word, "YEAR", ⟨1, 2⟩⟩,
    ⟨.leftParen, "(", ⟨1, 6⟩⟩, ⟨.backtick, "`", ⟨1, 7⟩⟩, ⟨.identifier, "a", ⟨1, 8⟩⟩,
    ⟨.backtick, "`", ⟨1, 9⟩⟩, ⟨.rightParen, ")", ⟨1, 10⟩⟩, ⟨.symbol, "+", ⟨1, 12⟩⟩,
    ⟨.integer, "1", ⟨1, 14⟩⟩, ⟨.rightParen, ")", ⟨1, 15⟩⟩, ⟨.word, "PARTITIONS", ⟨1, 17⟩⟩,
    .finish ⟨1, 27⟩]
  have read : Token.tokenize "(YEAR(`a`) + 1) PARTITIONS" = .ok tokens :=
    eq_ok_of_toOption (by decide +kernel)
  have closes : (Cursor.ofTokens tokens).Closes 9 := by
    refine ⟨by decide, ⟨⟨by decide, by decide⟩, ?_⟩, by decide⟩
    rintro length ⟨positive, zero⟩
    by_contra before
    have none : ∀ length < 10, 0 < length → (Cursor.ofTokens tokens).depthAt length ≠ 0 := by
      decide
    exact none length (by omega) positive zero
  obtain ⟨-, grouped⟩ := group_takes_balanced read (.refl _) ⟨.standard, .none⟩
  obtain ⟨-, taken, -⟩ := grouped (by decide)
  obtain ⟨result, cursor⟩ := taken 9 closes
  refine ⟨tokens, read, ?_, cursor⟩
  rw [result]
  decide +kernel

end Grammar

end TableDdl
