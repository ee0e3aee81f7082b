import Mathlib.Data.Nat.Find
import TableDdl.Proofs.Extension.Resumption
import TableDdl.Proofs.Nesting.Balance

/-!
# Where a scan stops

A scan is a loop that turns from one point to another until it ends. Each turn moves the cursor on,
so that the loop ends after at most as many turns as there are tokens ahead, and one more, whatever
its visitor does. If the visitor only watches, a turn moves past exactly one token. Then the scan
stops at the first token that ends it: an end of input, or a closing parenthesis or a stop word at
depth zero; and on its way it shows every token that is no parenthesis to the visitor, with its
depth.
-/

namespace TableDdl

/-- A word is one of the stop words together with further ones if it is one of either. -/
theorem Stops.stopAt_adding (stops : Stops) (words : List String) (token : Token) :
    (stops.adding words).stopAt token = true ↔
      (Stops.ofList words).stopAt token = true ∨ stops.stopAt token = true := by
  by_cases isWord : token.kind = .word
  · simp [Stops.stopAt, Stops.adding, Stops.ofList, Stops.none, isWord]
  · by_cases isMark : token.isPunctuation = true <;>
      simp [Stops.stopAt, Stops.adding, Stops.ofList, Stops.none, isWord, isMark]

namespace Cursor

variable {start : Cursor} {stops : Stops} {words : List String} {index : Nat}

/-- The token at the distance ahead of the cursor ends a scan that begins at the cursor, up to the
stop words and the further words. -/
def EndsScan (start : Cursor) (stops : Stops) (words : List String) (index : Nat) : Prop :=
  let token := (start.skip index).current
  token.isEnd = true ∨ start.depthAt index = 0 ∧ (token.kind = .rightParen ∨
    token.kind ≠ .leftParen ∧
      ((Stops.ofList words).stopAt token = true ∨ stops.stopAt token = true))

instance (start : Cursor) (stops : Stops) (words : List String) :
    DecidablePred (start.EndsScan stops words) := fun index => by
  unfold EndsScan
  infer_instance

/-- The tokens before the distance that are no parentheses, each with its depth and the cursor on
it. -/
def shown (start : Cursor) (length : Nat) : List (Nat × Cursor) :=
  ((List.range length).filter fun index => !(start.skip index).current.isParenthesis).map
    fun index => ((start.depthAt index).toNat, start.skip index)

theorem shown_succ_of_parenthesis (isMark : (start.skip index).current.isParenthesis = true) :
    start.shown (index + 1) = start.shown index := by
  simp [shown, List.range_succ, isMark]

theorem shown_succ (noMark : (start.skip index).current.isParenthesis = false) :
    start.shown (index + 1) =
      start.shown index ++ [((start.depthAt index).toNat, start.skip index)] := by
  simp [shown, List.range_succ, noMark]

/-- A scan ends at the latest behind the last token. -/
theorem endsScan_remaining (start : Cursor) (stops : Stops) (words : List String) :
    start.EndsScan stops words start.remaining :=
  .inl (isEnd_current_of_ahead_eq_nil (by simp [skip, remaining]))

theorem exists_isLeast_endsScan (start : Cursor) (stops : Stops) (words : List String) :
    ∃ index ≤ start.remaining, IsLeast {index | start.EndsScan stops words index} index := by
  have ends := start.endsScan_remaining stops words
  exact ⟨Nat.find ⟨_, ends⟩, Nat.find_min' _ ends, Nat.find_spec ⟨_, ends⟩,
    fun _ => Nat.find_min' ⟨_, ends⟩⟩

/-- Up to the token that ends a scan, the depth does not get below zero: a parenthesis that closes
at depth zero ends the scan. -/
theorem depthAt_nonneg_of_isLeast {last : Nat}
    (least : IsLeast {index | start.EndsScan stops words index} last) (before : index ≤ last) :
    0 ≤ start.depthAt index := by
  induction index with
  | zero => simp
  | succ index ih =>
      have nonnegative : 0 ≤ start.depthAt index := ih (by omega)
      have goes : ¬ start.EndsScan stops words index := by
        intro ends
        have := least.2 ends
        omega
      rw [depthAt_succ]
      by_cases closes : (start.skip index).current.kind = .rightParen
      · have nonzero : start.depthAt index ≠ 0 := fun zero => goes (.inr ⟨zero, .inl closes⟩)
        rw [Token.balance_closing closes]
        omega
      by_cases opens : (start.skip index).current.kind = .leftParen
      · rw [Token.balance_opening opens]
        omega
      · rw [Token.balance_other opens closes]
        omega

end Cursor

namespace Grammar

variable {σ : Type}

/-! ## The loop -/

/-- What one turn of a scan gives, together with the calls of the visitor that it makes. -/
inductive ScanTurn (σ : Type) where
  /-- The scan goes on from another point. -/
  | goesOn (calls : List (Nat × Cursor)) (next : ScanPoint σ)
  /-- The scan ends with a result and a cursor. -/
  | ends (calls : List (Nat × Cursor)) (result : Except ParseError σ) (cursor : Cursor)

/-- One turn of a scan. A call of the visitor is told by the depth and the cursor it is given. -/
def scanTurn (stops : Stops) (visit : Visitor σ) (unclosed : ParseError) (scope : Scope) :
    ScanPoint σ → ScanTurn σ
  | ⟨depth, gathered, start⟩ =>
      if start.atEnd then .ends [] (if depth = 0 then .ok gathered else .error unclosed) start
      else if start.current.kind = .leftParen then .goesOn [] ⟨depth + 1, gathered, start.advance⟩
      else if start.current.kind = .rightParen then
        if depth = 0 then .ends [] (.ok gathered) start
        else .goesOn [] ⟨depth - 1, gathered, start.advance⟩
      else if depth = 0 ∧ stops.stopAt start.current then .ends [] (.ok gathered) start
      else
        match visit depth gathered scope start with
        | ⟨.error error, cursor, _⟩ => .ends [(depth, start)] (.error error) cursor
        | ⟨.ok (taken, gatheredNow), cursor, _⟩ =>
            .goesOn [(depth, start)] ⟨depth, gatheredNow,
              if taken ∧ cursor.remaining < start.remaining then cursor else cursor.advance⟩

/-- A scan that has ended: the calls of its visitor in their order, its result and its cursor. -/
structure ScanRun (σ : Type) where
  /-- The calls of the visitor. -/
  calls : List (Nat × Cursor)
  /-- What was gathered, or why the text is refused. -/
  result : Except ParseError σ
  /-- Where the scan stopped. -/
  cursor : Cursor

/-- The loop of a scan with at most that many turns; nothing, if it does not end with them. -/
def scanTurns (stops : Stops) (visit : Visitor σ) (unclosed : ParseError) (scope : Scope) :
    Nat → ScanPoint σ → Option (ScanRun σ)
  | 0, _ => none
  | count + 1, point =>
      match scanTurn stops visit unclosed scope point with
      | .ends calls result cursor => some ⟨calls, result, cursor⟩
      | .goesOn calls next =>
          (scanTurns stops visit unclosed scope count next).map fun run =>
            { run with calls := calls ++ run.calls }

section Turns

variable {stops : Stops} {visit : Visitor σ} {unclosed : ParseError} {scope : Scope} {count : Nat}
  {point next : ScanPoint σ} {calls later : List (Nat × Cursor)} {result : Except ParseError σ}
  {cursor : Cursor}

theorem scanTurns_of_ends
    (turn : scanTurn stops visit unclosed scope point = .ends calls result cursor) :
    scanTurns stops visit unclosed scope (count + 1) point = some ⟨calls, result, cursor⟩ := by
  rw [scanTurns, turn]

theorem scanTurns_of_goesOn
    (turn : scanTurn stops visit unclosed scope point = .goesOn calls next)
    (run : scanTurns stops visit unclosed scope count next = some ⟨later, result, cursor⟩) :
    scanTurns stops visit unclosed scope (count + 1) point =
      some ⟨calls ++ later, result, cursor⟩ := by
  rw [scanTurns, turn]
  simp [run]

end Turns

/-- The loop ends once it has had a turn for each token ahead, and one more; and it gives what the
scan gives. -/
theorem exists_scanTurns_eq (stops : Stops) (visit : Visitor σ) (unclosed : ParseError)
    (scope : Scope) (depth : Nat) (gathered : σ) (start : Cursor) {count : Nat}
    (enough : start.remaining < count) :
    ∃ calls, scanTurns stops visit unclosed scope count ⟨depth, gathered, start⟩ =
      some ⟨calls, (scanFrom stops visit unclosed scope depth gathered start).result,
        (scanFrom stops visit unclosed scope depth gathered start).cursor⟩ := by
  obtain ⟨count, rfl⟩ := Nat.exists_eq_add_one_of_ne_zero (Nat.ne_zero_of_lt enough)
  fun_induction scanFrom stops visit unclosed scope depth gathered start generalizing count with
  | case1 depth gathered start inside positive moved opens ih =>
      obtain ⟨count, rfl⟩ := Nat.exists_eq_add_one_of_ne_zero (show count ≠ 0 by omega)
      obtain ⟨calls, run⟩ := ih count (by omega)
      exact ⟨[] ++ calls, scanTurns_of_goesOn (by simp [scanTurn, inside, opens]) run⟩
  | case2 gathered start inside positive moved notOpen closes =>
      exact ⟨[], scanTurns_of_ends (by simp [scanTurn, inside, closes])⟩
  | case3 depth gathered start inside positive moved notOpen closes nonzero ih =>
      obtain ⟨count, rfl⟩ := Nat.exists_eq_add_one_of_ne_zero (show count ≠ 0 by omega)
      obtain ⟨calls, run⟩ := ih count (by omega)
      exact ⟨[] ++ calls, scanTurns_of_goesOn (by simp [scanTurn, inside, closes, nonzero]) run⟩
  | case4 depth gathered start inside positive moved notOpen notClosed stop =>
      exact ⟨[], scanTurns_of_ends (by simp [scanTurn, inside, notOpen, notClosed, stop])⟩
  | case5 depth gathered start inside positive moved notOpen notClosed noStop error cursor reaches
      outcome =>
      exact ⟨[(depth, start)], scanTurns_of_ends
        (by simp [scanTurn, inside, notOpen, notClosed, noStop, outcome])⟩
  | case6 depth gathered start inside positive moved notOpen notClosed noStop taken gatheredNow
      cursor reaches outcome further progress ih =>
      obtain ⟨count, rfl⟩ := Nat.exists_eq_add_one_of_ne_zero (show count ≠ 0 by omega)
      obtain ⟨calls, run⟩ := ih count (by omega)
      exact ⟨[(depth, start)] ++ calls, scanTurns_of_goesOn
        (by simp [scanTurn, inside, notOpen, notClosed, noStop, outcome, progress]) run⟩
  | case7 depth gathered start inside positive moved notOpen notClosed noStop taken gatheredNow
      cursor reaches outcome further standstill movedOn ih =>
      obtain ⟨count, rfl⟩ := Nat.exists_eq_add_one_of_ne_zero (show count ≠ 0 by omega)
      obtain ⟨calls, run⟩ := ih count (by omega)
      exact ⟨[(depth, start)] ++ calls, scanTurns_of_goesOn
        (by simp [scanTurn, inside, notOpen, notClosed, noStop, outcome, standstill]) run⟩
  | case8 gathered start outside => exact ⟨[], scanTurns_of_ends (by simp [scanTurn, outside])⟩
  | case9 depth gathered start outside nonzero =>
      exact ⟨[], scanTurns_of_ends (by simp [scanTurn, outside, nonzero])⟩

/-! ## Visitors that only watch -/

/-- The visitor never moves the cursor and never refuses the text, whatever it says about the token;
what it gathers is told by the update. -/
def Watches (visit : Visitor σ) (scope : Scope) (update : Nat → σ → Cursor → σ) : Prop :=
  ∀ depth gathered start, ∃ taken,
    (visit depth gathered).Finds scope start (taken, update depth gathered start) start

/-- What a visitor that only watches gathers over the tokens before the distance. -/
def gatheredOver (update : Nat → σ → Cursor → σ) (initial : σ) (start : Cursor) (length : Nat) :
    σ :=
  (start.shown length).foldl (fun gathered (depth, cursor) => update depth gathered cursor) initial

section Watching

variable {visit : Visitor σ} {scope : Scope} {words : List String} {update : Nat → σ → Cursor → σ}
  {start : Cursor} {depth index last : Nat} (unclosed : ParseError)

/-- Before the token that ends the scan, a turn moves past one token and shows it to the visitor,
unless it is a parenthesis. The depth stays that of the current token. -/
theorem exists_scanTurn_eq_goesOn (initial : σ) (watches : Watches visit scope update)
    (goes : ¬ start.EndsScan scope.stops words index) (same : (depth : Int) = start.depthAt index) :
    ∃ calls depthLater,
      scanTurn (scope.stops.adding words) visit unclosed scope
          ⟨depth, gatheredOver update initial start index, start.skip index⟩ =
        .goesOn calls
          ⟨depthLater, gatheredOver update initial start (index + 1), start.skip (index + 1)⟩ ∧
      (depthLater : Int) = start.depthAt (index + 1) ∧
      start.shown (index + 1) = start.shown index ++ calls := by
  simp only [Cursor.EndsScan, ← Stops.stopAt_adding, not_or, not_and] at goes
  obtain ⟨inside, goes⟩ := goes
  have inside : (start.skip index).atEnd = false := by simpa [Cursor.atEnd] using inside
  by_cases opens : (start.skip index).current.kind = .leftParen
  · have isMark : (start.skip index).current.isParenthesis = true := by
      simp [Token.isParenthesis, opens]
    refine ⟨[], depth + 1, ?_, ?_, ?_⟩
    · simp [scanTurn, inside, opens, gatheredOver, Cursor.shown_succ_of_parenthesis isMark,
        Cursor.advance_skip]
    · rw [Cursor.depthAt_succ, Token.balance_opening opens]
      omega
    · simp [Cursor.shown_succ_of_parenthesis isMark]
  by_cases closes : (start.skip index).current.kind = .rightParen
  · have isMark : (start.skip index).current.isParenthesis = true := by
      simp [Token.isParenthesis, closes]
    have nonzero : depth ≠ 0 := by
      rintro rfl
      exact (goes same.symm).1 closes
    refine ⟨[], depth - 1, ?_, ?_, ?_⟩
    · simp [scanTurn, inside, closes, nonzero, gatheredOver,
        Cursor.shown_succ_of_parenthesis isMark, Cursor.advance_skip]
    · rw [Cursor.depthAt_succ, Token.balance_closing closes]
      omega
    · simp [Cursor.shown_succ_of_parenthesis isMark]
  · have noMark : (start.skip index).current.isParenthesis = false := by
      simp [Token.isParenthesis, opens, closes]
    have noStop : ¬ (depth = 0 ∧
        (scope.stops.adding words).stopAt (start.skip index).current = true) := by
      rintro ⟨rfl, stop⟩
      exact (goes same.symm).2 opens stop
    have depthEq : (start.depthAt index).toNat = depth := by omega
    obtain ⟨taken, found⟩ :=
      watches depth (gatheredOver update initial start index) (start.skip index)
    refine ⟨[(depth, start.skip index)], depth, ?_, ?_, ?_⟩
    · have gathers : gatheredOver update initial start (index + 1) =
          update depth (gatheredOver update initial start index) (start.skip index) := by
        simp [gatheredOver, Cursor.shown_succ noMark, depthEq]
      simp only [scanTurn, inside, opens, closes, noStop, found.outcome_eq]
      simp [gathers, Cursor.advance_skip]
    · rw [Cursor.depthAt_succ, Token.balance_other opens closes]
      omega
    · rw [Cursor.shown_succ noMark, depthEq]

/-- At the token that ends the scan, the scan ends: with what was gathered, or with an error if
there is a parenthesis that is not closed. -/
theorem scanTurn_eq_ends (gathered : σ) (ends : start.EndsScan scope.stops words index)
    (same : (depth : Int) = start.depthAt index) :
    scanTurn (scope.stops.adding words) visit unclosed scope ⟨depth, gathered, start.skip index⟩ =
      .ends [] (if 0 < start.depthAt index then .error unclosed else .ok gathered)
        (start.skip index) := by
  by_cases atEnd : (start.skip index).atEnd = true
  · have zero : 0 < start.depthAt index ↔ ¬ depth = 0 := by omega
    simp [scanTurn, atEnd, zero, ite_not]
  · simp only [Cursor.EndsScan, ← Stops.stopAt_adding] at ends
    obtain ⟨zero, closes | ⟨notOpen, stop⟩⟩ := ends.resolve_left atEnd
    · obtain rfl : depth = 0 := by omega
      simp [scanTurn, atEnd, closes, zero]
    · obtain rfl : depth = 0 := by omega
      by_cases closes : (start.skip index).current.kind = .rightParen
      · simp [scanTurn, atEnd, closes, zero]
      · simp [scanTurn, atEnd, closes, notOpen, stop, zero]

/-- From the token at a distance on, the scan makes the calls that are left and ends at the first
token that ends it. -/
theorem exists_scanTurns_of_watches (initial : σ) (watches : Watches visit scope update)
    (least : IsLeast {index | start.EndsScan scope.stops words index} last) {count : Nat}
    (before : index ≤ last) (enough : last - index < count)
    (same : (depth : Int) = start.depthAt index) :
    ∃ calls,
      scanTurns (scope.stops.adding words) visit unclosed scope count
          ⟨depth, gatheredOver update initial start index, start.skip index⟩ =
        some ⟨calls,
          if 0 < start.depthAt last then .error unclosed
          else .ok (gatheredOver update initial start last),
          start.skip last⟩ ∧
      start.shown last = start.shown index ++ calls := by
  induction count generalizing index depth with
  | zero => omega
  | succ count ih =>
      by_cases done : index = last
      · subst done
        exact ⟨[], scanTurns_of_ends (scanTurn_eq_ends unclosed _ least.1 same), by simp⟩
      · have goes : ¬ start.EndsScan scope.stops words index := by
          intro ends
          have := least.2 ends
          omega
        obtain ⟨calls, depthLater, turn, sameLater, shown⟩ :=
          exists_scanTurn_eq_goesOn unclosed initial watches goes same
        obtain ⟨later, run, rest⟩ := ih (by omega) (by omega) sameLater
        refine ⟨calls ++ later, scanTurns_of_goesOn turn run, ?_⟩
        rw [rest, shown, List.append_assoc]

end Watching

/-- A scan ends after at most one turn for each token ahead, and one more, whatever its visitor
does. If the visitor only watches, the scan stops at the first token that is an end of input, or a
closing parenthesis or a stop word outside all parentheses. By then it has shown every token that is
no parenthesis to the visitor, once, in order and with its depth. It is refused exactly if it stops
inside a parenthesis, which is only so at an end of input. -/
theorem scan_stops_at_first_end (words : List String) (initial : σ) (visit : Visitor σ)
    (scope : Scope) (start : Cursor) :
    ∃ run, scanTurns (scope.stops.adding words) visit start.unclosed scope (start.remaining + 1)
        ⟨0, initial, start⟩ = some run ∧
      run.result = (scan words initial visit scope start).result ∧
      run.cursor = (scan words initial visit scope start).cursor ∧
      ∀ update, Watches visit scope update →
        ∃ index, IsLeast {index | start.EndsScan scope.stops words index} index ∧
          (∀ earlier ≤ index, 0 ≤ start.depthAt earlier) ∧
          (0 < start.depthAt index → (start.skip index).atEnd = true) ∧
          run.calls = start.shown index ∧
          run.cursor = start.skip index ∧
          run.result =
            if 0 < start.depthAt index then .error start.unclosed
            else .ok (gatheredOver update initial start index) := by
  obtain ⟨calls, loop⟩ := exists_scanTurns_eq (scope.stops.adding words) visit start.unclosed scope
    0 initial start (Nat.lt_succ_self _)
  refine ⟨_, loop, rfl, rfl, ?_⟩
  intro update watches
  obtain ⟨index, inRange, least⟩ := start.exists_isLeast_endsScan scope.stops words
  have outside : ((0 : Nat) : Int) = start.depthAt 0 := rfl
  have enough : index - 0 < start.remaining + 1 := by omega
  obtain ⟨found, run, shown⟩ :=
    exists_scanTurns_of_watches start.unclosed initial watches least (Nat.zero_le _) enough outside
  have same := loop.symm.trans run
  simp only [Option.some.injEq, ScanRun.mk.injEq] at same
  obtain ⟨sameCalls, result, cursor⟩ := same
  refine ⟨index, least, fun earlier => Cursor.depthAt_nonneg_of_isLeast least, ?_, ?_, cursor,
    result⟩
  · intro inside
    exact least.1.resolve_right fun outside => by omega
  · rw [shown, sameCalls]
    rfl

/-- The scan of `a (b, c), d` up to a comma stops at the second comma, also if its visitor claims to
have read every token itself. -/
theorem scan_stops_at_comma :
    let start : Cursor := .ofTokens [.bare .word "a", .bare .leftParen "(", .bare .word "b",
      .bare .comma ",", .bare .word "c", .bare .rightParen ")", .bare .comma ",", .bare .word "d"]
    let scope : Scope := ⟨.standard, .none⟩
    let log : Visitor (List String) := fun _ texts => do return (true, texts ++ [(← current).text])
    ∃ run, scanTurns (scope.stops.adding [","]) log start.unclosed scope 9 ⟨0, [], start⟩ =
        some run ∧
      run.cursor = start.skip 6 ∧
      run.calls.map (fun (depth, cursor) => (depth, cursor.current.text)) =
        [(0, "a"), (1, "b"), (1, ","), (1, "c")] ∧
      run.result = .ok ["a", "b", ",", "c"] := by
  intro start scope log
  obtain ⟨run, loop, -, -, watching⟩ := scan_stops_at_first_end [","] [] log scope start
  have watches : Watches log scope fun _ texts cursor => texts ++ [cursor.current.text] :=
    fun _ _ _ => ⟨true, rfl, rfl⟩
  obtain ⟨index, least, -, -, calls, cursor, result⟩ := watching _ watches
  have ends : IsLeast {index | start.EndsScan scope.stops [","] index} 6 := by
    refine ⟨?_, fun index ends => ?_⟩
    · show start.EndsScan scope.stops [","] 6
      decide +kernel
    · by_contra before
      have none : ∀ index < 6, ¬ start.EndsScan scope.stops [","] index := by decide +kernel
      exact none index (by omega) ends
  obtain rfl : index = 6 := least.unique ends
  refine ⟨run, loop, cursor, ?_, ?_⟩
  · rw [calls]
    decide +kernel
  · rw [result]
    decide +kernel

end Grammar

end TableDdl
