import TableDdl.Proofs.Grammar.Finds

/-!
# Runs of repetitions and scans

A repetition and a scan go through a statement turn by turn. Their successful runs are described by
relations with one rule for each kind of turn, and the relations hold exactly of what the
repetition and the scan find. Every property of a run is then an induction over its turns.
-/

namespace TableDdl

namespace Grammar

variable {α σ : Type} {scope : Scope}

/-! ## Repetition -/

/-- A successful run of a repetition. -/
inductive Repeats (item? : Grammar (Option α)) (scope : Scope) :
    Cursor → List α → Cursor → Prop where
  /-- Nothing more is found. -/
  | done {start final : Cursor} (none : item?.Finds scope start none final) :
      Repeats item? scope start [] final
  /-- Something is found, and reading goes on. -/
  | more {start middle final : Cursor} {value : α} {others : List α}
      (found : item?.Finds scope start (some value) middle)
      (progress : middle.remaining < start.remaining)
      (after : Repeats item? scope middle others final) :
      Repeats item? scope start (value :: others) final
  /-- Something is found without moving, so that reading ends. -/
  | stuck {start final : Cursor} {value : α}
      (found : item?.Finds scope start (some value) final)
      (standstill : ¬ final.remaining < start.remaining) :
      Repeats item? scope start [value] final

theorem repeats_of_finds_many {item? : Grammar (Option α)} {start final : Cursor}
    {values : List α} (found : Finds (many item?) scope start values final) :
    Repeats item? scope start values final := by
  induction count : start.remaining using Nat.strongRecOn generalizing start values with
  | ind count ih =>
      simp only [Finds] at found
      rw [many] at found
      split at found
      · simp at found
      · rename_i cursor reaches outcome
        obtain ⟨rfl, rfl⟩ : values = [] ∧ cursor = final := by simpa [eq_comm] using found
        exact .done (.of_outcome_eq outcome)
      · rename_i value cursor reaches outcome
        have item : item?.Finds scope start (some value) cursor :=
          .of_outcome_eq outcome
        split at found
        · rename_i progress
          simp only [Outcome.since, Outcome.mapResult] at found
          cases later : (many item? scope cursor).result with
          | error error => simp [later, Except.map] at found
          | ok others =>
              obtain ⟨rfl, ended⟩ : value :: others = values ∧
                  (many item? scope cursor).cursor = final := by
                simpa [later, Except.map] using found
              exact .more item progress (ih _ (count ▸ progress) ⟨later, ended⟩ rfl)
        · rename_i standstill
          obtain ⟨rfl, rfl⟩ : values = [value] ∧ cursor = final := by simpa [eq_comm] using found
          exact .stuck item standstill

theorem finds_many_of_repeats {item? : Grammar (Option α)} {start final : Cursor}
    {values : List α} (run : Repeats item? scope start values final) :
    Finds (many item?) scope start values final := by
  induction run with
  | done none =>
      unfold Finds
      rw [many, none.outcome_eq]
      exact ⟨rfl, rfl⟩
  | more found progress after ih =>
      unfold Finds
      rw [many, found.outcome_eq]
      simp [progress, Outcome.since, Outcome.mapResult, ih.1, ih.2, Except.map]
  | stuck found standstill =>
      unfold Finds
      rw [many, found.outcome_eq]
      simp [standstill]

/-- The values of a repetition are those of its successful run. -/
theorem finds_many_iff {item? : Grammar (Option α)} {start final : Cursor} {values : List α} :
    Finds (many item?) scope start values final ↔ Repeats item? scope start values final :=
  ⟨repeats_of_finds_many, finds_many_of_repeats⟩

/-- A run that finds nothing at first ends there. -/
theorem Repeats.of_none {item? : Grammar (Option α)} {start final last : Cursor} {values : List α}
    (run : Repeats item? scope start values final) (none : item?.Finds scope start none last) :
    values = [] ∧ final = last := by
  cases run with
  | done first => exact ⟨rfl, (first.functional none).2⟩
  | more first => exact absurd (first.functional none).1 nofun
  | stuck first => exact absurd (first.functional none).1 nofun

/-- A list in parentheses is an opening parenthesis, a first item, further items after commas, and
a closing parenthesis. -/
theorem finds_parenthesized_iff {opening closing : Fault} {item : Grammar α}
    {start final : Cursor} {values : List α} :
    (parenthesized opening closing item).Finds scope start values final ↔
      start.current.spells "(" ∧ ∃ middle,
        (commaSeparated item).Finds scope start.advance values middle ∧
          middle.current.spells ")" ∧ middle.advance = final := by
  rw [parenthesized, finds_expect_bind_iff, finds_bind_iff]
  simp only [finds_expect_bind_iff, finds_pure_iff]
  constructor
  · rintro ⟨opened, items, middle, reading, closed, rfl, rfl⟩
    exact ⟨opened, middle, reading, closed, rfl⟩
  · rintro ⟨opened, middle, reading, closed, rfl⟩
    exact ⟨opened, values, middle, reading, closed, rfl, rfl⟩

/-! ## Turns of a scan -/

/-- A token that a scan shows to its visitor. -/
structure Shown (stops : Stops) (depth : Nat) (token : Token) : Prop where
  /-- It is no end of input. -/
  notEnd : token.isEnd = false
  /-- It opens no parenthesis. -/
  notOpen : token.kind ≠ .leftParen
  /-- It closes no parenthesis. -/
  notClosed : token.kind ≠ .rightParen
  /-- It is no stop word outside all parentheses. -/
  noStop : depth = 0 → stops.stopAt token = false

/-- A scan ends at the cursor, if it lies at depth zero: at an end of input, a closing parenthesis
or a stop word. -/
def Halts (stops : Stops) (cursor : Cursor) : Prop :=
  cursor.atEnd = true ∨ cursor.current.kind = .rightParen ∨
    cursor.atEnd = false ∧ cursor.current.kind ≠ .leftParen ∧ stops.stopAt cursor.current = true

/-- A point on the way of a scan. -/
structure ScanPoint (σ : Type) where
  /-- The depth. -/
  depth : Nat
  /-- What was gathered so far. -/
  gathered : σ
  /-- The cursor. -/
  cursor : Cursor

/-- The scan comes from the first point to the second one, so that it gives the same from both. -/
def Leads (stops : Stops) (visit : Visitor σ) (scope : Scope) (here there : ScanPoint σ) : Prop :=
  ∀ unclosed,
    (scanFrom stops visit unclosed scope here.depth here.gathered here.cursor).result =
        (scanFrom stops visit unclosed scope there.depth there.gathered there.cursor).result ∧
      (scanFrom stops visit unclosed scope here.depth here.gathered here.cursor).cursor =
        (scanFrom stops visit unclosed scope there.depth there.gathered there.cursor).cursor

variable {stops : Stops} {visit : Visitor σ} {unclosed : ParseError} {depth : Nat}
  {gathered gatheredNow result : σ} {start middle final : Cursor}

theorem Leads.refl (point : ScanPoint σ) : Leads stops visit scope point point :=
  fun _ => ⟨rfl, rfl⟩

theorem Leads.trans {first second third : ScanPoint σ} (here : Leads stops visit scope first second)
    (there : Leads stops visit scope second third) : Leads stops visit scope first third :=
  fun unclosed => ⟨(here unclosed).1.trans (there unclosed).1,
    (here unclosed).2.trans (there unclosed).2⟩

theorem leads_opened (opens : start.current.kind = .leftParen) :
    Leads stops visit scope ⟨depth, gathered, start⟩ ⟨depth + 1, gathered, start.advance⟩ := by
  intro unclosed
  have inside : start.atEnd = false := by simp [Cursor.atEnd, Token.isEnd, opens]
  rw [scanFrom]
  simp [inside, opens, Outcome.since]

theorem leads_closed (closes : start.current.kind = .rightParen) :
    Leads stops visit scope ⟨depth + 1, gathered, start⟩ ⟨depth, gathered, start.advance⟩ := by
  intro unclosed
  have inside : start.atEnd = false := by simp [Cursor.atEnd, Token.isEnd, closes]
  rw [scanFrom]
  simp [inside, closes, Outcome.since]

theorem leads_taken (shown : Shown stops depth start.current)
    (found : (visit depth gathered).Finds scope start (true, gatheredNow) middle)
    (progress : middle.remaining < start.remaining) :
    Leads stops visit scope ⟨depth, gathered, start⟩ ⟨depth, gatheredNow, middle⟩ := by
  intro unclosed
  have inside : start.atEnd = false := shown.notEnd
  have noStop : ¬ (depth = 0 ∧ stops.stopAt start.current = true) := by simpa using shown.noStop
  rw [scanFrom]
  simp only [inside, reduceDIte, shown.notOpen, shown.notClosed, noStop, if_false]
  simp [found.outcome_eq, progress, Outcome.since]

theorem leads_passed {taken : Bool} (shown : Shown stops depth start.current)
    (found : (visit depth gathered).Finds scope start (taken, gatheredNow) middle)
    (untaken : taken = true → ¬ middle.remaining < start.remaining) :
    Leads stops visit scope ⟨depth, gathered, start⟩ ⟨depth, gatheredNow, middle.advance⟩ := by
  intro unclosed
  have inside : start.atEnd = false := shown.notEnd
  have noStop : ¬ (depth = 0 ∧ stops.stopAt start.current = true) := by simpa using shown.noStop
  rw [scanFrom]
  simp only [inside, reduceDIte, shown.notOpen, shown.notClosed, noStop, if_false]
  simp only [found.outcome_eq]
  rw [if_neg (by simpa using untaken)]
  exact ⟨rfl, rfl⟩

/-- Where the visitor refuses the text, so does the scan. -/
theorem scanFrom_of_refusal {error : ParseError} (shown : Shown stops depth start.current)
    (refused : (visit depth gathered scope start).result = .error error) :
    (scanFrom stops visit unclosed scope depth gathered start).result = .error error ∧
      (scanFrom stops visit unclosed scope depth gathered start).cursor =
        (visit depth gathered scope start).cursor := by
  have inside : start.atEnd = false := shown.notEnd
  have noStop : ¬ (depth = 0 ∧ stops.stopAt start.current = true) := by simpa using shown.noStop
  cases outcome : visit depth gathered scope start with
  | mk result cursor reaches =>
      obtain rfl : result = .error error := by rw [← refused, outcome]
      rw [scanFrom]
      simp only [inside, reduceDIte, shown.notOpen, shown.notClosed, noStop, if_false, outcome,
        and_self]

/-- Where the scan ends, it gives what was gathered. -/
theorem scanFrom_of_halts (halts : Halts stops start) :
    (scanFrom stops visit unclosed scope 0 gathered start).result = .ok gathered ∧
      (scanFrom stops visit unclosed scope 0 gathered start).cursor = start := by
  rw [scanFrom]
  obtain ended | closes | ⟨inside, notOpen, stop⟩ := halts
  · simp [ended]
  · have inside : start.atEnd = false := by simp [Cursor.atEnd, Token.isEnd, closes]
    simp [inside, closes]
  · simp [inside, notOpen, stop]

/-- At the end of input inside parentheses, it refuses the text. -/
theorem scanFrom_of_unclosed (ended : start.atEnd = true) (inside : depth ≠ 0) :
    (scanFrom stops visit unclosed scope depth gathered start).result = .error unclosed ∧
      (scanFrom stops visit unclosed scope depth gathered start).cursor = start := by
  rw [scanFrom]
  simp [ended, inside]

/-! ## Scans -/

/-- A successful run of a scan from a depth and a cursor. -/
inductive Scans (stops : Stops) (visit : Visitor σ) (scope : Scope) :
    Nat → σ → Cursor → σ → Cursor → Prop where
  /-- The end of input is reached outside all parentheses. -/
  | ended {gathered : σ} {start : Cursor} (ended : start.atEnd = true) :
      Scans stops visit scope 0 gathered start gathered start
  /-- A parenthesis opens. -/
  | opened {depth : Nat} {gathered result : σ} {start final : Cursor}
      (opens : start.current.kind = .leftParen)
      (after : Scans stops visit scope (depth + 1) gathered start.advance result final) :
      Scans stops visit scope depth gathered start result final
  /-- A parenthesis of the scan closes. -/
  | closed {depth : Nat} {gathered result : σ} {start final : Cursor}
      (closes : start.current.kind = .rightParen)
      (after : Scans stops visit scope depth gathered start.advance result final) :
      Scans stops visit scope (depth + 1) gathered start result final
  /-- A parenthesis closes what surrounds the scan. -/
  | surrounded {gathered : σ} {start : Cursor} (closes : start.current.kind = .rightParen) :
      Scans stops visit scope 0 gathered start gathered start
  /-- A stop word is reached outside all parentheses. -/
  | stopped {gathered : σ} {start : Cursor} (inside : start.atEnd = false)
      (notOpen : start.current.kind ≠ .leftParen) (stop : stops.stopAt start.current = true) :
      Scans stops visit scope 0 gathered start gathered start
  /-- The visitor reads something. -/
  | taken {depth : Nat} {gathered gatheredNow result : σ} {start middle final : Cursor}
      (inside : start.atEnd = false) (notOpen : start.current.kind ≠ .leftParen)
      (notClosed : start.current.kind ≠ .rightParen)
      (noStop : depth = 0 → stops.stopAt start.current = false)
      (found : (visit depth gathered).Finds scope start (true, gatheredNow) middle)
      (progress : middle.remaining < start.remaining)
      (after : Scans stops visit scope depth gatheredNow middle result final) :
      Scans stops visit scope depth gathered start result final
  /-- The scan moves past a token after the visitor has seen it. -/
  | passed {depth : Nat} {gathered gatheredNow result : σ} {taken : Bool}
      {start middle final : Cursor}
      (inside : start.atEnd = false) (notOpen : start.current.kind ≠ .leftParen)
      (notClosed : start.current.kind ≠ .rightParen)
      (noStop : depth = 0 → stops.stopAt start.current = false)
      (found : (visit depth gathered).Finds scope start (taken, gatheredNow) middle)
      (untaken : taken = true → ¬ middle.remaining < start.remaining)
      (after : Scans stops visit scope depth gatheredNow middle.advance result final) :
      Scans stops visit scope depth gathered start result final

theorem scans_of_scanFrom
    (found : (scanFrom stops visit unclosed scope depth gathered start).result = .ok result)
    (ended : (scanFrom stops visit unclosed scope depth gathered start).cursor = final) :
    Scans stops visit scope depth gathered start result final := by
  fun_induction scanFrom stops visit unclosed scope depth gathered start with
  | case1 depth gathered start inside _ _ opens ih => exact .opened opens (ih found ended)
  | case2 gathered start inside _ _ notOpen closes =>
      simp only [Except.ok.injEq] at found
      subst found ended
      exact .surrounded closes
  | case3 depth gathered start inside _ _ notOpen closes nonzero ih =>
      obtain ⟨outer, rfl⟩ := Nat.exists_eq_succ_of_ne_zero nonzero
      exact .closed closes (ih found ended)
  | case4 depth gathered start inside _ _ notOpen notClosed stop =>
      obtain ⟨rfl, stop⟩ := stop
      simp only [Except.ok.injEq] at found
      subst found ended
      exact .stopped inside notOpen stop
  | case5 depth gathered start inside _ _ notOpen notClosed noStop error cursor reaches outcome =>
      simp at found
  | case6 depth gathered start inside _ _ notOpen notClosed noStop taken gatheredNow cursor reaches
      outcome _ progress ih =>
      obtain ⟨rfl, progress⟩ := progress
      refine .taken inside notOpen notClosed ?_ (.of_outcome_eq outcome) progress (ih found ended)
      simpa using noStop
  | case7 depth gathered start inside _ _ notOpen notClosed noStop taken gatheredNow cursor reaches
      outcome _ standstill _ ih =>
      refine .passed inside notOpen notClosed ?_ (.of_outcome_eq outcome) ?_ (ih found ended)
      · simpa using noStop
      · simpa using standstill
  | case8 gathered start outside =>
      simp only [Except.ok.injEq] at found
      subst found ended
      exact .ended (by simpa using outside)
  | case9 depth gathered start outside nonzero => simp at found

/-- A run leads to the place where the scan ends. -/
theorem Scans.leads (run : Scans stops visit scope depth gathered start result final) :
    Leads stops visit scope ⟨depth, gathered, start⟩ ⟨0, result, final⟩ := by
  induction run with
  | ended | surrounded | stopped => exact .refl _
  | opened opens _ ih => exact (leads_opened opens).trans ih
  | closed closes _ ih => exact (leads_closed closes).trans ih
  | taken inside notOpen notClosed noStop found progress _ ih =>
      exact (leads_taken ⟨inside, notOpen, notClosed, noStop⟩ found progress).trans ih
  | passed inside notOpen notClosed noStop found untaken _ ih =>
      exact (leads_passed ⟨inside, notOpen, notClosed, noStop⟩ found untaken).trans ih

theorem Scans.halts (run : Scans stops visit scope depth gathered start result final) :
    Halts stops final := by
  induction run with
  | ended ended => exact .inl ended
  | surrounded closes => exact .inr (.inl closes)
  | stopped inside notOpen stop => exact .inr (.inr ⟨inside, notOpen, stop⟩)
  | opened _ _ ih => exact ih
  | closed _ _ ih => exact ih
  | taken _ _ _ _ _ _ _ ih => exact ih
  | passed _ _ _ _ _ _ _ ih => exact ih

theorem scanFrom_of_leads
    (leads : Leads stops visit scope ⟨depth, gathered, start⟩ ⟨0, result, final⟩)
    (halts : Halts stops final) :
    (scanFrom stops visit unclosed scope depth gathered start).result = .ok result ∧
      (scanFrom stops visit unclosed scope depth gathered start).cursor = final := by
  obtain ⟨same, cursor⟩ := leads unclosed
  rw [same, cursor]
  exact scanFrom_of_halts halts

/-- What leads to a place where the scan ends is a run. -/
theorem scans_of_leads
    (leads : Leads stops visit scope ⟨depth, gathered, start⟩ ⟨0, result, final⟩)
    (halts : Halts stops final) : Scans stops visit scope depth gathered start result final := by
  let unclosed : ParseError := ⟨.unclosedParenthesis, "(", none⟩
  obtain ⟨found, ended⟩ := @scanFrom_of_leads _ _ _ _ unclosed _ _ _ _ _ leads halts
  exact scans_of_scanFrom found ended

theorem scanFrom_of_scans (run : Scans stops visit scope depth gathered start result final) :
    (scanFrom stops visit unclosed scope depth gathered start).result = .ok result ∧
      (scanFrom stops visit unclosed scope depth gathered start).cursor = final :=
  scanFrom_of_leads run.leads run.halts

theorem Scans.reaches (run : Scans stops visit scope depth gathered start result final) :
    start.Reaches final := by
  let unclosed : ParseError := ⟨.unclosedParenthesis, "(", none⟩
  have ended : (scanFrom stops visit unclosed scope depth gathered start).cursor = final :=
    (scanFrom_of_scans run).2
  rw [← ended]
  exact (scanFrom stops visit unclosed scope depth gathered start).reaches

/-- What a scan gathers is what its successful run gathers. -/
theorem finds_scan_iff {words : List String} {initial : σ} :
    (scan words initial visit).Finds scope start result final ↔
      Scans (scope.stops.adding words) visit scope 0 initial start result final :=
  ⟨fun found => scans_of_scanFrom found.1 found.2, fun run => scanFrom_of_scans run⟩

/-! ## Groups -/

/-- A group is found exactly if its parenthesis is closed before the end of input. -/
theorem finds_group_iff {text : String} :
    group.Finds scope start text final ↔
      start.current.spells "(" ∧ ∃ length, closingIndex? 0 start.ahead.tail = some length ∧
        Token.renderRaw (start.ahead.tail.take length) = text ∧
          start.skip (length + 2) = final := by
  by_cases opened : start.current.spells "(" = true
  · cases closing : closingIndex? 0 start.ahead.tail with
    | none => simp [Finds, group, opened, closing]
    | some length => simp [Finds, group, opened, closing]
  · simp [Finds, group, opened, refuse]

end Grammar

end TableDdl
