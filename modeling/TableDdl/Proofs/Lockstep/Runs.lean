import TableDdl.Proofs.Extension.Runs
import TableDdl.Proofs.Lockstep.Steps

/-!
# Repetitions, scans and groups of two readings in lockstep

Two repetitions go the same way turn by turn, and so do two scans. A scan moves past every token
that its visitor sees, so that a visitor may look at the token after the current one. A group is
decided by the tokens up to its closing parenthesis.
-/

namespace TableDdl

namespace Grammar

variable {α β γ σ τ : Type} {pace : Lockstep} {scope : Scope} {view : α → γ}

/-! ## Repetitions -/

/-- Both cursors move on, or both stay. -/
theorem remaining_lt_iff {start startRight final finalRight : Cursor}
    (before : pace.Abreast start startRight) (after : pace.Abreast final finalRight) :
    final.remaining < start.remaining ↔ finalRight.remaining < startRight.remaining := by
  have := before.remaining
  have := after.remaining
  omega

/-- An outcome of which the result is changed is compared where the outcome itself is. -/
theorem Covers.of_map {start : Cursor} {outcome : Outcome α start} {change : α → β}
    (covers : Covers pace (outcome.mapResult (·.map change))) : Covers pace outcome := by
  refine covers.imp id fun ⟨⟨value, found⟩, within⟩ => ⟨?_, within⟩
  cases result : outcome.result with
  | ok value => exact ⟨value, rfl⟩
  | error error =>
      rw [Outcome.mapResult, result] at found
      cases found

theorem SameResult.map_cons {folding : Folding} {value valueRight : α}
    {others othersRight : Except ParseError (List α)} (same : view value = view valueRight)
    (rest : SameResult folding (List.map view) others othersRight) :
    SameResult folding (List.map view) (others.map (value :: ·))
      (othersRight.map (valueRight :: ·)) := by
  cases rest with
  | error alike => exact .error alike
  | ok rest => exact .ok (by simp only [List.map_cons, same, rest])

theorem matches_many {item? itemRight? : Grammar (Option α)}
    (here : Matches pace scope (Option.map view) item? itemRight?) :
    Matches pace scope (List.map view) (many item?) (many itemRight?) := by
  intro start startRight abreast
  unfold MatchesAt
  fun_induction many item? scope start generalizing startRight with
  | case1 start error cursor reaches outcome =>
      intro covers
      obtain ⟨errorRight, cursorRight, reachesRight, outcomeRight, alike, final⟩ :=
        (here start startRight abreast).of_error outcome (covers.whole_of_error rfl)
      rw [many, outcomeRight]
      exact ⟨.error alike, final⟩
  | case2 start cursor reaches outcome =>
      intro covers
      obtain ⟨found, cursorRight, reachesRight, outcomeRight, same, final⟩ :=
        (here start startRight abreast).of_ok outcome covers.within
      obtain rfl : found = none := by simpa using same.symm
      rw [many, outcomeRight]
      exact ⟨.ok rfl, final⟩
  | case3 start value cursor reaches outcome progress ih =>
      intro covers
      obtain ⟨found, cursorRight, reachesRight, outcomeRight, same, middle⟩ :=
        (here start startRight abreast).of_ok outcome
          (covers.within.of_reaches (many item? scope cursor).reaches)
      obtain ⟨valueRight, rfl, sameValue⟩ := Option.map_eq_some_iff.mp same.symm
      have progressRight := (remaining_lt_iff abreast middle).mp progress
      obtain ⟨rest, final⟩ := ih cursorRight middle (Covers.of_map covers)
      rw [many.eq_def itemRight? scope startRight, outcomeRight]
      simp only [progressRight, if_true]
      exact ⟨rest.map_cons sameValue.symm, final⟩
  | case4 start value cursor reaches outcome standstill =>
      intro covers
      obtain ⟨found, cursorRight, reachesRight, outcomeRight, same, final⟩ :=
        (here start startRight abreast).of_ok outcome covers.within
      obtain ⟨valueRight, rfl, sameValue⟩ := Option.map_eq_some_iff.mp same.symm
      have standstillRight := (not_congr (remaining_lt_iff abreast final)).mp standstill
      rw [many, outcomeRight]
      simp only [standstillRight, if_false]
      exact ⟨.ok (by simp [sameValue]), final⟩

/-- Items that are the same in both readings. -/
theorem matches_many_id {item? itemRight? : Grammar (Option α)}
    (here : Matches pace scope id item? itemRight?) :
    Matches pace scope id (many item?) (many itemRight?) := by
  rw [← Option.map_id] at here
  have runs := matches_many here
  rwa [List.map_id_fun] at runs

theorem matches_commaSeparated {item itemRight : Grammar α}
    (here : Matches pace scope view item itemRight) :
    Matches pace scope (List.map view) (commaSeparated item) (commaSeparated itemRight) := by
  have others : Matches pace scope (Option.map view)
      (do if ← consume "," then return some (← item) else return none)
      (do if ← consume "," then return some (← itemRight) else return none) := by
    refine matches_consume_ite ?_ (matches_pure rfl)
    exact matches_bind here fun value valueRight same => matches_pure (congrArg some same)
  refine matches_bind here fun first firstRight same => ?_
  refine matches_bind (matches_many others) fun rest restRight sameRest => ?_
  exact matches_pure (by simp only [List.map_cons, same, sameRest])

theorem matches_parenthesized {opening closing : Fault} {item itemRight : Grammar α}
    (here : Matches pace scope view item itemRight) :
    Matches pace scope (List.map view) (parenthesized opening closing item)
      (parenthesized opening closing itemRight) := by
  refine matches_expect_bind (matches_bind (matches_commaSeparated here) ?_)
  intro items itemsRight same
  exact matches_expect_bind (matches_pure same)

/-! ## Scans -/

/-- At tokens that a scan moves past, the visitors give alike outcomes. -/
def VisitsMatch (pace : Lockstep) (scope : Scope) (view : σ → τ) (visit visitRight : Visitor σ) :
    Prop :=
  ∀ depth gathered gatheredRight, view gathered = view gatheredRight →
    ∀ start startRight, pace.Abreast start startRight → start.current.isEnd = false →
      pace.Within start.advance →
        MatchesAt pace scope (Prod.map id view) (visit depth gathered)
          (visitRight depth gatheredRight) start startRight

variable {viewGathered : σ → τ}

theorem Shown.of_abreast {stops : Stops} {depth : Nat} {start startRight : Cursor}
    (shown : Shown stops depth start.current) (abreast : pace.Abreast start startRight) :
    Shown stops depth startRight.current :=
  ⟨abreast.current.isEnd ▸ shown.notEnd, abreast.current.kind ▸ shown.notOpen,
    abreast.current.kind ▸ shown.notClosed, abreast.current.stopAt stops ▸ shown.noStop⟩

theorem Halts.of_abreast {stops : Stops} {start startRight : Cursor} (halts : Halts stops start)
    (abreast : pace.Abreast start startRight) : Halts stops startRight := by
  rw [Halts, ← abreast.atEnd, ← abreast.current.kind, ← abreast.current.stopAt]
  exact halts

theorem matches_scanFrom {stops : Stops} {visit visitRight : Visitor σ}
    {unclosed unclosedRight : ParseError} (honest : Honest visit)
    (visits : VisitsMatch pace scope viewGathered visit visitRight)
    (unclosedAlike : unclosed.Alike pace.folding unclosedRight) {depth : Nat}
    {gathered gatheredRight : σ} (same : viewGathered gathered = viewGathered gatheredRight)
    {start startRight : Cursor} (abreast : pace.Abreast start startRight)
    (covers : Covers pace (scanFrom stops visit unclosed scope depth gathered start)) :
    SameResult pace.folding viewGathered
        (scanFrom stops visit unclosed scope depth gathered start).result
        (scanFrom stops visitRight unclosedRight scope depth gatheredRight startRight).result ∧
      pace.Abreast (scanFrom stops visit unclosed scope depth gathered start).cursor
        (scanFrom stops visitRight unclosedRight scope depth gatheredRight startRight).cursor := by
  -- Where the first scan ends, the second one does, too.
  have done {gathered gatheredRight : σ} {start startRight : Cursor} (halts : Halts stops start)
      (same : viewGathered gathered = viewGathered gatheredRight)
      (abreast : pace.Abreast start startRight) :
      SameResult pace.folding viewGathered (.ok gathered)
          (scanFrom stops visitRight unclosedRight scope 0 gatheredRight startRight).result ∧
        pace.Abreast start
          (scanFrom stops visitRight unclosedRight scope 0 gatheredRight startRight).cursor := by
    obtain ⟨result, cursor⟩ := scanFrom_of_halts (halts.of_abreast abreast)
    rw [result, cursor]
    exact ⟨.ok same, abreast⟩
  fun_induction scanFrom stops visit unclosed scope depth gathered start
    generalizing gatheredRight startRight with
  | case1 depth gathered start inside _ _ opens ih =>
      have within := Lockstep.Within.of_reaches
        (scanFrom stops visit unclosed scope (depth + 1) gathered start.advance).reaches
        covers.within
      obtain ⟨result, cursor⟩ := leads_opened (abreast.current.kind ▸ opens) unclosedRight
      rw [result, cursor]
      exact ih same (abreast.advance inside within) covers
  | case2 gathered start inside _ _ notOpen closes =>
      exact done (.inr (.inl closes)) same abreast
  | case3 depth gathered start inside _ _ notOpen closes nonzero ih =>
      obtain ⟨outer, rfl⟩ := Nat.exists_eq_succ_of_ne_zero nonzero
      have within := Lockstep.Within.of_reaches
        (scanFrom stops visit unclosed scope outer gathered start.advance).reaches covers.within
      obtain ⟨result, cursor⟩ := leads_closed (abreast.current.kind ▸ closes) unclosedRight
      rw [result, cursor]
      exact ih same (abreast.advance inside within) covers
  | case4 depth gathered start inside _ _ notOpen notClosed stop =>
      obtain ⟨rfl, stop⟩ := stop
      exact done (.inr (.inr ⟨inside, notOpen, stop⟩)) same abreast
  | case5 depth gathered start inside _ _ notOpen notClosed noStop error cursor reaches outcome =>
      have shown : Shown stops depth start.current :=
        ⟨inside, notOpen, notClosed, by simpa using noStop⟩
      have whole := covers.whole_of_error rfl
      obtain ⟨errorRight, cursorRight, reachesRight, outcomeRight, alike, final⟩ :=
        (visits depth gathered gatheredRight same start startRight abreast inside
          (whole.within _)).of_error outcome whole
      obtain ⟨result, cursor⟩ :=
        scanFrom_of_refusal (shown.of_abreast abreast) (congrArg Outcome.result outcomeRight)
      rw [result, cursor, outcomeRight]
      exact ⟨.error alike, final⟩
  | case6 depth gathered start inside _ _ notOpen notClosed noStop taken gatheredNow cursor reaches
      outcome _ progress ih =>
      have shown : Shown stops depth start.current :=
        ⟨inside, notOpen, notClosed, by simpa using noStop⟩
      obtain ⟨rfl, progress⟩ := progress
      have within : pace.Within cursor := Lockstep.Within.of_reaches
        (scanFrom stops visit unclosed scope depth gatheredNow cursor).reaches covers.within
      have withinNext := within.of_reaches (reaches.advance_of_lt progress)
      obtain ⟨⟨taken, gatheredNowRight⟩, cursorRight, reachesRight, outcomeRight, sameNow, middle⟩ :=
        (visits depth gathered gatheredRight same start startRight abreast inside
          withinNext).of_ok outcome within
      obtain ⟨rfl, sameGathered⟩ := Prod.mk.inj sameNow
      obtain ⟨result, cursor⟩ := leads_taken (shown.of_abreast abreast)
        (.of_outcome_eq outcomeRight) ((remaining_lt_iff abreast middle).mp progress) unclosedRight
      rw [result, cursor]
      exact ih sameGathered middle covers
  | case7 depth gathered start inside _ _ notOpen notClosed noStop taken gatheredNow cursor reaches
      outcome _ standstill _ ih =>
      have shown : Shown stops depth start.current :=
        ⟨inside, notOpen, notClosed, by simpa using noStop⟩
      have untaken : taken = true → ¬ cursor.remaining < start.remaining := by
        simpa using standstill
      -- The visitor has not moved, so that there is a token to move past on both sequences.
      obtain rfl : cursor = start := honest.eq_of_untaken (.of_outcome_eq outcome) untaken
      have withinNext : pace.Within cursor.advance := Lockstep.Within.of_reaches
        (scanFrom stops visit unclosed scope depth gatheredNow cursor.advance).reaches covers.within
      obtain ⟨⟨taken, gatheredNowRight⟩, cursorRight, reachesRight, outcomeRight, sameNow, middle⟩ :=
        (visits depth gathered gatheredRight same cursor startRight abreast inside
          withinNext).of_ok outcome (withinNext.of_reaches (.advance cursor))
      obtain ⟨rfl, sameGathered⟩ := Prod.mk.inj sameNow
      obtain ⟨result, cursor⟩ := leads_passed (shown.of_abreast abreast)
        (.of_outcome_eq outcomeRight)
        (fun isTaken => mt (remaining_lt_iff abreast middle).mpr (untaken isTaken)) unclosedRight
      rw [result, cursor]
      exact ih sameGathered (middle.advance inside withinNext) covers
  | case8 gathered start outside =>
      exact done (.inl (by simpa using outside)) same abreast
  | case9 depth gathered start outside nonzero =>
      have ended : startRight.atEnd = true := abreast.atEnd ▸ by simpa using outside
      obtain ⟨result, cursor⟩ := scanFrom_of_unclosed ended nonzero
      rw [result, cursor]
      exact ⟨.error unclosedAlike, abreast⟩

theorem matches_scan {words : List String} {initial initialRight : σ}
    {visit visitRight : Visitor σ} (honest : Honest visit)
    (visits : VisitsMatch pace scope viewGathered visit visitRight)
    (same : viewGathered initial = viewGathered initialRight) :
    Matches pace scope viewGathered (scan words initial visit)
      (scan words initialRight visitRight) := by
  intro start startRight abreast covers
  unfold scan at covers ⊢
  refine matches_scanFrom honest visits ?_ same abreast covers
  exact ⟨rfl, rfl⟩

theorem matches_skipTo (words : List String) :
    Matches pace scope id (skipTo words) (skipTo words) := by
  refine matches_scan ?_ (fun _ _ _ _ _ _ abreast _ _ => matchesAt_pure abreast rfl) rfl
  intro depth gathered scope start gatheredNow final found
  exact (finds_pure_iff.mp found).2.symm

/-- The visitors that read only outside all parentheses match if what they read there does. -/
theorem visitsMatch_outside {read readRight : σ → Grammar (Bool × σ)}
    (here : ∀ gathered gatheredRight, viewGathered gathered = viewGathered gatheredRight →
      ∀ start startRight, pace.Abreast start startRight → start.current.isEnd = false →
        pace.Within start.advance →
          MatchesAt pace scope (Prod.map id viewGathered) (read gathered) (readRight gatheredRight)
            start startRight) :
    VisitsMatch pace scope viewGathered
      (fun depth gathered => if depth = 0 then read gathered else pure (false, gathered))
      (fun depth gathered => if depth = 0 then readRight gathered else pure (false, gathered)) := by
  intro depth gathered gatheredRight same start startRight abreast inside within
  dsimp only
  split
  · exact here gathered gatheredRight same start startRight abreast inside within
  · exact matchesAt_pure abreast (by simp only [Prod.map, same])

/-- The text of what is read. -/
theorem matches_consumed {left right : Grammar α} (here : Matches pace scope view left right) :
    Matches pace scope (fun tokens => pace.folding.fold (Token.renderRaw tokens)) left.consumed
      right.consumed := by
  intro start startRight abreast covers
  have coversInner : Covers pace (left scope start) := Covers.of_map covers
  have within : pace.Within (left scope start).cursor := coversInner.within
  have reaches := (left scope start).reaches.remaining_le
  obtain ⟨same, final⟩ := here start startRight abreast coversInner
  have remaining := abreast.remaining
  have remainingFinal := final.remaining
  have skipped : ∀ count, (start.skip count).remaining = start.remaining - count := fun count => by
    simp [Cursor.remaining, Cursor.skip]
  obtain ⟨alike, -⟩ := @Lockstep.Abreast.skip pace start startRight abreast
    (start.remaining - (left scope start).cursor.remaining) (by omega) (by
      rw [Lockstep.Within] at within ⊢
      rw [skipped]
      omega)
  have between : startRight.between (right scope startRight).cursor =
      startRight.ahead.take (start.remaining - (left scope start).cursor.remaining) := by
    rw [Cursor.between]
    congr 1
    omega
  refine ⟨?_, final⟩
  simp only [consumed, Outcome.mapResult, between]
  rw [Cursor.between]
  generalize (left scope start).result = result at same ⊢
  generalize (right scope startRight).result = resultRight at same ⊢
  cases same with
  | ok same => exact .ok (Token.fold_renderRaw alike)
  | error alike => exact .error alike

/-! ## Groups -/

theorem closingIndex?_alike {folding : Folding} {depth : Nat} {left right : List Token}
    (alike : List.Forall₂ (Token.Alike folding) left right) :
    closingIndex? depth left = closingIndex? depth right := by
  induction alike generalizing depth with
  | nil => rfl
  | cons first others ih => simp only [closingIndex?, first.kind, ih]

theorem length_takeWhile_not_isEnd {folding : Folding} {left right : List Token}
    (alike : List.Forall₂ (Token.Alike folding) left right) :
    (left.takeWhile fun token => !token.isEnd).length =
      (right.takeWhile fun token => !token.isEnd).length := by
  induction alike with
  | nil => rfl
  | cons first others ih =>
      simp only [List.takeWhile_cons, first.isEnd]
      split
      · simp only [List.length_cons, ih]
      · rfl

theorem matches_group : Matches pace scope pace.folding.fold group group := by
  intro start startRight abreast covers
  have opened := congrFun abreast.current.spells "("
  unfold group at covers ⊢
  rw [← opened]
  by_cases opens : start.current.spells "(" = true
  · simp only [opens, if_true] at covers ⊢
    have more := @Cursor.remaining_pos_of_not_atEnd start (isEnd_of_spells opens)
    cases closing : closingIndex? 0 start.ahead.tail with
    | some length =>
        simp only [closing] at covers ⊢
        have bound := closingIndex?_lt closing
        rw [List.length_tail] at bound
        obtain ⟨alike, final⟩ := abreast.skip
          (show length + 2 ≤ start.remaining by rw [Cursor.remaining]; omega) covers.within
        have inner : List.Forall₂ (Token.Alike pace.folding)
            (start.ahead.tail.take (length + 1)) (startRight.ahead.tail.take (length + 1)) := by
          simpa [List.drop_take] using List.forall₂_drop 1 alike
        -- The closing parenthesis lies among the tokens that are compared.
        have closingRight : closingIndex? 0 startRight.ahead.tail = some length := by
          rw [← List.take_append_drop (length + 1) startRight.ahead.tail]
          exact closingIndex?_append _
            ((closingIndex?_alike inner).symm.trans (closingIndex?_take closing))
        have texts := Token.fold_renderRaw (List.forall₂_take length inner)
        rw [List.take_take, List.take_take, Nat.min_eq_left (Nat.le_succ length)] at texts
        simp only [closingRight]
        exact ⟨.ok texts, final⟩
    | none =>
        simp only [closing] at covers ⊢
        have whole := covers.whole_of_error rfl
        have remaining := abreast.remaining
        rw [whole.rest, whole.restRight] at remaining
        have alike : List.Forall₂ (Token.Alike pace.folding) start.ahead startRight.ahead := by
          have taken := (abreast.skip (Nat.le_refl start.remaining) (whole.within _)).1
          rwa [Cursor.remaining, List.take_length, List.take_of_length_le (by
            simpa [Cursor.remaining] using Nat.le_of_eq remaining.symm)] at taken
        have inner : List.Forall₂ (Token.Alike pace.folding) start.ahead.tail
            startRight.ahead.tail := by
          simpa using List.forall₂_drop 1 alike
        have passed := length_takeWhile_not_isEnd inner
        have bound := (start.ahead.tail.takeWhile_prefix fun token => !token.isEnd).length_le
        rw [List.length_tail] at bound
        simp only [← closingIndex?_alike inner, closing, ← passed]
        refine ⟨.error ⟨rfl, rfl⟩, (abreast.skip ?_ (whole.within _)).2⟩
        rw [Cursor.remaining] at more ⊢
        omega
  · have refused : Matches pace scope pace.folding.fold _ _ :=
      matches_refuse (.expected "opening bracket \"(\"")
    rw [if_neg opens] at covers ⊢
    rw [if_neg opens]
    exact refused start startRight abreast covers

/-! ## Names and numbers -/

theorem isEnd_of_kind {token : Token} {kind : Token.Kind} (isKind : token.kind = kind)
    (notEnd : kind ≠ .endOfInput) : token.isEnd = false := by
  rw [Token.isEnd, isKind]
  exact decide_eq_false notEnd

theorem matches_name? : Matches pace scope (Option.map pace.folding.fold) name? name? := by
  refine matches_consume_bind fun quoted => ?_
  cases quoted with
  | true =>
      refine matches_seesKind_bind (fun start startRight abreast isName => ?_) matches_refuse_bind
      refine matchesAt_take_bind abreast (isEnd_of_kind isName (by decide)) ?_
      exact matches_expect_bind (matches_pure (congrArg some abreast.current.text))
  | false =>
      refine matches_seesKind_bind (fun start startRight abreast isWord => ?_)
        (matches_atStop_bind fun _ => matches_pure rfl)
      refine matchesAt_look_bind ?_
      rw [← abreast.current.stopAt]
      cases scope.stops.stopAt start.current with
      | true => exact matchesAt_pure abreast rfl
      | false =>
          refine matchesAt_take_bind abreast (isEnd_of_kind isWord (by decide)) ?_
          exact matches_pure (congrArg some abreast.current.text)

theorem matches_name : Matches pace scope pace.folding.fold name name := by
  refine matches_bind matches_name? fun found foundRight same => ?_
  cases found with
  | none =>
      obtain rfl : foundRight = none := by simpa using same.symm
      exact matches_refuse _
  | some name =>
      obtain ⟨nameRight, rfl, sameName⟩ := Option.map_eq_some_iff.mp same.symm
      exact matches_pure sameName.symm

theorem matches_nameOrString : Matches pace scope pace.folding.fold nameOrString nameOrString := by
  refine matches_seesKind_bind (fun start startRight abreast isString => ?_) matches_name
  refine matchesAt_take_bind abreast (isEnd_of_kind isString (by decide)) ?_
  exact matches_pure abreast.current.text

theorem matches_names : Matches pace scope (List.map pace.folding.fold) names names :=
  matches_parenthesized matches_name

theorem matches_unsigned (what : String) :
    Matches pace scope id (unsigned what) (unsigned what) := by
  refine matches_seesKind_bind (fun start startRight abreast isNumber => ?_) matches_refuse_bind
  refine matchesAt_look_bind ?_
  rw [← abreast.current.verbatim (by simp [isNumber])]
  cases Number.uint32? start.current.text with
  | some value =>
      exact matchesAt_advance_bind abreast (isEnd_of_kind isNumber (by decide)) (matches_pure rfl)
  | none => exact matchesAt_refuse abreast rfl

end Grammar

end TableDdl
