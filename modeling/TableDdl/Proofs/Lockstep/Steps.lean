import TableDdl.Proofs.Lockstep.Basic

/-!
# Steps of two readings in lockstep

Two grammars match if they give alike outcomes from cursors that stand abreast. What is found is
compared through a view, under which alike values become equal. The rules of this file put matching
grammars together, step by step.
-/

namespace TableDdl

/-- The refusals have the same wording and name the same token, up to the folding; they may have
different lines. -/
structure ParseError.Alike (folding : Folding) (left right : ParseError) : Prop where
  message : folding.fold left.fault.message = folding.fold right.fault.message
  token : folding.fold left.token = folding.fold right.token

namespace Grammar

variable {α β γ δ : Type}

/-- Both results are values that are the same under the view, or both are refusals that are
alike. -/
inductive SameResult (folding : Folding) (view : α → γ) :
    Except ParseError α → Except ParseError α → Prop where
  /-- Both are values. -/
  | ok {left right : α} (same : view left = view right) :
      SameResult folding view (.ok left) (.ok right)
  /-- Both are refusals. -/
  | error {left right : ParseError} (alike : left.Alike folding right) :
      SameResult folding view (.error left) (.error right)

theorem SameResult.error_or_ok {folding : Folding} {view : α → γ}
    {left right : Except ParseError α} (same : SameResult folding view left right) :
    (∃ error errorRight, left = .error error ∧ right = .error errorRight ∧
        error.Alike folding errorRight) ∨
      ∃ value valueRight, left = .ok value ∧ right = .ok valueRight ∧
        view value = view valueRight := by
  cases same with
  | error alike => exact .inl ⟨_, _, rfl, rfl, alike⟩
  | ok same => exact .inr ⟨_, _, rfl, rfl, same⟩

/-- The outcome of the first reading is one that is compared: any one, where the sequences are
compared as a whole, and otherwise a success that stops within what is compared. -/
def Covers (pace : Lockstep) {start : Cursor} (outcome : Outcome α start) : Prop :=
  pace.Whole ∨ (∃ value, outcome.result = .ok value) ∧ pace.Within outcome.cursor

/-- From the two cursors, the grammars give alike outcomes. -/
def MatchesAt (pace : Lockstep) (scope : Scope) (view : α → γ) (left right : Grammar α)
    (start startRight : Cursor) : Prop :=
  Covers pace (left scope start) →
    SameResult pace.folding view (left scope start).result (right scope startRight).result ∧
      pace.Abreast (left scope start).cursor (right scope startRight).cursor

/-- From all cursors that stand abreast, the grammars give alike outcomes. -/
def Matches (pace : Lockstep) (scope : Scope) (view : α → γ) (left right : Grammar α) : Prop :=
  ∀ start startRight, pace.Abreast start startRight →
    MatchesAt pace scope view left right start startRight

variable {pace : Lockstep} {scope : Scope} {start startRight : Cursor} {view : α → γ}
  {viewLater : β → δ}

/-- A refusal is compared only where the sequences are compared as a whole. -/
theorem Covers.whole_of_error {outcome : Outcome α start} {error : ParseError}
    (covers : Covers pace outcome) (refused : outcome.result = .error error) : pace.Whole := by
  refine covers.resolve_right ?_
  rintro ⟨⟨value, found⟩, -⟩
  rw [refused] at found
  cases found

/-- Wherever the outcome is compared, the places that it reaches are, too. -/
theorem Covers.within {outcome : Outcome α start} (covers : Covers pace outcome) :
    pace.Within outcome.cursor := by
  rcases covers with whole | ended
  · exact whole.within _
  · exact ended.2

/-- What succeeds is moved past the first token, if the grammar progresses. -/
theorem Covers.within_advance {grammar : Grammar α} (covers : Covers pace (grammar scope start))
    (progresses : Progresses grammar) : pace.Within start.advance := by
  rcases covers with whole | ⟨⟨value, found⟩, within⟩
  · exact whole.within _
  · have moved := progresses _ _ _ _ ⟨found, rfl⟩
    rw [Lockstep.Within] at within ⊢
    rw [Cursor.remaining_advance]
    omega

/-- What the second grammar finds where the first one finds something. -/
theorem MatchesAt.of_ok {left right : Grammar α} {value : α} {cursor : Cursor}
    {reaches : start.Reaches cursor}
    (here : MatchesAt pace scope view left right start startRight)
    (outcome : left scope start = ⟨.ok value, cursor, reaches⟩)
    (within : pace.Within cursor) :
    ∃ valueRight cursorRight reachesRight,
      right scope startRight = ⟨.ok valueRight, cursorRight, reachesRight⟩ ∧
        view value = view valueRight ∧ pace.Abreast cursor cursorRight := by
  obtain ⟨same, final⟩ := here (by
    rw [outcome]
    exact .inr ⟨⟨value, rfl⟩, within⟩)
  generalize right scope startRight = outcomeRight at same final ⊢
  obtain ⟨resultRight, cursorRight, reachesRight⟩ := outcomeRight
  rw [outcome] at same final
  cases same with
  | ok same => exact ⟨_, _, _, rfl, same, final⟩

/-- How the second grammar refuses the text where the first one does. -/
theorem MatchesAt.of_error {left right : Grammar α} {error : ParseError} {cursor : Cursor}
    {reaches : start.Reaches cursor}
    (here : MatchesAt pace scope view left right start startRight)
    (outcome : left scope start = ⟨.error error, cursor, reaches⟩) (whole : pace.Whole) :
    ∃ errorRight cursorRight reachesRight,
      right scope startRight = ⟨.error errorRight, cursorRight, reachesRight⟩ ∧
        error.Alike pace.folding errorRight ∧ pace.Abreast cursor cursorRight := by
  obtain ⟨same, final⟩ := here (.inl whole)
  generalize right scope startRight = outcomeRight at same final ⊢
  obtain ⟨resultRight, cursorRight, reachesRight⟩ := outcomeRight
  rw [outcome] at same final
  cases same with
  | error alike => exact ⟨_, _, _, rfl, alike, final⟩

/-- What is found up to a place at which the sequences are still alike is found in both. -/
theorem Matches.finds {grammar : Grammar α} {value : α} {final : Cursor}
    (matching : Matches pace scope id grammar grammar) (abreast : pace.Abreast start startRight)
    (found : grammar.Finds scope start value final) (within : pace.Within final) :
    ∃ finalRight, grammar.Finds scope startRight value finalRight ∧
      pace.Abreast final finalRight := by
  obtain ⟨valueRight, finalRight, reaches, outcome, same, last⟩ :=
    (matching _ _ abreast).of_ok found.outcome_eq within
  obtain rfl : value = valueRight := same
  exact ⟨finalRight, .of_outcome_eq outcome, last⟩

/-! ## Sequencing -/

theorem matchesAt_pure {left right : α} (abreast : pace.Abreast start startRight)
    (same : view left = view right) :
    MatchesAt pace scope view (pure left) (pure right) start startRight :=
  fun _ => ⟨.ok same, abreast⟩

theorem matches_pure {left right : α} (same : view left = view right) :
    Matches pace scope view (pure left) (pure right) :=
  fun _ _ abreast => matchesAt_pure abreast same

theorem matchesAt_refuse {left right : Fault} (abreast : pace.Abreast start startRight)
    (same : pace.folding.fold left.message = pace.folding.fold right.message) :
    MatchesAt pace scope view (refuse left) (refuse right) start startRight :=
  fun _ => ⟨.error ⟨same, abreast.current.described⟩, abreast⟩

theorem matches_refuse (fault : Fault) :
    Matches pace scope view (refuse fault) (refuse fault) :=
  fun _ _ abreast => matchesAt_refuse abreast rfl

/-- A refusal that names what was found before. -/
theorem matches_refuse_of_message {left right : Fault}
    (same : pace.folding.fold left.message = pace.folding.fold right.message) :
    Matches pace scope view (refuse left) (refuse right) :=
  fun _ _ abreast => matchesAt_refuse abreast same

theorem matches_refuse_bind {fault : Fault} {second secondRight : α → Grammar β} :
    Matches pace scope viewLater ((refuse fault : Grammar α) >>= second)
      ((refuse fault : Grammar α) >>= secondRight) :=
  fun _ _ abreast _ => ⟨.error ⟨rfl, abreast.current.described⟩, abreast⟩

theorem matchesAt_bind {first firstRight : Grammar α} {second secondRight : α → Grammar β}
    (here : MatchesAt pace scope view first firstRight start startRight)
    (there : ∀ left right, view left = view right →
      Matches pace scope viewLater (second left) (secondRight right)) :
    MatchesAt pace scope viewLater (first >>= second) (firstRight >>= secondRight) start
      startRight := by
  intro covers
  simp only [bind, Grammar.bind] at covers ⊢
  rcases outcome : first scope start with ⟨error | value, cursor, reaches⟩
  · rw [outcome] at covers
    obtain ⟨errorRight, cursorRight, reachesRight, outcomeRight, alike, final⟩ :=
      here.of_error outcome (covers.whole_of_error rfl)
    rw [outcomeRight]
    exact ⟨.error alike, final⟩
  · rw [outcome] at covers
    obtain ⟨valueRight, cursorRight, reachesRight, outcomeRight, same, middle⟩ :=
      here.of_ok outcome (covers.within.of_reaches (second value scope cursor).reaches)
    rw [outcomeRight]
    exact there value valueRight same cursor cursorRight middle covers

theorem matches_bind {first firstRight : Grammar α} {second secondRight : α → Grammar β}
    (here : Matches pace scope view first firstRight)
    (there : ∀ left right, view left = view right →
      Matches pace scope viewLater (second left) (secondRight right)) :
    Matches pace scope viewLater (first >>= second) (firstRight >>= secondRight) :=
  fun start startRight abreast => matchesAt_bind (here start startRight abreast) there

/-- What is read before something that moves on may look one token further. -/
theorem matches_bind_further {first firstRight : Grammar α} {second secondRight : α → Grammar β}
    (whole : pace.Whole → Matches pace scope view first firstRight)
    (here : Matches pace.further scope view first firstRight)
    (there : ∀ left right, view left = view right →
      Matches pace scope viewLater (second left) (secondRight right))
    (progresses : ∀ value, Progresses (second value)) :
    Matches pace scope viewLater (first >>= second) (firstRight >>= secondRight) := by
  intro start startRight abreast covers
  rcases covers with isWhole | ⟨⟨value, result⟩, within⟩
  · exact matches_bind (whole isWhole) there start startRight abreast (.inl isWhole)
  · obtain ⟨seen, middle, before, after⟩ := finds_bind_iff.mp ⟨result, rfl⟩
    have moved := progresses seen _ _ _ _ after
    have withinMiddle : pace.further.Within middle := by
      simp only [Lockstep.Within, Lockstep.further] at within ⊢
      omega
    obtain ⟨seenRight, middleRight, reachesRight, outcomeRight, same, middleAbreast⟩ :=
      (here start startRight (abreast.further (withinMiddle.of_reaches before.reaches))).of_ok
        before.outcome_eq withinMiddle
    have covers : Covers pace (second seen scope middle) :=
      .inr ⟨⟨value, after.1⟩, after.2 ▸ within⟩
    simp only [bind, Grammar.bind]
    rw [before.outcome_eq, outcomeRight]
    exact there seen seenRight same middle middleRight middleAbreast.of_further covers

/-- A value that is the same in both readings. -/
theorem matches_bind_id {first firstRight : Grammar α} {second secondRight : α → Grammar β}
    (here : Matches pace scope id first firstRight)
    (there : ∀ value, Matches pace scope viewLater (second value) (secondRight value)) :
    Matches pace scope viewLater (first >>= second) (firstRight >>= secondRight) := by
  refine matches_bind here fun left right same => ?_
  obtain rfl : left = right := same
  exact there left

theorem matches_map {grammar grammarRight : Grammar α} {change : α → β}
    (here : Matches pace scope view grammar grammarRight)
    (there : ∀ left right, view left = view right →
      viewLater (change left) = viewLater (change right)) :
    Matches pace scope viewLater (change <$> grammar) (change <$> grammarRight) :=
  matches_bind here fun left right same => matches_pure (there left right same)

theorem matches_ite {condition : Prop} [Decidable condition] {left leftRight right rightRight :
    Grammar α} (ifTrue : Matches pace scope view left leftRight)
    (ifFalse : Matches pace scope view right rightRight) :
    Matches pace scope view (if condition then left else right)
      (if condition then leftRight else rightRight) := by
  split
  · exact ifTrue
  · exact ifFalse

/-! ## Looking and moving -/

theorem matchesAt_look_bind {seen : Scope → Cursor → α} {second secondRight : α → Grammar β}
    (there : MatchesAt pace scope viewLater (second (seen scope start))
      (secondRight (seen scope startRight)) start startRight) :
    MatchesAt pace scope viewLater (look seen >>= second) (look seen >>= secondRight) start
      startRight :=
  there

/-- A look at which both sequences show the same. -/
theorem matches_look_bind {seen : Scope → Cursor → α} {second secondRight : α → Grammar β}
    (same : ∀ start startRight, pace.Abreast start startRight →
      seen scope start = seen scope startRight)
    (there : ∀ value, Matches pace scope viewLater (second value) (secondRight value)) :
    Matches pace scope viewLater (look seen >>= second) (look seen >>= secondRight) := by
  intro start startRight abreast
  refine matchesAt_look_bind ?_
  rw [← same start startRight abreast]
  exact there _ start startRight abreast

theorem matchesAt_advance_bind_of {second secondRight : Unit → Grammar β}
    (abreast : pace.Abreast start startRight) (inside : start.current.isEnd = false)
    (there : pace.Abreast start.advance startRight.advance →
      MatchesAt pace scope viewLater (second ()) (secondRight ()) start.advance
        startRight.advance) :
    MatchesAt pace scope viewLater (advance >>= second) (advance >>= secondRight) start
      startRight := by
  intro covers
  refine there (abreast.advance inside ?_) covers
  exact Lockstep.Within.of_reaches (second () scope start.advance).reaches covers.within

theorem matchesAt_advance_bind {second secondRight : Unit → Grammar β}
    (abreast : pace.Abreast start startRight) (inside : start.current.isEnd = false)
    (there : Matches pace scope viewLater (second ()) (secondRight ())) :
    MatchesAt pace scope viewLater (advance >>= second) (advance >>= secondRight) start
      startRight :=
  matchesAt_advance_bind_of abreast inside (there _ _)

theorem matches_sees_bind {text : String} {second secondRight : Bool → Grammar β}
    (there : ∀ seen, Matches pace scope viewLater (second seen) (secondRight seen)) :
    Matches pace scope viewLater (sees text >>= second) (sees text >>= secondRight) :=
  matches_look_bind (fun _ _ abreast => by rw [abreast.current.spells]) there

theorem matches_seesAny_bind {texts : List String} {second secondRight : Bool → Grammar β}
    (there : ∀ seen, Matches pace scope viewLater (second seen) (secondRight seen)) :
    Matches pace scope viewLater (seesAny texts >>= second) (seesAny texts >>= secondRight) :=
  matches_look_bind (fun _ _ abreast => by rw [abreast.current.spells]) there

theorem matches_settings_bind {second secondRight : Settings → Grammar β}
    (there : Matches pace scope viewLater (second scope.settings) (secondRight scope.settings)) :
    Matches pace scope viewLater (settings >>= second) (settings >>= secondRight) :=
  fun start startRight abreast => matchesAt_look_bind (there start startRight abreast)

theorem matches_atEnd_bind {second secondRight : Bool → Grammar β}
    (there : ∀ seen, Matches pace scope viewLater (second seen) (secondRight seen)) :
    Matches pace scope viewLater (atEnd >>= second) (atEnd >>= secondRight) :=
  matches_look_bind (fun _ _ abreast => abreast.atEnd) there

theorem matches_atStop_bind {second secondRight : Bool → Grammar β}
    (there : ∀ seen, Matches pace scope viewLater (second seen) (secondRight seen)) :
    Matches pace scope viewLater (atStop >>= second) (atStop >>= secondRight) :=
  matches_look_bind (fun _ _ abreast => abreast.current.stopAt _) there

theorem matches_atTerminator_bind {second secondRight : Bool → Grammar β}
    (there : ∀ seen, Matches pace scope viewLater (second seen) (secondRight seen)) :
    Matches pace scope viewLater (atTerminator >>= second) (atTerminator >>= secondRight) :=
  matches_look_bind (fun _ _ abreast => by rw [abreast.atEnd, abreast.current.spells]) there

/-- What is read where a token of the kind stands, and what is read elsewhere. -/
theorem matches_seesKind_bind {kind : Token.Kind} {second secondRight : Bool → Grammar β}
    (ifTrue : ∀ start startRight, pace.Abreast start startRight → start.current.kind = kind →
      MatchesAt pace scope viewLater (second true) (secondRight true) start startRight)
    (ifFalse : Matches pace scope viewLater (second false) (secondRight false)) :
    Matches pace scope viewLater (seesKind kind >>= second) (seesKind kind >>= secondRight) := by
  intro start startRight abreast
  refine matchesAt_look_bind ?_
  rw [← abreast.current.kind]
  by_cases isKind : start.current.kind = kind
  · rw [decide_eq_true isKind]
    exact ifTrue start startRight abreast isKind
  · rw [decide_eq_false isKind]
    exact ifFalse start startRight abreast

/-- What is read where a bare word stands, and what is read elsewhere. -/
theorem matches_keyword?_bind {second secondRight : Option String → Grammar β}
    (some : ∀ word start startRight, pace.Abreast start startRight →
      start.current.keyword? = some word → MatchesAt pace scope viewLater (second (some word))
        (secondRight (some word)) start startRight)
    (none : Matches pace scope viewLater (second none) (secondRight none)) :
    Matches pace scope viewLater (keyword? >>= second) (keyword? >>= secondRight) := by
  intro start startRight abreast
  refine matchesAt_look_bind ?_
  rw [← abreast.current.keyword?]
  cases found : start.current.keyword? with
  | none => exact none start startRight abreast
  | some word => exact some word start startRight abreast found

/-- The current token is kept and moved past. -/
theorem matchesAt_take_bind {second secondRight : Token → Grammar β}
    (abreast : pace.Abreast start startRight) (inside : start.current.isEnd = false)
    (there : Matches pace scope viewLater (second start.current)
      (secondRight startRight.current)) :
    MatchesAt pace scope viewLater (do let token ← current; advance; second token)
      (do let token ← current; advance; secondRight token) start startRight :=
  matchesAt_look_bind (matchesAt_advance_bind abreast inside there)

/-! ## Words and marks -/

theorem matches_consume (text : String) :
    Matches pace scope id (consume text) (consume text) := by
  intro start startRight abreast
  refine matchesAt_look_bind ?_
  rw [← abreast.current.spells]
  cases spelled : start.current.spells text with
  | false => exact matchesAt_pure abreast rfl
  | true => exact matchesAt_advance_bind abreast (isEnd_of_spells spelled) (matches_pure rfl)

theorem matches_consumeAny (texts : List String) :
    Matches pace scope id (consumeAny texts) (consumeAny texts) := by
  intro start startRight abreast
  refine matchesAt_look_bind ?_
  rw [← abreast.current.spells]
  cases spelled : texts.any start.current.spells with
  | false => exact matchesAt_pure abreast rfl
  | true =>
      obtain ⟨text, -, spelled⟩ := List.any_eq_true.mp spelled
      exact matchesAt_advance_bind abreast (isEnd_of_spells spelled) (matches_pure rfl)

theorem matches_consume_bind {text : String} {second secondRight : Bool → Grammar β}
    (there : ∀ seen, Matches pace scope viewLater (second seen) (secondRight seen)) :
    Matches pace scope viewLater (consume text >>= second) (consume text >>= secondRight) :=
  matches_bind_id (matches_consume text) there

theorem matches_consumeAny_bind {texts : List String} {second secondRight : Bool → Grammar β}
    (there : ∀ seen, Matches pace scope viewLater (second seen) (secondRight seen)) :
    Matches pace scope viewLater (consumeAny texts >>= second) (consumeAny texts >>= secondRight) :=
  matches_bind_id (matches_consumeAny texts) there

theorem matches_consume_ite {text : String} {left leftRight right rightRight : Grammar β}
    (ifTrue : Matches pace scope viewLater left leftRight)
    (ifFalse : Matches pace scope viewLater right rightRight) :
    Matches pace scope viewLater (do if ← consume text then left else right)
      (do if ← consume text then leftRight else rightRight) :=
  matches_consume_bind fun _ => matches_ite ifTrue ifFalse

theorem matches_consumeAny_ite {texts : List String} {left leftRight right rightRight : Grammar β}
    (ifTrue : Matches pace scope viewLater left leftRight)
    (ifFalse : Matches pace scope viewLater right rightRight) :
    Matches pace scope viewLater (do if ← consumeAny texts then left else right)
      (do if ← consumeAny texts then leftRight else rightRight) :=
  matches_consumeAny_bind fun _ => matches_ite ifTrue ifFalse

theorem matches_sees_ite {text : String} {left leftRight right rightRight : Grammar β}
    (ifTrue : Matches pace scope viewLater left leftRight)
    (ifFalse : Matches pace scope viewLater right rightRight) :
    Matches pace scope viewLater (do if ← sees text then left else right)
      (do if ← sees text then leftRight else rightRight) :=
  matches_sees_bind fun _ => matches_ite ifTrue ifFalse

theorem consume_of_spells {text : String} (spelled : start.current.spells text = true) :
    consume text scope start = ⟨.ok true, start.advance, .advance start⟩ := by
  simp only [consume, sees, look, bind, Grammar.bind, spelled]
  rfl

theorem consume_of_not_spells {text : String} (unspelled : start.current.spells text = false) :
    consume text scope start = ⟨.ok false, start, .refl start⟩ := by
  simp only [consume, sees, look, bind, Grammar.bind, unspelled]
  rfl

/-- What is read after a word or mark, and what is read without it from the same cursors. -/
theorem matchesAt_consume_ite {text : String} {left leftRight right rightRight : Grammar β}
    (abreast : pace.Abreast start startRight)
    (ifTrue : Matches pace scope viewLater left leftRight)
    (ifFalse : MatchesAt pace scope viewLater right rightRight start startRight) :
    MatchesAt pace scope viewLater (do if ← consume text then left else right)
      (do if ← consume text then leftRight else rightRight) start startRight := by
  have spells := congrFun abreast.current.spells text
  intro covers
  simp only [bind, Grammar.bind] at covers ⊢
  cases spelled : start.current.spells text with
  | true =>
      rw [consume_of_spells spelled] at covers ⊢
      rw [consume_of_spells (spells ▸ spelled)]
      refine ifTrue _ _ (abreast.advance (isEnd_of_spells spelled) ?_) covers
      exact Lockstep.Within.of_reaches (left scope start.advance).reaches covers.within
  | false =>
      rw [consume_of_not_spells spelled] at covers ⊢
      rw [consume_of_not_spells (spells ▸ spelled)]
      exact ifFalse covers

theorem matches_expect (text : String) (fault : Fault) :
    Matches pace scope id (expect text fault) (expect text fault) := by
  refine matches_consume_bind fun seen => ?_
  cases seen with
  | true => exact matches_pure rfl
  | false => exact matches_refuse fault

theorem matches_expect_bind {text : String} {fault : Fault} {second secondRight : Unit → Grammar β}
    (there : Matches pace scope viewLater (second ()) (secondRight ())) :
    Matches pace scope viewLater (expect text fault >>= second)
      (expect text fault >>= secondRight) :=
  matches_bind_id (matches_expect text fault) fun _ => there

theorem matches_withStops {words : List String} {left right : Grammar α}
    (there : Matches pace { scope with stops := scope.stops.adding words } view left right) :
    Matches pace scope view (withStops words left) (withStops words right) :=
  there

theorem matches_orRefuse {left right : Grammar α} {fault : Fault}
    (here : Matches pace scope view left right) :
    Matches pace scope view (orRefuse left fault) (orRefuse right fault) := by
  intro start startRight abreast covers
  simp only [orRefuse] at covers ⊢
  rcases outcome : left scope start with ⟨error | value, cursor, reaches⟩
  · rw [outcome] at covers
    obtain ⟨errorRight, cursorRight, reachesRight, outcomeRight, -, final⟩ :=
      (here start startRight abreast).of_error outcome (covers.whole_of_error rfl)
    rw [outcomeRight]
    exact ⟨.error ⟨rfl, final.current.described⟩, final⟩
  · rw [outcome] at covers
    obtain ⟨valueRight, cursorRight, reachesRight, outcomeRight, same, final⟩ :=
      (here start startRight abreast).of_ok outcome covers.within
    rw [outcomeRight]
    exact ⟨.ok same, final⟩

end Grammar

end TableDdl
