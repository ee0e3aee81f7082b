import TableDdl.Grammar.Group
import TableDdl.Grammar.Name
import TableDdl.Grammar.Scan

/-!
# What a grammar finds

A grammar finds a value from one cursor to another if it accepts there with that value and stops at
the other cursor. This file says, for every step of which the grammars are made, exactly when it
finds something, so that a successful reading can be taken apart step by step.
-/

namespace TableDdl

namespace Grammar

variable {α β : Type} {scope : Scope} {start final : Cursor}

/-- The grammar accepts at the first cursor with the value and stops at the second. -/
def Finds (grammar : Grammar α) (scope : Scope) (start : Cursor) (value : α) (final : Cursor) :
    Prop :=
  (grammar scope start).result = .ok value ∧ (grammar scope start).cursor = final

theorem Finds.reaches {grammar : Grammar α} {value : α}
    (found : grammar.Finds scope start value final) : start.Reaches final := by
  rw [← found.2]
  exact (grammar scope start).reaches

theorem Finds.outcome_eq {grammar : Grammar α} {value : α}
    (found : grammar.Finds scope start value final) :
    grammar scope start = ⟨.ok value, final, found.reaches⟩ := by
  have parts : ∀ (outcome : Outcome α start) (reaches : start.Reaches final),
      outcome.result = .ok value → outcome.cursor = final →
        outcome = ⟨.ok value, final, reaches⟩ := by
    rintro ⟨result, cursor, _⟩ reaches rfl rfl
    rfl
  exact parts _ _ found.1 found.2

/-- A grammar finds at most one value, and stops at one place. -/
theorem Finds.of_outcome_eq {grammar : Grammar α} {value : α} {reaches : start.Reaches final}
    (outcome : grammar scope start = ⟨.ok value, final, reaches⟩) :
    grammar.Finds scope start value final :=
  ⟨congrArg Outcome.result outcome, congrArg Outcome.cursor outcome⟩

theorem Finds.functional {grammar : Grammar α} {first second : α}
    {firstFinal secondFinal : Cursor} (one : grammar.Finds scope start first firstFinal)
    (other : grammar.Finds scope start second secondFinal) :
    first = second ∧ firstFinal = secondFinal :=
  ⟨Except.ok.inj (one.1.symm.trans other.1), one.2.symm.trans other.2⟩

/-! ## Sequencing -/

@[simp] theorem finds_pure_iff {value found : α} :
    (pure value : Grammar α).Finds scope start found final ↔ value = found ∧ start = final := by
  simp [Finds, pure, Grammar.pure]

theorem finds_bind_iff {first : Grammar α} {second : α → Grammar β} {value : β} :
    (first >>= second).Finds scope start value final ↔
      ∃ found middle, first.Finds scope start found middle ∧
        (second found).Finds scope middle value final := by
  simp only [Finds, bind, Grammar.bind]
  split
  · rename_i error cursor reaches outcome
    simp [outcome]
  · rename_i found cursor reaches outcome
    have result : (first scope start).result = .ok found := by rw [outcome]
    have ended : (first scope start).cursor = cursor := by rw [outcome]
    constructor
    · rintro ⟨there, last⟩
      exact ⟨found, cursor, ⟨result, ended⟩, there, last⟩
    · rintro ⟨other, middle, ⟨same, rfl⟩, there, last⟩
      obtain rfl : found = other := Except.ok.inj (result.symm.trans same)
      rw [ended] at there last
      exact ⟨there, last⟩

@[simp] theorem finds_map_iff {grammar : Grammar α} {change : α → β} {value : β} :
    (change <$> grammar).Finds scope start value final ↔
      ∃ found, grammar.Finds scope start found final ∧ change found = value := by
  show (grammar >>= fun found => pure (change found)).Finds scope start value final ↔ _
  simp only [finds_bind_iff, finds_pure_iff]
  constructor
  · rintro ⟨found, middle, reading, rfl, rfl⟩
    exact ⟨found, reading, rfl⟩
  · rintro ⟨found, reading, rfl⟩
    exact ⟨found, final, reading, rfl, rfl⟩

@[simp] theorem finds_refuse_iff {fault : Fault} {value : α} :
    (refuse fault : Grammar α).Finds scope start value final ↔ False := by
  simp [Finds, refuse]

/-! ## Looking and moving -/

@[simp] theorem finds_look_iff {view : Scope → Cursor → α} {value : α} :
    (look view).Finds scope start value final ↔ view scope start = value ∧ start = final := by
  simp [Finds, look]

/-- What follows a look reads from the same cursor. -/
@[simp] theorem finds_look_bind_iff {view : Scope → Cursor → α} {second : α → Grammar β}
    {value : β} :
    (look view >>= second).Finds scope start value final ↔
      (second (view scope start)).Finds scope start value final := by
  simp [finds_bind_iff, and_assoc]

@[simp] theorem finds_advance_iff {value : Unit} :
    advance.Finds scope start value final ↔ start.advance = final := by
  simp [Finds, advance]

@[simp] theorem finds_advance_bind_iff {second : Unit → Grammar β} {value : β} :
    (advance >>= second).Finds scope start value final ↔
      (second ()).Finds scope start.advance value final := by
  simp only [finds_bind_iff, finds_advance_iff, exists_eq_left']
  exact ⟨fun ⟨_, reading⟩ => reading, fun reading => ⟨(), reading⟩⟩

@[simp] theorem finds_pure_bind_iff {found : α} {second : α → Grammar β} {value : β} :
    ((pure found : Grammar α) >>= second).Finds scope start value final ↔
      (second found).Finds scope start value final := by
  simp [finds_bind_iff, and_assoc]

@[simp] theorem finds_refuse_bind_iff {fault : Fault} {second : α → Grammar β} {value : β} :
    ((refuse fault : Grammar α) >>= second).Finds scope start value final ↔ False := by
  simp [finds_bind_iff]

@[simp] theorem finds_consume_bind_iff {text : String} {second : Bool → Grammar β} {value : β} :
    (consume text >>= second).Finds scope start value final ↔
      if start.current.spells text then (second true).Finds scope start.advance value final
      else (second false).Finds scope start value final := by
  rw [finds_bind_iff]
  by_cases spelled : start.current.spells text = true
  · simp [consume, sees, spelled, and_assoc]
  · simp [consume, sees, spelled, and_assoc]

/-- What is read after a word or mark, and what is read without it. -/
theorem finds_consume_ite_iff {text : String} {left right : Grammar β} {value : β} :
    (do if ← consume text then left else right).Finds scope start value final ↔
      if start.current.spells text then left.Finds scope start.advance value final
      else right.Finds scope start value final := by
  rw [finds_consume_bind_iff]
  rfl

/-- What is read after a word or mark that may be missing. -/
theorem finds_of_finds_optional_bind {text : String} {second : Grammar β} {value : β}
    (found : (do let _ ← consume text; second).Finds scope start value final) :
    ∃ middle, (middle = start ∨ start.current.spells text ∧ middle = start.advance) ∧
      second.Finds scope middle value final := by
  rw [finds_consume_bind_iff] at found
  split at found
  · exact ⟨start.advance, .inr ⟨‹_›, rfl⟩, found⟩
  · exact ⟨start, .inl rfl, found⟩

theorem finds_sees_ite_iff {text : String} {left right : Grammar β} {value : β} :
    (do if ← sees text then left else right).Finds scope start value final ↔
      if start.current.spells text then left.Finds scope start value final
      else right.Finds scope start value final := by
  rw [sees, finds_look_bind_iff]
  by_cases spelled : start.current.spells text = true <;> simp [spelled]

@[simp] theorem finds_consumeAny_bind_iff {texts : List String} {second : Bool → Grammar β}
    {value : β} :
    (consumeAny texts >>= second).Finds scope start value final ↔
      if texts.any start.current.spells then (second true).Finds scope start.advance value final
      else (second false).Finds scope start value final := by
  rw [finds_bind_iff]
  by_cases spelled : texts.any start.current.spells = true
  · simp only [consumeAny, seesAny, finds_look_bind_iff, spelled, if_true,
      finds_advance_bind_iff, finds_pure_iff]
    simp [and_assoc]
  · simp only [consumeAny, seesAny, finds_look_bind_iff, spelled]
    simp [and_assoc]

@[simp] theorem finds_expect_iff {text : String} {fault : Fault} {value : Unit} :
    (expect text fault).Finds scope start value final ↔
      start.current.spells text ∧ start.advance = final := by
  by_cases spelled : start.current.spells text = true <;> simp [expect, spelled]

@[simp] theorem finds_expect_bind_iff {text : String} {fault : Fault}
    {second : Unit → Grammar β} {value : β} :
    (expect text fault >>= second).Finds scope start value final ↔
      start.current.spells text ∧ (second ()).Finds scope start.advance value final := by
  simp only [finds_bind_iff, finds_expect_iff, and_assoc]
  constructor
  · rintro ⟨_, middle, spelled, rfl, reading⟩
    exact ⟨spelled, reading⟩
  · rintro ⟨spelled, reading⟩
    exact ⟨(), start.advance, spelled, rfl, reading⟩

@[simp] theorem finds_withStops_iff {words : List String} {grammar : Grammar α} {value : α} :
    (withStops words grammar).Finds scope start value final ↔
      grammar.Finds { scope with stops := scope.stops.adding words } start value final := Iff.rfl

@[simp] theorem finds_orRefuse_iff {grammar : Grammar α} {fault : Fault} {value : α} :
    (orRefuse grammar fault).Finds scope start value final ↔
      grammar.Finds scope start value final := by
  simp only [Finds, orRefuse]
  split
  · rename_i found cursor reaches outcome
    simp [outcome]
  · rename_i error cursor reaches outcome
    simp [outcome, refuse, Outcome.since]

theorem finds_consumed_iff {grammar : Grammar α} {tokens : List Token} :
    grammar.consumed.Finds scope start tokens final ↔
      ∃ value, grammar.Finds scope start value final ∧ start.between final = tokens := by
  simp only [Finds, consumed, Outcome.mapResult]
  constructor
  · rintro ⟨result, rfl⟩
    cases outcome : (grammar scope start).result with
    | error error => simp [outcome, Except.map] at result
    | ok value =>
        simp only [outcome, Except.map, Except.ok.injEq] at result
        exact ⟨value, ⟨rfl, rfl⟩, result⟩
  · rintro ⟨value, ⟨result, rfl⟩, rfl⟩
    simp [result, Except.map]

end Grammar

end TableDdl
