import TableDdl.Proofs.Grammar.Runs

/-!
# What a grammar can find

A grammar yields a property if all that it finds has it. The rules of this file follow the steps of
which grammars are made, so that a property of what is found is shown in the order in which it is
put together: for a repetition by one turn of it, for a scan by one visit.

The tokens ahead may be assumed to be of some sort. As everything that a cursor reaches lies ahead of
it, the assumption holds wherever the grammar goes on reading.
-/

namespace TableDdl

namespace Grammar

variable {α β σ : Type} {sort : Token → Prop}

/-- All that the grammar finds among tokens of the sort has the property. -/
def Yields (sort : Token → Prop) (holds : α → Prop) (grammar : Grammar α) : Prop :=
  ∀ scope start value final, (∀ token ∈ start.ahead, sort token) →
    grammar.Finds scope start value final → holds value

/-! ## Steps -/

theorem Yields.mono {holds weaker : α → Prop} {grammar : Grammar α}
    (yields : Yields sort holds grammar) (implies : ∀ value, holds value → weaker value) :
    Yields sort weaker grammar :=
  fun scope start value final sorted found =>
    implies value (yields scope start value final sorted found)

theorem yields_pure {holds : α → Prop} {value : α} (here : holds value) :
    Yields sort holds (pure value : Grammar α) := by
  intro scope start found final _ reading
  obtain ⟨rfl, -⟩ := finds_pure_iff.mp reading
  exact here

theorem yields_refuse {holds : α → Prop} (fault : Fault) :
    Yields sort holds (refuse fault : Grammar α) :=
  fun _ _ _ _ _ found => (finds_refuse_iff.mp found).elim

theorem yields_refuse_bind {holds : β → Prop} {fault : Fault} {second : α → Grammar β} :
    Yields sort holds ((refuse fault : Grammar α) >>= second) :=
  fun _ _ _ _ _ found => (finds_refuse_bind_iff.mp found).elim

theorem yields_bind {first : Grammar α} {second : α → Grammar β} {kept : α → Prop}
    {holds : β → Prop} (here : Yields sort kept first)
    (there : ∀ value, kept value → Yields sort holds (second value)) :
    Yields sort holds (first >>= second) := by
  intro scope start value final sorted found
  obtain ⟨seen, middle, before, after⟩ := finds_bind_iff.mp found
  refine there seen (here _ _ _ _ sorted before) _ _ _ _ (fun token member => ?_) after
  exact sorted token (before.reaches.ahead.subset member)

/-- What is found first does not matter. -/
theorem yields_after {first : Grammar α} {second : α → Grammar β} {holds : β → Prop}
    (there : ∀ value, Yields sort holds (second value)) : Yields sort holds (first >>= second) :=
  yields_bind (fun _ _ _ _ _ _ => trivial) fun value _ => there value

theorem yields_map {grammar : Grammar α} {change : α → β} {holds : β → Prop}
    (here : Yields sort (fun value => holds (change value)) grammar) :
    Yields sort holds (change <$> grammar) := by
  intro scope start value final sorted found
  obtain ⟨seen, reading, rfl⟩ := finds_map_iff.mp found
  exact here _ _ _ _ sorted reading

theorem yields_none {holds : α → Prop} :
    Yields sort (fun found => ∀ value ∈ found, holds value) (pure none : Grammar (Option α)) :=
  yields_pure nofun

theorem yields_some {grammar : Grammar α} {holds : α → Prop} (here : Yields sort holds grammar) :
    Yields sort (fun found => ∀ value ∈ found, holds value) (some <$> grammar) := by
  refine yields_map (here.mono fun value holding => ?_)
  rintro _ ⟨⟩
  exact holding

theorem yields_ite {condition : Prop} [Decidable condition] {ifTrue ifFalse : Grammar α}
    {holds : α → Prop} (here : Yields sort holds ifTrue) (there : Yields sort holds ifFalse) :
    Yields sort holds (if condition then ifTrue else ifFalse) := by
  split
  · exact here
  · exact there

theorem yields_withStops {words : List String} {grammar : Grammar α} {holds : α → Prop}
    (here : Yields sort holds grammar) : Yields sort holds (withStops words grammar) :=
  fun _ start value final sorted found =>
    here _ start value final sorted (finds_withStops_iff.mp found)

/-! ## Lists -/

/-- What every turn finds, all values of a repetition have. -/
theorem yields_many {item? : Grammar (Option α)} {holds : α → Prop}
    (turn : Yields sort (fun found => ∀ value ∈ found, holds value) item?) :
    Yields sort (fun values => ∀ value ∈ values, holds value) (many item?) := by
  intro scope start values final sorted found
  have run := repeats_of_finds_many found
  clear found
  induction run with
  | done none => simp
  | more found progress after ih =>
      refine List.forall_mem_cons.mpr ⟨turn _ _ _ _ sorted found _ rfl, ih fun token member => ?_⟩
      exact sorted token (found.reaches.ahead.subset member)
  | stuck found standstill =>
      exact List.forall_mem_singleton.mpr (turn _ _ _ _ sorted found _ rfl)

theorem yields_commaSeparated {item : Grammar α} {holds : α → Prop}
    (here : Yields sort holds item) :
    Yields sort (fun values => values ≠ [] ∧ ∀ value ∈ values, holds value)
      (commaSeparated item) := by
  refine yields_bind here fun first isFirst => yields_bind (yields_many ?_) fun others areOthers =>
    yields_pure ⟨List.cons_ne_nil _ _, List.forall_mem_cons.mpr ⟨isFirst, areOthers⟩⟩
  exact yields_after fun comma => yields_ite (yields_some here) yields_none

/-- A list in parentheses has at least one item. -/
theorem yields_parenthesized {opening closing : Fault} {item : Grammar α} {holds : α → Prop}
    (here : Yields sort holds item) :
    Yields sort (fun values => values ≠ [] ∧ ∀ value ∈ values, holds value)
      (parenthesized opening closing item) := by
  refine yields_after fun _ => yields_bind (yields_commaSeparated here) fun values found => ?_
  exact yields_after fun _ => yields_pure found

theorem yields_parenthesized_ne_nil {opening closing : Fault} {item : Grammar α} :
    Yields sort (· ≠ []) (parenthesized opening closing item) := by
  have trivially : Yields sort (fun _ => True) item := fun _ _ _ _ _ _ => trivial
  exact (yields_parenthesized trivially).mono fun _ found => found.1

/-! ## Scans -/

/-- What every visit keeps, the whole scan keeps. -/
theorem yields_scan {words : List String} {initial : σ} {visit : Visitor σ} {holds : σ → Prop}
    (here : holds initial)
    (there : ∀ depth gathered, holds gathered →
      Yields sort (fun found => holds found.2) (visit depth gathered)) :
    Yields sort holds (scan words initial visit) := by
  intro scope start result final sorted found
  have run := finds_scan_iff.mp found
  clear found
  generalize 0 = depth at run
  have later {start later : Cursor} (reaches : start.Reaches later)
      (sorted : ∀ token ∈ start.ahead, sort token) : ∀ token ∈ later.ahead, sort token :=
    fun token member => sorted token (reaches.ahead.subset member)
  induction run with
  | ended | surrounded | stopped => exact here
  | opened _ _ ih | closed _ _ ih => exact ih here (later (.advance _) sorted)
  | taken _ _ _ _ found _ _ ih =>
      exact ih (there _ _ here _ _ _ _ sorted found) (later found.reaches sorted)
  | passed _ _ _ _ found _ _ ih =>
      exact ih (there _ _ here _ _ _ _ sorted found)
        (later (found.reaches.trans (.advance _)) sorted)

end Grammar

end TableDdl
