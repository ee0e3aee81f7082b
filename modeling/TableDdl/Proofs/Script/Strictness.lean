import TableDdl.Proofs.Grammar.Composition
import TableDdl.Proofs.Grammar.Parse
import TableDdl.Proofs.Grammar.Runs

/-!
# Strict settings

Under strict settings a constraint that is no foreign key is refused. Nothing else depends on
strictness: every other grammar has the same outcomes under both settings, as they are seen by it
only through the terminator. So strict settings accept exactly the scripts that are accepted without
them and in which every constraint is a foreign key, and find the same statements there.
-/

namespace TableDdl

namespace Grammar

variable {α β σ : Type}

/-! ## What does not depend on the settings -/

theorem many_congr {item? : Grammar (Option α)} {left right : Scope}
    (same : ∀ start, item? left start = item? right start) (start : Cursor) :
    many item? left start = many item? right start := by
  fun_induction many item? left start with
  | case1 start error cursor reaches outcome =>
      rw [many.eq_def, ← same, outcome]
  | case2 start cursor reaches outcome =>
      rw [many.eq_def, ← same, outcome]
  | case3 start value cursor reaches outcome progress ih =>
      rw [many.eq_def item? right start, ← same, outcome]
      simp only [progress, if_true, ih]
  | case4 start value cursor reaches outcome standstill =>
      rw [many.eq_def, ← same, outcome]
      simp only [standstill, if_false]

theorem scanFrom_congr {stops : Stops} {visit : Visitor σ} {unclosed : ParseError}
    {left right : Scope}
    (same : ∀ depth gathered start,
      visit depth gathered left start = visit depth gathered right start)
    (depth : Nat) (gathered : σ) (start : Cursor) :
    scanFrom stops visit unclosed left depth gathered start =
      scanFrom stops visit unclosed right depth gathered start := by
  fun_induction scanFrom stops visit unclosed left depth gathered start with
  | case1 depth gathered start inside _ _ opens ih =>
      rw [scanFrom.eq_def stops visit unclosed right]
      simp only [inside, reduceDIte, opens, if_true, ih]
  | case2 gathered start inside _ _ notOpen closes =>
      rw [scanFrom.eq_def stops visit unclosed right]
      simp only [inside, reduceDIte, closes, reduceCtorEq, if_false, if_true]
  | case3 depth gathered start inside _ _ notOpen closes nonzero ih =>
      rw [scanFrom.eq_def stops visit unclosed right]
      simp only [inside, reduceDIte, closes, reduceCtorEq, nonzero, if_false, if_true, ih]
  | case4 depth gathered start inside _ _ notOpen notClosed stop =>
      rw [scanFrom.eq_def stops visit unclosed right]
      simp only [inside, reduceDIte, notOpen, notClosed, stop, and_self, if_false, if_true]
  | case5 depth gathered start inside _ _ notOpen notClosed noStop error cursor reaches outcome =>
      rw [scanFrom.eq_def stops visit unclosed right]
      simp only [inside, reduceDIte, notOpen, notClosed, noStop, if_false, ← same, outcome]
  | case6 depth gathered start inside _ _ notOpen notClosed noStop taken gatheredNow cursor reaches
      outcome _ progress ih =>
      rw [scanFrom.eq_def stops visit unclosed right]
      simp only [inside, reduceDIte, notOpen, notClosed, noStop, if_false, ← same, outcome,
        progress, and_self, if_true, ih]
  | case7 depth gathered start inside _ _ notOpen notClosed noStop taken gatheredNow cursor reaches
      outcome _ standstill _ ih =>
      rw [scanFrom.eq_def stops visit unclosed right]
      simp only [inside, reduceDIte, notOpen, notClosed, noStop, if_false, ← same, outcome,
        standstill, ih]
  | case8 gathered start outside =>
      rw [scanFrom.eq_def stops visit unclosed right, dif_neg outside, if_pos rfl]
  | case9 depth gathered start outside nonzero =>
      rw [scanFrom.eq_def stops visit unclosed right, dif_neg outside, if_neg nonzero]

/-- A grammar has the same outcomes under settings that its steps do not tell apart. -/
theorem Composed.outcome_eq {alike : Settings → Settings → Prop} {grammar : Grammar α}
    (composed : Composed alike grammar) {left right : Settings} (same : alike left right)
    (stops : Stops) (start : Cursor) :
    grammar ⟨left, stops⟩ start = grammar ⟨right, stops⟩ start := by
  induction composed generalizing stops start with
  | pure value => rfl
  | bind here there ihHere ihThere =>
      simp only [Bind.bind, Grammar.bind, ihHere]
      split
      · rfl
      · rw [ihThere]
  | @look _ view unseen =>
      simp only [Grammar.look, unseen left right stops start same]
  | @configured _ second unseen there ih =>
      show (second left ⟨left, stops⟩ start).since (.refl start) =
        (second right ⟨right, stops⟩ start).since (.refl start)
      rw [unseen left right same, ih]
  | advance => rfl
  | refuse fault => rfl
  | withStops words here ih => exact ih (stops.adding words) start
  | orRefuse fault here ih =>
      simp only [Grammar.orRefuse, ih]
      split <;> rfl
  | consumed here ih => simp only [Grammar.consumed, ih]
  | many here ih => exact many_congr (ih stops) start
  | scan words initial here ih =>
      exact scanFrom_congr (fun depth gathered => ih depth gathered stops) 0 initial start
  | group => rfl

/-! ## What strict settings keep -/

/-- Strict settings keep exactly the values that are accepted: what is found under them is what is
found without them, as long as it is accepted. -/
def Restricts (accepted : α → Prop) (grammar : Grammar α) : Prop :=
  ∀ terminator stops start value final,
    grammar.Finds ⟨⟨terminator, true⟩, stops⟩ start value final ↔
      grammar.Finds ⟨⟨terminator, false⟩, stops⟩ start value final ∧ accepted value

/-- Settings with the same terminator. -/
def SameTerminator (left right : Settings) : Prop := left.terminator = right.terminator

/-- The grammar does not depend on strictness. -/
abbrev Unconcerned (grammar : Grammar α) : Prop := Composed SameTerminator grammar

theorem Composed.finds_strict_iff {grammar : Grammar α} (here : Unconcerned grammar)
    {terminator : String} {stops : Stops} {start final : Cursor} {value : α} :
    grammar.Finds ⟨⟨terminator, true⟩, stops⟩ start value final ↔
      grammar.Finds ⟨⟨terminator, false⟩, stops⟩ start value final := by
  have same : SameTerminator ⟨terminator, true⟩ ⟨terminator, false⟩ := rfl
  rw [Finds, here.outcome_eq same, Finds]

theorem Composed.restricts {grammar : Grammar α} {accepted : α → Prop}
    (here : Unconcerned grammar)
    (always : ∀ scope start value final, grammar.Finds scope start value final → accepted value) :
    Restricts accepted grammar := by
  intro terminator stops start value final
  rw [here.finds_strict_iff]
  exact ⟨fun found => ⟨found, always _ _ _ _ found⟩, And.left⟩

/-- What is found after something else is kept if both are, and shows it. -/
theorem restricts_bind {first : Grammar α} {second : α → Grammar β} {kept : α → Prop}
    {keptNow : α → β → Prop} {accepted : β → Prop} (here : Restricts kept first)
    (there : ∀ value, Restricts (keptNow value) (second value))
    (decides : ∀ found scope middle value final, (second found).Finds scope middle value final →
      (kept found ∧ keptNow found value ↔ accepted value)) :
    Restricts accepted (first >>= second) := by
  intro terminator stops start value final
  simp only [finds_bind_iff]
  constructor
  · rintro ⟨found, middle, reading, after⟩
    obtain ⟨reading, keeps⟩ := (here ..).mp reading
    obtain ⟨after, keepsNow⟩ := (there found ..).mp after
    exact ⟨⟨found, middle, reading, after⟩, (decides _ _ _ _ _ after).mp ⟨keeps, keepsNow⟩⟩
  · rintro ⟨⟨found, middle, reading, after⟩, accepts⟩
    obtain ⟨keeps, keepsNow⟩ := (decides _ _ _ _ _ after).mpr accepts
    exact ⟨found, middle, (here ..).mpr ⟨reading, keeps⟩, (there found ..).mpr ⟨after, keepsNow⟩⟩

/-- What comes first does not depend on strictness. -/
theorem restricts_after {first : Grammar α} {second : α → Grammar β} {accepted : β → Prop}
    (here : Unconcerned first) (there : ∀ value, Restricts accepted (second value)) :
    Restricts accepted (first >>= second) :=
  restricts_bind (here.restricts fun _ _ _ _ _ => trivial) there
    fun _ _ _ _ _ _ => and_iff_right trivial

/-- What comes after does not depend on strictness, and decides whether what came first is kept. -/
theorem restricts_before {first : Grammar α} {second : α → Grammar β} {kept : α → Prop}
    {accepted : β → Prop} (here : Restricts kept first)
    (there : ∀ value, Unconcerned (second value))
    (decides : ∀ found scope middle value final, (second found).Finds scope middle value final →
      (kept found ↔ accepted value)) :
    Restricts accepted (first >>= second) :=
  restricts_bind here (fun value => (there value).restricts fun _ _ _ _ _ => trivial)
    fun _ _ _ _ _ after => (and_iff_left trivial).trans (decides _ _ _ _ _ after)

theorem restricts_map {grammar : Grammar α} {change : α → β} {kept : α → Prop}
    {accepted : β → Prop} (here : Restricts kept grammar)
    (decides : ∀ value, kept value ↔ accepted (change value)) :
    Restricts accepted (do return change (← grammar)) := by
  refine restricts_before here (fun _ => .pure _) ?_
  intro found scope middle value final reading
  obtain ⟨rfl, -⟩ := finds_pure_iff.mp reading
  exact decides found

theorem restricts_ite {condition : Prop} [Decidable condition] {left right : Grammar α}
    {accepted : α → Prop} (ifTrue : Restricts accepted left) (ifFalse : Restricts accepted right) :
    Restricts accepted (if condition then left else right) := by
  split
  · exact ifTrue
  · exact ifFalse

theorem restricts_configured {second : Settings → Grammar α} {accepted : α → Prop}
    (same : ∀ left right, SameTerminator left right → second left = second right)
    (there : ∀ settings, Restricts accepted (second settings)) :
    Restricts accepted (settings >>= second) := by
  intro terminator stops start value final
  simp only [settings, finds_look_bind_iff]
  rw [same ⟨terminator, true⟩ ⟨terminator, false⟩ rfl]
  exact there _ ..

theorem restricts_withStops {grammar : Grammar α} {accepted : α → Prop} (words : List String)
    (here : Restricts accepted grammar) : Restricts accepted (grammar.withStops words) :=
  fun terminator stops => here terminator (stops.adding words)

/-- A repetition is kept if all that it finds is kept. -/
theorem restricts_many {item? : Grammar (Option α)} {accepted : α → Prop}
    (here : Restricts (fun found => ∀ value ∈ found, accepted value) item?) :
    Restricts (fun values => ∀ value ∈ values, accepted value) (many item? : Grammar (List α)) := by
  intro terminator stops start values final
  simp only [finds_many_iff]
  constructor
  · intro run
    induction run with
    | done none => exact ⟨.done ((here ..).mp none).1, by simp⟩
    | more found progress after ih =>
        obtain ⟨found, kept⟩ := (here ..).mp found
        exact ⟨.more found progress ih.1, List.forall_mem_cons.mpr ⟨kept _ rfl, ih.2⟩⟩
    | stuck found standstill =>
        obtain ⟨found, kept⟩ := (here ..).mp found
        exact ⟨.stuck found standstill, by simpa using kept⟩
  · rintro ⟨run, kept⟩
    induction run with
    | done none => exact .done ((here ..).mpr ⟨none, by simp⟩)
    | more found progress after ih =>
        obtain ⟨first, others⟩ := List.forall_mem_cons.mp kept
        exact .more ((here ..).mpr ⟨found, by simpa using first⟩) progress (ih others)
    | stuck found standstill =>
        exact .stuck ((here ..).mpr ⟨found, by simpa using kept⟩) standstill

theorem restricts_commaSeparated {item : Grammar α} {accepted : α → Prop}
    (here : Restricts accepted item) :
    Restricts (fun values => ∀ value ∈ values, accepted value) (commaSeparated item) := by
  have others : Restricts (fun values => ∀ value ∈ values, accepted value)
      (many do if ← consume "," then return some (← item) else return none : Grammar (List α)) := by
    refine restricts_many (restricts_after (composed_consume _) fun _ => ?_)
    refine restricts_ite (restricts_map here (by simp)) ?_
    exact Composed.restricts (.pure none) (by simp)
  have joined (first : α) : Restricts (fun values => ∀ value ∈ values.tail, accepted value) (do
      return first :: (← many do
        if ← consume "," then return some (← item) else return none)) :=
    restricts_map others fun _ => Iff.rfl
  refine restricts_bind here joined ?_
  intro first scope middle values final reading
  obtain ⟨rest, last, -, after⟩ := finds_bind_iff.mp reading
  obtain ⟨rfl, -⟩ := finds_pure_iff.mp after
  exact List.forall_mem_cons.symm

theorem restricts_parenthesized {opening closing : Fault} {item : Grammar α} {accepted : α → Prop}
    (here : Restricts accepted item) :
    Restricts (fun values => ∀ value ∈ values, accepted value)
      (parenthesized opening closing item) := by
  refine restricts_after (composed_expect _ _) fun _ => ?_
  refine restricts_before (restricts_commaSeparated here)
    (fun _ => .bind (composed_expect _ _) fun _ => .pure _) ?_
  intro found scope middle values final reading
  obtain ⟨-, rfl, -⟩ := by simpa using reading
  rfl

end Grammar

/-! ## Scripts -/

open Grammar

namespace Constraint

/-- The constraint is kept as text. -/
def IsUnsupported (constraint : Constraint) : Prop :=
  ∃ clause, constraint.body = .unsupported clause

theorem restricts_constraint :
    Restricts (fun constraint => ¬ constraint.IsUnsupported) Constraint.grammar := by
  refine restricts_after composed_constraintName? fun name => ?_
  refine restricts_after (composed_sees _) fun _ => restricts_ite ?_ ?_
  · refine Composed.restricts (.bind composed_foreignKey fun _ => .pure _) ?_
    intro scope start constraint final found
    obtain ⟨key, -, -, rfl, -⟩ := by simpa only [finds_bind_iff, finds_pure_iff] using found
    simp [IsUnsupported]
  · -- Only here strictness is looked at, and what is not refused is unsupported.
    intro terminator stops start constraint final
    simp only [settings, finds_look_bind_iff, if_true, finds_refuse_iff, false_iff, not_and,
      Classical.not_not]
    intro found
    obtain ⟨clause, -, -, rfl, -⟩ := by
      simpa only [Bool.false_eq_true, if_false, finds_bind_iff, finds_pure_iff] using found
    exact ⟨clause, rfl⟩

end Constraint

namespace TableElement

theorem restricts_element :
    Restricts (fun element => ∀ constraint ∈ constraints [element], ¬ constraint.IsUnsupported)
      TableElement.grammar := by
  refine restricts_after composed_keyword? fun word => ?_
  refine restricts_ite ?_ (restricts_ite ?_ ?_)
  · refine Composed.restricts (.bind Index.composed_index fun _ => .pure _) ?_
    intro scope start element final found
    obtain ⟨definition, -, -, rfl, -⟩ := by simpa only [finds_bind_iff, finds_pure_iff] using found
    simp [constraints]
  · exact restricts_map Constraint.restricts_constraint (by simp [constraints])
  · refine Composed.restricts (.bind Column.composed_column fun _ => .pure _) ?_
    intro scope start element final found
    obtain ⟨definition, -, -, rfl, -⟩ := by simpa only [finds_bind_iff, finds_pure_iff] using found
    simp [constraints]

theorem mem_constraints {constraint : Constraint} {elements : List TableElement} :
    constraint ∈ constraints elements ↔
      ∃ element ∈ elements, constraint ∈ constraints [element] := by
  simp [constraints]

theorem restricts_list :
    Restricts (fun elements => ∀ constraint ∈ constraints elements, ¬ constraint.IsUnsupported)
      TableElement.list := by
  intro terminator stops start elements final
  rw [list, restricts_parenthesized restricts_element]
  refine and_congr_right fun _ => ⟨fun kept constraint member => ?_, ?_⟩
  · obtain ⟨element, among, here⟩ := mem_constraints.mp member
    exact kept element among constraint here
  · exact fun kept element among constraint here =>
      kept constraint (mem_constraints.mpr ⟨element, among, here⟩)

end TableElement

namespace Table

/-- No constraint of the table is kept as text. -/
def OnlyForeignKeys (table : Table) : Prop :=
  ∀ constraint ∈ table.constraints, ¬ constraint.IsUnsupported

theorem restricts_table : Restricts OnlyForeignKeys Table.grammar := by
  refine restricts_after (composed_expect _ _) fun _ => ?_
  refine restricts_after (composed_consume _) fun _ => ?_
  refine restricts_after (composed_expect _ _) fun _ => ?_
  refine restricts_after composed_readIfNotExists fun _ => ?_
  refine restricts_after (.orRefuse _ composed_name) fun name => restricts_configured ?_ fun _ => ?_
  · intro left right same
    rw [same]
  have parts : Restricts
      (fun parts => ∀ constraint ∈ TableElement.constraints parts.1, ¬ constraint.IsUnsupported)
      definitionsAndTail := by
    refine restricts_before TableElement.restricts_list
      (fun _ => .bind composed_tail fun _ => .pure _) ?_
    intro elements scope middle parts final reading
    obtain ⟨tail, -, -, rfl, -⟩ := by simpa only [finds_bind_iff, finds_pure_iff] using reading
    rfl
  refine restricts_before (restricts_withStops _ parts) (fun parts => ?_) ?_
  · exact .bind (composed_atTerminator fun _ _ same => same) fun _ =>
      composed_ite (.pure _) composed_refuse_bind
  · rintro ⟨elements, tail⟩ scope middle table final reading
    simp only [atTerminator, finds_look_bind_iff] at reading
    split at reading
    · obtain ⟨rfl, -⟩ := finds_pure_iff.mp reading
      rfl
    · simp at reading

end Table

namespace Statement

theorem restricts_statement :
    Restricts (fun statement => ∀ table, statement = .createTable table → table.OnlyForeignKeys)
      Statement.grammar := by
  have terminator (left right : Settings) (same : SameTerminator left right) :
      left.terminator = right.terminator := same
  refine restricts_after (composed_sees _) fun _ => restricts_ite ?_ ?_
  · exact restricts_map Table.restricts_table (by simp)
  · refine restricts_after (composed_sees _) fun _ => restricts_ite ?_ ?_
    · have altered := AlterTable.composed_alterTable terminator
      refine Composed.restricts (.bind altered fun _ => .pure _) ?_
      intro scope start statement final found
      obtain ⟨alteration, -, -, rfl, -⟩ := by
        simpa only [finds_bind_iff, finds_pure_iff] using found
      simp
    · exact Composed.restricts (.refuse _) (by simp)

theorem restricts_script :
    Restricts
      (fun statements => ∀ statement ∈ statements, ∀ table, statement = .createTable table →
        table.OnlyForeignKeys) script := by
  have skipped : Unconcerned skipTerminators := composed_skipTerminators fun _ _ same => same
  refine restricts_many (restricts_after skipped fun _ => ?_)
  refine restricts_after composed_atEnd fun _ => restricts_ite ?_ ?_
  · exact Composed.restricts (.pure none) (by simp)
  · exact restricts_map restricts_statement (by simp)

/-- Strict settings accept exactly the scripts that are accepted without them and whose tables have
no constraint that is kept as text, and find the same statements. -/
theorem parseScript_strict_iff (terminator text : String) (statements : List Statement) :
    parseScript ⟨terminator, true⟩ text = .ok statements ↔
      parseScript ⟨terminator, false⟩ text = .ok statements ∧
        ∀ table, .createTable table ∈ statements → ∀ constraint ∈ table.constraints,
          ∀ clause, constraint.body ≠ .unsupported clause := by
  have kept : (∀ statement ∈ statements, ∀ table, statement = .createTable table →
      table.OnlyForeignKeys) ↔ ∀ table, .createTable table ∈ statements →
        ∀ constraint ∈ table.constraints, ∀ clause, constraint.body ≠ .unsupported clause := by
    simp only [Table.OnlyForeignKeys, Constraint.IsUnsupported, not_exists]
    exact ⟨fun all table member => all _ member table rfl,
      fun all statement member table same => all table (same ▸ member)⟩
  simp only [parseScript, parse_eq_ok_iff, restricts_script terminator, kept, ← and_assoc,
    exists_and_right]

end Statement

end TableDdl
