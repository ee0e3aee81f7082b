import Mathlib.Logic.Basic
import TableDdl.Partition.Grammar
import TableDdl.Proofs.Grammar.Parse
import TableDdl.Proofs.Grammar.Yields

/-!
# The shape of partitionings

Which fields of a partitioning are filled depends on its kind and on its level. A hash has an
expression, a key has columns, and ranges and lists have one of the two. Only a key says a version of
its hash, and only ranges and lists have definitions. What divides the partitions is a hash or a key
that is not divided again. Every partitioning that is read has this shape, whatever the tokens are
from which it is read.
-/

namespace TableDdl

open Grammar

variable {sort : Token → Prop}

/-! ## Definitions of partitions -/

namespace PartitionDefinition

/-- There are values exactly if it is said how they are given, and options are passed over. -/
structure Shaped (definition : PartitionDefinition) : Prop where
  /-- There are no options. -/
  options : definition.options = []
  /-- The values belong to the kind of bound. -/
  values : definition.values ≠ [] ↔ definition.boundKind.isSome = true

theorem yields_boundValues (kind : BoundKind) : Yields sort (· ≠ []) (boundValues kind) := by
  refine yields_after fun seen => yields_ite ?_ yields_parenthesized_ne_nil
  exact yields_after fun _ => yields_pure (List.cons_ne_nil _ _)

theorem yields_definition : Yields sort Shaped PartitionDefinition.grammar := by
  refine yields_after fun _ => yields_after fun name => yields_after fun bounded => yields_ite ?_ ?_
  · refine yields_after fun kind => yields_bind (yields_boundValues kind) fun values nonempty => ?_
    exact yields_after fun _ => yields_pure ⟨rfl, iff_of_true nonempty rfl⟩
  · exact yields_after fun _ => yields_pure ⟨rfl, by simp⟩

theorem yields_list : Yields sort (fun definitions => ∀ definition ∈ definitions, definition.Shaped)
    PartitionDefinition.list :=
  (yields_parenthesized yields_definition).mono fun _ found => found.2

end PartitionDefinition

/-! ## Levels -/

namespace PartitionClause

/-- Rows are assigned by an expression with a text. -/
def ByExpression (clause : PartitionClause) : Prop :=
  (∃ text ≠ "", clause.expression = some text) ∧ clause.isColumns = false ∧ clause.columns = []

/-- Rows are assigned by at least one column, and columns are compared by themselves. -/
def ByColumns (clause : PartitionClause) : Prop :=
  clause.columns ≠ [] ∧ clause.isColumns = true ∧ clause.expression = none

/-- The level has what its kind needs to assign rows, and nothing else. -/
structure Shaped (clause : PartitionClause) : Prop where
  /-- A key has nothing but columns, of which there may be none. -/
  byKey : clause.kind = .key → clause.expression = none ∧ clause.isColumns = false
  /-- A hash has an expression. -/
  byHash : clause.kind = .hash → clause.ByExpression
  /-- Ranges and lists have an expression or columns, and not both. -/
  byValues : clause.kind = .range ∨ clause.kind = .list →
    Xor clause.ByExpression clause.ByColumns
  /-- Only a key says a version of its hash, of which there are two. -/
  algorithm : ∀ number ∈ clause.algorithm, clause.kind = .key ∧ (number = 1 ∨ number = 2)
  /-- Only ranges and lists are defined one by one. -/
  defined : clause.definitions ≠ [] → clause.kind = .range ∨ clause.kind = .list
  /-- The definitions have their shape. -/
  definitions : ∀ definition ∈ clause.definitions, definition.Shaped

variable {clause : PartitionClause}

theorem ByExpression.not_byColumns (byExpression : clause.ByExpression) : ¬ clause.ByColumns := by
  intro byColumns
  have same := byExpression.2.1.symm.trans byColumns.2.1
  exact Bool.noConfusion same

/-- The level says how rows of the kind are assigned, and has no definitions yet. -/
structure Assigns (kind : PartitionKind) (clause : PartitionClause) : Prop extends Shaped clause where
  /-- The kind of the level. -/
  kind : clause.kind = kind
  /-- Nothing is defined. -/
  undefined : clause.definitions = []

theorem Shaped.withDefinitions (shaped : clause.Shaped) {definitions : List PartitionDefinition}
    (defined : definitions ≠ [] → clause.kind = .range ∨ clause.kind = .list)
    (each : ∀ definition ∈ definitions, definition.Shaped) :
    Shaped { clause with definitions } :=
  ⟨shaped.byKey, shaped.byHash, shaped.byValues, shaped.algorithm, defined, each⟩

theorem yields_algorithm? :
    Yields sort (fun algorithm => ∀ number ∈ algorithm, number = 1 ∨ number = 2) algorithm? := by
  refine yields_after fun said => yields_ite ?_ yields_none
  refine yields_after fun _ => yields_after fun token => yields_ite ?_ (yields_ite ?_ ?_)
  · exact yields_after fun _ => yields_pure (by simp)
  · exact yields_after fun _ => yields_pure (by simp)
  · exact yields_refuse _

theorem yields_readExpression : Yields sort (· ≠ "") readExpression := by
  refine yields_after fun text => ?_
  by_cases empty : text.isEmpty = true
  · rw [if_pos empty]
    exact yields_refuse _
  · rw [if_neg empty]
    exact yields_pure (by simpa using empty)

/-- An expression is all that a level of another kind than a key needs. -/
theorem assigns_expression {kind : PartitionKind} {text : String} (noKey : kind ≠ .key)
    (nonempty : text ≠ "") : Assigns kind { kind, expression := some text } := by
  have byExpression : ByExpression { kind, expression := some text } :=
    ⟨⟨text, nonempty, rfl⟩, rfl, rfl⟩
  refine ⟨⟨fun isKey => absurd isKey noKey, fun _ => byExpression, fun _ => ?_, nofun,
    fun some => absurd rfl some, nofun⟩, rfl, rfl⟩
  exact .inl ⟨byExpression, byExpression.not_byColumns⟩

/-- Columns are all that ranges and lists need. -/
theorem assigns_columns {kind : PartitionKind} {columns : List String}
    (byValues : kind = .range ∨ kind = .list) (nonempty : columns ≠ []) :
    Assigns kind { kind, isColumns := true, columns } := by
  have byColumns : ByColumns { kind, isColumns := true, columns } := ⟨nonempty, rfl, rfl⟩
  refine ⟨⟨?_, ?_, fun _ => ?_, nofun, fun some => absurd rfl some, nofun⟩, rfl, rfl⟩
  · rintro rfl
    simp at byValues
  · rintro rfl
    simp at byValues
  · exact .inr ⟨byColumns, fun byExpression => byExpression.not_byColumns byColumns⟩

theorem assigns_key {algorithm : Option UInt8} {columns : List String}
    (known : ∀ number ∈ algorithm, number = 1 ∨ number = 2) :
    Assigns .key { kind := .key, algorithm, columns } :=
  ⟨⟨fun _ => ⟨rfl, rfl⟩, nofun, fun byValues => by simp at byValues,
    fun number member => ⟨rfl, known number member⟩, fun some => absurd rfl some, nofun⟩, rfl, rfl⟩

theorem yields_readFunction (kind : PartitionKind) :
    Yields sort (Assigns kind) (readFunction kind) := by
  have expression (noKey : kind ≠ .key) : Yields sort (Assigns kind) (do
      return { kind, expression := some (← readExpression) : PartitionClause }) :=
    yields_bind yields_readExpression fun _ nonempty =>
      yields_pure (assigns_expression noKey nonempty)
  have columns (byValues : kind = .range ∨ kind = .list) : Yields sort (Assigns kind) (do
      advance
      return { kind, isColumns := true, columns := ← names : PartitionClause }) :=
    yields_after fun _ => yields_bind yields_parenthesized_ne_nil fun _ nonempty =>
      yields_pure (assigns_columns byValues nonempty)
  cases kind with
  | key =>
      refine yields_bind yields_algorithm? fun algorithm known => yields_after fun misplaced => ?_
      refine yields_ite yields_refuse_bind ?_
      exact yields_after fun _ => yields_pure (assigns_key known)
  | hash => exact yields_after fun _ => yields_ite yields_refuse_bind (expression (by decide))
  | range => exact yields_after fun _ => yields_ite (columns (.inl rfl)) (expression (by decide))
  | list => exact yields_after fun _ => yields_ite (columns (.inr rfl)) (expression (by decide))

theorem yields_readKind (level : PartitionLevel) :
    Yields sort (· ∈ level.kinds) (readKind level) := by
  refine yields_after fun word => ?_
  cases known : level.kinds.find? fun kind => word = some kind.keyword with
  | none => exact yields_refuse _
  | some kind => exact yields_after fun _ => yields_pure (List.mem_of_find?_eq_some known)

/-- A level has a kind that there is at it, and no definitions up to its number of partitions. -/
theorem yields_head (level : PartitionLevel) :
    Yields sort (fun clause => ∃ kind ∈ level.kinds, Assigns kind clause)
      (PartitionClause.head level) := by
  have counted {kind : PartitionKind} {clause : PartitionClause} (isLinear : Bool)
      (count : Option UInt32) (assigns : Assigns kind clause) :
      Assigns kind { clause with isLinear, count } :=
    ⟨⟨assigns.byKey, assigns.byHash, assigns.byValues, assigns.algorithm, assigns.defined,
      assigns.definitions⟩, assigns.kind, assigns.undefined⟩
  refine yields_after fun _ => yields_after fun _ => yields_after fun isLinear => ?_
  refine yields_bind (yields_readKind level) fun kind known => ?_
  refine yields_bind (yields_readFunction kind) fun clause assigns => yields_after fun said => ?_
  refine yields_ite ?_ ?_
  · exact yields_after fun count => yields_pure ⟨kind, known, counted isLinear count assigns⟩
  · exact yields_after fun count => yields_pure ⟨kind, known, counted isLinear count assigns⟩

end PartitionClause

/-! ## Both levels -/

namespace Partitioning

/-- A hash or a key that is not divided again and defines no partitions. -/
structure DividesPartitions (partitioning : Partitioning) : Prop where
  /-- The level has its shape. -/
  clause : partitioning.clause.Shaped
  /-- The kind is one of two. -/
  kind : partitioning.clause.kind = .hash ∨ partitioning.clause.kind = .key
  /-- Nothing is divided again. -/
  undivided : partitioning.inner? = none
  /-- Nothing is defined. -/
  undefined : partitioning.clause.definitions = []

/-- Both levels have their shape. -/
structure Shaped (partitioning : Partitioning) : Prop where
  /-- The table's level. -/
  clause : partitioning.clause.Shaped
  /-- The level of the partitions, if there is one. -/
  inner : ∀ inner ∈ partitioning.inner?, inner.DividesPartitions

theorem yields_innerGrammar : Yields sort DividesPartitions innerGrammar := by
  refine yields_bind (PartitionClause.yields_head .partitions) fun clause shaped => yields_pure ?_
  obtain ⟨kind, known, assigns⟩ := shaped
  refine ⟨assigns.toShaped, ?_, rfl, assigns.undefined⟩
  rw [← assigns.kind] at known
  simp only [PartitionLevel.kinds, List.mem_cons, List.not_mem_nil, or_false] at known
  exact known

theorem hasDefinitions_iff {kind : PartitionKind} :
    kind.hasDefinitions = true ↔ kind = .range ∨ kind = .list := by
  cases kind <;> decide

/-- Definitions are read only for a kind that has them. -/
theorem yields_definitions {β : Type} {holds : β → Prop} (kind : PartitionKind)
    {next : List PartitionDefinition → Grammar β}
    (there : ∀ definitions, (definitions ≠ [] → kind = .range ∨ kind = .list) →
      (∀ definition ∈ definitions, definition.Shaped) → Yields sort holds (next definitions)) :
    Yields sort holds (do
      if kind.hasDefinitions && (← sees "(") then next (← PartitionDefinition.list)
      else next (← pure [])) := by
  have undefined : Yields sort holds ((pure [] : Grammar (List PartitionDefinition)) >>= next) :=
    there [] (absurd rfl) (by simp)
  refine yields_after fun opened => ?_
  -- Without this case split, nothing would be known of the kind where definitions are read.
  by_cases defines : kind.hasDefinitions = true
  · refine yields_ite (yields_bind PartitionDefinition.yields_list ?_) undefined
    exact fun definitions => there definitions fun _ => hasDefinitions_iff.mp defines
  · simp only [defines, Bool.false_and, Bool.false_eq_true, if_false]
    exact undefined

theorem shaped_ofClause {clause : PartitionClause} (shaped : clause.Shaped)
    {inner? : Option Partitioning} (divides : ∀ inner ∈ inner?, inner.DividesPartitions) :
    (ofClause clause inner?).Shaped := by
  cases inner? with
  | none => exact ⟨shaped, nofun⟩
  | some inner => exact ⟨shaped, divides⟩

theorem yields_partitioning : Yields sort Shaped Partitioning.grammar := by
  refine yields_bind (PartitionClause.yields_head .table) fun clause assigned => ?_
  obtain ⟨kind, -, assigns⟩ := assigned
  have there (inner? : Option Partitioning) (divides : ∀ inner ∈ inner?, inner.DividesPartitions) :
      Yields sort Shaped (do
        let definitions ← if clause.kind.hasDefinitions && (← sees "(") then
            PartitionDefinition.list
          else
            pure []
        return ofClause { clause with definitions } inner?) :=
    yields_definitions clause.kind fun definitions defined shaped =>
      yields_pure (shaped_ofClause (assigns.toShaped.withDefinitions defined shaped) divides)
  refine yields_after fun divided => yields_ite ?_ ?_
  · exact yields_bind (yields_some yields_innerGrammar) there
  · exact there none nofun

/-- Every partitioning that is read has the fields of its kind and no others, whatever the tokens
are, and what divides its partitions is a hash or a key with the fields of its own kind. -/
theorem shaped_of_finds {scope : Scope} {start final : Cursor} {partitioning : Partitioning}
    (found : Partitioning.grammar.Finds scope start partitioning final) : partitioning.Shaped :=
  yields_partitioning scope start partitioning final (fun _ _ => trivial) found

/-- The partitions of ranges of two columns are divided by a key without columns of its own. -/
theorem shaped_of_finds_divided :
    let text := "PARTITION BY RANGE COLUMNS (a, b) SUBPARTITION BY KEY ALGORITHM = 2 ()" ++
      " (PARTITION p VALUES LESS THAN (1, 'x'), PARTITION q VALUES LESS THAN MAXVALUE)"
    let key : PartitionClause := { kind := .key, algorithm := some 2 }
    let ranges : PartitionClause :=
      { kind := .range, isColumns := true, columns := ["a", "b"],
        definitions := [⟨"p", some .lessThan, [.integer 1, .string "x"], []⟩,
          ⟨"q", some .lessThan, [.raw "MAXVALUE"], []⟩] }
    let partitioning := nested ranges (single key)
    ∃ tokens final, Token.tokenize text = .ok tokens ∧
      Partitioning.grammar.Finds ⟨.standard, .none⟩ (Cursor.ofTokens tokens) partitioning final ∧
      partitioning.Shaped := by
  intro text key ranges partitioning
  have read : Partitioning.grammar.parse .standard text = .ok partitioning :=
    eq_ok_of_toOption (by decide +kernel)
  obtain ⟨tokens, final, lexed, found⟩ := parse_eq_ok_iff.mp read
  exact ⟨tokens, final, lexed, found, shaped_of_finds found⟩

end Partitioning

end TableDdl
