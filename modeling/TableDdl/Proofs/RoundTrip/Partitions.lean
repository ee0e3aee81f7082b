import TableDdl.Partition.Grammar
import TableDdl.Proofs.RoundTrip.Indexes

/-!
# Canonical partitionings are read back

A partitioning is canonical if each of its levels has what its kind needs and nothing else: a hash an
expression, a key columns, ranges and lists one of both. Only ranges and lists have definitions of
partitions, and only the table's level has an inner partitioning.
-/

namespace TableDdl

open Grammar
open Lexer hiding nameTokens
open Column (partTokens flagTokens numberToken)

variable {operand : Bool} {scope : Scope} {after : List Token}

namespace PartitionDefinition

/-- The definition of a partition that is read back from its text. -/
structure Canonical (definition : PartitionDefinition) : Prop where
  name : definition.name ≠ ""
  options : definition.options = []
  bounded : definition.boundKind.isSome = true ↔ definition.values ≠ []
  values : ∀ literal ∈ definition.values, literal.Canonical

/-- The tokens of a kind of bound. -/
def boundTokens : BoundKind → List Token
  | .lessThan => [.bare .word "LESS", .bare .word "THAN"]
  | .within => [.bare .word "IN"]

/-- The tokens of the definition of a partition. -/
def tokens (definition : PartitionDefinition) : List Token :=
  .bare .word "PARTITION" :: (nameTokens definition.name ++
    partTokens [.bare .word "VALUES"] (fun kind => boundTokens kind ++
      Token.enclosed Literal.tokens definition.values) definition.boundKind)

variable {definition : PartitionDefinition}

theorem Canonical.attached_values (canonical : definition.Canonical) :
    Attached (match definition.boundKind with
      | some kind =>
          " VALUES " ++ kind.render ++ " (" ++ Literal.renderAll ", " definition.values ++ ")"
      | none => "")
      (partTokens [.bare .word "VALUES"] (fun kind => boundTokens kind ++
        Token.enclosed Literal.tokens definition.values) definition.boundKind) := by
  cases definition.boundKind with
  | none => exact attached_empty
  | some kind =>
      have list : Attached (" (" ++ (Literal.renderAll ", " definition.values ++ ")"))
          (Token.enclosed Literal.tokens definition.values) :=
        Literal.attached_literals (by decide) (by decide) canonical.values
      have bound (operand : Bool) : Spelled operand kind.render (boundTokens kind) := by
        cases kind <;> exact spelled_plain (by decide)
      have whole : Attached (" VALUES " ++ (kind.render ++
          (" (" ++ (Literal.renderAll ", " definition.values ++ ")"))))
          ([.bare .word "VALUES"] ++ (boundTokens kind ++
            Token.enclosed Literal.tokens definition.values)) :=
        attached_closed (by decide) (by decide) fun operand => (bound _).attach list
      simp only [String.append_assoc]
      exact whole

/-- The canonical definition of a partition is read as its tokens. -/
theorem Canonical.spelled (canonical : definition.Canonical) :
    Spelled operand definition.render definition.tokens := by
  have start : Closed operand "PARTITION " [.bare .word "PARTITION"] := closed_plain (by decide)
  have name := start.append (spelled_quoteName definition.name)
  have whole := name.attach canonical.attached_values
  simp only [List.cons_append, List.nil_append] at whole
  exact whole

/-- What may follow the definition of a partition. -/
structure Followed (stops : Stops) (after : List Token) : Prop where
  ends : Ends (stops.adding [","]) after
  noValues : Unseen "VALUES" after

theorem reads_boundKind (kind : BoundKind) :
    readBoundKind.Reads scope (boundTokens kind ++ after) kind after := by
  unfold readBoundKind
  cases kind with
  | lessThan => exact reads_consume_ite (by decide) (reads_expect_bind (by decide) (reads_pure _))
  | within =>
      refine reads_consume_ite_unseen (unseen_cons (by decide)) ?_
      exact reads_consume_ite (by decide) (reads_pure _)

/-- The canonical definition of a partition is read from its tokens. -/
theorem Canonical.reads (canonical : definition.Canonical)
    (followed : Followed scope.stops after) :
    PartitionDefinition.grammar.Reads scope (definition.tokens ++ after) definition after := by
  obtain ⟨name, boundKind, values, options⟩ := definition
  obtain rfl : options = [] := canonical.options
  simp only [tokens, List.cons_append, List.append_assoc]
  refine reads_expect_bind (by decide) ((reads_name canonical.name).bind ?_)
  cases boundKind with
  | none =>
      have noValues : values = [] := by
        cases values with
        | nil => rfl
        | cons value others => exact absurd (canonical.bounded.mpr (by simp)) (by simp)
      subst noValues
      refine reads_consume_ite_unseen followed.noValues ?_
      exact (reads_skipTo followed.ends).bind (reads_pure _)
  | some kind =>
      have nonempty : values ≠ [] := canonical.bounded.mp rfl
      simp only [partTokens, List.cons_append, List.nil_append, List.append_assoc]
      refine reads_consume_ite (by decide) ((reads_boundKind kind).bind ?_)
      have list : valueList.Reads scope (Token.enclosed Literal.tokens values ++ after) values
          after := Column.reads_literals nonempty canonical.values
      have bound : (boundValues kind).Reads scope (Token.enclosed Literal.tokens values ++ after)
          values after := by
        refine reads_sees_bind_unseen (unseen_cons (by decide)) ?_
        rw [Bool.and_false]
        exact list
      exact bound.bind ((reads_skipTo followed.ends).bind (reads_pure _))

end PartitionDefinition

namespace PartitionClause

/-- The expression of a level: a text that is not empty and is read back. -/
structure IsFunction (text : String) : Prop where
  nonempty : text ≠ ""
  expression : Token.IsExpression text

/-- The level has what its kind needs to assign rows, and nothing else. -/
structure FitsKind (clause : PartitionClause) : Prop where
  byKey : clause.kind = .key → clause.expression = none ∧ clause.isColumns = false
  byHash : clause.kind = .hash → clause.expression.isSome = true
  byValues : clause.kind = .range ∨ clause.kind = .list →
    clause.expression.isSome = true ∨ clause.isColumns = true ∧ clause.columns ≠ []
  byExpression : clause.expression.isSome = true → clause.isColumns = false ∧ clause.columns = []
  algorithm : ∀ number ∈ clause.algorithm, clause.kind = .key ∧ (number = 1 ∨ number = 2)
  definitions : clause.definitions ≠ [] → clause.kind = .range ∨ clause.kind = .list

/-- A level of a partitioning that is read back from its text. -/
structure Canonical (clause : PartitionClause) : Prop where
  fits : clause.FitsKind
  function : ∀ text ∈ clause.expression, IsFunction text
  columns : ∀ column ∈ clause.columns, column ≠ ""
  definitions : ∀ definition ∈ clause.definitions, definition.Canonical

/-- The tokens of that by which rows are assigned. -/
def functionTokens (clause : PartitionClause) : List Token :=
  match clause.expression with
  | some text => Token.opening :: ((Token.read? text).getD [] ++ [Token.closing])
  | none => Token.enclosed nameTokens clause.columns

/-- The tokens of a level up to its number of partitions. -/
def headTokens (level : PartitionLevel) (clause : PartitionClause) : List Token :=
  .bare .word level.keyword :: .bare .word "BY" :: (flagTokens "LINEAR" clause.isLinear ++
    (.bare .word clause.kind.keyword :: (partTokens [.bare .word "ALGORITHM", .bare .equals "="]
      (fun number => [.bare .integer (Number.writeNat number.toNat)]) clause.algorithm ++
    (flagTokens "COLUMNS" clause.isColumns ++ (clause.functionTokens ++
      partTokens [.bare .word level.countKeyword] (fun count => [numberToken count])
        clause.count)))))

/-- The tokens of the definitions of a level. -/
def definitionTokens (clause : PartitionClause) : List Token :=
  if clause.definitions.isEmpty then []
  else Token.enclosed PartitionDefinition.tokens clause.definitions

variable {clause : PartitionClause}

theorem attached_function (canonical : clause.Canonical) :
    Attached (" (" ++ (clause.expression.getD (Text.quoteNames ", " clause.columns) ++ ")"))
      clause.functionTokens := by
  unfold functionTokens
  cases found : clause.expression with
  | none => exact Index.attached_names (by decide) (by decide)
  | some text =>
      obtain ⟨inner, lexes, -⟩ := exists_lexes_expression (canonical.function text found).expression
      have read : Token.read? text = some inner := by
        have closed := lexes [] gap_nil
        rw [List.append_nil] at closed
        exact Token.read?_eq_some_iff.mpr closed
      have spelled : Spelled false text inner := lexes
      have whole : Attached (" (" ++ (text ++ ")"))
          ([Token.opening] ++ (inner ++ [Token.closing])) := by
        refine attached_closed (by decide) (by decide) fun operand => ?_
        exact (spelled.append_closed (closed_plain (by decide)) (by decide)).spelled
      simp only [read, Option.getD_some]
      exact whole

theorem attached_algorithm (algorithm : Option UInt8) :
    Attached (match algorithm with
      | some algorithm => " ALGORITHM = " ++ Number.writeNat algorithm.toNat
      | none => "")
      (partTokens [.bare .word "ALGORITHM", .bare .equals "="]
        (fun number => [.bare .integer (Number.writeNat number.toNat)]) algorithm) := by
  cases algorithm with
  | none => exact attached_empty
  | some number =>
      have whole : Attached (" ALGORITHM = " ++ Number.writeNat number.toNat)
          ([.bare .word "ALGORITHM", .bare .equals "="] ++
            [.bare .integer (Number.writeNat number.toNat)]) :=
        attached_closed (by decide) (by decide) fun _ => spelled_writeNat number.toNat
      exact whole

theorem attached_count (level : PartitionLevel) (count : Option UInt32) :
    Attached (match count with
      | some count => " " ++ level.keyword ++ "S " ++ Number.writeNat count.toNat
      | none => "")
      (partTokens [.bare .word level.countKeyword] (fun count => [numberToken count]) count) := by
  cases count with
  | none => exact attached_empty
  | some count =>
      have start (operand : Bool) : Closed operand (" " ++ level.keyword ++ "S ")
          [.bare .word level.countKeyword] := by
        cases level <;> exact closed_plain (by decide)
      refine ⟨fun operand => (start operand).append (spelled_writeNat count.toNat), ?_⟩
      simp only [String.append_assoc]
      exact gapped_append (by decide)

/-- A canonical level is read as its tokens. -/
theorem Canonical.spelled_head (canonical : clause.Canonical) (level : PartitionLevel) :
    Spelled operand (clause.renderHead level.keyword) (headTokens level clause) := by
  have start : Closed operand (level.keyword ++ " BY ")
      [.bare .word level.keyword, .bare .word "BY"] := by
    cases level <;> exact closed_plain (by decide)
  have linear (operand : Bool) : Closed operand (if clause.isLinear then "LINEAR " else "")
      (flagTokens "LINEAR" clause.isLinear) := by
    cases clause.isLinear with
    | false => exact closed_empty
    | true => exact closed_plain (by decide)
  have kind (operand : Bool) : Spelled operand clause.kind.keyword
      [.bare .word clause.kind.keyword] := by
    cases clause.kind <;> exact spelled_plain (by decide)
  have columns : Attached (if clause.isColumns then " COLUMNS" else "")
      (flagTokens "COLUMNS" clause.isColumns) := by
    cases clause.isColumns with
    | false => exact attached_empty
    | true => exact attached_open (by decide) (by decide)
  have whole := ((start.append_closed (linear _)).append (kind _)).attach
    ((attached_algorithm clause.algorithm).append (columns.append
    ((attached_function canonical).append (attached_count level clause.count))))
  simp only [String.append_assoc, List.append_assoc, List.cons_append, List.nil_append] at whole
  unfold renderHead headTokens
  simp only [String.append_assoc]
  exact whole

theorem Canonical.attached_definitions (canonical : clause.Canonical) :
    Attached clause.renderDefinitions clause.definitionTokens := by
  unfold renderDefinitions definitionTokens
  cases empty : clause.definitions.isEmpty with
  | true => exact attached_empty
  | false =>
      have list (operand : Bool) : Closed operand
          (" (\n" ++ ",\n".intercalate (clause.definitions.map PartitionDefinition.render) ++ "\n)")
          (Token.enclosed PartitionDefinition.tokens clause.definitions ++ []) :=
        closed_enclosed (by decide) (by decide) (by decide) (by decide) (by decide)
          fun definition member => (canonical.definitions definition member).spelled
      rw [List.append_nil] at list
      refine ⟨fun operand => (list operand).spelled, ?_⟩
      simp only [Bool.false_eq_true, if_false, String.append_assoc]
      exact gapped_append (by decide)

/-! ## Reading a level -/

theorem reads_kind {level : PartitionLevel} {kind : PartitionKind} (known : kind ∈ level.kinds) :
    (readKind level).Reads scope (.bare .word kind.keyword :: after) kind after := by
  have found : (level.kinds.find? fun other => decide (Token.keyword? (.bare .word kind.keyword) =
      some other.keyword)) = some kind := by
    revert known
    cases level <;> cases kind <;> decide
  refine reads_keyword?_bind ?_
  rw [found]
  exact reads_advance_bind (reads_pure kind)

theorem reads_algorithm? {algorithm : Option UInt8}
    (known : ∀ number ∈ algorithm, number = 1 ∨ number = 2)
    (unseen : Unseen "ALGORITHM" after) :
    algorithm?.Reads scope (partTokens [.bare .word "ALGORITHM", .bare .equals "="]
      (fun number => [.bare .integer (Number.writeNat number.toNat)]) algorithm ++ after) algorithm
      after := by
  cases algorithm with
  | none => exact reads_consume_ite_unseen unseen (reads_pure none)
  | some number =>
      refine reads_consume_ite (by decide) (reads_expect_bind (by decide) ?_)
      refine reads_current_bind (fun _ => rfl) ?_
      rcases known number rfl with rfl | rfl
      · have one : Number.writeNat (1 : UInt8).toNat = "1" := by decide
        rw [one]
        exact reads_advance_bind (reads_pure _)
      · have two : Number.writeNat (2 : UInt8).toNat = "2" := by decide
        rw [two]
        exact reads_advance_bind (reads_pure _)

theorem reads_keyColumns {columns : List String} (names : ∀ column ∈ columns, column ≠ "") :
    keyColumns.Reads scope (Token.enclosed nameTokens columns ++ after) columns after := by
  cases columns with
  | nil =>
      refine reads_sees_bind (by decide) (reads_nextSees_bind (by decide) ?_)
      exact reads_advance_bind (reads_advance_bind (reads_pure []))
  | cons column others =>
      have first : ∃ more, Token.separated nameTokens (column :: others) =
          nameTokens column ++ more := by
        cases others with
        | nil => exact ⟨[], (List.append_nil _).symm⟩
        | cons next others => exact ⟨_, rfl⟩
      obtain ⟨more, first⟩ := first
      have noClosing : Unseen ")" (Token.separated nameTokens (column :: others) ++
          [Token.closing] ++ after) := by
        rw [first, nameTokens_eq (names column (by simp))]
        exact unseen_cons (by decide)
      have list : Grammar.names.Reads scope
          (Token.enclosed nameTokens (column :: others) ++ after) (column :: others) after :=
        reads_names (by simp) names
      refine reads_sees_bind (by decide) (reads_nextSees_bind_unseen noClosing ?_)
      exact list

/-- The part of a level by which rows are assigned. -/
def assignment (clause : PartitionClause) : PartitionClause :=
  { kind := clause.kind, isColumns := clause.isColumns, expression := clause.expression
    columns := clause.columns, algorithm := clause.algorithm }

theorem reads_expression {text : String} (isFunction : IsFunction text) :
    readExpression.Reads scope
      (Token.opening :: ((Token.read? text).getD [] ++ [Token.closing]) ++ after) text after := by
  obtain ⟨inner, lexes, written, balanced, notEnd⟩ := exists_lexes_expression isFunction.expression
  have read : Token.read? text = some inner := by
    have closed := lexes [] gap_nil
    rw [List.append_nil] at closed
    exact Token.read?_eq_some_iff.mpr closed
  have nonempty : text.isEmpty = false := by simpa using isFunction.nonempty
  rw [read, Option.getD_some, List.cons_append, List.append_assoc]
  refine (reads_group notEnd balanced).bind ?_
  rw [written, nonempty]
  exact reads_pure text

theorem Canonical.reads_function (canonical : clause.Canonical) :
    (readFunction clause.kind).Reads scope
      (partTokens [.bare .word "ALGORITHM", .bare .equals "="]
        (fun number => [.bare .integer (Number.writeNat number.toNat)]) clause.algorithm ++
      (flagTokens "COLUMNS" clause.isColumns ++ (clause.functionTokens ++ after))) clause.assignment
      after := by
  have fits := canonical.fits
  by_cases isKey : clause.kind = .key
  · obtain ⟨noExpression, noColumns⟩ := fits.byKey isKey
    have tokens : clause.functionTokens = Token.enclosed nameTokens clause.columns := by
      simp [functionTokens, noExpression]
    have same : clause.assignment =
        { kind := .key, algorithm := clause.algorithm, columns := clause.columns } := by
      simp [assignment, isKey, noExpression, noColumns]
    rw [noColumns, isKey, same, tokens]
    refine (reads_algorithm? (fun number found => (fits.algorithm number found).2)
      (unseen_cons (by decide))).bind ?_
    refine reads_sees_bind_unseen (unseen_cons (by decide)) ?_
    exact (reads_keyColumns canonical.columns).bind (reads_pure _)
  · have noAlgorithm : clause.algorithm = none := by
      cases found : clause.algorithm with
      | none => rfl
      | some number => exact absurd (fits.algorithm number found).1 isKey
    rw [noAlgorithm]
    cases found : clause.expression with
    | some text =>
        obtain ⟨noColumns, noNames⟩ := fits.byExpression (by rw [found]; rfl)
        have tokens : clause.functionTokens =
            Token.opening :: ((Token.read? text).getD [] ++ [Token.closing]) := by
          simp [functionTokens, found]
        have same : clause.assignment = { kind := clause.kind, expression := some text } := by
          simp [assignment, found, noColumns, noNames, noAlgorithm]
        have expression : readExpression.Reads scope
            (Token.opening :: ((Token.read? text).getD [] ++ [Token.closing]) ++ after) text after :=
          reads_expression (canonical.function text found)
        rw [noColumns, same, tokens]
        cases kind : clause.kind with
        | key => exact absurd kind isKey
        | hash | range | list =>
            refine reads_sees_bind_unseen (unseen_cons (by decide)) ?_
            exact expression.bind (reads_pure _)
    | none =>
        have byValues : clause.kind = .range ∨ clause.kind = .list := by
          cases kind : clause.kind with
          | key => exact absurd kind isKey
          | hash => exact absurd (fits.byHash kind) (by simp [found])
          | range => exact .inl rfl
          | list => exact .inr rfl
        obtain ⟨isColumns, nonempty⟩ := (fits.byValues byValues).resolve_left (by simp [found])
        have tokens : clause.functionTokens = Token.enclosed nameTokens clause.columns := by
          simp [functionTokens, found]
        have same : clause.assignment =
            { kind := clause.kind, isColumns := true, columns := clause.columns } := by
          simp [assignment, found, isColumns, noAlgorithm]
        have list : Grammar.names.Reads scope
            (Token.enclosed nameTokens clause.columns ++ after) clause.columns after :=
          reads_names nonempty canonical.columns
        rw [isColumns, same, tokens]
        rcases byValues with kind | kind
        all_goals
          rw [kind]
          refine reads_sees_bind (by decide) ?_
          exact reads_advance_bind (list.bind (reads_pure _))

theorem unseen_head {text : String} (level : PartitionLevel)
    (other : Token.spells (.bare .word level.keyword) text = false) :
    Unseen text (headTokens level clause ++ after) :=
  unseen_cons other

/-- A canonical level is read from its tokens up to its definitions. -/
theorem Canonical.reads_head (canonical : clause.Canonical) {level : PartitionLevel}
    (known : clause.kind ∈ level.kinds) (noCount : Unseen level.countKeyword after) :
    (head level).Reads scope (headTokens level clause ++ after) { clause with definitions := [] }
      after := by
  have noLinear : Token.spells (.bare .word clause.kind.keyword) "LINEAR" = false := by
    cases clause.kind <;> decide
  have keyword : Token.spells (.bare .word level.keyword) level.keyword = true := by
    cases level <;> decide
  simp only [headTokens, List.cons_append, List.append_assoc]
  refine reads_expect_bind keyword (reads_expect_bind (by decide) ?_)
  refine (Column.reads_flag (by decide) (unseen_cons noLinear)).bind ?_
  refine (reads_kind known).bind (canonical.reads_function.bind ?_)
  cases clause.count with
  | none => exact reads_consume_bind_unseen noCount ((reads_pure none).bind (reads_pure _))
  | some count =>
      have spelled : Token.spells (.bare .word level.countKeyword) level.countKeyword = true := by
        cases level <;> decide
      refine reads_consume_bind spelled ?_
      exact ((Column.reads_unsigned _ count).map some).bind (reads_pure _)

theorem unseen_definitions {text : String} (clause : PartitionClause)
    (other : Token.opening.spells text = false) (unseen : Unseen text after) :
    Unseen text (clause.definitionTokens ++ after) := by
  unfold definitionTokens
  split
  · exact unseen
  · exact unseen_cons other

/-- The definitions of a canonical level are read from their tokens, and none where there are
none. -/
theorem Canonical.reads_definitions (canonical : clause.Canonical) (noOpening : Unseen "(" after)
    {β : Type} {second : List PartitionDefinition → Grammar β} {value : β} {final : List Token}
    (there : (second clause.definitions).Reads scope after value final) :
    (do if clause.kind.hasDefinitions && (← sees "(") then PartitionDefinition.list >>= second
        else pure [] >>= second : Grammar β).Reads scope (clause.definitionTokens ++ after) value
      final := by
  unfold definitionTokens
  cases found : clause.definitions with
  | nil =>
      rw [found] at there
      refine reads_sees_bind_unseen noOpening ?_
      rw [Bool.and_false]
      exact (reads_pure []).bind there
  | cons definition others =>
      rw [found] at there
      have hasDefinitions : clause.kind.hasDefinitions = true := by
        rcases canonical.fits.definitions (by simp [found]) with kind | kind <;> rw [kind] <;> rfl
      have list : PartitionDefinition.list.Reads scope
          (Token.enclosed PartitionDefinition.tokens (definition :: others) ++ after)
          (definition :: others) after := by
        refine reads_parenthesized (PartitionDefinition.Followed scope.stops) (by simp)
          (fun value member after followed => ?_) ⟨fun rest => ?_, ?_⟩
        · exact (canonical.definitions value (found ▸ member)).reads followed
        · exact ⟨ends_comma _ _, unseen_cons (by decide)⟩
        · exact ⟨ends_closing _ _, unseen_cons (by decide)⟩
      refine reads_sees_bind (by decide) ?_
      rw [hasDefinitions]
      exact list.bind there

end PartitionClause

namespace Partitioning

open PartitionClause (headTokens definitionTokens)

/-- A partitioning that is read back from its text. -/
inductive Canonical : Partitioning → Prop where
  | single {clause : PartitionClause} (canonical : clause.Canonical) : Canonical (.single clause)
  | nested {clause inner : PartitionClause} (canonical : clause.Canonical)
      (innerCanonical : inner.Canonical) (kind : inner.kind = .hash ∨ inner.kind = .key)
      (noDefinitions : inner.definitions = []) : Canonical (.nested clause (.single inner))

/-- The tokens of a partitioning. -/
def tokens : Partitioning → List Token
  | single clause => headTokens .table clause ++ clause.definitionTokens
  | nested clause inner =>
      headTokens .table clause ++ (headTokens .partitions inner.clause ++ clause.definitionTokens)

theorem exists_tokens_eq (partitioning : Partitioning) :
    ∃ others, partitioning.tokens = .bare .word "PARTITION" :: .bare .word "BY" :: others := by
  cases partitioning with
  | single clause => exact ⟨_, rfl⟩
  | nested clause inner => exact ⟨_, rfl⟩

variable {partitioning : Partitioning}

/-- A canonical partitioning is read as its tokens. -/
theorem Canonical.spelled (canonical : partitioning.Canonical) :
    Spelled operand partitioning.render partitioning.tokens := by
  cases canonical with
  | single canonical => exact (canonical.spelled_head .table).attach canonical.attached_definitions
  | @nested clause inner canonical innerCanonical kind noDefinitions =>
      have none : inner.renderDefinitions = "" := by
        simp [PartitionClause.renderDefinitions, noDefinitions]
      have between : Attached (" " ++ inner.renderHead PartitionLevel.partitions.keyword)
          ([] ++ headTokens .partitions inner) :=
        attached_closed (by decide) (by decide) fun _ => innerCanonical.spelled_head .partitions
      have head : Spelled operand _ _ := canonical.spelled_head .table
      have whole := head.attach (between.append canonical.attached_definitions)
      simp only [List.nil_append] at whole
      unfold render renderAs renderAs
      rw [none, String.append_empty]
      simp only [String.append_assoc] at whole ⊢
      exact whole

theorem attached_part (partitioning : Option Partitioning) :
    (∀ value ∈ partitioning, value.Canonical) →
    Attached (match partitioning with
      | some partitioning => "\n" ++ partitioning.render
      | none => "") (partTokens [] Partitioning.tokens partitioning) := by
  intro canonical
  cases partitioning with
  | none => exact attached_empty
  | some partitioning =>
      have part : Attached ("\n" ++ partitioning.render) ([] ++ partitioning.tokens) :=
        attached_closed (by decide) (by decide) fun _ => (canonical partitioning rfl).spelled
      exact part

/-- The words and marks that may not follow a partitioning. -/
def followers : List String := ["PARTITIONS", "SUBPARTITIONS", "SUBPARTITION", "("]

/-- A canonical partitioning is read from its tokens. -/
theorem Canonical.reads (canonical : partitioning.Canonical)
    (followed : ∀ text ∈ followers, Unseen text after) :
    Partitioning.grammar.Reads scope (partitioning.tokens ++ after) partitioning after := by
  have others : ∀ text ∈ ["PARTITIONS", "SUBPARTITIONS", "SUBPARTITION"],
      Token.opening.spells text = false := by decide
  have noOpening : Unseen "(" after := followed _ (by simp [followers])
  have unseen (clause : PartitionClause) : ∀ text ∈ ["PARTITIONS", "SUBPARTITIONS", "SUBPARTITION"],
      Unseen text (clause.definitionTokens ++ after) := fun text member =>
    PartitionClause.unseen_definitions clause (others text member)
      (followed text (List.mem_append_left ["("] member))
  have allKinds : ∀ kind : PartitionKind, kind ∈ PartitionLevel.table.kinds := by
    intro kind
    cases kind <;> decide
  cases canonical with
  | @single clause canonical =>
      simp only [tokens, List.append_assoc]
      refine (canonical.reads_head (allKinds _) (unseen clause "PARTITIONS" (by simp))).bind ?_
      refine reads_sees_bind_unseen (unseen clause "SUBPARTITION" (by simp)) ?_
      exact (reads_pure none).bind (canonical.reads_definitions noOpening (reads_pure _))
  | @nested clause inner canonical innerCanonical kind noDefinitions =>
      have innerKind : inner.kind ∈ PartitionLevel.partitions.kinds := by
        rcases kind with kind | kind <;> rw [kind] <;> decide
      have same : { inner with definitions := [] } = inner := by rw [← noDefinitions]
      have innerReads : innerGrammar.Reads scope
          (headTokens .partitions inner ++ (clause.definitionTokens ++ after)) (.single inner)
          (clause.definitionTokens ++ after) := by
        have reads : (PartitionClause.head .partitions).Reads scope _ _ _ :=
          innerCanonical.reads_head innerKind (unseen clause "SUBPARTITIONS" (by simp))
        rw [same] at reads
        exact reads.bind (reads_pure _)
      simp only [tokens, List.append_assoc]
      refine (canonical.reads_head (allKinds _)
        (PartitionClause.unseen_head .partitions (by decide))).bind ?_
      refine reads_sees_bind (by decide) ?_
      refine (innerReads.map some).bind ?_
      exact canonical.reads_definitions noOpening (reads_pure _)

end Partitioning

end TableDdl
