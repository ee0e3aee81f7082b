import TableDdl.Proofs.Lockstep.Definitions

/-!
# Statements read in lockstep

Partitionings, clauses of alterations, tables and whole scripts are found alike on both sequences,
and with them every part of a statement. Among the grammars, only the one of table options before
an action looks behind the token on which it stops; the action that has to follow lies there.
-/

namespace TableDdl

open Grammar

variable {pace : Lockstep} {scope : Scope}

/-! ## Partitionings -/

namespace PartitionDefinition

theorem matches_readBoundKind : Matches pace scope id readBoundKind readBoundKind := by
  refine matches_consume_ite (matches_expect_bind (matches_pure rfl)) ?_
  exact matches_consume_ite (matches_pure rfl) (matches_refuse _)

theorem matches_valueList :
    Matches pace scope (List.map (Literal.mapTexts pace.folding.fold)) valueList valueList :=
  matches_parenthesized Literal.matches_literal

theorem matches_boundValues (kind : BoundKind) :
    Matches pace scope (List.map (Literal.mapTexts pace.folding.fold)) (boundValues kind)
      (boundValues kind) := by
  intro start startRight abreast
  refine matchesAt_look_bind ?_
  rw [← abreast.current.spells]
  by_cases unbounded : (kind = .lessThan && start.current.spells "MAXVALUE") = true
  · simp only [unbounded, if_true]
    rw [Bool.and_eq_true] at unbounded
    exact matchesAt_advance_bind abreast (isEnd_of_spells unbounded.2) (matches_pure rfl)
  · simp only [unbounded]
    exact matches_valueList start startRight abreast

theorem matches_definition :
    Matches pace scope (mapTexts pace.folding.fold) PartitionDefinition.grammar
      PartitionDefinition.grammar := by
  refine matches_expect_bind (matches_bind matches_name fun name nameRight same => ?_)
  refine matches_consume_ite ?_ ?_
  · refine matches_bind_id matches_readBoundKind fun kind => ?_
    refine matches_bind (matches_boundValues kind) fun values valuesRight sameValues => ?_
    refine matches_bind_id (matches_skipTo _) fun _ => matches_pure ?_
    simp only [mapTexts, same, sameValues]
  · refine matches_bind_id (matches_skipTo _) fun _ => matches_pure ?_
    simp only [mapTexts, same]

theorem matches_list :
    Matches pace scope (List.map (mapTexts pace.folding.fold)) list list :=
  matches_parenthesized matches_definition

end PartitionDefinition

namespace PartitionClause

theorem matches_readKind (level : PartitionLevel) :
    Matches pace scope id (readKind level) (readKind level) := by
  refine matches_keyword?_bind (fun word start startRight abreast isWord => ?_) ?_
  · split
    · exact matchesAt_advance_bind abreast (isEnd_of_keyword? isWord) (matches_pure rfl)
    · exact matches_refuse _ start startRight abreast
  · cases level <;> exact matches_refuse _

theorem matches_algorithm? : Matches pace scope id algorithm? algorithm? := by
  refine matches_consume_ite (matches_expect_bind ?_) (matches_pure rfl)
  intro start startRight abreast
  refine matchesAt_look_bind ?_
  rw [← abreast.current.kind]
  by_cases isNumber : start.current.kind = .integer
  · rw [← abreast.current.verbatim (by simp [isNumber])]
    have inside := isEnd_of_kind isNumber (by decide)
    split
    · exact matchesAt_advance_bind abreast inside (matches_pure rfl)
    · split
      · exact matchesAt_advance_bind abreast inside (matches_pure rfl)
      · exact matches_refuse _ start startRight abreast
  · simp only [isNumber, false_and, if_false]
    exact matches_refuse _ start startRight abreast

theorem progresses_keyColumns : Progresses keyColumns := by
  intro scope start columns final found
  simp only [keyColumns, sees, nextSees, finds_look_bind_iff] at found
  split at found
  · rename_i both
    rw [Bool.and_eq_true] at both
    rw [finds_advance_bind_iff] at found
    exact Nat.lt_of_le_of_lt found.remaining_le (remaining_advance_lt (isEnd_of_spells both.1))
  · exact progresses_parenthesized _ _ _ _ _ _ _ found

/-- The columns of a key begin at a parenthesis that is moved past, so that the token behind it is
compared. -/
theorem matches_keyColumns :
    Matches pace scope (List.map pace.folding.fold) keyColumns keyColumns := by
  intro start startRight abreast covers
  have within := covers.within_advance progresses_keyColumns
  revert covers
  show MatchesAt pace scope _ keyColumns keyColumns start startRight
  refine matchesAt_look_bind (matchesAt_look_bind ?_)
  rw [← abreast.current.spells]
  cases opens : start.current.spells "(" with
  | false => exact matches_names start startRight abreast
  | true =>
      have inside := isEnd_of_spells opens
      rw [← (abreast.next inside within).spells]
      cases closes : start.next.spells ")" with
      | false => exact matches_names start startRight abreast
      | true =>
          refine matchesAt_advance_bind_of abreast inside fun abreast => ?_
          exact matchesAt_advance_bind abreast (isEnd_of_spells closes) (matches_pure rfl)

theorem matches_readExpression :
    Matches pace scope pace.folding.fold readExpression readExpression := by
  refine matches_bind matches_group fun text textRight same => ?_
  rw [← pace.folding.isEmpty_eq same]
  exact matches_ite (matches_refuse _) (matches_pure same)

theorem matches_readFunction (kind : PartitionKind) :
    Matches pace scope (mapTexts pace.folding.fold) (readFunction kind) (readFunction kind) := by
  have byColumns : Matches pace scope (mapTexts pace.folding.fold)
      (do return { kind, isColumns := true, columns := ← names })
      (do return { kind, isColumns := true, columns := ← names }) :=
    matches_bind matches_names fun columns columnsRight same =>
      matches_pure (by simp only [mapTexts, same])
  have byExpression : Matches pace scope (mapTexts pace.folding.fold)
      (do return { kind, expression := some (← readExpression) })
      (do return { kind, expression := some (← readExpression) }) :=
    matches_bind matches_readExpression fun text textRight same =>
      matches_pure (by simp only [mapTexts, Option.map_some, same])
  have advancing (start startRight : Cursor) (abreast : pace.Abreast start startRight)
      (spelled : start.current.spells "COLUMNS" = true) :
      MatchesAt pace scope (mapTexts pace.folding.fold)
        (do advance; return { kind, isColumns := true, columns := ← names })
        (do advance; return { kind, isColumns := true, columns := ← names }) start startRight :=
    matchesAt_advance_bind abreast (isEnd_of_spells spelled) byColumns
  cases kind with
  | key =>
      refine matches_bind_id matches_algorithm? fun algorithm => ?_
      refine matches_sees_bind fun _ => matches_ite matches_refuse_bind ?_
      exact matches_bind matches_keyColumns fun columns columnsRight same =>
        matches_pure (by simp only [mapTexts, same])
  | hash => exact matches_sees_ite matches_refuse_bind byExpression
  | range | list =>
      intro start startRight abreast
      refine matchesAt_look_bind ?_
      rw [← abreast.current.spells]
      cases spelled : start.current.spells "COLUMNS" with
      | false => exact byExpression start startRight abreast
      | true => exact advancing start startRight abreast spelled

theorem matches_head (level : PartitionLevel) :
    Matches pace scope (mapTexts pace.folding.fold) (head level) (head level) := by
  refine matches_expect_bind (matches_expect_bind (matches_consume_bind fun isLinear => ?_))
  refine matches_bind_id (matches_readKind level) fun kind => ?_
  refine matches_bind (matches_readFunction kind) fun clause clauseRight same => ?_
  have counted (count : Option UInt32) :
      { clause with isLinear, count }.mapTexts pace.folding.fold =
        { clauseRight with isLinear, count }.mapTexts pace.folding.fold :=
    congrArg (fun view => { view with isLinear, count }) same
  refine matches_consume_ite ?_ (matches_pure (counted none))
  exact matches_bind_id (matches_map (matches_unsigned _) fun _ _ same => congrArg some same)
    fun count => matches_pure (counted count)

end PartitionClause

namespace Partitioning

theorem matches_inner :
    Matches pace scope (mapTexts pace.folding.fold) innerGrammar innerGrammar :=
  matches_bind (PartitionClause.matches_head .partitions) fun _ _ same =>
    matches_pure (congrArg single same)

theorem mapTexts_ofClause (change : String → String) (clause : PartitionClause)
    (inner : Option Partitioning) :
    (ofClause clause inner).mapTexts change =
      ofClause (clause.mapTexts change) (inner.map (mapTexts change)) := by
  cases inner <;> rfl

theorem matches_partitioning :
    Matches pace scope (mapTexts pace.folding.fold) Partitioning.grammar Partitioning.grammar := by
  refine matches_bind (PartitionClause.matches_head .table) fun clause clauseRight same => ?_
  have defined {definitions definitionsRight : List PartitionDefinition}
      {inner innerRight : Option Partitioning}
      (sameDefinitions : definitions.map (PartitionDefinition.mapTexts pace.folding.fold) =
        definitionsRight.map (PartitionDefinition.mapTexts pace.folding.fold))
      (sameInner : inner.map (mapTexts pace.folding.fold) =
        innerRight.map (mapTexts pace.folding.fold)) :
      (ofClause { clause with definitions } inner).mapTexts pace.folding.fold =
        (ofClause { clauseRight with definitions := definitionsRight } innerRight).mapTexts
          pace.folding.fold := by
    rw [mapTexts_ofClause, mapTexts_ofClause, sameInner]
    exact congrArg₂ (fun view definitions => ofClause { view with definitions } _) same
      sameDefinitions
  have afterInner {inner innerRight : Option Partitioning}
      (sameInner : inner.map (mapTexts pace.folding.fold) =
        innerRight.map (mapTexts pace.folding.fold)) :
      Matches pace scope (mapTexts pace.folding.fold)
        (do
          let definitions ← if clause.kind.hasDefinitions && (← sees "(") then
              PartitionDefinition.list
            else
              pure []
          return ofClause { clause with definitions } inner)
        (do
          let definitions ← if clauseRight.kind.hasDefinitions && (← sees "(") then
              PartitionDefinition.list
            else
              pure []
          return ofClause { clauseRight with definitions } innerRight) := by
    have sameKind : clause.kind.hasDefinitions = clauseRight.kind.hasDefinitions :=
      congrArg (fun view => view.kind.hasDefinitions) same
    rw [← sameKind]
    refine matches_sees_bind fun opens => matches_ite ?_ (matches_pure (defined rfl sameInner))
    exact matches_bind PartitionDefinition.matches_list fun _ _ sameDefinitions =>
      matches_pure (defined sameDefinitions sameInner)
  refine matches_sees_ite ?_ (afterInner rfl)
  refine matches_bind (matches_map matches_inner fun _ _ same => ?_) fun _ _ => afterInner
  exact congrArg some same

end Partitioning

/-! ## Alterations -/

theorem Rename.matches_rename :
    Matches pace scope (mapTexts pace.folding.fold) Rename.grammar Rename.grammar := by
  refine matches_bind matches_name fun oldName oldNameRight sameOld => matches_expect_bind ?_
  refine matches_bind matches_name fun newName newNameRight sameNew => matches_pure ?_
  simp only [mapTexts, sameOld, sameNew]

namespace AlterOption

theorem matches_readAction : Matches pace scope id readAction readAction := by
  refine matches_keyword?_bind (fun word start startRight abreast isWord => ?_) (matches_refuse _)
  split
  · exact matchesAt_advance_bind abreast (isEnd_of_keyword? isWord) (matches_pure rfl)
  · exact matches_refuse _ start startRight abreast

theorem matches_afterRole (role : IndexRole) :
    Matches pace scope id (afterRole role) (afterRole role) := by
  cases role with
  | primary | foreign => exact matches_expect _ _
  | fulltext | spatial => exact matches_consumeAny_ite (matches_pure rfl) (matches_refuse _)
  | unique => exact matches_consumeAny_bind fun _ => matches_pure rfl

theorem matches_readTarget (action : AlterAction) :
    Matches pace scope id (readTarget action) (readTarget action) := by
  intro start startRight abreast
  refine matchesAt_look_bind ?_
  rw [← abreast.current.keyword?]
  dsimp only
  split
  · exact matchesAt_pure abreast rfl
  · refine matchesAt_look_bind ?_
    rw [← abreast.current.spells]
    split
    · exact matchesAt_pure abreast rfl
    · cases word : start.current.keyword?.bind TargetWord.ofWord? with
      | none =>
          refine matchesAt_refuse abreast ?_
          refine pace.folding.append_congr ?_ rfl
          exact pace.folding.append_congr rfl abreast.current.text
      | some target =>
          obtain ⟨text, isWord, -⟩ := Option.bind_eq_some_iff.mp word
          refine matchesAt_advance_bind abreast (isEnd_of_keyword? isWord) ?_
          cases target with
          | column | table => exact matches_pure rfl
          | index role =>
              cases role with
              | none => exact matches_pure rfl
              | some role => exact matches_bind_id (matches_afterRole role) fun _ => matches_pure rfl
          | constraint | partition => exact matches_refuse _

theorem matches_positionedColumn :
    Matches pace scope (Column.mapTexts pace.folding.fold) positionedColumn positionedColumn := by
  refine matches_bind matches_name fun name nameRight sameName => ?_
  refine matches_bind (matches_withStops (Column.matches_afterName sameName))
    fun column columnRight same => matches_consume_ite ?_ (matches_consume_ite ?_ ?_)
  · exact matches_pure (congrArg (fun view => { view with position := some .first }) same)
  · refine matches_bind matches_name fun after afterRight sameAfter => matches_pure ?_
    exact congrArg₂ (fun view after => { view with position := some (.after after) }) same sameAfter
  · exact matches_pure same

theorem matches_columnGroup :
    Matches pace scope (List.map (Column.mapTexts pace.folding.fold)) columnGroup columnGroup :=
  matches_parenthesized matches_positionedColumn

theorem matches_droppedName (role : Option IndexRole) :
    Matches pace scope pace.folding.fold (droppedName role) (droppedName role) := by
  have named : Matches pace scope pace.folding.fold (do return foreignKeyMark ++ (← Grammar.name))
      (do return foreignKeyMark ++ (← Grammar.name)) :=
    matches_bind matches_name fun _ _ same => matches_pure (pace.folding.append_congr rfl same)
  cases role with
  | none => exact matches_name
  | some role =>
      cases role with
      | primary => exact matches_pure rfl
      | foreign => exact named
      | unique | fulltext | spatial => exact matches_name

theorem matches_readPayload (action : AlterAction) (target : AlterTarget)
    (role : Option IndexRole) :
    Matches pace scope (AlterPayload.mapTexts pace.folding.fold) (readPayload action target role)
      (readPayload action target role) := by
  have oneColumn : Matches pace scope (AlterPayload.mapTexts pace.folding.fold)
      (do return .column (← positionedColumn)) (do return .column (← positionedColumn)) :=
    matches_bind matches_positionedColumn fun _ _ same =>
      matches_pure (congrArg AlterPayload.column same)
  have dropped : Matches pace scope (AlterPayload.mapTexts pace.folding.fold)
      (do return .name (← droppedName role)) (do return .name (← droppedName role)) :=
    matches_bind (matches_droppedName role) fun _ _ same =>
      matches_pure (congrArg AlterPayload.name same)
  have renamed : Matches pace scope (AlterPayload.mapTexts pace.folding.fold)
      (do return .rename (← Rename.grammar)) (do return .rename (← Rename.grammar)) :=
    matches_bind Rename.matches_rename fun _ _ same =>
      matches_pure (congrArg AlterPayload.rename same)
  unfold readPayload
  split
  · refine matches_sees_ite ?_ oneColumn
    exact matches_bind matches_columnGroup fun _ _ same =>
      matches_pure (congrArg AlterPayload.columns same)
  · exact matches_bind (Index.matches_body role) fun _ _ same =>
      matches_pure (congrArg AlterPayload.index same)
  · exact dropped
  · exact dropped
  · exact renamed
  · exact renamed
  · exact matches_bind matches_name fun _ _ same => matches_pure (congrArg AlterPayload.name same)
  · refine matches_bind matches_name fun oldName oldNameRight sameOld => ?_
    refine matches_bind matches_positionedColumn fun column columnRight same => matches_pure ?_
    exact congrArg₂ AlterPayload.changeColumn sameOld same
  · exact oneColumn
  · exact matches_refuse _

theorem matches_afterOptions {options optionsRight : List TableOption}
    (sameOptions : options.map (TableOption.mapTexts pace.folding.fold) =
      optionsRight.map (TableOption.mapTexts pace.folding.fold)) :
    Matches pace scope (mapTexts pace.folding.fold)
      (do
        let action ← readAction
        if action = .rename && !(← seesAny renameWords) then
          return ⟨.table, action, .name (← Grammar.name), options⟩
        else
          let (target, role) ← readTarget action
          return ⟨target, action, ← readPayload action target role, options⟩)
      (do
        let action ← readAction
        if action = .rename && !(← seesAny renameWords) then
          return ⟨.table, action, .name (← Grammar.name), optionsRight⟩
        else
          let (target, role) ← readTarget action
          return ⟨target, action, ← readPayload action target role, optionsRight⟩) := by
  refine matches_bind_id matches_readAction fun action => ?_
  refine matches_seesAny_bind fun seen => matches_ite ?_ ?_
  · refine matches_bind matches_name fun name nameRight sameName => matches_pure ?_
    simp only [mapTexts, AlterPayload.mapTexts, sameName, sameOptions]
  · refine matches_bind_id (matches_readTarget action) fun found => ?_
    obtain ⟨target, role⟩ := found
    refine matches_bind (matches_readPayload action target role)
      fun payload payloadRight samePayload => matches_pure ?_
    simp only [mapTexts, samePayload, sameOptions]

/-- The table options before an action are followed by the action, so that there is a token behind
the one on which they stop. -/
theorem matches_alterOption :
    Matches pace scope (mapTexts pace.folding.fold) AlterOption.grammar AlterOption.grammar := by
  refine matches_bind_further (fun whole => ?_) ?_ (fun _ _ => matches_afterOptions)
    fun options => progresses_readAction.bind _
  · exact TableOption.matches_options fun _ _ abreast => abreast.next_of_whole whole
  · exact TableOption.matches_options fun _ _ abreast => abreast.next_of_further

end AlterOption

namespace AlterTable

theorem matches_atClausesEnd : Matches pace scope id atClausesEnd atClausesEnd :=
  matches_atTerminator_bind fun _ => matches_sees_bind fun _ => matches_pure rfl

theorem matches_clauses :
    Matches pace scope (List.map (AlterOption.mapTexts pace.folding.fold)) clauses clauses := by
  have others : Matches pace scope (Option.map (AlterOption.mapTexts pace.folding.fold))
      (do
        if ← consume "," then
          if ← atClausesEnd then return none else return some (← AlterOption.grammar)
        else
          return none)
      (do
        if ← consume "," then
          if ← atClausesEnd then return none else return some (← AlterOption.grammar)
        else
          return none) := by
    refine matches_consume_ite ?_ (matches_pure rfl)
    refine matches_bind_id matches_atClausesEnd fun _ => matches_ite (matches_pure rfl) ?_
    exact matches_bind AlterOption.matches_alterOption fun _ _ same =>
      matches_pure (congrArg some same)
  refine matches_bind_id matches_atClausesEnd fun _ => matches_ite (matches_pure rfl) ?_
  refine matches_bind AlterOption.matches_alterOption fun first firstRight same => ?_
  refine matches_bind (matches_many others) fun rest restRight sameRest => matches_pure ?_
  simp only [List.map_cons, same, sameRest]

theorem matches_alterTable :
    Matches pace scope (mapTexts pace.folding.fold) AlterTable.grammar AlterTable.grammar := by
  refine matches_expect_bind (matches_expect_bind ?_)
  refine matches_bind matches_name fun tableName tableNameRight sameName => ?_
  refine matches_settings_bind ?_
  refine matches_bind (matches_withStops matches_clauses) fun options optionsRight sameOptions => ?_
  have noOptions : options.isEmpty = optionsRight.isEmpty := by
    simpa using congrArg List.isEmpty sameOptions
  have afterPartitioning {partitioning partitioningRight : Option Partitioning}
      (same : partitioning.map (Partitioning.mapTexts pace.folding.fold) =
        partitioningRight.map (Partitioning.mapTexts pace.folding.fold)) :
      Matches pace scope (mapTexts pace.folding.fold)
        (do
          unless ← atTerminator do refuse (.expected "\",\" or end of ALTER TABLE statement")
          if options.isEmpty && partitioning.isNone then refuse (.expected "ALTER TABLE clause")
          return { tableName, options, partitioning })
        (do
          unless ← atTerminator do refuse (.expected "\",\" or end of ALTER TABLE statement")
          if optionsRight.isEmpty && partitioningRight.isNone then
            refuse (.expected "ALTER TABLE clause")
          return {
            tableName := tableNameRight, options := optionsRight
            partitioning := partitioningRight }) := by
    have noPartitioning : partitioning.isNone = partitioningRight.isNone := by
      simpa using congrArg Option.isNone same
    rw [← noOptions, ← noPartitioning]
    refine matches_atTerminator_bind fun _ => matches_ite ?_ matches_refuse_bind
    refine matches_ite matches_refuse_bind (matches_pure ?_)
    simp only [mapTexts, sameName, sameOptions, same]
  refine matches_sees_ite ?_ (afterPartitioning rfl)
  refine matches_bind (matches_map Partitioning.matches_partitioning fun _ _ same => ?_)
    fun _ _ => afterPartitioning
  exact congrArg some same

end AlterTable

/-! ## Tables -/

namespace TableElement

theorem matches_element :
    Matches pace scope (mapTexts pace.folding.fold) TableElement.grammar TableElement.grammar := by
  refine matches_look_bind (fun _ _ abreast => abreast.current.keyword?) fun word => ?_
  refine matches_ite ?_ (matches_ite ?_ ?_)
  · exact matches_bind Index.matches_index fun _ _ same => matches_pure (congrArg index same)
  · exact matches_bind Constraint.matches_constraint fun _ _ same =>
      matches_pure (congrArg constraint same)
  · exact matches_bind Column.matches_column fun _ _ same => matches_pure (congrArg column same)

theorem matches_list :
    Matches pace scope (List.map (mapTexts pace.folding.fold)) list list :=
  matches_parenthesized matches_element

end TableElement

namespace Table

/-- The options of a table with all their texts changed. -/
def Tail.mapTexts (change : String → String) (tail : Tail) : Tail :=
  ⟨tail.comment.map change, tail.partitioning.map (Partitioning.mapTexts change)⟩

theorem matchesAt_readOption {tail tailRight : Tail}
    (same : tail.mapTexts pace.folding.fold = tailRight.mapTexts pace.folding.fold)
    {start startRight : Cursor} (abreast : pace.Abreast start startRight)
    (inside : start.current.isEnd = false) (within : pace.Within start.advance) :
    MatchesAt pace scope (Prod.map id (Tail.mapTexts pace.folding.fold)) (readOption tail)
      (readOption tailRight) start startRight := by
  refine matchesAt_consume_ite abreast (matches_consume_bind fun _ => ?_) ?_
  · refine Column.matches_quotedString fun token tokenRight text => matches_pure ?_
    rw [text]
    exact congrArg (fun view : Tail => (true, { view with
      comment := some (pace.folding.fold tokenRight.text) })) same
  · refine matchesAt_look_bind (matchesAt_look_bind ?_)
    rw [← abreast.current.spells, ← (abreast.next inside within).spells]
    split
    · refine matchesAt_bind (Partitioning.matches_partitioning start startRight abreast)
        fun partitioning partitioningRight samePartitioning => matches_pure ?_
      exact congrArg₂ (fun (view : Tail) partitioning => (true, { view with
        partitioning := some partitioning })) same samePartitioning
    · exact matchesAt_pure abreast (congrArg (fun view => (false, view)) same)

theorem matches_tail : Matches pace scope (Tail.mapTexts pace.folding.fold) tail tail := by
  refine matches_scan (honest_outside ?_) (visitsMatch_outside ?_) rfl
  · intro tail scope start changed final found
    cases readsOption_of_finds found
    rfl
  · intro tail tailRight same start startRight abreast inside within
    exact matchesAt_readOption same abreast inside within

theorem matches_definitionsAndTail :
    Matches pace scope
      (Prod.map (List.map (TableElement.mapTexts pace.folding.fold))
        (Tail.mapTexts pace.folding.fold)) definitionsAndTail definitionsAndTail := by
  refine matches_bind TableElement.matches_list fun elements elementsRight sameElements => ?_
  refine matches_bind matches_tail fun tail tailRight sameTail => matches_pure ?_
  exact Prod.ext sameElements sameTail

theorem matches_readIfNotExists : Matches pace scope id readIfNotExists readIfNotExists :=
  matches_consume_ite (matches_expect_bind (matches_expect_bind (matches_pure rfl)))
    (matches_pure rfl)

end Table

theorem TableElement.columns_mapTexts (change : String → String) (elements : List TableElement) :
    columns (elements.map (mapTexts change)) = (columns elements).map (Column.mapTexts change) := by
  induction elements with
  | nil => rfl
  | cons element others ih =>
      cases element <;> simp_all [columns, mapTexts]

theorem TableElement.indexes_mapTexts (change : String → String) (elements : List TableElement) :
    indexes (elements.map (mapTexts change)) = (indexes elements).map (Index.mapTexts change) := by
  induction elements with
  | nil => rfl
  | cons element others ih =>
      cases element <;> simp_all [indexes, mapTexts]

theorem TableElement.constraints_mapTexts (change : String → String)
    (elements : List TableElement) :
    constraints (elements.map (mapTexts change)) =
      (constraints elements).map (Constraint.mapTexts change) := by
  induction elements with
  | nil => rfl
  | cons element others ih =>
      cases element <;> simp_all [constraints, mapTexts]

theorem Table.matches_table :
    Matches pace scope (mapTexts pace.folding.fold) Table.grammar Table.grammar := by
  refine matches_expect_bind (matches_consume_bind fun isTemporary => matches_expect_bind ?_)
  refine matches_bind_id matches_readIfNotExists fun ifNotExists => ?_
  refine matches_bind (matches_orRefuse matches_name) fun name nameRight sameName => ?_
  refine matches_settings_bind ?_
  refine matches_bind (matches_withStops matches_definitionsAndTail)
    fun parts partsRight same => ?_
  obtain ⟨elements, tail⟩ := parts
  obtain ⟨elementsRight, tailRight⟩ := partsRight
  obtain ⟨sameElements, sameTail⟩ := Prod.mk.inj same
  obtain ⟨sameComment, samePartitioning⟩ := Tail.mk.inj sameTail
  refine matches_atTerminator_bind fun _ => matches_ite (matches_pure ?_) matches_refuse_bind
  simp only [mapTexts, ← TableElement.columns_mapTexts, ← TableElement.indexes_mapTexts,
    ← TableElement.constraints_mapTexts, sameName, sameElements, sameComment, samePartitioning]

/-! ## Scripts -/

theorem Grammar.matches_skipTerminators :
    Matches pace scope id skipTerminators skipTerminators := by
  refine matches_bind_id (matches_many_id ?_) fun _ => matches_pure rfl
  refine matches_atEnd_bind fun _ => matches_ite (matches_pure rfl) (matches_settings_bind ?_)
  exact matches_consume_ite (matches_pure rfl) (matches_pure rfl)

namespace Statement

theorem matches_statement :
    Matches pace scope (mapTexts pace.folding.fold) Statement.grammar Statement.grammar := by
  refine matches_sees_ite ?_ (matches_sees_ite ?_ (matches_refuse _))
  · exact matches_bind Table.matches_table fun _ _ same => matches_pure (congrArg createTable same)
  · exact matches_bind AlterTable.matches_alterTable fun _ _ same =>
      matches_pure (congrArg alterTable same)

theorem matches_script :
    Matches pace scope (List.map (mapTexts pace.folding.fold)) script script := by
  refine matches_many (matches_bind_id matches_skipTerminators fun _ => ?_)
  refine matches_atEnd_bind fun _ => matches_ite (matches_pure rfl) ?_
  exact matches_bind matches_statement fun _ _ same => matches_pure (congrArg some same)

end Statement

/-! ## Parts -/

theorem Part.matches_grammar (part : Part) :
    Matches pace scope (part.mapTexts pace.folding.fold) part.grammar part.grammar := by
  cases part with
  | column => exact Column.matches_column
  | index => exact Index.matches_index
  | constraint => exact Constraint.matches_constraint
  | tableOption => exact TableOption.matches_tableOption
  | rename => exact Rename.matches_rename
  | partitioning => exact Partitioning.matches_partitioning
  | innerPartitioning => exact Partitioning.matches_inner
  | alterOption => exact AlterOption.matches_alterOption
  | alterTable => exact AlterTable.matches_alterTable
  | table => exact Table.matches_table

end TableDdl
