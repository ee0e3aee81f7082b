import TableDdl.Proofs.Extension.Statements
import TableDdl.Proofs.Nesting.Steps

/-!
# Semicolons outside all parentheses

Every part of a statement closes the parentheses that it opens, and outside of them it does not read
past a semicolon. So a semicolon outside all parentheses that lies ahead of a statement still lies
ahead of the cursor at which the statement ends.
-/

namespace TableDdl

open Grammar

variable {rest : List Token} {scope : Scope} {depth : Nat}

/-! ## Names and literals -/

namespace Grammar

theorem heeds_name? : Heeds rest scope depth depth name? := by
  refine heeds_consume_ite (by decide) ?_ ?_
  · refine heeds_seesKind_bind (by decide) (heedsElsewhere_take fun _ => ?_) heeds_refuse_bind
    exact (heeds_expect (by decide)).map _
  · refine heeds_seesKind_bind (by decide) ?_ (heeds_look_bind fun _ => heeds_pure _)
    refine heedsElsewhere_look_bind fun atStop => ?_
    split
    · exact heedsElsewhere_take fun _ => heeds_pure _
    · exact (heeds_pure _).elsewhere

theorem heeds_name : Heeds rest scope depth depth name := by
  refine heeds_name?.bind fun found => ?_
  cases found with
  | some name => exact heeds_pure name
  | none => exact heeds_refuse _

theorem heeds_nameOrString : Heeds rest scope depth depth nameOrString :=
  heeds_seesKind_bind (by decide) (heedsElsewhere_take fun _ => heeds_pure _) heeds_name

theorem heeds_names : Heeds rest scope depth depth names := heeds_parenthesized heeds_name

theorem heeds_unsigned (what : String) : Heeds rest scope depth depth (unsigned what) := by
  refine heeds_seesKind_bind (by decide) ?_ heeds_refuse_bind
  refine heedsElsewhere_look_bind fun token => ?_
  cases Number.uint32? token.text with
  | some value => exact heedsElsewhere_advance_bind (heeds_pure value)
  | none => exact (heeds_refuse _).elsewhere

theorem heeds_literal : Heeds rest scope depth depth Literal.grammar := by
  refine heeds_current_bind (fun token nests => ?_) fun token other => ?_
  · cases kind : token.kind with
    | leftParen => exact heeds_group.map _
    | rightParen | semicolon => exact heeds_refuse _
    | _ => simp [kind, Token.Kind.nests] at nests
  · cases kind : token.kind with
    | integer | float | quotedString | binaryLiteral =>
        exact heedsElsewhere_advance_bind (heeds_pure _)
    | word =>
        refine heedsElsewhere_advance_bind (heeds_look_bind fun _ => heeds_ite ?_ (heeds_pure _))
        exact heeds_group.map _
    | leftParen => simp [kind, Token.Kind.nests] at other
    | _ => exact (heeds_refuse _).elsewhere

end Grammar

/-! ## Columns -/

namespace Column

theorem heeds_width? : Heeds rest scope depth depth width? :=
  heeds_opening_ite ((heeds_unsigned _).bind fun _ => heeds_closing.map _) (heeds_pure none)

theorem heeds_withPrecision (column : Column) :
    Heeds rest scope depth depth column.withPrecision := by
  refine heeds_opening_ite ((heeds_unsigned _).bind fun width => ?_) (heeds_pure column)
  refine (heeds_consume (by decide)).bind fun seen => heeds_ite ?_ ?_
  · exact ((heeds_unsigned _).map _).bind fun _ => heeds_closing.map _
  · exact (heeds_pure none).bind fun _ => heeds_closing.map _

theorem heeds_withFlags (column : Column) : Heeds rest scope depth depth column.withFlags := by
  refine (heeds_many ?_).map _
  refine heeds_consume_ite (by decide) (heeds_pure _) ?_
  refine heeds_consume_ite (by decide) (heeds_pure _) ?_
  exact heeds_consume_ite (by decide) (heeds_pure _) (heeds_pure none)

theorem heeds_withParameters (column : Column) :
    Heeds rest scope depth depth column.withParameters := by
  unfold withParameters
  cases TypeFamily.ofName column.typeName with
  | integer => exact heeds_width?.bind fun _ => heeds_withFlags _
  | fixedPoint => exact (heeds_withPrecision column).bind fun _ => heeds_withFlags _
  | temporal | sizedString => exact heeds_width?.map _
  | enumerated => exact (heeds_parenthesized heeds_literal).map _
  | plain | other => exact heeds_pure column

theorem heeds_characterSet? : Heeds rest scope depth depth characterSet? := by
  refine heeds_consume_ite (by decide) ?_ ?_
  · exact (heeds_expect (by decide)).bind fun _ => heeds_nameOrString.map _
  · exact (heeds_consumeAny (by decide)).bind fun _ =>
      heeds_ite (heeds_nameOrString.map _) (heeds_pure none)

theorem heeds_readAttribute (draft : Draft) :
    Heeds rest scope depth depth (readAttribute draft) := by
  rintro start ⟨taken, changed⟩ final found approaches
  cases readsAttribute_of_finds found with
  | reference | autoIncrement | other => exact approaches
  | notNull spelled null =>
      exact (approaches.advance_of_spells spelled (by decide)).advance_of_spells null (by decide)
  | null spelled => exact approaches.advance_of_spells spelled (by decide)
  | default spelled found =>
      exact heeds_literal _ _ _ found (approaches.advance_of_spells spelled (by decide))
  | onUpdate spelled update found =>
      exact heeds_literal _ _ _ found
        ((approaches.advance_of_spells spelled (by decide)).advance_of_spells update (by decide))
  | comment spelled quoted =>
      refine (approaches.advance_of_spells spelled (by decide)).advance_of_neutral ?_
      refine Token.neutral_of_kind ?_
      rw [← Cursor.next, quoted]
      rfl

theorem heeds_afterName (guards : Guards scope depth) (name : String) :
    Heeds rest scope depth depth (afterName name) := by
  refine heeds_keyword?_bind (fun word => ?_) (heeds_refuse _)
  refine heedsElsewhere_advance_bind ((heeds_withParameters _).bind fun column => ?_)
  refine (heeds_many heeds_characterSet?).bind fun _ => ?_
  refine (heeds_scan guards honest_attributes fun inner draft => ?_).map _
  exact heeds_ite (heeds_readAttribute draft) (heeds_pure _)

theorem heeds_column (guards : Guards scope depth) :
    Heeds rest scope depth depth Column.grammar :=
  heeds_name.bind fun name => heeds_afterName guards name

end Column

/-! ## Indexes and constraints -/

namespace Index

theorem heeds_indexType? : Heeds rest scope depth depth indexType? := by
  refine heeds_consume_ite (by decide) ?_ (heeds_pure none)
  refine heeds_keyword?_bind (fun word => ?_) (heeds_refuse _)
  exact heedsElsewhere_advance_bind (heeds_pure _)

theorem heeds_keyPart : Heeds rest scope depth depth keyPart := by
  have direction (column : String) : Heeds rest scope depth depth (do
      let _ ← consumeAny ["ASC", "DESC"]
      return column) := (heeds_consumeAny (by decide)).map _
  refine heeds_name.bind fun column => heeds_opening_ite ?_ (direction column)
  exact (heeds_unsigned _).bind fun _ => heeds_closing.bind fun _ => direction column

theorem heeds_afterName (guards : Guards scope depth) (role : Option IndexRole)
    (name : Option String) : Heeds rest scope depth depth (afterName role name) := by
  have ending (columns : List String) (indexType : Option String) :
      Heeds rest scope depth depth (do
        skipTo [","]
        return { name, indexType, role, columns : Index }) := (heeds_skipTo guards).map _
  refine heeds_indexType?.bind fun typeBefore => ?_
  refine (heeds_parenthesized heeds_keyPart).bind fun columns => ?_
  cases typeBefore with
  | some indexType => exact ending columns (some indexType)
  | none => exact heeds_indexType?.bind (ending columns)

theorem heeds_body (guards : Guards scope depth) (role : Option IndexRole) :
    Heeds rest scope depth depth (body role) := by
  refine heeds_look_bind fun seen => heeds_ite ?_ ?_
  · exact (heeds_pure none).bind (heeds_afterName guards role)
  · exact heeds_name?.bind (heeds_afterName guards role)

theorem heeds_index (guards : Guards scope depth) : Heeds rest scope depth depth Index.grammar := by
  have words (role : Option IndexRole) : Heeds rest scope depth depth (do
      unless (← consumeAny ["INDEX", "KEY"]) || role.any IndexRole.standsAlone do
        refuse (.expected "keyword INDEX or KEY")
      body role) :=
    (heeds_consumeAny (by decide)).bind fun _ =>
      heeds_ite ((heeds_pure ()).bind fun _ => heeds_body guards role) heeds_refuse_bind
  refine heeds_keyword?_bind (fun word => ?_) (words none)
  dsimp only
  split
  · exact heedsElsewhere_advance_bind (words _)
  · exact (words _).elsewhere

end Index

namespace Constraint

theorem heeds_referentialAction : Heeds rest scope depth depth referentialAction := by
  refine heeds_consume_ite (by decide) (heeds_pure _) ?_
  refine heeds_consume_ite (by decide) (heeds_pure _) ?_
  refine heeds_consume_ite (by decide) ?_ ?_
  · refine heeds_consume_ite (by decide) (heeds_pure _) ?_
    exact heeds_consume_ite (by decide) (heeds_pure _) (heeds_refuse _)
  · exact heeds_consume_ite (by decide) ((heeds_expect (by decide)).map _) (heeds_refuse _)

theorem heeds_foreignKey : Heeds rest scope depth depth foreignKey := by
  have matching : Heeds rest scope depth depth matchType? := by
    refine heeds_consume_ite (by decide) ?_ (heeds_pure ())
    exact (heeds_consumeAny (by decide)).bind fun _ => heeds_ite (heeds_pure ()) (heeds_refuse _)
  have events : Heeds rest scope depth depth (many eventAction?) := by
    refine heeds_many (heeds_consume_ite (by decide) ?_ (heeds_pure none))
    refine heeds_consume_ite (by decide) (heeds_referentialAction.map _) ?_
    exact heeds_consume_ite (by decide) (heeds_referentialAction.map _) (heeds_refuse _)
  refine (heeds_expect (by decide)).bind fun _ => (heeds_expect (by decide)).bind fun _ => ?_
  refine heeds_name?.bind fun _ => heeds_names.bind fun _ => ?_
  refine (heeds_expect (by decide)).bind fun _ => heeds_name.bind fun _ => ?_
  exact heeds_names.bind fun _ => matching.bind fun _ => events.map _

theorem heeds_constraint (guards : Guards scope depth) :
    Heeds rest scope depth depth Constraint.grammar := by
  have named : Heeds rest scope depth depth constraintName? := by
    refine heeds_consume_ite (by decide) ?_ (heeds_pure none)
    exact heeds_look_bind fun _ => heeds_ite (heeds_pure none) heeds_name?
  have kept : Heeds rest scope depth depth clause :=
    (heeds_consumed (heeds_skipTo guards)).bind fun _ => heeds_ite (heeds_refuse _) (heeds_pure _)
  refine named.bind fun name => heeds_look_bind fun isForeign => heeds_ite ?_ ?_
  · exact heeds_foreignKey.map _
  · exact heeds_look_bind fun _ => heeds_ite (heeds_refuse _) (kept.map _)

end Constraint

/-! ## Options and partitionings -/

namespace TableOption

theorem heeds_tableOption : Heeds rest scope depth depth TableOption.grammar := by
  have key : Heeds rest scope depth depth keyText := by
    refine heeds_keyword?_bind (fun word => ?_) (heeds_refuse _)
    dsimp only
    split
    · refine heedsElsewhere_advance_bind (heeds_keyword?_bind (fun next => ?_) (heeds_refuse _))
      exact heedsElsewhere_advance_bind (heeds_pure _)
    · exact heedsElsewhere_advance_bind (heeds_pure word)
  have sign {β : Type} {second : Grammar β} (there : Heeds rest scope depth depth second) :
      Heeds rest scope depth depth (do
        let _ ← consume "="
        second) := (heeds_consume (by decide)).bind fun _ => there
  have named : Heeds rest scope depth depth nameValue := sign (heeds_nameOrString.map _)
  have storage : Heeds rest scope depth depth storage? := by
    refine heeds_consume_ite (by decide) ?_ (heeds_pure none)
    refine heeds_seesAny_bind (by decide) (heedsElsewhere_take fun _ => heeds_pure _) ?_
    exact heeds_refuse_bind
  have scalar : Heeds rest scope depth depth scalar := by
    refine sign (heeds_current_bind (fun token nests => ?_) fun token other => ?_)
    · cases kind : token.kind with
      | leftParen | rightParen | semicolon => exact heeds_refuse _
      | _ => simp [kind, Token.Kind.nests] at nests
    · cases kind : token.kind with
      | integer | float | word | quotedString => exact heedsElsewhere_advance_bind (heeds_pure _)
      | _ => exact (heeds_refuse _).elsewhere
  refine key.bind fun key => heeds_ite ?_ (heeds_ite (named.map _) (heeds_ite ?_ ?_))
  · exact (heeds_expect (by decide)).bind fun _ => named.map _
  · exact (sign (heeds_name.bind fun _ => storage.map _)).map _
  · refine heeds_ite ((sign (heeds_names.map _)).map _) ?_
    exact heeds_ite (scalar.map _) (heeds_refuse _)

theorem heeds_options : Heeds rest scope depth depth options := by
  refine heeds_many (heeds_look_bind fun _ => heeds_ite ?_ (heeds_pure none))
  exact heeds_tableOption.bind fun _ => (heeds_consume (by decide)).map _

end TableOption

namespace PartitionDefinition

theorem heeds_partitionDefinition (guards : Guards scope depth) :
    Heeds rest scope depth depth PartitionDefinition.grammar := by
  have kind : Heeds rest scope depth depth readBoundKind := by
    refine heeds_consume_ite (by decide) ((heeds_expect (by decide)).map _) ?_
    exact heeds_consume_ite (by decide) (heeds_pure _) (heeds_refuse _)
  have values (kind : BoundKind) : Heeds rest scope depth depth (boundValues kind) := by
    refine heeds_sees_bind (by decide) ?_ ?_
    · split
      · exact heedsElsewhere_advance_bind (heeds_pure _)
      · exact (heeds_parenthesized heeds_literal).elsewhere
    · rw [Bool.and_false]
      exact heeds_parenthesized heeds_literal
  refine (heeds_expect (by decide)).bind fun _ => heeds_name.bind fun name => ?_
  refine heeds_consume_ite (by decide) ?_ ((heeds_skipTo guards).map _)
  exact kind.bind fun kind => (values kind).bind fun _ => (heeds_skipTo guards).map _

theorem heeds_list : Heeds rest scope depth depth PartitionDefinition.list :=
  heeds_parenthesized (heeds_partitionDefinition .inside)

end PartitionDefinition

namespace PartitionClause

theorem heeds_keyColumns : Heeds rest scope depth depth keyColumns := by
  intro start columns final found approaches
  simp only [keyColumns, sees, nextSees, finds_look_bind_iff] at found
  split at found
  · rename_i marks
    obtain ⟨opens, closes⟩ := Bool.and_eq_true_iff.mp marks
    rw [finds_advance_bind_iff, finds_advance_bind_iff] at found
    have inside := approaches.opened (approaches.paired_current.opening.mp opens)
    exact heeds_pure _ _ _ _ found (inside.closed (inside.paired_current.closing.mp closes))
  · exact heeds_names _ _ _ found approaches

theorem heeds_algorithm? : Heeds rest scope depth depth algorithm? := by
  refine heeds_consume_ite (by decide) ?_ (heeds_pure none)
  refine (heeds_expect (by decide)).bind fun _ => ?_
  refine heeds_current_bind (fun token nests => ?_) fun token other => ?_
  · have noInteger : token.kind ≠ .integer := fun isInteger => by
      simp [isInteger, Token.Kind.nests] at nests
    simp only [noInteger, false_and, if_false]
    exact heeds_refuse _
  · refine heedsElsewhere_ite (heedsElsewhere_advance_bind (heeds_pure _)) ?_
    exact heedsElsewhere_ite (heedsElsewhere_advance_bind (heeds_pure _)) (heeds_refuse _).elsewhere

theorem heeds_readFunction (kind : PartitionKind) :
    Heeds rest scope depth depth (readFunction kind) := by
  have expressed : Heeds rest scope depth depth (do
      return { kind, expression := some (← readExpression) : PartitionClause }) :=
    (heeds_group.bind fun _ => heeds_ite (heeds_refuse _) (heeds_pure _)).map _
  have listed : HeedsElsewhere rest scope depth depth (do
      advance
      return { kind, isColumns := true, columns := ← names : PartitionClause }) :=
    heedsElsewhere_advance_bind (heeds_names.map _)
  cases kind with
  | key =>
      refine heeds_algorithm?.bind fun algorithm => heeds_look_bind fun _ => ?_
      exact heeds_ite heeds_refuse_bind (heeds_keyColumns.map _)
  | hash => exact heeds_look_bind fun _ => heeds_ite heeds_refuse_bind expressed
  | range | list => exact heeds_sees_bind (by decide) listed expressed

theorem heeds_head (level : PartitionLevel) : Heeds rest scope depth depth (head level) := by
  have kind : Heeds rest scope depth depth (readKind level) := by
    refine heeds_keyword?_bind (fun word => ?_) ?_
    · split
      · exact heedsElsewhere_advance_bind (heeds_pure _)
      · exact (heeds_refuse _).elsewhere
    · cases level <;> exact heeds_refuse _
  have words : Token.isOther level.keyword = true ∧ Token.isOther level.countKeyword = true := by
    cases level <;> decide
  refine (heeds_expect words.1).bind fun _ => (heeds_expect (by decide)).bind fun _ => ?_
  refine (heeds_consume (by decide)).bind fun _ => kind.bind fun kind => ?_
  refine (heeds_readFunction kind).bind fun clause => heeds_consume_ite words.2 ?_ ?_
  · exact ((heeds_unsigned _).map _).map _
  · exact heeds_pure _

end PartitionClause

theorem Partitioning.heeds_partitioning : Heeds rest scope depth depth Partitioning.grammar := by
  refine (PartitionClause.heeds_head .table).bind fun clause => ?_
  have afterInner (inner : Option Partitioning) : Heeds rest scope depth depth (do
      let definitions ← if clause.kind.hasDefinitions && (← sees "(") then
          PartitionDefinition.list
        else
          pure []
      return ofClause { clause with definitions } inner) :=
    heeds_look_bind fun _ => heeds_ite (PartitionDefinition.heeds_list.map _) (heeds_pure _)
  refine heeds_look_bind fun _ => heeds_ite ?_ (afterInner none)
  exact (((PartitionClause.heeds_head .partitions).map _).map _).bind afterInner

/-! ## Alterations -/

namespace AlterOption

theorem heeds_readAction : Heeds rest scope depth depth readAction := by
  refine heeds_keyword?_bind (fun word => ?_) (heeds_refuse _)
  split
  · exact heedsElsewhere_advance_bind (heeds_pure _)
  · exact (heeds_refuse _).elsewhere

theorem heeds_afterRole (role : IndexRole) : Heeds rest scope depth depth (afterRole role) := by
  cases role with
  | primary | foreign => exact heeds_expect (by decide)
  | fulltext | spatial =>
      exact (heeds_consumeAny (by decide)).bind fun _ => heeds_ite (heeds_pure ()) (heeds_refuse _)
  | unique => exact (heeds_consumeAny (by decide)).map _

theorem heeds_readTarget (action : AlterAction) :
    Heeds rest scope depth depth (readTarget action) := by
  refine heeds_current_bind (fun token nests => ?_) fun token other => ?_
  · have noWord : token.keyword? = none := by
      cases kind : token.kind <;> simp_all [Token.keyword?, Token.Kind.nests]
    simp only [noWord, Option.bind_none]
    refine heeds_ite (heeds_pure _) (heeds_look_bind fun _ => ?_)
    exact heeds_ite (heeds_pure _) (heeds_refuse _)
  · dsimp only
    refine heedsElsewhere_ite (heeds_pure _).elsewhere (heedsElsewhere_look_bind fun _ => ?_)
    refine heedsElsewhere_ite (heeds_pure _).elsewhere ?_
    split
    · exact (heeds_refuse _).elsewhere
    refine heedsElsewhere_advance_bind ?_
    split
    · exact heeds_pure _
    · exact heeds_pure _
    · exact heeds_pure _
    · exact (heeds_afterRole _).map _
    · exact heeds_refuse _
    · exact heeds_refuse _

theorem heeds_positionedColumn (guards : Guards scope depth) :
    Heeds rest scope depth depth positionedColumn := by
  refine heeds_name.bind fun name => ?_
  refine (heeds_withStops (Column.heeds_afterName (guards.adding _) name)).bind fun column => ?_
  refine heeds_consume_ite (by decide) (heeds_pure _) ?_
  exact heeds_consume_ite (by decide) (heeds_name.map _) (heeds_pure column)

theorem heeds_readPayload (guards : Guards scope depth) (action : AlterAction)
    (target : AlterTarget) (role : Option IndexRole) :
    Heeds rest scope depth depth (readPayload action target role) := by
  have column : Heeds rest scope depth depth positionedColumn := heeds_positionedColumn guards
  have dropped : Heeds rest scope depth depth (droppedName role) := by
    unfold droppedName
    split
    · exact heeds_pure _
    · exact heeds_name.map _
    · exact heeds_name
  have renamed : Heeds rest scope depth depth Rename.grammar :=
    heeds_name.bind fun _ => (heeds_expect (by decide)).bind fun _ => heeds_name.map _
  unfold readPayload
  split
  · refine heeds_look_bind fun _ => heeds_ite (Heeds.map ?_ _) (column.map _)
    exact heeds_parenthesized (heeds_positionedColumn .inside)
  · exact (Index.heeds_body guards role).map _
  · exact dropped.map _
  · exact dropped.map _
  · exact renamed.map _
  · exact renamed.map _
  · exact heeds_name.map _
  · exact heeds_name.bind fun _ => column.map _
  · exact column.map _
  · exact heeds_refuse _

theorem heeds_alterOption (guards : Guards scope depth) :
    Heeds rest scope depth depth AlterOption.grammar := by
  refine TableOption.heeds_options.bind fun _ => heeds_readAction.bind fun action => ?_
  refine heeds_look_bind fun _ => heeds_ite (heeds_name.map _) ?_
  refine (heeds_readTarget action).bind fun _ => ?_
  exact (heeds_readPayload guards _ _ _).map _

end AlterOption

theorem AlterTable.heeds_clauses (guards : Guards scope depth) :
    Heeds rest scope depth depth AlterTable.clauses := by
  have clause : Heeds rest scope depth depth AlterOption.grammar :=
    AlterOption.heeds_alterOption guards
  refine heeds_look_bind fun _ => heeds_look_bind fun _ => heeds_ite (heeds_pure []) ?_
  refine clause.bind fun _ => (heeds_many ?_).map _
  refine heeds_consume_ite (by decide) ?_ (heeds_pure none)
  refine heeds_look_bind fun _ => heeds_look_bind fun _ => heeds_ite (heeds_pure none) ?_
  exact clause.map _

/-! ## Tables -/

/-- A definition stands in parentheses, so that a semicolon does not end it. -/
theorem TableElement.heeds_element :
    Heeds rest scope (depth + 1) (depth + 1) TableElement.grammar := by
  have inside : Guards scope (depth + 1) := .inside
  refine heeds_look_bind fun _ => heeds_ite ((Index.heeds_index inside).map _) ?_
  refine heeds_ite ((Constraint.heeds_constraint inside).map _) ?_
  exact (Column.heeds_column inside).map _

namespace Table

theorem heeds_readOption (tail : Tail) : Heeds rest scope depth depth (readOption tail) := by
  refine heeds_consume_ite (by decide) ((heeds_consume (by decide)).bind fun _ => ?_) ?_
  · exact heeds_seesKind_bind (by decide) (heedsElsewhere_take fun _ => heeds_pure _)
      heeds_refuse_bind
  · refine heeds_look_bind fun _ => heeds_look_bind fun _ => heeds_ite ?_ (heeds_pure _)
    exact Partitioning.heeds_partitioning.map _

theorem heeds_tail (guards : Guards scope depth) : Heeds rest scope depth depth tail :=
  heeds_scan guards honest_options fun _ tail => heeds_ite (heeds_readOption tail) (heeds_pure _)

theorem heeds_readIfNotExists : Heeds rest scope depth depth readIfNotExists := by
  refine heeds_consume_ite (by decide) ?_ (heeds_pure false)
  exact (heeds_expect (by decide)).bind fun _ => (heeds_expect (by decide)).map _

end Table

/-! ## Statements -/

section

variable (semicolon : scope.settings.terminator = ";")
include semicolon

/-- The terminator is a stop word while a statement is read. -/
theorem guards_statement (words : List String) : Guards
    { scope with stops := scope.stops.adding (scope.settings.terminator :: words) } depth := by
  intro _
  rw [semicolon]
  simp [Stops.stopAt, Stops.adding, Token.semicolon, Token.isPunctuation,
    Token.Kind.isPunctuation, show Text.upper ";" = ";" by decide]

theorem AlterTable.heeds_alterTable : Heeds rest scope depth depth AlterTable.grammar := by
  refine (heeds_expect (by decide)).bind fun _ => (heeds_expect (by decide)).bind fun _ => ?_
  refine heeds_name.bind fun tableName => heeds_settings_bind ?_
  refine (heeds_withStops (heeds_clauses (guards_statement semicolon _))).bind fun options => ?_
  have afterPartitioning (partitioning : Option Partitioning) : Heeds rest scope depth depth (do
      unless ← atTerminator do refuse (.expected "\",\" or end of ALTER TABLE statement")
      if options.isEmpty && partitioning.isNone then refuse (.expected "ALTER TABLE clause")
      return { tableName, options, partitioning : AlterTable }) := by
    refine heeds_look_bind fun _ => heeds_ite ?_ heeds_refuse_bind
    exact heeds_ite heeds_refuse_bind (heeds_pure _)
  refine heeds_look_bind fun _ => heeds_ite ?_ (afterPartitioning none)
  exact (Partitioning.heeds_partitioning.map _).bind afterPartitioning

theorem Table.heeds_table : Heeds rest scope depth depth Table.grammar := by
  refine (heeds_expect (by decide)).bind fun _ => (heeds_consume (by decide)).bind fun _ => ?_
  refine (heeds_expect (by decide)).bind fun _ => heeds_readIfNotExists.bind fun _ => ?_
  refine (heeds_orRefuse heeds_name).bind fun _ => heeds_settings_bind ?_
  refine Heeds.bind (heeds_withStops ?_) fun _ =>
    heeds_look_bind fun _ => heeds_ite (heeds_pure _) heeds_refuse_bind
  refine (heeds_parenthesized TableElement.heeds_element).bind fun _ => ?_
  exact (heeds_tail (guards_statement semicolon [])).map _

/-- A statement does not read past a semicolon outside all parentheses. -/
theorem Statement.heeds_statement : Heeds rest scope depth depth Statement.grammar := by
  refine heeds_look_bind fun _ => heeds_ite ((Table.heeds_table semicolon).map _) ?_
  refine heeds_look_bind fun _ => heeds_ite ?_ (heeds_refuse _)
  exact (AlterTable.heeds_alterTable semicolon).map _

end

end TableDdl
