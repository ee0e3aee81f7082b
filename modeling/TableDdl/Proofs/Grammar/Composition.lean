import TableDdl.Proofs.Grammar.Parts

/-!
# How grammars are put together

All grammars are put together from the same few steps: they look, move past a token, refuse the
text, read one thing after the other, repeat, scan, and pass over a group. A fact that holds of all
grammars is proved by induction, with one case for each of these steps.

Grammars see the settings only through looks, so that the steps also say which differences between
settings a grammar cannot notice. Only constraints depend on more than the terminator.
-/

namespace TableDdl

namespace Grammar

variable {α β σ : Type}

/-- The grammar is put together from steps none of which tells settings apart that are alike. -/
inductive Composed (alike : Settings → Settings → Prop) : {α : Type} → Grammar α → Prop where
  /-- A value is found without reading. -/
  | pure {α : Type} (value : α) : Composed alike (pure value : Grammar α)
  /-- One thing is read after the other. -/
  | bind {α β : Type} {first : Grammar α} {second : α → Grammar β} (here : Composed alike first)
      (there : ∀ value, Composed alike (second value)) : Composed alike (first >>= second)
  /-- The scope and the cursor are looked at. -/
  | look {α : Type} {view : Scope → Cursor → α}
      (same : ∀ left right stops cursor, alike left right →
        view ⟨left, stops⟩ cursor = view ⟨right, stops⟩ cursor) : Composed alike (look view)
  /-- What is read depends on the settings. -/
  | configured {β : Type} {second : Settings → Grammar β}
      (same : ∀ left right, alike left right → second left = second right)
      (there : ∀ settings, Composed alike (second settings)) :
      Composed alike (settings >>= second)
  /-- The cursor moves past a token. -/
  | advance : Composed alike advance
  /-- The text is refused. -/
  | refuse {α : Type} (fault : Fault) : Composed alike (refuse fault : Grammar α)
  /-- There are further stop words. -/
  | withStops {α : Type} {grammar : Grammar α} (words : List String)
      (here : Composed alike grammar) : Composed alike (grammar.withStops words)
  /-- A refusal gets another fault. -/
  | orRefuse {α : Type} {grammar : Grammar α} (fault : Fault) (here : Composed alike grammar) :
      Composed alike (grammar.orRefuse fault)
  /-- The tokens that are read are kept. -/
  | consumed {α : Type} {grammar : Grammar α} (here : Composed alike grammar) :
      Composed alike grammar.consumed
  /-- Something is read again and again. -/
  | many {α : Type} {item? : Grammar (Option α)} (here : Composed alike item?) :
      Composed alike (many item? : Grammar (List α))
  /-- Tokens are passed over. -/
  | scan {σ : Type} {visit : Visitor σ} (words : List String) (initial : σ)
      (here : ∀ depth gathered, Composed alike (visit depth gathered)) :
      Composed alike (scan words initial visit)
  /-- A group is passed over. -/
  | group : Composed alike group

variable {alike : Settings → Settings → Prop}

/-! ## Steps -/

theorem composed_map {grammar : Grammar α} {change : α → β} (here : Composed alike grammar) :
    Composed alike (change <$> grammar) :=
  .bind here fun _ => .pure _

theorem composed_ite {condition : Prop} [Decidable condition] {left right : Grammar α}
    (ifTrue : Composed alike left) (ifFalse : Composed alike right) :
    Composed alike (if condition then left else right) := by
  split
  · exact ifTrue
  · exact ifFalse

/-- What follows a refusal is never read. -/
theorem refuse_bind (fault : Fault) (second : α → Grammar β) :
    ((refuse fault : Grammar α) >>= second) = refuse fault := rfl

theorem composed_refuse_bind {fault : Fault} {second : α → Grammar β} :
    Composed alike ((refuse fault : Grammar α) >>= second) := by
  rw [refuse_bind]
  exact .refuse fault

/-! Most looks are at the cursor and the stop words, whatever the settings are. -/

theorem composed_current : Composed alike current := .look fun _ _ _ _ _ => rfl

theorem composed_keyword? : Composed alike keyword? := .look fun _ _ _ _ _ => rfl

theorem composed_atEnd : Composed alike atEnd := .look fun _ _ _ _ _ => rfl

theorem composed_atStop : Composed alike atStop := .look fun _ _ _ _ _ => rfl

theorem composed_sees (text : String) : Composed alike (sees text) := .look fun _ _ _ _ _ => rfl

theorem composed_seesAny (texts : List String) : Composed alike (seesAny texts) :=
  .look fun _ _ _ _ _ => rfl

theorem composed_nextSees (text : String) : Composed alike (nextSees text) :=
  .look fun _ _ _ _ _ => rfl

theorem composed_seesKind (kind : Token.Kind) : Composed alike (seesKind kind) :=
  .look fun _ _ _ _ _ => rfl

theorem composed_consume (text : String) : Composed alike (consume text) :=
  .bind (composed_sees text) fun _ => composed_ite (.bind .advance fun _ => .pure _) (.pure _)

theorem composed_consumeAny (texts : List String) : Composed alike (consumeAny texts) :=
  .bind (composed_seesAny texts) fun _ => composed_ite (.bind .advance fun _ => .pure _) (.pure _)

theorem composed_expect (text : String) (fault : Fault) : Composed alike (expect text fault) :=
  .bind (composed_consume text) fun _ => composed_ite (.pure ()) (.refuse fault)

/-- What is read after a word or mark, and what is read without it. -/
theorem composed_consume_ite {text : String} {left right : Grammar α}
    (ifTrue : Composed alike left) (ifFalse : Composed alike right) :
    Composed alike (do if ← consume text then left else right) :=
  .bind (composed_consume text) fun _ => composed_ite ifTrue ifFalse

theorem composed_consumeAny_ite {texts : List String} {left right : Grammar α}
    (ifTrue : Composed alike left) (ifFalse : Composed alike right) :
    Composed alike (do if ← consumeAny texts then left else right) :=
  .bind (composed_consumeAny texts) fun _ => composed_ite ifTrue ifFalse

theorem composed_sees_ite {text : String} {left right : Grammar α}
    (ifTrue : Composed alike left) (ifFalse : Composed alike right) :
    Composed alike (do if ← sees text then left else right) :=
  .bind (composed_sees text) fun _ => composed_ite ifTrue ifFalse

/-- A token of a kind that has to be there is kept and moved past. -/
theorem composed_take {kind : Token.Kind} {fault : Fault} {second : Token → Grammar α}
    (there : ∀ token, Composed alike (second token)) :
    Composed alike (do
      unless ← seesKind kind do refuse fault
      let token ← current
      advance
      second token) := by
  refine .bind (composed_seesKind kind) fun _ => composed_ite ?_ composed_refuse_bind
  exact .bind composed_current fun token => .bind .advance fun _ => there token

theorem composed_commaSeparated {item : Grammar α} (here : Composed alike item) :
    Composed alike (commaSeparated item) := by
  refine .bind here fun _ => .bind (.many ?_) fun _ => .pure _
  exact composed_consume_ite (.bind here fun _ => .pure _) (.pure none)

theorem composed_parenthesized {opening closing : Fault} {item : Grammar α}
    (here : Composed alike item) : Composed alike (parenthesized opening closing item) := by
  refine .bind (composed_expect _ _) fun _ => .bind (composed_commaSeparated here) fun _ => ?_
  exact .bind (composed_expect _ _) fun _ => .pure _

theorem composed_skipTo (words : List String) : Composed alike (skipTo words) :=
  .scan words () fun _ _ => .pure _

/-! ## Names and numbers -/

theorem composed_name? : Composed alike name? := by
  refine composed_consume_ite (composed_take fun _ => ?_) ?_
  · exact .bind (composed_expect _ _) fun _ => .pure _
  · refine .bind (composed_seesKind _) fun _ => .bind composed_atStop fun _ => ?_
    refine composed_ite ?_ (.pure none)
    exact .bind composed_current fun _ => .bind .advance fun _ => .pure _

theorem composed_name : Composed alike name := by
  refine .bind composed_name? fun found => ?_
  cases found with
  | some name => exact .pure name
  | none => exact .refuse _

theorem composed_nameOrString : Composed alike nameOrString := by
  refine .bind (composed_seesKind _) fun _ => composed_ite ?_ composed_name
  exact .bind composed_current fun _ => .bind .advance fun _ => .pure _

theorem composed_names : Composed alike names := composed_parenthesized composed_name

theorem composed_unsigned (what : String) : Composed alike (unsigned what) := by
  refine .bind (composed_seesKind _) fun _ => composed_ite ?_ composed_refuse_bind
  refine .bind composed_current fun token => ?_
  cases Number.uint32? token.text with
  | some value => exact .bind .advance fun _ => .pure value
  | none => exact .refuse _

end Grammar

open Grammar

variable {alike : Settings → Settings → Prop}

theorem Literal.composed_literal : Composed alike Literal.grammar := by
  refine .bind composed_current fun token => ?_
  have called : Composed alike (do
      return raw (token.text ++ "(" ++ (← group) ++ ")")) := .bind .group fun _ => .pure _
  cases token.kind with
  | integer | float | quotedString | binaryLiteral => exact .bind .advance fun _ => .pure _
  | word => exact .bind .advance fun _ => composed_sees_ite called (.pure _)
  | leftParen => exact .bind .group fun _ => .pure _
  | identifier | backtick | rightParen | comma | equals | semicolon | dot | symbol | endOfInput =>
      exact .refuse _

/-! ## Columns -/

namespace Column

theorem composed_width? : Composed alike width? := by
  refine composed_consume_ite (.bind (composed_unsigned _) fun _ => ?_) (.pure none)
  exact .bind (composed_expect _ _) fun _ => .pure _

theorem composed_withPrecision (column : Column) : Composed alike column.withPrecision := by
  have closed (width : UInt32) (decimals : Option UInt32) : Composed alike (do
      expect ")" (.expected "closing bracket \")\" after type precision")
      return { column with width := some width, decimals := decimals }) :=
    .bind (composed_expect _ _) fun _ => .pure _
  refine composed_consume_ite (.bind (composed_unsigned _) fun width => ?_) (.pure column)
  refine composed_consume_ite ?_ ?_
  · exact .bind (composed_map (composed_unsigned _)) (closed width)
  · exact .bind (.pure none) (closed width)

theorem composed_withFlags (column : Column) : Composed alike column.withFlags := by
  refine .bind (.many ?_) fun _ => .pure _
  exact composed_consume_ite (.pure _) (composed_consume_ite (.pure _)
    (composed_consume_ite (.pure _) (.pure none)))

theorem composed_withParameters (column : Column) : Composed alike column.withParameters := by
  unfold withParameters
  cases TypeFamily.ofName column.typeName with
  | integer => exact .bind composed_width? fun _ => composed_withFlags _
  | fixedPoint => exact .bind (composed_withPrecision column) composed_withFlags
  | temporal | sizedString => exact .bind composed_width? fun _ => .pure _
  | enumerated =>
      exact .bind (composed_parenthesized Literal.composed_literal) fun _ => .pure _
  | plain | other => exact .pure column

theorem composed_characterSet? : Composed alike characterSet? := by
  have named : Composed alike (do let _ ← nameOrString; return some ()) :=
    .bind composed_nameOrString fun _ => .pure _
  refine composed_consume_ite (.bind (composed_expect _ _) fun _ => named) ?_
  exact composed_consumeAny_ite named (.pure none)

theorem composed_readAttribute (draft : Draft) : Composed alike (readAttribute draft) := by
  have literal (change : Literal → Bool × Draft) : Composed alike (do
      return change (← Literal.grammar)) := .bind Literal.composed_literal fun _ => .pure _
  refine composed_sees_ite (.pure _) ?_
  refine composed_consume_ite (.bind (composed_expect _ _) fun _ => .pure _) ?_
  refine composed_consume_ite (.pure _) (composed_consume_ite (literal _) ?_)
  refine .bind (composed_sees _) fun _ => .bind (composed_nextSees _) fun _ => composed_ite ?_ ?_
  · exact .bind .advance fun _ => .bind .advance fun _ => literal _
  · refine composed_consume_ite (composed_take fun _ => .pure _) ?_
    exact composed_sees_ite (.pure _) (.pure _)

theorem composed_withAttributes (column : Column) : Composed alike column.withAttributes :=
  .bind (.scan _ _ fun _ draft => composed_ite (composed_readAttribute draft) (.pure _))
    fun _ => .pure _

theorem composed_afterName (name : String) : Composed alike (afterName name) := by
  refine .bind composed_keyword? fun word => ?_
  cases word with
  | none => exact .refuse _
  | some typeName =>
      refine .bind .advance fun _ => .bind (composed_withParameters _) fun column => ?_
      exact .bind (.many composed_characterSet?) fun _ => composed_withAttributes column

theorem composed_column : Composed alike Column.grammar :=
  .bind composed_name composed_afterName

end Column

/-! ## Indexes -/

namespace Index

theorem composed_indexType? : Composed alike indexType? := by
  refine composed_consume_ite (.bind composed_keyword? fun word => ?_) (.pure none)
  cases word with
  | some indexType => exact .bind .advance fun _ => .pure _
  | none => exact .refuse _

theorem composed_keyPart : Composed alike keyPart := by
  have directed (column : String) : Composed alike (do
      let _ ← consumeAny ["ASC", "DESC"]
      return column) := .bind (composed_consumeAny _) fun _ => .pure _
  refine .bind composed_name fun column => composed_consume_ite ?_ (directed column)
  refine .bind (composed_unsigned _) fun _ => .bind (composed_expect _ _) fun _ => directed column

theorem composed_body (role : Option IndexRole) : Composed alike (body role) := by
  have passed (index : Index) : Composed alike (do skipTo [","]; return index) :=
    .bind (composed_skipTo _) fun _ => .pure _
  refine composed_sees_ite (.bind (.pure none) fun name => ?_) (.bind composed_name? fun name => ?_)
  -- What follows the name is the same in both cases.
  all_goals
    refine .bind composed_indexType? fun typeBefore => ?_
    refine .bind (composed_parenthesized composed_keyPart) fun columns => ?_
    cases typeBefore with
    | some indexType => exact .bind (.pure _) fun _ => passed _
    | none => exact .bind composed_indexType? fun _ => passed _

theorem composed_index : Composed alike Index.grammar := by
  refine .bind composed_keyword? fun word => ?_
  have afterRole (role : Option IndexRole) : Composed alike (do
      unless (← consumeAny ["INDEX", "KEY"]) || role.any IndexRole.standsAlone do
        refuse (.expected "keyword INDEX or KEY")
      body role) :=
    .bind (composed_consumeAny _) fun _ => composed_ite (composed_body role) composed_refuse_bind
  exact composed_ite (.bind .advance fun _ => afterRole _) (afterRole _)

end Index

/-! ## Constraints -/

namespace Constraint

theorem composed_referentialAction : Composed alike referentialAction := by
  refine composed_consume_ite (.pure _) (composed_consume_ite (.pure _) ?_)
  refine composed_consume_ite ?_ (composed_consume_ite ?_ (.refuse _))
  · exact composed_consume_ite (.pure _) (composed_consume_ite (.pure _) (.refuse _))
  · exact .bind (composed_expect _ _) fun _ => .pure _

theorem composed_eventAction? : Composed alike eventAction? := by
  have acts (event : ReferenceEvent) : Composed alike (do
      return some (event, ← referentialAction)) :=
    .bind composed_referentialAction fun _ => .pure _
  refine composed_consume_ite ?_ (.pure none)
  exact composed_consume_ite (acts _) (composed_consume_ite (acts _) (.refuse _))

theorem composed_matchType? : Composed alike matchType? :=
  composed_consume_ite (composed_consumeAny_ite (.pure ()) (.refuse _)) (.pure ())

theorem composed_foreignKey : Composed alike foreignKey := by
  refine .bind (composed_expect _ _) fun _ => .bind (composed_expect _ _) fun _ => ?_
  refine .bind composed_name? fun indexName => .bind composed_names fun localColumns => ?_
  refine .bind (composed_expect _ _) fun _ => .bind composed_name fun referencedTable => ?_
  refine .bind composed_names fun referencedColumns => .bind composed_matchType? fun _ => ?_
  exact .bind (.many composed_eventAction?) fun _ => .pure _

theorem composed_clause : Composed alike clause :=
  .bind (.consumed (composed_skipTo _)) fun _ => composed_ite (.refuse _) (.pure _)

theorem composed_constraintName? : Composed alike constraintName? := by
  refine composed_consume_ite ?_ (.pure none)
  exact .bind (composed_seesAny _) fun _ => composed_ite (.pure none) composed_name?

/-- Constraints depend on whether the settings refuse those that are no foreign keys. -/
theorem composed_constraint
    (strict : ∀ left right, alike left right → left.strictConstraints = right.strictConstraints) :
    Composed alike Constraint.grammar := by
  refine .bind composed_constraintName? fun name => composed_sees_ite ?_ (.configured ?_ ?_)
  · exact .bind composed_foreignKey fun _ => .pure _
  · intro left right same
    rw [strict left right same]
  · exact fun _ => composed_ite (.refuse _) (.bind composed_clause fun _ => .pure _)

end Constraint

/-! ## Table options -/

namespace TableOption

theorem composed_scalar : Composed alike scalar := by
  refine .bind (composed_consume _) fun _ => .bind composed_current fun token => ?_
  cases token.kind with
  | integer | float | word | quotedString => exact .bind .advance fun _ => .pure _
  | identifier | binaryLiteral | backtick | leftParen | rightParen | comma | equals | semicolon
  | dot | symbol | endOfInput => exact .refuse _

theorem composed_nameValue : Composed alike nameValue :=
  .bind (composed_consume _) fun _ => .bind composed_nameOrString fun _ => .pure _

theorem composed_storage? : Composed alike storage? := by
  refine composed_consume_ite (.bind (composed_seesAny _) fun _ => ?_) (.pure none)
  refine composed_ite ?_ composed_refuse_bind
  exact .bind composed_current fun _ => .bind .advance fun _ => .pure _

theorem composed_tablespaceValue : Composed alike tablespaceValue :=
  .bind (composed_consume _) fun _ => .bind composed_name fun _ =>
    .bind composed_storage? fun _ => .pure _

theorem composed_tablesValue : Composed alike tablesValue :=
  .bind (composed_consume _) fun _ => .bind composed_names fun _ => .pure _

theorem composed_keyText : Composed alike keyText := by
  refine .bind composed_keyword? fun word => ?_
  cases word with
  | none => exact .refuse _
  | some word =>
      refine composed_ite ?_ (.bind .advance fun _ => .pure _)
      refine .bind .advance fun _ => .bind composed_keyword? fun next => ?_
      cases next with
      | some next => exact .bind .advance fun _ => .pure _
      | none => exact .refuse _

theorem composed_tableOption : Composed alike TableOption.grammar := by
  refine .bind composed_keyText fun key => ?_
  have named (key : String) : Composed alike (do return TableOption.mk key (← nameValue)) :=
    .bind composed_nameValue fun _ => .pure _
  refine composed_ite (.bind (composed_expect _ _) fun _ => named _) (composed_ite (named _) ?_)
  refine composed_ite (.bind composed_tablespaceValue fun _ => .pure _) ?_
  refine composed_ite (.bind composed_tablesValue fun _ => .pure _) ?_
  exact composed_ite (.bind composed_scalar fun _ => .pure _) (.refuse _)

theorem composed_options : Composed alike options := by
  refine .many (.bind (.look fun _ _ _ _ _ => rfl) fun _ => composed_ite ?_ (.pure none))
  exact .bind composed_tableOption fun _ => .bind (composed_consume _) fun _ => .pure _

end TableOption

/-! ## Partitionings -/

namespace PartitionDefinition

theorem composed_readBoundKind : Composed alike readBoundKind := by
  refine composed_consume_ite (.bind (composed_expect _ _) fun _ => .pure _) ?_
  exact composed_consume_ite (.pure _) (.refuse _)

theorem composed_boundValues (kind : BoundKind) : Composed alike (boundValues kind) := by
  refine .bind (composed_sees _) fun _ => composed_ite (.bind .advance fun _ => .pure _) ?_
  exact composed_parenthesized Literal.composed_literal

theorem composed_definition : Composed alike PartitionDefinition.grammar := by
  have passed (definition : PartitionDefinition) : Composed alike (do
      skipTo [","]
      return definition) := .bind (composed_skipTo _) fun _ => .pure _
  refine .bind (composed_expect _ _) fun _ => .bind composed_name fun name => ?_
  refine composed_consume_ite (.bind composed_readBoundKind fun kind => ?_) (passed _)
  exact .bind (composed_boundValues kind) fun _ => passed _

end PartitionDefinition

namespace PartitionClause

theorem composed_readKind (level : PartitionLevel) : Composed alike (readKind level) := by
  refine .bind composed_keyword? fun word => ?_
  split
  · exact .bind .advance fun _ => .pure _
  · exact .refuse _

theorem composed_algorithm? : Composed alike algorithm? := by
  refine composed_consume_ite (.bind (composed_expect _ _) fun _ => ?_) (.pure none)
  refine .bind composed_current fun _ => composed_ite (.bind .advance fun _ => .pure _) ?_
  exact composed_ite (.bind .advance fun _ => .pure _) (.refuse _)

theorem composed_keyColumns : Composed alike keyColumns := by
  refine .bind (composed_sees _) fun _ => .bind (composed_nextSees _) fun _ => ?_
  exact composed_ite (.bind .advance fun _ => .bind .advance fun _ => .pure _) composed_names

theorem composed_readExpression : Composed alike readExpression :=
  .bind .group fun _ => composed_ite (.refuse _) (.pure _)

theorem composed_readFunction (kind : PartitionKind) : Composed alike (readFunction kind) := by
  have expressed : Composed alike (do
      return { kind, expression := some (← readExpression) : PartitionClause }) :=
    .bind composed_readExpression fun _ => .pure _
  have listed : Composed alike (do
      advance
      return { kind, isColumns := true, columns := ← names : PartitionClause }) :=
    .bind .advance fun _ => .bind composed_names fun _ => .pure _
  cases kind with
  | key =>
      refine .bind composed_algorithm? fun algorithm => composed_sees_ite composed_refuse_bind ?_
      exact .bind composed_keyColumns fun _ => .pure _
  | hash => exact composed_sees_ite composed_refuse_bind expressed
  | range => exact composed_sees_ite listed expressed
  | list => exact composed_sees_ite listed expressed

theorem composed_head (level : PartitionLevel) : Composed alike (head level) := by
  refine .bind (composed_expect _ _) fun _ => .bind (composed_expect _ _) fun _ => ?_
  refine .bind (composed_consume _) fun isLinear => .bind (composed_readKind level) fun kind => ?_
  refine .bind (composed_readFunction kind) fun clause => composed_consume_ite ?_ ?_
  · exact .bind (composed_map (composed_unsigned _)) fun _ => .pure _
  · exact .bind (.pure none) fun _ => .pure _

end PartitionClause

namespace Partitioning

theorem composed_inner : Composed alike innerGrammar :=
  .bind (PartitionClause.composed_head .partitions) fun _ => .pure _

theorem composed_partitioning : Composed alike Partitioning.grammar := by
  refine .bind (PartitionClause.composed_head .table) fun clause => ?_
  have afterInner (inner : Option Partitioning) : Composed alike (do
      let definitions ← if clause.kind.hasDefinitions && (← sees "(") then
          PartitionDefinition.list
        else
          pure []
      return ofClause { clause with definitions } inner) := by
    refine .bind (composed_sees _) fun _ => composed_ite ?_ ?_
    · exact .bind (composed_parenthesized PartitionDefinition.composed_definition) fun _ => .pure _
    · exact .bind (.pure []) fun _ => .pure _
  refine composed_sees_ite (.bind (composed_map composed_inner) afterInner) ?_
  exact .bind (.pure none) afterInner

end Partitioning

/-! ## Alterations -/

theorem Rename.composed_rename : Composed alike Rename.grammar :=
  .bind composed_name fun _ => .bind (composed_expect _ _) fun _ =>
    .bind composed_name fun _ => .pure _

namespace AlterOption

theorem composed_readAction : Composed alike readAction := by
  refine .bind composed_keyword? fun word => ?_
  split
  · exact .bind .advance fun _ => .pure _
  · exact .refuse _

theorem composed_afterRole (role : IndexRole) : Composed alike (afterRole role) := by
  cases role with
  | primary | foreign => exact composed_expect _ _
  | fulltext | spatial => exact composed_consumeAny_ite (.pure ()) (.refuse _)
  | unique => exact .bind (composed_consumeAny _) fun _ => .pure ()

theorem composed_readTarget (action : AlterAction) : Composed alike (readTarget action) := by
  refine .bind composed_current fun token => composed_ite (.pure _) ?_
  refine .bind (composed_sees _) fun _ => composed_ite (.pure _) ?_
  cases token.keyword?.bind TargetWord.ofWord? with
  | none => exact .refuse _
  | some target =>
      refine .bind .advance fun _ => ?_
      cases target with
      | column | table => exact .pure _
      | index role =>
          cases role with
          | none => exact .pure _
          | some role => exact .bind (composed_afterRole role) fun _ => .pure _
      | constraint | partition => exact .refuse _

theorem composed_positionedColumn : Composed alike positionedColumn := by
  refine .bind composed_name fun name => ?_
  refine .bind (.withStops _ (Column.composed_afterName name)) fun column => ?_
  refine composed_consume_ite (.pure _) (composed_consume_ite ?_ (.pure column))
  exact .bind composed_name fun _ => .pure _

theorem composed_droppedName (role : Option IndexRole) : Composed alike (droppedName role) := by
  unfold droppedName
  split
  · exact .pure _
  · exact .bind composed_name fun _ => .pure _
  · exact composed_name

theorem composed_readPayload (action : AlterAction) (target : AlterTarget)
    (role : Option IndexRole) : Composed alike (readPayload action target role) := by
  have oneColumn : Composed alike (do return AlterPayload.column (← positionedColumn)) :=
    .bind composed_positionedColumn fun _ => .pure _
  have dropped : Composed alike (do return AlterPayload.name (← droppedName role)) :=
    .bind (composed_droppedName role) fun _ => .pure _
  have renamed : Composed alike (do return AlterPayload.rename (← Rename.grammar)) :=
    .bind Rename.composed_rename fun _ => .pure _
  unfold readPayload
  split
  · refine composed_sees_ite (.bind ?_ fun _ => .pure _) oneColumn
    exact composed_parenthesized composed_positionedColumn
  · exact .bind (Index.composed_body role) fun _ => .pure _
  · exact dropped
  · exact dropped
  · exact renamed
  · exact renamed
  · exact .bind composed_name fun _ => .pure _
  · exact .bind composed_name fun _ => .bind composed_positionedColumn fun _ => .pure _
  · exact oneColumn
  · exact .refuse _

theorem composed_alterOption : Composed alike AlterOption.grammar := by
  refine .bind TableOption.composed_options fun _ => .bind composed_readAction fun action => ?_
  refine .bind (composed_seesAny _) fun _ => composed_ite ?_ ?_
  · exact .bind composed_name fun _ => .pure _
  · refine .bind (composed_readTarget action) fun target => ?_
    exact .bind (composed_readPayload _ _ _) fun _ => .pure _

end AlterOption

/-! ## Statements

From here on grammars depend on the terminator. -/

section

variable (terminator : ∀ left right, alike left right → left.terminator = right.terminator)
include terminator

theorem Grammar.composed_atTerminator : Composed alike atTerminator :=
  .look fun left right _ _ same => by rw [terminator left right same]

theorem AlterTable.composed_atClausesEnd : Composed alike AlterTable.atClausesEnd :=
  .bind (composed_atTerminator terminator) fun _ => .bind (composed_sees _) fun _ => .pure _

theorem AlterTable.composed_clauses : Composed alike AlterTable.clauses := by
  have ending := AlterTable.composed_atClausesEnd terminator
  refine .bind ending fun _ => composed_ite (.pure []) ?_
  refine .bind AlterOption.composed_alterOption fun _ => .bind (.many ?_) fun _ => .pure _
  refine composed_consume_ite (.bind ending fun _ => composed_ite (.pure none) ?_) (.pure none)
  exact .bind AlterOption.composed_alterOption fun _ => .pure _

theorem AlterTable.composed_alterTable : Composed alike AlterTable.grammar := by
  refine .bind (composed_expect _ _) fun _ => .bind (composed_expect _ _) fun _ => ?_
  refine .bind composed_name fun tableName => .configured ?_ fun settings => ?_
  · intro left right same
    rw [terminator left right same]
  refine .bind (.withStops _ (AlterTable.composed_clauses terminator)) fun options => ?_
  have closed (partitioning : Option Partitioning) : Composed alike (do
      unless ← atTerminator do refuse (.expected "\",\" or end of ALTER TABLE statement")
      if options.isEmpty && partitioning.isNone then refuse (.expected "ALTER TABLE clause")
      return { tableName, options, partitioning : AlterTable }) := by
    refine .bind (composed_atTerminator terminator) fun _ => ?_
    exact composed_ite (composed_ite composed_refuse_bind (.pure _)) composed_refuse_bind
  refine composed_sees_ite ?_ (.bind (.pure none) closed)
  exact .bind (composed_map Partitioning.composed_partitioning) closed

theorem Grammar.composed_skipTerminators : Composed alike skipTerminators := by
  refine .bind (.many (.bind composed_atEnd fun _ => composed_ite (.pure none) ?_)) fun _ => .pure _
  refine .configured ?_ fun _ => composed_consume_ite (.pure _) (.pure none)
  intro left right same
  rw [terminator left right same]

theorem Grammar.composed_whole {α : Type} {grammar : Grammar α} (here : Composed alike grammar) :
    Composed alike grammar.whole := by
  refine .bind here fun _ => .bind (composed_skipTerminators terminator) fun _ => ?_
  exact .bind composed_atEnd fun _ => composed_ite (.pure _) composed_refuse_bind

end

theorem Table.composed_readOption (tail : Table.Tail) : Composed alike (Table.readOption tail) := by
  refine composed_consume_ite (.bind (composed_consume _) fun _ => composed_take ?_) ?_
  · exact fun _ => .pure _
  refine .bind (composed_sees _) fun _ => .bind (composed_nextSees _) fun _ => ?_
  exact composed_ite (.bind Partitioning.composed_partitioning fun _ => .pure _) (.pure _)

theorem Table.composed_tail : Composed alike Table.tail :=
  .scan _ _ fun _ tail => composed_ite (Table.composed_readOption tail) (.pure _)

theorem Table.composed_readIfNotExists : Composed alike Table.readIfNotExists := by
  refine composed_consume_ite (.bind (composed_expect _ _) fun _ => ?_) (.pure false)
  exact .bind (composed_expect _ _) fun _ => .pure true

/-! Statements depend on both settings, so that their steps tell no equal settings apart. -/

theorem TableElement.composed_element : Composed Eq TableElement.grammar := by
  refine .bind composed_keyword? fun word => composed_ite ?_ (composed_ite ?_ ?_)
  · exact .bind Index.composed_index fun _ => .pure _
  · refine .bind (Constraint.composed_constraint ?_) fun _ => .pure _
    exact fun _ _ => congrArg Settings.strictConstraints
  · exact .bind Column.composed_column fun _ => .pure _

theorem Table.composed_table : Composed Eq Table.grammar := by
  refine .bind (composed_expect _ _) fun _ => .bind (composed_consume _) fun isTemporary => ?_
  refine .bind (composed_expect _ _) fun _ => .bind composed_readIfNotExists fun ifNotExists => ?_
  refine .bind (.orRefuse _ composed_name) fun name => .configured ?_ fun settings => ?_
  · intro left right same
    rw [same]
  have parts : Composed Eq definitionsAndTail :=
    .bind (composed_parenthesized TableElement.composed_element) fun _ =>
      .bind composed_tail fun _ => .pure _
  refine .bind (.withStops _ parts) fun parts => ?_
  exact .bind (composed_atTerminator fun _ _ => congrArg Settings.terminator) fun _ =>
    composed_ite (.pure _) composed_refuse_bind

namespace Statement

theorem composed_statement : Composed Eq Statement.grammar := by
  refine composed_sees_ite (.bind Table.composed_table fun _ => .pure _) ?_
  refine composed_sees_ite ?_ (.refuse _)
  refine .bind (AlterTable.composed_alterTable ?_) fun _ => .pure _
  exact fun _ _ => congrArg Settings.terminator

theorem composed_script : Composed Eq script := by
  have skipped := composed_skipTerminators fun _ _ => congrArg Settings.terminator
  refine .many (.bind skipped fun _ => .bind composed_atEnd fun _ => composed_ite (.pure none) ?_)
  exact .bind composed_statement fun _ => .pure _

theorem composed_alone : Composed Eq alone :=
  .bind (composed_skipTerminators fun _ _ => congrArg Settings.terminator) fun _ =>
    composed_whole (fun _ _ => congrArg Settings.terminator) composed_statement

end Statement

end TableDdl
