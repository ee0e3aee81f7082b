import TableDdl.Proofs.Grammar.Parse
import TableDdl.Proofs.RoundTrip.Constraints
import TableDdl.Proofs.RoundTrip.Partitions

/-!
# Canonical tables are read back

The definitions of a table are read back one by one: the first token of each says whether it is a
column, an index or a constraint, and a comma or the closing parenthesis ends it. After them come the
comment and the partitioning.
-/

namespace TableDdl

open Grammar
open Lexer hiding nameTokens
open Column (partTokens flagTokens)

variable {operand : Bool} {scope : Scope} {after : List Token}

namespace TableElement

/-- A definition of a table that is read back from its text. -/
inductive Canonical : TableElement → Prop where
  | column {definition : Column} (canonical : definition.Canonical)
      (noPosition : definition.position = none) : Canonical (.column definition)
  | index {definition : Index} (canonical : definition.Canonical)
      (notForeign : definition.role ≠ some .foreign) : Canonical (.index definition)
  | constraint {definition : Constraint} (canonical : definition.Canonical) :
      Canonical (.constraint definition)

/-- The text of a definition. -/
def render : TableElement → String
  | column definition => definition.render
  | index definition => definition.render
  | constraint definition => definition.render

/-- The tokens of a definition. -/
def tokens : TableElement → List Token
  | column definition => definition.tokens
  | index definition => definition.tokens
  | constraint definition => definition.tokens

/-- The definition is allowed under the settings. -/
def Allowed (settings : Settings) : TableElement → Prop
  | constraint definition => settings.strictConstraints = true → definition.isForeignKey = true
  | _ => True

variable {element : TableElement}

theorem Canonical.spelled (canonical : element.Canonical) :
    Spelled operand element.render element.tokens := by
  cases canonical with
  | column canonical noPosition => exact canonical.spelled
  | index canonical notForeign => exact canonical.spelled
  | constraint canonical => exact canonical.spelled

/-- A comma or a closing parenthesis follows. -/
def Followed (after : List Token) : Prop :=
  ∀ token ∈ after.head?, token = Token.comma ∨ token = Token.closing

theorem Followed.ends (followed : Followed after) (stops : Stops) :
    Ends (stops.adding [","]) after := by
  cases after with
  | nil => exact ends_nil _
  | cons token rest =>
      rcases followed token rfl with rfl | rfl
      · exact ends_comma _ _
      · exact ends_closing _ _

theorem Followed.unseen (followed : Followed after) {text : String}
    (noComma : Token.comma.spells text = false) (noClosing : Token.closing.spells text = false) :
    Unseen text after := by
  intro token first
  rcases followed token first with rfl | rfl
  · exact noComma
  · exact noClosing

/-- A canonical definition is read from its tokens. -/
theorem Canonical.reads (canonical : element.Canonical)
    (stops : scope.stops = Stops.none.adding [";"]) (allowed : element.Allowed scope.settings)
    (followed : Followed after) :
    TableElement.grammar.Reads scope (element.tokens ++ after) element after := by
  have ends := followed.ends scope.stops
  cases canonical with
  | @column definition canonical noPosition =>
      have isOpen : Column.Open scope.stops := by
        rw [stops]
        exact show ∀ word ∈ Column.attributeWords, word ∉ (Stops.none.adding [";"]).words by decide
      have reads : Column.grammar.Reads scope (definition.tokens ++ after) definition after :=
        canonical.reads noPosition isOpen ⟨ends, followed.unseen (by decide) (by decide)⟩
      have first : ∃ others, (TableElement.column definition).tokens ++ after =
          backtickToken :: others := by
        simp only [tokens, Column.tokens, nameTokens_eq canonical.name]
        exact ⟨_, rfl⟩
      obtain ⟨others, first⟩ := first
      rw [first]
      refine reads_keyword?_bind ?_
      rw [← first]
      exact reads.bind (reads_pure _)
  | @index definition canonical notForeign =>
      have reads : Index.grammar.Reads scope (definition.tokens ++ after) definition after :=
        canonical.reads ⟨ends, followed.unseen (by decide) (by decide)⟩
      have first : ∃ word others, definition.tokens ++ after = .bare .word word :: others ∧
          Index.startsWith (Text.upper word) = true := by
        simp only [Index.tokens, Index.startTokens]
        cases found : definition.role with
        | none => exact ⟨"KEY", _, rfl, by decide⟩
        | some role =>
            refine ⟨role.keyword, _, rfl, ?_⟩
            cases role with
            | foreign => exact absurd found notForeign
            | _ => decide
      obtain ⟨word, others, first, starts⟩ := first
      change TableElement.grammar.Reads scope (definition.tokens ++ after) _ after
      rw [first] at reads ⊢
      refine reads_keyword?_bind ?_
      have keyword : Token.keyword? (.bare .word word) = some (Text.upper word) := rfl
      rw [keyword, Option.getD_some, if_pos starts]
      exact reads.bind (reads_pure _)
  | @constraint definition canonical =>
      have noEvent : ∀ text ∈ ["MATCH", "ON"], Unseen text after := by
        have others : ∀ text ∈ ["MATCH", "ON"],
            Token.comma.spells text = false ∧ Token.closing.spells text = false := by decide
        exact fun text member => followed.unseen (others text member).1 (others text member).2
      have reads : Constraint.grammar.Reads scope (definition.tokens ++ after) definition after :=
        canonical.reads stops allowed ⟨ends, noEvent⟩
      refine reads_keyword?_bind ?_
      exact reads.bind (reads_pure _)

end TableElement

namespace Table

/-- The definitions of a table, in the order in which they are written. -/
def elements (table : Table) : List TableElement :=
  table.columns.map .column ++ table.indexes.map .index ++ table.constraints.map .constraint

/-- A table that is read back from its text. -/
structure Canonical (table : Table) : Prop where
  name : table.name ≠ ""
  defined : table.columns ≠ [] ∨ table.indexes ≠ [] ∨ table.constraints ≠ []
  columns : ∀ column ∈ table.columns, column.Canonical ∧ column.position = none
  indexes : ∀ index ∈ table.indexes, index.Canonical ∧ index.role ≠ some .foreign
  constraints : ∀ constraint ∈ table.constraints, constraint.Canonical
  partitioning : ∀ partitioning ∈ table.partitioning, partitioning.Canonical

/-- The constraints of the table are allowed under the settings. -/
def Allowed (settings : Settings) (table : Table) : Prop :=
  settings.strictConstraints = true →
    ∀ constraint ∈ table.constraints, constraint.isForeignKey = true

/-- The tokens of the options of a table. -/
def tailTokens (table : Table) : List Token :=
  partTokens [.bare .word "COMMENT"] (fun text => [.bare .quotedString text]) table.comment ++
    partTokens [] Partitioning.tokens table.partitioning

/-- The tokens of a table. -/
def tokens (table : Table) : List Token :=
  .bare .word "CREATE" :: (flagTokens "TEMPORARY" table.isTemporary ++ .bare .word "TABLE" ::
    ((if table.ifNotExists then [.bare .word "IF", .bare .word "NOT", .bare .word "EXISTS"] else []) ++
      (nameTokens table.name ++ (Token.enclosed TableElement.tokens table.elements ++
        table.tailTokens))))

variable {table : Table}

theorem renderDefinitions_eq (table : Table) :
    table.renderDefinitions = table.elements.map TableElement.render := by
  simp only [renderDefinitions, elements, List.map_append, List.map_map]
  rfl

theorem filterMap_unmatched {α β : Type} (items : List α) :
    (items.filterMap fun _ => (none : Option β)) = [] := by
  simp

theorem columns_elements (table : Table) : TableElement.columns table.elements = table.columns := by
  simp [TableElement.columns, elements, List.filterMap_append, List.filterMap_map,
    Function.comp_def]

theorem indexes_elements (table : Table) : TableElement.indexes table.elements = table.indexes := by
  simp [TableElement.indexes, elements, List.filterMap_append, List.filterMap_map,
    Function.comp_def, filterMap_unmatched]

theorem constraints_elements (table : Table) :
    TableElement.constraints table.elements = table.constraints := by
  simp [TableElement.constraints, elements, List.filterMap_append, List.filterMap_map,
    Function.comp_def, filterMap_unmatched]

theorem Canonical.elements (canonical : table.Canonical) :
    ∀ element ∈ table.elements, element.Canonical := by
  intro element member
  simp only [Table.elements, List.mem_append, List.mem_map] at member
  rcases member with (⟨column, member, rfl⟩ | ⟨index, member, rfl⟩) | ⟨constraint, member, rfl⟩
  · exact .column (canonical.columns column member).1 (canonical.columns column member).2
  · exact .index (canonical.indexes index member).1 (canonical.indexes index member).2
  · exact .constraint (canonical.constraints constraint member)

theorem Allowed.elements {settings : Settings} (allowed : table.Allowed settings) :
    ∀ element ∈ table.elements, element.Allowed settings := by
  intro element member
  simp only [Table.elements, List.mem_append, List.mem_map] at member
  rcases member with (⟨column, member, rfl⟩ | ⟨index, member, rfl⟩) | ⟨constraint, member, rfl⟩
  · trivial
  · trivial
  · exact fun strict => allowed strict constraint member

theorem attached_comment (comment : Option String) :
    Attached (match comment with
      | some comment => " COMMENT " ++ Text.quoteString comment
      | none => "")
      (partTokens [.bare .word "COMMENT"] (fun text => [.bare .quotedString text]) comment) := by
  cases comment with
  | none => exact attached_empty
  | some text =>
      have part : Attached (" COMMENT " ++ Text.quoteString text)
          ([.bare .word "COMMENT"] ++ [.bare .quotedString text]) :=
        attached_closed (by decide) (by decide) fun _ => spelled_quoteString text
      exact part

/-- A canonical table is read as its tokens. -/
theorem Canonical.spelled (canonical : table.Canonical) :
    Spelled operand table.render table.tokens := by
  have start : Closed operand "CREATE " [.bare .word "CREATE"] := closed_plain (by decide)
  have temporary (operand : Bool) : Closed operand (if table.isTemporary then "TEMPORARY " else "")
      (flagTokens "TEMPORARY" table.isTemporary) := by
    cases table.isTemporary with
    | false => exact closed_empty
    | true => exact closed_plain (by decide)
  have keyword (operand : Bool) : Closed operand "TABLE " [.bare .word "TABLE"] :=
    closed_plain (by decide)
  have ifNotExists (operand : Bool) :
      Closed operand (if table.ifNotExists then "IF NOT EXISTS " else "")
        (if table.ifNotExists then [.bare .word "IF", .bare .word "NOT", .bare .word "EXISTS"]
          else []) := by
    cases table.ifNotExists with
    | false => exact closed_empty
    | true => exact closed_plain (by decide)
  have list (operand : Bool) : Closed operand
      (" (\n" ++ ",\n".intercalate (table.elements.map TableElement.render) ++ "\n)")
      (Token.enclosed TableElement.tokens table.elements ++ []) :=
    closed_enclosed (by decide) (by decide) (by decide) (by decide) (by decide)
      fun element member => (canonical.elements element member).spelled
  have definitions : Attached
      (" (\n" ++ (",\n".intercalate (table.elements.map TableElement.render) ++ "\n)"))
      (Token.enclosed TableElement.tokens table.elements) := by
    refine ⟨fun operand => ?_, gapped_append (by decide)⟩
    have spelled := (list operand).spelled
    rwa [List.append_nil, String.append_assoc] at spelled
  have whole := (start.append_closed ((temporary _).append_closed ((keyword _).append_closed
    (ifNotExists _)))).append ((spelled_quoteName table.name).attach (definitions.append
    ((attached_comment table.comment).append
      (Partitioning.attached_part _ canonical.partitioning))))
  simp only [String.append_assoc, List.append_assoc, List.cons_append, List.nil_append] at whole
  unfold render tokens tailTokens
  rw [renderDefinitions_eq]
  simp only [String.append_assoc]
  exact whole

/-! ## Reading a table -/

/-- The statement ends: nothing follows, or its terminator does. -/
def Ended (after : List Token) : Prop :=
  ∀ token ∈ after.head?, token = .bare .semicolon ";"

theorem ended_nil : Ended [] := by simp [Ended]

theorem Ended.unseen (ended : Ended after) {text : String}
    (other : Token.spells (.bare .semicolon ";") text = false) : Unseen text after := by
  intro token first
  rw [ended token first]
  exact other

theorem Ended.ends (ended : Ended after) (stops : scope.stops = Stops.none.adding [";"]) :
    Ends (scope.stops.adding []) after := by
  intro token first
  rw [ended token first, stops]
  exact .inr (by decide)

theorem Ended.atTerminator (ended : Ended after) {settings : Settings} {start : Cursor}
    (view : start.view = after) (terminator : settings.terminator = ";") :
    (start.atEnd || start.current.spells settings.terminator) = true := by
  cases after with
  | nil => simp [Cursor.atEnd, Cursor.isEnd_of_view_nil view]
  | cons token rest =>
      rw [Cursor.spells_of_view view, ended token rfl, terminator]
      simp [show Token.spells (.bare .semicolon ";") ";" = true by decide]

theorem reads_ifNotExists {name : String} (isSet : Bool) (nonempty : name ≠ "") :
    readIfNotExists.Reads scope
      ((if isSet then [.bare .word "IF", .bare .word "NOT", .bare .word "EXISTS"] else []) ++
        (nameTokens name ++ after)) isSet (nameTokens name ++ after) := by
  cases isSet with
  | false =>
      refine reads_consume_ite_unseen ?_ (reads_pure false)
      rw [nameTokens_eq nonempty]
      exact unseen_cons (by decide)
  | true =>
      refine reads_consume_ite (by decide) (reads_expect_bind (by decide) ?_)
      exact reads_expect_bind (by decide) (reads_pure true)

theorem Canonical.reads_elements (canonical : table.Canonical)
    (stops : scope.stops = Stops.none.adding [";"]) (allowed : table.Allowed scope.settings) :
    TableElement.list.Reads scope (Token.enclosed TableElement.tokens table.elements ++ after)
      table.elements after := by
  have nonempty : table.elements ≠ [] := by
    simp only [Table.elements, ne_eq, List.append_eq_nil_iff, List.map_eq_nil_iff]
    have defined := canonical.defined
    tauto
  refine reads_parenthesized TableElement.Followed nonempty
    (fun element member after followed => ?_) ⟨fun rest => ?_, ?_⟩
  · exact (canonical.elements element member).reads stops (allowed.elements element member) followed
  · simp [TableElement.Followed]
  · simp [TableElement.Followed]

/-- The visitor of the options of a table. -/
def tailVisitor : Visitor Tail := fun depth tail =>
  if depth = 0 then readOption tail else return (false, tail)

theorem Canonical.reads_tail (canonical : table.Canonical)
    (stops : scope.stops = Stops.none.adding [";"]) (ended : Ended after) :
    tail.Reads scope (table.tailTokens ++ after) ⟨table.comment, table.partitioning⟩ after := by
  have partitioning (comment : Option String) : ReadsScan (scope.stops.adding []) tailVisitor scope 0
      ⟨comment, none⟩ (partTokens [] Partitioning.tokens table.partitioning ++ after)
      ⟨comment, table.partitioning⟩ after := by
    cases found : table.partitioning with
    | none => exact readsScan_done (ended.ends stops)
    | some partitioning =>
        have noFollower : ∀ text ∈ Partitioning.followers, Unseen text after := by
          have others : ∀ text ∈ Partitioning.followers,
              Token.spells (.bare .semicolon ";") text = false := by decide
          exact fun text member => ended.unseen (others text member)
        have reads : Partitioning.grammar.Reads scope (partitioning.tokens ++ after) partitioning
            after := (canonical.partitioning partitioning found).reads noFollower
        obtain ⟨others, tokens⟩ := partitioning.exists_tokens_eq
        simp only [partTokens, tokens, List.nil_append, List.cons_append] at reads ⊢
        refine readsScan_taken (Column.shown_word (by rw [stops]; decide)) ?_ ?_
          (readsScan_done (ended.ends stops))
        · refine reads_consume_ite_unseen (unseen_cons (by decide)) ?_
          refine reads_sees_bind (by decide) (reads_nextSees_bind (by decide) ?_)
          exact reads.bind (reads_pure _)
        · simp only [List.length_cons, List.length_append]
          omega
  have run : ReadsScan (scope.stops.adding []) tailVisitor scope 0 ⟨none, none⟩
      (table.tailTokens ++ after) ⟨table.comment, table.partitioning⟩ after := by
    simp only [tailTokens, List.append_assoc]
    cases table.comment with
    | none => exact partitioning none
    | some text =>
        change ReadsScan _ _ _ _ _ (.bare .word "COMMENT" :: .bare .quotedString text ::
          (partTokens [] Partitioning.tokens table.partitioning ++ after)) _ _
        have noEquals : Token.spells (.bare .quotedString text) "=" = false := by
          simp [Token.spells, Token.isPunctuation, Token.Kind.isPunctuation]
        refine readsScan_taken (Column.shown_word (by rw [stops]; decide)) ?_ ?_
          (partitioning (some text))
        · refine reads_consume_ite (by decide) ?_
          refine reads_consume_bind_unseen (unseen_cons noEquals) ?_
          refine reads_seesKind_bind rfl (reads_current_bind (fun _ => rfl) ?_)
          exact reads_advance_bind (reads_pure _)
        · simp only [List.length_cons, List.length_append]
          omega
  exact reads_scan run

/-- A canonical table is read from its tokens. -/
theorem Canonical.reads {settings : Settings} (canonical : table.Canonical)
    (terminator : settings.terminator = ";") (allowed : table.Allowed settings)
    (ended : Ended after) :
    Table.grammar.Reads ⟨settings, .none⟩ (table.tokens ++ after) table after := by
  have definitions : (withStops [settings.terminator] definitionsAndTail).Reads ⟨settings, .none⟩
      (Token.enclosed TableElement.tokens table.elements ++ (table.tailTokens ++ after))
      (table.elements, ⟨table.comment, table.partitioning⟩) after := by
    rw [terminator]
    refine reads_withStops ((canonical.reads_elements rfl allowed).bind ?_)
    exact (canonical.reads_tail rfl ended).bind (reads_pure _)
  have noTable : Token.spells (.bare .word "TABLE") "TEMPORARY" = false := by decide
  have same : { name := table.name, isTemporary := table.isTemporary
                ifNotExists := table.ifNotExists, columns := TableElement.columns table.elements
                indexes := TableElement.indexes table.elements
                constraints := TableElement.constraints table.elements
                comment := table.comment, partitioning := table.partitioning } = table := by
    rw [columns_elements, indexes_elements, constraints_elements]
  simp only [tokens, List.cons_append, List.append_assoc]
  refine reads_expect_bind (by decide) ?_
  refine (Column.reads_flag (by decide) (unseen_cons noTable)).bind ?_
  refine reads_expect_bind (by decide) ?_
  refine (reads_ifNotExists table.ifNotExists canonical.name).bind ?_
  refine (reads_orRefuse (reads_name canonical.name)).bind (reads_settings_bind ?_)
  refine definitions.bind (reads_look_bind (fun start view => ended.atTerminator view terminator) ?_)
  rw [same]
  exact reads_pure table

end Table

namespace Grammar

variable {α : Type} {grammar : Grammar α} {settings : Settings} {text : String} {value : α}
  {before tokens : List Token}

theorem reads_skipTerminators (unseen : Unseen settings.terminator before) :
    skipTerminators.Reads ⟨settings, .none⟩ before () before := by
  have none : Reads (many do
      if (← atEnd) then return none
      else if ← consume (← Grammar.settings).terminator then return some ()
      else return none) ⟨settings, .none⟩ before [] before := by
    refine reads_many_nil (reads_look_bind_any fun isEnd => ?_)
    cases isEnd with
    | true => exact reads_pure none
    | false => exact reads_settings_bind (reads_consume_ite_unseen unseen (reads_pure none))
  exact none.bind (reads_pure ())

theorem reads_whole (reads : grammar.Reads ⟨settings, .none⟩ tokens value []) :
    grammar.whole.Reads ⟨settings, .none⟩ tokens value [] := by
  refine reads.bind ((reads_skipTerminators (unseen_nil _)).bind ?_)
  exact reads_look_bind (fun _ view => Cursor.isEnd_of_view_nil view) (reads_pure value)

/-- What is read from the tokens of a text is read from the text. -/
theorem parse_of_reads (spelled : Spelled false text tokens)
    (reads : grammar.Reads ⟨settings, .none⟩ tokens value []) :
    grammar.parse settings text = .ok value := by
  have lexes := spelled [] gap_nil
  rw [List.append_nil] at lexes
  refine parse_of_finds lexes fun start view => ?_
  obtain ⟨final, found, -⟩ := reads start view
  exact ⟨final, found⟩

end Grammar

namespace Statement

/-- What is read as a statement from the tokens of a text is the one statement of the text. -/
theorem parse_of_grammar_reads {settings : Settings} {text : String} {tokens : List Token}
    {statement : Statement} (spelled : Spelled false text tokens)
    (noTerminator : Unseen settings.terminator tokens)
    (reads : Statement.grammar.Reads ⟨settings, .none⟩ tokens statement []) :
    Statement.parse settings text = .ok statement :=
  parse_of_reads spelled ((reads_skipTerminators noTerminator).bind (reads_whole reads))

theorem parse_render_table {settings : Settings} {table : Table}
    (terminator : settings.terminator = ";") (canonical : table.Canonical)
    (allowed : table.Allowed settings) :
    Statement.parse settings table.render = .ok (createTable table) := by
  have reads := canonical.reads terminator allowed Table.ended_nil
  rw [List.append_nil] at reads
  refine parse_of_grammar_reads canonical.spelled ?_ ?_
  · rw [terminator]
    exact unseen_cons (by decide)
  · exact reads_sees_bind (by decide) (reads.bind (reads_pure _))

/-- The text of a canonical table is read as that table, under the default terminator; where only
foreign keys are allowed as constraints, all of its constraints must be such. -/
theorem parse_render_createTable {settings : Settings} {table : Table}
    (terminator : settings.terminator = ";") (canonical : table.Canonical)
    (allowed : table.Allowed settings) :
    Statement.parse settings (createTable table).render = .ok (createTable table) ∧
      Table.parse settings table.render = .ok table := by
  have reads := canonical.reads terminator allowed Table.ended_nil
  rw [List.append_nil] at reads
  exact ⟨parse_render_table terminator canonical allowed,
    parse_of_reads canonical.spelled (reads_whole reads)⟩

/-- A temporary table with columns of two families, a primary key, a check, a comment and
partitions that are divided again. -/
theorem parse_render_createTable_orders :
    let price : Column := {
      name := "price", typeName := "DECIMAL", width := some 10, decimals := some 2
      isUnsigned := true, isNullable := false, defaultValue := some (.integer (-1)) }
    let changed : Column := {
      name := "changed", typeName := "TIMESTAMP", width := some 6
      onUpdate := some (.raw "NOW(6)"), comment := some "it's" }
    let byYear : PartitionClause := {
      kind := .range, expression := some "YEAR(changed)"
      definitions := [⟨"old", some .lessThan, [.integer 2000], []⟩, ⟨"new", none, [], []⟩] }
    let byKey : PartitionClause := { kind := .key, algorithm := some 2, count := some 4 }
    let table : Table := {
      name := "or\x60ders", isTemporary := true, ifNotExists := true, columns := [price, changed]
      indexes := [⟨none, some "BTREE", some .primary, ["price", "changed"]⟩]
      constraints := [⟨some "positive", .unsupported "CHECK (\x60price\x60 > 0)"⟩]
      comment := some "all", partitioning := some (.nested byYear (.single byKey)) }
    Statement.parse .standard (createTable table).render = .ok (createTable table) ∧
      Table.parse .standard table.render = .ok table := by
  intro price changed byYear byKey table
  have now : (Literal.raw "NOW(6)").Canonical := by
    have call : (Literal.raw ("NOW" ++ "(" ++ "6" ++ ")")).Canonical :=
      .call (by decide +kernel) (Token.isExpression_of_isOwnExpression (by decide +kernel))
    exact call
  have year : PartitionClause.IsFunction "YEAR(changed)" :=
    ⟨by decide, Token.isExpression_of_isOwnExpression (by decide +kernel)⟩
  have check : Constraint.IsClause true "CHECK (\x60price\x60 > 0)" :=
    Constraint.isClause_of_isOwnClause (by decide +kernel)
  have priceCanonical : price.Canonical := by
    refine ⟨by decide, by decide +kernel, by decide +kernel, by decide, ?_, ?_, nofun⟩
    · refine ⟨by decide +kernel, nofun, nofun, ?_, ?_, by decide, ?_⟩ <;> decide +kernel
    · rintro literal ⟨⟩
      exact .integer _
  have changedCanonical : changed.Canonical := by
    refine ⟨by decide, by decide +kernel, by decide +kernel, by decide, ?_, nofun, ?_⟩
    · refine ⟨by decide +kernel, nofun, nofun, ?_, ?_, by decide, ?_⟩ <;> decide +kernel
    · rintro literal ⟨⟩
      exact ⟨now, by decide⟩
  have byYearCanonical : byYear.Canonical := by
    refine ⟨⟨by decide, by decide, by decide, by decide, nofun, by decide⟩, ?_, nofun, ?_⟩
    · rintro text ⟨⟩
      exact year
    · intro definition member
      simp only [byYear, List.mem_cons, List.not_mem_nil, or_false] at member
      rcases member with rfl | rfl
      · refine ⟨by decide, rfl, by decide, fun literal member => ?_⟩
        rw [List.mem_singleton.mp member]
        exact .integer _
      · exact ⟨by decide, rfl, by decide, nofun⟩
  have byKeyCanonical : byKey.Canonical :=
    ⟨⟨by decide, by decide, by decide, by decide, by decide +kernel, by decide⟩, nofun, nofun,
      nofun⟩
  refine parse_render_createTable rfl ⟨by decide, by decide, ?_, ?_, ?_, ?_⟩ nofun
  · intro column member
    simp only [table, List.mem_cons, List.not_mem_nil, or_false] at member
    rcases member with rfl | rfl
    · exact ⟨priceCanonical, rfl⟩
    · exact ⟨changedCanonical, rfl⟩
  · intro index member
    rw [List.mem_singleton.mp member]
    refine ⟨⟨nofun, by decide, by decide, ?_⟩, by decide⟩
    decide +kernel
  · intro constraint member
    rw [List.mem_singleton.mp member]
    refine ⟨by decide, nofun, ?_⟩
    rintro text ⟨⟩
    exact check
  · rintro partitioning ⟨⟩
    exact .nested byYearCanonical byKeyCanonical (.inr rfl) rfl

end Statement

end TableDdl
