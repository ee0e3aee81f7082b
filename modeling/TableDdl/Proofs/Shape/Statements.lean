import TableDdl.Proofs.Lexer.Marks
import TableDdl.Proofs.Shape.Alterations

/-!
# The columns of a script

Columns stand in the definition of a table and in the clauses of an alteration, there one by one, in
groups and behind an old name. All of them have the shape that their data types give them, and all
have a name, since no word and no quoted name of a text is empty. A column of a new table says nothing
about its place.
-/

namespace TableDdl

open Grammar

/-! ## Names -/

/-- A word or a quoted name has at least one character. -/
def Token.Named (token : Token) : Prop :=
  token.kind = .word ∨ token.kind = .identifier → token.text ≠ ""

namespace Lexer

variable {operand : Bool} {characters left : List Char} {tokens : List Token}

theorem Step.word_ne_empty (step : Step operand characters tokens left) :
    ∀ token ∈ tokens, token.kind = .word → token.text ≠ "" := by
  cases step with
  | blank | line | comment => exact nofun
  | string | binary => simp
  | @name rest text left closes =>
      by_cases empty : text = [] <;> simp [nameTokens, empty, backtickToken]
  | @number character rest text kind digit scanned =>
      obtain ⟨others, rfl⟩ := number_starts digit scanned
      simp
  | signed | word => simp
  | @mark character rest kind known => simp

/-- The words and the quoted names of a text are not empty. -/
theorem named_ofTokens {text : String} {tokens : List Token}
    (read : Token.tokenize text = .ok tokens) :
    ∀ token ∈ (Cursor.ofTokens tokens).ahead, token.Named := by
  obtain ⟨body, last, rfl, lexes⟩ := lexes_of_tokensFrom read
  rw [Cursor.ofTokens_append_finish]
  intro token member
  have place : token.placeless ∈ body.map Token.placeless := List.mem_map_of_mem member
  have proper := lexes.forall_mem Step.proper _ place
  have word := lexes.forall_mem Step.word_ne_empty _ place
  rintro (isWord | isName)
  · exact word isWord
  · exact proper.name isName

end Lexer

theorem Cursor.current_text_ne_empty {cursor : Cursor}
    (named : ∀ token ∈ cursor.ahead, token.Named)
    (kind : cursor.current.kind = .word ∨ cursor.current.kind = .identifier) :
    cursor.current.text ≠ "" := by
  cases ahead : cursor.ahead with
  | nil =>
      have isEnd : cursor.current.isEnd = true := by
        simp [Cursor.current, ahead, cursor.finish_isEnd]
      rcases kind with kind | kind <;> simp [Token.isEnd, kind] at isEnd
  | cons token rest =>
      have current := Cursor.current_of_ahead_eq_cons ahead
      rw [current] at kind ⊢
      exact named token (by simp [ahead]) kind

namespace Grammar

theorem yields_name? :
    Yields Token.Named (fun found => ∀ name ∈ found, name ≠ "") name? := by
  intro scope start found? final named found
  rw [name?, finds_consume_ite_iff] at found
  split at found
  · simp only [seesKind, current, finds_look_bind_iff] at found
    split at found
    · rename_i isIdentifier
      rw [finds_look_bind_iff, finds_advance_bind_iff] at found
      obtain ⟨-, found⟩ := finds_expect_bind_iff.mp found
      obtain ⟨rfl, -⟩ := finds_pure_iff.mp found
      have inside : ∀ token ∈ start.advance.ahead, token.Named :=
        fun token member => named token (List.mem_of_mem_tail member)
      rintro _ ⟨⟩
      exact Cursor.current_text_ne_empty inside (.inr (of_decide_eq_true isIdentifier))
    · simp at found
  · simp only [seesKind, atStop, current, finds_look_bind_iff] at found
    split at found
    · rename_i bare
      rw [finds_look_bind_iff, finds_advance_bind_iff] at found
      obtain ⟨rfl, -⟩ := finds_pure_iff.mp found
      simp only [Bool.and_eq_true, decide_eq_true_eq] at bare
      rintro _ ⟨⟩
      exact Cursor.current_text_ne_empty named (.inl bare.1)
    · obtain ⟨rfl, -⟩ := finds_pure_iff.mp found
      simp

/-- A name that is found among such tokens is not empty. -/
theorem yields_name : Yields Token.Named (· ≠ "") name := by
  refine yields_bind yields_name? fun found? named => ?_
  cases found? with
  | none => exact yields_refuse _
  | some found => exact yields_pure (named found rfl)

end Grammar

/-! ## Columns of statements -/

section Columns

variable {sort : Token → Prop} {holds : Column → Prop}

theorem TableElement.yields_element (here : Yields sort holds Column.grammar) :
    Yields sort (fun element => ∀ definition, element = .column definition → holds definition)
      TableElement.grammar := by
  refine yields_after fun word => yields_ite ?_ (yields_ite ?_ ?_)
  · exact yields_after fun index => yields_pure (by simp)
  · exact yields_after fun constraint => yields_pure (by simp)
  · refine yields_bind here fun definition holding => yields_pure ?_
    rintro _ ⟨⟩
    exact holding

/-- What all columns have, the columns of a new table have. -/
theorem Table.yields_table (here : Yields sort holds Column.grammar) :
    Yields sort (fun table => ∀ column ∈ table.columns, holds column) Table.grammar := by
  have elements : Yields sort (fun found : List TableElement × Tail =>
      ∀ column ∈ TableElement.columns found.1, holds column) definitionsAndTail := by
    refine yields_bind (yields_parenthesized (TableElement.yields_element here)) ?_
    refine fun elements found => yields_after fun tail => yields_pure fun column member => ?_
    obtain ⟨element, inside, isColumn⟩ := List.mem_filterMap.mp member
    cases element with
    | column definition =>
        obtain rfl : definition = column := Option.some.inj isColumn
        exact found.2 _ inside definition rfl
    | index | constraint => cases isColumn
  refine yields_after fun _ => yields_after fun isTemporary => yields_after fun _ => ?_
  refine yields_after fun ifNotExists => yields_after fun name => yields_after fun settings => ?_
  refine yields_bind (yields_withStops elements) fun found holding => yields_after fun ended => ?_
  exact yields_ite (yields_pure holding) yields_refuse_bind

/-- What all clauses have, the clauses of an alteration have. -/
theorem AlterTable.yields_clauses {kept : AlterOption → Prop}
    (here : Yields sort kept AlterOption.grammar) :
    Yields sort (fun options => ∀ option ∈ options, kept option) clauses := by
  have further : Yields sort (fun found => ∀ option ∈ found, kept option) (do
      if ← consume "," then
        if ← atClausesEnd then return none else return some (← AlterOption.grammar)
      else
        return none) := by
    refine yields_after fun comma => yields_ite (yields_after fun ended => ?_) yields_none
    exact yields_ite yields_none (yields_some here)
  refine yields_after fun ended => yields_ite (yields_pure (List.forall_mem_nil _)) ?_
  refine yields_bind here fun first isFirst => yields_bind (yields_many further) ?_
  exact fun others areOthers => yields_pure (List.forall_mem_cons.mpr ⟨isFirst, areOthers⟩)

theorem AlterTable.yields_alteration {kept : AlterOption → Prop}
    (here : Yields sort kept AlterOption.grammar) :
    Yields sort (fun alteration => ∀ option ∈ alteration.options, kept option)
      AlterTable.grammar := by
  refine yields_after fun _ => yields_after fun _ => yields_after fun tableName => ?_
  refine yields_after fun settings => ?_
  refine yields_bind (yields_withStops (yields_clauses here)) fun options found => ?_
  refine yields_after fun divided => yields_ite ?_ ?_
  all_goals
    refine yields_after fun partitioning => yields_after fun ended => ?_
    exact yields_ite (yields_ite yields_refuse_bind (yields_pure found)) yields_refuse_bind

end Columns

/-! ## Scripts -/

namespace Statement

/-- The columns that a statement defines. -/
def definedColumns : Statement → List Column
  | createTable table => table.columns
  | alterTable alteration => alteration.options.flatMap fun option => option.payload.definedColumns

/-- What all statements have, the statements of a script have. -/
theorem yields_script {sort : Token → Prop} {holds : Statement → Prop}
    (here : Yields sort holds Statement.grammar) :
    Yields sort (fun statements => ∀ statement ∈ statements, holds statement) script := by
  refine yields_many (yields_after fun _ => yields_after fun ended => ?_)
  exact yields_ite yields_none (yields_some here)

/-- The column has its shape and a name, and says where it goes only in an alteration. -/
structure Defines (statement : Statement) (column : Column) : Prop where
  /-- The parameters are those of the data type. -/
  shaped : column.Shaped
  /-- There is a name. -/
  named : column.name ≠ ""
  /-- A column of a new table does not say where it goes. -/
  unplaced : ∀ table, statement = createTable table → column.position = none

theorem yields_statement :
    Yields Token.Named (fun statement => ∀ column ∈ statement.definedColumns,
      statement.Defines column) Statement.grammar := by
  have created : Yields Token.Named (fun column : Column =>
      column.Shaped ∧ column.name ≠ "" ∧ column.position = none) Column.grammar :=
    yields_bind yields_name fun name named => (Column.yields_afterName name).mono
      fun column follows => ⟨follows.toShaped, by rwa [follows.name], follows.unplaced⟩
  have altered := AlterOption.yields_clause (AlterOption.yields_positionedColumn yields_name)
  refine yields_after fun creates => yields_ite ?_ (yields_after fun alters => yields_ite ?_ ?_)
  · refine yields_bind (Table.yields_table created) fun table found => yields_pure ?_
    intro column member
    obtain ⟨shaped, named, unplaced⟩ := found column member
    exact ⟨shaped, named, fun _ _ => unplaced⟩
  · refine yields_bind (AlterTable.yields_alteration altered) fun alteration found => yields_pure ?_
    intro column member
    obtain ⟨option, inside, member⟩ := List.mem_flatMap.mp member
    obtain ⟨shaped, named⟩ := (found option inside).2 column member
    exact ⟨shaped, named, nofun⟩
  · exact yields_refuse _

/-- Every column of a script has the parameters of its data type and a name, in new tables and in all
kinds of clauses, and no column of a new table says where it goes. -/
theorem defines_of_parseScript {settings : Settings} {text : String} {statements : List Statement}
    (read : parseScript settings text = .ok statements) :
    ∀ statement ∈ statements, ∀ column ∈ statement.definedColumns, statement.Defines column := by
  obtain ⟨tokens, final, lexed, found⟩ := parse_eq_ok_iff.mp read
  exact yields_script yields_statement _ _ _ _ (Lexer.named_ofTokens lexed) found

/-- A new column is of the type `ENUM`, and two columns are added together. -/
theorem defines_of_parseScript_added :
    let text := "CREATE TABLE t (a enum('x')); ALTER TABLE t ADD (b dec(4,2) zerofill FIRST, c text)"
    let created : Column := { name := "a", typeName := "ENUM", variants := some [.string "x"] }
    let placed : Column :=
      { name := "b", typeName := "DEC", width := some 4, decimals := some 2,
        isUnsigned := true, isZerofill := true, position := some .first }
    ∃ statements, parseScript .standard text = .ok statements ∧
      statements.map definedColumns =
        [[created], [placed, { name := "c", typeName := "TEXT" }]] ∧
      created.Shaped ∧ placed.Shaped := by
  intro text created placed
  let table : Table := ⟨"t", false, false, [created], [], [], none, none⟩
  let alteration : AlterTable :=
    ⟨"t", [⟨.column, .add, .columns [placed, { name := "c", typeName := "TEXT" }], []⟩], none⟩
  have read : parseScript .standard text = .ok [createTable table, alterTable alteration] :=
    eq_ok_of_toOption (by decide +kernel)
  have defines := defines_of_parseScript read
  refine ⟨_, read, rfl, (defines (createTable table) ?_ created ?_).shaped,
    (defines (alterTable alteration) ?_ placed ?_).shaped⟩ <;>
    simp [definedColumns, AlterPayload.definedColumns, table, alteration]

end Statement

end TableDdl
