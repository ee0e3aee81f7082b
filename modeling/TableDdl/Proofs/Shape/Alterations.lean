import TableDdl.Proofs.Grammar.Parse
import TableDdl.Proofs.Shape.Columns

/-!
# The shape of clauses

An action on a target has one kind of payload, except that an added column may be one or several, and
not every action can be done to every target. The action, the target and the payload of a clause are
read one after another, each by rules of its own; together they always suit each other. So the text
of a clause that was read is never the one of an action without a fitting payload.
-/

namespace TableDdl

open Grammar

variable {sort : Token → Prop}

namespace AlterPayload

/-- The columns that a payload defines. -/
def definedColumns : AlterPayload → List Column
  | column definition => [definition]
  | columns definitions => definitions
  | changeColumn _ definition => [definition]
  | index _ | rename _ | name _ => []

/-- The payload is one that the action has on the target. -/
inductive Suits : AlterAction → AlterTarget → AlterPayload → Prop where
  /-- A column is added. -/
  | addColumn (definition : Column) : Suits .add .column (column definition)
  /-- At least one column is added. -/
  | addColumns {definitions : List Column} (some : definitions ≠ []) :
      Suits .add .column (columns definitions)
  /-- An index is added. -/
  | addIndex (definition : Index) : Suits .add .index (index definition)
  /-- A column is removed. -/
  | dropColumn (text : String) : Suits .drop .column (name text)
  /-- An index is removed. -/
  | dropIndex (text : String) : Suits .drop .index (name text)
  /-- A column gets a new name. -/
  | renameColumn (names : Rename) : Suits .rename .column (rename names)
  /-- An index gets a new name. -/
  | renameIndex (names : Rename) : Suits .rename .index (rename names)
  /-- The table gets a new name. -/
  | renameTable (text : String) : Suits .rename .table (name text)
  /-- A column gets a new name and a new definition. -/
  | changeColumn (oldName : String) (definition : Column) :
      Suits .change .column (changeColumn oldName definition)
  /-- A column gets a new definition. -/
  | modifyColumn (definition : Column) : Suits .modify .column (column definition)

variable {action : AlterAction} {target : AlterTarget} {payload : AlterPayload}

/-- Only what is added, changed or modified is defined. -/
theorem Suits.defines (suits : Suits action target payload) (some : payload.definedColumns ≠ []) :
    action = .add ∨ action = .change ∨ action = .modify := by
  cases suits with
  | addColumn | addColumns | addIndex => exact .inl rfl
  | changeColumn => exact .inr (.inl rfl)
  | modifyColumn => exact .inr (.inr rfl)
  | dropColumn | dropIndex | renameColumn | renameIndex | renameTable => exact absurd rfl some

theorem Suits.target_ne_table_of_drop (suits : Suits .drop target payload) : target ≠ .table := by
  cases suits <;> decide

end AlterPayload

namespace AlterOption

open AlterPayload

/-! ## Texts -/

/-- The text of an action without a fitting payload. -/
def unfitText (action : AlterAction) (target : AlterTarget) : String :=
  action.keyword ++ " " ++ target.keyword

theorem backtick_mem_quoteName (name : String) :
    Text.backtick ∈ (Text.quoteName name).toList := by
  simp [Text.quoteName]

theorem mem_append_right {character : Char} {left right : String}
    (member : character ∈ right.toList) : character ∈ (left ++ right).toList := by
  rw [String.toList_append]
  exact List.mem_append_right _ member

theorem backtick_mem_render (column : Column) : Text.backtick ∈ column.render.toList := by
  simp [Column.render, backtick_mem_quoteName]

/-- A keyword has neither backticks nor parentheses. -/
theorem not_mem_unfitText (action : AlterAction) (target : AlterTarget) :
    Text.backtick ∉ (unfitText action target).toList ∧ '(' ∉ (unfitText action target).toList := by
  cases action <;> cases target <;> decide

theorem renderDrop_ne_unfitText (target : AlterTarget) (name : String) :
    renderDrop target name ≠ unfitText .drop target := by
  unfold renderDrop
  by_cases primary : name = primaryKeyName
  · rw [if_pos primary]
    cases target <;> decide
  · rw [if_neg primary]
    intro same
    refine (not_mem_unfitText .drop target).1 (same ▸ ?_)
    split <;> simp [backtick_mem_quoteName]

/-- A fitting payload is written. -/
theorem renderAction_ne_unfitText {action : AlterAction} {target : AlterTarget}
    {payload : AlterPayload} (suits : Suits action target payload) :
    renderAction target action payload ≠ unfitText action target := by
  have named (written : Text.backtick ∈ (renderAction target action payload).toList) :
      renderAction target action payload ≠ unfitText action target :=
    fun same => (not_mem_unfitText action target).1 (same ▸ written)
  have grouped (written : '(' ∈ (renderAction target action payload).toList) :
      renderAction target action payload ≠ unfitText action target :=
    fun same => (not_mem_unfitText action target).2 (same ▸ written)
  cases suits with
  | addColumn definition | modifyColumn definition | changeColumn oldName definition =>
      exact named (mem_append_right (backtick_mem_render definition))
  | @addColumns definitions =>
      refine grouped (?_ : '(' ∈ ("ADD COLUMN (" ++ _ ++ ")").toList)
      simp
  | addIndex definition =>
      refine grouped (mem_append_right ?_)
      simp [Index.render]
  | dropColumn name | dropIndex name => exact renderDrop_ne_unfitText _ name
  | renameColumn names | renameIndex names =>
      have written : Text.backtick ∈ names.render.toList :=
        mem_append_right (backtick_mem_quoteName names.newName)
      exact named (mem_append_right written)
  | renameTable name => exact named (mem_append_right (backtick_mem_quoteName name))

/-! ## Payloads -/

/-- The payload suits, and every column that it defines is one that can be read. -/
theorem yields_readPayload {holds : Column → Prop} (here : Yields sort holds positionedColumn)
    (action : AlterAction) (target : AlterTarget) (role : Option IndexRole) :
    Yields sort (fun payload => Suits action target payload ∧
      ∀ column ∈ payload.definedColumns, holds column) (readPayload action target role) := by
  have one {definition : Column} (holding : holds definition) :
      ∀ column ∈ [definition], holds column := List.forall_mem_singleton.mpr holding
  have none : ∀ column ∈ ([] : List Column), holds column := List.forall_mem_nil _
  match action, target with
  | .add, .column =>
      refine yields_after fun grouped => yields_ite ?_ ?_
      · exact yields_bind (yields_parenthesized here) fun definitions found =>
          yields_pure ⟨.addColumns found.1, found.2⟩
      · exact yields_bind here fun definition holding =>
          yields_pure ⟨.addColumn definition, one holding⟩
  | .add, .index => exact yields_after fun index => yields_pure ⟨.addIndex index, none⟩
  | .drop, .column => exact yields_after fun name => yields_pure ⟨.dropColumn name, none⟩
  | .drop, .index => exact yields_after fun name => yields_pure ⟨.dropIndex name, none⟩
  | .rename, .column => exact yields_after fun names => yields_pure ⟨.renameColumn names, none⟩
  | .rename, .index => exact yields_after fun names => yields_pure ⟨.renameIndex names, none⟩
  | .rename, .table => exact yields_after fun name => yields_pure ⟨.renameTable name, none⟩
  | .change, .column =>
      exact yields_after fun oldName => yields_bind here fun definition holding =>
        yields_pure ⟨.changeColumn oldName definition, one holding⟩
  | .modify, .column =>
      exact yields_bind here fun definition holding =>
        yields_pure ⟨.modifyColumn definition, one holding⟩
  | .add, .table | .drop, .table | .change, .index | .change, .table | .modify, .index
  | .modify, .table => exact yields_refuse _

/-- The action, the target and the payload of a clause suit each other, and every column of it is one
that can be read. -/
theorem yields_clause {holds : Column → Prop} (here : Yields sort holds positionedColumn) :
    Yields sort (fun option => Suits option.action option.target option.payload ∧
      ∀ column ∈ option.payload.definedColumns, holds column) AlterOption.grammar := by
  refine yields_after fun tableOptions => yields_after fun action => yields_after fun seen => ?_
  by_cases bare : (action = .rename && !seen) = true
  · rw [if_pos bare]
    simp only [Bool.and_eq_true, decide_eq_true_eq] at bare
    obtain ⟨rfl, -⟩ := bare
    exact yields_after fun name => yields_pure ⟨.renameTable name, List.forall_mem_nil _⟩
  · rw [if_neg bare]
    refine yields_after fun found => yields_bind (yields_readPayload here action found.1 found.2) ?_
    exact fun payload suits => yields_pure suits

/-- In every clause that is read, the payload suits the action and the target. Only an added, changed
or modified column says where it goes. No such clause is written as one without a fitting payload,
and none removes the table. -/
theorem suits_of_finds {scope : Scope} {start final : Cursor} {option : AlterOption}
    (found : AlterOption.grammar.Finds scope start option final) :
    Suits option.action option.target option.payload ∧
      (∀ column ∈ option.payload.definedColumns, column.position ≠ none →
        option.action = .add ∨ option.action = .change ∨ option.action = .modify) ∧
      renderAction option.target option.action option.payload ≠
        option.action.keyword ++ " " ++ option.target.keyword ∧
      (option.action = .drop → option.target ≠ .table) := by
  have columns : Yields (fun _ => True) (fun _ => True) positionedColumn :=
    fun _ _ _ _ _ _ => trivial
  have suits := (yields_clause columns scope start option final (fun _ _ => trivial) found).1
  refine ⟨suits, fun column member _ => ?_, renderAction_ne_unfitText suits, fun isDrop => ?_⟩
  · exact suits.defines (List.ne_nil_of_mem member)
  · rw [isDrop] at suits
    exact suits.target_ne_table_of_drop

/-- Of two columns that are added together, one says where it goes. -/
theorem suits_of_finds_group :
    let text := "ADD (a INT FIRST, b TEXT)"
    let columns : List Column :=
      [{ name := "a", typeName := "INT", position := some .first },
        { name := "b", typeName := "TEXT" }]
    let option : AlterOption := ⟨.column, .add, .columns columns, []⟩
    ∃ tokens final, Token.tokenize text = .ok tokens ∧
      AlterOption.grammar.Finds ⟨.standard, .none⟩ (Cursor.ofTokens tokens) option final ∧
      Suits .add .column option.payload ∧
      renderAction .column .add option.payload ≠ "ADD COLUMN" := by
  intro text columns option
  have read : AlterOption.grammar.parse .standard text = .ok option :=
    eq_ok_of_toOption (by decide +kernel)
  obtain ⟨tokens, final, lexed, found⟩ := parse_eq_ok_iff.mp read
  obtain ⟨suits, -, written, -⟩ := suits_of_finds found
  exact ⟨tokens, final, lexed, found, suits, written⟩

end AlterOption

end TableDdl
