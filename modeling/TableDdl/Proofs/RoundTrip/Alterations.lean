import TableDdl.Alter.Grammar
import TableDdl.Proofs.RoundTrip.TableOptions
import TableDdl.Proofs.RoundTrip.Tables

/-!
# Canonical alterations are read back

A clause is canonical if its action, its target and what belongs to them go together and all of them
are canonical. The text of clauses is set apart by commas, and a partitioning follows the last one
without a comma; all clauses end at the words and marks that may come next.
-/

namespace TableDdl

theorem Index.exists_startTokens_eq (role : Option IndexRole) :
    ∃ first others, startTokens role = first :: others := by
  cases role with
  | none => exact ⟨_, _, rfl⟩
  | some role => exact ⟨_, _, rfl⟩

namespace AlterOption

open Grammar
open Lexer hiding nameTokens
open Column (partTokens)
open TableOption (listTokens)

/-- A column that is read back from its text in a clause, together with where it goes. -/
structure IsPlaced (column : Column) : Prop where
  canonical : column.Canonical
  position : ∀ name, column.position = some (.after name) → name ≠ ""

/-- The action, its target and what belongs to them are what a clause may have. -/
inductive Fits : AlterTarget → AlterAction → AlterPayload → Prop where
  | addColumn {column : Column} (isPlaced : IsPlaced column) : Fits .column .add (.column column)
  | addColumns {columns : List Column} (nonempty : columns ≠ [])
      (arePlaced : ∀ column ∈ columns, IsPlaced column) : Fits .column .add (.columns columns)
  | addIndex {index : Index} (canonical : index.Canonical) : Fits .index .add (.index index)
  | dropColumn {name : String} (nonempty : name ≠ "") (notPrimary : name ≠ primaryKeyName)
      (notForeign : foreignKeyName? name = none) : Fits .column .drop (.name name)
  | dropIndex {name : String} (nonempty : name ≠ "") (notMark : name ≠ foreignKeyMark) :
      Fits .index .drop (.name name)
  | rename {target : AlterTarget} {oldName newName : String} (isPart : target ≠ .table)
      (oldNonempty : oldName ≠ "") (newNonempty : newName ≠ "") :
      Fits target .rename (.rename ⟨oldName, newName⟩)
  | renameTable {name : String} (nonempty : name ≠ "") : Fits .table .rename (.name name)
  | changeColumn {oldName : String} {column : Column} (nonempty : oldName ≠ "")
      (isPlaced : IsPlaced column) : Fits .column .change (.changeColumn oldName column)
  | modifyColumn {column : Column} (isPlaced : IsPlaced column) :
      Fits .column .modify (.column column)

/-- A clause that is read back from its text. -/
structure Canonical (option : AlterOption) : Prop where
  fits : Fits option.target option.action option.payload
  tableOptions : ∀ tableOption ∈ option.tableOptions, tableOption.Canonical

/-! ## Tokens -/

/-- The tokens after `DROP`. -/
def dropTokens (target : AlterTarget) (name : String) : List Token :=
  if name = primaryKeyName then [.bare .word "PRIMARY", .bare .word "KEY"]
  else (foreignKeyName? name).elim (.bare .word target.keyword :: nameTokens name)
    fun key => .bare .word "FOREIGN" :: .bare .word "KEY" :: nameTokens key

/-- The tokens after the keyword of an action. -/
def payloadTokens (target : AlterTarget) : AlterAction → AlterPayload → List Token
  | .add, .columns columns => .bare .word "COLUMN" :: Token.enclosed Column.tokens columns
  | .drop, .name name => dropTokens target name
  | .rename, .name name => .bare .word "TO" :: nameTokens name
  | _, .column column => .bare .word "COLUMN" :: column.tokens
  | _, .index index => index.tokens
  | _, .rename ⟨oldName, newName⟩ => .bare .word target.keyword ::
      (nameTokens oldName ++ .bare .word "TO" :: nameTokens newName)
  | _, .changeColumn oldName column => .bare .word "COLUMN" :: (nameTokens oldName ++ column.tokens)
  | _, _ => []

/-- The tokens of a clause. -/
def tokens (option : AlterOption) : List Token :=
  listTokens option.tableOptions ++ .bare .word option.action.keyword ::
    payloadTokens option.target option.action option.payload

/-! ## The text of a clause -/

variable {operand : Bool} {option : AlterOption} {target : AlterTarget} {action : AlterAction}
  {payload : AlterPayload}

theorem closed_tableOptions {options : List TableOption}
    (canonical : ∀ option ∈ options, option.Canonical) :
    Closed operand (String.join (options.map fun option => option.render ++ " "))
      (listTokens options) := by
  induction options generalizing operand with
  | nil => exact closed_empty
  | cons option others ih =>
      have first : Closed operand (option.render ++ " ") (option.tokens ++ []) :=
        (canonical option List.mem_cons_self).spelled.append_closed (closed_plain (by decide))
          (by decide)
      rw [List.append_nil] at first
      rw [List.map_cons, String.join_cons]
      exact first.append_closed (ih fun other member =>
        canonical other (List.mem_cons_of_mem _ member))

theorem spelled_drop (target : AlterTarget) (isPart : target ≠ .table) (name : String) :
    Spelled operand (renderDrop target name) (.bare .word "DROP" :: dropTokens target name) := by
  unfold renderDrop dropTokens
  by_cases isPrimary : name = primaryKeyName
  · rw [if_pos isPrimary, if_pos isPrimary]
    exact spelled_plain (by decide)
  rw [if_neg isPrimary, if_neg isPrimary]
  cases foreignKeyName? name with
  | some key =>
      have start : Closed operand "DROP FOREIGN KEY "
          [.bare .word "DROP", .bare .word "FOREIGN", .bare .word "KEY"] := closed_plain (by decide)
      exact start.append (spelled_quoteName key)
  | none =>
      have start : Closed operand ("DROP " ++ target.keyword ++ " ")
          [.bare .word "DROP", .bare .word target.keyword] := by
        cases target <;> exact closed_plain (by decide)
      cases target with
      | column => exact start.append (spelled_quoteName name)
      | index => exact start.append (spelled_quoteName name)
      | table => exact absurd rfl isPart

theorem Fits.spelled (fits : Fits target action payload) :
    Spelled operand (renderAction target action payload)
      (.bare .word action.keyword :: payloadTokens target action payload) := by
  cases fits with
  | @addColumn column isPlaced =>
      have start : Closed operand "ADD COLUMN " [.bare .word "ADD", .bare .word "COLUMN"] :=
        closed_plain (by decide)
      exact start.append isPlaced.canonical.spelled
  | @addColumns columns nonempty arePlaced =>
      have start : Spelled operand "ADD COLUMN" [.bare .word "ADD", .bare .word "COLUMN"] :=
        spelled_plain (by decide)
      have list (operand : Bool) : Closed operand
          (" (" ++ ", ".intercalate (columns.map Column.render) ++ ")")
          (Token.enclosed Column.tokens columns ++ []) :=
        closed_enclosed (by decide) (by decide) (by decide) (by decide) (by decide)
          fun column member => (arePlaced column member).canonical.spelled
      rw [List.append_nil] at list
      have opening : "ADD COLUMN (" = "ADD COLUMN" ++ " (" := by decide
      have whole := start.append (list _).spelled (by
        rw [String.append_assoc]
        exact gapped_append (by decide))
      simp only [renderAction, opening, String.append_assoc]
      simp only [String.append_assoc] at whole
      exact whole
  | @addIndex index canonical =>
      have start : Closed operand "ADD " [.bare .word "ADD"] := closed_plain (by decide)
      exact start.append canonical.spelled
  | dropColumn nonempty notPrimary notForeign => exact spelled_drop .column (by decide) _
  | dropIndex nonempty notMark => exact spelled_drop .index (by decide) _
  | @rename target oldName newName isPart oldNonempty newNonempty =>
      have start : Closed operand ("RENAME " ++ target.keyword ++ " ")
          [.bare .word "RENAME", .bare .word target.keyword] := by
        cases target <;> exact closed_plain (by decide)
      have newPart : Attached (" TO " ++ Text.quoteName newName)
          ([.bare .word "TO"] ++ nameTokens newName) :=
        attached_closed (by decide) (by decide) fun _ => spelled_quoteName newName
      have whole := start.append ((spelled_quoteName oldName).attach newPart)
      simp only [renderAction, Rename.render, String.append_assoc] at whole ⊢
      exact whole
  | @renameTable name nonempty =>
      have start : Closed operand "RENAME TO " [.bare .word "RENAME", .bare .word "TO"] :=
        closed_plain (by decide)
      exact start.append (spelled_quoteName name)
  | @changeColumn oldName column nonempty isPlaced =>
      have start : Closed operand "CHANGE COLUMN " [.bare .word "CHANGE", .bare .word "COLUMN"] :=
        closed_plain (by decide)
      have newPart : Attached (" " ++ column.render) ([] ++ column.tokens) :=
        attached_closed (by decide) (by decide) fun _ => isPlaced.canonical.spelled
      have whole := start.append ((spelled_quoteName oldName).attach newPart)
      simp only [renderAction, String.append_assoc]
      exact whole
  | @modifyColumn column isPlaced =>
      have start : Closed operand "MODIFY COLUMN " [.bare .word "MODIFY", .bare .word "COLUMN"] :=
        closed_plain (by decide)
      exact start.append isPlaced.canonical.spelled

/-- A canonical clause is read as its tokens. -/
theorem Canonical.spelled (canonical : option.Canonical) :
    Spelled operand option.render option.tokens :=
  (closed_tableOptions canonical.tableOptions).append canonical.fits.spelled

/-! ## Reading a clause -/

variable {settings : Settings} {after rest : List Token}

/-- The words and marks that may follow a clause. -/
def clauseEnds : List Token := [Token.comma, .bare .word "PARTITION", .bare .semicolon ";"]

/-- What follows is nothing or starts with one of the tokens. -/
def Followed (ends after : List Token) : Prop := ∀ token ∈ after.head?, token ∈ ends

theorem followed_cons {ends : List Token} {token : Token} (member : token ∈ ends) :
    Followed ends (token :: rest) := by
  simpa [Followed] using member

theorem Followed.unseen {ends : List Token} {text : String} (followed : Followed ends after)
    (others : ∀ token ∈ ends, token.spells text = false) : Unseen text after :=
  fun token first => others token (followed token first)

/-- The stop words inside of clauses. -/
def clauseStops : Stops := Stops.none.adding [";", "PARTITION"]

theorem Followed.ends {ends : List Token} {stops : Stops} (followed : Followed ends after)
    (stop : ∀ token ∈ ends, token.kind = .rightParen ∨
      token.isEnd = false ∧ token.kind ≠ .leftParen ∧ stops.stopAt token = true) :
    Ends stops after :=
  fun token first => stop token (followed token first)

theorem ends_cons {stops : Stops} {token : Token} (stop : token.kind = .rightParen ∨
      token.isEnd = false ∧ token.kind ≠ .leftParen ∧ stops.stopAt token = true) :
    Ends stops (token :: rest) := by
  simpa [Ends] using stop

/-- A column of a clause is read from its tokens, with where it goes. -/
theorem IsPlaced.reads {column : Column} (isPlaced : IsPlaced column)
    (followed : Followed (Token.closing :: clauseEnds) after) :
    positionedColumn.Reads ⟨settings, clauseStops⟩ (column.tokens ++ after) column after := by
  have isOpen : Column.Open (clauseStops.adding ["FIRST", "AFTER"]) :=
    show ∀ word ∈ Column.attributeWords, _ by decide
  have body (rest : List Token)
      (followed : Column.Followed (clauseStops.adding ["FIRST", "AFTER"]) rest) :
      (withStops ["FIRST", "AFTER"] (Column.afterName column.name)).Reads ⟨settings, clauseStops⟩
        (column.bodyTokens ++ rest) { column with position := none } rest :=
    reads_withStops (isPlaced.canonical.reads_afterName isOpen followed)
  have noFirst : Unseen "FIRST" after := followed.unseen (by decide)
  have noAfter : Unseen "AFTER" after := followed.unseen (by decide)
  simp only [Column.tokens, List.append_assoc]
  refine (reads_name isPlaced.canonical.name).bind ?_
  cases found : column.position with
  | none =>
      have same : { column with position := none } = column := by
        rw [← found]
      refine (body after ⟨followed.ends (by decide), followed.unseen (by decide)⟩).bind ?_
      rw [same]
      refine reads_consume_ite_unseen noFirst (reads_consume_ite_unseen noAfter (reads_pure column))
  | some position =>
      have same : { column with position := some position } = column := by
        rw [← found]
      rw [← same]
      cases position with
      | first =>
          have ended : Column.Followed (clauseStops.adding ["FIRST", "AFTER"])
              (.bare .word "FIRST" :: after) :=
            ⟨ends_cons (.inr (by decide)), unseen_cons (by decide)⟩
          exact (body _ ended).bind (reads_consume_ite (by decide) (reads_pure _))
      | after name =>
          have ended : Column.Followed (clauseStops.adding ["FIRST", "AFTER"])
              (.bare .word "AFTER" :: (nameTokens name ++ after)) :=
            ⟨ends_cons (.inr (by decide)), unseen_cons (by decide)⟩
          refine (body _ ended).bind (reads_consume_ite_unseen (unseen_cons (by decide)) ?_)
          refine reads_consume_ite (by decide) ?_
          exact (reads_name (isPlaced.position name found)).bind (reads_pure _)

theorem reads_action (action : AlterAction) {scope : Scope} :
    readAction.Reads scope (.bare .word action.keyword :: after) action after := by
  have found : (AlterAction.all.find? fun other =>
      decide (Token.keyword? (.bare .word action.keyword) = some other.keyword)) = some action := by
    cases action <;> decide
  refine reads_keyword?_bind ?_
  rw [found]
  exact reads_advance_bind (reads_pure action)

/-- The word of a target is read, and then what the target asks for. -/
theorem reads_targetWord (word : TargetWord) {token : Token} {scope : Scope}
    {value : AlterTarget × Option IndexRole} {before : List Token}
    (there : (match word with
      | .column => pure (.column, none)
      | .table => pure (.table, none)
      | .index none => pure (.index, none)
      | .index (some role) => do
          afterRole role
          return (.index, some role)
      | .constraint | .partition =>
          refuse (.unsupportedOperation action.keyword (token.keyword?.getD "")) :
        Grammar (AlterTarget × Option IndexRole)).Reads scope before value after)
    (isWord : token.keyword?.bind TargetWord.ofWord? = some word)
    (needed : action = .change ∨ action = .modify → word = .column)
    (noOpening : token.spells "(" = false) :
    (readTarget action).Reads scope (token :: before) value after := by
  refine reads_current_bind (fun _ => rfl) ?_
  dsimp only
  rw [isWord, if_neg (fun both => both.2 (by rw [needed both.1]))]
  refine reads_sees_bind_unseen (unseen_cons noOpening) ?_
  rw [Bool.and_false]
  exact reads_advance_bind there

theorem reads_column (action : AlterAction) {scope : Scope} :
    (readTarget action).Reads scope (.bare .word "COLUMN" :: after) (.column, none) after :=
  reads_targetWord .column (reads_pure _) (by decide) (fun _ => rfl) (by decide)

theorem reads_role (role : Option IndexRole) (isPart : action = .add ∨ action = .drop)
    {scope : Scope} :
    (readTarget action).Reads scope (Index.startTokens role ++ after) (.index, role) after := by
  have other : ¬ (action = .change ∨ action = .modify) := by
    rcases isPart with rfl | rfl <;> decide
  cases role with
  | none =>
      exact reads_targetWord (.index none) (reads_pure _) (by decide) (absurd · other) (by decide)
  | some role =>
      have known : (Token.keyword? (.bare .word role.keyword)).bind TargetWord.ofWord? =
          some (.index (some role)) := by
        cases role <;> decide
      have noOpening : Token.spells (.bare .word role.keyword) "(" = false := by
        cases role <;> decide
      have key : (afterRole role).Reads scope (.bare .word "KEY" :: after) () after := by
        cases role with
        | primary | foreign => exact reads_expect (by decide)
        | fulltext | spatial | unique =>
            exact reads_consumeAny_bind (by decide) (reads_pure ())
      exact reads_targetWord (.index (some role)) (key.bind (reads_pure _)) known (absurd · other)
        noOpening

/-- A clause is read in four steps: the options of the table, the action, the target and what
belongs to them. -/
theorem reads_clause {tableOptions : List TableOption}
    (canonical : ∀ tableOption ∈ tableOptions, tableOption.Canonical) {role : Option IndexRole}
    {first : Token} {before middle : List Token}
    (named : action = .rename → renameWords.any first.spells = true)
    (targetReads : (readTarget action).Reads ⟨settings, clauseStops⟩ (first :: before)
      (target, role) middle)
    (payloadReads : (readPayload action target role).Reads ⟨settings, clauseStops⟩ middle payload
      after) :
    AlterOption.grammar.Reads ⟨settings, clauseStops⟩
      (listTokens tableOptions ++ .bare .word action.keyword :: first :: before)
      ⟨target, action, payload, tableOptions⟩ after := by
  have keyword : Text.upper action.keyword = action.keyword ∧
      action.keyword ∉ TableOption.keyWords ∧
      action.keyword ≠ "," ∧ action.keyword ≠ "STORAGE" := by
    cases action <;> decide
  refine (TableOption.reads_options canonical rfl keyword.1 keyword.2.1 keyword.2.2).bind ?_
  refine (reads_action action).bind ?_
  by_cases isRename : action = .rename
  · refine reads_seesAny_bind (named isRename) ?_
    rw [Bool.not_true, Bool.and_false]
    exact targetReads.bind (payloadReads.bind (reads_pure _))
  · refine reads_look_bind_any fun seen => ?_
    rw [decide_eq_false isRename, Bool.false_and]
    exact targetReads.bind (payloadReads.bind (reads_pure _))

theorem eq_append_of_foreignKeyName? {name key : String} (found : foreignKeyName? name = some key) :
    name = foreignKeyMark ++ key := by
  unfold foreignKeyName? at found
  split at found
  · rename_i starts
    obtain rfl := Option.some.inj found
    apply String.toList_injective
    rw [String.toList_append, String.toList_ofList]
    exact (List.prefix_iff_eq_append.mp starts).symm
  · cases found

/-- What is removed is read from its tokens. -/
theorem Fits.reads_drop {tableOptions : List TableOption}
    (canonical : ∀ tableOption ∈ tableOptions, tableOption.Canonical) {name : String}
    (fits : Fits target .drop (.name name)) :
    AlterOption.grammar.Reads ⟨settings, clauseStops⟩
      (listTokens tableOptions ++ .bare .word "DROP" :: (dropTokens target name ++ after))
      ⟨target, .drop, .name name, tableOptions⟩ after := by
  unfold dropTokens
  cases fits with
  | dropColumn nonempty notPrimary notForeign =>
      have dropped : (readPayload .drop .column none).Reads ⟨settings, clauseStops⟩
          (nameTokens name ++ after) (.name name) after :=
        (reads_name nonempty).bind (reads_pure (AlterPayload.name name))
      rw [if_neg notPrimary, notForeign]
      exact reads_clause canonical (by decide) (reads_column _) dropped
  | dropIndex nonempty notMark =>
      by_cases isPrimary : name = primaryKeyName
      · rw [if_pos isPrimary, isPrimary]
        exact reads_clause canonical (by decide) (reads_role (some .primary) (.inr rfl))
          (reads_pure _)
      rw [if_neg isPrimary]
      cases found : foreignKeyName? name with
      | some key =>
          obtain rfl := eq_append_of_foreignKeyName? found
          have named : key ≠ "" := by
            rintro rfl
            exact notMark String.append_empty
          have dropped : (readPayload .drop .index (some .foreign)).Reads ⟨settings, clauseStops⟩
              (nameTokens key ++ after) (.name (foreignKeyMark ++ key)) after :=
            ((reads_name named).bind (reads_pure (foreignKeyMark ++ key))).bind
              (reads_pure (AlterPayload.name _))
          exact reads_clause canonical (by decide) (reads_role (some .foreign) (.inr rfl)) dropped
      | none =>
          have index : (readTarget .drop).Reads ⟨settings, clauseStops⟩
              (.bare .word "INDEX" :: (nameTokens name ++ after)) (.index, none)
              (nameTokens name ++ after) :=
            reads_targetWord (.index none) (reads_pure _) (by decide) (by decide) (by decide)
          exact reads_clause canonical (by decide) index ((reads_name nonempty).bind (reads_pure _))

/-- A canonical clause is read from its tokens. -/
theorem Canonical.reads (canonical : option.Canonical) (followed : Followed clauseEnds after) :
    AlterOption.grammar.Reads ⟨settings, clauseStops⟩ (option.tokens ++ after) option after := by
  have columnFollowed : Followed (Token.closing :: clauseEnds) after :=
    fun token first => List.mem_cons_of_mem _ (followed token first)
  obtain ⟨target, action, payload, tableOptions⟩ := option
  obtain ⟨fits, options⟩ := canonical
  dsimp only at fits options
  simp only [tokens, List.append_assoc, List.cons_append]
  cases fits with
  | @addColumn column isPlaced =>
      have noOpening : Unseen "(" (column.tokens ++ after) := by
        rw [Column.tokens, nameTokens_eq isPlaced.canonical.name]
        exact unseen_cons (by decide)
      exact reads_clause options (by decide) (reads_column _)
        (reads_sees_bind_unseen noOpening ((isPlaced.reads columnFollowed).bind (reads_pure _)))
  | @addColumns columns nonempty arePlaced =>
      have group : columnGroup.Reads ⟨settings, clauseStops⟩
          (Token.enclosed Column.tokens columns ++ after) columns after := by
        refine reads_parenthesized (Followed (Token.closing :: clauseEnds)) nonempty
          (fun column member after followed => (arePlaced column member).reads followed)
          ⟨fun rest => followed_cons (by decide), followed_cons (by decide)⟩
      exact reads_clause options (by decide) (reads_column _)
        (reads_sees_bind (by decide) (group.bind (reads_pure _)))
  | @addIndex index canonical =>
      have indexFollowed : Index.Followed clauseStops after :=
        ⟨followed.ends (by decide), followed.unseen (by decide)⟩
      have payload : (readPayload .add .index index.role).Reads ⟨settings, clauseStops⟩
          (index.bodyTokens ++ after) (.index index) after :=
        (canonical.reads_body indexFollowed).bind (reads_pure _)
      obtain ⟨first, others, start⟩ := Index.exists_startTokens_eq index.role
      have target : (readTarget .add).Reads ⟨settings, clauseStops⟩
          (Index.startTokens index.role ++ (index.bodyTokens ++ after)) (.index, index.role)
          (index.bodyTokens ++ after) := reads_role index.role (.inl rfl)
      simp only [payloadTokens, Index.tokens, start, List.append_assoc,
        List.cons_append] at target ⊢
      exact reads_clause options (by simp) target payload
  | dropColumn nonempty notPrimary notForeign =>
      exact Fits.reads_drop options (.dropColumn nonempty notPrimary notForeign)
  | dropIndex nonempty notMark => exact Fits.reads_drop options (.dropIndex nonempty notMark)
  | @rename target oldName newName isPart oldNonempty newNonempty =>
      have names : Rename.grammar.Reads ⟨settings, clauseStops⟩
          (nameTokens oldName ++ .bare .word "TO" :: (nameTokens newName ++ after))
          ⟨oldName, newName⟩ after := by
        refine (reads_name oldNonempty).bind (reads_expect_bind (by decide) ?_)
        exact (reads_name newNonempty).bind (reads_pure _)
      simp only [payloadTokens, List.cons_append, List.append_assoc]
      cases target with
      | column =>
          exact reads_clause options (by decide) (reads_column _) (names.bind (reads_pure _))
      | index =>
          have index (rest : List Token) : (readTarget .rename).Reads ⟨settings, clauseStops⟩
              (.bare .word "INDEX" :: rest) (.index, none) rest :=
            reads_targetWord (.index none) (reads_pure _) (by decide) (by decide) (by decide)
          exact reads_clause options (by decide) (index _) (names.bind (reads_pure _))
      | table => exact absurd rfl isPart
  | @renameTable name nonempty =>
      have table : (readTarget .rename).Reads ⟨settings, clauseStops⟩
          (.bare .word "TO" :: (nameTokens name ++ after)) (.table, none)
          (nameTokens name ++ after) :=
        reads_targetWord .table (reads_pure _) (by decide) (by decide) (by decide)
      exact reads_clause options (by decide) table ((reads_name nonempty).bind (reads_pure _))
  | @changeColumn oldName column nonempty isPlaced =>
      have changed : (readPayload .change .column none).Reads ⟨settings, clauseStops⟩
          (nameTokens oldName ++ (column.tokens ++ after)) (.changeColumn oldName column) after :=
        (reads_name nonempty).bind ((isPlaced.reads columnFollowed).bind
          (reads_pure (AlterPayload.changeColumn oldName column)))
      simp only [payloadTokens, List.cons_append, List.append_assoc]
      exact reads_clause options (by decide) (reads_column _) changed
  | @modifyColumn column isPlaced =>
      exact reads_clause options (by decide) (reads_column _)
        ((isPlaced.reads columnFollowed).bind (reads_pure _))

theorem Canonical.exists_tokens_eq (canonical : option.Canonical) :
    ∃ word others, option.tokens = .bare .word word :: others ∧ Text.upper word = word ∧
      word ∉ [";", "PARTITION"] := by
  unfold tokens
  cases found : option.tableOptions with
  | nil =>
      have keyword : Text.upper option.action.keyword = option.action.keyword ∧
          option.action.keyword ∉ [";", "PARTITION"] := by
        cases option.action <;> decide
      exact ⟨_, _, rfl, keyword⟩
  | cons tableOption others =>
      have isOption := canonical.tableOptions tableOption (by simp [found])
      obtain ⟨word, isWord, rest, tokens⟩ := isOption.exists_tokens_eq
      have noKey : ∀ text ∈ [";", "PARTITION"], text ∉ TableOption.keyWords := by decide
      simp only [listTokens, List.flatMap_cons, tokens, List.cons_append]
      exact ⟨word, _, rfl, TableOption.upper_of_mem_keyWords isWord,
        fun member => noKey word member isWord⟩

end AlterOption

namespace AlterTable

open Grammar AlterOption
open Lexer hiding nameTokens
open Column (partTokens)

/-- An alteration that is read back from its text. -/
structure Canonical (alteration : AlterTable) : Prop where
  tableName : alteration.tableName ≠ ""
  nonempty : alteration.options ≠ [] ∨ alteration.partitioning ≠ none
  options : ∀ option ∈ alteration.options, option.Canonical
  partitioning : ∀ partitioning ∈ alteration.partitioning, partitioning.Canonical

/-- The tokens of an alteration. -/
def tokens (alteration : AlterTable) : List Token :=
  .bare .word "ALTER" :: .bare .word "TABLE" :: (nameTokens alteration.tableName ++
    (Token.separated AlterOption.tokens alteration.options ++
      partTokens [] Partitioning.tokens alteration.partitioning))

variable {operand : Bool} {alteration : AlterTable} {settings : Settings} {after : List Token}

theorem Canonical.attached_options (canonical : alteration.Canonical) :
    Attached (if alteration.options.isEmpty then ""
      else "\n" ++ ",\n".intercalate (alteration.options.map AlterOption.render))
      (Token.separated AlterOption.tokens alteration.options) := by
  cases empty : alteration.options with
  | nil => exact attached_empty
  | cons first others =>
      rw [← empty]
      have list (operand : Bool) : Spelled operand
          (",\n".intercalate (alteration.options.map AlterOption.render))
          (Token.separated AlterOption.tokens alteration.options) := fun rest gap =>
        lexes_intercalate (fun _ => True) (by decide) (gap_of_startsGap (by decide)) trivial
          (fun option member _ rest _ gap => (canonical.options option member).spelled rest gap)
          trivial gap
      have whole : Attached ("\n" ++ ",\n".intercalate (alteration.options.map AlterOption.render))
          ([] ++ Token.separated AlterOption.tokens alteration.options) :=
        attached_closed (by decide) (by decide) fun operand => list _
      rw [if_neg (by simp [empty])]
      exact whole

/-- A canonical alteration is read as its tokens. -/
theorem Canonical.spelled (canonical : alteration.Canonical) :
    Spelled operand alteration.render alteration.tokens := by
  have start : Closed operand "ALTER TABLE " [.bare .word "ALTER", .bare .word "TABLE"] :=
    closed_plain (by decide)
  have whole := start.append ((spelled_quoteName alteration.tableName).attach
    (canonical.attached_options.append (Partitioning.attached_part _ canonical.partitioning)))
  unfold render
  simp only [String.append_assoc]
  exact whole

/-! ## Reading an alteration -/

/-- The clauses are over: the statement ends, or a partitioning follows. -/
def OptionsEnd (after : List Token) : Prop :=
  Table.Ended after ∨ ∃ rest, after = .bare .word "PARTITION" :: rest

theorem OptionsEnd.followed (isEnd : OptionsEnd after) : Followed clauseEnds after := by
  rcases isEnd with ended | ⟨rest, rfl⟩
  · intro token first
    rw [ended token first]
    decide
  · exact followed_cons (by decide)

theorem reads_atClausesEnd (terminator : settings.terminator = ";") (isEnd : OptionsEnd after) :
    atClausesEnd.Reads ⟨settings, clauseStops⟩ after true after := by
  rcases isEnd with ended | ⟨rest, rfl⟩
  · have ends (start : Cursor) (view : start.view = after) := ended.atTerminator view terminator
    exact reads_look_bind ends (reads_look_bind_any fun _ => reads_pure true)
  · refine reads_look_bind_any fun seen => reads_sees_bind (by decide) ?_
    rw [Bool.or_true]
    exact reads_pure true

theorem reads_atClausesEnd_not (terminator : settings.terminator = ";") {word : String}
    (upper : Text.upper word = word) (other : word ∉ [";", "PARTITION"]) :
    atClausesEnd.Reads ⟨settings, clauseStops⟩ (.bare .word word :: after) false
      (.bare .word word :: after) := by
  simp only [List.mem_cons, List.not_mem_nil, or_false, not_or] at other
  have unseen (text : String) (same : Text.upper text = text) (distinct : word ≠ text) :
      Token.spells (.bare .word word) text = false :=
    Token.spells_word_of_ne (by rwa [upper, same])
  have goesOn (start : Cursor) (view : start.view = .bare .word word :: after) :
      (start.atEnd || start.current.spells settings.terminator) = false := by
    rw [Cursor.atEnd, Token.isEnd, Cursor.kind_of_view view, Cursor.spells_of_view view, terminator,
      unseen ";" (by decide) other.1]
    rfl
  refine reads_look_bind goesOn ?_
  exact reads_sees_bind_unseen (unseen_cons (unseen _ (by decide) other.2)) (reads_pure false)

/-- Clauses are read from their tokens, up to the end of the statement or a partitioning. -/
theorem reads_clauses (terminator : settings.terminator = ";") {options : List AlterOption}
    (canonical : ∀ option ∈ options, option.Canonical) (isEnd : OptionsEnd after) :
    clauses.Reads ⟨settings, clauseStops⟩
      (Token.separated AlterOption.tokens options ++ after) options after := by
  have follow : Follow (Followed clauseEnds) after :=
    ⟨fun rest => followed_cons (by decide), isEnd.followed⟩
  have noComma : Unseen "," after := by
    rcases isEnd with ended | ⟨rest, rfl⟩
    · exact ended.unseen (by decide)
    · exact unseen_cons (by decide)
  have starts (option : AlterOption) (isOption : option.Canonical) (rest : List Token) :
      atClausesEnd.Reads ⟨settings, clauseStops⟩ (option.tokens ++ rest) false
        (option.tokens ++ rest) := by
    obtain ⟨word, others, tokens, upper, other⟩ := isOption.exists_tokens_eq
    rw [tokens]
    exact reads_atClausesEnd_not terminator upper other
  cases options with
  | nil => exact (reads_atClausesEnd terminator isEnd).bind (reads_pure [])
  | cons first others =>
      have isFirst := canonical first List.mem_cons_self
      rw [Token.separated_cons, List.append_assoc]
      refine (starts first isFirst _).bind ((isFirst.reads (follow.further _ others)).bind ?_)
      refine (reads_further (fun option member rest followed => ?_) follow noComma).bind
        (reads_pure _)
      have isOption := canonical option (List.mem_cons_of_mem _ member)
      exact (starts option isOption rest).bind ((isOption.reads followed).bind (reads_pure _))

/-- A canonical alteration is read from its tokens. -/
theorem Canonical.reads (canonical : alteration.Canonical) (terminator : settings.terminator = ";")
    (ended : Table.Ended after) :
    AlterTable.grammar.Reads ⟨settings, .none⟩ (alteration.tokens ++ after) alteration after := by
  have ends (start : Cursor) (view : start.view = after) := ended.atTerminator view terminator
  have options (rest : List Token) (isEnd : OptionsEnd rest) :
      (withStops [settings.terminator, "PARTITION"] clauses).Reads ⟨settings, .none⟩
        (Token.separated AlterOption.tokens alteration.options ++ rest)
        alteration.options rest := by
    rw [terminator]
    exact reads_withStops (reads_clauses terminator canonical.options isEnd)
  simp only [tokens, List.cons_append, List.append_assoc]
  refine reads_expect_bind (by decide) (reads_expect_bind (by decide) ?_)
  refine (reads_name canonical.tableName).bind (reads_settings_bind ?_)
  obtain ⟨tableName, clauses, partitioning⟩ := alteration
  cases partitioning with
  | none =>
      have nonempty : clauses.isEmpty = false := by
        simpa using canonical.nonempty
      refine (options after (.inl ended)).bind ?_
      refine reads_sees_bind_unseen (ended.unseen (by decide)) ((reads_pure none).bind ?_)
      refine reads_look_bind ends ?_
      simp only [nonempty]
      exact reads_pure _
  | some partitioning =>
      have noFollower : ∀ text ∈ Partitioning.followers, Unseen text after := by
        have others : ∀ text ∈ Partitioning.followers,
            Token.spells (.bare .semicolon ";") text = false := by decide
        exact fun text member => ended.unseen (others text member)
      have reads : Partitioning.grammar.Reads ⟨settings, .none⟩ (partitioning.tokens ++ after)
          partitioning after := (canonical.partitioning partitioning rfl).reads noFollower
      obtain ⟨others, tokens⟩ := partitioning.exists_tokens_eq
      simp only [partTokens, tokens, List.nil_append, List.cons_append] at reads ⊢
      refine (options _ (.inr ⟨_, rfl⟩)).bind (reads_sees_bind (by decide) ?_)
      refine (reads.map some).bind (reads_look_bind ends ?_)
      simp only [Option.isNone_some, Bool.and_false]
      exact reads_pure _

end AlterTable

namespace Statement

theorem parse_render_alteration {settings : Settings} {alteration : AlterTable}
    (terminator : settings.terminator = ";") (canonical : alteration.Canonical) :
    Statement.parse settings alteration.render = .ok (alterTable alteration) := by
  have reads := canonical.reads terminator Table.ended_nil
  rw [List.append_nil] at reads
  refine parse_of_grammar_reads canonical.spelled ?_ ?_
  · rw [terminator]
    exact unseen_cons (by decide)
  · refine Grammar.reads_sees_bind_unseen (unseen_cons (by decide)) ?_
    exact Grammar.reads_sees_bind (by decide) (reads.bind (Grammar.reads_pure _))

/-- The text of a canonical alteration is read as that alteration, under the default terminator. -/
theorem parse_render_alterTable {settings : Settings} {alteration : AlterTable}
    (terminator : settings.terminator = ";") (canonical : alteration.Canonical) :
    Statement.parse settings (alterTable alteration).render = .ok (alterTable alteration) ∧
      AlterTable.parse settings alteration.render = .ok alteration := by
  have reads := canonical.reads terminator Table.ended_nil
  rw [List.append_nil] at reads
  exact ⟨parse_render_alteration terminator canonical,
    Grammar.parse_of_reads canonical.spelled (Grammar.reads_whole reads)⟩

/-- Clauses with options of the table, a group of columns, a foreign key that is dropped and a
column that gets a new place, before a partitioning. -/
theorem parse_render_alterTable_items :
    let size : Column := { name := "size", typeName := "INT", position := some .first }
    let label : Column := { name := "label", typeName := "TEXT", position := some (.after "id") }
    let engine : TableOption := ⟨"ENGINE", .literal (.raw "InnoDB")⟩
    let charset : TableOption := ⟨"DEFAULT CHARACTER SET", .literal (.raw "utf8mb4")⟩
    let alteration : AlterTable := {
      tableName := "items"
      options := [⟨.column, .add, .columns [size, label], [engine, charset]⟩,
        ⟨.index, .drop, .name "FOREIGN KEY owner", []⟩,
        ⟨.column, .change, .changeColumn "name" label, []⟩]
      partitioning := some (.single { kind := .key, count := some 4 }) }
    Statement.parse .standard (alterTable alteration).render = .ok (alterTable alteration) ∧
      AlterTable.parse .standard alteration.render = .ok alteration := by
  intro size label engine charset alteration
  have sizePlaced : AlterOption.IsPlaced size := by
    refine ⟨⟨by decide, by decide +kernel, by decide +kernel, by decide, ?_, by simp [size],
      by simp [size]⟩, by simp [size]⟩
    refine ⟨by decide +kernel, by simp [size], by simp [size], ?_, ?_, by decide, ?_⟩ <;>
      decide +kernel
  have labelPlaced : AlterOption.IsPlaced label := by
    refine ⟨⟨by decide, by decide +kernel, by decide +kernel, by decide, ?_, by simp [label],
      by simp [label]⟩, by simp [label]⟩
    refine ⟨by decide +kernel, by simp [label], by simp [label], ?_, ?_, by decide, ?_⟩ <;>
      decide +kernel
  have engineCanonical : engine.Canonical :=
    ⟨⟨none, "ENGINE"⟩, by decide, by decide, .scalar (by decide) (.word (by decide +kernel))⟩
  have charsetCanonical : charset.Canonical :=
    ⟨⟨some "DEFAULT", "CHARACTER"⟩, by decide, by decide,
      .name (by decide) (by decide +kernel) (by decide)⟩
  have byKey : PartitionClause.Canonical { kind := .key, count := some 4 } :=
    ⟨⟨by decide, by decide, by decide, by decide, by decide +kernel, by decide⟩, by simp, by simp,
      by simp⟩
  refine parse_render_alterTable rfl ⟨by decide, by decide, ?_, ?_⟩
  · intro option member
    simp only [alteration, List.mem_cons, List.not_mem_nil, or_false] at member
    rcases member with rfl | rfl | rfl
    · refine ⟨.addColumns (by decide) fun column member => ?_, fun tableOption member => ?_⟩
      · simp only [List.mem_cons, List.not_mem_nil, or_false] at member
        rcases member with rfl | rfl
        · exact sizePlaced
        · exact labelPlaced
      · simp only [List.mem_cons, List.not_mem_nil, or_false] at member
        rcases member with rfl | rfl
        · exact engineCanonical
        · exact charsetCanonical
    · exact ⟨.dropIndex (by decide) (by decide), by simp⟩
    · exact ⟨.changeColumn (by decide) labelPlaced, by simp⟩
  · rintro _ ⟨⟩
    exact .single byKey

end Statement

/-! ## Columns under the names of keys -/

namespace AlterOption

variable {option : AlterOption}

/-- What is removed has the name of a primary or a foreign key. -/
def dropsKey (option : AlterOption) : Bool :=
  match option.action, option.payload with
  | .drop, .name name => decide (name = primaryKeyName) || (foreignKeyName? name).isSome
  | _, _ => false

/-- The clause that is read from the text of the clause: under the name of a key, a key is
removed. -/
def asRead (option : AlterOption) : AlterOption :=
  { option with target := if option.dropsKey then .index else option.target }

theorem renderDrop_eq {name : String}
    (isKey : (decide (name = primaryKeyName) || (foreignKeyName? name).isSome) = true)
    (target other : AlterTarget) : renderDrop target name = renderDrop other name := by
  unfold renderDrop
  by_cases isPrimary : name = primaryKeyName
  · rw [if_pos isPrimary, if_pos isPrimary]
  · rw [decide_eq_false isPrimary, Bool.false_or] at isKey
    obtain ⟨key, found⟩ := Option.isSome_iff_exists.mp isKey
    rw [found]

theorem render_asRead (option : AlterOption) : option.asRead.render = option.render := by
  simp only [render, asRead]
  by_cases drops : option.dropsKey = true
  · rw [if_pos drops]
    unfold dropsKey at drops
    split at drops
    · rename_i name isDrop isName
      simp only [isDrop, isName, renderAction]
      rw [renderDrop_eq drops .index option.target]
    · cases drops
  · rw [if_neg drops]

theorem asRead_eq_iff :
    option.asRead = option ↔ (option.dropsKey = true → option.target = .index) := by
  constructor
  · intro same drops
    rw [← same, asRead, if_pos drops]
  · intro isIndex
    by_cases drops : option.dropsKey = true
    · rw [asRead, if_pos drops, ← isIndex drops]
    · rw [asRead, if_neg drops]

end AlterOption

namespace AlterTable

/-- The alteration that is read from the text of the alteration. -/
def asRead (alteration : AlterTable) : AlterTable :=
  { alteration with options := alteration.options.map AlterOption.asRead }

theorem render_asRead (alteration : AlterTable) : alteration.asRead.render = alteration.render := by
  have clauses : (alteration.options.map AlterOption.asRead).map AlterOption.render =
      alteration.options.map AlterOption.render := by
    rw [List.map_map]
    exact List.map_congr_left fun option _ => option.render_asRead
  simp only [render, asRead, clauses, List.isEmpty_map]

theorem asRead_eq_iff {alteration : AlterTable} : alteration.asRead = alteration ↔
    ∀ option ∈ alteration.options, option.dropsKey = true → option.target = .index := by
  obtain ⟨tableName, options, partitioning⟩ := alteration
  have unchanged : options.map AlterOption.asRead = options ↔
      options.map AlterOption.asRead = options.map id := by
    rw [List.map_id]
  simp only [asRead, mk.injEq, true_and, and_true]
  rw [unchanged, List.map_inj_left]
  exact forall₂_congr fun option _ => AlterOption.asRead_eq_iff

end AlterTable

namespace Statement

/-- The clauses of a statement. -/
def clauses : Statement → List AlterOption
  | createTable _ => []
  | alterTable alteration => alteration.options

/-- The statement that is read from the text of the statement. -/
def asRead : Statement → Statement
  | createTable table => createTable table
  | alterTable alteration => alterTable alteration.asRead

/-- All parts of a statement are canonical and allowed, apart from the columns that are removed
under the names of keys. -/
def Canonical (settings : Settings) : Statement → Prop
  | createTable table => table.Canonical ∧ table.Allowed settings
  | alterTable alteration => alteration.asRead.Canonical

theorem asRead_eq_iff {statement : Statement} : statement.asRead = statement ↔
    ∀ clause ∈ statement.clauses, clause.dropsKey = true → clause.target = .index := by
  cases statement with
  | createTable table => simp [asRead, clauses]
  | alterTable alteration =>
      rw [asRead, alterTable.injEq]
      exact AlterTable.asRead_eq_iff

/-- The text of a statement is read with a key in place of each column that is removed under the
name of a key, so it is read back if and only if there is no such column. -/
theorem parse_render_eq_iff {settings : Settings} {statement : Statement}
    (terminator : settings.terminator = ";") (canonical : statement.Canonical settings) :
    Statement.parse settings statement.render = .ok statement.asRead ∧
      (Statement.parse settings statement.render = .ok statement ↔
        ∀ clause ∈ statement.clauses, clause.dropsKey = true → clause.target = .index) := by
  have parsed : Statement.parse settings statement.render = .ok statement.asRead := by
    cases statement with
    | createTable table => exact parse_render_table terminator canonical.1 canonical.2
    | alterTable alteration =>
        have found := parse_render_alteration terminator canonical
        rwa [AlterTable.render_asRead] at found
  refine ⟨parsed, ?_⟩
  rw [parsed, Except.ok.injEq]
  exact asRead_eq_iff

/-- A column whose quoted name is the one of the primary key is accepted and not read back. -/
theorem parse_render_ne_of_primaryKey :
    let statement := alterTable ⟨"t", [⟨.column, .drop, .name "PRIMARY KEY", []⟩], none⟩
    Statement.parse .standard "ALTER TABLE t DROP COLUMN \x60PRIMARY KEY\x60" = .ok statement ∧
      Statement.parse .standard statement.render ≠ .ok statement := by
  intro statement
  refine ⟨eq_ok_of_toOption (by decide +kernel), fun readBack => ?_⟩
  have canonical : statement.Canonical .standard := by
    refine ⟨by decide, by decide, fun option member => ?_, by simp [AlterTable.asRead]⟩
    obtain rfl := List.mem_singleton.mp member
    exact ⟨.dropIndex (by decide) (by decide), by simp [AlterOption.asRead]⟩
  have keysOnly := (parse_render_eq_iff rfl canonical).2.mp readBack
  exact absurd (keysOnly _ List.mem_cons_self rfl) (by decide)

end Statement

end TableDdl
