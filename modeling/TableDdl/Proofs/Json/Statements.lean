import TableDdl.Proofs.Json.Codec
import TableDdl.Statement.Codec

/-!
# Statements read back from JSON

Every part of a statement is decoded from its JSON form, and so is the whole of it. The JSON form can
be written as text, on one line or on several, from which the statement is read again.
-/

namespace TableDdl

open Json

/-! ## Columns and indexes -/

theorem Literal.codes : Codes toJson ofJson? where
  decodes literal := by
    cases literal with
    | integer value =>
        change Option.map integer (int64? _) = _
        rw [codes_int64.decodes, Option.map_some]
    | float value => rfl
    | string text => rfl
    | raw text => rfl
  writable literal := by
    cases literal <;> exact writable_tagged _ (by simp)
  notNull := rfl

theorem ColumnPosition.codes : Codes toJson ofJson? where
  decodes position := by
    cases position with
    | first => rfl
    | after column => rfl
  writable position := by
    cases position with
    | first => exact .string _
    | after column => exact .object (by simp)
  notNull := rfl

theorem Column.codes_number : Codes numberToJson uint32? := codes_uint32

theorem Column.codes : Codes toJson ofJson? where
  decodes column := by
    rw [ofJson?, toJson, fields?_object fieldNames rfl (by decide)]
    simp [codes_string.required.decodes, codes_string.optional.decodes,
      codes_bool.required.decodes, codes_number.optional.decodes,
      Literal.codes.optional.decodes, Literal.codes.list.optional.decodes,
      ColumnPosition.codes.optional.decodes]
  writable column := .object (by
    simp [codes_string.optional.writable, codes_number.optional.writable,
      Literal.codes.optional.writable, Literal.codes.list.optional.writable,
      ColumnPosition.codes.optional.writable])
  notNull := rfl

theorem IndexRole.codes :
    Codes (fun role : IndexRole => .string role.keyword) Index.roleOfJson? :=
  codes_name fun role => by cases role <;> rfl

theorem Index.codes : Codes toJson ofJson? where
  decodes index := by
    rw [ofJson?, toJson, fields?_object ["name", "index_type", "role", "columns"] rfl (by decide)]
    simp [codes_string.optional.decodes, IndexRole.codes.optional.decodes,
      codes_strings.required.decodes]
  writable index := .object (by
    simp [codes_string.optional.writable, IndexRole.codes.optional.writable,
      codes_strings.writable])
  notNull := rfl

/-! ## Constraints -/

theorem ReferentialAction.codes :
    Codes (fun action : ReferentialAction => .string action.jsonName) ofJson? :=
  codes_name fun action => by cases action <;> rfl

theorem ForeignKey.actionsOfJson?_actionMembers (onDelete onUpdate : Option ReferentialAction) :
    ∃ actions, actionsOfJson? (.object (actionMembers "DELETE" onDelete ++
        actionMembers "UPDATE" onUpdate)) = some actions ∧
      lastNamed "DELETE" actions = onDelete ∧ lastNamed "UPDATE" actions = onUpdate := by
  cases onDelete with
  | none =>
      cases onUpdate with
      | none => exact ⟨[], rfl, rfl, rfl⟩
      | some update =>
          exact ⟨[("UPDATE", update)],
            by simp [actionsOfJson?, actionMembers, ReferentialAction.codes.decodes], rfl, rfl⟩
  | some delete =>
      cases onUpdate with
      | none =>
          exact ⟨[("DELETE", delete)],
            by simp [actionsOfJson?, actionMembers, ReferentialAction.codes.decodes], rfl, rfl⟩
      | some update =>
          exact ⟨[("DELETE", delete), ("UPDATE", update)],
            by simp [actionsOfJson?, actionMembers, ReferentialAction.codes.decodes], rfl, rfl⟩

theorem ForeignKey.writable_actionMembers (event : String) (action : Option ReferentialAction) :
    ∀ entry ∈ actionMembers event action, Writable entry.2 := by
  cases action <;> simp [actionMembers]

theorem ForeignKey.ofFields?_members (key : ForeignKey) :
    ofFields? (key.members.map fun entry => some entry.2) = some key := by
  obtain ⟨actions, decoded, onDelete, onUpdate⟩ :=
    actionsOfJson?_actionMembers key.onDelete key.onUpdate
  simp [ofFields?, members, required, decoded, onDelete, onUpdate, codes_string.optional.decodes,
    codes_strings.decodes, codes_string.decodes]

theorem ForeignKey.writable_members (key : ForeignKey) :
    ∀ entry ∈ key.members, Writable entry.2 := by
  have actions : Writable (.object (actionMembers "DELETE" key.onDelete ++
      actionMembers "UPDATE" key.onUpdate)) :=
    .object (List.forall_mem_append.mpr
      ⟨writable_actionMembers "DELETE" key.onDelete, writable_actionMembers "UPDATE" key.onUpdate⟩)
  simp [members, actions, codes_string.optional.writable, codes_strings.writable]

theorem ConstraintBody.codes : Codes toJson ofJson? where
  decodes body := by
    cases body with
    | foreignKey key =>
        have label : "kind" ∉ key.members.map Prod.fst := by
          simp [ForeignKey.members]
        have fields : fields? _ (.object key.members) = _ :=
          fields?_object ["index_name", "local_columns", "referenced_table", "referenced_columns",
            "reference_actions"] rfl (by decide)
        simp [ofJson?, toJson, labelled?_object label, ofKind?, fields, key.ofFields?_members]
    | unsupported clause => rfl
  writable body := by
    cases body with
    | foreignKey key => exact writable_labelled _ _ (.object key.writable_members)
    | unsupported clause => exact .object (by simp)
  notNull := rfl

theorem Constraint.codes : Codes toJson ofJson? where
  decodes constraint := by
    simp [ofJson?, toJson, fields?_pair, codes_string.optional.decodes, ConstraintBody.codes.required.decodes]
  writable constraint := .object (by
    simp [codes_string.optional.writable, ConstraintBody.codes.writable])
  notNull := rfl

/-! ## Table options and partitions -/

theorem TableOptionValue.codes : Codes toJson ofJson? where
  decodes value := by
    cases value with
    | literal value =>
        change Option.map literal (Literal.ofJson? _) = _
        rw [Literal.codes.decodes, Option.map_some]
    | tables names =>
        change Option.map tables (strings? _) = _
        rw [codes_strings.decodes, Option.map_some]
    | tablespace name storage =>
        simp [ofJson?, toJson, tagged?_tagged, ofTagged?, fields?_pair,
          codes_string.required.decodes, codes_string.optional.decodes]
  writable value := by
    cases value with
    | literal value => exact writable_tagged _ (Literal.codes.writable value)
    | tables names => exact writable_tagged _ (codes_strings.writable names)
    | tablespace name storage =>
        exact writable_tagged _ (.object (by simp [codes_string.optional.writable]))
  notNull := rfl

theorem TableOption.codes : Codes toJson ofJson? where
  decodes option := by
    simp [ofJson?, toJson, fields?_pair, codes_string.required.decodes, TableOptionValue.codes.required.decodes]
  writable option := .object (by simp [TableOptionValue.codes.writable])
  notNull := rfl

theorem PartitionKind.codes :
    Codes (fun kind : PartitionKind => .string kind.keyword) ofJson? :=
  codes_name fun kind => by cases kind <;> rfl

theorem BoundKind.codes : Codes (fun kind : BoundKind => .string kind.jsonName) ofJson? :=
  codes_name fun kind => by cases kind <;> rfl

theorem PartitionDefinition.codes : Codes toJson ofJson? where
  decodes definition := by
    rw [ofJson?, toJson, fields?_object ["name", "values_kind", "values", "options"] rfl (by decide)]
    simp [codes_string.required.decodes, BoundKind.codes.optional.decodes,
      Literal.codes.list.required.decodes, TableOption.codes.list.required.decodes]
  writable definition := .object (by
    simp [BoundKind.codes.optional.writable, Literal.codes.list.writable,
      TableOption.codes.list.writable])
  notNull := rfl

theorem PartitionClause.ofJson?_toJson (clause : PartitionClause) (inner : Json) :
    ofJson? (clause.toJson inner) = some (clause, some inner) := by
  rw [ofJson?, toJson, fields?_object fieldNames rfl (by decide)]
  simp [PartitionKind.codes.required.decodes, codes_bool.required.decodes,
    codes_string.optional.decodes, codes_strings.required.decodes, codes_uint32.optional.decodes,
    codes_uint8.optional.decodes, PartitionDefinition.codes.list.required.decodes]

theorem PartitionClause.writable_toJson (clause : PartitionClause) {inner : Json}
    (writable : Writable inner) : Writable (clause.toJson inner) :=
  .object (by
    simp [writable, codes_string.optional.writable, codes_strings.writable,
      codes_uint32.optional.writable, codes_uint8.optional.writable,
      PartitionDefinition.codes.list.writable])

theorem Partitioning.codes : Codes toJson ofJson? where
  decodes partitioning := by
    induction partitioning with
    | single clause =>
        rw [toJson, ofJson?]
        grind [PartitionClause.ofJson?_toJson clause .null]
    | nested clause inner ih =>
        have notNull : inner.toJson ≠ .null := by cases inner <;> simp [toJson, PartitionClause.toJson]
        rw [toJson, ofJson?]
        grind [PartitionClause.ofJson?_toJson clause inner.toJson]
  writable partitioning := by
    induction partitioning with
    | single clause => exact clause.writable_toJson .null
    | nested clause inner ih => exact clause.writable_toJson ih
  notNull := by
    rw [ofJson?]
    rfl

/-! ## Alterations -/

theorem Rename.codes : Codes toJson ofJson? where
  decodes rename := by
    simp [ofJson?, toJson, fields?_pair, codes_string.required.decodes]
  writable rename := .object (by simp)
  notNull := rfl

theorem AlterAction.codes :
    Codes (fun action : AlterAction => .string action.keyword) ofJson? :=
  codes_name fun action => by cases action <;> rfl

theorem AlterTarget.codes :
    Codes (fun target : AlterTarget => .string target.keyword) ofJson? :=
  codes_name fun target => by cases target <;> rfl

theorem AlterPayload.codes : Codes toJson ofJson? where
  decodes payload := by
    cases payload with
    | column definition =>
        simp [ofJson?, toJson, tagged?_tagged, ofTagged?, Column.codes.decodes]
    | columns definitions =>
        simp [ofJson?, toJson, tagged?_tagged, ofTagged?, Column.codes.list.decodes]
    | index definition =>
        simp [ofJson?, toJson, tagged?_tagged, ofTagged?, Index.codes.decodes]
    | rename names => simp [ofJson?, toJson, tagged?_tagged, ofTagged?, Rename.codes.decodes]
    | changeColumn oldName definition =>
        simp [ofJson?, toJson, tagged?_tagged, ofTagged?, fields?_pair,
          codes_string.required.decodes, Column.codes.required.decodes]
    | name text => simp [ofJson?, toJson, tagged?_tagged, ofTagged?, codes_string.decodes]
  writable payload := by
    cases payload with
    | column definition => exact writable_tagged _ (Column.codes.writable definition)
    | columns definitions => exact writable_tagged _ (Column.codes.list.writable definitions)
    | index definition => exact writable_tagged _ (Index.codes.writable definition)
    | rename names => exact writable_tagged _ (Rename.codes.writable names)
    | changeColumn oldName definition =>
        exact writable_tagged _ (.object (by simp [Column.codes.writable]))
    | name text => exact writable_tagged _ (.string text)
  notNull := rfl

theorem AlterOption.codes : Codes toJson ofJson? where
  decodes option := by
    rw [ofJson?, toJson, fields?_object ["target", "action", "payload", "table_options"] rfl (by decide)]
    simp [AlterTarget.codes.required.decodes, AlterAction.codes.required.decodes,
      AlterPayload.codes.required.decodes, TableOption.codes.list.required.decodes]
  writable option := .object (by
    simp [AlterPayload.codes.writable, TableOption.codes.list.writable])
  notNull := rfl

theorem AlterTable.codes : Codes toJson ofJson? where
  decodes alteration := by
    rw [ofJson?, toJson, fields?_object ["table_name", "options", "partition_by"] rfl (by decide)]
    simp [members, codes_string.required.decodes, AlterOption.codes.list.required.decodes,
      Partitioning.codes.optional.decodes]
  writable alteration := .object (by
    simp [members, AlterOption.codes.list.writable, Partitioning.codes.optional.writable])
  notNull := rfl

/-! ## Tables and statements -/

theorem Table.codes : Codes toJson ofJson? where
  decodes table := by
    rw [ofJson?, toJson, fields?_object fieldNames rfl (by decide)]
    simp [members, codes_string.required.decodes, codes_bool.required.decodes,
      Column.codes.list.required.decodes, Index.codes.list.required.decodes,
      Constraint.codes.list.required.decodes, codes_string.optional.decodes,
      Partitioning.codes.optional.decodes]
  writable table := .object (by
    simp [members, Column.codes.list.writable, Index.codes.list.writable,
      Constraint.codes.list.writable, codes_string.optional.writable,
      Partitioning.codes.optional.writable])
  notNull := rfl

theorem Statement.codes : Codes toJson ofJson? where
  decodes statement := by
    cases statement with
    | createTable table =>
        have label : "statement" ∉ table.members.map Prod.fst := by
          simp [Table.members]
        rw [ofJson?, toJson, labelled?_object label]
        change Option.map createTable (Table.ofJson? table.toJson) = _
        rw [Table.codes.decodes, Option.map_some]
    | alterTable alteration =>
        have label : "statement" ∉ alteration.members.map Prod.fst := by
          simp [AlterTable.members]
        rw [ofJson?, toJson, labelled?_object label]
        change Option.map alterTable (AlterTable.ofJson? alteration.toJson) = _
        rw [AlterTable.codes.decodes, Option.map_some]
  writable statement := by
    cases statement with
    | createTable table => exact writable_labelled _ _ (Table.codes.writable table)
    | alterTable alteration => exact writable_labelled _ _ (AlterTable.codes.writable alteration)
  notNull := rfl

end TableDdl
