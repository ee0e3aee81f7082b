import TableDdl.Proofs.Grammar.Parts

/-!
# Texts inside what is found

Every name, every text and every word that is kept in a part of a statement is a string. Changing
all of them in the same way gives a part of the same shape. This is how parts are compared that
come from texts with different letter case.
-/

namespace TableDdl

/-! ## Literals and columns -/

/-- The literal with its text changed; numbers have none. -/
def Literal.mapTexts (change : String → String) : Literal → Literal
  | integer value => integer value
  | float value => float value
  | string text => string (change text)
  | raw text => raw (change text)

/-- The place with the name of its column changed. -/
def ColumnPosition.mapTexts (change : String → String) : ColumnPosition → ColumnPosition
  | first => first
  | after column => after (change column)

/-- The column with all its texts changed. -/
def Column.mapTexts (change : String → String) (column : Column) : Column :=
  { column with
    name := change column.name
    typeName := change column.typeName
    defaultValue := column.defaultValue.map (Literal.mapTexts change)
    onUpdate := column.onUpdate.map (Literal.mapTexts change)
    variants := column.variants.map (List.map (Literal.mapTexts change))
    comment := column.comment.map change
    position := column.position.map (ColumnPosition.mapTexts change) }

/-! ## Indexes and constraints -/

/-- The index with all its texts changed. -/
def Index.mapTexts (change : String → String) (index : Index) : Index :=
  { index with
    name := index.name.map change
    indexType := index.indexType.map change
    columns := index.columns.map change }

/-- The foreign key with all its texts changed. -/
def ForeignKey.mapTexts (change : String → String) (key : ForeignKey) : ForeignKey :=
  { key with
    indexName := key.indexName.map change
    localColumns := key.localColumns.map change
    referencedTable := change key.referencedTable
    referencedColumns := key.referencedColumns.map change }

/-- What a constraint demands, with all texts changed. -/
def ConstraintBody.mapTexts (change : String → String) : ConstraintBody → ConstraintBody
  | foreignKey key => foreignKey (key.mapTexts change)
  | unsupported clause => unsupported (change clause)

/-- The constraint with all its texts changed. -/
def Constraint.mapTexts (change : String → String) (constraint : Constraint) : Constraint :=
  ⟨constraint.name.map change, constraint.body.mapTexts change⟩

/-! ## Options and partitionings -/

/-- The value of an option with all its texts changed. -/
def TableOptionValue.mapTexts (change : String → String) : TableOptionValue → TableOptionValue
  | literal value => literal (value.mapTexts change)
  | tables names => tables (names.map change)
  | tablespace name storage => tablespace (change name) (storage.map change)

/-- The option with its key and all texts of its value changed. -/
def TableOption.mapTexts (change : String → String) (option : TableOption) : TableOption :=
  ⟨change option.key, option.value.mapTexts change⟩

/-- The definition of a partition with all its texts changed. -/
def PartitionDefinition.mapTexts (change : String → String) (definition : PartitionDefinition) :
    PartitionDefinition :=
  { definition with
    name := change definition.name
    values := definition.values.map (Literal.mapTexts change)
    options := definition.options.map (TableOption.mapTexts change) }

/-- The clause with all its texts changed. -/
def PartitionClause.mapTexts (change : String → String) (clause : PartitionClause) :
    PartitionClause :=
  { clause with
    expression := clause.expression.map change
    columns := clause.columns.map change
    definitions := clause.definitions.map (PartitionDefinition.mapTexts change) }

/-- The partitioning with all texts of its levels changed. -/
def Partitioning.mapTexts (change : String → String) : Partitioning → Partitioning
  | single clause => single (clause.mapTexts change)
  | nested clause inner => nested (clause.mapTexts change) (inner.mapTexts change)

/-! ## Statements -/

/-- The renaming with both names changed. -/
def Rename.mapTexts (change : String → String) (rename : Rename) : Rename :=
  ⟨change rename.oldName, change rename.newName⟩

/-- What belongs to an action, with all texts changed. -/
def AlterPayload.mapTexts (change : String → String) : AlterPayload → AlterPayload
  | column definition => column (definition.mapTexts change)
  | columns definitions => columns (definitions.map (Column.mapTexts change))
  | index definition => index (definition.mapTexts change)
  | rename names => rename (names.mapTexts change)
  | changeColumn oldName definition => changeColumn (change oldName) (definition.mapTexts change)
  | name text => name (change text)

/-- The clause of an alteration with all its texts changed. -/
def AlterOption.mapTexts (change : String → String) (option : AlterOption) : AlterOption :=
  { option with
    payload := option.payload.mapTexts change
    tableOptions := option.tableOptions.map (TableOption.mapTexts change) }

/-- The alteration with all its texts changed. -/
def AlterTable.mapTexts (change : String → String) (alteration : AlterTable) : AlterTable :=
  ⟨change alteration.tableName, alteration.options.map (AlterOption.mapTexts change),
    alteration.partitioning.map (Partitioning.mapTexts change)⟩

/-- The definition of a table with all its texts changed. -/
def TableElement.mapTexts (change : String → String) : TableElement → TableElement
  | column definition => column (definition.mapTexts change)
  | index definition => index (definition.mapTexts change)
  | constraint definition => constraint (definition.mapTexts change)

/-- The table with all its texts changed. -/
def Table.mapTexts (change : String → String) (table : Table) : Table :=
  { table with
    name := change table.name
    columns := table.columns.map (Column.mapTexts change)
    indexes := table.indexes.map (Index.mapTexts change)
    constraints := table.constraints.map (Constraint.mapTexts change)
    comment := table.comment.map change
    partitioning := table.partitioning.map (Partitioning.mapTexts change) }

/-- The statement with all its texts changed. -/
def Statement.mapTexts (change : String → String) : Statement → Statement
  | createTable table => createTable (table.mapTexts change)
  | alterTable alteration => alterTable (alteration.mapTexts change)

/-- What is found where the part is read, with all its texts changed. -/
def Part.mapTexts (change : String → String) : (part : Part) → part.Node → part.Node
  | column => Column.mapTexts change
  | index => Index.mapTexts change
  | constraint => Constraint.mapTexts change
  | tableOption => TableOption.mapTexts change
  | rename => Rename.mapTexts change
  | partitioning => Partitioning.mapTexts change
  | innerPartitioning => Partitioning.mapTexts change
  | alterOption => AlterOption.mapTexts change
  | alterTable => AlterTable.mapTexts change
  | table => Table.mapTexts change

/-! ## Texts that stay as they are -/

@[simp] theorem Literal.mapTexts_id : Literal.mapTexts id = id := by
  funext literal
  cases literal <;> rfl

@[simp] theorem ColumnPosition.mapTexts_id : ColumnPosition.mapTexts id = id := by
  funext position
  cases position <;> rfl

@[simp] theorem Column.mapTexts_id : Column.mapTexts id = id := by
  funext column
  simp [Column.mapTexts]

@[simp] theorem Index.mapTexts_id : Index.mapTexts id = id := by
  funext index
  simp [Index.mapTexts]

@[simp] theorem ForeignKey.mapTexts_id : ForeignKey.mapTexts id = id := by
  funext key
  simp [ForeignKey.mapTexts]

@[simp] theorem ConstraintBody.mapTexts_id : ConstraintBody.mapTexts id = id := by
  funext body
  cases body <;> simp [ConstraintBody.mapTexts]

@[simp] theorem Constraint.mapTexts_id : Constraint.mapTexts id = id := by
  funext constraint
  simp [Constraint.mapTexts]

@[simp] theorem TableOptionValue.mapTexts_id : TableOptionValue.mapTexts id = id := by
  funext value
  cases value <;> simp [TableOptionValue.mapTexts]

@[simp] theorem TableOption.mapTexts_id : TableOption.mapTexts id = id := by
  funext option
  simp [TableOption.mapTexts]

@[simp] theorem PartitionDefinition.mapTexts_id : PartitionDefinition.mapTexts id = id := by
  funext definition
  simp [PartitionDefinition.mapTexts]

@[simp] theorem PartitionClause.mapTexts_id : PartitionClause.mapTexts id = id := by
  funext clause
  simp [PartitionClause.mapTexts]

@[simp] theorem Partitioning.mapTexts_id : Partitioning.mapTexts id = id := by
  funext partitioning
  induction partitioning with
  | single clause => simp [Partitioning.mapTexts]
  | nested clause inner ih => simp [Partitioning.mapTexts, ih]

@[simp] theorem Rename.mapTexts_id : Rename.mapTexts id = id := rfl

@[simp] theorem AlterPayload.mapTexts_id : AlterPayload.mapTexts id = id := by
  funext payload
  cases payload <;> simp [AlterPayload.mapTexts]

@[simp] theorem AlterOption.mapTexts_id : AlterOption.mapTexts id = id := by
  funext option
  simp [AlterOption.mapTexts]

@[simp] theorem AlterTable.mapTexts_id : AlterTable.mapTexts id = id := by
  funext alteration
  simp [AlterTable.mapTexts]

@[simp] theorem Table.mapTexts_id : Table.mapTexts id = id := by
  funext table
  simp [Table.mapTexts]

@[simp] theorem Statement.mapTexts_id : Statement.mapTexts id = id := by
  funext statement
  cases statement <;> simp [Statement.mapTexts]

/-- What is found stays the same if its texts do. -/
theorem Part.mapTexts_id (part : Part) : part.mapTexts id = id := by
  cases part with
  | column => exact Column.mapTexts_id
  | index => exact Index.mapTexts_id
  | constraint => exact Constraint.mapTexts_id
  | tableOption => exact TableOption.mapTexts_id
  | rename => exact Rename.mapTexts_id
  | partitioning => exact Partitioning.mapTexts_id
  | innerPartitioning => exact Partitioning.mapTexts_id
  | alterOption => exact AlterOption.mapTexts_id
  | alterTable => exact AlterTable.mapTexts_id
  | table => exact Table.mapTexts_id

end TableDdl
