import TableDdl.Column.Codec
import TableDdl.Constraint.Codec
import TableDdl.Index.Codec
import TableDdl.Partition.Codec
import TableDdl.Table.Basic

/-!
# Tables in JSON

The definition of a table is an object with all of its fields.
-/

namespace TableDdl

namespace Table

/-- The names of the fields of a table, in order. -/
def fieldNames : List String :=
  ["name", "is_temporary", "if_not_exists", "columns", "indexes", "constraints", "comment",
    "partition_by"]

/-- The fields of a table. -/
def members (table : Table) : List (String × Json) := [
  ("name", .string table.name),
  ("is_temporary", .bool table.isTemporary),
  ("if_not_exists", .bool table.ifNotExists),
  ("columns", .ofList Column.toJson table.columns),
  ("indexes", .ofList Index.toJson table.indexes),
  ("constraints", .ofList Constraint.toJson table.constraints),
  ("comment", .ofOption .string table.comment),
  ("partition_by", .ofOption Partitioning.toJson table.partitioning)]

/-- The JSON form of a table. -/
def toJson (table : Table) : Json := .object table.members

/-- The table that a JSON value describes. -/
def ofJson? (value : Json) : Option Table :=
  match value.fields? fieldNames with
  | some [name, isTemporary, ifNotExists, columns, indexes, constraints, comment, partitioning] => do
      return {
        name := ← Json.required Json.string? name
        isTemporary := ← Json.required Json.bool? isTemporary
        ifNotExists := ← Json.required Json.bool? ifNotExists
        columns := ← Json.required (Json.list? Column.ofJson?) columns
        indexes := ← Json.required (Json.list? Index.ofJson?) indexes
        constraints := ← Json.required (Json.list? Constraint.ofJson?) constraints
        comment := ← Json.optional Json.string? comment
        partitioning := ← Json.optional Partitioning.ofJson? partitioning }
  | _ => none

end Table

end TableDdl
