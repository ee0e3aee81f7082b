import TableDdl.Index.Basic
import TableDdl.Json.Record

/-!
# Indexes in JSON

An index is an object with all of its fields. Its role is the keyword in upper case.
-/

namespace TableDdl

namespace Index

/-- The JSON form of an index. -/
def toJson (index : Index) : Json :=
  .object [
    ("name", .ofOption .string index.name),
    ("index_type", .ofOption .string index.indexType),
    ("role", .ofOption (fun role => .string role.keyword) index.role),
    ("columns", .ofStrings index.columns)]

/-- The role that a JSON value names. -/
def roleOfJson? (value : Json) : Option IndexRole := value.name?.bind IndexRole.ofName?

/-- The index that a JSON value describes. -/
def ofJson? (value : Json) : Option Index :=
  match value.fields? ["name", "index_type", "role", "columns"] with
  | some [name, indexType, role, columns] => do
      return {
        name := ← Json.optional Json.string? name
        indexType := ← Json.optional Json.string? indexType
        role := ← Json.optional roleOfJson? role
        columns := ← Json.required Json.strings? columns }
  | _ => none

end Index

end TableDdl
