import TableDdl.Json.Record
import TableDdl.Rename.Basic

/-!
# Renamings in JSON

A renaming is an object with both names.
-/

namespace TableDdl

namespace Rename

/-- The JSON form of a renaming. -/
def toJson (rename : Rename) : Json :=
  .object [("old_name", .string rename.oldName), ("new_name", .string rename.newName)]

/-- The renaming that a JSON value describes. -/
def ofJson? (value : Json) : Option Rename :=
  match value.fields? ["old_name", "new_name"] with
  | some [oldName, newName] => do
      return ⟨← Json.required Json.string? oldName, ← Json.required Json.string? newName⟩
  | _ => none

end Rename

end TableDdl
