import TableDdl.Text.Quoted

/-!
# Renamings

A column or an index gets a new name.
-/

namespace TableDdl

/-- A new name for a column or an index. -/
structure Rename where
  /-- The name so far. -/
  oldName : String
  /-- The new name. -/
  newName : String
deriving DecidableEq, Repr

namespace Rename

/-- The text of a renaming. -/
def render (rename : Rename) : String :=
  Text.quoteName rename.oldName ++ " TO " ++ Text.quoteName rename.newName

end Rename

end TableDdl
