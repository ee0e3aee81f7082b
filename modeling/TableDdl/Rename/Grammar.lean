import TableDdl.Grammar.Name
import TableDdl.Rename.Basic

/-!
# Reading renamings

A renaming is the name so far, the word `TO` and the new name.
-/

namespace TableDdl

namespace Rename

/-- Reads a renaming. -/
def grammar : Grammar Rename := do
  let oldName ← Grammar.name
  Grammar.expect "TO" (.expected "keyword TO in RENAME")
  let newName ← Grammar.name
  return { oldName, newName }

end Rename

end TableDdl
