import TableDdl.Index.Basic

/-!
# Target words of clauses

The word after the action of a clause says to what something is done.
-/

namespace TableDdl

/-- What the word after the action of a clause stands for. -/
inductive TargetWord where
  /-- A column. -/
  | column
  /-- An index, with a role if the word is the keyword of one. -/
  | index (role : Option IndexRole)
  /-- A constraint. -/
  | constraint
  /-- A partition. -/
  | partition
  /-- The table, of which a new name follows. -/
  | table
deriving DecidableEq, Repr

namespace TargetWord

/-- What the word stands for, in any case. -/
def ofWord? (word : String) : Option TargetWord :=
  let keyword := Text.upper word
  if keyword = "COLUMN" then some column
  else if keyword = "INDEX" ∨ keyword = "KEY" then some (index none)
  else if keyword = "CONSTRAINT" then some constraint
  else if keyword = "PARTITION" then some partition
  else if keyword = "TO" ∨ keyword = "AS" then some table
  else (IndexRole.ofKeyword? keyword).map fun role => index (some role)

end TargetWord

end TableDdl
