import TableDdl.Text.Case
import TableDdl.Text.Quoted

/-!
# Indexes

The definition of an index: what role it has, its name, its columns, and the type of structure it is
kept in.
-/

namespace TableDdl

/-- The role of an index. -/
inductive IndexRole where
  /-- The primary key. -/
  | primary
  /-- No two rows have the same values. -/
  | unique
  /-- A search for words. -/
  | fulltext
  /-- A search for places. -/
  | spatial
  /-- A foreign key. -/
  | foreign
deriving DecidableEq, Repr

namespace IndexRole

/-- All roles. -/
def all : List IndexRole := [primary, unique, fulltext, spatial, foreign]

/-- The keyword of a role. -/
def keyword : IndexRole → String
  | primary => "PRIMARY"
  | unique => "UNIQUE"
  | fulltext => "FULLTEXT"
  | spatial => "SPATIAL"
  | foreign => "FOREIGN"

/-- The role with exactly the given keyword. -/
def ofName? (name : String) : Option IndexRole := all.find? fun role => role.keyword == name

/-- The role with the given keyword, in any case. -/
def ofKeyword? (word : String) : Option IndexRole := ofName? (Text.upper word)

/-- The words `INDEX` and `KEY` may be left out after the keyword of the role. -/
def standsAlone : IndexRole → Bool
  | unique | fulltext | spatial => true
  | primary | foreign => false

end IndexRole

/-- The definition of an index. -/
structure Index where
  /-- The name. -/
  name : Option String
  /-- The type of structure the index is kept in. -/
  indexType : Option String
  /-- The role. -/
  role : Option IndexRole
  /-- The names of the columns. -/
  columns : List String
deriving DecidableEq, Repr

namespace Index

/-- The text of an index definition. -/
def render (index : Index) : String :=
  (match index.role with
    | some role => role.keyword ++ " KEY"
    | none => "KEY") ++
  (match index.name with
    | some name => " " ++ Text.quoteName name
    | none => "") ++
  " (" ++ Text.quoteNames "," index.columns ++ ")" ++
  (match index.indexType with
    | some indexType => " USING " ++ indexType
    | none => "")

/-- The words that start an index definition among the definitions of a table. -/
def startWords : List String := ["INDEX", "KEY", "PRIMARY", "UNIQUE", "FULLTEXT", "SPATIAL"]

/-- The word, in any case, starts an index definition among the definitions of a table. -/
def startsWith (word : String) : Bool := startWords.contains (Text.upper word)

end Index

end TableDdl
