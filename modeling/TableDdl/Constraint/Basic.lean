import TableDdl.Text.Quoted

/-!
# Constraints

A constraint is a foreign key, or any other clause, which is kept as text. A foreign key may say what
happens when the row that it refers to is deleted or updated.
-/

namespace TableDdl

/-- What happens to a row when the row that it refers to changes. -/
inductive ReferentialAction where
  /-- The change is refused. -/
  | restrict
  /-- The row is changed as well. -/
  | cascade
  /-- The reference is removed. -/
  | setNull
  /-- The change is refused at the end of the statement. -/
  | noAction
  /-- The reference gets its default. -/
  | setDefault
deriving DecidableEq, Repr

namespace ReferentialAction

/-- All actions. -/
def all : List ReferentialAction := [restrict, cascade, setNull, noAction, setDefault]

/-- The text of an action. -/
def render : ReferentialAction → String
  | restrict => "RESTRICT"
  | cascade => "CASCADE"
  | setNull => "SET NULL"
  | noAction => "NO ACTION"
  | setDefault => "SET DEFAULT"

end ReferentialAction

/-- A foreign key. -/
structure ForeignKey where
  /-- The name of its index. -/
  indexName : Option String
  /-- The columns that refer. -/
  localColumns : List String
  /-- The table that is referred to. -/
  referencedTable : String
  /-- The columns that are referred to. -/
  referencedColumns : List String
  /-- What happens when the row that is referred to is deleted. -/
  onDelete : Option ReferentialAction
  /-- What happens when the row that is referred to is updated. -/
  onUpdate : Option ReferentialAction
deriving DecidableEq, Repr

namespace ForeignKey

/-- The text of an action on an event. -/
def renderAction (event : String) : Option ReferentialAction → String
  | some action => " ON " ++ event ++ " " ++ action.render
  | none => ""

/-- The text of a foreign key. -/
def render (key : ForeignKey) : String :=
  "FOREIGN KEY" ++
  (match key.indexName with
    | some name => " " ++ Text.quoteName name
    | none => "") ++
  " (" ++ Text.quoteNames "," key.localColumns ++ ") REFERENCES " ++
  Text.quoteName key.referencedTable ++ " (" ++ Text.quoteNames "," key.referencedColumns ++ ")" ++
  renderAction "DELETE" key.onDelete ++ renderAction "UPDATE" key.onUpdate

end ForeignKey

/-- What a constraint demands. -/
inductive ConstraintBody where
  /-- The columns refer to a row of another table. -/
  | foreignKey (key : ForeignKey)
  /-- Anything else, as text. -/
  | unsupported (clause : String)
deriving DecidableEq, Repr

/-- A constraint of a table. -/
structure Constraint where
  /-- The name. -/
  name : Option String
  /-- What is demanded. -/
  body : ConstraintBody
deriving DecidableEq, Repr

namespace Constraint

/-- The constraint is a foreign key. -/
def isForeignKey (constraint : Constraint) : Bool :=
  match constraint.body with
  | .foreignKey _ => true
  | .unsupported _ => false

/-- The text of a constraint. -/
def render (constraint : Constraint) : String :=
  "CONSTRAINT" ++
  (match constraint.name with
    | some name => " " ++ Text.quoteName name
    | none => "") ++ " " ++
  match constraint.body with
  | .foreignKey key => key.render
  | .unsupported clause => clause

end Constraint

end TableDdl
