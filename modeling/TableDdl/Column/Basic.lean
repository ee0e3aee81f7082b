import TableDdl.Literal.Basic

/-!
# Columns

The definition of a column: its name, its data type with the parameters of the type, and its
attributes. A column that a clause adds or changes may say where it goes.
-/

namespace TableDdl

/-- Where a column goes among the columns of its table. -/
inductive ColumnPosition where
  /-- Before all others. -/
  | first
  /-- Directly after another column. -/
  | after (column : String)
deriving DecidableEq, Repr

namespace ColumnPosition

/-- The text of a position. -/
def render : ColumnPosition → String
  | first => "FIRST"
  | after column => "AFTER " ++ Text.quoteName column

end ColumnPosition

/-- The definition of a column. -/
structure Column where
  /-- The name. -/
  name : String
  /-- The name of the data type. -/
  typeName : String
  /-- The width or length of the data type. -/
  width : Option UInt32 := none
  /-- The number of decimals of the data type. -/
  decimals : Option UInt32 := none
  /-- Whether values have no sign. -/
  isUnsigned : Bool := false
  /-- Whether a value may be missing. -/
  isNullable : Bool := true
  /-- Whether numbers are filled up with zeros. -/
  isZerofill : Bool := false
  /-- Whether values are numbered by themselves. -/
  isAutoIncrement : Bool := false
  /-- The value of a new row. -/
  defaultValue : Option Literal := none
  /-- The value after a change of the row. -/
  onUpdate : Option Literal := none
  /-- The members of an enumeration. -/
  variants : Option (List Literal) := none
  /-- The comment. -/
  comment : Option String := none
  /-- Where the column goes. -/
  position : Option ColumnPosition := none
deriving DecidableEq, Repr

namespace Column

/-- The text of an optional part: a space, a text before the part, and the part. -/
def renderPart {α : Type} (before : String) (render : α → String) : Option α → String
  | some part => " " ++ before ++ render part
  | none => ""

/-- The text of a flag. -/
def renderFlag (keyword : String) (isSet : Bool) : String :=
  if isSet then " " ++ keyword else ""

/-- The text of the parameters of the data type. -/
def renderParameters (column : Column) : String :=
  match column.variants, column.width, column.decimals with
  | some variants, _, _ => " (" ++ Literal.renderAll "," variants ++ ")"
  | none, some width, some decimals =>
      " (" ++ Number.writeNat width.toNat ++ "," ++ Number.writeNat decimals.toNat ++ ")"
  | none, some width, none => " (" ++ Number.writeNat width.toNat ++ ")"
  | none, none, _ => ""

/-- The text of a column definition. -/
def render (column : Column) : String :=
  Text.quoteName column.name ++ " " ++ column.typeName ++ column.renderParameters ++
    renderFlag "UNSIGNED" column.isUnsigned ++
    renderFlag "ZEROFILL" column.isZerofill ++
    (if column.isNullable then " NULL" else " NOT NULL") ++
    renderPart "DEFAULT " Literal.render column.defaultValue ++
    renderPart "ON UPDATE " Literal.render column.onUpdate ++
    renderFlag "AUTO_INCREMENT" column.isAutoIncrement ++
    renderPart "COMMENT " Text.quoteString column.comment ++
    renderPart "" ColumnPosition.render column.position

end Column

end TableDdl
