import TableDdl.Column.Basic
import TableDdl.Column.TypeFamily
import TableDdl.Grammar.Name
import TableDdl.Grammar.Scan
import TableDdl.Literal.Grammar

/-!
# Reading columns

A column is its name, the name of its data type, the parameters of that type, clauses on its
character set, and attributes in any order up to a comma, a closing parenthesis or a stop word.
Attributes that are not modelled are passed over. In an inline `REFERENCES` clause `ON UPDATE` says
what happens to a reference, and is no attribute of the column.
-/

namespace TableDdl

namespace Column

open Grammar

/-- Reads a width in parentheses, if there is one. -/
def width? : Grammar (Option UInt32) := do
  if ← consume "(" then
    let width ← unsigned "type width"
    expect ")" (.expected "closing bracket \")\" after type width")
    return some width
  else
    return none

/-- Reads a width and a number of decimals in parentheses, either of which may be missing, and
gives the column with them. -/
def withPrecision (column : Column) : Grammar Column := do
  if ← consume "(" then
    let width ← unsigned "type width"
    let decimals ← if ← consume "," then some <$> unsigned "decimal digits" else pure none
    expect ")" (.expected "closing bracket \")\" after type precision")
    return { column with width := some width, decimals := decimals }
  else
    return column

/-- The flags of a data type of numbers. -/
inductive NumericFlag where
  /-- Values have no sign. -/
  | unsigned
  /-- Values have a sign. -/
  | signed
  /-- Values are filled up with zeros. -/
  | zerofill
deriving DecidableEq, Repr

/-- The column with a flag. What is filled up with zeros has no sign. -/
def withFlag (column : Column) : NumericFlag → Column
  | .unsigned => { column with isUnsigned := true }
  | .signed => column
  | .zerofill => { column with isZerofill := true, isUnsigned := true }

/-- Reads a flag of a data type of numbers, if there is one. -/
def numericFlag? : Grammar (Option NumericFlag) := do
  if ← consume "UNSIGNED" then return some .unsigned
  else if ← consume "ZEROFILL" then return some .zerofill
  else if ← consume "SIGNED" then return some .signed
  else return none

/-- Reads the flags of a data type of numbers, and gives the column with them. -/
def withFlags (column : Column) : Grammar Column := do
  return (← many numericFlag?).foldl withFlag column

/-- Reads the members of an enumeration. -/
def memberList : Grammar (List Literal) :=
  parenthesized (.expected "opening bracket \"(\" of value list")
    (.expected "closing bracket \")\" of value list") Literal.grammar

/-- Reads the parameters of the data type of the column, and gives the column with them. -/
def withParameters (column : Column) : Grammar Column := do
  match TypeFamily.ofName column.typeName with
  | .integer => withFlags { column with width := ← width? }
  | .fixedPoint => withFlags (← withPrecision column)
  | .temporal | .sizedString => return { column with width := ← width? }
  | .enumerated => return { column with variants := some (← memberList) }
  | .plain | .other => return column

/-- Reads a clause on the character set, if there is one. -/
def characterSet? : Grammar (Option Unit) := do
  if ← consume "CHARACTER" then
    expect "SET" (.expected "keyword SET after CHARACTER")
    let _ ← nameOrString
    return some ()
  else if ← consumeAny ["CHARSET", "COLLATE"] then
    let _ ← nameOrString
    return some ()
  else
    return none

/-- A column of which the attributes are being read. -/
structure Draft where
  /-- The column with the attributes so far. -/
  column : Column
  /-- Whether an inline `REFERENCES` clause has begun. -/
  inReference : Bool

/-- Reads an attribute outside all parentheses. The word `AUTO_INCREMENT` is noted and left to the
scan, as is every token that starts no attribute. -/
def readAttribute (draft : Draft) : Grammar (Bool × Draft) := do
  let column := draft.column
  let taken (changed : Column) : Bool × Draft := (true, { draft with column := changed })
  if ← sees "REFERENCES" then
    return (false, { draft with inReference := true })
  else if ← consume "NOT" then
    expect "NULL" (.expected "keyword NULL after NOT")
    return taken { column with isNullable := false }
  else if ← consume "NULL" then
    return taken { column with isNullable := true }
  else if ← consume "DEFAULT" then
    return taken { column with defaultValue := some (← Literal.grammar) }
  else if !draft.inReference && (← sees "ON") && (← nextSees "UPDATE") then
    advance
    advance
    return taken { column with onUpdate := some (← Literal.grammar) }
  else if ← consume "COMMENT" then
    unless ← seesKind .quotedString do refuse (.expected "quoted string after COMMENT")
    let token ← current
    advance
    return taken { column with comment := some token.text }
  else if ← sees "AUTO_INCREMENT" then
    return (false, { draft with column := { column with isAutoIncrement := true } })
  else
    return (false, draft)

/-- Reads the attributes of a column, and gives the column with them. -/
def withAttributes (column : Column) : Grammar Column := do
  let draft ← scan [","] (⟨column, false⟩ : Draft) fun depth draft =>
    if depth = 0 then readAttribute draft else return (false, draft)
  return draft.column

/-- Reads what follows the name of a column. -/
def afterName (name : String) : Grammar Column := do
  match ← keyword? with
  | none => refuse (.expected ("data type of column '" ++ name ++ "'"))
  | some typeName =>
      advance
      let column ← withParameters { name, typeName }
      let _ ← many characterSet?
      withAttributes column

/-- Reads a column. -/
def grammar : Grammar Column := do
  afterName (← Grammar.name)

end Column

end TableDdl
