import TableDdl.Text.Case

/-!
# Families of data types

The family of a data type says what parameters may follow its name.
-/

namespace TableDdl

/-- What parameters a data type has. -/
inductive TypeFamily where
  /-- A width, and whether there is a sign. -/
  | integer
  /-- A width and a number of decimals, and whether there is a sign. -/
  | fixedPoint
  /-- A number of decimals of the seconds. -/
  | temporal
  /-- None. -/
  | plain
  /-- A length. -/
  | sizedString
  /-- A list of members. -/
  | enumerated
  /-- None, as the type is not known. -/
  | other
deriving DecidableEq, Repr

namespace TypeFamily

/-- The names of the integer types. -/
def integerTypes : List String :=
  ["BIT", "TINYINT", "SMALLINT", "MEDIUMINT", "INT", "INTEGER", "BIGINT"]

/-- The names of the types of numbers with decimals. -/
def fixedPointTypes : List String :=
  ["REAL", "DOUBLE", "FLOAT", "DECIMAL", "NUMERIC", "DEC", "FIXED"]

/-- The names of the types of times with seconds. -/
def temporalTypes : List String := ["TIME", "TIMESTAMP", "DATETIME"]

/-- The names of the types without parameters. -/
def plainTypes : List String :=
  ["DATE", "YEAR", "BOOL", "BOOLEAN", "TINYBLOB", "BLOB", "MEDIUMBLOB", "LONGBLOB", "TINYTEXT",
    "TEXT", "MEDIUMTEXT", "LONGTEXT", "JSON"]

/-- The names of the types of texts with a length. -/
def sizedStringTypes : List String := ["CHAR", "VARCHAR", "BINARY", "VARBINARY"]

/-- The names of the types with a list of members. -/
def enumeratedTypes : List String := ["ENUM", "SET"]

/-- The family of the data type with the given name, in any case. -/
def ofName (typeName : String) : TypeFamily :=
  let name := Text.upper typeName
  if name ∈ integerTypes then .integer
  else if name ∈ fixedPointTypes then .fixedPoint
  else if name ∈ temporalTypes then .temporal
  else if name ∈ plainTypes then .plain
  else if name ∈ sizedStringTypes then .sizedString
  else if name ∈ enumeratedTypes then .enumerated
  else .other

end TypeFamily

end TableDdl
