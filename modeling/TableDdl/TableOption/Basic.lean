import TableDdl.Literal.Basic
import TableDdl.Text.Case

/-!
# Table options

An option of a table is a key of one or more words and a value, which is a literal, a list of tables
or a tablespace.
-/

namespace TableDdl

/-- The value of a table option. -/
inductive TableOptionValue where
  /-- A literal. -/
  | literal (value : Literal)
  /-- The names of tables. -/
  | tables (names : List String)
  /-- A tablespace and the kind of storage that it has. -/
  | tablespace (name : String) (storage : Option String)
deriving DecidableEq, Repr

/-- An option of a table. -/
structure TableOption where
  /-- The words of the key in upper case, with spaces between them. -/
  key : String
  /-- The value. -/
  value : TableOptionValue
deriving DecidableEq, Repr

namespace TableOption

/-- The text of a table option. -/
def render (option : TableOption) : String :=
  match option.value with
  | .literal value => option.key ++ " = " ++ value.render
  | .tables names => option.key ++ " = (" ++ Text.quoteNames "," names ++ ")"
  | .tablespace name storage =>
      option.key ++ " " ++ Text.quoteName name ++
        match storage with
        | some storage => " STORAGE " ++ storage
        | none => ""

/-- The words of which the keys of table options are made. -/
def keyWords : List String :=
  ["AUTOEXTEND_SIZE", "AUTO_INCREMENT", "AVG_ROW_LENGTH", "DEFAULT", "CHARACTER", "CHARSET",
    "COLLATE", "CHECKSUM", "COMMENT", "COMPRESSION", "CONNECTION", "DATA", "INDEX", "DIRECTORY",
    "DELAY_KEY_WRITE", "ENCRYPTION", "ENGINE", "ENGINE_ATTRIBUTE", "INSERT_METHOD",
    "KEY_BLOCK_SIZE", "MAX_ROWS", "MIN_ROWS", "PACK_KEYS", "PASSWORD", "ROW_FORMAT",
    "SECONDARY_ENGINE_ATTRIBUTE", "STATS_AUTO_RECALC", "STATS_PERSISTENT", "STATS_SAMPLE_PAGES",
    "TABLESPACE", "UNION"]

/-- The word, in any case, is a word of the key of a table option. -/
def isKeyWord (word : String) : Bool := keyWords.contains (Text.upper word)

end TableOption

end TableDdl
