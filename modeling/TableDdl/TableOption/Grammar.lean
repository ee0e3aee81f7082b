import TableDdl.Grammar.Name
import TableDdl.Literal.Grammar
import TableDdl.TableOption.Basic

/-!
# Reading table options

An option is its key, an optional equals sign and its value. The words `DEFAULT`, `DATA` and `INDEX`
are keys only together with the word after them, so that a clause that begins with one of them is
not taken for an option.
-/

namespace TableDdl

namespace TableOption

open Grammar

/-- The words that are no key by themselves. -/
def leadingWords : List String := ["DEFAULT", "DATA", "INDEX"]

/-- An option starts at a token if the token after it is the given one. -/
def startsAt (token next : Token) : Bool :=
  match token.keyword? with
  | none => false
  | some keyword =>
      if keyword = "DEFAULT" then ["CHARSET", "CHARACTER", "COLLATE"].any next.spells
      else if keyword = "DATA" ∨ keyword = "INDEX" then next.spells "DIRECTORY"
      else isKeyWord keyword

/-- An option starts at the current token. -/
def atStart : Grammar Bool := look fun _ cursor => startsAt cursor.current cursor.next

/-- Reads the value of an option that takes a number, a word or a string. -/
def scalar : Grammar Literal := do
  let _ ← consume "="
  let token ← current
  match token.kind with
  | .integer | .float => advance; return Literal.ofNumber token
  | .word => advance; return .raw token.text
  | .quotedString => advance; return .string token.text
  | _ => refuse (.expected "table option value")

/-- Reads the value of an option that takes a name. -/
def nameValue : Grammar TableOptionValue := do
  let _ ← consume "="
  return .literal (.raw (← nameOrString))

/-- Reads the kind of storage of a tablespace, if it is said. -/
def storage? : Grammar (Option String) := do
  if ← consume "STORAGE" then
    unless ← seesAny ["DISK", "MEMORY"] do refuse (.expected "DISK or MEMORY after STORAGE")
    let token ← current
    advance
    return some (Text.upper token.text)
  else
    return none

/-- Reads a tablespace. -/
def tablespaceValue : Grammar TableOptionValue := do
  let _ ← consume "="
  let name ← Grammar.name
  return .tablespace name (← storage?)

/-- Reads the names of tables. -/
def tablesValue : Grammar TableOptionValue := do
  let _ ← consume "="
  return .tables (← names)

/-- The last word of a key. -/
def lastWord (key : String) : String :=
  String.ofList (key.toList.reverse.takeWhile (· ≠ ' ')).reverse

/-- Reads the words of a key; the word `SET` after `CHARACTER` is not among them. -/
def keyText : Grammar String := do
  match ← keyword? with
  | none => refuse (.expected "table option")
  | some word =>
      if leadingWords.contains word then
        advance
        match ← keyword? with
        | some next => advance; return word ++ " " ++ next
        | none => refuse (.expected ("table option after " ++ word))
      else
        advance
        return word

/-- Reads a table option. -/
def grammar : Grammar TableOption := do
  let key ← keyText
  let word := lastWord key
  if word = "CHARACTER" then
    expect "SET" (.expected "keyword SET after CHARACTER")
    return ⟨key ++ " SET", ← nameValue⟩
  else if word = "CHARSET" ∨ word = "COLLATE" then
    return ⟨key, ← nameValue⟩
  else if word = "TABLESPACE" then
    return ⟨key, ← tablespaceValue⟩
  else if word = "UNION" then
    return ⟨key, ← tablesValue⟩
  else if isKeyWord word then
    return ⟨key, .literal (← scalar)⟩
  else
    refuse (.unknownTableOption key)

/-- Reads table options as long as there are any. A comma may follow each of them. -/
def options : Grammar (List TableOption) :=
  many do
    if ← atStart then
      let option ← grammar
      let _ ← consume ","
      return some option
    else
      return none

end TableOption

end TableDdl
