import TableDdl.Json.Basic
import TableDdl.Number.Layout

/-!
# JSON text

A value is written either on one line or with every item and member on a line of its own, indented
by two spaces a level. In strings only the double quote, the backslash and the control characters
below the space are escaped.
-/

namespace TableDdl

namespace Json

/-- Numbers are positional from the fifth place after the point to the sixteenth before it; a
positive exponent has a plus sign, and of two equally near decimals the even one is taken. -/
def numberLayout : NumberLayout := ⟨-5, 15, true, .even⟩

/-- The digit of a number below sixteen, in lower case. -/
def hexDigit (value : Nat) : Char :=
  if value < 10 then Char.ofNat ('0'.toNat + value) else Char.ofNat ('a'.toNat + (value - 10))

/-- A character as it is written in a string. -/
def escape (character : Char) : List Char :=
  if character = '\x22' then ['\\', '\x22']
  else if character = '\\' then ['\\', '\\']
  else if character = '\n' then ['\\', 'n']
  else if character = '\t' then ['\\', 't']
  else if character = '\r' then ['\\', 'r']
  else if character = '\x08' then ['\\', 'b']
  else if character = '\x0c' then ['\\', 'f']
  else if character.toNat < 32 then
    ['\\', 'u', '0', '0', hexDigit (character.toNat / 16), hexDigit (character.toNat % 16)]
  else [character]

/-- The text of a string. -/
def quote (text : String) : String :=
  String.ofList ('\x22' :: (text.toList.flatMap escape ++ ['\x22']))

/-- How the parts of lists and objects are set apart at a level of nesting. -/
structure Spacing where
  /-- What stands before each part. -/
  before : Nat → String
  /-- What stands after the last part. -/
  closing : Nat → String
  /-- What stands after the name of a member and its colon. -/
  afterColon : String

/-- Everything on one line, without spaces. -/
def Spacing.none : Spacing := ⟨fun _ => "", fun _ => "", ""⟩

/-- A line break and two spaces for each level. -/
def lineBreak (level : Nat) : String :=
  String.ofList ('\n' :: List.replicate (2 * level) ' ')

/-- Every part on a line of its own. -/
def Spacing.indented : Spacing := ⟨fun level => lineBreak (level + 1), lineBreak, " "⟩

/-- Parts between brackets. No space stands between the brackets if there are no parts. -/
def bracketed (spacing : Spacing) (level : Nat) (opening closing : String)
    (parts : List String) : String :=
  if parts.isEmpty then opening ++ closing
  else opening ++ ",".intercalate (parts.map (spacing.before level ++ ·)) ++
    spacing.closing level ++ closing

mutual

/-- The text of a value at a level of nesting. -/
def write (spacing : Spacing) (level : Nat) : Json → String
  | null => "null"
  | bool true => "true"
  | bool false => "false"
  | integer value => toString value
  | double value => numberLayout.write value
  | string value => quote value
  | array items => bracketed spacing level "[" "]" (writeItems spacing (level + 1) items)
  | object members =>
      bracketed spacing level "\x7b" "\x7d" (writeMembers spacing (level + 1) members)
  | unrepresentable => "null"

/-- The texts of the items of a list. -/
def writeItems (spacing : Spacing) (level : Nat) : List Json → List String
  | [] => []
  | item :: rest => write spacing level item :: writeItems spacing level rest

/-- The texts of the members of an object. -/
def writeMembers (spacing : Spacing) (level : Nat) : List (String × Json) → List String
  | [] => []
  | (name, value) :: rest =>
      (quote name ++ ":" ++ spacing.afterColon ++ write spacing level value) ::
        writeMembers spacing level rest

end

/-- The text of a value on one line. -/
def compact (value : Json) : String := write .none 0 value

/-- The text of a value with every part on a line of its own. -/
def pretty (value : Json) : String := write .indented 0 value

end Json

end TableDdl
