/-!
# Quoted names and strings

A name is written between backticks and a string between single quotes. The closing mark is
doubled inside, and in a string the backslash is doubled as well, so that reading the quoted form
gives back the text it was made from.
-/

namespace TableDdl

namespace Text

/-- The mark around a quoted name. -/
def backtick : Char := '\x60'

/-- The mark around a quoted string in normalized text. -/
def singleQuote : Char := '\x27'

/-- The other mark with which a string may be quoted. -/
def doubleQuote : Char := '\x22'

/-- The character that takes away the meaning of the one after it, inside a string. -/
def backslash : Char := '\\'

/-- Every character of the given kind is written twice. -/
def doubling (isDoubled : Char → Bool) : List Char → List Char
  | [] => []
  | character :: rest =>
      if isDoubled character then character :: character :: doubling isDoubled rest
      else character :: doubling isDoubled rest

/-- The name between backticks, with its own backticks doubled. -/
def quoteName (name : String) : String :=
  String.ofList (backtick :: (doubling (· == backtick) name.toList ++ [backtick]))

/-- The text between single quotes, with its own single quotes and backslashes doubled. -/
def quoteString (text : String) : String :=
  String.ofList (singleQuote ::
    (doubling (fun character => character == backslash || character == singleQuote) text.toList
      ++ [singleQuote]))

/-- The quoted names with a separator between them. -/
def quoteNames (separator : String) (names : List String) : String :=
  separator.intercalate (names.map quoteName)

end Text

end TableDdl
