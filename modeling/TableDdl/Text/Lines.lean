/-!
# Lines of a text

A line ends with a line break, which may be preceded by a carriage return. Characters after the last
line break are a line, too.
-/

namespace TableDdl

namespace Text

/-- The line that is held last character first, without a carriage return at its end. -/
def withoutReturn : List Char → List Char
  | '\r' :: line => line.reverse
  | line => line.reverse

/-- The lines of the characters, after the part of a line that is held last character first. -/
def linesAfter (line : List Char) : List Char → List (List Char)
  | [] => if line.isEmpty then [] else [line.reverse]
  | '\n' :: rest => withoutReturn line :: linesAfter [] rest
  | character :: rest => linesAfter (character :: line) rest

/-- The lines of a text, without their line breaks. -/
def lines (text : String) : List String :=
  (linesAfter [] text.toList).map String.ofList

end Text

end TableDdl
