import TableDdl.Text.Ranges

/-!
# Blank characters

The characters of the Unicode property `White_Space`. They separate tokens, and they are what is
trimmed from a line typed at the prompt.
-/

namespace TableDdl

namespace Text

/-- The intervals of the Unicode property `White_Space`. -/
def blankRanges : List (Nat × Nat) := [
  (0x9, 0xd), (0x20, 0x20), (0x85, 0x85), (0xa0, 0xa0), (0x1680, 0x1680), (0x2000, 0x200a),
  (0x2028, 0x2029), (0x202f, 0x202f), (0x205f, 0x205f), (0x3000, 0x3000)
]

/-- The character has the Unicode property `White_Space`. -/
def isBlank (character : Char) : Bool :=
  inRanges blankRanges character

/-- The characters without the blanks at both ends. -/
def trimChars (characters : List Char) : List Char :=
  ((characters.dropWhile isBlank).reverse.dropWhile isBlank).reverse

/-- The text without the blanks at both ends. -/
def trim (text : String) : String :=
  String.ofList (trimChars text.toList)

/-- The run of characters that is complete, last one first, unless it is empty. -/
def completeRun : List Char → List String
  | [] => []
  | run => [String.ofList run.reverse]

/-- The maximal runs that are not blank, after the run being read, which is held last character
first. -/
def runsAfter (run : List Char) : List Char → List String
  | [] => completeRun run
  | character :: rest =>
      if isBlank character then completeRun run ++ runsAfter [] rest
      else runsAfter (character :: run) rest

/-- The maximal runs of characters that are not blank, in order. -/
def blankSeparated (text : String) : List String :=
  runsAfter [] text.toList

end Text

end TableDdl
