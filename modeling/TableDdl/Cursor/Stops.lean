import TableDdl.Token.Basic

/-!
# Stop words

While a part of a statement is read, some words and punctuation marks end it: they belong to what
surrounds the part. Only bare words and punctuation can be stop words; quoted names and strings
never are.
-/

namespace TableDdl

/-- A set of stop words, in upper case. -/
structure Stops where
  /-- The words in upper case, in no particular order and possibly repeated. -/
  words : List String
deriving Repr

namespace Stops

/-- No stop words. -/
def none : Stops := ⟨[]⟩

/-- The stop words together with further ones. -/
def adding (stops : Stops) (words : List String) : Stops :=
  ⟨words.map Text.upper ++ stops.words⟩

/-- The given stop words. -/
def ofList (words : List String) : Stops := none.adding words

/-- The token is a stop word. -/
def stopAt (stops : Stops) (token : Token) : Bool :=
  if token.kind = .word then stops.words.contains (Text.upper token.text)
  else token.isPunctuation && stops.words.contains token.text

/-- There are no stop words. -/
def isEmpty (stops : Stops) : Bool := stops.words.isEmpty

/-- Both sets have the same stop words. -/
def sameAs (left right : Stops) : Bool :=
  left.words.all right.words.contains && right.words.all left.words.contains

end Stops

end TableDdl
