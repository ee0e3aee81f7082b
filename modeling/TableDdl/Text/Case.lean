/-!
# Letter case of keywords

Keywords are compared without regard to the case of the ASCII letters. The upper-case form of a
text is the one by which it is compared; letters outside ASCII stay as they are.
-/

namespace TableDdl

namespace Text

/-- The text with its ASCII letters in upper case. -/
def upper (text : String) : String :=
  String.ofList (text.toList.map Char.toUpper)

/-- The text with its ASCII letters in lower case. -/
def lower (text : String) : String :=
  String.ofList (text.toList.map Char.toLower)

/-- The texts differ at most in the case of ASCII letters. -/
def sameWord (left right : String) : Bool :=
  upper left == upper right

@[simp] theorem toList_upper (text : String) :
    (upper text).toList = text.toList.map Char.toUpper := by
  simp [upper]

theorem upper_append (left right : String) : upper (left ++ right) = upper left ++ upper right := by
  apply String.toList_injective
  simp

end Text

end TableDdl
