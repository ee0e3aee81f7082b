import TableDdl.Number.Double

/-!
# JSON values

The members of an object keep their order. A text may hold a value that this type has no place for,
a number beyond the doubles or a string with half of a surrogate pair; such a value is kept as one
that no decoder accepts.
-/

namespace TableDdl

/-- A JSON value. -/
inductive Json where
  /-- The value `null`. -/
  | null
  /-- A truth value. -/
  | bool (value : Bool)
  /-- A number without fraction and exponent. -/
  | integer (value : Int)
  /-- A number with a fraction or an exponent. -/
  | double (value : Double)
  /-- A string. -/
  | string (value : String)
  /-- A list of values. -/
  | array (items : List Json)
  /-- Named members in order. -/
  | object (members : List (String × Json))
  /-- A well-formed number or string that is not representable. -/
  | unrepresentable
deriving Repr

namespace Json

/-- The value, or `null` in place of nothing. -/
def ofOption {α : Type} (encode : α → Json) : Option α → Json
  | some value => encode value
  | none => null

/-- The list of the encoded items. -/
def ofList {α : Type} (encode : α → Json) (items : List α) : Json :=
  array (items.map encode)

/-- The list of strings. -/
def ofStrings (items : List String) : Json := ofList string items

/-- A value under its tag, as two members. -/
def tagged (kind : String) (value : Json) : Json :=
  object [("kind", string kind), ("value", value)]

end Json

end TableDdl
