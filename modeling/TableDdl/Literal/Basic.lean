import TableDdl.Number.Layout
import TableDdl.Number.Writer
import TableDdl.Text.Quoted

/-!
# Literals

Defaults, members of enumerations and bounds of partitions are literals. Numbers that fit their type
are kept as values; everything that is no number and no string, such as a function call, is kept as
the text of its tokens.
-/

namespace TableDdl

/-- A literal. -/
inductive Literal where
  /-- An integer. -/
  | integer (value : Int64)
  /-- A number with a fraction or an exponent. -/
  | float (value : Double)
  /-- A quoted string. -/
  | string (text : String)
  /-- Anything else, as text. -/
  | raw (text : String)
deriving DecidableEq, Repr

namespace Literal

/-- Numbers are positional from the fourth place after the point to the sixteenth before it; a
positive exponent has no plus sign, and of two equally near decimals the larger one is taken. -/
def numberLayout : NumberLayout := ⟨-4, 15, false, .up⟩

/-- The text of a literal. -/
def render : Literal → String
  | integer value => Number.writeInt value.toInt
  | float value => numberLayout.write value
  | string text => Text.quoteString text
  | raw text => text

/-- The texts of literals with a separator between them. -/
def renderAll (separator : String) (literals : List Literal) : String :=
  separator.intercalate (literals.map render)

end Literal

end TableDdl
