/-!
# Settings

The settings of a reading: the token that ends a statement, and whether constraints other than
foreign keys are refused.
-/

namespace TableDdl

/-- The settings under which a text is read. -/
structure Settings where
  /-- The keyword or punctuation mark that ends a statement. -/
  terminator : String
  /-- Whether constraints other than foreign keys are refused. -/
  strictConstraints : Bool
deriving DecidableEq, Repr

namespace Settings

/-- A semicolon ends a statement, and every constraint is accepted. -/
def standard : Settings := ⟨";", false⟩

end Settings

end TableDdl
