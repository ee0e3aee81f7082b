import TableDdl.Json.Reader
import TableDdl.Json.Record
import TableDdl.Settings.Basic

/-!
# Settings in JSON

Settings are read from an object with the members `statement_terminator` and `strict_constraints`,
or from a list with the two values in this order. What is missing keeps its standard value.
-/

namespace TableDdl

namespace Settings

/-- The value of a setting that was given, or its standard value. -/
def orStandard {α : Type} (decode : Json → Option α) (standard : α) : Option Json → Option α
  | some value => decode value
  | none => some standard

/-- Settings of which each may be missing. -/
def ofValues? (terminator strictConstraints : Option Json) : Option Settings := do
  return ⟨← orStandard Json.string? standard.terminator terminator,
    ← orStandard Json.bool? standard.strictConstraints strictConstraints⟩

/-- The settings that a value describes. -/
def ofJson? : Json → Option Settings
  | .object members => do
      ofValues? (← Json.member? members "statement_terminator")
        (← Json.member? members "strict_constraints")
  | .array [] => some standard
  | .array [terminator] => ofValues? terminator none
  | .array [terminator, strictConstraints] => ofValues? terminator strictConstraints
  | _ => none

/-- The settings that a JSON text describes. -/
def ofText? (text : String) : Option Settings :=
  (Json.parse? text).bind ofJson?

end Settings

end TableDdl
