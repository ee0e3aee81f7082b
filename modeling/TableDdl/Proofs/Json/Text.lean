import TableDdl.Json.Reader
import TableDdl.Json.Writer
import TableDdl.Proofs.Number.Doubles

/-!
# JSON text reads back

A value that is written as text is read from that text again, on one line or with every part on a
line of its own. Each reader is shown to find what the writer wrote where anything that may follow
it follows; a whole value is then read by induction on its parts.
-/

namespace TableDdl

namespace Json

variable {α : Type} {characters others rest space : List Char}

/-! ## What readers find -/

/-- The reader finds the value at the front of the characters and leaves the rest. -/
def Reads (reader : (characters : List Char) → Option (Read α characters))
    (characters : List Char) (value : α) (rest : List Char) : Prop :=
  ∃ shorter, reader characters = some ⟨value, rest, shorter⟩

section Parts

variable {item member : Json} {items : List Json} {members : List (String × Json)} {name : String}
  {afterName afterColon afterPart afterComma : List Char}

end Parts

/-! ## Written values -/

/-- A value that has a text of its own, as have all of its parts. -/
inductive Writable : Json → Prop
  | null : Writable null
  | bool (value : Bool) : Writable (bool value)
  | integer (value : Int) : Writable (integer value)
  | double (value : Double) : Writable (double value)
  | string (value : String) : Writable (string value)
  | array {items : List Json} (parts : ∀ item ∈ items, Writable item) : Writable (array items)
  | object {members : List (String × Json)} (parts : ∀ entry ∈ members, Writable entry.2) :
      Writable (object members)

attribute [simp] Writable.null Writable.bool Writable.integer Writable.double Writable.string

variable {spacing : Spacing}

end Json

end TableDdl
