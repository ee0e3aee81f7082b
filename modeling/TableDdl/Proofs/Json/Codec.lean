import TableDdl.Json.Record
import TableDdl.Proofs.Json.Text

/-!
# Encoded values are decoded

An encoder and a decoder fit together if every encoded value is decoded again. Records add to this
that their fields have different names, so that each of them is found under its own, and that an
optional field is never encoded as `null` where it has a value.
-/

namespace TableDdl

namespace Json

variable {α : Type} {encode : α → Json} {decode : Json → Option α}

/-! ## Encoders and decoders -/

/-- The decoder takes every encoded value back to what was encoded and does not take `null`, and an
encoded value can be written as text. -/
structure Codes (encode : α → Json) (decode : Json → Option α) : Prop where
  decodes : ∀ value, decode (encode value) = some value
  writable : ∀ value, Writable (encode value)
  notNull : decode null = none

/-- A field of a record takes back every value that it is given. -/
structure CodesField (encode : α → Json) (decode : Option Json → Option α) : Prop where
  decodes : ∀ value, decode (some (encode value)) = some value
  writable : ∀ value, Writable (encode value)

theorem Codes.required (codes : Codes encode decode) : CodesField encode (required decode) :=
  ⟨codes.decodes, codes.writable⟩

theorem Codes.optional (codes : Codes encode decode) :
    CodesField (ofOption encode) (optional decode) where
  decodes
    | none => rfl
    | some value => by
        rw [ofOption, Json.optional, codes.decodes, Option.map_some]
        intro isNull
        have decoded := codes.decodes value
        rw [isNull, codes.notNull] at decoded
        cases decoded
  writable
    | none => .null
    | some value => codes.writable value

theorem Codes.list (codes : Codes encode decode) : Codes (ofList encode) (list? decode) where
  decodes items := by
    change (items.map encode).mapM decode = some items
    induction items with
    | nil => rfl
    | cons item items ih => simp [codes.decodes, ih]
  writable items := .array fun item member => by
    obtain ⟨value, _, rfl⟩ := List.mem_map.mp member
    exact codes.writable value
  notNull := rfl

theorem codes_string : Codes string string? := ⟨fun _ => rfl, .string, rfl⟩

theorem codes_strings : Codes ofStrings strings? := codes_string.list

theorem codes_bool : Codes bool bool? := ⟨fun _ => rfl, .bool, rfl⟩

theorem codes_int64 : Codes (fun value : Int64 => integer value.toInt) int64? where
  decodes value := by
    have low : -2 ^ 63 ≤ value.toInt := value.le_toInt
    have high : value.toInt < 2 ^ 63 := value.toInt_lt
    rw [int64?, if_pos ⟨low, high⟩, Int64.ofInt_toInt]
  writable value := .integer _
  notNull := rfl

theorem codes_uint32 : Codes (fun value : UInt32 => integer value.toNat) uint32? where
  decodes value := by
    have high : value.toNat < 4294967296 := value.toNat_lt
    rw [uint32?, if_pos (by omega), Int.toNat_natCast, UInt32.ofNat_toNat]
  writable value := .integer _
  notNull := rfl

theorem codes_uint8 : Codes (fun value : UInt8 => integer value.toNat) uint8? where
  decodes value := by
    have high : value.toNat < 256 := value.toNat_lt
    rw [uint8?, if_pos (by omega), Int.toNat_natCast, UInt8.ofNat_toNat]
  writable value := .integer _
  notNull := rfl

/-- Names that are all different are found again. -/
theorem codes_name {name : α → String} {find : String → Option α}
    (finds : ∀ value, find (name value) = some value) :
    Codes (fun value => string (name value)) fun value => value.name?.bind find :=
  ⟨finds, fun _ => .string _, rfl⟩

/-! ## Records -/

theorem membersNamed_of_notMem {name : String} {members : List (String × Json)}
    (other : name ∉ members.map Prod.fst) : membersNamed name members = [] := by
  have none : members.filter (fun entry => entry.1 == name) = [] := by
    rw [List.filter_eq_nil_iff]
    rintro entry member same
    exact other (List.mem_map.mpr ⟨entry, member, by simpa using same⟩)
  rw [membersNamed, none, List.map_nil]

/-- A member whose name no other member has is found by it. -/
theorem member?_of_nodup {members : List (String × Json)} {entry : String × Json}
    (distinct : (members.map Prod.fst).Nodup) (isMember : entry ∈ members) :
    member? members entry.1 = some (some entry.2) := by
  obtain ⟨before, after, rfl⟩ := List.append_of_mem isMember
  simp only [List.map_append, List.map_cons, List.nodup_append, List.nodup_cons] at distinct
  have notBefore : entry.1 ∉ before.map Prod.fst :=
    fun member => distinct.2.2 entry.1 member entry.1 (by simp) rfl
  have once : membersNamed entry.1 (before ++ entry :: after) = [entry.2] := by
    have noneBefore := membersNamed_of_notMem notBefore
    have noneAfter := membersNamed_of_notMem distinct.2.1.1
    simp only [membersNamed, List.filter_append, List.map_append] at noneBefore noneAfter ⊢
    simp [noneBefore, noneAfter]
  rw [member?, once]

/-- The members of a record with different names are its fields. -/
theorem fields?_object (names : List String) {members : List (String × Json)}
    (named : members.map Prod.fst = names) (distinct : names.Nodup) :
    fields? names (object members) = some (members.map fun entry => some entry.2) := by
  subst named
  have found (entry : String × Json) (isMember : entry ∈ members) :=
    member?_of_nodup distinct isMember
  -- The members that are looked up shrink, those among which they are looked up do not.
  have looked (entries : List (String × Json)) (within : entries ⊆ members) :
      (entries.map Prod.fst).mapM (member? members) =
        some (entries.map fun entry => some entry.2) := by
    induction entries with
    | nil => rfl
    | cons entry entries ih =>
        obtain ⟨isMember, others⟩ := List.cons_subset.mp within
        simp [found entry isMember, ih others]
  exact looked members (List.Subset.refl members)

theorem fields?_pair {first second : String} (firstValue secondValue : Json)
    (distinct : first ≠ second) :
    fields? [first, second] (object [(first, firstValue), (second, secondValue)]) =
      some [some firstValue, some secondValue] :=
  fields?_object _ rfl (by simp [distinct])

theorem tagged?_tagged (kind : String) (value : Json) :
    tagged? (tagged kind value) = some (kind, value) := rfl

theorem writable_tagged {value : Json} (kind : String) (writable : Writable value) :
    Writable (tagged kind value) :=
  .object (by simp [Writable.string, writable])

/-- The label of a record is found if it is the name of none of the fields. -/
theorem labelled?_object {label name : String} {members : List (String × Json)}
    (other : label ∉ members.map Prod.fst) :
    labelled? label (object ((label, string name) :: members)) = some (name, object members) := by
  have once : membersNamed label ((label, string name) :: members) = [string name] := by
    have none := membersNamed_of_notMem other
    simp only [membersNamed] at none ⊢
    simp [none]
  have kept : ((label, string name) :: members).filter (fun entry => entry.1 != label) = members := by
    rw [List.filter_cons_of_neg (by simp), List.filter_eq_self]
    intro entry member
    have different : entry.1 ≠ label :=
      fun same => other (List.mem_map.mpr ⟨entry, member, same⟩)
    simpa using different
  simp only [labelled?, once, kept]

theorem writable_labelled {members : List (String × Json)} (label name : String)
    (writable : Writable (object members)) :
    Writable (object ((label, string name) :: members)) := by
  cases writable with
  | object parts => exact .object (List.forall_mem_cons.mpr ⟨.string name, parts⟩)

end Json

end TableDdl
