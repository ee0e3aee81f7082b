import TableDdl.Json.Basic

/-!
# Records and enumerations in JSON

A record is written as an object with one member for each field; reading also takes a list with the
fields in their order. Members that are no fields are ignored, and a field that occurs twice is
refused. A field without a member is `none`, which only an optional field accepts.

A name of an enumeration is a string, or an object whose one member has that name and the value
`null`.
-/

namespace TableDdl

namespace Json

/-- The values of the members with the given name. -/
def membersNamed (name : String) (members : List (String × Json)) : List Json :=
  (members.filter fun entry => entry.1 == name).map Prod.snd

/-- The value of the one member with the given name; a repeated member is refused. -/
def member? (members : List (String × Json)) (name : String) : Option (Option Json) :=
  match membersNamed name members with
  | [] => some none
  | [value] => some (some value)
  | _ => none

/-- The values of the fields of a record. -/
def fields? (names : List String) : Json → Option (List (Option Json))
  | object members => names.mapM (member? members)
  | array items => if items.length = names.length then some (items.map some) else none
  | _ => none

theorem mem_of_membersNamed {name : String} {members : List (String × Json)} {value : Json}
    (isMember : value ∈ membersNamed name members) : ∃ entry ∈ members, entry.2 = value := by
  simp only [membersNamed, List.mem_map, List.mem_filter] at isMember
  obtain ⟨entry, ⟨found, _⟩, same⟩ := isMember
  exact ⟨entry, found, same⟩

theorem sizeOf_member_lt {members : List (String × Json)} {name : String} {value : Json}
    (found : member? members name = some (some value)) : sizeOf value < sizeOf (object members) := by
  have isMember : value ∈ membersNamed name members := by
    unfold member? at found
    split at found <;> simp_all
  obtain ⟨⟨entryName, entryValue⟩, isEntry, rfl⟩ := mem_of_membersNamed isMember
  have bound := List.sizeOf_lt_of_mem isEntry
  simp only [Prod.mk.sizeOf_spec, object.sizeOf_spec] at bound ⊢
  omega

/-- The value of a field is smaller than the record. -/
theorem sizeOf_field_lt {names : List String} {record value : Json} {values : List (Option Json)}
    (decoded : fields? names record = some values) (isField : some value ∈ values) :
    sizeOf value < sizeOf record := by
  cases record with
  | object members =>
      simp only [fields?] at decoded
      induction names generalizing values with
      | nil => simp_all
      | cons name names induction =>
          simp only [List.mapM_cons, Option.bind_eq_bind, Option.bind_eq_some_iff,
            Option.pure_def, Option.some.injEq] at decoded
          obtain ⟨first, firstFound, others, othersFound, rfl⟩ := decoded
          rcases List.mem_cons.mp isField with rfl | isOther
          · exact sizeOf_member_lt firstFound
          · exact induction isOther othersFound
  | array items =>
      simp only [fields?] at decoded
      split at decoded
      · obtain rfl := Option.some.inj decoded
        have bound := List.sizeOf_lt_of_mem (by simpa using isField : value ∈ items)
        simp only [array.sizeOf_spec]
        omega
      · cases decoded
  | _ => cases decoded

/-- A field that must be there. -/
def required {α : Type} (decode : Json → Option α) : Option Json → Option α
  | some value => decode value
  | none => none

/-- A field that may be missing or `null`. -/
def optional {α : Type} (decode : Json → Option α) : Option Json → Option (Option α)
  | none | some null => some none
  | some value => (decode value).map some

/-- The truth value. -/
def bool? : Json → Option Bool
  | bool value => some value
  | _ => none

/-- The string. -/
def string? : Json → Option String
  | string value => some value
  | _ => none

/-- The integer, if it fits in 64 bits with a sign. -/
def int64? : Json → Option Int64
  | integer value =>
      if -9223372036854775808 ≤ value ∧ value < 9223372036854775808 then some (Int64.ofInt value)
      else none
  | _ => none

/-- The integer, if it fits in 32 bits without a sign. -/
def uint32? : Json → Option UInt32
  | integer value => if 0 ≤ value ∧ value < 4294967296 then some (UInt32.ofNat value.toNat) else none
  | _ => none

/-- The integer, if it fits in eight bits without a sign. -/
def uint8? : Json → Option UInt8
  | integer value => if 0 ≤ value ∧ value < 256 then some (UInt8.ofNat value.toNat) else none
  | _ => none

/-- The double; an integer stands for the nearest one. -/
def double? : Json → Option Double
  | double value => some value
  | integer value => Double.nearest? (value < 0) value.natAbs 1
  | _ => none

/-- The list with every item decoded. -/
def list? {α : Type} (decode : Json → Option α) : Json → Option (List α)
  | array items => items.mapM decode
  | _ => none

/-- The list of strings. -/
def strings? : Json → Option (List String) := list? string?

/-- The name of an enumeration. -/
def name? : Json → Option String
  | string name => some name
  | object [(name, null)] => some name
  | _ => none

/-- The tag and the value of a tagged value. -/
def tagged? (value : Json) : Option (String × Json) :=
  match fields? ["kind", "value"] value with
  | some [some kind, some content] => (name? kind).map (·, content)
  | _ => none

/-- The label of a record that stands among its fields, and the record without it: the member of the
given name, or the first item of a list. -/
def labelled? (label : String) : Json → Option (String × Json)
  | object members =>
      match membersNamed label members with
      | [string name] => some (name, object (members.filter fun entry => entry.1 != label))
      | _ => none
  | array (string name :: items) => some (name, array items)
  | _ => none

end Json

end TableDdl
