import TableDdl.Alter.Grammar
import TableDdl.Proofs.Grammar.Definitions
import TableDdl.Proofs.Grammar.Yields
import TableDdl.Proofs.Lexer.Numbers

/-!
# The shape of columns

Which parameters a column has depends on the family of its data type: only numbers have no sign, only
numbers with decimals have a number of them, and only enumerations have members. The parameters are
read once, between the name of the type and the attributes. No attribute changes them afterwards,
whatever stands among the attributes and in whatever order.
-/

namespace TableDdl

/-! ## Words in upper case -/

namespace Text

theorem toUpper_toUpper (character : Char) : character.toUpper.toUpper = character.toUpper := by
  by_cases small : character ∈ interval 97 122
  · have capitals : ∀ character ∈ interval 97 122,
        character.toUpper.toUpper = character.toUpper := forall_mem_of_all (by decide)
    exact capitals character small
  · have unchanged : character.toUpper = character :=
      dif_neg fun bounds => small (mem_interval bounds.1 bounds.2)
    rw [unchanged, unchanged]

theorem upper_upper (text : String) : upper (upper text) = upper text := by
  apply String.toList_injective
  simp [Function.comp_def, toUpper_toUpper]

end Text

open Grammar

variable {sort : Token → Prop}

namespace Column

/-- The family of the data type. -/
def family (column : Column) : TypeFamily := TypeFamily.ofName column.typeName

/-- The column has only parameters that its data type has. -/
structure Shaped (column : Column) : Prop where
  /-- The name of the data type is in upper case. -/
  typeName : Text.upper column.typeName = column.typeName
  /-- What is filled up with zeros has no sign. -/
  zerofill : column.isZerofill = true → column.isUnsigned = true
  /-- Only numbers have flags. -/
  flags : column.isUnsigned = true ∨ column.isZerofill = true →
    column.family = .integer ∨ column.family = .fixedPoint
  /-- Decimals follow a width, in a data type that has them. -/
  decimals : column.decimals.isSome = true →
    column.width.isSome = true ∧ column.family = .fixedPoint
  /-- The data type has a width. -/
  width : column.width.isSome = true →
    column.family ∈ [TypeFamily.integer, .fixedPoint, .temporal, .sizedString]
  /-- Exactly the enumerations have members. -/
  variants : column.variants.isSome = true ↔ column.typeName = "ENUM" ∨ column.typeName = "SET"
  /-- There is at least one member. -/
  members : column.variants ≠ some []

/-- No attribute and no position changes what belongs to the data type. -/
theorem Shaped.withAttributes {column : Column} (shaped : column.Shaped)
    (isNullable isAutoIncrement : Bool) (defaultValue onUpdate : Option Literal)
    (comment : Option String) (position : Option ColumnPosition) :
    Shaped { column with isNullable, isAutoIncrement, defaultValue, onUpdate, comment, position } :=
  ⟨shaped.typeName, shaped.zerofill, shaped.flags, shaped.decimals, shaped.width, shaped.variants,
    shaped.members⟩

/-- The column is one that may follow the name: it has its shape, and does not say where it goes. -/
structure Follows (name : String) (column : Column) : Prop extends Shaped column where
  /-- The name of the column. -/
  name : column.name = name
  /-- Nothing is said about the place. -/
  unplaced : column.position = none

/-! ## Parameters of the data type -/

theorem family_eq_enumerated_iff {typeName : String} (upper : Text.upper typeName = typeName) :
    TypeFamily.ofName typeName = .enumerated ↔ typeName = "ENUM" ∨ typeName = "SET" := by
  constructor
  · intro enumerated
    by_cases member : typeName ∈ TypeFamily.enumeratedTypes
    · simpa [TypeFamily.enumeratedTypes] using member
    · simp only [TypeFamily.ofName, upper, member, if_false] at enumerated
      repeat' split at enumerated
      all_goals cases enumerated
  · rintro (rfl | rfl) <;> decide

/-- Parameters that the family has give a column its shape. -/
theorem follows_of_parameters {name typeName : String} {width decimals : Option UInt32}
    {variants : Option (List Literal)} (upper : Text.upper typeName = typeName)
    (digits : decimals.isSome = true →
      width.isSome = true ∧ TypeFamily.ofName typeName = .fixedPoint)
    (sized : width.isSome = true →
      TypeFamily.ofName typeName ∈ [TypeFamily.integer, .fixedPoint, .temporal, .sizedString])
    (enumerated : variants.isSome = true ↔ TypeFamily.ofName typeName = .enumerated)
    (members : variants ≠ some []) :
    Follows name { name, typeName, width, decimals, variants } :=
  ⟨⟨upper, nofun, by simp, digits, sized, enumerated.trans (family_eq_enumerated_iff upper),
    members⟩, rfl, rfl⟩

/-- A flag keeps the shape of a number. -/
theorem Follows.withFlag {name : String} {column : Column} (follows : Follows name column)
    (number : column.family = .integer ∨ column.family = .fixedPoint) (flag : NumericFlag) :
    Follows name (column.withFlag flag) := by
  cases flag with
  | signed => exact follows
  | unsigned | zerofill =>
      exact ⟨⟨follows.typeName, fun _ => rfl, fun _ => number, follows.decimals, follows.width,
        follows.variants, follows.members⟩, follows.name, follows.unplaced⟩

theorem yields_withFlags {name : String} {column : Column} (follows : Follows name column)
    (number : column.family = .integer ∨ column.family = .fixedPoint) :
    Yields sort (Follows name) column.withFlags := by
  refine yields_after fun flags => yields_pure ?_
  induction flags generalizing column with
  | nil => exact follows
  | cons flag others ih =>
      have same : (column.withFlag flag).family = column.family := by cases flag <;> rfl
      exact ih (follows.withFlag number flag) (by rwa [same])

theorem yields_withPrecision {name typeName : String} (upper : Text.upper typeName = typeName)
    (family : TypeFamily.ofName typeName = .fixedPoint) :
    Yields sort (fun column : Column => Follows name column ∧ column.family = .fixedPoint)
      (withPrecision { name, typeName }) := by
  have plain : Follows name { name, typeName } :=
    follows_of_parameters upper nofun nofun (by simp [family]) nofun
  have precise (width : UInt32) (decimals : Option UInt32) :
      Follows name { name, typeName, width := some width, decimals } :=
    follows_of_parameters upper (by simp [family]) (by simp [family]) (by simp [family]) nofun
  refine yields_after fun opened => yields_ite ?_ (yields_pure ⟨plain, family⟩)
  refine yields_after fun width => yields_after fun more => yields_ite ?_ ?_
  · exact yields_after fun decimals => yields_after fun _ =>
      yields_pure ⟨precise width decimals, family⟩
  · exact yields_after fun decimals => yields_after fun _ =>
      yields_pure ⟨precise width decimals, family⟩

/-- The parameters are those of the family. -/
theorem yields_withParameters {name typeName : String} (upper : Text.upper typeName = typeName) :
    Yields sort (Follows name) (withParameters { name, typeName }) := by
  unfold withParameters
  dsimp only
  cases family : TypeFamily.ofName typeName with
  | integer =>
      refine yields_after fun width => yields_withFlags ?_ (.inl family)
      exact follows_of_parameters upper nofun (by simp [family]) (by simp [family]) nofun
  | fixedPoint =>
      refine yields_bind (yields_withPrecision upper family) fun column found => ?_
      exact yields_withFlags found.1 (.inr found.2)
  | temporal | sizedString =>
      refine yields_after fun width => yields_pure ?_
      exact follows_of_parameters upper nofun (by simp [family]) (by simp [family]) nofun
  | enumerated =>
      refine yields_bind yields_parenthesized_ne_nil fun members nonempty => yields_pure ?_
      exact follows_of_parameters upper nofun nofun (by simp [family]) (by simpa using nonempty)
  | plain | other =>
      exact yields_pure (follows_of_parameters upper nofun nofun (by simp [family]) nofun)

/-! ## Attributes -/

theorem yields_withAttributes {name : String} {column : Column} (follows : Follows name column) :
    Yields sort (Follows name) column.withAttributes := by
  have attributes {draft : Draft} (follows : Follows name draft.column) :
      Yields sort (fun found => Follows name found.2.column) (readAttribute draft) := by
    have changed (isNullable isAutoIncrement : Bool) (defaultValue onUpdate : Option Literal)
        (comment : Option String) : Follows name { draft.column with
          isNullable, isAutoIncrement, defaultValue, onUpdate, comment } :=
      ⟨follows.toShaped.withAttributes _ _ _ _ _ _, follows.name, follows.unplaced⟩
    rintro scope start ⟨taken, found⟩ final - reading
    cases readsAttribute_of_finds reading with
    | reference | other => exact follows
    | notNull | null | default | onUpdate | comment | autoIncrement => exact changed _ _ _ _ _
  have scanned : Yields sort (fun draft : Draft => Follows name draft.column)
      (scan [","] (⟨column, false⟩ : Draft) fun depth draft =>
        if depth = 0 then readAttribute draft else return (false, draft)) :=
    yields_scan follows fun depth draft follows =>
      yields_ite (attributes follows) (yields_pure follows)
  exact yields_bind scanned fun draft follows => yields_pure follows

/-- What follows a name is a column of the name that has its shape. -/
theorem yields_afterName (name : String) : Yields sort (Follows name) (afterName name) := by
  have keyword : Yields sort (fun word => ∀ typeName ∈ word, Text.upper typeName = typeName)
      keyword? := by
    intro scope start word final _ found
    obtain ⟨rfl, -⟩ := finds_look_iff.mp found
    unfold Token.keyword?
    split
    · rintro _ ⟨⟩
      exact Text.upper_upper _
    · exact nofun
  refine yields_bind keyword fun word upper => ?_
  cases word with
  | none => exact yields_refuse _
  | some typeName =>
      refine yields_after fun _ => yields_bind (yields_withParameters (upper _ rfl)) ?_
      exact fun column follows => yields_after fun _ => yields_withAttributes follows

end Column

/-- A column of a clause has its shape, and is the one that follows its name. -/
theorem AlterOption.yields_positionedColumn {named : String → Prop}
    (isNamed : Yields sort named Grammar.name) :
    Yields sort (fun column => column.Shaped ∧ named column.name) positionedColumn := by
  refine yields_bind isNamed fun name here => ?_
  refine yields_bind (yields_withStops (Column.yields_afterName name)) fun column follows => ?_
  have placed (position : Option ColumnPosition) :
      Column.Shaped { column with position } ∧ named column.name :=
    ⟨follows.toShaped.withAttributes _ _ _ _ _ _, by rwa [follows.name]⟩
  refine yields_after fun isFirst => yields_ite (yields_pure (placed _)) ?_
  refine yields_after fun isAfter => yields_ite ?_ (yields_pure (placed _))
  exact yields_after fun other => yields_pure (placed _)

end TableDdl
