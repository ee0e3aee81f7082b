import TableDdl.Partition.Basic
import TableDdl.TableOption.Codec

/-!
# Partitions in JSON

A partitioning is an object with the fields of its clause, among which the inner partitioning is an
object of the same form.
-/

namespace TableDdl

namespace PartitionKind

/-- The kind that a JSON value names. -/
def ofJson? (value : Json) : Option PartitionKind :=
  value.name?.bind fun name => all.find? fun kind => kind.keyword == name

end PartitionKind

namespace BoundKind

/-- The name of a kind of bound in JSON. -/
def jsonName : BoundKind → String
  | lessThan => "LESS_THAN"
  | within => "IN"

/-- The kind of bound that a JSON value names. -/
def ofJson? (value : Json) : Option BoundKind :=
  value.name?.bind fun name => [lessThan, within].find? fun kind => kind.jsonName == name

end BoundKind

namespace PartitionDefinition

/-- The JSON form of the definition of a partition. -/
def toJson (definition : PartitionDefinition) : Json :=
  .object [
    ("name", .string definition.name),
    ("values_kind", .ofOption (fun kind => .string kind.jsonName) definition.boundKind),
    ("values", .ofList Literal.toJson definition.values),
    ("options", .ofList TableOption.toJson definition.options)]

/-- The definition of a partition that a JSON value describes. -/
def ofJson? (value : Json) : Option PartitionDefinition :=
  match value.fields? ["name", "values_kind", "values", "options"] with
  | some [name, boundKind, values, options] => do
      return {
        name := ← Json.required Json.string? name
        boundKind := ← Json.optional BoundKind.ofJson? boundKind
        values := ← Json.required (Json.list? Literal.ofJson?) values
        options := ← Json.required (Json.list? TableOption.ofJson?) options }
  | _ => none

end PartitionDefinition

namespace PartitionClause

/-- The names of the fields of a partitioning, in order. -/
def fieldNames : List String :=
  ["kind", "is_linear", "is_columns", "expression", "columns", "partitions_count", "key_algorithm",
    "subpartition_by", "definitions"]

/-- The JSON form of a clause with the given inner partitioning. -/
def toJson (clause : PartitionClause) (inner : Json) : Json :=
  .object [
    ("kind", .string clause.kind.keyword),
    ("is_linear", .bool clause.isLinear),
    ("is_columns", .bool clause.isColumns),
    ("expression", .ofOption .string clause.expression),
    ("columns", .ofStrings clause.columns),
    ("partitions_count", .ofOption (fun count => .integer count.toNat) clause.count),
    ("key_algorithm", .ofOption (fun algorithm => .integer algorithm.toNat) clause.algorithm),
    ("subpartition_by", inner),
    ("definitions", .ofList PartitionDefinition.toJson clause.definitions)]

/-- The clause that a JSON value describes, and the JSON value of its inner partitioning. -/
def ofJson? (value : Json) : Option (PartitionClause × Option Json) :=
  match value.fields? fieldNames with
  | some [kind, isLinear, isColumns, expression, columns, count, algorithm, inner, definitions] => do
      let clause : PartitionClause := {
        kind := ← Json.required PartitionKind.ofJson? kind
        isLinear := ← Json.required Json.bool? isLinear
        isColumns := ← Json.required Json.bool? isColumns
        expression := ← Json.optional Json.string? expression
        columns := ← Json.required Json.strings? columns
        count := ← Json.optional Json.uint32? count
        algorithm := ← Json.optional Json.uint8? algorithm
        definitions := ← Json.required (Json.list? PartitionDefinition.ofJson?) definitions }
      return (clause, inner)
  | _ => none

theorem sizeOf_inner_lt {value inner : Json} {clause : PartitionClause}
    (decoded : ofJson? value = some (clause, some inner)) : sizeOf inner < sizeOf value := by
  unfold ofJson? at decoded
  split at decoded
  · rename_i fields
    refine Json.sizeOf_field_lt fields ?_
    simp only [Option.bind_eq_bind, Option.bind_eq_some_iff, Option.pure_def, Option.some.injEq,
      Prod.mk.injEq] at decoded
    obtain ⟨_, _, _, _, _, _, _, _, _, _, _, _, _, _, _, _, _, rfl⟩ := decoded
    simp
  · cases decoded

end PartitionClause

namespace Partitioning

/-- The JSON form of a partitioning. -/
def toJson : Partitioning → Json
  | single clause => clause.toJson .null
  | nested clause inner => clause.toJson inner.toJson

/-- The partitioning that a JSON value describes. -/
def ofJson? (value : Json) : Option Partitioning :=
  match decoded : PartitionClause.ofJson? value with
  | none => none
  | some (clause, none) => some (single clause)
  | some (clause, some .null) => some (single clause)
  | some (clause, some inner) =>
      have := PartitionClause.sizeOf_inner_lt decoded
      (ofJson? inner).map (nested clause)
termination_by sizeOf value

end Partitioning

end TableDdl
