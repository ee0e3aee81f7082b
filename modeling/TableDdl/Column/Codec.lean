import TableDdl.Column.Basic
import TableDdl.Literal.Codec

/-!
# Columns in JSON

A column is an object with all of its fields; what it does not have is `null`.
-/

namespace TableDdl

namespace ColumnPosition

/-- The JSON form of a position. -/
def toJson : ColumnPosition → Json
  | first => .string "first"
  | after column => .object [("after", .string column)]

/-- The position that a JSON value describes. -/
def ofJson? : Json → Option ColumnPosition
  | .object [("after", .string column)] => some (after column)
  | value => if value.name? = some "first" then some first else none

end ColumnPosition

namespace Column

/-- The names of the fields of a column, in order. -/
def fieldNames : List String :=
  ["name", "type_name", "display_width", "decimal_digits", "is_unsigned", "is_nullable",
    "is_zerofill", "is_auto_increment", "default_value", "on_update", "enum_variants", "comment",
    "position"]

/-- The JSON form of a number. -/
def numberToJson (value : UInt32) : Json := .integer value.toNat

/-- The JSON form of a column. -/
def toJson (column : Column) : Json :=
  .object [
    ("name", .string column.name),
    ("type_name", .string column.typeName),
    ("display_width", .ofOption numberToJson column.width),
    ("decimal_digits", .ofOption numberToJson column.decimals),
    ("is_unsigned", .bool column.isUnsigned),
    ("is_nullable", .bool column.isNullable),
    ("is_zerofill", .bool column.isZerofill),
    ("is_auto_increment", .bool column.isAutoIncrement),
    ("default_value", .ofOption Literal.toJson column.defaultValue),
    ("on_update", .ofOption Literal.toJson column.onUpdate),
    ("enum_variants", .ofOption (.ofList Literal.toJson) column.variants),
    ("comment", .ofOption .string column.comment),
    ("position", .ofOption ColumnPosition.toJson column.position)]

/-- The column that a JSON value describes. -/
def ofJson? (value : Json) : Option Column :=
  match value.fields? fieldNames with
  | some [name, typeName, width, decimals, isUnsigned, isNullable, isZerofill, isAutoIncrement,
      defaultValue, onUpdate, variants, comment, position] => do
      return {
        name := ← Json.required Json.string? name
        typeName := ← Json.required Json.string? typeName
        width := ← Json.optional Json.uint32? width
        decimals := ← Json.optional Json.uint32? decimals
        isUnsigned := ← Json.required Json.bool? isUnsigned
        isNullable := ← Json.required Json.bool? isNullable
        isZerofill := ← Json.required Json.bool? isZerofill
        isAutoIncrement := ← Json.required Json.bool? isAutoIncrement
        defaultValue := ← Json.optional Literal.ofJson? defaultValue
        onUpdate := ← Json.optional Literal.ofJson? onUpdate
        variants := ← Json.optional (Json.list? Literal.ofJson?) variants
        comment := ← Json.optional Json.string? comment
        position := ← Json.optional ColumnPosition.ofJson? position }
  | _ => none

end Column

end TableDdl
