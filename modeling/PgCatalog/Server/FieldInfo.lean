import PgCatalog.Server.Columns

/-! The row description: the type and the format a column is announced with. -/
namespace PgCatalog.Server

inductive PgType where
  | bool | int2 | int4 | int8 | float4 | float8 | text | timestamp | unknown
  | textArray | int2Array | int4Array | int8Array | boolArray | float4Array | float8Array
  | other (oid : Nat)
  deriving DecidableEq, Repr

inductive FieldFormat where
  | text | binary
  deriving DecidableEq, Repr

/-- The format of each column position. -/
abbrev Format := Nat → FieldFormat

def Format.unifiedText : Format := fun _ => .text

def Format.unifiedBinary : Format := fun _ => .binary

structure FieldInfo where
  name : String
  datatype : PgType
  format : FieldFormat
  deriving DecidableEq, Repr

/-- Types without a mapping are sent as text, lists of them as text arrays. -/
def arrowToPgType : DataType → PgType
  | .boolean => .bool
  | .int16 => .int2
  | .int32 => .int4
  | .int64 => .int8
  | .utf8 | .utf8View | .largeUtf8 => .text
  | .timestamp _ _ => .timestamp
  | .float32 => .float4
  | .float64 => .float8
  | .list inner => match inner with
    | .utf8 | .utf8View | .largeUtf8 => .textArray
    | .int16 => .int2Array
    | .int32 => .int4Array
    | .int64 => .int8Array
    | .boolean => .boolArray
    | .float32 => .float4Array
    | .float64 => .float8Array
    | _ => .textArray
  | _ => .text

def schemaToFieldInfo (schema : Schema) (format : Format) : List FieldInfo :=
  schema.mapIdx fun idx f => ⟨f.name, arrowToPgType f.dataType, format idx⟩

/-- The description is that of the batch's schema. -/
def batchToFieldInfo (batch : RecordBatch) (format : Format) : List FieldInfo :=
  schemaToFieldInfo batch.schema format

end PgCatalog.Server
