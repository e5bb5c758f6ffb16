import Mathlib.Data.List.Basic

/-! The columns of a result: the Arrow types the server tells apart, their values, and
batches of rows under a schema. -/
namespace PgCatalog.Server

inductive TimeUnit where
  | second | millisecond | microsecond | nanosecond
  deriving DecidableEq, Repr

/-- Of the types the server has no encoding for only the name counts. -/
inductive DataType where
  | boolean | int16 | int32 | int64 | float32 | float64
  | utf8 | utf8View | largeUtf8
  | timestamp (unit : TimeUnit) (zone : Option String)
  | list (item : DataType)
  | other (name : String)
  deriving DecidableEq, Repr

/-- A present value of a type. A timestamp counts units from the Unix epoch. -/
@[reducible] def DataType.Native : DataType → Type
  | .boolean => Bool
  | .int16 => Int16
  | .int32 => Int32
  | .int64 => Int64
  | .float32 => Float32
  | .float64 => Float
  | .utf8 | .utf8View | .largeUtf8 => String
  | .timestamp _ _ => Int64
  | .list item => List (Option item.Native)
  | .other _ => String

structure Field where
  name : String
  dataType : DataType
  deriving DecidableEq, Repr

abbrev Schema := List Field

structure ArrayRef where
  dataType : DataType
  values : List (Option dataType.Native)

/-- Equally long arrays, one for each field, of the field's type. -/
structure RecordBatch where
  schema : Schema
  columns : List ArrayRef
  numRows : Nat
  typed : columns.map (·.dataType) = schema.map (·.dataType)
  sized : ∀ array ∈ columns, array.values.length = numRows

/-- What running a statement gives. -/
abbrev QueryResult := List RecordBatch × Schema

end PgCatalog.Server
