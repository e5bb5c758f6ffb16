import PgCatalog.Catalog.Tables
import PgCatalog.Library.Text
import Mathlib.Data.Rat.Init
import Mathlib.Algebra.Order.Ring.Unbundled.Rat

/-! The columnar tables the catalog rows become: arrays of one type each, batches of
equally long arrays, and the conversion of a row's JSON values into cells. -/
namespace PgCatalog

open Library

inductive DataType where
  | utf8 | largeUtf8 | utf8View | int32 | int64 | float32 | float64 | boolean | binary
  | list (item : DataType)
  | other (name : String)
  deriving DecidableEq, Repr

/-- A present value of a type; of a float the number before its mantissa is cut. -/
def DataType.Native : DataType → Type
  | .utf8 | .largeUtf8 | .utf8View => String
  | .int32 => Int32
  | .int64 => Int64
  | .float32 | .float64 => Rat
  | .boolean => Bool
  | .binary => List UInt8
  | .list item => List (Option item.Native)
  | .other _ => String

/-- The Arrow type a PostgreSQL type name is stored under. -/
def mapPgType (pgType : String) : DataType :=
  let lower := pgType.toLower
  if lower ∈ ["int2vector", "_int2", "_int4"] then .list .int32
  else if lower ∈ ["oidvector", "_int8", "_oid"] then .list .int64
  else if lower.endsWith "[]" ∨ lower.startsWith "_" then .list .utf8
  else if lower = "uuid" then .utf8
  else if lower ∈ ["int", "integer", "int4"] then .int32
  else if lower ∈ ["bigint", "int8"] then .int64
  else if lower ∈ ["real", "float4"] then .float32
  else if lower ∈ ["float", "double", "double precision", "float8"] then .float64
  else if lower ∈ ["bool", "boolean"] then .boolean
  else if lower = "bytea" then .binary
  else .utf8

structure Cell where
  dataType : DataType
  value : Option dataType.Native

structure ArrayRef where
  dataType : DataType
  values : List (Option dataType.Native)

def ArrayRef.cell (array : ArrayRef) (i : Nat) : Cell := ⟨array.dataType, array.values.getD i none⟩

structure Field where
  name : String
  dataType : DataType
  nullable : Bool
  deriving DecidableEq

/-- The first field of a name. -/
def indexOf (schema : List Field) (name : String) : DFResult Nat :=
  match schema.findIdx? (·.name = name) with
  | some i => .ok i
  | none => .error (.arrowError s!"Unable to get field named \"{name}\".")

/-- Equally long arrays, one for each field, of the field's type. -/
structure RecordBatch where
  schema : List Field
  columns : List ArrayRef
  numRows : Nat
  typed : columns.map (·.dataType) = schema.map (·.dataType)
  sized : ∀ array ∈ columns, array.values.length = numRows

namespace RecordBatch

/-- The rows as the cells across them. -/
def rows (batch : RecordBatch) : List (List Cell) :=
  (List.range batch.numRows).map fun i => batch.columns.map (·.cell i)

def tryNew (schema : List Field) (columns : List ArrayRef) : DFResult RecordBatch :=
  match columns with
  | [] => .error (.arrowError "must either specify a row count or at least one column")
  | first :: _ =>
    if typed : columns.map (·.dataType) = schema.map (·.dataType) then
      if sized : ∀ array ∈ columns, array.values.length = first.values.length then
        if (schema.zip columns).all fun (field, array) =>
            field.nullable || array.values.all (·.isSome) then
          .ok ⟨schema, columns, first.values.length, typed, sized⟩
        else .error (.arrowError "a non-nullable column contains null values")
      else .error (.arrowError "all columns in a record batch must have the same length")
    else .error (.arrowError "column types must match schema types")

end RecordBatch

namespace Value

/-- The value as JSON text. -/
def text : Value → String
  | .null => "null"
  | .bool b => toString b
  | .number n => toString n
  | .float text => text
  | .string s => jsonString s
  | .strings items => jsonArray (items.map jsonString)
  | .numbers items => jsonArray (items.map toString)

def asStr : Value → Option String
  | .string s => some s
  | _ => none

def asBool : Value → Option Bool
  | .bool b => some b
  | _ => none

end Value

def i64TryFrom (n : Int) : Option Int64 :=
  if Int64.minValue.toInt ≤ n ∧ n ≤ Int64.maxValue.toInt then some (Int64.ofInt n) else none

/-- `i32::try_from` of a wider integer. -/
def i32TryFromInt (n : Int) : Option Int32 :=
  if Int32.minValue.toInt ≤ n ∧ n ≤ Int32.maxValue.toInt then some (Int32.ofInt n) else none

def Value.asI64 : Value → Option Int64
  | .number n => i64TryFrom n
  | _ => none

def jsonValueAsI32 (value : Value) : Option Int32 := value.asI64.bind (i32TryFromInt ·.toInt)

def digitsValue (digits : List Char) : Nat := digits.foldl (fun n c => 10 * n + (c.toNat - 48)) 0

/-- The number that decimal digits with a point spell; no builder writes a sign or an exponent. -/
def decimalValue (text : String) : Rat :=
  let fraction := (text.toList.dropWhile (· ≠ '.')).drop 1
  digitsValue (text.toList.takeWhile (· ≠ '.')) + digitsValue fraction / 10 ^ fraction.length

def Value.asF64 : Value → Option Rat
  | .number n => some n
  | .float text => some (decimalValue text)
  | _ => none

/-- Refuses what narrowing would turn into infinity or, unless it is zero, into zero. -/
def jsonValueAsF32 (value : Value) : DFResult (Option Rat) :=
  match value.asF64 with
  | none => .ok none
  | some number =>
    let shown := value.text
    if 2 ^ 128 - 2 ^ 103 ≤ |number| then
      .error (.execution (s!"catalog value {shown} is too large for a float4 column "
        ++ "(max magnitude 340282350000000000000000000000000000000)"))
    else if number ≠ 0 ∧ |number| ≤ 1 / 2 ^ 150 then
      .error (.execution s!"catalog value {shown} is too small for a float4 column: it narrows to 0")
    else .ok (some number)

def splitWhitespace (text : String) : List String :=
  ((text.toList.splitBy fun a b => isWhiteSpace a = isWhiteSpace b).filter fun part =>
    part.all (!isWhiteSpace ·)).map String.ofList

/-- `str::parse` of an integer: one sign at most, then decimal digits. -/
def parseInt (text : String) : Option Int :=
  let digits (cs : List Char) : Option Int :=
    if cs ≠ [] ∧ cs.all (·.isDigit) then some (digitsValue cs) else none
  match text.toList with
  | '+' :: rest => digits rest
  | '-' :: rest => (digits rest).map (- ·)
  | cs => digits cs

/-- A text array's cell: a bare value is a list of one, its JSON text. -/
def utf8List : Value → Option (List (Option String))
  | .strings items => some (items.map some)
  | .numbers items => some (items.map fun _ => none)
  | .null => none
  | value => some [some value.text]

/-- An integer array's cell: a text is read as a vector of numbers. -/
def intList {α : Type} (ofNumber : Int → Option α) : Value → Option (List (Option α))
  | .strings items => some (items.map fun _ => none)
  | .numbers items => some (items.map ofNumber)
  | .string text => some ((splitWhitespace text).map fun part => (parseInt part).bind ofNumber)
  | _ => none

def jsonValuesToArray (dataType : DataType) (values : List Value) : DFResult ArrayRef :=
  match dataType with
  | .utf8 => .ok ⟨.utf8, values.map (·.asStr)⟩
  | .int32 => .ok ⟨.int32, values.map jsonValueAsI32⟩
  | .int64 => .ok ⟨.int64, values.map (·.asI64)⟩
  | .float32 => do
    let narrowed ← values.mapM jsonValueAsF32
    return ⟨.float32, narrowed⟩
  | .float64 => .ok ⟨.float64, values.map (·.asF64)⟩
  | .boolean => .ok ⟨.boolean, values.map (·.asBool)⟩
  | .binary => .ok ⟨.binary, values.map fun v => v.asStr.map (·.toUTF8.toList)⟩
  | .list .utf8 => .ok ⟨.list .utf8, values.map utf8List⟩
  | .list .int64 => .ok ⟨.list .int64, values.map (intList i64TryFrom)⟩
  | .list .int32 => .ok ⟨.list .int32, values.map (intList i32TryFromInt)⟩
  | _ => .ok ⟨.utf8, values.map fun v => some v.text⟩

/-- The value of a column, null where the row leaves it out. -/
def Row.value (row : Row) (column : String) : Value := (row.get column).getD .null

def rowsToRecordBatch (schema : List Field) (rows : List Row) : DFResult RecordBatch := do
  let arrays ← schema.mapM fun field =>
    jsonValuesToArray field.dataType (rows.map (·.value field.name))
  RecordBatch.tryNew schema arrays

end PgCatalog
