import PgCatalog.Library.Calendar
import PgCatalog.Server.FieldInfo

/-! The values of a row as they are handed to the row encoder, and how timestamps print. -/
namespace PgCatalog.Server

open Library

/-- Whole units of a second and what is left over, never negative. -/
def splitEpochCountIntoSecondsAndSubsecondUnits (count : Int) (unitsPerSecond : Nat) : Int × Nat :=
  (count / unitsPerSecond, (count % unitsPerSecond).toNat)

structure DateTime where
  date : Date
  secondOfDay : Nat
  nanos : Nat
  deriving DecidableEq, Repr

/-- The instants of the years that `chrono` has dates for. -/
def DateTime.fromTimestamp (secs : Int) (nanos : Nat) : Option DateTime :=
  let date := Date.ofDay (secs / 86400)
  if -262143 ≤ date.year ∧ date.year ≤ 262142 then some ⟨date, (secs % 86400).toNat, nanos⟩
  else none

/-- `%Y`: four digits, or a sign and at least four. -/
def yearText (year : Int) : List Char :=
  if 0 ≤ year ∧ year ≤ 9999 then fixedDigits 4 year.toNat
  else
    let digits := Nat.toDigits 10 year.natAbs
    (if year < 0 then '-' else '+') :: (List.replicate (4 - digits.length) '0' ++ digits)

/-- `-%m-%d %H:%M:%S`. -/
def DateTime.afterYear (t : DateTime) : List Char :=
  '-' :: fixedDigits 2 t.date.month ++ '-' :: fixedDigits 2 t.date.day ++
    ' ' :: fixedDigits 2 (t.secondOfDay / 3600) ++
    ':' :: fixedDigits 2 (t.secondOfDay / 60 % 60) ++ ':' :: fixedDigits 2 (t.secondOfDay % 60)

/-- The digits of the second after a point, if there are any. -/
def DateTime.fraction (t : DateTime) (digits : Nat) : List Char :=
  if digits = 0 then [] else '.' :: fixedDigits digits (t.nanos / 10 ^ (9 - digits))

def DateTime.format (t : DateTime) (digits : Nat) : String :=
  String.ofList (yearText t.date.year ++ t.afterYear ++ t.fraction digits)

/-- A count of units, with as many digits after the second as the unit has. -/
def formatCount (count : Int) (unitsPerSecond nanosPerUnit digits : Nat) : Option String :=
  let (secs, subsecond) := splitEpochCountIntoSecondsAndSubsecondUnits count unitsPerSecond
  (DateTime.fromTimestamp secs (subsecond * nanosPerUnit)).map (·.format digits)

/-- What `chrono` has no date for prints as null does. -/
def formatTimestampValueAt (unit : TimeUnit) (value : Option Int64) : Option String :=
  value.bind fun v =>
    match unit with
    | .microsecond => formatCount v.toInt 1000000 1000 6
    | .millisecond => formatCount v.toInt 1000 1000000 3
    | .nanosecond => formatCount v.toInt 1000000000 1 9
    | .second => (DateTime.fromTimestamp v.toInt 0).map (·.format 0)

/-- What the row encoder is given: an absent value, or one of a type it encodes. -/
inductive RustValue where
  | none
  | int2 (n : Int16)
  | int4 (n : Int32)
  | int8 (n : Int64)
  | float4 (x : Float32)
  | float8 (x : Float)
  | bool (b : Bool)
  | string (s : String)
  | strings (items : List String)

/-- The elements of a list of texts. -/
def DataType.texts : (item : DataType) → List (Option item.Native) → Option (List (Option String))
  | .utf8, items => some items
  | .utf8View, items => some items
  | .largeUtf8, items => some items
  | _, _ => Option.none

def stringifyStringArray (items : List (Option String)) : List String :=
  items.map fun item => item.getD "NULL"

section
variable (display : DataType → String)

/-- A present value of a type without an encoding is sent as a text that says so. -/
def unsupported (dataType : DataType) (isNull : Bool) : RustValue :=
  if isNull then .none else .string s!"[unsupported {display dataType}]"

def encodeColumnValue : (dataType : DataType) → Option dataType.Native → RustValue
  | .utf8, value => value.elim .none .string
  | .utf8View, value => value.elim .none .string
  | .largeUtf8, value => value.elim .none .string
  | .int16, value => value.elim .none .int2
  | .int32, value => value.elim .none .int4
  | .int64, value => value.elim .none .int8
  | .float32, value => value.elim .none .float4
  | .float64, value => value.elim .none .float8
  | .timestamp unit _, value => (formatTimestampValueAt unit value).elim .none .string
  | .boolean, value => value.elim .none .bool
  | .list item, value =>
    match value with
    | Option.none => .none
    | some items =>
      match item.texts items with
      | some texts => .strings (stringifyStringArray texts)
      | Option.none => unsupported display (.list item) false
  | .other name, value => unsupported display (.other name) value.isNone

end

end PgCatalog.Server
