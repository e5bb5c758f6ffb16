import PgCatalog.Library.Text
import PgCatalog.Server.Encode

/-! What a client reads of an encoded value, by the type and the format the row description
announces: the value's meaning where the encoding is one of the type, else nothing. -/
namespace PgCatalog.Server

open Library

/-- A PostgreSQL value. A timestamp counts nanoseconds from the Unix epoch. -/
inductive PgValue where
  | null
  | bool (b : Bool)
  | int (n : Int)
  | float4 (x : Float32)
  | float8 (x : Float)
  | text (s : String)
  | timestamp (nanos : Int)
  | array (items : List PgValue)

/-- What a present value of a column stands for. -/
def DataType.denoted : (dataType : DataType) → dataType.Native → PgValue
  | .boolean, b => .bool b
  | .int16, n => .int n.toInt
  | .int32, n => .int n.toInt
  | .int64, n => .int n.toInt
  | .float32, x => .float4 x
  | .float64, x => .float8 x
  | .utf8, s => .text s
  | .utf8View, s => .text s
  | .largeUtf8, s => .text s
  | .timestamp unit _, n => .timestamp (match unit with
    | .second => n.toInt * 1000000000
    | .millisecond => n.toInt * 1000000
    | .microsecond => n.toInt * 1000
    | .nanosecond => n.toInt)
  | .list item, items => .array (items.map fun value => value.elim .null item.denoted)
  | .other _, s => .text s

def readMark (mark : Char) : List Char → Option (List Char)
  | c :: rest => if c = mark then some rest else none
  | [] => none

/-- A number of two digits. -/
def readTwo : List Char → Option (Nat × List Char)
  | tens :: ones :: rest =>
    if tens.isDigit && ones.isDigit then some (digitsNumber [tens, ones], rest) else none
  | _ => none

/-- The digits after a point, if there is one. -/
def readFraction : List Char → Option (List Char)
  | [] => some []
  | rest => readMark '.' rest

/-- The numbers in a timestamp's text, and the digits after its second. -/
structure TimestampFields where
  year : Nat
  month : Nat
  day : Nat
  hour : Nat
  minute : Nat
  second : Nat
  fraction : List Char
  deriving DecidableEq, Repr

/-- `yyyy-mm-dd hh:mm:ss` with a fraction or none; a sign is no part of a year. -/
def readFields (chars : List Char) : Option TimestampFields := do
  let year := chars.takeWhile Char.isDigit
  if year.length < 4 then none
  let rest ← readMark '-' (chars.dropWhile Char.isDigit)
  let (month, rest) ← readTwo rest
  let rest ← readMark '-' rest
  let (day, rest) ← readTwo rest
  let rest ← readMark ' ' rest
  let (hour, rest) ← readTwo rest
  let rest ← readMark ':' rest
  let (minute, rest) ← readTwo rest
  let rest ← readMark ':' rest
  let (second, rest) ← readTwo rest
  let fraction ← readFraction rest
  if fraction.all Char.isDigit then
    return ⟨digitsNumber year, month, day, hour, minute, second, fraction⟩
  none

/-- The microseconds of the digits after a second, rounded. -/
def fractionMicros (digits : List Char) : Nat :=
  (digitsNumber digits * 10 ^ 6 + 10 ^ digits.length / 2) / 10 ^ digits.length

/-- A timestamp has whole microseconds and no year zero. -/
def readTimestamp (chars : List Char) : Option Int := do
  let fields ← readFields chars
  if 1 ≤ fields.year ∧ 1 ≤ fields.month ∧ fields.month ≤ 12 ∧ 1 ≤ fields.day ∧ fields.day ≤ 31 ∧
      fields.hour < 24 ∧ fields.minute < 60 ∧ fields.second < 60 then
    let day := Date.toDay ⟨fields.year, fields.month, fields.day⟩
    let second := 86400 * day + (3600 * fields.hour + 60 * fields.minute + fields.second : Nat)
    return (1000000 * second + fractionMicros fields.fraction) * 1000
  none

/-- The text can be an array: in text a brace or the bounds of a dimension open it, in
binary the count of its dimensions, whose first byte is zero. -/
def opensArray (format : FieldFormat) (s : String) : Bool :=
  match format with
  | .text => match s.toList.dropWhile isWhiteSpace with
    | '{' :: _ => true
    | '[' :: c :: _ => c.isDigit || c = '-' || c = '+'
    | _ => false
  | .binary => s.toList.head? = some (Char.ofNat 0)

def PgType.isArray : PgType → Bool
  | .textArray | .int2Array | .int4Array | .int8Array | .boolArray | .float4Array
  | .float8Array => true
  | _ => false

/-- What a client reads of a value under a type. The value's own encoding is its meaning
under the value's own type; `client` reads the texts that could be of another type. -/
def decode (client : FieldFormat → PgType → String → Option PgValue) (format : FieldFormat)
    (type : PgType) : RustValue → Option PgValue
  | .none => some .null
  | .int2 n => if type = .int2 then some (.int n.toInt) else none
  | .int4 n => if type = .int4 then some (.int n.toInt) else none
  | .int8 n => if type = .int8 then some (.int n.toInt) else none
  | .float4 x => if type = .float4 then some (.float4 x) else none
  | .float8 x => if type = .float8 then some (.float8 x) else none
  | .bool b => if type = .bool then some (.bool b) else none
  | .strings items => if type = .textArray then some (.array (items.map .text)) else none
  | .string s =>
    if type = .text then some (.text s)
    else if type = .timestamp then
      match format with
      | .text => (readTimestamp s.toList).map .timestamp
      | .binary => if s.utf8ByteSize = 8 then client .binary type s else none
    else if type.isArray && !opensArray format s then none
    else client format type s

end PgCatalog.Server
