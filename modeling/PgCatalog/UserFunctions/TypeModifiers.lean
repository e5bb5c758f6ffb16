import Mathlib

/-! Type modifiers: the names `format_type` prints them in, the functions of `information_schema`
that decode them, and what PostgreSQL has for both. -/
namespace PgCatalog.UserFunctions

/-- A result, or none where the arithmetic overflows. -/
abbrev Checked (α : Type) := Option α

/-- `a - b` in 64 bits. -/
def checkedSub (a b : Int) : Checked Int :=
  if -2 ^ 63 ≤ a - b ∧ a - b < 2 ^ 63 then some (a - b) else none

/-- `a * b` in 32 bits. -/
def checkedMul (a b : Int) : Checked Int :=
  if -2 ^ 31 ≤ a * b ∧ a * b < 2 ^ 31 then some (a * b) else none

/-- `i32::try_from(n).ok()` -/
def toInt32 (n : Int) : Option Int :=
  if -2 ^ 31 ≤ n ∧ n < 2 ^ 31 then some n else none

/-- `n & 65535` -/
def low16 (n : Int) : Int := n % 65536

/-- `n >> 16` -/
def shift16 (n : Int) : Int := n / 65536

def precisionSuffix : Option Int → String
  | some p => if 0 ≤ p then "(" ++ toString p ++ ")" else ""
  | none => ""

def isReservedTypeKeyword (typname : String) : Bool := typname = "any"

def sqlNameForTypname (typname : String) (typmod : Option Int) : Checked String :=
  if typname = "bool" then some "boolean"
  else if typname = "int2" then some "smallint"
  else if typname = "int4" then some "integer"
  else if typname = "int8" then some "bigint"
  else if typname = "float4" then some "real"
  else if typname = "float8" then some "double precision"
  else if typname = "char" then some "\"char\""
  else if typname = "varchar" then
    match typmod with
    | some tm =>
      if 0 ≤ tm then (checkedSub tm 4).map fun n => "character varying(" ++ toString n ++ ")"
      else some "character varying"
    | none => some "character varying"
  else if typname = "bpchar" then
    match typmod with
    | some tm =>
      if 0 ≤ tm then (checkedSub tm 4).map fun n => "character(" ++ toString n ++ ")"
      else some "character"
    | none => some "character"
  else if typname = "numeric" then
    match typmod with
    | some tm =>
      if 4 ≤ tm then (checkedSub tm 4).map fun bits =>
        "numeric(" ++ toString (low16 (shift16 bits)) ++ "," ++ toString (low16 bits) ++ ")"
      else some "numeric"
    | none => some "numeric"
  else if typname = "timestamp" then
    some ("timestamp" ++ precisionSuffix typmod ++ " without time zone")
  else if typname = "timestamptz" then
    some ("timestamp" ++ precisionSuffix typmod ++ " with time zone")
  else if typname = "time" then some ("time" ++ precisionSuffix typmod ++ " without time zone")
  else if typname = "timetz" then some ("time" ++ precisionSuffix typmod ++ " with time zone")
  else if typname = "interval" then some "interval"
  else if typname = "bit" then some "bit"
  else if typname = "varbit" then some "bit varying"
  else if isReservedTypeKeyword typname then some ("\"" ++ typname ++ "\"")
  else some typname

/-- An array type is named after its element type, without a modifier. -/
def formatTypeName (oid : Int) (typmod : Option Int) (byOid : Int → Option String) :
    Checked String :=
  match byOid oid with
  | some typname =>
    if typname.toList.head? = some '_' then
      (sqlNameForTypname (String.ofList typname.toList.tail) none).map (· ++ "[]")
    else sqlNameForTypname typname typmod
  | none => some (toString oid)

def OID_INT8 : Int := 20
def OID_INT2 : Int := 21
def OID_INT4 : Int := 23
def OID_TEXT : Int := 25
def OID_FLOAT4 : Int := 700
def OID_FLOAT8 : Int := 701
def OID_BPCHAR : Int := 1042
def OID_VARCHAR : Int := 1043
def OID_DATE : Int := 1082
def OID_TIME : Int := 1083
def OID_TIMESTAMP : Int := 1114
def OID_TIMESTAMPTZ : Int := 1184
def OID_INTERVAL : Int := 1186
def OID_TIMETZ : Int := 1266
def OID_BIT : Int := 1560
def OID_VARBIT : Int := 1562
def OID_NUMERIC : Int := 1700

def pgNumericPrecision (typid : Int) (typmod : Option Int) : Checked (Option Int) :=
  if typid = OID_INT2 then some (some 16)
  else if typid = OID_INT4 then some (some 32)
  else if typid = OID_INT8 then some (some 64)
  else if typid = OID_FLOAT4 then some (some 24)
  else if typid = OID_FLOAT8 then some (some 53)
  else if typid = OID_NUMERIC then
    match typmod with
    | none => some none
    | some m =>
      if m = -1 then some none
      else (checkedSub m 4).map fun bits => some (low16 (shift16 bits))
  else some none

def pgNumericScale (typid : Int) (typmod : Option Int) : Checked (Option Int) :=
  if typid = OID_INT2 ∨ typid = OID_INT4 ∨ typid = OID_INT8 then some (some 0)
  else if typid = OID_NUMERIC then
    match typmod with
    | none => some none
    | some m =>
      if m = -1 then some none else (checkedSub m 4).map fun bits => some (low16 bits)
  else some none

def pgDatetimePrecision (typid : Int) (typmod : Option Int) : Checked (Option Int) :=
  let m := typmod.getD (-1)
  if typid = OID_DATE then some (some 0)
  else if typid = OID_TIME ∨ typid = OID_TIMESTAMP ∨ typid = OID_TIMESTAMPTZ ∨
      typid = OID_TIMETZ then
    some (some (if m < 0 then 6 else (toInt32 m).getD 6))
  else if typid = OID_INTERVAL then
    some (some (if m < 0 ∨ low16 m = 65535 then 6 else low16 m))
  else some none

def pgCharMaxLength (typid : Int) (typmod : Option Int) : Checked (Option Int) :=
  if typid = OID_BPCHAR ∨ typid = OID_VARCHAR then
    match typmod with
    | none => some none
    | some m => if m = -1 then some none else (checkedSub m 4).map toInt32
  else if typid = OID_BIT ∨ typid = OID_VARBIT then some (typmod.bind toInt32)
  else some none

def ENCODING_MAX_LENGTH : Int := 4

def pgCharOctetLength (typid : Int) (typmod : Option Int) : Checked (Option Int) :=
  if typid = OID_TEXT ∨ typid = OID_BPCHAR ∨ typid = OID_VARCHAR then
    if typmod.getD (-1) = -1 then some (some (2 ^ 30))
    else (pgCharMaxLength typid typmod).bind fun length =>
      match length with
      | none => some none
      | some l => (checkedMul l ENCODING_MAX_LENGTH).map some
  else some none

/-! ## PostgreSQL's types with modifiers -/

inductive ModifiedType where
  | bpchar | varchar | numeric | bit | varbit
  | time | timetz | timestamp | timestamptz | interval
  deriving DecidableEq

namespace ModifiedType

def oid : ModifiedType → Int
  | bpchar => OID_BPCHAR
  | varchar => OID_VARCHAR
  | numeric => OID_NUMERIC
  | bit => OID_BIT
  | varbit => OID_VARBIT
  | time => OID_TIME
  | timetz => OID_TIMETZ
  | timestamp => OID_TIMESTAMP
  | timestamptz => OID_TIMESTAMPTZ
  | interval => OID_INTERVAL

def arrayOid : ModifiedType → Int
  | bpchar => 1014
  | varchar => 1015
  | numeric => 1231
  | bit => 1561
  | varbit => 1563
  | time => 1183
  | timetz => 1270
  | timestamp => 1115
  | timestamptz => 1185
  | interval => 1187

def typname : ModifiedType → String
  | bpchar => "bpchar"
  | varchar => "varchar"
  | numeric => "numeric"
  | bit => "bit"
  | varbit => "varbit"
  | time => "time"
  | timetz => "timetz"
  | timestamp => "timestamp"
  | timestamptz => "timestamptz"
  | interval => "interval"

end ModifiedType

/-- The fields of an interval, and whether a precision of its seconds goes with them. -/
structure IntervalRange where
  mask : Int
  fields : String
  seconds : Bool

def INTERVAL_FULL_RANGE : IntervalRange := ⟨32767, "", true⟩

def intervalRanges : List IntervalRange :=
  [⟨4, " year", false⟩, ⟨2, " month", false⟩, ⟨8, " day", false⟩, ⟨1024, " hour", false⟩,
    ⟨2048, " minute", false⟩, ⟨4096, " second", true⟩, ⟨6, " year to month", false⟩,
    ⟨1032, " day to hour", false⟩, ⟨3080, " day to minute", false⟩,
    ⟨7176, " day to second", true⟩, ⟨3072, " hour to minute", false⟩,
    ⟨7168, " hour to second", true⟩, ⟨6144, " minute to second", true⟩]

/-- What PostgreSQL stores for a range and a precision. -/
def IntervalRange.typmod (range : IntervalRange) (precision : Option Int) : Int :=
  range.mask * 65536 + precision.getD 65535

/-- The modifiers a column can be declared with. -/
def ModifiedType.Storable (t : ModifiedType) (tm : Int) : Prop :=
  tm = -1 ∨
    match t with
    | bpchar => 5 ≤ tm ∧ tm ≤ 10485764
    | varchar => 5 ≤ tm ∧ tm ≤ 10485764
    | numeric => ∃ precision scale : Int, 1 ≤ precision ∧ precision ≤ 1000 ∧ -1000 ≤ scale ∧
        scale ≤ 1000 ∧ tm = precision * 65536 + scale % 2048 + 4
    | bit => 1 ≤ tm ∧ tm ≤ 83886080
    | varbit => 1 ≤ tm ∧ tm ≤ 83886080
    | interval => (∃ range ∈ intervalRanges, tm = range.typmod none) ∨
        ∃ range ∈ INTERVAL_FULL_RANGE :: intervalRanges, range.seconds = true ∧
          ∃ precision : Int, 0 ≤ precision ∧ precision ≤ 6 ∧ tm = range.typmod (some precision)
    | _ => 0 ≤ tm ∧ tm ≤ 6

/-- The fields that an interval's modifier names, and its precision. -/
def intervalModifier (tm : Int) : String :=
  let fields := (intervalRanges.find? (·.mask = shift16 tm)).elim "" (·.fields)
  if low16 tm = 65535 then fields else fields ++ "(" ++ toString (low16 tm) ++ ")"

/-- The scale is eleven bits, the first of them its sign. -/
def numericScale (tm : Int) : Int :=
  let low := (tm - 4) % 2048
  if low < 1024 then low else low - 2048

namespace ModifiedType

/-- The modifier's text, from zero on. -/
def modifier (t : ModifiedType) (tm : Int) : String :=
  match t with
  | bpchar => if 4 < tm then "(" ++ toString (tm - 4) ++ ")" else ""
  | varchar => if 4 < tm then "(" ++ toString (tm - 4) ++ ")" else ""
  | numeric =>
    if 4 ≤ tm then
      "(" ++ toString (low16 (shift16 (tm - 4))) ++ "," ++ toString (numericScale tm) ++ ")"
    else ""
  | interval => intervalModifier tm
  | _ => "(" ++ toString tm ++ ")"

/-- The name before a modifier; without one, `character` and `bit` would be of length one. -/
def base (t : ModifiedType) (tm : Int) : String :=
  match t with
  | bpchar => if 0 ≤ tm then "character" else "bpchar"
  | varchar => "character varying"
  | numeric => "numeric"
  | bit => if 0 ≤ tm then "bit" else "\"bit\""
  | varbit => "bit varying"
  | time => "time"
  | timetz => "time"
  | timestamp => "timestamp"
  | timestamptz => "timestamp"
  | interval => "interval"

def tail : ModifiedType → String
  | time => " without time zone"
  | timetz => " with time zone"
  | timestamp => " without time zone"
  | timestamptz => " with time zone"
  | _ => ""

/-- `format_type` with a modifier. -/
def pgName (t : ModifiedType) (tm : Int) : String :=
  t.base tm ++ (if 0 ≤ tm then t.modifier tm else "") ++ t.tail

end ModifiedType

/-- The functions of `information_schema`, as its catalog has them. -/
structure PgHelpers where
  numericPrecision : Option Int
  numericScale : Option Int
  charMaxLength : Option Int
  charOctetLength : Option Int
  datetimePrecision : Option Int
  deriving DecidableEq

def pgHelperCharMaxLength (typid tm : Int) : Option Int :=
  if tm = -1 then none
  else if typid = OID_BPCHAR ∨ typid = OID_VARCHAR then some (tm - 4)
  else if typid = OID_BIT ∨ typid = OID_VARBIT then some tm
  else none

def pgHelpers (typid tm : Int) : PgHelpers where
  numericPrecision :=
    if typid = OID_INT2 then some 16 else if typid = OID_INT4 then some 32
    else if typid = OID_INT8 then some 64
    else if typid = OID_NUMERIC then if tm = -1 then none else some (low16 (shift16 (tm - 4)))
    else if typid = OID_FLOAT4 then some 24 else if typid = OID_FLOAT8 then some 53
    else none
  numericScale :=
    if typid = OID_INT2 ∨ typid = OID_INT4 ∨ typid = OID_INT8 then some 0
    else if typid = OID_NUMERIC then if tm = -1 then none else some (low16 (tm - 4))
    else none
  charMaxLength := pgHelperCharMaxLength typid tm
  charOctetLength :=
    if typid = OID_TEXT ∨ typid = OID_BPCHAR ∨ typid = OID_VARCHAR then
      if tm = -1 then some (2 ^ 30) else (pgHelperCharMaxLength typid tm).map (· * 4)
    else none
  datetimePrecision :=
    if typid = OID_DATE then some 0
    else if typid = OID_TIME ∨ typid = OID_TIMESTAMP ∨ typid = OID_TIMESTAMPTZ ∨
        typid = OID_TIMETZ then some (if tm < 0 then 6 else tm)
    else if typid = OID_INTERVAL then
      some (if tm < 0 ∨ low16 tm = 65535 then 6 else low16 tm)
    else none

/-! ## Consistent decoding -/

/-- `pg_type`, in which the types with modifiers and their arrays have their names. -/
structure TypeNames where
  byOid : Int → Option String
  named : ∀ t : ModifiedType, byOid t.oid = some t.typname
  arrays : ∀ t : ModifiedType, byOid t.arrayOid = some (String.ofList ('_' :: t.typname.toList))

/-- The functions' results for a type and a modifier. -/
def helpers (typid tm : Int) : Checked PgHelpers := do
  return ⟨← pgNumericPrecision typid (some tm), ← pgNumericScale typid (some tm),
    ← pgCharMaxLength typid (some tm), ← pgCharOctetLength typid (some tm),
    ← pgDatetimePrecision typid (some tm)⟩

/-- A type and a modifier that a column can have. -/
def CanStore (typid tm : Int) : Prop :=
  (∃ t : ModifiedType, (typid = t.oid ∨ typid = t.arrayOid) ∧ t.Storable tm) ∨
    ((∀ t : ModifiedType, typid ≠ t.oid ∧ typid ≠ t.arrayOid) ∧ tm = -1)

/-- What a name has in parentheses. -/
def printedModifier (name : String) : Option String :=
  match name.toList.dropWhile (· ≠ '(') with
  | [] => none
  | _ :: rest => some (String.ofList (rest.takeWhile (· ≠ ')')))

/-- The modifier in a type's name is the one the functions decode. A time without one has the
precision 6. -/
def ModifiedType.Agrees (t : ModifiedType) (printed : Option String) (h : PgHelpers) : Prop :=
  match t with
  | bpchar => printed = h.charMaxLength.map toString ∧
      h.charOctetLength = some ((h.charMaxLength.map (4 * ·)).getD (2 ^ 30))
  | varchar => printed = h.charMaxLength.map toString ∧
      h.charOctetLength = some ((h.charMaxLength.map (4 * ·)).getD (2 ^ 30))
  | bit => printed = h.charMaxLength.map toString
  | varbit => printed = h.charMaxLength.map toString
  | numeric => (printed = none ∧ h.numericPrecision = none ∧ h.numericScale = none) ∨
      ∃ precision scale, h.numericPrecision = some precision ∧ h.numericScale = some scale ∧
        printed = some (toString precision ++ "," ++ toString scale)
  | _ => ∃ precision, h.datetimePrecision = some precision ∧ printed.getD "6" = toString precision

/-- No overflow, and of what a column can have: PostgreSQL's name, its functions' results, and
the same modifier in both. -/
structure TypmodRight (types : TypeNames) (typid : Int) (tm : Int) : Prop where
  name_checked : formatTypeName typid (some tm) types.byOid ≠ none
  helpers_checked : helpers typid tm ≠ none
  name : ∀ t : ModifiedType, typid = t.oid → t.Storable tm →
    formatTypeName typid (some tm) types.byOid = some (t.pgName tm)
  array : ∀ t : ModifiedType, typid = t.arrayOid → t.Storable tm →
    formatTypeName typid (some tm) types.byOid = some (t.pgName tm ++ "[]")
  unmodified : (∀ t : ModifiedType, typid ≠ t.oid ∧ typid ≠ t.arrayOid) → tm = -1 →
    formatTypeName typid (some tm) types.byOid = formatTypeName typid none types.byOid
  decoded : CanStore typid tm → helpers typid tm = some (pgHelpers typid tm)
  agrees : ∀ t : ModifiedType, typid = t.oid → t.Storable tm → ∀ name h,
    formatTypeName typid (some tm) types.byOid = some name → helpers typid tm = some h →
      t.Agrees (printedModifier name) h

end PgCatalog.UserFunctions
