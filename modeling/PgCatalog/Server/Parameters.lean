import Mathlib.Data.List.Forall2
import PgCatalog.Library.BigEndian
import PgCatalog.Library.Fallible
import PgCatalog.Session.Views

/-! Bound parameters: the scalars a statement is executed with, and what a capture file records
of them. -/
namespace PgCatalog.Server

open Library

abbrev Bytes := List UInt8

/-- The types parameters are declared with; of those nothing binds, how they print. -/
inductive ParamType where
  | int2 | int4 | int8 | oid | float4 | float8 | bool
  | varchar | text | bpchar | name | unknown
  | other (display : String)
  deriving DecidableEq

/-- A bound parameter; a float as the bits it was sent in. -/
inductive BoundScalar where
  | int16 (number : Option Int16)
  | int32 (number : Option Int32)
  | int64 (number : Option Int64)
  | float32 (bits : Option UInt32)
  | float64 (bits : Option UInt64)
  | boolean (flag : Option Bool)
  | utf8 (text : Option String)
  deriving DecidableEq

/-- An unspecified type reads as unknown. -/
def concreteParamTypes (types : List (Option ParamType)) : List ParamType :=
  types.map (·.getD .unknown)

/-- The text of bytes that are valid UTF-8. -/
def readText (bytes : Bytes) : Option String := String.fromUTF8? ⟨bytes.toArray⟩

section
-- How the error of invalid UTF-8 prints.
variable (utf8Error : Bytes → String)

def fixedWidth (width : Nat) (bytes : Bytes) (position : Nat) (typeName : String) : DFResult Nat :=
  if bytes.length = width then .ok (BigEndian.number bytes)
  else .error (.plan (s!"parameter ${position} declared {typeName} arrived as {bytes.length} " ++
    s!"bytes, not {width}; a parameter sent in text format rather than binary looks like this"))

def unsupportedType (position : Nat) (display : String) : DataFusionError :=
  .plan s!"parameter ${position} has type {display}, which this catalog cannot bind"

def bindText (bytes : Bytes) (position : Nat) : DFResult BoundScalar :=
  match readText bytes with
  | some text => .ok (.utf8 (some text))
  | none => .error (.plan s!"parameter ${position} is not valid UTF-8: {utf8Error bytes}")

def bindParameterAsScalar (value : Option Bytes) (declaredType : ParamType) (position : Nat) :
    DFResult BoundScalar :=
  match value with
  | none =>
    -- A NULL carries the type a value would.
    match declaredType with
    | .int2 => .ok (.int16 none)
    | .int8 | .oid => .ok (.int64 none)
    | .int4 => .ok (.int32 none)
    | .float4 => .ok (.float32 none)
    | .float8 => .ok (.float64 none)
    | .bool => .ok (.boolean none)
    | .varchar | .text | .bpchar | .name | .unknown => .ok (.utf8 none)
    | .other display => .error (unsupportedType position display)
  | some bytes =>
    match declaredType with
    | .int2 => (fixedWidth 2 bytes position "int2").map fun n =>
        .int16 (some (UInt16.ofNat n).toInt16)
    | .int4 => (fixedWidth 4 bytes position "int4").map fun n =>
        .int32 (some (UInt32.ofNat n).toInt32)
    | .int8 => (fixedWidth 8 bytes position "int8").map fun n =>
        .int64 (some (UInt64.ofNat n).toInt64)
    | .oid => (fixedWidth 4 bytes position "oid").map fun n =>
        .int64 (some (UInt32.ofNat n).toUInt64.toInt64)
    | .float4 => (fixedWidth 4 bytes position "float4").map fun n => .float32 (some (UInt32.ofNat n))
    | .float8 => (fixedWidth 8 bytes position "float8").map fun n => .float64 (some (UInt64.ofNat n))
    | .bool =>
      match bytes with
      | [b] => .ok (.boolean (some (b != 0)))
      | _ => .error (.plan
          s!"parameter ${position} declared bool arrived as {bytes.length} bytes, not 1")
    | .varchar | .text | .bpchar | .name | .unknown => bindText utf8Error bytes position
    | .other display => .error (unsupportedType position display)

/-- One scalar for each pair, numbered from `position` on, up to the first that fails. -/
def bindParameters (position : Nat) : List (Option Bytes × ParamType) → DFResult (List BoundScalar)
  | [] => .ok []
  | (value, type) :: rest => do
    let scalar ← bindParameterAsScalar utf8Error value type position
    let scalars ← bindParameters (position + 1) rest
    return scalar :: scalars

/-- The scalars a statement is executed with, where values and types were given. -/
def parameterScalars (values : Option (List (Option Bytes))) (types : Option (List ParamType)) :
    DFResult (Option (List BoundScalar)) :=
  match values, types with
  | some values, some types => (bindParameters utf8Error 1 (values.zip types)).map some
  | _, _ => .ok none

/-- `rest` is what is done with the statement once its parameters are decoded. -/
def rewriteAndExecuteSql {A : Type} (rest : Option (List BoundScalar) → DFResult A)
    (values : Option (List (Option Bytes))) (types : Option (List ParamType)) : DFResult A := do
  let scalars ← parameterScalars utf8Error values types
  rest scalars

end

inductive Json where
  | number (n : Int)
  | string (s : String)
  deriving DecidableEq

/-- `try_into().unwrap()`: panics on another width. -/
def exactly (width : Nat) (bytes : Bytes) : Option Nat :=
  if bytes.length = width then some (BigEndian.number bytes) else none

/-- What is recorded of one parameter; no answer where decoding it panics. -/
def decodeParameter : Option Bytes × ParamType → Option (Option Json)
  | (some bytes, .int2) => (exactly 2 bytes).map fun n =>
      some (.number (UInt16.ofNat n).toInt16.toInt)
  | (some bytes, .int4) => (exactly 4 bytes).map fun n =>
      some (.number (UInt32.ofNat n).toInt32.toInt)
  | (some bytes, .int8) => (exactly 8 bytes).map fun n =>
      some (.number (UInt64.ofNat n).toInt64.toInt)
  | (some bytes, .oid) => (exactly 4 bytes).map fun n => some (.number (Int.ofNat n))
  | (some bytes, .varchar) | (some bytes, .text) | (some bytes, .bpchar) | (some bytes, .name)
  | (some bytes, .unknown) => (readText bytes).map fun text => some (.string text)
  | _ => some none

def decodeParameters (params : List (Option Bytes)) (types : List ParamType) :
    Option (List (Option Json)) :=
  (params.zip types).mapM decodeParameter

structure CapturedQuery (R : Type) where
  query : String
  parameters : List (Option Json)
  result : List R
  success : Bool
  errorDetails : Option String

section
variable {R : Type}

/-- The queries recorded so far, where a capture file is configured. -/
abbrev CaptureStore (R : Type) := Option (List (CapturedQuery R))

/-- No answer where recording the query panics. -/
def captureQuery (capture : CaptureStore R) (params : List (Option Bytes))
    (declaredTypes : List (Option ParamType)) (entry : List (Option Json) → CapturedQuery R) :
    Option (CaptureStore R) :=
  match capture with
  | none => some none
  | some entries =>
    (decodeParameters params (concreteParamTypes declaredTypes)).map fun parameters =>
      some (entries ++ [entry parameters])

def captureFailedQuery (capture : CaptureStore R) (query : String) (params : List (Option Bytes))
    (declaredTypes : List (Option ParamType)) (error : DataFusionError) : Option (CaptureStore R) :=
  captureQuery capture params declaredTypes fun parameters =>
    ⟨query, parameters, [], false, some (Session.displayError error)⟩

def captureSuccessfulQuery (capture : CaptureStore R) (query : String)
    (params : List (Option Bytes)) (declaredTypes : List (Option ParamType)) (results : List R) :
    Option (CaptureStore R) :=
  captureQuery capture params declaredTypes fun parameters =>
    ⟨query, parameters, results, true, none⟩

end

/-- The scalar is what the bytes say under the type: its own bytes are these. -/
def CarriesValue (bytes : Bytes) : ParamType → BoundScalar → Prop
  | .int2, scalar => ∃ n : Int16, scalar = .int16 (some n) ∧
      bytes = BigEndian.bytesOf 2 n.toUInt16.toNat
  | .int4, scalar => ∃ n : Int32, scalar = .int32 (some n) ∧
      bytes = BigEndian.bytesOf 4 n.toUInt32.toNat
  | .int8, scalar => ∃ n : Int64, scalar = .int64 (some n) ∧
      bytes = BigEndian.bytesOf 8 n.toUInt64.toNat
  | .oid, scalar => ∃ n : UInt32, scalar = .int64 (some n.toUInt64.toInt64) ∧
      bytes = BigEndian.bytesOf 4 n.toNat
  | .float4, scalar => ∃ bits : UInt32, scalar = .float32 (some bits) ∧
      bytes = BigEndian.bytesOf 4 bits.toNat
  | .float8, scalar => ∃ bits : UInt64, scalar = .float64 (some bits) ∧
      bytes = BigEndian.bytesOf 8 bits.toNat
  | .bool, scalar => ∃ b : UInt8, scalar = .boolean (some (b != 0)) ∧ bytes = [b]
  | .varchar, scalar | .text, scalar | .bpchar, scalar | .name, scalar | .unknown, scalar =>
    ∃ text : String, scalar = .utf8 (some text) ∧ bytes = text.toUTF8.data.toList
  | .other _, _ => False

/-- The null of a scalar's type. -/
def BoundScalar.nulled : BoundScalar → BoundScalar
  | .int16 _ => .int16 none
  | .int32 _ => .int32 none
  | .int64 _ => .int64 none
  | .float32 _ => .float32 none
  | .float64 _ => .float64 none
  | .boolean _ => .boolean none
  | .utf8 _ => .utf8 none

/-- A NULL is the null of the scalar type a value would have. -/
def Carries (value : Option Bytes) (type : ParamType) (scalar : BoundScalar) : Prop :=
  match value with
  | some bytes => CarriesValue bytes type scalar
  | none => ∃ bytes other, CarriesValue bytes type other ∧ scalar = other.nulled

section
variable (utf8Error : Bytes → String) (params : List (Option Bytes))
  (declaredTypes : List (Option ParamType))

/-- One scalar for every value, whatever is then done with the statement. -/
def BindsAll : Prop :=
  ∀ rest : Option (List BoundScalar) → DFResult (List (List String)),
    (∃ error, rewriteAndExecuteSql utf8Error rest (some params)
        (some (concreteParamTypes declaredTypes)) = .error error) ∨
      ∃ scalars, parameterScalars utf8Error (some params)
          (some (concreteParamTypes declaredTypes)) = .ok (some scalars) ∧
        scalars.length = params.length ∧
        ∀ i value scalar, params[i]? = some value → scalars[i]? = some scalar →
          Carries value ((concreteParamTypes declaredTypes).getD i .unknown) scalar

/-- A configured capture records one entry for every value, of a failed query and of a
successful one. -/
def CapturesAll (capture : CaptureStore String) : Prop :=
  ∀ entries, capture = some entries →
    (∀ query error, ∃ entry : CapturedQuery String,
      captureFailedQuery capture query params declaredTypes error = some (some (entries ++ [entry])) ∧
        entry.parameters.length = params.length) ∧
    ∀ query results, ∃ entry : CapturedQuery String,
      captureSuccessfulQuery capture query params declaredTypes results =
        some (some (entries ++ [entry])) ∧
        entry.parameters.length = params.length

/-- The bytes have a width and an encoding the type can have. -/
def Fits : Option Bytes × ParamType → Prop
  | (none, .other _) => False
  | (none, _) => True
  | (some bytes, .int2) => bytes.length = 2
  | (some bytes, .int4) | (some bytes, .oid) | (some bytes, .float4) => bytes.length = 4
  | (some bytes, .int8) | (some bytes, .float8) => bytes.length = 8
  | (some bytes, .bool) => bytes.length = 1
  | (some bytes, .varchar) | (some bytes, .text) | (some bytes, .bpchar) | (some bytes, .name)
  | (some bytes, .unknown) => ByteArray.IsValidUTF8 ⟨bytes.toArray⟩
  | (some _, .other _) => False

/-- Of the types a capture decodes. -/
def Recordable : Option Bytes × ParamType → Prop
  | (some bytes, .int2) => bytes.length = 2
  | (some bytes, .int4) | (some bytes, .oid) => bytes.length = 4
  | (some bytes, .int8) => bytes.length = 8
  | (some bytes, .varchar) | (some bytes, .text) | (some bytes, .bpchar) | (some bytes, .name)
  | (some bytes, .unknown) => ByteArray.IsValidUTF8 ⟨bytes.toArray⟩
  | _ => True

end

section
variable {utf8Error : Bytes → String}

theorem fixedWidth_ok {width : Nat} {bytes : Bytes} (fits : bytes.length = width) (position : Nat)
    (typeName : String) :
    fixedWidth width bytes position typeName = .ok (BigEndian.number bytes) := if_pos fits

theorem fixedWidth_error {width : Nat} {bytes : Bytes} (other : bytes.length ≠ width)
    (position : Nat) (typeName : String) :
    ∃ error, fixedWidth width bytes position typeName = .error error := ⟨_, if_neg other⟩

/-- The bytes of the number read from bytes of a width. -/
theorem bytesOf_read (width : Nat) {bytes : Bytes} (fits : bytes.length = width) :
    bytes = BigEndian.bytesOf width (BigEndian.number bytes % 2 ^ (8 * width)) := by
  have small := BigEndian.number_lt bytes
  have power : 256 ^ bytes.length = 2 ^ (8 * width) := by
    rw [pow_mul, fits]
    rfl
  rw [Nat.mod_eq_of_lt (power ▸ small), ← fits]
  exact (BigEndian.bytesOf_number bytes).symm

theorem readText_some {bytes : Bytes} (valid : ByteArray.IsValidUTF8 ⟨bytes.toArray⟩) :
    ∃ text : String, readText bytes = some text ∧ bytes = text.toUTF8.data.toList :=
  ⟨String.fromUTF8 ⟨bytes.toArray⟩ valid, dif_pos valid, rfl⟩

theorem readText_none {bytes : Bytes} (invalid : ¬ByteArray.IsValidUTF8 ⟨bytes.toArray⟩) :
    readText bytes = none := dif_neg invalid

theorem bindText_ok {bytes : Bytes} (valid : ByteArray.IsValidUTF8 ⟨bytes.toArray⟩)
    (position : Nat) : ∃ scalar, bindText utf8Error bytes position = .ok scalar ∧
      ∃ text : String, scalar = .utf8 (some text) ∧ bytes = text.toUTF8.data.toList := by
  obtain ⟨text, read, whole⟩ := readText_some valid
  unfold bindText
  rw [read]
  exact ⟨_, rfl, text, rfl, whole⟩

theorem bindText_error {bytes : Bytes} (invalid : ¬ByteArray.IsValidUTF8 ⟨bytes.toArray⟩)
    (position : Nat) : ∃ error, bindText utf8Error bytes position = .error error := by
  unfold bindText
  rw [readText_none invalid]
  exact ⟨_, rfl⟩

/-- A value that fits its type is bound as what it says. -/
theorem bind_ok {value : Option Bytes} {type : ParamType} (fits : Fits (value, type))
    (position : Nat) : ∃ scalar, bindParameterAsScalar utf8Error value type position = .ok scalar ∧
      Carries value type scalar := by
  cases value with
  | none =>
    cases type with
    | other display => exact absurd fits id
    | int2 => exact ⟨_, rfl, _, _, ⟨0, rfl, rfl⟩, rfl⟩
    | int4 => exact ⟨_, rfl, _, _, ⟨0, rfl, rfl⟩, rfl⟩
    | int8 => exact ⟨_, rfl, _, _, ⟨0, rfl, rfl⟩, rfl⟩
    | oid => exact ⟨_, rfl, _, _, ⟨0, rfl, rfl⟩, rfl⟩
    | float4 => exact ⟨_, rfl, _, _, ⟨0, rfl, rfl⟩, rfl⟩
    | float8 => exact ⟨_, rfl, _, _, ⟨0, rfl, rfl⟩, rfl⟩
    | bool => exact ⟨_, rfl, _, _, ⟨0, rfl, rfl⟩, rfl⟩
    | varchar | text | bpchar | name | unknown => exact ⟨_, rfl, _, _, ⟨"", rfl, rfl⟩, rfl⟩
  | some bytes =>
    cases type with
    | other display => exact absurd fits id
    | int2 =>
      refine ⟨_, congrArg (Except.map _) (fixedWidth_ok fits position "int2"), _, rfl, ?_⟩
      rw [UInt16.toUInt16_toInt16, UInt16.toNat_ofNat']
      exact bytesOf_read 2 fits
    | int4 =>
      refine ⟨_, congrArg (Except.map _) (fixedWidth_ok fits position "int4"), _, rfl, ?_⟩
      rw [UInt32.toUInt32_toInt32, UInt32.toNat_ofNat']
      exact bytesOf_read 4 fits
    | int8 =>
      refine ⟨_, congrArg (Except.map _) (fixedWidth_ok fits position "int8"), _, rfl, ?_⟩
      rw [UInt64.toUInt64_toInt64, UInt64.toNat_ofNat']
      exact bytesOf_read 8 fits
    | oid =>
      refine ⟨_, congrArg (Except.map _) (fixedWidth_ok fits position "oid"), _, rfl, ?_⟩
      rw [UInt32.toNat_ofNat']
      exact bytesOf_read 4 fits
    | float4 =>
      refine ⟨_, congrArg (Except.map _) (fixedWidth_ok fits position "float4"), _, rfl, ?_⟩
      rw [UInt32.toNat_ofNat']
      exact bytesOf_read 4 fits
    | float8 =>
      refine ⟨_, congrArg (Except.map _) (fixedWidth_ok fits position "float8"), _, rfl, ?_⟩
      rw [UInt64.toNat_ofNat']
      exact bytesOf_read 8 fits
    | bool =>
      obtain ⟨b, rfl⟩ := List.length_eq_one_iff.mp fits
      exact ⟨_, rfl, b, rfl, rfl⟩
    | varchar | text | bpchar | name | unknown => exact bindText_ok fits position

theorem map_error {α β : Type} {result : DFResult α} (fails : ∃ error, result = .error error)
    (f : α → β) : ∃ error, result.map f = .error error := by
  obtain ⟨error, rfl⟩ := fails
  exact ⟨error, rfl⟩

theorem bind_error {value : Option Bytes} {type : ParamType} (unfit : ¬Fits (value, type))
    (position : Nat) :
    ∃ error, bindParameterAsScalar utf8Error value type position = .error error := by
  cases value with
  | none =>
    cases type with
    | other display => exact ⟨_, rfl⟩
    | _ => exact absurd trivial unfit
  | some bytes =>
    cases type with
    | other display => exact ⟨_, rfl⟩
    | int2 | int4 | int8 | oid | float4 | float8 => exact map_error (fixedWidth_error unfit _ _) _
    | bool =>
      rcases bytes with _ | ⟨b, _ | ⟨c, rest⟩⟩
      · exact ⟨_, rfl⟩
      · exact absurd rfl unfit
      · exact ⟨_, rfl⟩
    | varchar | text | bpchar | name | unknown => exact bindText_error unfit position

theorem bindParameters_ok {pairs : List (Option Bytes × ParamType)} (fit : ∀ pair ∈ pairs, Fits pair)
    (position : Nat) : ∃ scalars, bindParameters utf8Error position pairs = .ok scalars ∧
      List.Forall₂ (fun pair scalar => Carries pair.1 pair.2 scalar) pairs scalars := by
  induction pairs generalizing position with
  | nil => exact ⟨[], rfl, .nil⟩
  | cons pair rest ih =>
    obtain ⟨scalar, bound, carries⟩ := bind_ok (fit pair List.mem_cons_self) position
    obtain ⟨scalars, later, each⟩ := ih (fun p member => fit p (List.mem_cons_of_mem _ member))
      (position + 1)
    refine ⟨scalar :: scalars, ?_, .cons carries each⟩
    rw [bindParameters, bound, ok_bind, later, ok_bind]
    rfl

theorem bindParameters_error {pairs : List (Option Bytes × ParamType)}
    (unfit : ∃ pair ∈ pairs, ¬Fits pair) (position : Nat) :
    ∃ error, bindParameters utf8Error position pairs = .error error := by
  induction pairs generalizing position with
  | nil =>
    obtain ⟨pair, member, _⟩ := unfit
    cases member
  | cons pair rest ih =>
    unfold bindParameters
    by_cases fits : Fits pair
    · obtain ⟨scalar, bound, _⟩ := bind_ok fits position
      have later : ∃ pair ∈ rest, ¬Fits pair := by
        obtain ⟨other, member, bad⟩ := unfit
        obtain rfl | inside := List.mem_cons.mp member
        · exact absurd fits bad
        · exact ⟨other, inside, bad⟩
      obtain ⟨error, fails⟩ := ih later (position + 1)
      refine ⟨error, ?_⟩
      rw [bound, ok_bind, fails]
      rfl
    · obtain ⟨error, fails⟩ := bind_error fits position
      refine ⟨error, ?_⟩
      rw [fails]
      rfl

variable (params : List (Option Bytes)) (declaredTypes : List (Option ParamType))

/-- The values, each with the type it is read under. -/
def typed : List (Option Bytes × ParamType) := params.zip (concreteParamTypes declaredTypes)

theorem typed_length : (typed params declaredTypes).length =
    min params.length declaredTypes.length := by
  unfold typed concreteParamTypes
  rw [List.length_zip, List.length_map]

/-- All values are bound exactly if there are types enough or an error is reported. -/
theorem bindsAll_iff : BindsAll utf8Error params declaredTypes ↔
    params.length ≤ declaredTypes.length ∨ ∃ pair ∈ typed params declaredTypes, ¬Fits pair := by
  have scalars_eq : parameterScalars utf8Error (some params)
      (some (concreteParamTypes declaredTypes)) =
        (bindParameters utf8Error 1 (typed params declaredTypes)).map some := rfl
  by_cases fit : ∀ pair ∈ typed params declaredTypes, Fits pair
  · obtain ⟨scalars, bound, each⟩ := @bindParameters_ok utf8Error _ fit 1
    rw [bound] at scalars_eq
    have count := each.length_eq
    rw [typed_length] at count
    constructor
    · intro binds
      rcases binds fun _ => .ok [] with ⟨error, fails⟩ | ⟨all, ok, whole, _⟩
      · unfold rewriteAndExecuteSql at fails
        rw [scalars_eq] at fails
        cases fails
      · rw [scalars_eq] at ok
        obtain rfl := Option.some.inj (Except.ok.inj ok)
        left
        omega
    · rintro (enough | ⟨pair, member, unfit⟩)
      · refine fun rest => .inr ⟨scalars, scalars_eq, by omega, ?_⟩
        intro i value scalar there here
        have within := (List.getElem?_eq_some_iff.mp there).1
        have types : (concreteParamTypes declaredTypes)[i]? =
            some ((concreteParamTypes declaredTypes).getD i .unknown) := by
          have low : i < (concreteParamTypes declaredTypes).length := by
            unfold concreteParamTypes
            rw [List.length_map]
            omega
          rw [List.getD_eq_getElem?_getD, List.getElem?_eq_getElem low]
          rfl
        have pair : (typed params declaredTypes)[i]? =
            some (value, (concreteParamTypes declaredTypes).getD i .unknown) := by
          unfold typed
          exact List.getElem?_zip_eq_some.mpr ⟨there, types⟩
        obtain ⟨inside, same⟩ := List.getElem?_eq_some_iff.mp pair
        obtain ⟨inside', same'⟩ := List.getElem?_eq_some_iff.mp here
        have carried := List.forall₂_iff_get.mp each |>.2 i inside inside'
        rw [List.get_eq_getElem, List.get_eq_getElem, same, same'] at carried
        exact carried
      · exact absurd (fit pair member) unfit
  · push Not at fit
    refine iff_of_true (fun rest => .inl ?_) (.inr fit)
    obtain ⟨error, fails⟩ := @bindParameters_error utf8Error _ fit 1
    refine ⟨error, ?_⟩
    unfold rewriteAndExecuteSql
    rw [scalars_eq, fails]
    rfl

theorem exactly_iff (width : Nat) (bytes : Bytes) :
    (∃ n, exactly width bytes = some n) ↔ bytes.length = width := by
  unfold exactly
  by_cases fits : bytes.length = width
  · exact iff_of_true ⟨_, if_pos fits⟩ fits
  · rw [if_neg fits]
    exact iff_of_false nofun fits

theorem readText_iff (bytes : Bytes) :
    (∃ text, readText bytes = some text) ↔ ByteArray.IsValidUTF8 ⟨bytes.toArray⟩ := by
  by_cases valid : ByteArray.IsValidUTF8 ⟨bytes.toArray⟩
  · obtain ⟨text, read, _⟩ := readText_some valid
    exact iff_of_true ⟨text, read⟩ valid
  · rw [readText_none valid]
    exact iff_of_false nofun valid

theorem exists_map_some {α β : Type} {found : Option α} {f : α → β} :
    (∃ y, found.map f = some y) ↔ ∃ x, found = some x := by
  cases found with
  | none => exact iff_of_false nofun nofun
  | some x => exact iff_of_true ⟨f x, rfl⟩ ⟨x, rfl⟩

theorem decodeParameter_iff (pair : Option Bytes × ParamType) :
    (∃ json, decodeParameter pair = some json) ↔ Recordable pair := by
  obtain ⟨value, type⟩ := pair
  cases value with
  | none => exact iff_of_true ⟨none, by cases type <;> rfl⟩ (by cases type <;> trivial)
  | some bytes =>
    cases type with
    | int2 | int4 | int8 | oid => exact exists_map_some.trans (exactly_iff _ bytes)
    | varchar | text | bpchar | name | unknown =>
      exact exists_map_some.trans (readText_iff bytes)
    | float4 | float8 | bool | other => exact iff_of_true ⟨none, rfl⟩ trivial

/-- Decoding gives as many records as there are values with a type. -/
theorem decodeParameters_length {parameters : List (Option Json)}
    (decoded : decodeParameters params (concreteParamTypes declaredTypes) = some parameters) :
    parameters.length = min params.length declaredTypes.length := by
  rw [← typed_length]
  exact (mapM_eq_some.mp decoded).length_eq.symm

/-- Every value is recorded exactly if there are types enough and none is read under a type it
does not fit. -/
theorem capturesAll_iff (entries : List (CapturedQuery String)) :
    CapturesAll params declaredTypes (some entries) ↔
      params.length ≤ declaredTypes.length ∧ ∀ pair ∈ typed params declaredTypes, Recordable pair := by
  have all : (∃ parameters, decodeParameters params (concreteParamTypes declaredTypes) =
      some parameters) ↔ ∀ pair ∈ typed params declaredTypes, Recordable pair := by
    refine mapM_some_iff.trans (forall₂_congr fun pair _ => decodeParameter_iff pair)
  rw [← all]
  constructor
  · intro captures
    obtain ⟨entry, recorded, whole⟩ := (captures entries rfl).2 "" []
    unfold captureSuccessfulQuery captureQuery at recorded
    obtain ⟨parameters, decoded, made⟩ := Option.map_eq_some_iff.mp recorded
    have same := List.append_cancel_left (Option.some.inj made)
    rw [← List.singleton_inj.mp same] at whole
    have count := decodeParameters_length params declaredTypes decoded
    refine ⟨?_, parameters, decoded⟩
    dsimp only at whole
    omega
  · rintro ⟨enough, parameters, decoded⟩ others same
    obtain rfl := Option.some.inj same
    have count := decodeParameters_length params declaredTypes decoded
    have whole : parameters.length = params.length := by omega
    refine ⟨fun query error => ⟨⟨query, parameters, [], false, some (Session.displayError error)⟩,
      ?_, whole⟩,
      fun query results => ⟨⟨query, parameters, results, true, none⟩, ?_, whole⟩⟩
    · unfold captureFailedQuery captureQuery
      rw [decoded]
      rfl
    · unfold captureSuccessfulQuery captureQuery
      rw [decoded]
      rfl

/-- Bound parameters are all bound and all recorded exactly if there are as many types as values
and, where a capture file is configured, none is recorded under a type it does not fit; without
one, too few types do no harm to values that are refused anyway. -/
theorem parameters_lossless_iff (utf8Error : Bytes → String) (capture : CaptureStore String) :
    (BindsAll utf8Error params declaredTypes ∧ CapturesAll params declaredTypes capture) ↔
      (params.length ≤ declaredTypes.length ∨ ∃ pair ∈ typed params declaredTypes, ¬Fits pair) ∧
        (capture ≠ none → params.length ≤ declaredTypes.length ∧
          ∀ pair ∈ typed params declaredTypes, Recordable pair) := by
  refine and_congr (bindsAll_iff params declaredTypes) ?_
  cases capture with
  | none => exact iff_of_true (fun _ other => absurd other.symm nofun) (absurd rfl)
  | some entries =>
    have configured : some entries ≠ none := Option.some_ne_none entries
    rw [capturesAll_iff, forall_prop_of_true configured]

end

/-- A value without a type is left out of the scalars. -/
theorem untyped_dropped : ¬(BindsAll (fun _ => "") [some [49]] [] ∧
    CapturesAll [some [49]] [] none) := by
  rintro ⟨binds, _⟩
  rcases (bindsAll_iff [some [49]] []).mp binds with short | ⟨pair, member, _⟩
  · exact absurd short (by decide)
  · cases member

end PgCatalog.Server
