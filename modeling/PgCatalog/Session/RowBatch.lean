import PgCatalog.Catalog.Merge
import PgCatalog.Library.Narrowing

/-! Rows of JSON values become the columns of a batch: what each column type makes of each
JSON value, and what makes the conversion fail. -/
namespace PgCatalog.Session

open Library

def double : Format := ⟨53, -1074, 1024, by decide, by decide⟩
def single : Format := ⟨24, -149, 128, by decide, by decide⟩

/-- A JSON number as its parser keeps it; one too wide for the integers is a double. -/
inductive Number where
  | posInt (n : UInt64)
  | negInt (n : Int64) (negative : n.toInt < 0)
  | float (x : ℚ) (exact : double.round x = x) (finite : double.Finite x)

/-- How a double is spelled: in JSON text, and in a message. -/
structure FloatText where
  json : ℚ → String
  display : ℚ → String

inductive Json where
  | null
  | bool (b : Bool)
  | number (n : Number)
  | string (s : String)
  | array (items : List Json)
  | object (entries : List (String × Json))

/-- A row: its columns' values under their names. -/
abbrev JsonRow := List (String × Json)

namespace Number

def value : Number → ℚ
  | .posInt n => n.toNat
  | .negInt n _ => n.toInt
  | .float x _ _ => x

def asI64 : Number → Option Int64
  | .posInt n => i64TryFrom n.toNat
  | .negInt n _ => some n
  | .float .. => none

def asF64 : Number → ℚ
  | .posInt n => double.round n.toNat
  | .negInt n _ => double.round n.toInt
  | .float x _ _ => x

def text (spell : FloatText) : Number → String
  | .posInt n => toString n.toNat
  | .negInt n _ => toString n.toInt
  | .float x _ _ => spell.json x

end Number

namespace Json

mutual

/-- The value as JSON text. -/
def text (spell : FloatText) : Json → String
  | .null => "null"
  | .bool b => toString b
  | .number n => n.text spell
  | .string s => jsonString s
  | .array items => jsonArray (itemTexts spell items)
  | .object entries => "\x7b" ++ ",".intercalate (entryTexts spell entries) ++ "\x7d"

def itemTexts (spell : FloatText) : List Json → List String
  | [] => []
  | item :: rest => item.text spell :: itemTexts spell rest

def entryTexts (spell : FloatText) : List (String × Json) → List String
  | [] => []
  | (key, value) :: rest => (jsonString key ++ ":" ++ value.text spell) :: entryTexts spell rest

end

def asStr : Json → Option String
  | .string s => some s
  | _ => none

def asI64 : Json → Option Int64
  | .number n => n.asI64
  | _ => none

def asF64 : Json → Option ℚ
  | .number n => some n.asF64
  | _ => none

def asBool : Json → Option Bool
  | .bool b => some b
  | _ => none

end Json

section
variable (spell : FloatText)

def jsonValueAsI32 (value : Json) : Option Int32 := value.asI64.bind (i32TryFromInt ·.toInt)

/-- Refuses what narrowing would turn into infinity or, unless it is zero, into zero. -/
def jsonValueAsF32 (value : Json) : DFResult (Option ℚ) :=
  match value.asF64 with
  | none => .ok none
  | some number =>
    let narrowed := single.round number
    if double.Finite number ∧ ¬ single.Finite narrowed then
      .error (.execution (s!"catalog value {spell.display number} is too large for a float4 "
        ++ "column (max magnitude 340282350000000000000000000000000000000)"))
    else if number ≠ 0 ∧ narrowed = 0 then
      .error (.execution (s!"catalog value {spell.display number} is too small for a float4 "
        ++ "column: it narrows to 0"))
    else .ok (some narrowed)

/-- A text array's cell: a bare value is a list of one, its JSON text. -/
def utf8ListCell : Json → Option (List (Option String))
  | .array items => some (items.map (·.asStr))
  | .null => none
  | value => some [some (value.text spell)]

/-- An integer array's cell: a text is read as a vector of numbers. -/
def intListCell {α : Type} (ofJson : Json → Option α) (parse : String → Option α) :
    Json → Option (List (Option α))
  | .array items => some (items.map ofJson)
  | .string text => some ((splitWhitespace text).map parse)
  | _ => none

def int64ListCell : Json → Option (List (Option Int64)) :=
  intListCell (·.asI64) fun part => (parseInt part).bind i64TryFrom

def int32ListCell : Json → Option (List (Option Int32)) :=
  intListCell jsonValueAsI32 fun part => (parseInt part).bind i32TryFromInt

def jsonValuesToArray (dataType : PgCatalog.DataType) (values : List Json) : DFResult ArrayRef :=
  match dataType with
  | .utf8 => .ok ⟨.utf8, values.map (·.asStr)⟩
  | .int32 => .ok ⟨.int32, values.map jsonValueAsI32⟩
  | .int64 => .ok ⟨.int64, values.map (·.asI64)⟩
  | .float32 => do
    let narrowed ← values.mapM (jsonValueAsF32 spell)
    return ⟨.float32, narrowed⟩
  | .float64 => .ok ⟨.float64, values.map (·.asF64)⟩
  | .boolean => .ok ⟨.boolean, values.map (·.asBool)⟩
  | .binary => .ok ⟨.binary, values.map fun v => v.asStr.map (·.toUTF8.toList)⟩
  | .list .utf8 => .ok ⟨.list .utf8, values.map (utf8ListCell spell)⟩
  | .list .int64 => .ok ⟨.list .int64, values.map int64ListCell⟩
  | .list .int32 => .ok ⟨.list .int32, values.map int32ListCell⟩
  | _ => .ok ⟨.utf8, values.map fun v => some (v.text spell)⟩

/-- A column's values, null where a row leaves it out. -/
def columnValues (rows : List JsonRow) (name : String) : List Json :=
  rows.map fun row => (row.lookup name).getD .null

def rowsToRecordBatch (schema : List PgCatalog.Field) (rows : List JsonRow) :
    DFResult PgCatalog.RecordBatch := do
  let arrays ← schema.mapM fun field =>
    jsonValuesToArray spell field.dataType (columnValues rows field.name)
  PgCatalog.RecordBatch.tryNew schema arrays

/-- An optional value that is exactly what satisfies a predicate. -/
def Exactly {α : Type} (p : α → Prop) (found : Option α) : Prop := ∀ x, found = some x ↔ p x

/-- The JSON value is a number, an integer, however it is written. -/
def Json.IsInteger (value : Json) (k : ℤ) : Prop :=
  ∃ n, value = .number n ∧ n.value = (k : ℚ)

/-- The JSON value is an integer written as a double. -/
def Json.IsDouble (value : Json) (k : ℤ) : Prop :=
  ∃ x exact finite, value = .number (.float x exact finite) ∧ x = (k : ℚ)

/-- What a JSON value denotes as a list of texts: its texts, or the one text a bare value is. -/
def DenotesTexts (value : Json) (x : List (Option String)) : Prop :=
  match value with
  | .array items => List.Forall₂ (fun item => Exactly fun text => item = .string text) items x
  | .null => False
  | value => x = [some (value.text spell)]

/-- What a JSON value denotes as a vector of integers, which a text can spell. -/
def DenotesVector {α : Type} (toInt : α → ℤ) (value : Json) (x : List (Option α)) : Prop :=
  match value with
  | .array items => List.Forall₂ (fun item => Exactly fun k => item.IsInteger (toInt k)) items x
  | .string text =>
    List.Forall₂ (fun part => Exactly fun k => parseInt part = some (toInt k))
      (splitWhitespace text) x
  | _ => False

/-- What a JSON value denotes in a column of a type. A JSON number is its number however it is
written; a float column keeps the nearest its type has to the double the number is read as. -/
def Denotes (dataType : PgCatalog.DataType) (value : Json) : dataType.Native → Prop :=
  match dataType with
  | .utf8 => fun x => value = .string x
  | .int32 => fun x => value.IsInteger (Int32.toInt x)
  | .int64 => fun x => value.IsInteger (Int64.toInt x)
  | .float32 => fun x => ∃ n, value = .number n ∧ x = single.round (double.round n.value)
  | .float64 => fun x => ∃ n, value = .number n ∧ x = double.round n.value
  | .boolean => fun x => value = .bool x
  | .binary => fun x => ∃ text : String, value = .string text ∧ x = text.toUTF8.toList
  | .list .utf8 => fun x => DenotesTexts spell value x
  | .list .int32 => fun x => DenotesVector Int32.toInt value x
  | .list .int64 => fun x => DenotesVector Int64.toInt value x
  | _ => fun _ => False

/-- NULL exactly where the value is absent, null or not one of the type, and else the value. -/
structure CellHolds (dataType : PgCatalog.DataType) (found : Option Json)
    (cell : Option dataType.Native) : Prop where
  null : cell = none ↔ found = none ∨ found = some .null ∨
    ∀ x, ¬ Denotes spell dataType (found.getD .null) x
  denoted : ∀ x, cell = some x → Denotes spell dataType (found.getD .null) x

/-- A vector's text spells the integers of an array. -/
def Spells (text : String) (items : List Json) : Prop :=
  List.Forall₂ (fun part (item : Json) => ∃ k, parseInt part = some k ∧ item.IsInteger k)
    (splitWhitespace text) items

/-- The batch is the rows: one row for each, each cell what its row holds. -/
structure Faithful (schema : List PgCatalog.Field) (rows : List JsonRow)
    (batch : PgCatalog.RecordBatch) : Prop where
  declared : batch.schema = schema
  counted : batch.numRows = rows.length
  cells : ∀ (i : ℕ) (row : JsonRow), rows[i]? = some row → ∀ (j : ℕ) (field : PgCatalog.Field), schema[j]? = some field →
    ∃ cell, batch.columns[j]?.map (·.cell i) = some ⟨field.dataType, cell⟩ ∧
      CellHolds spell field.dataType (row.lookup field.name) cell
  vectors : ∀ (j : ℕ) (field : PgCatalog.Field), schema[j]? = some field →
    field.dataType ∈ [.list .int32, .list .int64] →
    ∀ (i i' : ℕ) (row row' : JsonRow) text items, rows[i]? = some row → rows[i']? = some row' →
      row.lookup field.name = some (.string text) → row'.lookup field.name = some (.array items) →
      Spells text items →
      batch.columns[j]?.map (·.cell i) = batch.columns[j]?.map (·.cell i')

/-- A number that a `float4` would hold as infinity, or as zero though it is not. -/
def OutsideFloat4 (value : Json) : Prop :=
  ∃ n, value = .number n ∧
    ((2 : ℚ) ^ 128 - 2 ^ 103 ≤ |n.asF64| ∨ n.asF64 ≠ 0 ∧ |n.asF64| ≤ (2 : ℚ) ^ (-150 : ℤ))

/-- A row holds, for a `float4` column, a number outside its range. -/
def SomeOutside (schema : List PgCatalog.Field) (rows : List JsonRow) : Prop :=
  ∃ field ∈ schema, field.dataType = .float32 ∧
    ∃ value ∈ columnValues rows field.name, OutsideFloat4 value

/-- An integer written as a double, where a column holds integers. -/
def DoubleForInteger (dataType : PgCatalog.DataType) (value : Json) : Prop :=
  match dataType with
  | .int32 => ∃ k : Int32, value.IsDouble k.toInt
  | .int64 => ∃ k : Int64, value.IsDouble k.toInt
  | .list .int32 => ∃ items, value = .array items ∧ ∃ item ∈ items, ∃ k : Int32, item.IsDouble k.toInt
  | .list .int64 => ∃ items, value = .array items ∧ ∃ item ∈ items, ∃ k : Int64, item.IsDouble k.toInt
  | _ => False

/-- The fields of a declared table: a name, a PostgreSQL type name and the nullability each. -/
def declaredFields (columns : List (String × String × Bool)) : List PgCatalog.Field :=
  columns.map fun (name, pgType, nullable) => ⟨name, mapPgType pgType, nullable⟩

/-- The rows become a faithful batch, or a number was outside a `float4`. -/
def RowsKept (schema : List PgCatalog.Field) (rows : List JsonRow) : Prop :=
  match rowsToRecordBatch spell schema rows with
  | .ok batch => Faithful spell schema rows batch
  | .error _ => SomeOutside schema rows

/-- There is a column, none that must not be NULL lacks a value, and no integer column is given
an integer written as a double. -/
def Convertible (schema : List PgCatalog.Field) (rows : List JsonRow) : Prop :=
  schema ≠ [] ∧ ∀ field ∈ schema, ∀ value ∈ columnValues rows field.name,
    (field.nullable = true ∨ ∃ x, Denotes spell field.dataType value x) ∧
      ¬ DoubleForInteger field.dataType value

variable {spell} {value : Json}

theorem i32TryFromInt_exact (n : ℤ) : Exactly (fun k : Int32 => n = k.toInt) (i32TryFromInt n) := by
  intro k
  have low := Int32.minValue_le_toInt k
  have high := Int32.toInt_le k
  unfold i32TryFromInt
  constructor
  · intro h
    split at h
    · next fits =>
      obtain rfl := Option.some.inj h
      exact (Int32.toInt_ofInt_of_le fits.1 (Int.lt_of_le_of_lt fits.2 (by decide))).symm
    · cases h
  · rintro rfl
    rw [if_pos ⟨low, high⟩, Int32.ofInt_toInt]

theorem i64TryFrom_exact (n : ℤ) : Exactly (fun k : Int64 => n = k.toInt) (i64TryFrom n) := by
  intro k
  have low := Int64.minValue_le_toInt k
  have high := Int64.toInt_le k
  unfold i64TryFrom
  constructor
  · intro h
    split at h
    · next fits =>
      obtain rfl := Option.some.inj h
      exact (Int64.toInt_ofInt_of_le fits.1 (Int.lt_of_le_of_lt fits.2 (by decide))).symm
    · cases h
  · rintro rfl
    rw [if_pos ⟨low, high⟩, Int64.ofInt_toInt]

theorem IsDouble.isInteger {k : ℤ} (written : value.IsDouble k) : value.IsInteger k := by
  obtain ⟨x, exact, finite, rfl, eq⟩ := written
  exact ⟨_, rfl, eq⟩

/-- Reading an integer misses exactly the ones written as doubles. -/
theorem asI64_eq_some (k : Int64) :
    value.asI64 = some k ↔ value.IsInteger k.toInt ∧ ¬ value.IsDouble k.toInt := by
  constructor
  · intro h
    cases value with
    | number n =>
      have undouble : ¬ (Json.number n).IsDouble k.toInt := by
        rintro ⟨x, exact, finite, same, -⟩
        obtain rfl := Json.number.inj same
        cases h
      refine ⟨⟨n, rfl, ?_⟩, undouble⟩
      cases n with
      | posInt n =>
        have := (i64TryFrom_exact _ k).mp h
        simp only [Number.value]
        exact_mod_cast this
      | negInt n negative =>
        obtain rfl := Option.some.inj h
        rfl
      | float x exact finite => cases h
    | _ => cases h
  · rintro ⟨⟨n, rfl, eq⟩, undouble⟩
    cases n with
    | posInt n =>
      simp only [Number.value] at eq
      exact (i64TryFrom_exact _ k).mpr (by exact_mod_cast eq)
    | negInt n negative =>
      simp only [Number.value] at eq
      exact congrArg some (Int64.toInt_inj.mp (by exact_mod_cast eq))
    | float x exact finite => exact absurd ⟨x, exact, finite, rfl, eq⟩ undouble

theorem jsonValueAsI32_eq_some (k : Int32) :
    jsonValueAsI32 value = some k ↔ value.IsInteger k.toInt ∧ ¬ value.IsDouble k.toInt := by
  have wide : (Int64.ofInt k.toInt).toInt = k.toInt := by
    have low := k.le_toInt
    have high := k.toInt_lt
    apply Int64.toInt_ofInt_of_le <;> omega
  constructor
  · intro h
    obtain ⟨long, read, narrowed⟩ := Option.bind_eq_some_iff.mp h
    have same := (i32TryFromInt_exact _ k).mp narrowed
    rw [← same]
    exact (asI64_eq_some long).mp read
  · intro h
    rw [← wide] at h
    rw [jsonValueAsI32, (asI64_eq_some _).mpr h, Option.bind_some, wide]
    exact (i32TryFromInt_exact _ k).mpr rfl

theorem exactly_integer {α : Type} {found : Option α} {toInt : α → ℤ}
    (read : ∀ k, found = some k ↔ value.IsInteger (toInt k) ∧ ¬ value.IsDouble (toInt k)) :
    Exactly (fun k => value.IsInteger (toInt k)) found ↔ ¬ ∃ k, value.IsDouble (toInt k) := by
  constructor
  · rintro exactly ⟨k, written⟩
    exact ((read k).mp ((exactly k).mpr (IsDouble.isInteger written))).2 written
  · intro undouble k
    rw [read k]
    exact ⟨And.left, fun h => ⟨h, fun written => undouble ⟨k, written⟩⟩⟩

namespace Number

theorem asF64_eq (n : Number) : n.asF64 = double.round n.value := by
  cases n with
  | posInt n => rfl
  | negInt n negative => rfl
  | float x exact finite => exact exact.symm

/-- Every number the parser keeps is a finite double. -/
theorem finite_asF64 (n : Number) : double.Finite n.asF64 := by
  have wide : ∀ k : ℤ, |k| ≤ 2 ^ 64 → double.Finite (double.round k) := by
    intro k small
    by_contra infinite
    have large := (double.not_finite_round k).mp infinite
    have small : |(k : ℚ)| ≤ 2 ^ 64 := by exact_mod_cast small
    change (2 : ℚ) ^ ((970 + 54 : ℕ) : ℤ) - 2 ^ ((970 : ℕ) : ℤ) ≤ _ at large
    rw [zpow_natCast, zpow_natCast, pow_add] at large
    have passed : (2 : ℚ) ^ 64 ≤ 2 ^ 970 := pow_le_pow_right₀ (by norm_num) (by norm_num)
    generalize (2 : ℚ) ^ 970 = half at large passed
    linarith
  cases n with
  | posInt n =>
    apply wide
    have := n.toNat_lt
    rw [abs_of_nonneg (by positivity)]
    omega
  | negInt n negative =>
    apply wide
    have := n.le_toInt
    rw [abs_of_neg negative]
    omega
  | float x exact finite => exact finite

end Number

theorem narrowed_infinite (q : ℚ) :
    ¬ single.Finite (single.round q) ↔ (2 : ℚ) ^ 128 - 2 ^ 103 ≤ |q| := by
  exact single.not_finite_round q

theorem narrowed_zero (q : ℚ) : single.round q = 0 ↔ |q| ≤ (2 : ℚ) ^ (-150 : ℤ) := by
  exact single.round_eq_zero q

variable (spell) in
theorem jsonValueAsF32_of_inside (inside : ¬ OutsideFloat4 value) :
    jsonValueAsF32 spell value = .ok (value.asF64.map single.round) := by
  cases value with
  | number n =>
    simp only [OutsideFloat4, Json.number.injEq, exists_eq_left', not_or] at inside
    unfold jsonValueAsF32
    simp only [Json.asF64, narrowed_infinite, narrowed_zero, inside.1, inside.2, and_false,
      if_false, Option.map_some]
  | _ => rfl

variable (spell) in
theorem jsonValueAsF32_of_outside (outside : OutsideFloat4 value) :
    ∃ e, jsonValueAsF32 spell value = .error e := by
  obtain ⟨n, rfl, beyond⟩ := outside
  unfold jsonValueAsF32
  simp only [Json.asF64, narrowed_infinite, narrowed_zero, n.finite_asF64, true_and]
  split_ifs with large small
  · exact ⟨_, rfl⟩
  · exact ⟨_, rfl⟩
  · exact absurd beyond (by tauto)

/-- The types a declared column can have, each with an arm of its own. -/
def loadedTypes : List PgCatalog.DataType :=
  [.utf8, .int32, .int64, .float32, .float64, .boolean, .binary, .list .utf8, .list .int64,
    .list .int32]

section
variable (spell)

/-- What the conversion makes of one value, where it does not fail. -/
def jsonCell : (dataType : PgCatalog.DataType) → Json → Option dataType.Native
  | .utf8, value => value.asStr
  | .int32, value => jsonValueAsI32 value
  | .int64, value => value.asI64
  | .float32, value => value.asF64.map single.round
  | .float64, value => value.asF64
  | .boolean, value => value.asBool
  | .binary, value => value.asStr.map (·.toUTF8.toList)
  | .list .utf8, value => utf8ListCell spell value
  | .list .int64, value => int64ListCell value
  | .list .int32, value => int32ListCell value
  | _, _ => none

end

variable {dataType : PgCatalog.DataType} {values : List Json}

variable (spell) in
theorem array_of_inside (loaded : dataType ∈ loadedTypes)
    (inside : dataType = .float32 → ∀ value ∈ values, ¬ OutsideFloat4 value) :
    jsonValuesToArray spell dataType values =
      .ok ⟨dataType, values.map (jsonCell spell dataType)⟩ := by
  simp only [loadedTypes, List.mem_cons, List.not_mem_nil, or_false] at loaded
  obtain rfl | rfl | rfl | rfl | rfl | rfl | rfl | rfl | rfl | rfl := loaded
  case inr.inr.inr.inl =>
    have narrowed := mapM_ok fun value member =>
      jsonValueAsF32_of_inside spell (inside rfl value member)
    simp only [jsonValuesToArray, narrowed]
    rfl
  all_goals rfl

variable (spell) in
theorem array_of_outside (outside : ∃ value ∈ values, OutsideFloat4 value) :
    ∃ e, jsonValuesToArray spell .float32 values = .error e := by
  obtain ⟨value, member, beyond⟩ := outside
  obtain ⟨e, refused⟩ := jsonValueAsF32_of_outside spell beyond
  unfold jsonValuesToArray
  dsimp only
  cases all : values.mapM (jsonValueAsF32 spell) with
  | error e => exact ⟨e, rfl⟩
  | ok narrowed =>
    obtain ⟨x, answered⟩ := mapM_ok_mem all value member
    rw [refused] at answered
    cases answered

theorem forall₂_exactly_map {α β : Type} {p : α → β → Prop} {f : α → Option β} {xs : List α}
    (each : ∀ x ∈ xs, Exactly (p x) (f x)) {ys : List (Option β)} :
    List.Forall₂ (fun x => Exactly (p x)) xs ys ↔ ys = xs.map f := by
  have same : ∀ x ∈ xs, ∀ y, Exactly (p x) y ↔ y = f x := by
    intro x member y
    constructor
    · intro exactly
      apply Option.ext
      intro z
      rw [exactly z, each x member z]
    · rintro rfl
      exact each x member
  induction xs generalizing ys with
  | nil => simp
  | cons x xs ih =>
    have tail : ∀ {ys}, List.Forall₂ (fun x => Exactly (p x)) xs ys ↔ ys = xs.map f :=
      ih (fun z member => each z (List.mem_cons_of_mem _ member))
        fun z member => same z (List.mem_cons_of_mem _ member)
    rw [List.forall₂_cons_left_iff, List.map_cons]
    constructor
    · rintro ⟨y, zs, first, rest, rfl⟩
      rw [(same x List.mem_cons_self y).mp first, tail.mp rest]
    · rintro rfl
      exact ⟨_, _, each x List.mem_cons_self, tail.mpr rfl, rfl⟩

/-- If an element is not read for what it is, the list of what was read is another one. -/
theorem exactly_of_forall₂_map {α β : Type} {p : α → β → Prop} {f : α → Option β} {xs : List α}
    (all : List.Forall₂ (fun x => Exactly (p x)) xs (xs.map f)) :
    ∀ x ∈ xs, Exactly (p x) (f x) := by
  rw [List.forall₂_map_right_iff] at all
  intro x member
  obtain ⟨i, bound, rfl⟩ := List.getElem_of_mem member
  exact (List.forall₂_iff_get.mp all).2 i bound bound

theorem exactly_forall₂ {α β : Type} {p : α → β → Prop} {f : α → Option β} {xs : List α} :
    Exactly (List.Forall₂ (fun x => Exactly (p x)) xs) (some (xs.map f)) ↔
      ∀ x ∈ xs, Exactly (p x) (f x) := by
  constructor
  · intro exactly
    exact exactly_of_forall₂_map ((exactly _).mp rfl)
  · intro each ys
    rw [forall₂_exactly_map each, Option.some_inj]
    exact eq_comm

theorem parsed_exactly {α : Type} {toInt : α → ℤ} {tryFrom : ℤ → Option α}
    (fits : ∀ n, Exactly (fun k => n = toInt k) (tryFrom n)) (part : String) :
    Exactly (fun k => parseInt part = some (toInt k)) ((parseInt part).bind tryFrom) := by
  intro k
  cases parseInt part with
  | none => simp
  | some n => simpa using fits n k

/-- An integer array's cell is right when none of its items is an integer written as a double. -/
theorem intListCell_array {α : Type} {toInt : α → ℤ} {ofJson : Json → Option α}
    {parse : String → Option α} {items : List Json}
    (read : ∀ value k, ofJson value = some k ↔
      value.IsInteger (toInt k) ∧ ¬ value.IsDouble (toInt k)) :
    Exactly (List.Forall₂ (fun item => Exactly fun k => item.IsInteger (toInt k)) items)
      (intListCell ofJson parse (.array items)) ↔
        ¬ ∃ item ∈ items, ∃ k, item.IsDouble (toInt k) := by
  rw [intListCell, exactly_forall₂]
  simp only [not_exists, not_and]
  apply forall₂_congr
  intro item member
  rw [exactly_integer (read item)]
  simp only [not_exists]

theorem intListCell_text {α : Type} {toInt : α → ℤ} {ofJson : Json → Option α}
    {tryFrom : ℤ → Option α} {text : String}
    (fits : ∀ n, Exactly (fun k => n = toInt k) (tryFrom n)) :
    Exactly (List.Forall₂ (fun part => Exactly fun k => parseInt part = some (toInt k))
      (splitWhitespace text))
      (intListCell ofJson (fun part => (parseInt part).bind tryFrom) (.string text)) :=
  exactly_forall₂.mpr fun part _ => parsed_exactly fits part

theorem intListCell_exactly {α : Type} {toInt : α → ℤ} {ofJson : Json → Option α}
    {tryFrom : ℤ → Option α}
    (read : ∀ value k, ofJson value = some k ↔
      value.IsInteger (toInt k) ∧ ¬ value.IsDouble (toInt k))
    (fits : ∀ n, Exactly (fun k => n = toInt k) (tryFrom n)) :
    Exactly (DenotesVector toInt value)
      (intListCell ofJson (fun part => (parseInt part).bind tryFrom) value) ↔
        ¬ ∃ items, value = .array items ∧ ∃ item ∈ items, ∃ k, item.IsDouble (toInt k) := by
  cases value with
  | array items =>
    simp only [Json.array.injEq, exists_eq_left']
    exact intListCell_array read
  | string text => exact iff_of_true (intListCell_text fits) (by simp)
  | _ => exact iff_of_true (fun x => by simp [intListCell, DenotesVector]) (by simp)

theorem utf8ListCell_exactly : Exactly (DenotesTexts spell value) (utf8ListCell spell value) := by
  cases value with
  | array items =>
    apply exactly_forall₂.mpr
    intro item member x
    cases item <;> simp [Json.asStr]
  | _ =>
    intro x
    simp [utf8ListCell, DenotesTexts, eq_comm]

theorem asStr_exactly : Exactly (fun text => value = .string text) value.asStr := by
  intro x
  cases value <;> simp [Json.asStr]

theorem bytes_exactly :
    Exactly (fun x => ∃ text : String, value = .string text ∧ x = text.toUTF8.toList)
      (value.asStr.map (·.toUTF8.toList)) := by
  intro x
  cases value <;> simp [Json.asStr, eq_comm]

theorem asBool_exactly : Exactly (fun b => value = .bool b) value.asBool := by
  intro x
  cases value <;> simp [Json.asBool]

theorem asF64_exactly :
    Exactly (fun x => ∃ n, value = .number n ∧ x = double.round n.value) value.asF64 := by
  intro x
  cases value <;> simp [Json.asF64, Number.asF64_eq, eq_comm]

theorem narrowed_exactly :
    Exactly (fun x => ∃ n, value = .number n ∧ x = single.round (double.round n.value))
      (value.asF64.map single.round) := by
  intro x
  cases value <;> simp [Json.asF64, Number.asF64_eq, eq_comm]

variable (spell) in
/-- A cell is the value its JSON value denotes, unless an integer was written as a double. -/
theorem jsonCell_exactly (loaded : dataType ∈ loadedTypes) :
    Exactly (Denotes spell dataType value) (jsonCell spell dataType value) ↔
      ¬ DoubleForInteger dataType value := by
  simp only [loadedTypes, List.mem_cons, List.not_mem_nil, or_false] at loaded
  obtain rfl | rfl | rfl | rfl | rfl | rfl | rfl | rfl | rfl | rfl := loaded
  · exact iff_of_true asStr_exactly id
  · exact exactly_integer jsonValueAsI32_eq_some
  · exact exactly_integer asI64_eq_some
  · exact iff_of_true narrowed_exactly id
  · exact iff_of_true asF64_exactly id
  · exact iff_of_true asBool_exactly id
  · exact iff_of_true bytes_exactly id
  · exact iff_of_true utf8ListCell_exactly id
  · exact intListCell_exactly (fun _ => asI64_eq_some) i64TryFrom_exact
  · exact intListCell_exactly (fun _ => jsonValueAsI32_eq_some) i32TryFromInt_exact

/-- JSON null denotes nothing in any column. -/
theorem null_denotes_nothing (x : dataType.Native) : ¬ Denotes spell dataType .null x := by
  unfold Denotes
  split <;> simp [Json.IsInteger, DenotesTexts, DenotesVector]

theorem exactly_unique {α : Type} {p : α → Prop} {a b : Option α} (first : Exactly p a)
    (second : Exactly p b) : a = b := by
  apply Option.ext
  intro x
  rw [first x, second x]

theorem forall₂_exactly_unique {α β : Type} {p : α → β → Prop} {xs : List α}
    {ys zs : List (Option β)} (first : List.Forall₂ (fun x => Exactly (p x)) xs ys)
    (second : List.Forall₂ (fun x => Exactly (p x)) xs zs) : ys = zs := by
  induction first generalizing zs with
  | nil => cases second; rfl
  | cons head tail ih =>
    cases second with
    | cons head' tail' => rw [exactly_unique head head', ih tail']

theorem isInteger_unique {a b : ℤ} (first : value.IsInteger a) (second : value.IsInteger b) :
    a = b := by
  obtain ⟨n, rfl, eq⟩ := first
  obtain ⟨n', same, eq'⟩ := second
  obtain rfl := Json.number.inj same
  exact_mod_cast eq.symm.trans eq'

theorem denotesVector_unique {α : Type} {toInt : α → ℤ} {x y : List (Option α)}
    (first : DenotesVector toInt value x) (second : DenotesVector toInt value y) : x = y := by
  cases value with
  | array items => exact forall₂_exactly_unique first second
  | string text => exact forall₂_exactly_unique first second
  | _ => exact first.elim

theorem denotesTexts_unique {x y : List (Option String)} (first : DenotesTexts spell value x)
    (second : DenotesTexts spell value y) : x = y := by
  cases value with
  | array items => exact forall₂_exactly_unique first second
  | null => exact first.elim
  | _ => exact Eq.trans first (Eq.symm second)

/-- A JSON value denotes one value of a type at most. -/
theorem denotes_unique {x y : dataType.Native} (first : Denotes spell dataType value x)
    (second : Denotes spell dataType value y) : x = y := by
  unfold Denotes at first second
  split at first
  · exact Json.string.inj (first.symm.trans second)
  · exact Int32.toInt_inj.mp (isInteger_unique first second)
  · exact Int64.toInt_inj.mp (isInteger_unique first second)
  · obtain ⟨n, rfl, eq⟩ := first
    obtain ⟨n', same, eq'⟩ := second
    rw [eq, eq', Json.number.inj same]
  · obtain ⟨n, rfl, eq⟩ := first
    obtain ⟨n', same, eq'⟩ := second
    rw [eq, eq', Json.number.inj same]
  · exact Json.bool.inj (first.symm.trans second)
  · obtain ⟨text, rfl, eq⟩ := first
    obtain ⟨text', same, eq'⟩ := second
    rw [eq, eq', Json.string.inj same]
  · exact denotesTexts_unique first second
  · exact denotesVector_unique first second
  · exact denotesVector_unique first second
  · exact first.elim

theorem cellHolds_iff {found : Option Json} {cell : Option dataType.Native} :
    CellHolds spell dataType found cell ↔
      Exactly (Denotes spell dataType (found.getD .null)) cell := by
  constructor
  · intro holds x
    constructor
    · exact holds.denoted x
    · intro denotes
      cases kept : cell with
      | some y => rw [denotes_unique denotes (holds.denoted y kept)]
      | none =>
        obtain absent | null | nothing := holds.null.mp kept
        · rw [absent] at denotes
          exact absurd denotes (null_denotes_nothing x)
        · rw [null] at denotes
          exact absurd denotes (null_denotes_nothing x)
        · exact absurd denotes (nothing x)
  · intro exactly
    have nothing : cell = none ↔ ∀ x, ¬ Denotes spell dataType (found.getD .null) x := by
      rw [Option.eq_none_iff_forall_ne_some]
      exact forall_congr' fun x => not_congr (exactly x)
    refine ⟨?_, fun x => (exactly x).mp⟩
    rw [nothing]
    constructor
    · exact fun h => .inr (.inr h)
    · rintro (rfl | rfl | h)
      · exact null_denotes_nothing
      · exact null_denotes_nothing
      · exact h

theorem spelled_transport {α : Type} {toInt : α → ℤ} {parts : List String} {items : List Json}
    (spelled : List.Forall₂ (fun part (item : Json) => ∃ k, parseInt part = some k ∧
      item.IsInteger k) parts items) (x : List (Option α)) :
    List.Forall₂ (fun part => Exactly fun k => parseInt part = some (toInt k)) parts x ↔
      List.Forall₂ (fun item => Exactly fun k => item.IsInteger (toInt k)) items x := by
  induction spelled generalizing x with
  | nil => rw [List.forall₂_nil_left_iff, List.forall₂_nil_left_iff]
  | @cons part item parts items one rest ih =>
    obtain ⟨n, parsed, integer⟩ := one
    have same : ∀ k, parseInt part = some (toInt k) ↔ item.IsInteger (toInt k) := by
      intro k
      rw [parsed, Option.some_inj]
      constructor
      · rintro rfl
        exact integer
      · exact isInteger_unique integer
    simp only [List.forall₂_cons_left_iff, ih, Exactly, same]

/-- A vector's text and the array it spells are one list. -/
theorem jsonCell_spelled (vector : dataType ∈ [.list .int32, .list .int64]) {text : String}
    {items : List Json} (spelled : Spells text items)
    (right : ¬ DoubleForInteger dataType (.array items)) :
    jsonCell spell dataType (.string text) = jsonCell spell dataType (.array items) := by
  have loaded : dataType ∈ loadedTypes := by
    simp only [List.mem_cons, List.not_mem_nil, or_false] at vector
    obtain rfl | rfl := vector <;> decide
  have array := (jsonCell_exactly spell loaded).mpr right
  have vectorText : ¬ DoubleForInteger dataType (.string text) := by
    simp only [List.mem_cons, List.not_mem_nil, or_false] at vector
    obtain rfl | rfl := vector <;> simp [DoubleForInteger]
  have string := (jsonCell_exactly spell loaded).mpr vectorText
  apply exactly_unique string
  simp only [List.mem_cons, List.not_mem_nil, or_false] at vector
  obtain rfl | rfl := vector
  · intro x
    exact (array x).trans (spelled_transport spelled x).symm
  · intro x
    exact (array x).trans (spelled_transport spelled x).symm

section
variable {schema : List PgCatalog.Field} {rows : List JsonRow}
  {made : PgCatalog.Field → ArrayRef} {n : ℕ} {batch : PgCatalog.RecordBatch}

variable (made) in
/-- Columns made for the fields are a batch when there is one and none lacks a value it must
have. -/
theorem tryNew_made (typed : ∀ field, (made field).dataType = field.dataType)
    (sized : ∀ field, (made field).values.length = n) (some_ : schema ≠ [])
    (present : ∀ field ∈ schema, field.nullable = true ∨ ∀ cell ∈ (made field).values, cell.isSome) :
    ∃ batch, PgCatalog.RecordBatch.tryNew schema (schema.map made) = .ok batch := by
  obtain ⟨first, rest, rfl⟩ := List.exists_cons_of_ne_nil some_
  have types : ((first :: rest).map made).map (·.dataType) = (first :: rest).map (·.dataType) := by
    simp [typed]
  have sizes : ∀ array ∈ (first :: rest).map made,
      array.values.length = (made first).values.length := by
    simp [sized]
  unfold PgCatalog.RecordBatch.tryNew
  simp only [List.map_cons] at types sizes ⊢
  rw [dif_pos types, dif_pos sizes, if_pos]
  · exact ⟨_, rfl⟩
  · rw [← List.map_cons, List.zip_map_right, List.all_map, List.all_eq_true]
    rintro ⟨field, twin⟩ member
    obtain ⟨i, bound, at_⟩ := List.getElem_of_mem member
    have : twin = field := by
      simp only [List.getElem_zip, Prod.mk.injEq] at at_
      exact at_.2.symm.trans at_.1
    obtain rfl := this
    have := present twin (List.of_mem_zip member).1
    simpa [List.all_eq_true, Option.isSome_iff_exists] using this

theorem tryNew_inv {columns : List ArrayRef}
    (built : PgCatalog.RecordBatch.tryNew schema columns = .ok batch) :
    columns ≠ [] ∧ batch.schema = schema ∧ batch.columns = columns ∧
      ∀ pair ∈ schema.zip columns, pair.1.nullable = true ∨
        ∀ cell ∈ pair.2.values, cell.isSome := by
  unfold PgCatalog.RecordBatch.tryNew at built
  split at built
  · cases built
  · split at built
    · split at built
      · split at built
        · next filled =>
          obtain rfl := Except.ok.inj built
          refine ⟨List.cons_ne_nil _ _, rfl, rfl, fun pair member => ?_⟩
          have := List.all_eq_true.mp filled pair member
          simpa [List.all_eq_true] using this
        · cases built
      · cases built
    · cases built

/-- The array of a field, where no number is outside a `float4`. -/
def arrayOf (spell : FloatText) (rows : List JsonRow) (field : PgCatalog.Field) : ArrayRef :=
  ⟨field.dataType, (columnValues rows field.name).map (jsonCell spell field.dataType)⟩

theorem rowsToRecordBatch_of_inside (loaded : ∀ field ∈ schema, field.dataType ∈ loadedTypes)
    (inside : ¬ SomeOutside schema rows) :
    rowsToRecordBatch spell schema rows =
      PgCatalog.RecordBatch.tryNew schema (schema.map (arrayOf spell rows)) := by
  have arrays := mapM_ok (g := arrayOf spell rows) fun field member =>
    array_of_inside spell (loaded field member) fun float value held outside =>
      inside ⟨field, member, float, value, held, outside⟩
  rw [rowsToRecordBatch, arrays]
  rfl

variable (spell) in
theorem rowsToRecordBatch_of_outside (outside : SomeOutside schema rows) :
    ∃ e, rowsToRecordBatch spell schema rows = .error e := by
  obtain ⟨field, member, float, held⟩ := outside
  obtain ⟨e, refused⟩ := array_of_outside spell held
  unfold rowsToRecordBatch
  cases all : schema.mapM fun field =>
      jsonValuesToArray spell field.dataType (columnValues rows field.name) with
  | error e => exact ⟨e, rfl⟩
  | ok arrays =>
    obtain ⟨array, answered⟩ := mapM_ok_mem all field member
    rw [float, refused] at answered
    cases answered

theorem column_cell (columns : batch.columns = schema.map (arrayOf spell rows)) {i j : ℕ}
    {row : JsonRow} {field : PgCatalog.Field} (here : rows[i]? = some row)
    (under : schema[j]? = some field) :
    batch.columns[j]?.map (·.cell i) = some ⟨field.dataType,
      jsonCell spell field.dataType ((row.lookup field.name).getD .null)⟩ := by
  simp [columns, under, arrayOf, columnValues, ArrayRef.cell, here, List.getD_eq_getElem?_getD]

theorem arrayOf_length (rows : List JsonRow) (field : PgCatalog.Field) :
    (arrayOf spell rows field).values.length = rows.length := by
  simp [arrayOf, columnValues]

/-- A field's values are among its schema's columns' values. -/
theorem arrayOf_mem_zip {field : PgCatalog.Field} (member : field ∈ schema) :
    (field, arrayOf spell rows field) ∈ schema.zip (schema.map (arrayOf spell rows)) := by
  rw [List.zip_map_right, List.mem_map]
  refine ⟨(field, field), ?_, rfl⟩
  obtain ⟨i, bound, rfl⟩ := List.getElem_of_mem member
  apply List.mem_iff_getElem.mpr
  exact ⟨i, by simpa using bound, by simp⟩

/-- Of a batch that was built, the rows are kept exactly when no integer column was given an
integer written as a double. -/
theorem faithful_iff (loaded : ∀ field ∈ schema, field.dataType ∈ loadedTypes)
    (built : PgCatalog.RecordBatch.tryNew schema (schema.map (arrayOf spell rows)) = .ok batch) :
    Faithful spell schema rows batch ↔ ∀ field ∈ schema, ∀ value ∈ columnValues rows field.name,
      ¬ DoubleForInteger field.dataType value := by
  obtain ⟨some_, declared, columns, -⟩ := tryNew_inv built
  constructor
  · intro faithful field member value held
    obtain ⟨j, under, rfl⟩ := List.getElem_of_mem member
    obtain ⟨row, inside, rfl⟩ := List.mem_map.mp held
    obtain ⟨i, bound, rfl⟩ := List.getElem_of_mem inside
    have here := List.getElem?_eq_getElem bound
    have named := List.getElem?_eq_getElem under
    obtain ⟨cell, same, holds⟩ := faithful.cells i _ here j _ named
    rw [column_cell columns here named, Option.some_inj, Cell.mk.injEq] at same
    obtain rfl := eq_of_heq same.2
    exact (jsonCell_exactly spell (loaded _ member)).mp (cellHolds_iff.mp holds)
  · intro right
    have value_mem : ∀ {i : ℕ} {row : JsonRow} (name : String), rows[i]? = some row →
        (row.lookup name).getD .null ∈ columnValues rows name := fun name here =>
      List.mem_map.mpr ⟨_, List.mem_of_getElem? here, rfl⟩
    refine ⟨declared, ?_, ?_, ?_⟩
    · obtain ⟨field, member⟩ := List.exists_mem_of_ne_nil schema (by simpa using some_)
      have array := batch.sized (arrayOf spell rows field) (by
        rw [columns]
        exact List.mem_map_of_mem member)
      rw [← array, arrayOf_length]
    · intro i row here j field under
      have member := List.mem_of_getElem? under
      refine ⟨_, column_cell columns here under, cellHolds_iff.mpr ?_⟩
      exact (jsonCell_exactly spell (loaded _ member)).mpr (right _ member _ (value_mem _ here))
    · intro j field under vector i i' row row' text items here there string array spelled
      have member := List.mem_of_getElem? under
      have notDouble := right _ member _ (value_mem field.name there)
      rw [array] at notDouble
      rw [column_cell columns here under, column_cell columns there under, string, array]
      simp only [Option.getD_some]
      rw [jsonCell_spelled vector spelled notDouble]

theorem declared_loaded (columns : List (String × String × Bool)) :
    ∀ field ∈ declaredFields columns, field.dataType ∈ loadedTypes := by
  intro field member
  obtain ⟨column, -, rfl⟩ := List.mem_map.mp member
  exact mapPgType_loads column.2.1

end

/-- Rows are kept exactly when a `float4` was given a number outside its range, which is the
failure that is meant, or the columns can take what the rows hold. -/
theorem rows_kept_iff (spell : FloatText) (columns : List (String × String × Bool))
    (rows : List JsonRow) :
    RowsKept spell (declaredFields columns) rows ↔
      SomeOutside (declaredFields columns) rows ∨
        Convertible spell (declaredFields columns) rows := by
  have loaded := declared_loaded columns
  generalize declaredFields columns = schema at loaded
  by_cases outside : SomeOutside schema rows
  · obtain ⟨e, refused⟩ := rowsToRecordBatch_of_outside spell outside
    simp [RowsKept, refused, outside]
  · rw [RowsKept, rowsToRecordBatch_of_inside loaded outside, or_iff_right outside]
    cases built : PgCatalog.RecordBatch.tryNew schema (schema.map (arrayOf spell rows)) with
    | error e =>
      simp only [outside, false_iff]
      rintro ⟨some_, taken⟩
      obtain ⟨batch, made⟩ := tryNew_made (arrayOf spell rows)
        (fun _ => rfl) (arrayOf_length rows) some_ (by
          intro field member
          by_cases nullable : field.nullable = true
          · exact .inl nullable
          · right
            intro cell inside
            obtain ⟨value, held, rfl⟩ := List.mem_map.mp inside
            obtain ⟨either, notDouble⟩ := taken field member value held
            obtain ⟨x, denotes⟩ := either.resolve_left nullable
            rw [((jsonCell_exactly spell (loaded _ member)).mpr notDouble x).mpr denotes]
            rfl)
      rw [made] at built
      cases built
    | ok batch =>
      obtain ⟨some_, -, -, present⟩ := tryNew_inv built
      simp only [faithful_iff loaded built]
      constructor
      · intro right
        refine ⟨by simpa using some_, fun field member value held => ?_⟩
        have notDouble := right field member value held
        refine ⟨?_, notDouble⟩
        apply (present _ (arrayOf_mem_zip member)).imp_right
        intro filled
        obtain ⟨x, found⟩ := Option.isSome_iff_exists.mp (filled _ (List.mem_map_of_mem held))
        exact ⟨x, ((jsonCell_exactly spell (loaded _ member)).mpr notDouble x).mp found⟩
      · exact fun taken field member value held => (taken.2 field member value held).2

/-- A table declared without columns fails though it holds no number at all. -/
theorem no_columns_fail :
    ¬ ∀ (spell : FloatText) (columns : List (String × String × Bool)) (rows : List JsonRow),
      RowsKept spell (declaredFields columns) rows := by
  intro kept
  obtain ⟨field, member, -⟩ := kept ⟨fun _ => "", fun _ => ""⟩ [] [[]]
  cases member

end
end PgCatalog.Session
