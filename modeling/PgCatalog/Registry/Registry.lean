import Mathlib.Logic.Function.Basic

/-! The trait every declared catalog object gets its OID through, its errors and
the checked counter arithmetic both implementations share. -/
namespace PgCatalog

/-- The error kinds the modelled code raises, with their texts. -/
inductive DataFusionError where
  | execution (message : String)
  | arrowError (message : String)
  | plan (message : String)
  | configuration (message : String)
  deriving DecidableEq, Repr

abbrev DFResult := Except DataFusionError

@[simp] theorem ok_bind {α β : Type} (a : α) (f : α → DFResult β) :
    (Except.ok a >>= f) = f a := rfl

@[simp] theorem error_bind {α β : Type} (e : DataFusionError) (f : α → DFResult β) :
    ((Except.error e : DFResult α) >>= f) = .error e := rfl

/-- The first OID left to user objects. -/
def FIRST_USER_OID : Int32 := 16384

/-- Rust's `i32::checked_add`. -/
def checkedAdd (a b : Int32) : Option Int32 :=
  let sum := a.toInt + b.toInt
  if Int32.minValue.toInt ≤ sum ∧ sum ≤ Int32.maxValue.toInt then some (Int32.ofInt sum) else none

def advancedOrExhausted (next count : Int32) : DFResult Int32 :=
  match checkedAdd next count with
  | some bumped => .ok bumped
  | none =>
    let limit := Int32.maxValue
    .error (.execution (s!"oid registry exhausted: allocating {count} oid(s) from {next} would pass "
      ++ s!"{limit}; no further objects can be registered against this registry"))

theorem checkedAdd_some {a b c : Int32} (sum : checkedAdd a b = some c) :
    c.toInt = a.toInt + b.toInt ∧ a.toInt + b.toInt ≤ Int32.maxValue.toInt := by
  simp only [checkedAdd, Option.ite_none_right_eq_some, Option.some.injEq] at sum
  obtain ⟨⟨low, high⟩, rfl⟩ := sum
  exact ⟨Int32.toInt_ofInt_of_le low (Int.lt_of_le_of_lt high (by decide)), high⟩

theorem checkedAdd_none {a b : Int32} (overflow : checkedAdd a b = none) (positive : 0 ≤ b.toInt) :
    Int32.maxValue.toInt < a.toInt + b.toInt := by
  simp only [checkedAdd, ite_eq_right_iff, reduceCtorEq, imp_false] at overflow
  have low : Int32.minValue.toInt ≤ a.toInt := Int32.minValue_le_toInt a
  omega

/-- Adding one to a value with room above it is exact. -/
theorem toInt_add_one {a : Int32} (room : a.toInt < Int32.maxValue.toInt) :
    (a + 1).toInt = a.toInt + 1 := by
  have low : Int32.minValue.toInt ≤ a.toInt := Int32.minValue_le_toInt a
  rw [Int32.toInt_add]
  have one : (1 : Int32).toInt = 1 := by decide
  have low' : (-2147483648 : Int) ≤ a.toInt := low
  have high' : a.toInt < 2147483647 := room
  rw [one]
  exact Int.bmod_eq_of_le (by omega) (by omega)

/-- A catalog object the registry numbers, under the key that makes its name unique. -/
inductive CatalogObject where
  | database (name : String)
  | schema (database name : String)
  | relation (database schema name : String)
  deriving DecidableEq, Repr

/-- What a resolution answers: one OID, or a relation's OID and its rowtype's. -/
inductive ObjectOids where
  | single (oid : Int32)
  | relation (relationOid rowtypeOid : Int32)
  deriving DecidableEq, Repr

/-- A shared registry as the state behind `&self`; each call answers and moves on. -/
class CatalogOidRegistry (σ : Type) where
  resolveDatabase : σ → String → DFResult Int32 × σ
  resolveSchema : σ → String → String → DFResult Int32 × σ
  resolveRelation : σ → String → String → String → DFResult (Int32 × Int32) × σ

export CatalogOidRegistry (resolveDatabase resolveSchema resolveRelation)

/-- Any one of the three calls. -/
def resolve {σ : Type} [CatalogOidRegistry σ] (s : σ) : CatalogObject → DFResult ObjectOids × σ
  | .database name => (resolveDatabase s name).map (·.map .single) id
  | .schema database name => (resolveSchema s database name).map (·.map .single) id
  | .relation database schema name =>
    (resolveRelation s database schema name).map (·.map fun oids => .relation oids.1 oids.2) id

end PgCatalog
