import PgCatalog.Library.Allocator
import PgCatalog.Registry.Registry

/-! What a registry is for: a ledger of numbered objects and the next free number,
as an instance of the general allocator. -/
namespace PgCatalog

open Library

namespace CatalogObject

/-- How many numbers the object takes: a relation is numbered with its rowtype. -/
def count : CatalogObject → Int32
  | .relation .. => 2
  | _ => 1

/-- The object's OIDs when its numbers start at `first`. -/
def oids (first : Int32) : CatalogObject → ObjectOids
  | .relation .. => .relation first (first + 1)
  | _ => .single first

def span (object : CatalogObject) : Int := object.count.toInt

theorem span_positive (object : CatalogObject) : 0 < object.span := by
  cases object <;> simp only [span, count] <;> decide

end CatalogObject

namespace ObjectOids

def base : ObjectOids → Int32
  | .single oid => oid
  | .relation oid _ => oid

/-- The answer has the object's kind, and a rowtype follows its relation. -/
def Fits : ObjectOids → CatalogObject → Prop
  | .single _, .database _ => True
  | .single _, .schema _ _ => True
  | .relation oid rowtype, .relation _ _ _ => rowtype.toInt = oid.toInt + 1
  | _, _ => False

end ObjectOids

structure Ledger where
  recorded : CatalogObject → Option ObjectOids
  counter : Int32

namespace Ledger

def resolve (l : Ledger) (object : CatalogObject) : DFResult ObjectOids × Ledger :=
  match l.recorded object with
  | some found => (.ok found, l)
  | none =>
    match advancedOrExhausted l.counter object.count with
    | .ok bumped =>
      let oids := object.oids l.counter
      (.ok oids, ⟨Function.update l.recorded object (some oids), bumped⟩)
    | .error e => (.error e, l)

/-- The ledger as an allocator: only the first number of each span is looked at. -/
def allocator (l : Ledger) : Allocator CatalogObject :=
  ⟨fun object => (l.recorded object).map (·.base.toInt), l.counter.toInt⟩

/-- No number twice, all between the first user OID and the counter, pairs consecutive. -/
structure Sound (l : Ledger) : Prop where
  allocated : l.allocator.Sound CatalogObject.span FIRST_USER_OID.toInt Int32.maxValue.toInt
  fits : ∀ object oids, l.recorded object = some oids → oids.Fits object

theorem resolve_recorded {l : Ledger} {object : CatalogObject} {oids : ObjectOids}
    (seen : l.recorded object = some oids) : l.resolve object = (.ok oids, l) := by
  simp only [resolve, seen]

/-- Everything a resolution does to a ledger. -/
theorem resolve_cases (l : Ledger) (object : CatalogObject) :
    (∃ oids, l.recorded object = some oids ∧ l.resolve object = (.ok oids, l)) ∨
    (l.recorded object = none ∧ ∃ bumped, checkedAdd l.counter object.count = some bumped ∧
      l.resolve object = (.ok (object.oids l.counter),
        ⟨Function.update l.recorded object (some (object.oids l.counter)), bumped⟩)) ∨
    (l.recorded object = none ∧ checkedAdd l.counter object.count = none ∧
      ∃ e, l.resolve object = (.error e, l)) := by
  cases seen : l.recorded object with
  | some oids => exact .inl ⟨oids, rfl, resolve_recorded seen⟩
  | none =>
    cases sum : checkedAdd l.counter object.count with
    | some bumped =>
      exact .inr (.inl ⟨rfl, bumped, rfl, by simp only [resolve, seen, advancedOrExhausted, sum]⟩)
    | none =>
      exact .inr (.inr ⟨rfl, rfl, _, by simp only [resolve, seen, advancedOrExhausted, sum]; rfl⟩)

theorem base_oids (object : CatalogObject) (first : Int32) : (object.oids first).base = first := by
  cases object <;> rfl

/-- A resolution is the allocator's, answer and state. -/
theorem resolve_allocator (l : Ledger) (object : CatalogObject) :
    (l.resolve object).2.allocator =
        (l.allocator.resolve CatalogObject.span Int32.maxValue.toInt object).2 ∧
      (l.resolve object).1.toOption.map (·.base.toInt) =
        (l.allocator.resolve CatalogObject.span Int32.maxValue.toInt object).1 := by
  obtain ⟨oids, seen, eq⟩ | ⟨unseen, bumped, sum, eq⟩ | ⟨unseen, overflow, e, eq⟩ :=
    l.resolve_cases object
  · have recorded : l.allocator.recorded object = some oids.base.toInt := by
      simp only [allocator, seen, Option.map_some]
    rw [eq, Allocator.resolve_recorded recorded]
    exact ⟨rfl, rfl⟩
  · have fresh : l.allocator.recorded object = none := by
      simp only [allocator, unseen, Option.map_none]
    obtain ⟨value, room⟩ := checkedAdd_some sum
    rw [eq, Allocator.resolve_fresh fresh room]
    have first := base_oids object l.counter
    refine ⟨?_, by simp only [Except.toOption, Option.map_some, first, allocator]⟩
    simp only [allocator, value, CatalogObject.span, Allocator.mk.injEq, and_true]
    funext other
    by_cases same : other = object
    · subst same
      simp only [Function.update_self, Option.map_some, first]
    · simp only [Function.update_of_ne same]
  · have fresh : l.allocator.recorded object = none := by
      simp only [allocator, unseen, Option.map_none]
    have positive := object.span_positive
    have full := checkedAdd_none overflow (by simp only [CatalogObject.span] at positive; omega)
    rw [eq, Allocator.resolve_exhausted fresh (Int.not_le.mpr full)]
    exact ⟨rfl, rfl⟩

theorem resolve_sound {l : Ledger} (sound : l.Sound) (object : CatalogObject) :
    (l.resolve object).2.Sound := by
  constructor
  · rw [(l.resolve_allocator object).1]
    exact Allocator.resolve_sound CatalogObject.span_positive sound.allocated object
  · obtain ⟨oids, seen, eq⟩ | ⟨unseen, bumped, sum, eq⟩ | ⟨unseen, overflow, e, eq⟩ :=
      l.resolve_cases object
    · rw [eq]; exact sound.fits
    · rw [eq]
      intro other oids (h : Function.update l.recorded object _ other = some oids)
      by_cases same : other = object
      · subst same
        rw [Function.update_self] at h
        cases h
        cases other with
        | database name => trivial
        | schema database name => trivial
        | relation database schema name =>
          -- two numbers fitted, so the second one is no wrapped value
          obtain ⟨_, room⟩ := checkedAdd_some sum
          have two : ((2 : Int32)).toInt = 2 := by decide
          simp only [CatalogObject.count, two] at room
          exact toInt_add_one (by omega)
      · rw [Function.update_of_ne same] at h
        exact sound.fits other oids h
    · rw [eq]; exact sound.fits

/-- What is recorded stays recorded, under the same numbers. -/
theorem resolve_keeps (l : Ledger) (object other : CatalogObject) {oids : ObjectOids}
    (seen : l.recorded other = some oids) : (l.resolve object).2.recorded other = some oids := by
  obtain ⟨_, _, eq⟩ | ⟨unseen, bumped, sum, eq⟩ | ⟨_, _, _, eq⟩ := l.resolve_cases object
  · rw [eq]; exact seen
  · rw [eq]
    have different : other ≠ object := fun same => by rw [same, unseen] at seen; cases seen
    simpa only [Function.update_of_ne different] using seen
  · rw [eq]; exact seen

/-- An answer is a record: asking again gives it again. -/
theorem resolve_records {l : Ledger} {object : CatalogObject} {oids : ObjectOids}
    (answered : (l.resolve object).1 = .ok oids) :
    (l.resolve object).2.recorded object = some oids := by
  obtain ⟨found, seen, eq⟩ | ⟨_, bumped, _, eq⟩ | ⟨_, _, e, eq⟩ := l.resolve_cases object
  · rw [eq] at answered ⊢
    exact (Except.ok.inj answered) ▸ seen
  · rw [eq] at answered ⊢
    simp only [Function.update_self, Except.ok.inj answered]
  · rw [eq] at answered; cases answered

theorem resolve_error {l : Ledger} {object : CatalogObject} {e : DataFusionError}
    (refused : (l.resolve object).1 = .error e) : (l.resolve object).2 = l := by
  obtain ⟨_, _, eq⟩ | ⟨_, _, _, eq⟩ | ⟨_, _, _, eq⟩ := l.resolve_cases object
  · rw [eq]
  · rw [eq] at refused; cases refused
  · rw [eq]

/-- The counter after a successful call, with no wrap-around: it moves by the
span of a new object and not at all for a recorded one. -/
theorem resolve_counter {l : Ledger} {object : CatalogObject} {oids : ObjectOids}
    (answered : (l.resolve object).1 = .ok oids) :
    (l.resolve object).2.counter.toInt =
      l.counter.toInt + if (l.recorded object).isSome then 0 else object.span := by
  obtain ⟨_, seen, eq⟩ | ⟨unseen, bumped, sum, eq⟩ | ⟨_, _, _, eq⟩ := l.resolve_cases object
  · rw [eq]; simp only [seen, Option.isSome_some, if_true, Int.add_zero]
  · rw [eq]
    simpa only [unseen, Option.isSome_none, Bool.false_eq_true, if_false,
      CatalogObject.span] using (checkedAdd_some sum).1
  · rw [eq] at answered; cases answered

def empty : Ledger := ⟨fun _ => none, FIRST_USER_OID⟩

theorem empty_sound : empty.Sound := by
  refine ⟨⟨?_, ?_, ?_, Int.le_refl _, by decide⟩, ?_⟩
  · intro k o h; cases h
  · intro k o h; cases h
  · intro k l o p h; cases h
  · intro k o h; cases h

end Ledger

end PgCatalog
