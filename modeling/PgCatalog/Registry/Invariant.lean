import PgCatalog.Registry.Lawful

/-! The registry's promise over whole runs: no number twice, no number reused, and
nothing recorded by a call that was refused. -/
namespace PgCatalog

open Library

/-- One place of the three maps that holds an OID. -/
inductive OidSlot where
  | database (name : String)
  | schema (database name : String)
  | relation (database schema name : String)
  | rowtype (database schema name : String)
  deriving DecidableEq, Repr

namespace OidSlot

def object : OidSlot → CatalogObject
  | .database n => .database n
  | .schema d n => .schema d n
  | .relation d s n => .relation d s n
  | .rowtype d s n => .relation d s n

def databaseName : OidSlot → String
  | .database n => n
  | .schema d _ => d
  | .relation d _ _ => d
  | .rowtype d _ _ => d

/-- The slot's number among those of its object. -/
def offset : OidSlot → Int
  | .rowtype _ _ _ => 1
  | _ => 0

def pick : OidSlot → ObjectOids → Int32
  | .rowtype _ _ _, .relation _ second => second
  | _, oids => oids.base

theorem offset_low (slot : OidSlot) : 0 ≤ slot.offset := by
  cases slot <;> simp only [offset] <;> decide

theorem offset_high (slot : OidSlot) : slot.offset < slot.object.span := by
  cases slot <;> simp only [offset, object, CatalogObject.span, CatalogObject.count] <;> decide

theorem pick_toInt {slot : OidSlot} {oids : ObjectOids} (fits : oids.Fits slot.object) :
    (slot.pick oids).toInt = oids.base.toInt + slot.offset := by
  cases slot <;> cases oids <;>
    simp_all only [object, ObjectOids.Fits, pick, offset, ObjectOids.base, Int.add_zero]

theorem same_object {a b : OidSlot} (object : a.object = b.object) (offset : a.offset = b.offset) :
    a = b := by
  cases a <;> cases b <;> simp_all [OidSlot.object, OidSlot.offset]

end OidSlot

/-- The OID a slot holds, if any. -/
def Ledger.oidAt (l : Ledger) (slot : OidSlot) : Option Int32 :=
  (l.recorded slot.object).map slot.pick

/-- What holds of the three maps and the counter after every step. -/
structure OidInvariant (l : Ledger) : Prop where
  distinct : ∀ a b o, l.oidAt a = some o → l.oidAt b = some o → a = b
  bounded : ∀ a o, l.oidAt a = some o →
    FIRST_USER_OID.toInt ≤ o.toInt ∧ o.toInt < l.counter.toInt
  consecutive : ∀ database schema name oids,
    l.recorded (.relation database schema name) = some oids →
    ∃ o : Int32, oids = .relation o (o + 1) ∧ (o + 1).toInt = o.toInt + 1

theorem Ledger.Sound.oidInvariant {l : Ledger} (sound : l.Sound) : OidInvariant l := by
  have base : ∀ object oids, l.recorded object = some oids →
      l.allocator.recorded object = some oids.base.toInt := by
    intro object oids seen
    simp only [Ledger.allocator, seen, Option.map_some]
  constructor
  · intro a b o ha hb
    obtain ⟨oa, sa, rfl⟩ := Option.map_eq_some_iff.mp ha
    obtain ⟨ob, sb, same⟩ := Option.map_eq_some_iff.mp hb
    have va := OidSlot.pick_toInt (sound.fits _ _ sa)
    have vb := OidSlot.pick_toInt (sound.fits _ _ sb)
    rw [same] at vb
    by_cases object : a.object = b.object
    · have equal : oa = ob := Option.some.inj (sa.symm.trans (object ▸ sb))
      subst equal
      exact OidSlot.same_object object (by omega)
    · have apart := sound.allocated.distinct (base _ _ sa) (base _ _ sb) object
        a.offset_low a.offset_high b.offset_low b.offset_high
      omega
  · intro a o ha
    obtain ⟨oa, sa, rfl⟩ := Option.map_eq_some_iff.mp ha
    have value := OidSlot.pick_toInt (sound.fits _ _ sa)
    have above := sound.allocated.above _ _ (base _ _ sa)
    have below : oa.base.toInt + a.object.span ≤ l.counter.toInt :=
      sound.allocated.below _ _ (base _ _ sa)
    have low := a.offset_low
    have high := a.offset_high
    omega
  · intro database schema name oids seen
    have fits := sound.fits _ _ seen
    cases oids with
    | single oid => exact fits.elim
    | relation oid rowtype =>
      have next : rowtype.toInt = oid.toInt + 1 := fits
      have below : oid.toInt + 2 ≤ l.counter.toInt :=
        sound.allocated.below _ _ (base _ _ seen)
      have room := sound.allocated.room
      have exact_sum := toInt_add_one (a := oid)
        (Int.lt_of_lt_of_le (by omega : oid.toInt < l.counter.toInt) room)
      have same : rowtype = oid + 1 := Int32.toInt_inj.mp (next.trans exact_sum.symm)
      exact ⟨oid, by rw [same], exact_sum⟩

/-- The invariant after every step, with what each step may do. -/
structure RegistryGuarantee {σ : Type} [CatalogOidRegistry σ] [LawfulRegistry σ] (start : σ) :
    Prop where
  invariant : ∀ calls, OidInvariant (ledger (run resolve start calls))
  /-- Every addition to the counter is exact: it never passes `i32::MAX`. -/
  advances : ∀ calls object oids, (resolve (run resolve start calls) object).1 = .ok oids →
    (ledger (resolve (run resolve start calls) object).2).counter.toInt =
      (ledger (run resolve start calls)).counter.toInt +
        if ((ledger (run resolve start calls)).recorded object).isSome then 0 else object.span
  stable : ∀ before object oids, (resolve (run resolve start before) object).1 = .ok oids →
    ∀ after, (resolve (run resolve start (before ++ object :: after)) object).1 = .ok oids
  refused : ∀ calls object e, (resolve (run resolve start calls) object).1 = .error e →
    (resolve (run resolve start calls) object).2 = run resolve start calls

theorem lawful_guarantee {σ : Type} [CatalogOidRegistry σ] [LawfulRegistry σ] {start : σ}
    (valid : Valid start) : RegistryGuarantee start := by
  constructor
  · intro calls
    exact (LawfulRegistry.valid_sound _ (run_valid valid calls)).oidInvariant
  · intro calls object oids answered
    have reached := run_valid valid calls
    rw [answer_eq reached] at answered
    rw [ledger_eq reached]
    exact Ledger.resolve_counter answered
  · intro before object oids answered after
    have reached := run_valid valid before
    have moved := LawfulRegistry.valid_resolve _ object reached
    have recorded : (ledger (resolve (run resolve start before) object).2).recorded object =
        some oids := by
      rw [ledger_eq reached]
      exact Ledger.resolve_records (answer_eq reached object ▸ answered)
    have kept := run_keeps moved recorded after
    rw [run_append, run_cons, answer_eq (run_valid moved after),
      Ledger.resolve_recorded kept]
  · intro calls object e refused
    exact LawfulRegistry.refused_unchanged _ object e (run_valid valid calls) refused

theorem new_valid : Valid InMemoryRegistryState.new := by
  have blank : InMemoryRegistryState.new.ledger = Ledger.empty := by
    refine congrArg₂ Ledger.mk ?_ rfl
    funext object
    cases object <;> rfl
  change InMemoryRegistryState.new.ledger.Sound
  rw [blank]
  exact Ledger.empty_sound

/-- Both registries keep the promise from an empty start: the in-memory one, and
the one opened on a file that does not exist yet. -/
theorem oid_registry_invariant :
    RegistryGuarantee InMemoryRegistryState.new ∧
      RegistryGuarantee (RedbCatalogOidRegistry.openFile (RedbFile.counting none)) := by
  refine ⟨lawful_guarantee new_valid, ?_⟩
  rw [open_counting]
  exact lawful_guarantee ⟨InMemoryRegistryState.new, rfl, new_valid⟩

end PgCatalog
