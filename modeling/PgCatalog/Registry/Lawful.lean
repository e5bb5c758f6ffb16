import PgCatalog.Registry.Equivalence
import PgCatalog.Registry.Ledger

/-! Both registries keep a ledger: the in-memory maps are read as one, and the file
is read through the in-memory state it mirrors. -/
namespace PgCatalog

open Library

/-- A registry that keeps a ledger: each call is the ledger's, and a call that only
reads a record or is refused leaves the registry itself as it was. -/
class LawfulRegistry (σ : Type) [CatalogOidRegistry σ] where
  Valid : σ → Prop
  ledger : σ → Ledger
  valid_sound : ∀ s, Valid s → (ledger s).Sound
  valid_resolve : ∀ s object, Valid s → Valid (resolve s object).2
  ledger_resolve : ∀ s object, Valid s →
    (resolve s object).map id ledger = (ledger s).resolve object
  recorded_unchanged : ∀ s object oids, Valid s → (ledger s).recorded object = some oids →
    (resolve s object).2 = s
  refused_unchanged : ∀ s object e, Valid s → (resolve s object).1 = .error e →
    (resolve s object).2 = s

export LawfulRegistry (Valid ledger)

section
variable {σ : Type} [CatalogOidRegistry σ] [LawfulRegistry σ]

theorem answer_eq {s : σ} (valid : Valid s) (object : CatalogObject) :
    (resolve s object).1 = ((ledger s).resolve object).1 := by
  rw [← LawfulRegistry.ledger_resolve s object valid]
  rfl

theorem ledger_eq {s : σ} (valid : Valid s) (object : CatalogObject) :
    ledger (resolve s object).2 = ((ledger s).resolve object).2 := by
  rw [← LawfulRegistry.ledger_resolve s object valid]
  rfl

theorem run_valid {s : σ} (valid : Valid s) (calls : List CatalogObject) :
    Valid (run resolve s calls) :=
  run_invariant resolve Valid (fun s object => LawfulRegistry.valid_resolve s object) valid calls

theorem run_keeps {s : σ} (valid : Valid s) {object : CatalogObject} {oids : ObjectOids}
    (seen : (ledger s).recorded object = some oids) (calls : List CatalogObject) :
    (ledger (run resolve s calls)).recorded object = some oids := by
  refine (run_invariant resolve
    (fun s => Valid s ∧ (ledger s).recorded object = some oids) ?_ ⟨valid, seen⟩ calls).2
  intro s other ⟨valid, seen⟩
  exact ⟨LawfulRegistry.valid_resolve s other valid,
    ledger_eq valid other ▸ (ledger s).resolve_keeps other object seen⟩

end

namespace InMemoryRegistryState

def recorded (s : InMemoryRegistryState) : CatalogObject → Option ObjectOids
  | .database name => (s.databases name).map .single
  | .schema database name => (s.schemas (database, name)).map .single
  | .relation database schema name =>
    (s.relations (database, schema, name)).map fun oids => .relation oids.1 oids.2

def ledger (s : InMemoryRegistryState) : Ledger := ⟨s.recorded, s.counter⟩

/-- A shared body is the ledger's step, for a map that holds the object's record. -/
theorem getOrAllocate_ledger {V : Type} (s : InMemoryRegistryState) (object : CatalogObject)
    (found : Option V) (oids : Int32 → V) (wrap : V → ObjectOids)
    (insert : InMemoryRegistryState → V → InMemoryRegistryState)
    (reads : s.recorded object = found.map wrap)
    (made : ∀ first, wrap (oids first) = object.oids first)
    (writes : ∀ nextOid v, (insert { s with nextOid } v).ledger =
      ⟨Function.update s.recorded object (some (wrap v)), nextOid.getD FIRST_USER_OID⟩) :
    (s.getOrAllocate found object.count oids insert).map (·.map wrap) ledger =
      s.ledger.resolve object := by
  have reads' : s.ledger.recorded object = found.map wrap := reads
  cases found with
  | some v =>
    rw [Ledger.resolve_recorded reads']
    rfl
  | none =>
    have unseen : s.ledger.recorded object = none := reads'
    simp only [getOrAllocate, Ledger.resolve, unseen]
    obtain ⟨bumped, sum, eq⟩ | ⟨e, overflow, eq⟩ := s.allocate_cases object.count
    · have counted : checkedAdd s.ledger.counter object.count = some bumped := sum
      simp only [eq, advancedOrExhausted, counted, Prod.map, Except.map, made, writes,
        Option.getD_some]
      rfl
    · have refused : checkedAdd s.counter object.count = none := overflow
      have answer : advancedOrExhausted s.ledger.counter object.count = .error e := by
        have same := congrArg Prod.fst eq
        simp only [allocate, ← counter.eq_1] at same
        cases h : advancedOrExhausted s.counter object.count with
        | ok b => simp only [h] at same; cases same
        | error e' => simp only [h] at same; cases same; exact h
      simp only [eq, answer]
      rfl

theorem update_recorded (s : InMemoryRegistryState) (object : CatalogObject)
    (t : InMemoryRegistryState) (oids : ObjectOids) (here : t.recorded object = some oids)
    (elsewhere : ∀ other, other ≠ object → t.recorded other = s.recorded other) :
    t.recorded = Function.update s.recorded object (some oids) := by
  funext other
  by_cases same : other = object
  · subst same
    rw [here, Function.update_self]
  · rw [elsewhere other same, Function.update_of_ne same]

theorem resolve_ledger (s : InMemoryRegistryState) (object : CatalogObject) :
    (PgCatalog.resolve s object).map id ledger = s.ledger.resolve object := by
  cases object with
  | database name =>
    refine Eq.trans ?_ (getOrAllocate_ledger s (.database name) (s.databases name) id .single
      (insertDatabase name) rfl (fun _ => rfl) ?_)
    · rfl
    · intro nextOid oid
      refine congrArg (Ledger.mk · _) (update_recorded s _ _ _ ?_ ?_)
      · simp only [recorded, insertDatabase, Function.update_self, Option.map_some]
      · intro other different
        cases other with
        | database other =>
          have : other ≠ name := fun same => different (congrArg CatalogObject.database same)
          simp only [recorded, insertDatabase, Function.update_of_ne this]
        | schema _ _ => rfl
        | relation _ _ _ => rfl
  | schema database name =>
    refine Eq.trans ?_ (getOrAllocate_ledger s (.schema database name) (s.schemas (database, name))
      id .single (insertSchema (database, name)) rfl (fun _ => rfl) ?_)
    · rfl
    · intro nextOid oid
      refine congrArg (Ledger.mk · _) (update_recorded s _ _ _ ?_ ?_)
      · simp only [recorded, insertSchema, Function.update_self, Option.map_some]
      · intro other different
        cases other with
        | database _ => rfl
        | schema database' name' =>
          have : (database', name') ≠ (database, name) := by
            intro same
            cases same
            exact different rfl
          simp only [recorded, insertSchema, Function.update_of_ne this]
        | relation _ _ _ => rfl
  | relation database schema name =>
    refine Eq.trans ?_ (getOrAllocate_ledger s (.relation database schema name)
      (s.relations (database, schema, name)) (fun oid => (oid, oid + 1))
      (fun oids => .relation oids.1 oids.2) (insertRelation (database, schema, name)) rfl
      (fun _ => rfl) ?_)
    · rfl
    · intro nextOid oids
      refine congrArg (Ledger.mk · _) (update_recorded s _ _ _ ?_ ?_)
      · simp only [recorded, insertRelation, Function.update_self, Option.map_some]
      · intro other different
        cases other with
        | database _ => rfl
        | schema _ _ => rfl
        | relation database' schema' name' =>
          have : (database', schema', name') ≠ (database, schema, name) := by
            intro same
            cases same
            exact different rfl
          simp only [recorded, insertRelation, Function.update_of_ne this]

theorem resolve_unchanged (s : InMemoryRegistryState) (object : CatalogObject) (oids : ObjectOids)
    (seen : s.recorded object = some oids) : (PgCatalog.resolve s object).2 = s := by
  cases object with
  | database name =>
    obtain ⟨oid, found, _⟩ := Option.map_eq_some_iff.mp seen
    simp only [PgCatalog.resolve, resolveDatabase, found, getOrAllocate, Prod.map, id]
  | schema database name =>
    obtain ⟨oid, found, _⟩ := Option.map_eq_some_iff.mp seen
    simp only [PgCatalog.resolve, resolveSchema, found, getOrAllocate, Prod.map, id]
  | relation database schema name =>
    obtain ⟨pair, found, _⟩ := Option.map_eq_some_iff.mp seen
    simp only [PgCatalog.resolve, resolveRelation, found, getOrAllocate, Prod.map, id]

theorem getOrAllocate_refused {V : Type} {s : InMemoryRegistryState} {found : Option V}
    {count : Int32} {oids : Int32 → V}
    {insert : InMemoryRegistryState → V → InMemoryRegistryState} {e : DataFusionError}
    (refused : (s.getOrAllocate found count oids insert).1 = .error e) :
    (s.getOrAllocate found count oids insert).2 = s := by
  cases found with
  | some v => rfl
  | none =>
    obtain ⟨bumped, _, eq⟩ | ⟨_, _, eq⟩ := s.allocate_cases count
    · simp only [getOrAllocate, eq] at refused
      cases refused
    · simp only [getOrAllocate, eq]

theorem resolve_refused (s : InMemoryRegistryState) (object : CatalogObject) (e : DataFusionError)
    (refused : (PgCatalog.resolve s object).1 = .error e) :
    (PgCatalog.resolve s object).2 = s := by
  have mapped : ∀ {V : Type} {x : DFResult V} {wrap : V → ObjectOids},
      x.map wrap = .error e → x = .error e := by
    intro V x wrap h
    cases x with
    | ok v => cases h
    | error e' => cases h; rfl
  cases object with
  | database name => exact getOrAllocate_refused (mapped refused)
  | schema database name => exact getOrAllocate_refused (mapped refused)
  | relation database schema name => exact getOrAllocate_refused (mapped refused)

end InMemoryRegistryState

instance : LawfulRegistry InMemoryRegistryState where
  Valid s := s.ledger.Sound
  ledger := InMemoryRegistryState.ledger
  valid_sound _ valid := valid
  valid_resolve s object valid := by
    have step : (resolve s object).2.ledger = (s.ledger.resolve object).2 :=
      congrArg Prod.snd (s.resolve_ledger object)
    rw [step]
    exact Ledger.resolve_sound valid object
  ledger_resolve s object _ := s.resolve_ledger object
  recorded_unchanged s object oids _ seen := s.resolve_unchanged object oids seen
  refused_unchanged s object e _ refused := s.resolve_refused object e refused

namespace RedbCatalogOidRegistry

def recorded (r : RedbCatalogOidRegistry) : CatalogObject → Option ObjectOids
  | .database name => (r.store.databases.bind (· name)).map .single
  | .schema database name => (r.store.schemas.bind (· (database, name))).map .single
  | .relation database schema name =>
    (r.store.relations.bind (· (database, schema, name))).map fun oids => .relation oids.1 oids.2

def counter (r : RedbCatalogOidRegistry) : Int32 :=
  (r.store.allocator.bind (· NEXT_OID_KEY)).getD FIRST_USER_OID

def ledger (r : RedbCatalogOidRegistry) : Ledger := ⟨r.recorded, r.counter⟩

theorem ledger_toRedb (s : InMemoryRegistryState) : s.toRedb.ledger = s.ledger := by
  refine congrArg₂ Ledger.mk ?_ rfl
  funext object
  cases object <;> rfl

end RedbCatalogOidRegistry

open RedbCatalogOidRegistry in
/-- An opened file holds what some valid in-memory state holds, and stays so. -/
instance : LawfulRegistry RedbCatalogOidRegistry where
  Valid r := ∃ s : InMemoryRegistryState, r = s.toRedb ∧ Valid s
  ledger := RedbCatalogOidRegistry.ledger
  valid_sound := by
    rintro _ ⟨s, rfl, valid⟩
    rw [ledger_toRedb]
    exact valid
  valid_resolve := by
    rintro _ object ⟨s, rfl, valid⟩
    refine ⟨(resolve s object).2, by rw [resolve_toRedb]; rfl, ?_⟩
    exact LawfulRegistry.valid_resolve s object valid
  ledger_resolve := by
    rintro _ object ⟨s, rfl, _⟩
    rw [resolve_toRedb, ledger_toRedb, ← s.resolve_ledger object]
    exact congrArg (Prod.mk _) (ledger_toRedb _)
  recorded_unchanged := by
    rintro _ object oids ⟨s, rfl, _⟩ seen
    rw [ledger_toRedb] at seen
    rw [resolve_toRedb]
    exact congrArg InMemoryRegistryState.toRedb (s.resolve_unchanged object oids seen)
  refused_unchanged := by
    rintro _ object e ⟨s, rfl, _⟩ refused
    rw [resolve_toRedb] at refused ⊢
    exact congrArg InMemoryRegistryState.toRedb (s.resolve_refused object e refused)

end PgCatalog
