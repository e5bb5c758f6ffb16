import PgCatalog.Registry.Registry

/-! The registry with no file behind it: three maps and a counter under one lock,
so each call is one atomic step on the state. -/
namespace PgCatalog

/-- The counter is absent until the first allocation. -/
structure InMemoryRegistryState where
  databases : String → Option Int32
  schemas : String × String → Option Int32
  relations : String × String × String → Option (Int32 × Int32)
  nextOid : Option Int32

namespace InMemoryRegistryState

def new : InMemoryRegistryState := ⟨fun _ => none, fun _ => none, fun _ => none, none⟩

/-- The counter's value, whether or not anything was allocated yet. -/
def counter (s : InMemoryRegistryState) : Int32 := s.nextOid.getD FIRST_USER_OID

def allocate (s : InMemoryRegistryState) (count : Int32) : DFResult Int32 × InMemoryRegistryState :=
  let next := s.nextOid.getD FIRST_USER_OID
  match advancedOrExhausted next count with
  | .ok bumped => (.ok next, { s with nextOid := some bumped })
  | .error e => (.error e, s)

/-- Everything an allocation can do. A refusal leaves the state as it was. -/
theorem allocate_cases (s : InMemoryRegistryState) (count : Int32) :
    (∃ bumped, checkedAdd s.counter count = some bumped ∧
      s.allocate count = (.ok s.counter, { s with nextOid := some bumped })) ∨
    (∃ e, checkedAdd s.counter count = none ∧ s.allocate count = (.error e, s)) := by
  simp only [allocate, advancedOrExhausted, counter]
  cases checkedAdd (s.nextOid.getD FIRST_USER_OID) count with
  | some bumped => exact .inl ⟨bumped, rfl, rfl⟩
  | none => exact .inr ⟨_, rfl, rfl⟩

/-- The body the three `resolve_*` calls share: answer the record, or allocate
`count` numbers and insert what `oids` makes of the first. -/
def getOrAllocate {V : Type} (s : InMemoryRegistryState) (recorded : Option V) (count : Int32)
    (oids : Int32 → V) (insert : InMemoryRegistryState → V → InMemoryRegistryState) :
    DFResult V × InMemoryRegistryState :=
  match recorded with
  | some found => (.ok found, s)
  | none =>
    match s.allocate count with
    | (.ok oid, s) => (.ok (oids oid), insert s (oids oid))
    | (.error e, s) => (.error e, s)

def insertDatabase (name : String) (s : InMemoryRegistryState) (oid : Int32) :
    InMemoryRegistryState :=
  { s with databases := Function.update s.databases name (some oid) }

def insertSchema (key : String × String) (s : InMemoryRegistryState) (oid : Int32) :
    InMemoryRegistryState :=
  { s with schemas := Function.update s.schemas key (some oid) }

def insertRelation (key : String × String × String) (s : InMemoryRegistryState)
    (oids : Int32 × Int32) : InMemoryRegistryState :=
  { s with relations := Function.update s.relations key (some oids) }

end InMemoryRegistryState

open InMemoryRegistryState in
instance : CatalogOidRegistry InMemoryRegistryState where
  resolveDatabase s name := s.getOrAllocate (s.databases name) 1 id (insertDatabase name)
  resolveSchema s database name :=
    s.getOrAllocate (s.schemas (database, name)) 1 id (insertSchema (database, name))
  resolveRelation s database schema name :=
    s.getOrAllocate (s.relations (database, schema, name)) 2 (fun oid => (oid, oid + 1))
      (insertRelation (database, schema, name))

end PgCatalog
