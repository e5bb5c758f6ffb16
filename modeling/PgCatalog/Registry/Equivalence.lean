import PgCatalog.Library.Run
import PgCatalog.Registry.Redb

/-! The two registries are one machine: the tables of the file hold what the maps
hold after every call, and closing and reopening the file changes nothing. -/
namespace PgCatalog

open Library InMemoryRegistryState

theorem openTable_present {K V : Type} {table : TableDefinition K V} {f : RedbFile}
    {t : K → Option V} (present : table.get f = some t) :
    (WriteTransaction.openTable table).run f = .ok ((), f) := by
  rw [WriteTransaction.openTable]
  simp only [StateT.run_modify, present]
  rfl

theorem get_run {K V : Type} (table : TableDefinition K V) (key : K) (f : RedbFile) :
    (WriteTransaction.get table key).run f = .ok ((table.get f).bind (· key), f) := rfl

theorem insert_run {K V : Type} [DecidableEq K] (table : TableDefinition K V) (key : K) (v : V)
    (f : RedbFile) : (WriteTransaction.insert table key v).run f =
      .ok ((), table.set f (Function.update ((table.get f).getD fun _ => none) key (some v))) :=
  rfl

theorem lift_run (x : DFResult Int32) (f : RedbFile) :
    (liftM x : WriteTransaction Int32).run f = x >>= fun a => .ok (a, f) := rfl

/-- The counter's row is the whole content of the allocator table. -/
theorem allocator_update (nextOid : Option Int32) (bumped : Int32) :
    Function.update (fun key => if key = NEXT_OID_KEY then nextOid else none) NEXT_OID_KEY
      (some bumped) = fun key => if key = NEXT_OID_KEY then some bumped else none := by
  funext key
  by_cases same : key = NEXT_OID_KEY
  · subst same
    simp only [Function.update_self, if_true]
  · simp only [Function.update_of_ne same, if_neg same]

theorem allocate_toRedb (s : InMemoryRegistryState) (count : Int32) :
    (WriteTransaction.allocate count).run s.toRedb.store =
      match s.allocate count with
      | (.ok oid, s') => .ok (oid, s'.toRedb.store)
      | (.error e, _) => .error e := by
  have present : ALLOCATOR.get s.toRedb.store =
      some fun key => if key = NEXT_OID_KEY then s.nextOid else none := rfl
  have row : (ALLOCATOR.get s.toRedb.store).bind (· NEXT_OID_KEY) = s.nextOid := by
    simp only [present, Option.bind_some, if_true]
  simp only [WriteTransaction.allocate, StateT.run_bind, openTable_present present, get_run,
    insert_run, ok_bind, row, InMemoryRegistryState.allocate]
  cases advancedOrExhausted (s.nextOid.getD FIRST_USER_OID) count with
  | error e => rfl
  | ok bumped =>
    simp only [lift_run, ok_bind, present, Option.getD_some, allocator_update]
    rfl

/-- A shared body run as a transaction is the same body run on the maps, for a
table that is read and written where the map is. -/
theorem getOrAllocate_toRedb {K V : Type} [DecidableEq K] (table : TableDefinition K V)
    (read : InMemoryRegistryState → K → Option V)
    (insert : InMemoryRegistryState → V → InMemoryRegistryState) (key : K)
    (reads : ∀ s, table.get s.toRedb.store = some (read s))
    (writes : ∀ s v, table.set s.toRedb.store (Function.update (read s) key (some v)) =
      (insert s v).toRedb.store)
    (s : InMemoryRegistryState) (count : Int32) (oids : Int32 → V) :
    s.toRedb.transact (WriteTransaction.getOrAllocate table key count oids) =
      (s.getOrAllocate (read s key) count oids insert).map id toRedb := by
  have row : (table.get s.toRedb.store).bind (· key) = read s key := by
    simp only [reads, Option.bind_some]
  simp only [RedbCatalogOidRegistry.transact, WriteTransaction.getOrAllocate, StateT.run_bind,
    openTable_present (reads s), get_run, ok_bind, row, InMemoryRegistryState.getOrAllocate]
  cases read s key with
  | some found => rfl
  | none =>
    simp only [StateT.run_bind, allocate_toRedb, insert_run]
    obtain ⟨bumped, _, eq⟩ | ⟨e, _, eq⟩ := allocate_cases s count
    · simp only [eq, ok_bind, reads, Option.getD_some, writes]
      rfl
    · -- the transaction is dropped here, and the maps were never touched
      simp only [eq, error_bind]
      rfl

/-- Each call on the file-backed registry is the in-memory one, step for step. -/
theorem resolve_toRedb (s : InMemoryRegistryState) (object : CatalogObject) :
    resolve s.toRedb object = (resolve s object).map id toRedb := by
  cases object with
  | database name =>
    exact congrArg (Prod.map _ id) (getOrAllocate_toRedb DATABASES (·.databases)
      (insertDatabase name) name (fun _ => rfl) (fun _ _ => rfl) s 1 id)
  | schema database name =>
    exact congrArg (Prod.map _ id) (getOrAllocate_toRedb SCHEMAS (·.schemas)
      (insertSchema (database, name)) (database, name) (fun _ => rfl) (fun _ _ => rfl) s 1 id)
  | relation database schema name =>
    exact congrArg (Prod.map _ id) (getOrAllocate_toRedb RELATIONS (·.relations)
      (insertRelation (database, schema, name)) (database, schema, name) (fun _ => rfl)
      (fun _ _ => rfl) s 2 fun oid => (oid, oid + 1))

theorem reopen_toRedb (s : InMemoryRegistryState) : s.toRedb.reopen = s.toRedb := rfl

/-- A file whose allocator holds the given row, if any, and whose tables are new. -/
def RedbFile.counting (nextOid : Option Int32) : RedbFile where
  databases := none
  schemas := none
  relations := none
  allocator := nextOid.map fun oid key => if key = NEXT_OID_KEY then some oid else none

/-- The in-memory registry with nothing recorded and the given counter. -/
def InMemoryRegistryState.counting (nextOid : Option Int32) : InMemoryRegistryState :=
  { InMemoryRegistryState.new with nextOid }

theorem open_counting (nextOid : Option Int32) :
    RedbCatalogOidRegistry.openFile (RedbFile.counting nextOid) =
      (InMemoryRegistryState.counting nextOid).toRedb := by
  cases nextOid with
  | some oid => rfl
  | none =>
    have blank : (fun key => if key = NEXT_OID_KEY then none else none) =
        fun _ : String => (none : Option Int32) := by
      funext key
      exact ite_self _
    simp only [toRedb, InMemoryRegistryState.counting, InMemoryRegistryState.new, blank]
    rfl

/-- A call, or the end of one process and the start of the next. -/
inductive RegistryEvent where
  | call (object : CatalogObject)
  | restart
  deriving DecidableEq, Repr

/-- The file-backed registry: a restart closes the file and opens it again. -/
def redbStep (r : RedbCatalogOidRegistry) : RegistryEvent →
    Option (DFResult ObjectOids) × RedbCatalogOidRegistry
  | .call object => (resolve r object).map some id
  | .restart => (none, r.reopen)

/-- The in-memory registry beside it, never restarted. -/
def inMemoryStep (s : InMemoryRegistryState) : RegistryEvent →
    Option (DFResult ObjectOids) × InMemoryRegistryState
  | .call object => (resolve s object).map some id
  | .restart => (none, s)

theorem step_agrees (s : InMemoryRegistryState) (r : RedbCatalogOidRegistry)
    (related : r = s.toRedb) (event : RegistryEvent) :
    (redbStep r event).1 = (inMemoryStep s event).1 ∧
      (redbStep r event).2 = (inMemoryStep s event).2.toRedb := by
  subst related
  cases event with
  | call object => simp only [redbStep, inMemoryStep, resolve_toRedb, Prod.map, id, and_self]
  | restart => exact ⟨rfl, reopen_toRedb s⟩

/-- Same counter, same calls, restarts of the file anywhere between them: the
same answer at every step, refusals included. -/
theorem registries_observationally_equivalent (nextOid : Option Int32)
    (events : List RegistryEvent) :
    answers redbStep (RedbCatalogOidRegistry.openFile (RedbFile.counting nextOid)) events =
      answers inMemoryStep (InMemoryRegistryState.counting nextOid) events := by
  rw [open_counting]
  exact (simulation redbStep inMemoryStep (fun r s => r = s.toRedb)
    (fun r s related event => step_agrees s r related event) rfl events).1

end PgCatalog
