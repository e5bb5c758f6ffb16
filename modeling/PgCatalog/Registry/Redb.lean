import PgCatalog.Registry.InMemory

/-! The registry persisted in a redb file. A write transaction works on a copy of
the committed tables; committing installs the copy, dropping the transaction
(what `?` does on an error) discards it. -/
namespace PgCatalog

/-- The file's four tables. A table is absent until some transaction opens it. -/
structure RedbFile where
  databases : Option (String → Option Int32)
  schemas : Option (String × String → Option Int32)
  relations : Option (String × String × String → Option (Int32 × Int32))
  allocator : Option (String → Option Int32)

/-- A table of the file: where it is read and where it is written. -/
structure TableDefinition (K V : Type) where
  get : RedbFile → Option (K → Option V)
  set : RedbFile → (K → Option V) → RedbFile

def DATABASES : TableDefinition String Int32 :=
  ⟨RedbFile.databases, fun f t => { f with databases := some t }⟩

def SCHEMAS : TableDefinition (String × String) Int32 :=
  ⟨RedbFile.schemas, fun f t => { f with schemas := some t }⟩

def RELATIONS : TableDefinition (String × String × String) (Int32 × Int32) :=
  ⟨RedbFile.relations, fun f t => { f with relations := some t }⟩

def ALLOCATOR : TableDefinition String Int32 :=
  ⟨RedbFile.allocator, fun f t => { f with allocator := some t }⟩

/-- The allocator table's one key. -/
def NEXT_OID_KEY : String := "next_oid"

/-- Work inside one open write transaction. -/
abbrev WriteTransaction := StateT RedbFile DFResult

namespace WriteTransaction

/-- Opening a missing table creates it. -/
def openTable {K V : Type} (table : TableDefinition K V) : WriteTransaction Unit :=
  modify fun f => match table.get f with
    | some _ => f
    | none => table.set f fun _ => none

def get {K V : Type} (table : TableDefinition K V) (key : K) : WriteTransaction (Option V) := do
  return (table.get (← getThe RedbFile)).bind (· key)

def insert {K V : Type} [DecidableEq K] (table : TableDefinition K V) (key : K) (value : V) :
    WriteTransaction Unit :=
  modify fun f =>
    table.set f (Function.update ((table.get f).getD fun _ => none) key (some value))

def allocate (count : Int32) : WriteTransaction Int32 := do
  openTable ALLOCATOR
  let next := (← get ALLOCATOR NEXT_OID_KEY).getD FIRST_USER_OID
  let bumped ← advancedOrExhausted next count
  insert ALLOCATOR NEXT_OID_KEY bumped
  return next

/-- The transaction body the three `resolve_*` calls share. -/
def getOrAllocate {K V : Type} [DecidableEq K] (table : TableDefinition K V) (key : K)
    (count : Int32) (oids : Int32 → V) : WriteTransaction V := do
  openTable table
  match ← get table key with
  | some found => return found
  | none =>
    let oid ← allocate count
    insert table key (oids oid)
    return oids oid

end WriteTransaction

/-- An open registry: the committed contents of its file. -/
structure RedbCatalogOidRegistry where
  store : RedbFile

namespace RedbCatalogOidRegistry

/-- Run a transaction to its end: commit on success, drop it on an error. -/
def transact {α : Type} (r : RedbCatalogOidRegistry) (body : WriteTransaction α) :
    DFResult α × RedbCatalogOidRegistry :=
  match body.run r.store with
  | .ok (a, working) => (.ok a, ⟨working⟩)
  | .error e => (.error e, r)

/-- Open the file, creating in one transaction whichever tables it lacks. -/
def openFile (file : RedbFile) : RedbCatalogOidRegistry :=
  (transact ⟨file⟩ do
    WriteTransaction.openTable DATABASES
    WriteTransaction.openTable SCHEMAS
    WriteTransaction.openTable RELATIONS
    WriteTransaction.openTable ALLOCATOR).2

/-- Close the registry and open the file it leaves behind. -/
def reopen (r : RedbCatalogOidRegistry) : RedbCatalogOidRegistry := openFile r.store

end RedbCatalogOidRegistry

open WriteTransaction in
instance : CatalogOidRegistry RedbCatalogOidRegistry where
  resolveDatabase r name := r.transact (getOrAllocate DATABASES name 1 id)
  resolveSchema r database name := r.transact (getOrAllocate SCHEMAS (database, name) 1 id)
  resolveRelation r database schema name :=
    r.transact (getOrAllocate RELATIONS (database, schema, name) 2 fun oid => (oid, oid + 1))

namespace InMemoryRegistryState

/-- The open registry whose tables hold what the in-memory state holds. The
allocator row exists exactly when the counter does. -/
def toRedb (s : InMemoryRegistryState) : RedbCatalogOidRegistry where
  store := {
    databases := some s.databases
    schemas := some s.schemas
    relations := some s.relations
    allocator := some fun key => if key = NEXT_OID_KEY then s.nextOid else none }

end InMemoryRegistryState

end PgCatalog
