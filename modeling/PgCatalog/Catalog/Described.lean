import PgCatalog.Catalog.Declared
import PgCatalog.Registry.Invariant

/-! What a declaration set says, apart from the loops that read it: the registry
calls it makes, and the source the recorded OIDs describe. -/
namespace PgCatalog

open Library

/-- The number in a slot that was given one. -/
def Ledger.oid (l : Ledger) (slot : OidSlot) : Int32 := (l.oidAt slot).getD 0

/-- `public` is built in: naming it calls no registry. -/
def schemaCalls : String × String → List CatalogObject
  | (database, schema) => if schema = "public" then [] else [.schema database schema]

namespace DeclaredTable

/-- The schema a table is declared in. -/
def home (table : DeclaredTable) : String × String := (table.database, table.schema)

/-- The name the registry and the duplicate check know a table by. -/
def key (table : DeclaredTable) : String × String × String :=
  (table.database, table.schema, table.name)

def object (table : DeclaredTable) : CatalogObject :=
  .relation table.database table.schema table.name

end DeclaredTable

/-- The schema a table introduces: none when one of that name is there already. -/
def introduced (seen : List (String × String)) (table : DeclaredTable) : List (String × String) :=
  if table.home ∈ seen then [] else [table.home]

/-- The schemas that tables name and nothing before them does, in order. -/
def referencedSchemas : List DeclaredTable → List (String × String) → List (String × String)
  | [], _ => []
  | table :: rest, seen =>
    introduced seen table ++ referencedSchemas rest (seen ++ introduced seen table)

def relationCalls : List DeclaredTable → List (String × String) → List CatalogObject
  | [], _ => []
  | table :: rest, seen =>
    (introduced seen table).flatMap schemaCalls ++
      table.object :: relationCalls rest (seen ++ introduced seen table)

/-- Every registry call of a declaration set, in the order it is made. -/
def declarationCalls (databases : List String) (schemas : List (String × String))
    (tables : List DeclaredTable) : List CatalogObject :=
  databases.map .database ++ (schemas.flatMap schemaCalls ++ relationCalls tables schemas)

/-- No name twice, and every schema and table under a declared database. -/
structure Acceptable (databases : List String) (schemas : List (String × String))
    (tables : List DeclaredTable) : Prop where
  databases_nodup : databases.Nodup
  schemas_nodup : schemas.Nodup
  tables_nodup : (tables.map DeclaredTable.key).Nodup
  schema_homes : ∀ schema ∈ schemas, schema.1 ∈ databases
  table_homes : ∀ table ∈ tables, table.database ∈ databases

namespace Ledger

def describeDatabase (l : Ledger) (name : String) : DatabaseDef :=
  declaredDatabaseRow name (l.oid (.database name))

def describeSchema (l : Ledger) (schema : String × String) : String × SchemaDef :=
  (schema.1,
    if schema.2 = "public" then
      { oid := PUBLIC_SCHEMA_OID, name := schema.2, ownerOid := some PUBLIC_SCHEMA_OWNER_OID }
    else { oid := l.oid (.schema schema.1 schema.2), name := schema.2 })

def describeTable (l : Ledger) (table : DeclaredTable) : DeclaredRelation where
  database := table.database
  schema := table.schema
  relation :=
    { oid := l.oid (.relation table.database table.schema table.name)
      reltypeOid := l.oid (.rowtype table.database table.schema table.name)
      name := table.name }
  columns := columnSpecsFromDefs table.columns

/-- The source a declaration set describes, with the numbers a ledger holds. -/
def describe (l : Ledger) (databases : List String) (schemas : List (String × String))
    (tables : List DeclaredTable) : DeclaredCatalogSource where
  databases := databases.map l.describeDatabase
  schemas := (schemas ++ referencedSchemas tables schemas).map l.describeSchema
  relations := tables.map l.describeTable

end Ledger

section
variable {σ : Type} [CatalogOidRegistry σ] {s t : σ}

/-- A registry that answers each of these calls, made in this order. -/
def Served (s : σ) (calls : List CatalogObject) : Prop :=
  ∀ answer ∈ answers resolve s calls, ∃ oids, answer = .ok oids

@[simp] theorem served_nil (s : σ) : Served s [] := fun _ member => by cases member

@[simp] theorem served_cons (s : σ) (object : CatalogObject) (rest : List CatalogObject) :
    Served s (object :: rest) ↔
      (∃ oids, (resolve s object).1 = .ok oids) ∧ Served (resolve s object).2 rest := by
  simp only [Served, answers, List.mem_cons, forall_eq_or_imp]

@[simp] theorem served_append (s : σ) (before after : List CatalogObject) :
    Served s (before ++ after) ↔ Served s before ∧ Served (run resolve s before) after := by
  induction before generalizing s with
  | nil => simp only [List.nil_append, served_nil, true_and, run_nil]
  | cons object rest ih => simp only [List.cons_append, served_cons, run_cons, ih, and_assoc]

theorem served_of_all {calls : List CatalogObject}
    (all : (answers resolve s calls).all (·.toBool) = true) : Served s calls := by
  intro answer member
  cases answer with
  | ok oids => exact ⟨oids, rfl⟩
  | error e => cases List.all_eq_true.mp all _ member

/-- The three calls again, as the one that names the object. -/
theorem resolveDatabase_iff {name : String} {oid : Int32} :
    resolveDatabase s name = (.ok oid, t) ↔
      resolve s (.database name) = (.ok (.single oid), t) := by
  rw [resolve]
  rcases resolveDatabase s name with ⟨_ | _, _⟩ <;> simp [Prod.map, Except.map]

theorem resolveSchema_iff {database name : String} {oid : Int32} :
    resolveSchema s database name = (.ok oid, t) ↔
      resolve s (.schema database name) = (.ok (.single oid), t) := by
  rw [resolve]
  rcases resolveSchema s database name with ⟨_ | _, _⟩ <;> simp [Prod.map, Except.map]

theorem resolveRelation_iff {database schema name : String} {oids : Int32 × Int32} :
    resolveRelation s database schema name = (.ok oids, t) ↔
      resolve s (.relation database schema name) = (.ok (.relation oids.1 oids.2), t) := by
  rw [resolve]
  rcases resolveRelation s database schema name with ⟨_ | found, _⟩
  · simp [Prod.map, Except.map]
  · simp [Prod.map, Except.map, Prod.ext_iff]

theorem served_database {name : String} {oids : ObjectOids}
    (answer : (resolve s (.database name)).1 = .ok oids) :
    ∃ oid, resolveDatabase s name = (.ok oid, (resolve s (.database name)).2) := by
  rw [resolve] at answer ⊢
  rcases h : resolveDatabase s name with ⟨_ | oid, _⟩
  · simp [h, Prod.map, Except.map] at answer
  · exact ⟨oid, rfl⟩

theorem served_schema {database name : String} {oids : ObjectOids}
    (answer : (resolve s (.schema database name)).1 = .ok oids) :
    ∃ oid, resolveSchema s database name = (.ok oid, (resolve s (.schema database name)).2) := by
  rw [resolve] at answer ⊢
  rcases h : resolveSchema s database name with ⟨_ | oid, _⟩
  · simp [h, Prod.map, Except.map] at answer
  · exact ⟨oid, rfl⟩

theorem served_relation {database schema name : String} {oids : ObjectOids}
    (answer : (resolve s (.relation database schema name)).1 = .ok oids) :
    ∃ pair, resolveRelation s database schema name =
      (.ok pair, (resolve s (.relation database schema name)).2) := by
  rw [resolve] at answer ⊢
  rcases h : resolveRelation s database schema name with ⟨_ | pair, _⟩
  · simp [h, Prod.map, Except.map] at answer
  · exact ⟨pair, rfl⟩

variable [LawfulRegistry σ]

theorem answered_valid (valid : Valid s) {object : CatalogObject} {oids : ObjectOids}
    (answered : resolve s object = (.ok oids, t)) : Valid t := by
  have moved := LawfulRegistry.valid_resolve s object valid
  rwa [answered] at moved

/-- What a call records, every later state still holds. -/
theorem resolved_kept (valid : Valid s) {object : CatalogObject} {oids : ObjectOids}
    (answered : resolve s object = (.ok oids, t)) (calls : List CatalogObject) :
    (ledger (run resolve t calls)).recorded object = some oids := by
  refine run_keeps (answered_valid valid answered) ?_ calls
  have after := ledger_eq valid object
  have answer := answer_eq valid object
  rw [answered] at after answer
  rw [after]
  exact Ledger.resolve_records answer.symm

/-- After a served run every object it named is recorded. -/
theorem served_recorded (valid : Valid s) {calls : List CatalogObject} (served : Served s calls)
    {object : CatalogObject} (member : object ∈ calls) :
    ∃ oids, (ledger (run resolve s calls)).recorded object = some oids := by
  induction calls generalizing s with
  | nil => cases member
  | cons first rest ih =>
    obtain ⟨⟨oids, answer⟩, served⟩ := (served_cons s first rest).mp served
    have answered : resolve s first = (.ok oids, (resolve s first).2) := Prod.ext answer rfl
    obtain same | later := List.mem_cons.mp member
    · subst same
      exact ⟨oids, resolved_kept valid answered rest⟩
    · exact ih (answered_valid valid answered) served later

end

namespace Ledger

/-- Two ledgers with the same record of an object give its slots the same numbers. -/
theorem oid_congr {l l' : Ledger} (slot : OidSlot)
    (same : l'.recorded slot.object = l.recorded slot.object) : l'.oid slot = l.oid slot := by
  simp only [oid, oidAt, same]

theorem oid_recorded {l : Ledger} (slot : OidSlot) {oids : ObjectOids}
    (seen : l.recorded slot.object = some oids) : l.oid slot = slot.pick oids := by
  simp only [oid, oidAt, seen, Option.map_some, Option.getD_some]

theorem describeDatabase_congr {l l' : Ledger} {name : String}
    (same : l'.recorded (.database name) = l.recorded (.database name)) :
    l'.describeDatabase name = l.describeDatabase name := by
  simp only [describeDatabase, oid_congr (.database name) same]

theorem describeSchema_congr {l l' : Ledger} {schema : String × String}
    (same : ∀ object ∈ schemaCalls schema, l'.recorded object = l.recorded object) :
    l'.describeSchema schema = l.describeSchema schema := by
  obtain ⟨database, name⟩ := schema
  by_cases builtIn : name = "public"
  · simp only [describeSchema, if_pos builtIn]
  · have called : .schema database name ∈ schemaCalls (database, name) := by
      simp only [schemaCalls, if_neg builtIn, List.mem_singleton]
    simp only [describeSchema, if_neg builtIn,
      oid_congr (.schema database name) (same _ called)]

theorem describeTable_congr {l l' : Ledger} {table : DeclaredTable}
    (same : l'.recorded table.object = l.recorded table.object) :
    l'.describeTable table = l.describeTable table := by
  simp only [describeTable,
    oid_congr (.relation table.database table.schema table.name) same,
    oid_congr (.rowtype table.database table.schema table.name) same]

end Ledger

end PgCatalog
