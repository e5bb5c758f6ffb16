import PgCatalog.Catalog.Defs

/-! A catalog source built from up-front declarations, every OID resolved through
a registry. The three loops run in order and share the schema accumulator. -/
namespace PgCatalog

/-- The fixed OID and owner of the built-in `public` schema. -/
def PUBLIC_SCHEMA_OID : Int32 := 2200
def PUBLIC_SCHEMA_OWNER_OID : Int32 := 6171

def DECLARED_DATABASE_ACL : List String := ["=Tc/dbuser", "dbuser=CTc/dbuser"]

/-- One column as the integration spells it; its name is the map key. -/
structure ColumnDef where
  colType : String
  nullable : Bool
  hasDefault : Bool := false
  deriving DecidableEq, Repr

/-- A `BTreeMap` of columns: entries in strictly increasing key order. -/
structure ColumnMap where
  entries : List (String × ColumnDef)
  sorted : entries.Pairwise fun a b => a.1 < b.1
  deriving DecidableEq

/-- The single-entry map a declaration normally uses. -/
def ColumnMap.single (name : String) (column : ColumnDef) : ColumnMap :=
  ⟨[(name, column)], List.pairwise_singleton _ _⟩

structure DeclaredTable where
  database : String
  schema : String
  name : String
  columns : List ColumnMap
  deriving DecidableEq

def mapTypeToOid (t : String) : Int32 :=
  let lower := t.toLower
  if lower = "int" ∨ lower = "integer" ∨ lower = "int4" then 23
  else if lower = "bigint" ∨ lower = "int8" then 20
  else if lower = "bool" ∨ lower = "boolean" then 16
  else if lower.startsWith "varchar" ∨ lower.startsWith "character varying" then 1043
  else 25

def columnSpec (name : String) (column : ColumnDef) : ColumnSpec :=
  let spec : ColumnSpec := ⟨name, mapTypeToOid column.colType, column.nullable, false⟩
  if column.hasDefault then spec.withDefault else spec

/-- Only a map's first entry is a column; an empty map is skipped. -/
def columnSpecsFromDefs (columns : List ColumnMap) : List ColumnSpec :=
  columns.filterMap fun column => column.entries.head?.map fun entry => columnSpec entry.1 entry.2

def declaredDatabaseRow (name : String) (oid : Int32) : DatabaseDef :=
  { oid, datname := name, datdba := DEFAULT_OWNER_ROLE_OID, datacl := some DECLARED_DATABASE_ACL }

/-- A relation with its place and its columns, as the source keeps it. -/
structure DeclaredRelation where
  database : String
  schema : String
  relation : RelationDef
  columns : List ColumnSpec
  deriving DecidableEq, Repr

structure DeclaredCatalogSource where
  databases : List DatabaseDef
  schemas : List (String × SchemaDef)
  relations : List DeclaredRelation
  deriving DecidableEq, Repr

/-- A computation that calls the registry and may stop with an error. The calls
made before the error stay made. -/
abbrev RegistryM (σ α : Type) := σ → DFResult α × σ

namespace RegistryM
variable {σ α β : Type}

def bind (x : RegistryM σ α) (f : α → RegistryM σ β) : RegistryM σ β := fun s =>
  match x s with
  | (.ok a, s) => f a s
  | (.error e, s) => (.error e, s)

instance : Monad (RegistryM σ) where
  pure a := fun s => (.ok a, s)
  bind := bind

def fail (e : DataFusionError) : RegistryM σ α := fun s => (.error e, s)

theorem pure_run (a : α) (s : σ) : (pure a : RegistryM σ α) s = (.ok a, s) := rfl

theorem bind_run_ok {x : RegistryM σ α} {f : α → RegistryM σ β} {s t : σ} {a : α}
    (first : x s = (.ok a, t)) : (x >>= f) s = f a t := by
  change RegistryM.bind x f s = f a t
  simp only [RegistryM.bind, first]

theorem pure_ok_iff {a b : α} {s t : σ} :
    (pure a : RegistryM σ α) s = (.ok b, t) ↔ b = a ∧ t = s := by
  simp only [pure_run, Prod.mk.injEq, Except.ok.injEq]
  exact and_congr eq_comm eq_comm

theorem fail_ne_ok {e : DataFusionError} {a : α} {s t : σ} :
    (fail e : RegistryM σ α) s ≠ (.ok a, t) := by
  intro h
  cases h

/-- A bind succeeds only through a success of its first half. -/
theorem bind_ok_iff {x : RegistryM σ α} {f : α → RegistryM σ β} {s u : σ} {b : β} :
    (x >>= f) s = (.ok b, u) ↔ ∃ a t, x s = (.ok a, t) ∧ f a t = (.ok b, u) := by
  change RegistryM.bind x f s = (.ok b, u) ↔ _
  simp only [RegistryM.bind]
  cases first : x s with
  | mk answer t =>
    cases answer with
    | ok a => simp only [Prod.mk.injEq, Except.ok.injEq, and_assoc, exists_and_left,
        exists_eq_left']
    | error e => simp only [Prod.mk.injEq, reduceCtorEq, false_and, exists_false]

end RegistryM

section
variable {σ : Type} [CatalogOidRegistry σ]

def declaredSchemaRow (database schemaName : String) : RegistryM σ SchemaDef := do
  if schemaName = "public" then
    return { oid := PUBLIC_SCHEMA_OID, name := schemaName, ownerOid := some PUBLIC_SCHEMA_OWNER_OID }
  let oid ← (resolveSchema · database schemaName : RegistryM σ Int32)
  return { oid, name := schemaName }

def declareDatabases : List String → List DatabaseDef → RegistryM σ (List DatabaseDef)
  | [], defs => return defs
  | name :: rest, defs => do
    if defs.any (·.datname = name) then
      RegistryM.fail (.execution s!"database \"{name}\" already exists")
    else
      let oid ← (resolveDatabase · name : RegistryM σ Int32)
      declareDatabases rest (defs ++ [declaredDatabaseRow name oid])

/-- Whether a schema of that name is already among the accumulated ones. -/
def schemaDeclared (defs : List (String × SchemaDef)) (database schemaName : String) : Bool :=
  defs.any fun entry => entry.1 = database ∧ entry.2.name = schemaName

def declareSchemas (databases : List DatabaseDef) :
    List (String × String) → List (String × SchemaDef) → RegistryM σ (List (String × SchemaDef))
  | [], defs => return defs
  | (database, schemaName) :: rest, defs => do
    if !databases.any (·.datname = database) then
      RegistryM.fail (.execution
        s!"cannot declare schema \"{schemaName}\": database \"{database}\" does not exist")
    else if schemaDeclared defs database schemaName then
      RegistryM.fail (.execution
        s!"schema \"{schemaName}\" already exists in database \"{database}\"")
    else
      let row ← declaredSchemaRow database schemaName
      declareSchemas databases rest (defs ++ [(database, row)])

/-- The schema accumulator after a table names a schema: unchanged when declared,
extended by that reference otherwise. -/
def declareReferencedSchema (schemas : List (String × SchemaDef)) (database schemaName : String) :
    RegistryM σ (List (String × SchemaDef)) := do
  if schemaDeclared schemas database schemaName then
    return schemas
  else
    let row ← declaredSchemaRow database schemaName
    return schemas ++ [(database, row)]

def declareRelations (databases : List DatabaseDef) : List DeclaredTable →
    List (String × SchemaDef) → List DeclaredRelation →
    RegistryM σ (List (String × SchemaDef) × List DeclaredRelation)
  | [], schemas, relations => return (schemas, relations)
  | table :: rest, schemas, relations => do
    let { database, schema, name, columns } := table
    if !databases.any (·.datname = database) then
      RegistryM.fail (.execution
        s!"cannot declare relation \"{name}\": database \"{database}\" does not exist")
    else if relations.any fun def_ =>
        def_.database = database ∧ def_.schema = schema ∧ def_.relation.name = name then
      RegistryM.fail (.execution
        s!"relation \"{name}\" already exists in schema \"{database}\".\"{schema}\"")
    else
      let schemas ← declareReferencedSchema schemas database schema
      let oids ← (resolveRelation · database schema name : RegistryM σ (Int32 × Int32))
      let relation : RelationDef := { oid := oids.1, reltypeOid := oids.2, name }
      declareRelations databases rest schemas
        (relations ++ [⟨database, schema, relation, columnSpecsFromDefs columns⟩])

def fromDeclarations (databases : List String) (schemas : List (String × String))
    (tables : List DeclaredTable) : RegistryM σ DeclaredCatalogSource := do
  let databaseDefs ← declareDatabases databases []
  let schemaDefs ← declareSchemas databaseDefs schemas []
  let (schemaDefs, relationDefs) ← declareRelations databaseDefs tables schemaDefs []
  return ⟨databaseDefs, schemaDefs, relationDefs⟩

end

namespace DeclaredCatalogSource

def schemasIn (source : DeclaredCatalogSource) (database : String) : List SchemaDef :=
  (source.schemas.filter (·.1 = database)).map (·.2)

def relationsIn (source : DeclaredCatalogSource) (database schema : String) : List RelationDef :=
  (source.relations.filter fun entry => entry.database = database ∧ entry.schema = schema).map
    (·.relation)

def columnsOf (source : DeclaredCatalogSource) (database schema relation : String) :
    List ColumnSpec :=
  ((source.relations.find? fun entry => entry.database = database ∧ entry.schema = schema ∧
    entry.relation.name = relation).map (·.columns)).getD []

/-- The declared source as a catalog source: each answer in one callback. -/
def toLazy (source : DeclaredCatalogSource) : LazyCatalogSource where
  databases := .once source.databases
  schemas database := .once (source.schemasIn database)
  relations database schema := .once (source.relationsIn database schema)
  columns database schema relation := .once (source.columnsOf database schema relation)

end DeclaredCatalogSource

end PgCatalog
