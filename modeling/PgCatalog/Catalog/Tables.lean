import PgCatalog.Catalog.Rows

/-! The catalog tables served lazily: how each walks the source for its rows, and the
check that refuses a source that reports one object twice. -/
namespace PgCatalog

inductive CatalogTable where
  | pgDatabase | pgNamespace | pgClass | pgType | pgAttribute | pgIndex | pgConstraint
  | pgAttrdef | pgConfig | pgSettings
  | informationSchemaTables | informationSchemaColumns | informationSchemaSchemata
  deriving DecidableEq, Repr

namespace CatalogTable

def location : CatalogTable → String × String
  | pgDatabase => ("pg_catalog", "pg_database")
  | pgNamespace => ("pg_catalog", "pg_namespace")
  | pgClass => ("pg_catalog", "pg_class")
  | pgType => ("pg_catalog", "pg_type")
  | pgAttribute => ("pg_catalog", "pg_attribute")
  | pgIndex => ("pg_catalog", "pg_index")
  | pgConstraint => ("pg_catalog", "pg_constraint")
  | pgAttrdef => ("pg_catalog", "pg_attrdef")
  | pgConfig => ("pg_catalog", "pg_config")
  | pgSettings => ("pg_catalog", "pg_settings")
  | informationSchemaTables => ("information_schema", "tables")
  | informationSchemaColumns => ("information_schema", "columns")
  | informationSchemaSchemata => ("information_schema", "schemata")

/-- The columns that identify one row. -/
def keyColumns : CatalogTable → List String
  | pgDatabase => ["datname"]
  | pgNamespace | pgConstraint => ["oid"]
  | pgClass => ["relnamespace", "relname"]
  | pgType => ["typnamespace", "typname"]
  | pgAttribute => ["attrelid", "attname"]
  | pgIndex => ["indexrelid"]
  | pgAttrdef => ["adrelid", "adnum"]
  | pgConfig | pgSettings => ["name"]
  | informationSchemaTables => ["table_catalog", "table_schema", "table_name"]
  | informationSchemaColumns => ["table_catalog", "table_schema", "table_name", "column_name"]
  | informationSchemaSchemata => ["catalog_name", "schema_name"]

end CatalogTable

/-- The tables a lazy catalog installs by default. -/
def LazyCatalogOptions.all : List CatalogTable :=
  [.pgDatabase, .pgNamespace, .pgClass, .pgType, .pgAttribute, .pgIndex, .pgConstraint,
    .pgAttrdef, .pgConfig, .pgSettings]

/-- The first schema whose name came before. -/
def duplicateSchema : List SchemaDef → List String → Option SchemaDef
  | [], _ => none
  | schema :: rest, seen =>
    if schema.name ∈ seen then some schema else duplicateSchema rest (schema.name :: seen)

def fetchSchemas (source : LazyCatalogSource) (database : String) : DFResult (List SchemaDef) := do
  let out ← (source.schemas database).fetch
  match duplicateSchema out [] with
  | some schema =>
    let name := schema.name
    .error (.execution
      s!"schema \"{name}\" is reported more than once for database \"{database}\"")
  | none => return out

/-- The rows of every schema of a database, in order; the first error stops the walk. -/
def collectSchemas (source : LazyCatalogSource) (database : String)
    (rows : SchemaDef → DFResult (List Row)) : DFResult (List Row) := do
  let schemas ← fetchSchemas source database
  return (← schemas.mapM rows).flatten

/-- The rows of every relation of one schema. -/
def collectRelations (source : LazyCatalogSource) (database : String) (schema : SchemaDef)
    (rows : RelationDef → DFResult (List Row)) : DFResult (List Row) := do
  let relations ← (source.relations database schema.name).fetch
  return (← relations.mapM rows).flatten

def collectPgConfigRows (source : LazyCatalogSource) : DFResult (List Row) := do
  return (← source.config.fetch).map buildPgConfigRow

def collectPgSettingsRows (source : LazyCatalogSource) : DFResult (List Row) := do
  return (← source.settings.fetch).map buildPgSettingsRow

def collectPgDatabaseRows (source : LazyCatalogSource) : DFResult (List Row) := do
  return (← source.databases.fetch).map buildPgDatabaseRow

def collectPgNamespaceRows (source : LazyCatalogSource) (database : String) :
    DFResult (List Row) := do
  return (← fetchSchemas source database).map buildPgNamespaceRow

def pgClassRows (source : LazyCatalogSource) (database : String) (schema : SchemaDef)
    (rel : RelationDef) : DFResult (List Row) := do
  let columns ← (source.columns database schema.name rel.name).fetch
  let natts ← attributeCountAsI32 columns.length rel.name
  return [buildPgClassRow rel schema.oid natts]

def collectPgClassRows (source : LazyCatalogSource) (database : String) : DFResult (List Row) :=
  collectSchemas source database fun schema => do
    let relations ← collectRelations source database schema (pgClassRows source database schema)
    let indexes ← (source.indexes database schema.name).fetch
    return relations ++ indexes.map (buildIndexPgClassRow · schema.oid)

def collectPgTypeRows (source : LazyCatalogSource) (database : String) : DFResult (List Row) :=
  collectSchemas source database fun schema =>
    collectRelations source database schema fun rel =>
      return [buildPgTypeRowtypeRow rel schema.oid]

def pgAttributeRows (source : LazyCatalogSource) (database : String) (schema : SchemaDef)
    (rel : RelationDef) : DFResult (List Row) := do
  let columns ← (source.columns database schema.name rel.name).fetch
  let _ ← attributeCountAsI32 columns.length rel.name
  return buildPgAttributeRows rel.oid columns

def collectPgAttributeRows (source : LazyCatalogSource) (database : String) :
    DFResult (List Row) :=
  collectSchemas source database fun schema =>
    collectRelations source database schema (pgAttributeRows source database schema)

def collectPgIndexRows (source : LazyCatalogSource) (database : String) : DFResult (List Row) :=
  collectSchemas source database fun schema => do
    let indexes ← (source.indexes database schema.name).fetch
    indexes.mapM fun index => do
      let _ ← attributeCountAsI32 index.keyAttnums.length index.indexName
      return buildPgIndexRow index

def collectPgConstraintRows (source : LazyCatalogSource) (database : String) :
    DFResult (List Row) :=
  collectSchemas source database fun schema => do
    return (← (source.constraints database schema.name).fetch).map buildPgConstraintRow

/-- A walk that numbers its rows: each part goes on from the OID the last one left. -/
def numberedRows {α : Type} (part : α → Int32 → DFResult (List Row × Int32)) :
    List α → Int32 → DFResult (List Row × Int32)
  | [], oid => return ([], oid)
  | a :: rest, oid => do
    let (rows, oid) ← part a oid
    let (more, oid) ← numberedRows part rest oid
    return (rows ++ more, oid)

def attrdefOfColumn (rel : RelationDef) (column : ColumnSpec × Nat) (oid : Int32) :
    DFResult (List Row × Int32) := do
  if column.1.hasDefault then
    let adnum ← oneBasedPosition column.2 rel.name
    return ([buildPgAttrdefRow oid rel.oid adnum], oid + 1)
  else
    return ([], oid)

def attrdefOfRelation (source : LazyCatalogSource) (database : String) (schema : SchemaDef)
    (rel : RelationDef) (oid : Int32) : DFResult (List Row × Int32) := do
  let columns ← (source.columns database schema.name rel.name).fetch
  numberedRows (attrdefOfColumn rel) columns.zipIdx oid

def attrdefOfSchema (source : LazyCatalogSource) (database : String) (schema : SchemaDef)
    (oid : Int32) : DFResult (List Row × Int32) := do
  let relations ← (source.relations database schema.name).fetch
  numberedRows (attrdefOfRelation source database schema) relations oid

def collectPgAttrdefRows (source : LazyCatalogSource) (database : String) :
    DFResult (List Row) := do
  let schemas ← fetchSchemas source database
  let (rows, _) ← numberedRows (attrdefOfSchema source database) schemas
    SYNTHETIC_ATTRDEF_OID_BASE
  return rows

def collectInfoTablesRows (source : LazyCatalogSource) (database : String) :
    DFResult (List Row) :=
  collectSchemas source database fun schema =>
    collectRelations source database schema fun rel =>
      return [buildInfoTablesRow database schema.name rel]

def collectInfoColumnsRows (source : LazyCatalogSource) (database : String) :
    DFResult (List Row) :=
  collectSchemas source database fun schema =>
    collectRelations source database schema fun rel => do
      let columns ← (source.columns database schema.name rel.name).fetch
      buildInfoColumnsRows database schema.name rel.name columns

def collectInfoSchemataRows (source : LazyCatalogSource) (database : String) :
    DFResult (List Row) := do
  return (← fetchSchemas source database).map (buildInfoSchemataRow database)

def buildRowsFor (table : CatalogTable) (source : LazyCatalogSource) (database : String) :
    DFResult (List Row) :=
  match table with
  | .pgConfig => collectPgConfigRows source
  | .pgSettings => collectPgSettingsRows source
  | .pgDatabase => collectPgDatabaseRows source
  | .pgNamespace => collectPgNamespaceRows source database
  | .pgClass => collectPgClassRows source database
  | .pgType => collectPgTypeRows source database
  | .pgAttribute => collectPgAttributeRows source database
  | .pgIndex => collectPgIndexRows source database
  | .pgConstraint => collectPgConstraintRows source database
  | .pgAttrdef => collectPgAttrdefRows source database
  | .informationSchemaTables => collectInfoTablesRows source database
  | .informationSchemaColumns => collectInfoColumnsRows source database
  | .informationSchemaSchemata => collectInfoSchemataRows source database

/-- Distinct from any text, so that an empty string never meets an absent value. -/
def NULL_KEY : String := "\x00NULL\x00"

def hexDigit (n : Nat) : Char := Nat.digitChar n

/-- One character of a JSON string. -/
def jsonEscape (c : Char) : String :=
  if c.toNat = 0x22 then "\\\""
  else if c = '\\' then "\\\\"
  else if c.toNat = 0x08 then "\\b"
  else if c.toNat = 0x0c then "\\f"
  else if c = '\n' then "\\n"
  else if c = '\r' then "\\r"
  else if c = '\t' then "\\t"
  else if c.toNat < 0x20 then
    String.ofList ['\\', 'u', '0', '0', hexDigit (c.toNat / 16), hexDigit (c.toNat % 16)]
  else c.toString

def jsonString (s : String) : String := "\"" ++ String.join (s.toList.map jsonEscape) ++ "\""

def jsonArray (items : List String) : String := "[" ++ ",".intercalate items ++ "]"

def jsonKeyComponent : Option Value → String
  | some (.number n) => toString n
  | some (.float text) => text
  | some (.string s) => s
  | some (.bool b) => toString b
  | some .null | none => NULL_KEY
  | some (.strings items) => jsonArray (items.map jsonString)
  | some (.numbers items) => jsonArray (items.map toString)

def userRowKey (row : Row) (keyCols : List String) : List String :=
  keyCols.map fun column => jsonKeyComponent (row.get column)

/-- A key as the error prints it: quoted, with the usual escapes. -/
def debugKey (key : List String) : String :=
  let escape (c : Char) : String :=
    if c.toNat = 0x22 then "\\\""
    else if c = '\\' then "\\\\"
    else if c = '\n' then "\\n"
    else if c = '\r' then "\\r"
    else if c = '\t' then "\\t"
    else if c.toNat = 0 then "\\0"
    else c.toString
  "[" ++ ", ".intercalate (key.map fun s => "\"" ++ String.join (s.toList.map escape) ++ "\"") ++ "]"

def duplicateEntry (table : CatalogTable) (key : List String) : DataFusionError :=
  let tableName := table.location.2
  let columns := ", ".intercalate table.keyColumns
  let shown := debugKey key
  .execution s!"lazy catalog source returned a duplicate {tableName} entry for ({columns}) = {shown}"

/-- The scan's loop over the user rows: their keys, or the first one met twice. -/
def collectUserKeys (table : CatalogTable) :
    List Row → List (List String) → DFResult (List (List String))
  | [], seen => return seen
  | row :: rest, seen =>
    if userRowKey row table.keyColumns ∈ seen then
      .error (duplicateEntry table (userRowKey row table.keyColumns))
    else collectUserKeys table rest (userRowKey row table.keyColumns :: seen)

/-- What a scan knows before it merges: the user rows' keys. -/
def scanUserKeys (table : CatalogTable) (source : LazyCatalogSource) (database : String) :
    DFResult (List (List String)) := do
  let userRows ← buildRowsFor table source database
  collectUserKeys table userRows []

end PgCatalog
