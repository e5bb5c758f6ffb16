import PgCatalog.Catalog.Defs

/-! The rows of the lazy catalog tables: one builder a table, each writing every
column a client reads, with the positions and counts checked into an `i32`. -/
namespace PgCatalog

/-- A JSON value as the builders make it: arrays hold text or numbers only. -/
inductive Value where
  | null
  | bool (b : Bool)
  | number (n : Int)
  | float (text : String)
  | string (s : String)
  | strings (items : List String)
  | numbers (items : List Int)
  deriving DecidableEq, Repr

/-- A `BTreeMap` from column name to value; no builder writes a column twice. -/
abbrev Row := List (String × Value)

def Row.get (row : Row) (column : String) : Option Value := row.lookup column

namespace Value

def oid (n : Int32) : Value := .number n.toInt

def optional {α : Type} (wrap : α → Value) : Option α → Value
  | some a => wrap a
  | none => .null

end Value

/-- `i32::try_from` of a length or an index. -/
def i32TryFrom (n : Nat) : Option Int32 :=
  if (n : Int) ≤ Int32.maxValue.toInt then some (Int32.ofNat n) else none

def oneBasedPosition (index : Nat) (relation : String) : DFResult Int32 :=
  match (i32TryFrom index).bind (checkedAdd · 1) with
  | some position => .ok position
  | none =>
    let limit := Int32.maxValue
    .error (.execution (s!"column at zero-based position {index} of '{relation}' cannot be "
      ++ "numbered: its 1-based position does not fit the int4 attribute number PostgreSQL uses "
      ++ s!"in pg_attribute.attnum (maximum {limit})"))

def attributeCountAsI32 (count : Nat) (relation : String) : DFResult Int32 :=
  match i32TryFrom count with
  | some n => .ok n
  | none =>
    let limit := Int32.maxValue
    .error (.execution (s!"'{relation}' reports {count} attributes, more than the int4 count "
      ++ s!"PostgreSQL keeps in pg_class.relnatts / pg_index.indnatts can hold (maximum {limit})"))

/-- Absence is NULL and an empty list is an empty array. -/
def stringListToJson : Option (List String) → Value := .optional .strings

def buildPgConfigRow (config : ConfigSettingDef) : Row :=
  [("name", .string config.name), ("setting", .string config.setting)]

def buildPgSettingsRow (setting : SettingDef) : Row :=
  [("name", .string setting.name), ("setting", .string setting.setting)]

def buildPgDatabaseRow (db : DatabaseDef) : Row :=
  [("oid", .oid db.oid),
   ("datname", .string db.datname),
   ("datdba", .oid db.datdba),
   ("encoding", .oid (db.encoding.getD 6)),
   ("datlocprovider", .optional (fun c => .string c.toString) db.datlocprovider),
   ("datistemplate", .bool (db.datistemplate.getD false)),
   ("datallowconn", .bool (db.datallowconn.getD true)),
   ("dathasloginevt", .bool (db.dathasloginevt.getD false)),
   ("datconnlimit", .oid (db.datconnlimit.getD (-1))),
   ("datfrozenxid", .string (db.datfrozenxid.getD "726")),
   ("datminmxid", .string (db.datminmxid.getD "1")),
   ("dattablespace", .oid (db.dattablespace.getD 1663)),
   ("datcollate", .string (db.datcollate.getD "C")),
   ("datctype", .string (db.datctype.getD "C")),
   ("datlocale", .optional .string db.datlocale),
   ("daticurules", .optional .string db.daticurules),
   ("datcollversion", .optional .string db.datcollversion),
   ("datacl", stringListToJson db.datacl)]

def buildPgNamespaceRow (schema : SchemaDef) : Row :=
  [("oid", .oid schema.oid),
   ("nspname", .string schema.name),
   ("nspowner", .oid (schema.ownerOid.getD DEFAULT_OWNER_ROLE_OID)),
   ("nspacl", .null)]

/-- The heap access method, an ordinary table's `relam`. -/
def HEAP_ACCESS_METHOD_OID : Int32 := 2

def buildPgClassRow (rel : RelationDef) (namespaceOid natts : Int32) : Row :=
  [("oid", .oid rel.oid),
   ("relname", .string rel.name),
   ("relnamespace", .oid namespaceOid),
   ("reltype", .oid rel.reltypeOid),
   ("relkind", .string rel.kind.relkind),
   ("relam", .oid HEAP_ACCESS_METHOD_OID),
   ("reltuples", .float "0.0"),
   ("relispartition", .bool false)] ++
  -- a source without owners leaves the column out, not null
  (match rel.ownerOid with
   | some owner => [("relowner", .oid owner)]
   | none => []) ++
  [("relhasindex", .bool rel.hasIndex),
   ("relhasrules", .bool rel.hasRules),
   ("relhastriggers", .bool rel.hasTriggers),
   ("relrowsecurity", .bool rel.rowSecurity),
   ("relispopulated", .bool true),
   ("relpersistence", .string "p"),
   ("relreplident", .string "d"),
   ("relnatts", .oid natts),
   ("relchecks", .number 0),
   ("relhassubclass", .bool false),
   ("relfilenode", .oid rel.oid),
   ("reltablespace", .number 0),
   ("relpages", .number 0),
   ("relallvisible", .number 0),
   ("reltoastrelid", .number 0),
   ("relfrozenxid", .number 0),
   ("relminmxid", .number 0)]

/-- The B-tree access method, an index's `relam`. -/
def BTREE_ACCESS_METHOD_OID : Int32 := 403

def buildIndexPgClassRow (index : IndexDef) (namespaceOid : Int32) : Row :=
  [("oid", .oid index.indexOid),
   ("relname", .string index.indexName),
   ("relnamespace", .oid namespaceOid),
   ("reltype", .number 0),
   ("relkind", .string "i"),
   ("relam", .oid BTREE_ACCESS_METHOD_OID),
   ("reltuples", .float "0.0"),
   ("relispartition", .bool false),
   ("relhasindex", .bool false),
   ("relhasrules", .bool false),
   ("relhastriggers", .bool false),
   ("relrowsecurity", .bool false),
   ("relispopulated", .bool true),
   ("relpersistence", .string "p"),
   ("relreplident", .string "n")]

def buildPgIndexRow (index : IndexDef) : Row :=
  let natts := Int32.ofNat index.keyAttnums.length
  [("indexrelid", .oid index.indexOid),
   ("indrelid", .oid index.tableOid),
   ("indnatts", .oid natts),
   ("indnkeyatts", .oid natts),
   ("indisunique", .bool index.isUnique),
   ("indnullsnotdistinct", .bool false),
   ("indisprimary", .bool index.isPrimary),
   ("indisexclusion", .bool false),
   ("indimmediate", .bool true),
   ("indisclustered", .bool false),
   ("indisvalid", .bool true),
   ("indcheckxmin", .bool false),
   ("indisready", .bool true),
   ("indislive", .bool true),
   ("indisreplident", .bool false),
   ("indkey", .numbers (index.keyAttnums.map (·.toInt)))]

/-- The references of a foreign key; the other kinds write PostgreSQL's sentinels. -/
def constraintReferenceColumns (constraint : ConstraintDef) : Row :=
  if constraint.kind = .foreignKey then
    [("confrelid", .oid constraint.referencedTableOid),
     ("confkey", .numbers (constraint.referencedKeyAttnums.map (·.toInt))),
     ("confupdtype", .string constraint.onUpdate.code),
     ("confdeltype", .string constraint.onDelete.code),
     ("confmatchtype", .string constraint.matchType.code)]
  else
    [("confrelid", .number 0),
     ("confkey", .null),
     ("confupdtype", .string " "),
     ("confdeltype", .string " "),
     ("confmatchtype", .string " ")]

def buildPgConstraintRow (constraint : ConstraintDef) : Row :=
  [("oid", .oid constraint.oid),
   ("conname", .string constraint.name),
   ("connamespace", .oid constraint.namespaceOid),
   ("contype", .string constraint.kind.contype),
   ("condeferrable", .bool false),
   ("condeferred", .bool false),
   ("convalidated", .bool true),
   ("conrelid", .oid constraint.tableOid),
   ("contypid", .number 0),
   ("conindid", .oid constraint.indexOid),
   ("conparentid", .number 0),
   ("conkey", .numbers (constraint.keyAttnums.map (·.toInt))),
   ("conislocal", .bool true),
   ("coninhcount", .number 0),
   ("connoinherit", .bool false)] ++ constraintReferenceColumns constraint

def buildPgTypeRowtypeRow (rel : RelationDef) (namespaceOid : Int32) : Row :=
  [("oid", .oid rel.reltypeOid),
   ("typname", .string rel.name),
   ("typnamespace", .oid namespaceOid),
   ("typrelid", .oid rel.oid),
   ("typlen", .number (-1)),
   ("typtype", .string "c"),
   ("typcategory", .string "C"),
   ("typbyval", .bool false),
   ("typalign", .string "d"),
   ("typstorage", .string "x"),
   ("typisdefined", .bool true),
   ("typispreferred", .bool false),
   ("typnotnull", .bool false),
   ("typelem", .number 0),
   ("typarray", .number 0),
   ("typbasetype", .number 0),
   ("typtypmod", .number (-1)),
   ("typndims", .number 0),
   ("typinput", .string "record_in"),
   ("typoutput", .string "record_out"),
   ("typreceive", .string "record_recv"),
   ("typsend", .string "record_send"),
   ("typdelim", .string ",")]

/-- `(attlen, attbyval, attalign, attstorage)` of a type. -/
def columnTypeStorage (typeOid : Int32) : Int × Bool × String × String :=
  if typeOid ∈ [16, 18] then (1, true, "c", "p")
  else if typeOid = 21 then (2, true, "s", "p")
  else if typeOid ∈ [23, 26, 700, 1082] then (4, true, "i", "p")
  else if typeOid ∈ [20, 701, 1114, 1184] then (8, true, "d", "p")
  else if typeOid = 1700 then (-1, false, "i", "m")
  else (-1, false, "i", "x")

def columnCollation (typeOid : Int32) : Int :=
  if typeOid ∈ [25, 1042, 1043] then 100 else 0

def buildPgAttributeRow (attrelid : Int32) (idx : Nat) (col : ColumnSpec) : Row :=
  let (attlen, attbyval, attalign, attstorage) := columnTypeStorage col.typeOid
  let attnum := Int32.ofNat (idx + 1)
  [("attrelid", .oid attrelid),
   ("attname", .string col.name),
   ("atttypid", .oid col.typeOid),
   ("attnum", .oid attnum),
   ("atttypmod", .number (-1)),
   ("attnotnull", .bool (!col.nullable)),
   ("atthasdef", .bool col.hasDefault),
   ("attisdropped", .bool false),
   ("attlen", .number attlen),
   ("attbyval", .bool attbyval),
   ("attalign", .string attalign),
   ("attstorage", .string attstorage),
   ("attcollation", .number (columnCollation col.typeOid)),
   ("attndims", .number 0),
   ("attcacheoff", .number (-1)),
   ("attislocal", .bool true),
   ("attinhcount", .number 0),
   ("attstattarget", .number (-1)),
   ("attidentity", .string ""),
   ("attgenerated", .string ""),
   ("attcompression", .string ""),
   ("atthasmissing", .bool false)]

def buildPgAttributeRows (attrelid : Int32) (columns : List ColumnSpec) : List Row :=
  columns.zipIdx.map fun (col, idx) => buildPgAttributeRow attrelid idx col

def SYNTHETIC_ATTRDEF_OID_BASE : Int32 := 900000

def buildPgAttrdefRow (oid adrelid adnum : Int32) : Row :=
  [("oid", .oid oid), ("adrelid", .oid adrelid), ("adnum", .oid adnum), ("adbin", .null)]

def buildInfoTablesRow (catalog schema : String) (rel : RelationDef) : Row :=
  [("table_catalog", .string catalog),
   ("table_schema", .string schema),
   ("table_name", .string rel.name),
   ("table_type", .string rel.kind.tableType),
   ("is_insertable_into", .string "YES"),
   ("is_typed", .string "NO")]

def oidToTypeNames (oid : Int32) : String × String :=
  if oid = 23 then ("integer", "int4")
  else if oid = 20 then ("bigint", "int8")
  else if oid = 16 then ("boolean", "bool")
  else if oid = 1043 then ("character varying", "varchar")
  else ("text", "text")

def buildInfoColumnsRows (catalog schema relation : String) (columns : List ColumnSpec) :
    DFResult (List Row) :=
  columns.zipIdx.mapM fun (col, idx) => do
    let (dataType, udtName) := oidToTypeNames col.typeOid
    let ordinal ← oneBasedPosition idx relation
    return [("table_catalog", .string catalog),
      ("table_schema", .string schema),
      ("table_name", .string relation),
      ("column_name", .string col.name),
      ("ordinal_position", .oid ordinal),
      ("is_nullable", .string (if col.nullable then "YES" else "NO")),
      ("data_type", .string dataType),
      ("udt_catalog", .string catalog),
      ("udt_schema", .string "pg_catalog"),
      ("udt_name", .string udtName),
      ("dtd_identifier", .string (toString ordinal)),
      ("is_self_referencing", .string "NO"),
      ("is_identity", .string "NO"),
      ("is_generated", .string "NEVER"),
      ("is_updatable", .string "YES")]

def buildInfoSchemataRow (catalog : String) (schema : SchemaDef) : Row :=
  [("catalog_name", .string catalog), ("schema_name", .string schema.name),
   ("schema_owner", .null)]

end PgCatalog
