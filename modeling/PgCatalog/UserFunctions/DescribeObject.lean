import PgCatalog.Library.Separated
import PgCatalog.UserFunctions.TypeModifiers

/-! `pg_describe_object`: what a description is made of, and which objects it tells apart. -/
namespace PgCatalog.UserFunctions

open Library

def PG_CLASS : Int := 1259
def PG_PROC : Int := 1255
def PG_TYPE : Int := 1247
def PG_NAMESPACE : Int := 2615
def PG_OPERATOR : Int := 2617
def PG_LANGUAGE : Int := 2612
def PG_EXTENSION : Int := 3079

structure PgClassRow where
  relname : String
  relkind : String
  relnamespace : Int

structure PgProcRow where
  proname : String
  pronamespace : Int
  proargtypes : Option (List Int)

structure PgTypeRow where
  typname : String
  typnamespace : Int

structure PgOperatorRow where
  oprname : String
  oprnamespace : Int
  oprleft : Int
  oprright : Int

/-- The tables that are read, by their OIDs; names in them are unique as their keys say. -/
structure ObjectCatalog where
  namespaces : Int → Option String
  classes : Int → Option PgClassRow
  attributes : Int → Int → Option String
  procs : Int → Option PgProcRow
  types : Int → Option PgTypeRow
  operators : Int → Option PgOperatorRow
  languages : Int → Option String
  extensions : Int → Option String
  namespaces_inj : ∀ {o o' name}, namespaces o = some name → namespaces o' = some name → o = o'
  classes_inj : ∀ {o o' row row'}, classes o = some row → classes o' = some row' →
    row.relname = row'.relname → row.relnamespace = row'.relnamespace → o = o'
  attributes_inj : ∀ {rel n n' name}, attributes rel n = some name → attributes rel n' = some name →
    n = n'
  procs_inj : ∀ {o o' row row'}, procs o = some row → procs o' = some row' →
    row.proname = row'.proname → row.pronamespace = row'.pronamespace →
      row.proargtypes = row'.proargtypes → o = o'
  types_inj : ∀ {o o' row row'}, types o = some row → types o' = some row' →
    row.typname = row'.typname → row.typnamespace = row'.typnamespace → o = o'
  operators_inj : ∀ {o o' row row'}, operators o = some row → operators o' = some row' →
    row.oprname = row'.oprname → row.oprnamespace = row'.oprnamespace →
      row.oprleft = row'.oprleft → row.oprright = row'.oprright → o = o'
  languages_inj : ∀ {o o' name}, languages o = some name → languages o' = some name → o = o'
  extensions_inj : ∀ {o o' name}, extensions o = some name → extensions o' = some name → o = o'

def relkindLabel (relkind : String) : String :=
  if relkind = "i" ∨ relkind = "I" then "index"
  else if relkind = "S" then "sequence"
  else if relkind = "t" then "toast table"
  else if relkind = "v" then "view"
  else if relkind = "m" then "materialized view"
  else if relkind = "c" then "composite type"
  else if relkind = "f" then "foreign table"
  else "table"

def onSearchPathOrQualified (schema name : String) : String :=
  if schema = "pg_catalog" ∨ schema = "public" then name else schema ++ ("." ++ name)

structure DescribedRelation where
  kindLabel : String
  displayName : String
  columnsByAttnum : Int → Option String

namespace ObjectCatalog

variable (c : ObjectCatalog)

/-- The names that the session renders once for all its snapshots. -/
def typeNames (oid : Int) : Option String :=
  (c.types oid).bind fun _ => formatTypeName oid none fun oid => (c.types oid).map (·.typname)

/-- The types of a function's arguments; one without a name is its number. -/
def renderedArguments (proargtypes : Option (List Int)) : List String :=
  (proargtypes.getD []).map fun oid => (c.typeNames oid).getD (toString oid)

def functions (oid : Int) : Option String := do
  let row ← c.procs oid
  let schema ← c.namespaces row.pronamespace
  return onSearchPathOrQualified schema row.proname ++
    ("(" ++ (",".intercalate (c.renderedArguments row.proargtypes) ++ ")"))

def relations (oid : Int) : Option DescribedRelation := do
  let row ← c.classes oid
  let schema ← c.namespaces row.relnamespace
  return ⟨relkindLabel row.relkind, onSearchPathOrQualified schema row.relname, fun attnum =>
    if 0 < attnum then c.attributes oid attnum else none⟩

/-- A missing side of an operator is `NONE`. -/
def operand (oid : Int) : String := (c.typeNames oid).getD "NONE"

def operatorTexts (oid : Int) : Option String :=
  (c.operators oid).map fun row =>
    row.oprname ++ ("(" ++ (c.operand row.oprleft ++ ("," ++ (c.operand row.oprright ++ ")"))))

def describe (classid objid objsubid : Int) : Except String (Option String) :=
  if classid = PG_CLASS then .ok ((c.relations objid).bind fun relation =>
    let base := relation.kindLabel ++ (" " ++ relation.displayName)
    if objsubid = 0 then some base
    else (relation.columnsByAttnum objsubid).map fun column =>
      "column " ++ (column ++ (" of " ++ base)))
  else if classid = PG_PROC then
    .ok ((c.functions objid).map fun signature => "function " ++ signature)
  else if classid = PG_TYPE then .ok ((c.typeNames objid).map fun name => "type " ++ name)
  else if classid = PG_NAMESPACE then .ok ((c.namespaces objid).map fun name => "schema " ++ name)
  else if classid = PG_OPERATOR then
    .ok ((c.operatorTexts objid).map fun rendered => "operator " ++ rendered)
  else if classid = PG_LANGUAGE then .ok ((c.languages objid).map fun name => "language " ++ name)
  else if classid = PG_EXTENSION then
    .ok ((c.extensions objid).map fun name => "extension " ++ name)
  else .error ("unsupported object class: " ++ toString classid)

end ObjectCatalog

/-! ## Telling objects apart -/

def SEARCH_PATH : List String := ["pg_catalog", "public"]

/-- A reference without a schema finds an object of the first schema on the path that has one. -/
def FoundOn (has : String → Prop) (schema : String) : List String → Prop
  | [] => False
  | first :: rest => (has first ∧ schema = first) ∨ (¬has first ∧ FoundOn has schema rest)

/-- An object of a schema, with what is written before and after a qualified name's schema, and
which schemas have objects that an unqualified reference to it could mean. -/
structure SchemaObject where
  kind : String
  schema : String
  rest : String
  has : String → Prop

def SchemaObject.Visible (object : SchemaObject) : Prop :=
  FoundOn object.has object.schema SEARCH_PATH

namespace ObjectCatalog

variable (c : ObjectCatalog)

def relationObject (objid : Int) : Option SchemaObject := do
  let row ← c.classes objid
  let schema ← c.namespaces row.relnamespace
  return ⟨relkindLabel row.relkind ++ " ", schema, row.relname, fun p => ∃ o other,
    c.classes o = some other ∧ other.relname = row.relname ∧
      c.namespaces other.relnamespace = some p⟩

def functionObject (objid : Int) : Option SchemaObject := do
  let row ← c.procs objid
  let schema ← c.namespaces row.pronamespace
  return ⟨"function ", schema,
    row.proname ++ ("(" ++ (",".intercalate (c.renderedArguments row.proargtypes) ++ ")")),
    fun p => ∃ o other, c.procs o = some other ∧ other.proname = row.proname ∧
      other.proargtypes = row.proargtypes ∧ c.namespaces other.pronamespace = some p⟩

def typeObject (objid : Int) : Option SchemaObject := do
  let row ← c.types objid
  let name ← c.typeNames objid
  let schema ← c.namespaces row.typnamespace
  return ⟨"type ", schema, name, fun p => ∃ o other, c.types o = some other ∧
    other.typname = row.typname ∧ c.namespaces other.typnamespace = some p⟩

def operatorObject (objid : Int) : Option SchemaObject := do
  let row ← c.operators objid
  let text ← c.operatorTexts objid
  let schema ← c.namespaces row.oprnamespace
  return ⟨"operator ", schema, text, fun p => ∃ o other, c.operators o = some other ∧
    other.oprname = row.oprname ∧ other.oprleft = row.oprleft ∧ other.oprright = row.oprright ∧
      c.namespaces other.oprnamespace = some p⟩

/-- The objects that schemas have. -/
def schemaObject (classid objid : Int) : Option SchemaObject :=
  if classid = PG_CLASS then c.relationObject objid
  else if classid = PG_PROC then c.functionObject objid
  else if classid = PG_TYPE then c.typeObject objid
  else if classid = PG_OPERATOR then c.operatorObject objid
  else none

/-- Two addresses of a class do not have the same text, and the first's object is qualified
exactly if it is not found without its schema. -/
structure DescribedRight (classid : Int) (a b : Int × Int) : Prop where
  apart : a ≠ b → ∀ text, c.describe classid a.1 a.2 = .ok (some text) →
    c.describe classid b.1 b.2 ≠ .ok (some text)
  visible : ∀ object, c.schemaObject classid a.1 = some object → object.Visible →
    c.describe classid a.1 0 = .ok (some (object.kind ++ object.rest))
  qualified : ∀ object, c.schemaObject classid a.1 = some object → ¬object.Visible →
    c.describe classid a.1 0 =
      .ok (some (object.kind ++ (object.schema ++ ("." ++ object.rest))))

end ObjectCatalog

end PgCatalog.UserFunctions
