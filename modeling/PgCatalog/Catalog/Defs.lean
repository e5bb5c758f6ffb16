import PgCatalog.Registry.Registry

/-! The objects a catalog source reports, and the source itself: one answer per
question, delivered in any number of callback invocations. -/
namespace PgCatalog

/-- The role that owns an object whose host named no owner. -/
def DEFAULT_OWNER_ROLE_OID : Int32 := 10

structure DatabaseDef where
  oid : Int32
  datname : String
  datdba : Int32
  encoding : Option Int32 := none
  datlocprovider : Option Char := none
  datistemplate : Option Bool := none
  datallowconn : Option Bool := none
  dathasloginevt : Option Bool := none
  datconnlimit : Option Int32 := none
  datfrozenxid : Option String := none
  datminmxid : Option String := none
  dattablespace : Option Int32 := none
  datcollate : Option String := none
  datctype : Option String := none
  datlocale : Option String := none
  daticurules : Option String := none
  datcollversion : Option String := none
  datacl : Option (List String) := none
  deriving DecidableEq, Repr

structure ConfigSettingDef where
  name : String
  setting : String
  deriving DecidableEq, Repr

structure SettingDef where
  name : String
  setting : String
  deriving DecidableEq, Repr

structure SchemaDef where
  oid : Int32
  name : String
  ownerOid : Option Int32 := none
  deriving DecidableEq, Repr

inductive RelationKind where
  | table | view | materializedView
  deriving DecidableEq, Repr

namespace RelationKind

def relkind : RelationKind → String
  | .table => "r"
  | .view => "v"
  | .materializedView => "m"

def tableType : RelationKind → String
  | .table => "BASE TABLE"
  | .view => "VIEW"
  | .materializedView => "MATERIALIZED VIEW"

end RelationKind

structure RelationDef where
  oid : Int32
  reltypeOid : Int32
  name : String
  kind : RelationKind := .table
  ownerOid : Option Int32 := none
  hasIndex : Bool := false
  hasRules : Bool := false
  hasTriggers : Bool := false
  rowSecurity : Bool := false
  deriving DecidableEq, Repr

/-- An index: one `pg_class` row for its name and one `pg_index` row for its structure. -/
structure IndexDef where
  indexOid : Int32
  indexName : String
  tableOid : Int32
  keyAttnums : List Int32
  isUnique : Bool := false
  isPrimary : Bool := false
  deriving DecidableEq, Repr

inductive ConstraintKind where
  | primaryKey | unique | foreignKey
  deriving DecidableEq, Repr

def ConstraintKind.contype : ConstraintKind → String
  | .primaryKey => "p"
  | .unique => "u"
  | .foreignKey => "f"

inductive ForeignKeyAction where
  | noAction | restrict | cascade | setNull | setDefault
  deriving DecidableEq, Repr

def ForeignKeyAction.code : ForeignKeyAction → String
  | .noAction => "a"
  | .restrict => "r"
  | .cascade => "c"
  | .setNull => "n"
  | .setDefault => "d"

inductive ForeignKeyMatch where
  | full | partialMatch | simple
  deriving DecidableEq, Repr

def ForeignKeyMatch.code : ForeignKeyMatch → String
  | .full => "f"
  | .partialMatch => "p"
  | .simple => "s"

structure ConstraintDef where
  oid : Int32
  name : String
  kind : ConstraintKind
  namespaceOid : Int32
  tableOid : Int32
  keyAttnums : List Int32
  indexOid : Int32
  referencedTableOid : Int32
  referencedKeyAttnums : List Int32
  onUpdate : ForeignKeyAction
  onDelete : ForeignKeyAction
  matchType : ForeignKeyMatch
  deriving DecidableEq, Repr

structure ColumnSpec where
  name : String
  typeOid : Int32
  nullable : Bool
  hasDefault : Bool := false
  deriving DecidableEq, Repr

def ColumnSpec.withDefault (spec : ColumnSpec) : ColumnSpec := { spec with hasDefault := true }

/-- What a source method did: the batches it handed to its callback, and whether
it then returned an error. -/
structure Delivery (α : Type) where
  batches : List (List α)
  result : DFResult Unit

namespace Delivery

/-- A method with nothing to contribute never calls back. -/
def nothing {α : Type} : Delivery α := ⟨[], .ok ()⟩

/-- One callback with everything. -/
def once {α : Type} (items : List α) : Delivery α := ⟨[items], .ok ()⟩

/-- What the `fetch_*` helpers accumulate: every batch in order, or the error. -/
def fetch {α : Type} (d : Delivery α) : DFResult (List α) := do
  d.result
  return d.batches.flatten

@[simp] theorem fetch_once {α : Type} (items : List α) : (once items).fetch = .ok items := by
  simp only [fetch, once, ok_bind, List.flatten_cons, List.flatten_nil, List.append_nil]
  rfl

@[simp] theorem fetch_nothing {α : Type} : (nothing : Delivery α).fetch = .ok [] := rfl

end Delivery

/-- A source whose answers are the same on every call. -/
structure LazyCatalogSource where
  databases : Delivery DatabaseDef
  schemas : String → Delivery SchemaDef
  relations : String → String → Delivery RelationDef
  columns : String → String → String → Delivery ColumnSpec
  indexes : String → String → Delivery IndexDef := fun _ _ => .nothing
  constraints : String → String → Delivery ConstraintDef := fun _ _ => .nothing
  config : Delivery ConfigSettingDef := .nothing
  settings : Delivery SettingDef := .nothing

end PgCatalog
