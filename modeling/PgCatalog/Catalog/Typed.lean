import PgCatalog.Catalog.Scan
import PgCatalog.Catalog.Surveyed

/-! What every built row is made of: key columns hold numbers or names as their types
say, and every other number is small enough for any column. -/
namespace PgCatalog

open Library

/-- A number the builders write: an integer of 64 bits or the one float. -/
def Value.Plain : Value → Prop
  | .number n => -9223372036854775808 ≤ n ∧ n ≤ 9223372036854775807
  | .float text => text = "0.0"
  | _ => True

namespace Value

@[simp] theorem plain_null : null.Plain := trivial

@[simp] theorem plain_bool (b : Bool) : (bool b).Plain := trivial

@[simp] theorem plain_string (s : String) : (string s).Plain := trivial

@[simp] theorem plain_strings (items : List String) : (strings items).Plain := trivial

@[simp] theorem plain_numbers (items : List Int) : (numbers items).Plain := trivial

@[simp] theorem plain_float : (float "0.0").Plain := rfl

@[simp] theorem plain_number (n : Int) :
    (number n).Plain ↔ -9223372036854775808 ≤ n ∧ n ≤ 9223372036854775807 := Iff.rfl

@[simp] theorem plain_oid (n : Int32) : (oid n).Plain := by
  have low := n.le_toInt
  have high := n.toInt_lt
  rw [oid, plain_number]
  omega

@[simp] theorem plain_optional {α : Type} {wrap : α → Value} (plain : ∀ a, (wrap a).Plain)
    (a : Option α) : (optional wrap a).Plain := by
  cases a with
  | none => trivial
  | some a => exact plain a

end Value

/-- The value a key column must hold. -/
def KeyValue (column : String) (value : Option Value) : Prop :=
  if keyColumnType column = .int32 then ∃ n, value = some (.oid n)
  else ∃ s, value = some (.string s)

/-- A row as a builder of the table makes it. -/
structure RowOf (table : CatalogTable) (row : Row) : Prop where
  plain : ∀ entry ∈ row, entry.2.Plain
  keyed : ∀ column ∈ table.keyColumns ++ table.builtinShadowKeyColumns,
    KeyValue column (row.get column)

theorem keyValue_oid {column : String} {value : Option Value} (n : Int32)
    (number : keyColumnType column = .int32) (held : value = some (.oid n)) :
    KeyValue column value := by
  unfold KeyValue
  rw [if_pos number]
  exact ⟨n, held⟩

theorem keyValue_name {column : String} {value : Option Value} (s : String)
    (name : keyColumnType column = .utf8) (held : value = some (.string s)) :
    KeyValue column value := by
  unfold KeyValue
  rw [if_neg (by rw [name]; exact nofun)]
  exact ⟨s, held⟩

/-- Outside `pg_namespace` a row is shadowed by its identity. -/
theorem RowOf.of_keys {table : CatalogTable} {row : Row} (plain : ∀ entry ∈ row, entry.2.Plain)
    (keys : ∀ column ∈ table.keyColumns, KeyValue column (row.get column))
    (same : table.builtinShadowKeyColumns = table.keyColumns) : RowOf table row := by
  refine ⟨plain, fun column member => ?_⟩
  rw [same] at member
  exact keys column ((List.mem_append.mp member).elim id id)

section
variable {column : String} {row : Row}

theorem keys_one (first : KeyValue column (row.get column)) :
    ∀ c ∈ [column], KeyValue c (row.get c) := by
  intro c member
  obtain rfl := List.mem_singleton.mp member
  exact first

theorem keys_cons {rest : List String} (first : KeyValue column (row.get column))
    (later : ∀ c ∈ rest, KeyValue c (row.get c)) :
    ∀ c ∈ column :: rest, KeyValue c (row.get c) :=
  List.forall_mem_cons.mpr ⟨first, later⟩

end

theorem pgConfig_rowOf (config : ConfigSettingDef) :
    RowOf .pgConfig (buildPgConfigRow config) :=
  .of_keys (by simp [buildPgConfigRow]) (keys_one (keyValue_name _ rfl rfl)) rfl

theorem pgSettings_rowOf (setting : SettingDef) :
    RowOf .pgSettings (buildPgSettingsRow setting) :=
  .of_keys (by simp [buildPgSettingsRow]) (keys_one (keyValue_name _ rfl rfl)) rfl

theorem pgDatabase_rowOf (db : DatabaseDef) : RowOf .pgDatabase (buildPgDatabaseRow db) :=
  .of_keys (by simp [buildPgDatabaseRow, stringListToJson]) (keys_one (keyValue_name _ rfl rfl)) rfl

theorem pgNamespace_rowOf (schema : SchemaDef) :
    RowOf .pgNamespace (buildPgNamespaceRow schema) :=
  ⟨by simp [buildPgNamespaceRow],
    keys_cons (keyValue_oid _ rfl rfl) (keys_one (keyValue_name _ rfl rfl))⟩

theorem pgClass_rowOf (rel : RelationDef) (namespaceOid natts : Int32) :
    RowOf .pgClass (buildPgClassRow rel namespaceOid natts) := by
  refine .of_keys ?_ (keys_cons (keyValue_oid _ rfl rfl) (keys_one (keyValue_name _ rfl rfl))) rfl
  unfold buildPgClassRow
  cases rel.ownerOid <;> simp

theorem indexPgClass_rowOf (index : IndexDef) (namespaceOid : Int32) :
    RowOf .pgClass (buildIndexPgClassRow index namespaceOid) :=
  .of_keys (by simp [buildIndexPgClassRow])
    (keys_cons (keyValue_oid _ rfl rfl) (keys_one (keyValue_name _ rfl rfl))) rfl

theorem pgIndex_rowOf (index : IndexDef) : RowOf .pgIndex (buildPgIndexRow index) :=
  .of_keys (by simp [buildPgIndexRow]) (keys_one (keyValue_oid _ rfl rfl)) rfl

theorem pgConstraint_rowOf (constraint : ConstraintDef) :
    RowOf .pgConstraint (buildPgConstraintRow constraint) := by
  refine .of_keys ?_ (keys_one (keyValue_oid _ rfl rfl)) rfl
  unfold buildPgConstraintRow constraintReferenceColumns
  split <;> simp

theorem pgType_rowOf (rel : RelationDef) (namespaceOid : Int32) :
    RowOf .pgType (buildPgTypeRowtypeRow rel namespaceOid) :=
  .of_keys (by simp [buildPgTypeRowtypeRow])
    (keys_cons (keyValue_oid _ rfl rfl) (keys_one (keyValue_name _ rfl rfl))) rfl

theorem columnTypeStorage_plain (typeOid : Int32) :
    (Value.number (columnTypeStorage typeOid).1).Plain := by
  unfold columnTypeStorage
  repeat' split
  all_goals simp

theorem columnCollation_plain (typeOid : Int32) :
    (Value.number (columnCollation typeOid)).Plain := by
  unfold columnCollation
  split <;> simp

theorem pgAttribute_rowOf (attrelid : Int32) (idx : Nat) (col : ColumnSpec) :
    RowOf .pgAttribute (buildPgAttributeRow attrelid idx col) := by
  refine .of_keys ?_ (keys_cons (keyValue_oid _ rfl rfl) (keys_one (keyValue_name _ rfl rfl))) rfl
  have storage := columnTypeStorage_plain col.typeOid
  have collation := columnCollation_plain col.typeOid
  rw [Value.plain_number] at storage collation
  simp [buildPgAttributeRow, storage, collation]

theorem pgAttrdef_rowOf (oid adrelid adnum : Int32) :
    RowOf .pgAttrdef (buildPgAttrdefRow oid adrelid adnum) :=
  .of_keys (by simp [buildPgAttrdefRow])
    (keys_cons (keyValue_oid _ rfl rfl) (keys_one (keyValue_oid _ rfl rfl))) rfl

theorem infoTables_rowOf (catalog schema : String) (rel : RelationDef) :
    RowOf .informationSchemaTables (buildInfoTablesRow catalog schema rel) :=
  .of_keys (by simp [buildInfoTablesRow])
    (keys_cons (keyValue_name _ rfl rfl) (keys_cons (keyValue_name _ rfl rfl)
      (keys_one (keyValue_name _ rfl rfl)))) rfl

theorem infoSchemata_rowOf (catalog : String) (schema : SchemaDef) :
    RowOf .informationSchemaSchemata (buildInfoSchemataRow catalog schema) :=
  .of_keys (by simp [buildInfoSchemataRow])
    (keys_cons (keyValue_name _ rfl rfl) (keys_one (keyValue_name _ rfl rfl))) rfl

section
variable {source : LazyCatalogSource} {database : String} {Good : Row → Prop}

theorem mapped_all {α : Type} {answered : DFResult (List α)} {build : α → Row} {out : List Row}
    (built : (do return (← answered).map build) = (.ok out : DFResult (List Row)))
    (each : ∀ a, Good (build a)) : ∀ row ∈ out, Good row := by
  cases answered with
  | error e => cases built
  | ok items =>
    obtain rfl := Except.ok.inj built
    intro row member
    obtain ⟨a, _, rfl⟩ := List.mem_map.mp member
    exact each a

theorem walked_all {α : Type} {answered : DFResult (List α)} {rows : α → DFResult (List Row)}
    {out : List Row}
    (built : (do
      let items ← answered
      return (← items.mapM rows).flatten) = (.ok out : DFResult (List Row)))
    (each : ∀ a part, rows a = .ok part → ∀ row ∈ part, Good row) : ∀ row ∈ out, Good row := by
  cases answered with
  | error e => cases built
  | ok items =>
    rw [ok_bind] at built
    cases walked : items.mapM rows with
    | error e => rw [walked] at built; cases built
    | ok parts =>
      rw [walked, ok_bind] at built
      obtain rfl := Except.ok.inj built
      intro row member
      obtain ⟨part, inside, here⟩ := List.mem_flatten.mp member
      obtain ⟨a, _, made⟩ := mem_mapM_ok walked part inside
      exact each a part made row here

theorem schemas_all {rows : SchemaDef → DFResult (List Row)} {out : List Row}
    (built : collectSchemas source database rows = .ok out)
    (each : ∀ schema part, rows schema = .ok part → ∀ row ∈ part, Good row) :
    ∀ row ∈ out, Good row := walked_all built each

theorem relations_all {schema : SchemaDef} {rows : RelationDef → DFResult (List Row)}
    {out : List Row} (built : collectRelations source database schema rows = .ok out)
    (each : ∀ rel part, rows rel = .ok part → ∀ row ∈ part, Good row) :
    ∀ row ∈ out, Good row := walked_all built each

theorem numbered_all {α : Type} {part : α → Int32 → DFResult (List Row × Int32)} {xs : List α}
    (each : ∀ x oid rows next, part x oid = .ok (rows, next) → ∀ row ∈ rows, Good row)
    {oid next : Int32} {rows : List Row} (built : numberedRows part xs oid = .ok (rows, next)) :
    ∀ row ∈ rows, Good row := by
  induction xs generalizing oid rows with
  | nil =>
    obtain ⟨rfl, rfl⟩ := Prod.mk.inj (Except.ok.inj built)
    intro row member
    cases member
  | cons x rest ih =>
    unfold numberedRows at built
    cases first : part x oid with
    | error e => rw [first] at built; cases built
    | ok answer =>
      rw [first, ok_bind] at built
      obtain ⟨here, number⟩ := answer
      dsimp only at built
      cases tail : numberedRows part rest number with
      | error e => rw [tail] at built; cases built
      | ok answer =>
        rw [tail, ok_bind] at built
        obtain ⟨more, last⟩ := answer
        obtain ⟨rfl, rfl⟩ := Prod.mk.inj (Except.ok.inj built)
        intro row member
        obtain early | late := List.mem_append.mp member
        · exact each x oid here number first row early
        · exact ih tail row late

theorem classRows_all {schema : SchemaDef} {part : List Row}
    (built : (do
      let relations ← collectRelations source database schema (pgClassRows source database schema)
      let indexes ← (source.indexes database schema.name).fetch
      return relations ++ indexes.map (buildIndexPgClassRow · schema.oid)) =
        (.ok part : DFResult (List Row))) : ∀ row ∈ part, RowOf .pgClass row := by
  cases relations : collectRelations source database schema
      (pgClassRows source database schema) with
  | error e => rw [relations] at built; cases built
  | ok rows =>
    rw [relations, ok_bind] at built
    cases fetched : (source.indexes database schema.name).fetch with
    | error e => rw [fetched] at built; cases built
    | ok indexes =>
      rw [fetched, ok_bind] at built
      obtain rfl := Except.ok.inj built
      intro row member
      obtain relation | index := List.mem_append.mp member
      · refine relations_all relations (fun rel part made => ?_) row relation
        rw [(counted_columns (p := (schema, rel)) made).2]
        intro row member
        obtain rfl := List.mem_singleton.mp member
        exact pgClass_rowOf _ _ _
      · obtain ⟨index, _, rfl⟩ := List.mem_map.mp index
        exact indexPgClass_rowOf _ _

theorem attributeRows_all {schema : SchemaDef} {rel : RelationDef} {part : List Row}
    (made : pgAttributeRows source database schema rel = .ok part) :
    ∀ row ∈ part, RowOf .pgAttribute row := by
  rw [(counted_columns (p := (schema, rel)) made).2]
  intro row member
  obtain ⟨column, _, rfl⟩ := List.mem_map.mp member
  exact pgAttribute_rowOf _ _ _

theorem indexRow_rowOf {index : IndexDef} {row : Row}
    (made : (do
      let _ ← attributeCountAsI32 index.keyAttnums.length index.indexName
      return buildPgIndexRow index) = (.ok row : DFResult Row)) : RowOf .pgIndex row := by
  cases counted : attributeCountAsI32 index.keyAttnums.length index.indexName with
  | error e => rw [counted] at made; cases made
  | ok natts =>
    rw [counted, ok_bind] at made
    obtain rfl := Except.ok.inj made
    exact pgIndex_rowOf index

theorem attrdefOfColumn_all {rel : RelationDef} {column : ColumnSpec × Nat} {oid next : Int32}
    {rows : List Row} (built : attrdefOfColumn rel column oid = .ok (rows, next)) :
    ∀ row ∈ rows, RowOf .pgAttrdef row := by
  rw [(attrdefOfColumn_numbered built).1]
  split
  · intro row member
    obtain rfl := List.mem_singleton.mp member
    exact pgAttrdef_rowOf _ _ _
  · exact nofun

theorem infoColumns_all {catalog schema relation : String} {columns : List ColumnSpec}
    {part : List Row} (built : buildInfoColumnsRows catalog schema relation columns = .ok part) :
    ∀ row ∈ part, RowOf .informationSchemaColumns row := by
  intro row member
  obtain ⟨column, _, made⟩ := mem_mapM_ok built row member
  dsimp only at made
  cases position : oneBasedPosition column.2 relation with
  | error e => rw [position] at made; cases made
  | ok ordinal =>
    rw [position, ok_bind] at made
    obtain rfl := Except.ok.inj made
    exact .of_keys (by simp)
      (keys_cons (keyValue_name _ rfl rfl) (keys_cons (keyValue_name _ rfl rfl)
        (keys_cons (keyValue_name _ rfl rfl) (keys_one (keyValue_name _ rfl rfl))))) rfl

theorem single_all {table : CatalogTable} {made : Row} {part : List Row}
    (built : (.ok [made] : DFResult (List Row)) = .ok part) (good : RowOf table made) :
    ∀ row ∈ part, RowOf table row := by
  obtain rfl := Except.ok.inj built
  intro row member
  obtain rfl := List.mem_singleton.mp member
  exact good

/-- Whatever the source answers, every row a table builds has keys of their types. -/
theorem built_rowOf {table : CatalogTable} {out : List Row}
    (built : buildRowsFor table source database = .ok out) : ∀ row ∈ out, RowOf table row := by
  cases table with
  | pgConfig => exact mapped_all built pgConfig_rowOf
  | pgSettings => exact mapped_all built pgSettings_rowOf
  | pgDatabase => exact mapped_all built pgDatabase_rowOf
  | pgNamespace => exact mapped_all built pgNamespace_rowOf
  | pgClass => exact schemas_all built fun schema part made => classRows_all made
  | pgType =>
    refine schemas_all built fun schema part made => ?_
    exact relations_all made fun rel part one => single_all one (pgType_rowOf _ _)
  | pgAttribute =>
    refine schemas_all built fun schema part made => ?_
    exact relations_all made fun rel part one => attributeRows_all one
  | pgIndex =>
    refine schemas_all built fun schema part made => ?_
    cases fetched : (source.indexes database schema.name).fetch with
    | error e => rw [fetched] at made; cases made
    | ok indexes =>
      rw [fetched, ok_bind] at made
      intro row member
      obtain ⟨index, _, one⟩ := mem_mapM_ok made row member
      exact indexRow_rowOf one
  | pgConstraint =>
    exact schemas_all built fun schema part made => mapped_all made pgConstraint_rowOf
  | pgAttrdef =>
    unfold buildRowsFor collectPgAttrdefRows at built
    cases fetched : fetchSchemas source database with
    | error e => rw [fetched] at built; cases built
    | ok schemas =>
      rw [fetched, ok_bind] at built
      cases walked : numberedRows (attrdefOfSchema source database) schemas
          SYNTHETIC_ATTRDEF_OID_BASE with
      | error e => rw [walked] at built; cases built
      | ok answer =>
        rw [walked, ok_bind] at built
        obtain rfl := Except.ok.inj built
        refine numbered_all (fun schema oid rows next of_schema => ?_) walked
        unfold attrdefOfSchema at of_schema
        cases relations : (source.relations database schema.name).fetch with
        | error e => rw [relations] at of_schema; cases of_schema
        | ok found =>
          rw [relations, ok_bind] at of_schema
          refine numbered_all (fun rel oid rows next of_relation => ?_) of_schema
          unfold attrdefOfRelation at of_relation
          cases columns : (source.columns database schema.name rel.name).fetch with
          | error e => rw [columns] at of_relation; cases of_relation
          | ok listed =>
            rw [columns, ok_bind] at of_relation
            exact numbered_all (fun column oid rows next made => attrdefOfColumn_all made)
              of_relation
  | informationSchemaTables =>
    refine schemas_all built fun schema part made => ?_
    exact relations_all made fun rel part one => single_all one (infoTables_rowOf _ _ _)
  | informationSchemaColumns =>
    refine schemas_all built fun schema part made => relations_all made fun rel part one => ?_
    cases columns : (source.columns database schema.name rel.name).fetch with
    | error e => rw [columns] at one; cases one
    | ok listed =>
      rw [columns, ok_bind] at one
      exact infoColumns_all one
  | informationSchemaSchemata => exact mapped_all built (infoSchemata_rowOf database)

end

end PgCatalog
