import Mathlib
import PgCatalog.Library.Fallible
import PgCatalog.Catalog.Accepted
import PgCatalog.Catalog.Tables

/-! The keys of the rows a declared source is walked for, table by table, and the
check that refuses a key met twice. -/
namespace PgCatalog

open Library

/-- Blocks that share no element unless their tags agree stay apart under distinct tags. -/
theorem nodup_flatMap_of_tag {α β γ : Type} {f : α → List β} (tag : α → γ) {xs : List α}
    (tags : (xs.map tag).Nodup) (shared : ∀ x ∈ xs, ∀ y ∈ xs, ∀ b ∈ f x, b ∈ f y → tag x = tag y)
    (blocks : ∀ x ∈ xs, (f x).Nodup) : (xs.flatMap f).Nodup := by
  refine List.nodup_flatMap.mpr ⟨blocks, ?_⟩
  refine (List.Pairwise.and_mem.mp (List.pairwise_map.mp tags)).imp ?_
  rintro x y ⟨here, there, different⟩ b first second
  exact different (shared x here y there b first second)

/-- The scan's check passes exactly on pairwise distinct keys. -/
theorem collectUserKeys_ok_iff (table : CatalogTable) (rows : List Row)
    (seen : List (List String)) :
    (∃ keys, collectUserKeys table rows seen = .ok keys) ↔
      Fresh (rows.map (userRowKey · table.keyColumns)) seen := by
  induction rows generalizing seen with
  | nil => exact iff_of_true ⟨seen, rfl⟩ (fresh_nil seen)
  | cons row rest ih =>
    rw [List.map_cons, fresh_cons, collectUserKeys]
    by_cases twice : userRowKey row table.keyColumns ∈ seen
    · rw [if_pos twice]
      simp only [reduceCtorEq, exists_false, twice, not_true_eq_false, false_and]
    · rw [if_neg twice, ih, fresh_swap]
      simp only [twice, not_false_eq_true, true_and]

/-- A table can be served: its rows build, their keys differ, and the scan says so. -/
def Servable (table : CatalogTable) (source : LazyCatalogSource) (database : String) : Prop :=
  (∃ rows, buildRowsFor table source database = .ok rows ∧
    (rows.map (userRowKey · table.keyColumns)).Nodup) ∧
  ∃ keys, scanUserKeys table source database = .ok keys

theorem servable_iff (table : CatalogTable) (source : LazyCatalogSource) (database : String) :
    Servable table source database ↔ ∃ rows, buildRowsFor table source database = .ok rows ∧
      (rows.map (userRowKey · table.keyColumns)).Nodup := by
  refine ⟨And.left, fun served => ⟨served, ?_⟩⟩
  obtain ⟨rows, built, distinct⟩ := served
  rw [scanUserKeys, built]
  exact (collectUserKeys_ok_iff table rows []).mpr ((fresh_nothing_taken _).mpr distinct)

theorem duplicateSchema_none {schemas : List SchemaDef} {seen : List String}
    (distinct : Fresh (schemas.map (·.name)) seen) : duplicateSchema schemas seen = none := by
  induction schemas generalizing seen with
  | nil => rfl
  | cons schema rest ih =>
    rw [List.map_cons, fresh_cons] at distinct
    rw [duplicateSchema, if_neg distinct.1]
    exact ih (fresh_swap.mpr distinct.2)

theorem i32TryFrom_some {n : Nat} (small : (n : Int) ≤ Int32.maxValue.toInt) :
    i32TryFrom n = some (Int32.ofNat n) := if_pos small

theorem attributeCountAsI32_ok_iff {count : Nat} (relation : String) :
    (∃ n, attributeCountAsI32 count relation = .ok n) ↔ (count : Int) ≤ Int32.maxValue.toInt := by
  by_cases small : (count : Int) ≤ Int32.maxValue.toInt
  · exact iff_of_true ⟨_, by rw [attributeCountAsI32, i32TryFrom_some small]⟩ small
  · refine iff_of_false ?_ small
    rintro ⟨n, h⟩
    rw [attributeCountAsI32, i32TryFrom, if_neg small] at h
    cases h

theorem toInt_ofNat {n : Nat} (small : (n : Int) ≤ Int32.maxValue.toInt) :
    (Int32.ofNat n).toInt = n := by
  have high : (n : Int) ≤ 2147483647 := small
  exact Int32.toInt_ofNat_of_lt (by omega)

theorem oneBasedPosition_ok {index : Nat} (relation : String)
    (small : (index : Int) + 1 ≤ Int32.maxValue.toInt) :
    ∃ position, oneBasedPosition index relation = .ok position ∧
      position.toInt = index + 1 := by
  have fits : (index : Int) ≤ Int32.maxValue.toInt := by omega
  have value := toInt_ofNat fits
  have one : (1 : Int32).toInt = 1 := by decide
  have low : Int32.minValue.toInt ≤ 0 := by decide
  have sum : checkedAdd (Int32.ofNat index) 1 = some (Int32.ofInt (index + 1)) := by
    rw [checkedAdd, value, one]
    exact if_pos ⟨by omega, small⟩
  refine ⟨Int32.ofInt (index + 1), ?_, ?_⟩
  · rw [oneBasedPosition, i32TryFrom_some fits, Option.bind_some, sum]
  · have := (checkedAdd_some sum).1
    rw [this, value, one]

namespace DeclaredCatalogSource

/-- The relations of a database beside their schemas, in the order they are walked. -/
def placed (source : DeclaredCatalogSource) (database : String) : List (SchemaDef × RelationDef) :=
  (source.schemasIn database).flatMap fun schema =>
    (source.relationsIn database schema.name).map fun rel => (schema, rel)

/-- A source in which names and numbers identify what they should. -/
structure WellKeyed (source : DeclaredCatalogSource) (database : String) : Prop where
  database_names : (source.databases.map (·.datname)).Nodup
  schema_names : ((source.schemasIn database).map (·.name)).Nodup
  schema_oids : ((source.schemasIn database).map (·.oid)).Nodup
  relation_names : ∀ schema, ((source.relationsIn database schema).map (·.name)).Nodup
  relation_oids : ((source.placed database).map (·.2.oid)).Nodup

/-- The columns of a placed relation. -/
def columnsAt (source : DeclaredCatalogSource) (database : String) (p : SchemaDef × RelationDef) :
    List ColumnSpec :=
  source.columnsOf database p.1.name p.2.name

section
variable {source : DeclaredCatalogSource} {database : String}

theorem fetch_schemas (keyed : source.WellKeyed database) :
    fetchSchemas source.toLazy database = .ok (source.schemasIn database) := by
  have none_twice := duplicateSchema_none ((fresh_nothing_taken _).mpr keyed.schema_names)
  simp only [fetchSchemas, toLazy, Delivery.fetch_once, ok_bind, none_twice]
  rfl

/-- A walk over the relations is one list of blocks, where every block builds. -/
theorem collect_placed (keyed : source.WellKeyed database)
    {rows : SchemaDef → RelationDef → DFResult (List Row)}
    (block : SchemaDef × RelationDef → List Row)
    (each : ∀ p ∈ source.placed database, rows p.1 p.2 = .ok (block p)) :
    collectSchemas source.toLazy database
        (fun schema => collectRelations source.toLazy database schema (rows schema)) =
      .ok ((source.placed database).flatMap block) := by
  have inside : ∀ schema ∈ source.schemasIn database,
      collectRelations source.toLazy database schema (rows schema) =
        .ok ((source.relationsIn database schema.name).flatMap fun rel => block (schema, rel)) := by
    intro schema declared
    have built : (source.relationsIn database schema.name).mapM (rows schema) =
        .ok ((source.relationsIn database schema.name).map fun rel => block (schema, rel)) :=
      mapM_ok fun rel member => each (schema, rel)
        (List.mem_flatMap.mpr ⟨schema, declared, List.mem_map.mpr ⟨rel, member, rfl⟩⟩)
    simp only [collectRelations, toLazy, Delivery.fetch_once, ok_bind, built]
    rw [List.flatMap_def]
    rfl
  rw [collectSchemas, fetch_schemas keyed, ok_bind, mapM_ok inside, ok_bind, placed,
    List.flatMap_assoc]
  simp only [List.flatMap_map]
  rw [List.flatMap_def]
  rfl

/-- A walk that builds has built every block. -/
theorem collect_placed_mem (keyed : source.WellKeyed database)
    {rows : SchemaDef → RelationDef → DFResult (List Row)} {out : List Row}
    (built : collectSchemas source.toLazy database
      (fun schema => collectRelations source.toLazy database schema (rows schema)) = .ok out) :
    ∀ p ∈ source.placed database, ∃ block, rows p.1 p.2 = .ok block := by
  rw [collectSchemas, fetch_schemas keyed, ok_bind] at built
  intro p member
  obtain ⟨schema, declared, inside⟩ := List.mem_flatMap.mp member
  obtain ⟨rel, here, rfl⟩ := List.mem_map.mp inside
  cases outer : (source.schemasIn database).mapM
      fun schema => collectRelations source.toLazy database schema (rows schema) with
  | error e => rw [outer] at built; cases built
  | ok blocks =>
    obtain ⟨block, walked⟩ := mapM_ok_mem outer schema declared
    simp only [collectRelations, toLazy, Delivery.fetch_once, ok_bind] at walked
    cases inner : (source.relationsIn database schema.name).mapM (rows schema) with
    | error e => rw [inner] at walked; cases walked
    | ok found => exact mapM_ok_mem inner rel here

/-- The key of a class or type row: its schema's number and its name. -/
def placedKey (p : SchemaDef × RelationDef) : List String := [toString p.1.oid.toInt, p.2.name]

theorem toString_oid_inj {a b : Int32} (same : toString a.toInt = toString b.toInt) : a = b :=
  Int32.toInt_inj.mp (Int.repr_injective same)

theorem placed_keys (keyed : source.WellKeyed database) :
    ((source.placed database).map placedKey).Nodup := by
  rw [placed, List.map_flatMap]
  refine nodup_flatMap_of_tag (·.oid) keyed.schema_oids ?_ ?_
  · intro a _ b _ key first second
    simp only [List.map_map, List.mem_map] at first second
    obtain ⟨rel, _, rfl⟩ := first
    obtain ⟨other, _, same⟩ := second
    exact toString_oid_inj (List.cons.inj same).1.symm
  · intro schema _
    rw [List.map_map]
    refine List.Nodup.map_on ?_ (List.Nodup.of_map _ (keyed.relation_names schema.name))
    intro a ha b hb same
    have named : a.name = b.name := (List.cons.inj (List.cons.inj same).2).1
    exact List.inj_on_of_nodup_map (keyed.relation_names schema.name) ha hb named

/-- Blocks that carry their relation's number never meet. -/
theorem placed_blocks (keyed : source.WellKeyed database)
    {block : SchemaDef × RelationDef → List (List String)}
    (tagged : ∀ p ∈ source.placed database, ∀ key ∈ block p,
      key.head? = some (toString p.2.oid.toInt))
    (distinct : ∀ p ∈ source.placed database, (block p).Nodup) :
    ((source.placed database).flatMap block).Nodup := by
  refine nodup_flatMap_of_tag (·.2.oid) keyed.relation_oids ?_ distinct
  intro p hp q hq key first second
  have same := (tagged p hp key first).symm.trans (tagged q hq key second)
  exact toString_oid_inj (Option.some.inj same)

theorem class_key (p : SchemaDef × RelationDef) (natts : Int32) :
    userRowKey (buildPgClassRow p.2 p.1.oid natts) CatalogTable.pgClass.keyColumns =
      placedKey p := rfl

theorem class_rows (keyed : source.WellKeyed database)
    (small : ∀ p ∈ source.placed database,
      ((source.columnsAt database p).length : Int) ≤ Int32.maxValue.toInt) :
    ∃ rows, buildRowsFor .pgClass source.toLazy database = .ok rows ∧
      rows.map (userRowKey · CatalogTable.pgClass.keyColumns) =
        (source.placed database).map placedKey := by
  have plain : collectPgClassRows source.toLazy database =
      collectSchemas source.toLazy database fun schema =>
        collectRelations source.toLazy database schema
          (pgClassRows source.toLazy database schema) := by
    refine congrArg (collectSchemas source.toLazy database) (funext fun schema => ?_)
    cases collectRelations source.toLazy database schema
      (pgClassRows source.toLazy database schema) with
    | error e => rfl
    | ok rows => exact congrArg Except.ok (List.append_nil rows)
  have each : ∀ p ∈ source.placed database,
      pgClassRows source.toLazy database p.1 p.2 = .ok [buildPgClassRow p.2 p.1.oid
        (Int32.ofNat (source.columnsAt database p).length)] := by
    intro p member
    have counted : attributeCountAsI32 (source.columnsAt database p).length p.2.name =
        .ok (Int32.ofNat (source.columnsAt database p).length) := by
      rw [attributeCountAsI32, i32TryFrom_some (small p member)]
    simp only [columnsAt] at counted
    simp only [pgClassRows, toLazy, Delivery.fetch_once, ok_bind, counted, columnsAt]
    rfl
  refine ⟨_, plain.trans (collect_placed keyed _ each), ?_⟩
  rw [List.map_flatMap]
  exact (List.flatMap_congr fun p _ => congrArg (fun key => [key]) (class_key p _)).trans
    List.map_eq_flatMap.symm

theorem type_rows (keyed : source.WellKeyed database) :
    ∃ rows, buildRowsFor .pgType source.toLazy database = .ok rows ∧
      rows.map (userRowKey · CatalogTable.pgType.keyColumns) =
        (source.placed database).map placedKey := by
  refine ⟨_, collect_placed keyed (fun p => [buildPgTypeRowtypeRow p.2 p.1.oid]) fun _ _ => rfl,
    ?_⟩
  rw [List.map_flatMap]
  exact List.map_eq_flatMap.symm

/-- The keys of one relation's attribute rows. -/
def attributeKeys (source : DeclaredCatalogSource) (database : String)
    (p : SchemaDef × RelationDef) : List (List String) :=
  (source.columnsAt database p).map fun column => [toString p.2.oid.toInt, column.name]

theorem attribute_block (attrelid : Int32) (columns : List ColumnSpec) :
    (buildPgAttributeRows attrelid columns).map
        (userRowKey · CatalogTable.pgAttribute.keyColumns) =
      columns.map fun column => [toString attrelid.toInt, column.name] := by
  rw [buildPgAttributeRows, List.map_map]
  have each : ∀ column ∈ columns.zipIdx,
      userRowKey (buildPgAttributeRow attrelid column.2 column.1)
        CatalogTable.pgAttribute.keyColumns = [toString attrelid.toInt, column.1.name] :=
    fun _ _ => rfl
  have columns_again := List.zipIdx_map_fst 0 columns
  refine (List.map_congr_left each).trans ?_
  conv_rhs => rw [← columns_again, List.map_map]
  rfl

theorem attribute_rows (keyed : source.WellKeyed database)
    (small : ∀ p ∈ source.placed database,
      ((source.columnsAt database p).length : Int) ≤ Int32.maxValue.toInt) :
    ∃ rows, buildRowsFor .pgAttribute source.toLazy database = .ok rows ∧
      rows.map (userRowKey · CatalogTable.pgAttribute.keyColumns) =
        (source.placed database).flatMap (source.attributeKeys database) := by
  have each : ∀ p ∈ source.placed database, pgAttributeRows source.toLazy database p.1 p.2 =
      .ok (buildPgAttributeRows p.2.oid (source.columnsAt database p)) := by
    intro p member
    obtain ⟨n, counted⟩ := (attributeCountAsI32_ok_iff p.2.name).mpr (small p member)
    simp only [columnsAt] at counted
    simp only [pgAttributeRows, toLazy, Delivery.fetch_once, ok_bind, counted, columnsAt]
    rfl
  refine ⟨_, collect_placed keyed _ each, ?_⟩
  rw [List.map_flatMap]
  exact List.flatMap_congr fun p _ => attribute_block p.2.oid _

/-- A numbered walk builds when each part does from any number, and its keys do not
depend on the numbers. -/
theorem numberedRows_keys {α : Type} {part : α → Int32 → DFResult (List Row × Int32)}
    {key : Row → List String} {keys : α → List (List String)} {xs : List α}
    (each : ∀ x ∈ xs, ∀ oid, ∃ rows next, part x oid = .ok (rows, next) ∧
      rows.map key = keys x) (oid : Int32) :
    ∃ rows next, numberedRows part xs oid = .ok (rows, next) ∧ rows.map key = xs.flatMap keys := by
  induction xs generalizing oid with
  | nil => exact ⟨[], oid, rfl, rfl⟩
  | cons x rest ih =>
    obtain ⟨rows, next, built, here⟩ := each x List.mem_cons_self oid
    obtain ⟨more, last, walked, there⟩ :=
      ih (fun y member => each y (List.mem_cons_of_mem _ member)) next
    refine ⟨rows ++ more, last, ?_, ?_⟩
    · simp only [numberedRows, built, ok_bind, walked]
      rfl
    · rw [List.map_append, here, there, List.flatMap_cons]

/-- The keys of the default handles of one relation: its number and a position each. -/
def attrdefKeys (source : DeclaredCatalogSource) (database : String)
    (p : SchemaDef × RelationDef) : List (List String) :=
  (source.columnsAt database p).zipIdx.flatMap fun column =>
    if column.1.hasDefault then [[toString p.2.oid.toInt, toString ((column.2 : Int) + 1)]] else []

theorem attrdefKeys_nodup (p : SchemaDef × RelationDef) :
    (source.attrdefKeys database p).Nodup := by
  have positions : ((source.columnsAt database p).zipIdx.map (·.2)).Nodup := by
    rw [show (source.columnsAt database p).zipIdx.map (·.2) = _ from List.zipIdx_map_snd 0 _]
    exact List.nodup_range'
  refine nodup_flatMap_of_tag (·.2) positions ?_ ?_
  · intro a _ b _ key first second
    split at first
    · split at second
      · obtain rfl := List.mem_singleton.mp first
        have same := (List.cons.inj (List.cons.inj (List.mem_singleton.mp second)).2).1
        have value : (a.2 : Int) + 1 = b.2 + 1 := Int.repr_injective same
        omega
      · cases second
    · cases first
  · intro a _
    split
    · exact List.nodup_singleton _
    · exact List.nodup_nil

theorem attrdef_rows (keyed : source.WellKeyed database)
    (small : ∀ p ∈ source.placed database,
      ((source.columnsAt database p).length : Int) ≤ Int32.maxValue.toInt) :
    ∃ rows, buildRowsFor .pgAttrdef source.toLazy database = .ok rows ∧
      rows.map (userRowKey · CatalogTable.pgAttrdef.keyColumns) =
        (source.placed database).flatMap (source.attrdefKeys database) := by
  have of_column : ∀ p ∈ source.placed database,
      ∀ column ∈ (source.columnsAt database p).zipIdx, ∀ oid, ∃ rows next,
        attrdefOfColumn p.2 column oid = .ok (rows, next) ∧
          rows.map (userRowKey · CatalogTable.pgAttrdef.keyColumns) =
            if column.1.hasDefault then
              [[toString p.2.oid.toInt, toString ((column.2 : Int) + 1)]] else [] := by
    intro p placed column member oid
    have inside := (List.mem_zipIdx' member).1
    have room := small p placed
    obtain ⟨position, numbered, value⟩ := oneBasedPosition_ok p.2.name
      (show (column.2 : Int) + 1 ≤ Int32.maxValue.toInt by omega)
    rw [attrdefOfColumn]
    split
    · refine ⟨_, _, by rw [numbered]; rfl, ?_⟩
      rw [← value]
      rfl
    · exact ⟨_, _, rfl, rfl⟩
  have of_schema : ∀ schema ∈ source.schemasIn database, ∀ oid, ∃ rows next,
      attrdefOfSchema source.toLazy database schema oid = .ok (rows, next) ∧
        rows.map (userRowKey · CatalogTable.pgAttrdef.keyColumns) =
          (source.relationsIn database schema.name).flatMap
            fun rel => source.attrdefKeys database (schema, rel) := by
    intro schema declared oid
    simp only [attrdefOfSchema, toLazy, Delivery.fetch_once, ok_bind]
    refine numberedRows_keys (fun rel here oid => ?_) oid
    simp only [attrdefOfRelation, Delivery.fetch_once, ok_bind]
    exact numberedRows_keys (of_column (schema, rel) (List.mem_flatMap.mpr
      ⟨schema, declared, List.mem_map.mpr ⟨rel, here, rfl⟩⟩)) oid
  obtain ⟨rows, next, walked, keys⟩ := numberedRows_keys of_schema SYNTHETIC_ATTRDEF_OID_BASE
  refine ⟨rows, ?_, ?_⟩
  · simp only [buildRowsFor, collectPgAttrdefRows, fetch_schemas keyed, ok_bind, walked]
    rfl
  · rw [keys, placed, List.flatMap_assoc]
    simp only [List.flatMap_map]

end

end DeclaredCatalogSource

end PgCatalog
