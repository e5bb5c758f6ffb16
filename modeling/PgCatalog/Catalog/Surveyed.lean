import PgCatalog.Catalog.Keys

/-! What the tables hold whenever they build: each walk of any source, as one list over
the relations and indexes that the source reports. -/
namespace PgCatalog

open Library

/-- The definitions that came, none when the call failed. -/
def Delivery.told {α : Type} (d : Delivery α) : List α := d.fetch.toOption.getD []

theorem Delivery.told_of_fetch {α : Type} {d : Delivery α} {out : List α}
    (answered : d.fetch = .ok out) : d.told = out := by
  rw [told, answered]
  rfl

namespace LazyCatalogSource
variable (source : LazyCatalogSource) (database : String)

def schemasIn : List SchemaDef := (source.schemas database).told

def relationsIn (schema : String) : List RelationDef := (source.relations database schema).told

def indexesIn (schema : String) : List IndexDef := (source.indexes database schema).told

/-- The relations of a database beside their schemas, in the order they are walked. -/
def placed : List (SchemaDef × RelationDef) :=
  (source.schemasIn database).flatMap fun schema =>
    (source.relationsIn database schema.name).map fun rel => (schema, rel)

def columnsAt (p : SchemaDef × RelationDef) : List ColumnSpec :=
  (source.columns database p.1.name p.2.name).told

/-- The indexes of a database beside their schemas. -/
def placedIndexes : List (SchemaDef × IndexDef) :=
  (source.schemasIn database).flatMap fun schema =>
    (source.indexesIn database schema.name).map fun index => (schema, index)

end LazyCatalogSource

section
variable {source : LazyCatalogSource} {database : String}

theorem fetchSchemas_told {schemas : List SchemaDef}
    (fetched : fetchSchemas source database = .ok schemas) :
    source.schemasIn database = schemas := by
  unfold fetchSchemas at fetched
  cases answered : (source.schemas database).fetch with
  | error e => rw [answered] at fetched; cases fetched
  | ok out =>
    rw [answered, ok_bind] at fetched
    split at fetched
    · cases fetched
    · obtain rfl := Except.ok.inj fetched
      exact Delivery.told_of_fetch answered

theorem collectSchemas_ok {rows : SchemaDef → DFResult (List Row)} {out : List Row}
    (built : collectSchemas source database rows = .ok out) :
    (∀ schema ∈ source.schemasIn database, ∃ part, rows schema = .ok part) ∧
      ∀ block : SchemaDef → List Row,
        (∀ schema ∈ source.schemasIn database, ∀ part, rows schema = .ok part →
          part = block schema) →
        out = (source.schemasIn database).flatMap block := by
  unfold collectSchemas at built
  cases fetched : fetchSchemas source database with
  | error e => rw [fetched] at built; cases built
  | ok schemas =>
    rw [fetched, ok_bind] at built
    rw [fetchSchemas_told fetched]
    cases walked : schemas.mapM rows with
    | error e => rw [walked] at built; cases built
    | ok parts =>
      rw [walked, ok_bind] at built
      obtain rfl := Except.ok.inj built
      refine ⟨mapM_ok_mem walked, fun block each => ?_⟩
      rw [mapM_ok_eq walked each, List.flatMap_def]

theorem collectRelations_ok {schema : SchemaDef} {rows : RelationDef → DFResult (List Row)}
    {out : List Row} (built : collectRelations source database schema rows = .ok out) :
    (∀ rel ∈ source.relationsIn database schema.name, ∃ part, rows rel = .ok part) ∧
      ∀ block : RelationDef → List Row,
        (∀ rel ∈ source.relationsIn database schema.name, ∀ part, rows rel = .ok part →
          part = block rel) →
        out = (source.relationsIn database schema.name).flatMap block := by
  unfold collectRelations at built
  cases fetched : (source.relations database schema.name).fetch with
  | error e => rw [fetched] at built; cases built
  | ok relations =>
    rw [fetched, ok_bind] at built
    rw [LazyCatalogSource.relationsIn, Delivery.told_of_fetch fetched]
    cases walked : relations.mapM rows with
    | error e => rw [walked] at built; cases built
    | ok parts =>
      rw [walked, ok_bind] at built
      obtain rfl := Except.ok.inj built
      refine ⟨mapM_ok_mem walked, fun block each => ?_⟩
      rw [mapM_ok_eq walked each, List.flatMap_def]

/-- A walk that builds is one list of blocks over the placed relations. -/
theorem walk_ok {rows : SchemaDef → RelationDef → DFResult (List Row)} {out : List Row}
    (built : collectSchemas source database
      (fun schema => collectRelations source database schema (rows schema)) = .ok out)
    {block : SchemaDef × RelationDef → List Row}
    (each : ∀ p part, rows p.1 p.2 = .ok part → part = block p) :
    (∀ p ∈ source.placed database, ∃ part, rows p.1 p.2 = .ok part) ∧
      out = (source.placed database).flatMap block := by
  obtain ⟨walked, whole⟩ := collectSchemas_ok built
  constructor
  · intro p member
    obtain ⟨schema, declared, inside⟩ := List.mem_flatMap.mp member
    obtain ⟨rel, here, rfl⟩ := List.mem_map.mp inside
    obtain ⟨part, relations⟩ := walked schema declared
    exact (collectRelations_ok relations).1 rel here
  · rw [whole fun schema => (source.relationsIn database schema.name).flatMap
      fun rel => block (schema, rel)]
    · rw [LazyCatalogSource.placed, List.flatMap_assoc]
      refine List.flatMap_congr fun schema _ => ?_
      rw [List.flatMap_map]
    · intro schema _ part relations
      exact (collectRelations_ok relations).2 _ fun rel _ block built => each (schema, rel) _ built

/-- The columns a builder read, and that they can be counted. -/
theorem counted_columns {p : SchemaDef × RelationDef} {make : List ColumnSpec → Int32 → List Row}
    {part : List Row}
    (built : (do
      let columns ← (source.columns database p.1.name p.2.name).fetch
      let natts ← attributeCountAsI32 columns.length p.2.name
      return make columns natts) = (.ok part : DFResult (List Row))) :
    ((source.columnsAt database p).length : Int) ≤ Int32.maxValue.toInt ∧
      part = make (source.columnsAt database p)
        (Int32.ofNat (source.columnsAt database p).length) := by
  cases fetched : (source.columns database p.1.name p.2.name).fetch with
  | error e => rw [fetched] at built; cases built
  | ok columns =>
    rw [fetched, ok_bind] at built
    rw [LazyCatalogSource.columnsAt, Delivery.told_of_fetch fetched]
    cases counted : attributeCountAsI32 columns.length p.2.name with
    | error e => rw [counted] at built; cases built
    | ok natts =>
      have small := (attributeCountAsI32_ok_iff p.2.name).mp ⟨natts, counted⟩
      rw [attributeCountAsI32, i32TryFrom_some small] at counted
      obtain rfl := Except.ok.inj counted
      rw [attributeCountAsI32, i32TryFrom_some small, ok_bind] at built
      exact ⟨small, (Except.ok.inj built).symm⟩

theorem namespaces_built {out : List Row}
    (built : buildRowsFor .pgNamespace source database = .ok out) :
    out = (source.schemasIn database).map buildPgNamespaceRow := by
  unfold buildRowsFor collectPgNamespaceRows at built
  cases fetched : fetchSchemas source database with
  | error e => rw [fetched] at built; cases built
  | ok schemas =>
    rw [fetched, ok_bind] at built
    rw [fetchSchemas_told fetched]
    exact (Except.ok.inj built).symm

/-- The class row of a placed relation. -/
def LazyCatalogSource.classRow (source : LazyCatalogSource) (database : String)
    (p : SchemaDef × RelationDef) : Row :=
  buildPgClassRow p.2 p.1.oid (Int32.ofNat (source.columnsAt database p).length)

theorem classes_built {out : List Row} (built : buildRowsFor .pgClass source database = .ok out) :
    out = (source.schemasIn database).flatMap fun schema =>
      (source.relationsIn database schema.name).map
          (fun rel => source.classRow database (schema, rel)) ++
        (source.indexesIn database schema.name).map (buildIndexPgClassRow · schema.oid) := by
  refine (collectSchemas_ok built).2 _ fun schema _ part of_schema => ?_
  cases relations : collectRelations source database schema
      (pgClassRows source database schema) with
  | error e => rw [relations] at of_schema; cases of_schema
  | ok rows =>
    rw [relations, ok_bind] at of_schema
    have walked := (collectRelations_ok relations).2
      (fun rel => [source.classRow database (schema, rel)]) fun rel _ part built =>
        (counted_columns (p := (schema, rel)) built).2
    cases fetched : (source.indexes database schema.name).fetch with
    | error e => rw [fetched] at of_schema; cases of_schema
    | ok indexes =>
      rw [fetched, ok_bind] at of_schema
      obtain rfl := Except.ok.inj of_schema
      rw [walked, LazyCatalogSource.indexesIn, Delivery.told_of_fetch fetched,
        ← List.map_eq_flatMap]

theorem types_built {out : List Row} (built : buildRowsFor .pgType source database = .ok out) :
    out = (source.placed database).map fun p => buildPgTypeRowtypeRow p.2 p.1.oid := by
  rw [List.map_eq_flatMap]
  exact (walk_ok built fun p part built => (Except.ok.inj built).symm).2

theorem attributes_built {out : List Row}
    (built : buildRowsFor .pgAttribute source database = .ok out) :
    (∀ p ∈ source.placed database,
        ((source.columnsAt database p).length : Int) ≤ Int32.maxValue.toInt) ∧
      out = (source.placed database).flatMap fun p =>
        buildPgAttributeRows p.2.oid (source.columnsAt database p) := by
  obtain ⟨walked, whole⟩ := walk_ok built fun p part built => (counted_columns built).2
  refine ⟨fun p member => ?_, whole⟩
  obtain ⟨part, of_relation⟩ := walked p member
  exact (counted_columns of_relation).1

theorem indexes_built {out : List Row} (built : buildRowsFor .pgIndex source database = .ok out) :
    out = (source.placedIndexes database).map fun p => buildPgIndexRow p.2 := by
  have whole := (collectSchemas_ok built).2
    (fun schema => (source.indexesIn database schema.name).map buildPgIndexRow)
    fun schema _ part of_schema => by
      cases fetched : (source.indexes database schema.name).fetch with
      | error e => rw [fetched] at of_schema; cases of_schema
      | ok indexes =>
        rw [fetched, ok_bind] at of_schema
        rw [LazyCatalogSource.indexesIn, Delivery.told_of_fetch fetched]
        refine mapM_ok_eq of_schema fun index _ row made => ?_
        cases counted : attributeCountAsI32 index.keyAttnums.length index.indexName with
        | error e => rw [counted] at made; cases made
        | ok natts =>
          rw [counted, ok_bind] at made
          exact (Except.ok.inj made).symm
  rw [whole, LazyCatalogSource.placedIndexes, List.map_flatMap]
  exact List.flatMap_congr fun schema _ => by rw [List.map_map]; rfl

/-- Default handles under consecutive synthetic numbers. -/
def numberedAttrdefs : Int32 → List (Int32 × Int32) → List Row
  | _, [] => []
  | oid, (adrelid, adnum) :: rest =>
    buildPgAttrdefRow oid adrelid adnum :: numberedAttrdefs (oid + 1) rest

theorem ofNat_succ (n : Nat) : Int32.ofNat (n + 1) = 1 + Int32.ofNat n := by
  rw [Int32.ofNat_add, Int32.add_comm]
  rfl

theorem numberedAttrdefs_append (oid : Int32) (first second : List (Int32 × Int32)) :
    numberedAttrdefs oid (first ++ second) =
      numberedAttrdefs oid first ++
        numberedAttrdefs (oid + Int32.ofNat first.length) second := by
  induction first generalizing oid with
  | nil =>
    have zero : oid + Int32.ofNat 0 = oid := Int32.add_zero oid
    rw [List.nil_append, List.length_nil, zero]
    rfl
  | cons handle rest ih =>
    rw [List.cons_append, numberedAttrdefs, numberedAttrdefs, ih, List.cons_append,
      List.length_cons, ofNat_succ, Int32.add_assoc]

/-- A numbered walk over parts that each number some handles numbers them all. -/
theorem numberedRows_numbered {α : Type} {part : α → Int32 → DFResult (List Row × Int32)}
    {handles : α → List (Int32 × Int32)} {xs : List α}
    (each : ∀ x ∈ xs, ∀ oid rows next, part x oid = .ok (rows, next) →
      rows = numberedAttrdefs oid (handles x) ∧
        next = oid + Int32.ofNat (handles x).length)
    {oid next : Int32} {rows : List Row} (built : numberedRows part xs oid = .ok (rows, next)) :
    rows = numberedAttrdefs oid (xs.flatMap handles) ∧
      next = oid + Int32.ofNat (xs.flatMap handles).length := by
  induction xs generalizing oid rows with
  | nil =>
    obtain ⟨rfl, rfl⟩ := Prod.mk.inj (Except.ok.inj built)
    exact ⟨rfl, (Int32.add_zero oid).symm⟩
  | cons x rest ih =>
    unfold numberedRows at built
    cases first : part x oid with
    | error e => rw [first] at built; cases built
    | ok answer =>
      rw [first, ok_bind] at built
      obtain ⟨here, number⟩ := answer
      obtain ⟨rfl, rfl⟩ := each x List.mem_cons_self oid here number first
      dsimp only at built
      cases tail : numberedRows part rest (oid + Int32.ofNat (handles x).length) with
      | error e => rw [tail] at built; cases built
      | ok answer =>
        rw [tail, ok_bind] at built
        obtain ⟨more, last⟩ := answer
        obtain ⟨rfl, rfl⟩ := Prod.mk.inj (Except.ok.inj built)
        obtain ⟨rfl, rfl⟩ := ih (fun y member => each y (List.mem_cons_of_mem _ member)) tail
        rw [List.flatMap_cons, numberedAttrdefs_append, List.length_append, Int32.ofNat_add,
          Int32.add_assoc]
        exact ⟨rfl, rfl⟩

/-- The handles of one relation's defaults: its number and a position each. -/
def LazyCatalogSource.defaultHandles (source : LazyCatalogSource) (database : String)
    (p : SchemaDef × RelationDef) : List (Int32 × Int32) :=
  ((source.columnsAt database p).zipIdx.filter (·.1.hasDefault)).map fun column =>
    (p.2.oid, Int32.ofNat (column.2 + 1))

theorem oneBasedPosition_value {index : Nat} {relation : String} {position : Int32}
    (numbered : oneBasedPosition index relation = .ok position) :
    position = Int32.ofNat (index + 1) := by
  unfold oneBasedPosition i32TryFrom at numbered
  by_cases small : (index : Int) ≤ Int32.maxValue.toInt
  · rw [if_pos small, Option.bind_some] at numbered
    cases sum : checkedAdd (Int32.ofNat index) 1 with
    | none => rw [sum] at numbered; cases numbered
    | some next =>
      rw [sum] at numbered
      obtain rfl := Except.ok.inj numbered
      obtain ⟨value, high⟩ := checkedAdd_some sum
      have one : (1 : Int32).toInt = 1 := by decide
      rw [toInt_ofNat small, one] at value high
      have fits : ((index + 1 : Nat) : Int) ≤ Int32.maxValue.toInt := by omega
      apply Int32.toInt_inj.mp
      rw [value, toInt_ofNat fits]
      omega
  · rw [if_neg small] at numbered
    cases numbered

theorem attrdefOfColumn_numbered {rel : RelationDef} {column : ColumnSpec × Nat}
    {oid next : Int32} {rows : List Row}
    (built : attrdefOfColumn rel column oid = .ok (rows, next)) :
    let handles := if column.1.hasDefault then [(rel.oid, Int32.ofNat (column.2 + 1))] else []
    rows = numberedAttrdefs oid handles ∧ next = oid + Int32.ofNat handles.length := by
  unfold attrdefOfColumn at built
  split at built
  · rename_i default
    cases position : oneBasedPosition column.2 rel.name with
    | error e => rw [position] at built; cases built
    | ok adnum =>
      rw [position, ok_bind] at built
      obtain ⟨rfl, rfl⟩ := Prod.mk.inj (Except.ok.inj built)
      obtain rfl := oneBasedPosition_value position
      rw [if_pos default]
      exact ⟨rfl, rfl⟩
  · rename_i plain
    obtain ⟨rfl, rfl⟩ := Prod.mk.inj (Except.ok.inj built)
    rw [if_neg plain]
    exact ⟨rfl, (Int32.add_zero oid).symm⟩

theorem attrdefs_built {out : List Row}
    (built : buildRowsFor .pgAttrdef source database = .ok out) :
    out = numberedAttrdefs SYNTHETIC_ATTRDEF_OID_BASE
      ((source.placed database).flatMap (source.defaultHandles database)) := by
  have of_relation : ∀ schema rel oid rows next,
      attrdefOfRelation source database schema rel oid = .ok (rows, next) →
        rows = numberedAttrdefs oid (source.defaultHandles database (schema, rel)) ∧
          next = oid + Int32.ofNat (source.defaultHandles database (schema, rel)).length := by
    intro schema rel oid rows next walked
    unfold attrdefOfRelation at walked
    cases fetched : (source.columns database schema.name rel.name).fetch with
    | error e => rw [fetched] at walked; cases walked
    | ok columns =>
      rw [fetched, ok_bind] at walked
      have numbered := numberedRows_numbered
        (fun column _ oid rows next built => attrdefOfColumn_numbered built) walked
      have handles : columns.zipIdx.flatMap (fun column =>
            if column.1.hasDefault then [(rel.oid, Int32.ofNat (column.2 + 1))] else []) =
          source.defaultHandles database (schema, rel) := by
        rw [LazyCatalogSource.defaultHandles, LazyCatalogSource.columnsAt,
          Delivery.told_of_fetch fetched]
        induction columns.zipIdx with
        | nil => rfl
        | cons column rest ih =>
          rw [List.flatMap_cons, ih, List.filter_cons]
          split <;> rfl
      rwa [handles] at numbered
  have of_schema : ∀ schema oid rows next,
      attrdefOfSchema source database schema oid = .ok (rows, next) →
        let handles := (source.relationsIn database schema.name).flatMap
          fun rel => source.defaultHandles database (schema, rel)
        rows = numberedAttrdefs oid handles ∧ next = oid + Int32.ofNat handles.length := by
    intro schema oid rows next walked
    unfold attrdefOfSchema at walked
    cases fetched : (source.relations database schema.name).fetch with
    | error e => rw [fetched] at walked; cases walked
    | ok relations =>
      rw [fetched, ok_bind] at walked
      rw [LazyCatalogSource.relationsIn, Delivery.told_of_fetch fetched]
      exact numberedRows_numbered (fun rel _ => of_relation schema rel) walked
  unfold buildRowsFor collectPgAttrdefRows at built
  cases fetched : fetchSchemas source database with
  | error e => rw [fetched] at built; cases built
  | ok schemas =>
    rw [fetched, ok_bind] at built
    cases walked : numberedRows (attrdefOfSchema source database) schemas
        SYNTHETIC_ATTRDEF_OID_BASE with
    | error e => rw [walked] at built; cases built
    | ok answer =>
      rw [walked, ok_bind] at built
      obtain rfl := Except.ok.inj built
      obtain ⟨rows, next⟩ := answer
      rw [(numberedRows_numbered (fun schema _ => of_schema schema) walked).1,
        LazyCatalogSource.placed, fetchSchemas_told fetched, List.flatMap_assoc]
      refine congrArg _ (List.flatMap_congr fun schema _ => ?_)
      rw [List.flatMap_map]

end

end PgCatalog
