import PgCatalog.Catalog.Surveyed
import PgCatalog.Catalog.Servable

/-! The references between the generated tables: which rows point at which, and how long
the numbers made up for defaults stay distinct. -/
namespace PgCatalog

open Library

/-- The tables the references run between. -/
structure GeneratedCatalog where
  namespaces : List Row
  classes : List Row
  types : List Row
  attributes : List Row
  indexes : List Row
  attrdefs : List Row

/-- Each of the tables was built, from the same source for the same database. -/
structure Generated (source : LazyCatalogSource) (database : String) (g : GeneratedCatalog) :
    Prop where
  namespaces : buildRowsFor .pgNamespace source database = .ok g.namespaces
  classes : buildRowsFor .pgClass source database = .ok g.classes
  types : buildRowsFor .pgType source database = .ok g.types
  attributes : buildRowsFor .pgAttribute source database = .ok g.attributes
  indexes : buildRowsFor .pgIndex source database = .ok g.indexes
  attrdefs : buildRowsFor .pgAttrdef source database = .ok g.attrdefs

/-- The row holds this number in this column. -/
def Row.refers (row : Row) (column : String) (oid : Int32) : Bool :=
  row.get column = some (.oid oid)

/-- An index has its own row beside those of the relations. -/
def Row.ofIndex (row : Row) : Bool := row.get "relkind" = some (.string "i")

namespace GeneratedCatalog
variable (g : GeneratedCatalog)

/-- The class rows of a relation, none of an index among them. -/
def classesOf (oid : Int32) : List Row :=
  g.classes.filter fun row => row.refers "oid" oid && !row.ofIndex

def attributesOf (oid : Int32) : List Row := g.attributes.filter (·.refers "attrelid" oid)

def typesOf (oid : Int32) : List Row := g.types.filter (·.refers "typrelid" oid)

/-- The attribute rows that say their column has a default. -/
def defaulted : List Row := g.attributes.filter (·.get "atthasdef" = some (.bool true))

end GeneratedCatalog

/-- Every reference between the tables of a database is met, by exactly one row. -/
structure ReferentialIntegrity (source : LazyCatalogSource) (database : String)
    (g : GeneratedCatalog) : Prop where
  relnamespace : ∀ row ∈ g.classes, ∃ oid schema,
    row.refers "relnamespace" oid ∧ g.namespaces.filter (·.refers "oid" oid) = [schema]
  attributes : ∀ p ∈ source.placed database, ∃ row, ∃ natts : Nat,
    g.classesOf p.2.oid = [row] ∧ row.get "relnatts" = some (.number natts) ∧
      (g.attributesOf p.2.oid).map (·.get "attnum") =
        (List.range natts).map (fun i => some (.number (i + 1))) ∧
      (g.attributesOf p.2.oid).map (·.get "attname") =
        (source.columnsAt database p).map fun column => some (.string column.name)
  rowtypes : ∀ p ∈ source.placed database, ∃ row type,
    g.classesOf p.2.oid = [row] ∧ g.typesOf p.2.oid = [type] ∧
      row.refers "reltype" p.2.reltypeOid ∧ type.refers "oid" p.2.reltypeOid
  defaults : (g.attrdefs.map fun row => (row.get "adrelid", row.get "adnum")) =
    g.defaulted.map fun row => (row.get "attrelid", row.get "attnum")
  defaults_once : (g.defaulted.map fun row => (row.get "attrelid", row.get "attnum")).Nodup
  indexes : g.indexes.map (·.get "indexrelid") =
    (source.placedIndexes database).map fun p => some (.oid p.2.indexOid)
  index_classes : (g.classes.filter (·.ofIndex)).map (·.get "oid") =
    (source.placedIndexes database).map fun p => some (.oid p.2.indexOid)
  synthetic : (g.attrdefs.map (·.get "oid")).Nodup

/-- How many columns of a database have a default. -/
def LazyCatalogSource.defaultCount (source : LazyCatalogSource) (database : String) : Nat :=
  ((source.placed database).flatMap (source.columnsAt database)).countP (·.hasDefault)

/-- Under distinct keys, what only one element has its whole block has, and no other. -/
theorem filter_flatMap_of_key {α β κ : Type} {key : α → κ} {f : α → List β} {keep : β → Bool}
    {xs : List α} (keys : (xs.map key).Nodup) {x : α} (member : x ∈ xs)
    (kept : ∀ y, ∀ b ∈ f y, keep b = true ↔ key y = key x) :
    (xs.flatMap f).filter keep = f x := by
  induction xs with
  | nil => cases member
  | cons y rest ih =>
    obtain ⟨absent, distinct⟩ := List.nodup_cons.mp keys
    rw [List.flatMap_cons, List.filter_append]
    obtain rfl | later := List.mem_cons.mp member
    · have all : (f x).filter keep = f x := by
        apply List.filter_eq_self.mpr
        intro b inside
        exact (kept x b inside).mpr rfl
      have others : (rest.flatMap f).filter keep = [] := by
        apply List.filter_eq_nil_iff.mpr
        intro b inside same
        obtain ⟨z, there, inside⟩ := List.mem_flatMap.mp inside
        exact absent (List.mem_map.mpr ⟨z, there, (kept z b inside).mp same⟩)
      rw [all, others, List.append_nil]
    · have others : (f y).filter keep = [] := by
        apply List.filter_eq_nil_iff.mpr
        intro b inside same
        exact absent (List.mem_map.mpr ⟨x, later, ((kept y b inside).mp same).symm⟩)
      rw [others, List.nil_append, ih distinct later]

theorem oid_eq_iff {a b : Int32} : Value.oid a = Value.oid b ↔ a = b := by
  unfold Value.oid
  rw [Value.number.injEq, Int32.toInt_inj]

section
variable {source : LazyCatalogSource} {database : String} {g : GeneratedCatalog}

theorem filter_map_of_key {α β κ : Type} {key : α → κ} {f : α → β} {keep : β → Bool}
    {xs : List α} (keys : (xs.map key).Nodup) {x : α} (member : x ∈ xs)
    (kept : ∀ y, keep (f y) = true ↔ key y = key x) : (xs.map f).filter keep = [f x] := by
  rw [List.map_eq_flatMap]
  refine filter_flatMap_of_key keys member fun y b inside => ?_
  obtain rfl := List.mem_singleton.mp inside
  exact kept y

theorem refers_iff {row : Row} {column : String} {held oid : Int32}
    (cell : row.get column = some (.oid held)) : row.refers column oid = true ↔ held = oid := by
  unfold Row.refers
  rw [cell, decide_eq_true_eq, Option.some.injEq, oid_eq_iff]

theorem relkind_ne_index (kind : RelationKind) : kind.relkind ≠ "i" := by
  cases kind <;> decide

theorem classRow_ofIndex (p : SchemaDef × RelationDef) :
    (source.classRow database p).ofIndex = false := by
  have kind : (source.classRow database p).get "relkind" = some (.string p.2.kind.relkind) := rfl
  unfold Row.ofIndex
  rw [kind, decide_eq_false_iff_not, Option.some.injEq, Value.string.injEq]
  exact relkind_ne_index p.2.kind

theorem classRow_natts (p : SchemaDef × RelationDef) :
    (source.classRow database p).get "relnatts" =
      some (.oid (Int32.ofNat (source.columnsAt database p).length)) := by
  unfold LazyCatalogSource.classRow buildPgClassRow
  cases p.2.ownerOid <;> rfl

/-- The class rows that are not of indexes are those of the placed relations. -/
theorem relation_classes (generated : Generated source database g) :
    g.classes.filter (!·.ofIndex) = (source.placed database).map (source.classRow database) := by
  rw [classes_built generated.classes, List.filter_flatMap, LazyCatalogSource.placed,
    List.map_flatMap]
  refine List.flatMap_congr fun schema _ => ?_
  rw [List.filter_append, List.map_map]
  have relations : ((source.relationsIn database schema.name).map
      (fun rel => source.classRow database (schema, rel))).filter (!·.ofIndex) =
        (source.relationsIn database schema.name).map
          fun rel => source.classRow database (schema, rel) := by
    apply List.filter_eq_self.mpr
    intro row inside
    obtain ⟨rel, _, rfl⟩ := List.mem_map.mp inside
    rw [classRow_ofIndex]
    rfl
  have indexes : ((source.indexesIn database schema.name).map
      (buildIndexPgClassRow · schema.oid)).filter (!·.ofIndex) = [] := by
    apply List.filter_eq_nil_iff.mpr
    intro row inside
    obtain ⟨index, _, rfl⟩ := List.mem_map.mp inside
    exact Bool.false_ne_true
  rw [relations, indexes, List.append_nil]
  rfl

theorem index_classes (generated : Generated source database g) :
    g.classes.filter (·.ofIndex) = (source.placedIndexes database).map
      fun p => buildIndexPgClassRow p.2 p.1.oid := by
  rw [classes_built generated.classes, List.filter_flatMap, LazyCatalogSource.placedIndexes,
    List.map_flatMap]
  refine List.flatMap_congr fun schema _ => ?_
  rw [List.filter_append, List.map_map]
  have relations : ((source.relationsIn database schema.name).map
      (fun rel => source.classRow database (schema, rel))).filter (·.ofIndex) = [] := by
    apply List.filter_eq_nil_iff.mpr
    intro row inside
    obtain ⟨rel, _, rfl⟩ := List.mem_map.mp inside
    rw [classRow_ofIndex]
    exact Bool.false_ne_true
  have indexes : ((source.indexesIn database schema.name).map
      (buildIndexPgClassRow · schema.oid)).filter (·.ofIndex) =
        (source.indexesIn database schema.name).map (buildIndexPgClassRow · schema.oid) := by
    apply List.filter_eq_self.mpr
    intro row inside
    obtain ⟨index, _, rfl⟩ := List.mem_map.mp inside
    rfl
  rw [relations, indexes, List.nil_append]
  rfl

section
variable (oids : ((source.placed database).map (·.2.oid)).Nodup)
  (generated : Generated source database g)
include oids generated

theorem classesOf_placed {p : SchemaDef × RelationDef} (member : p ∈ source.placed database) :
    g.classesOf p.2.oid = [source.classRow database p] := by
  unfold GeneratedCatalog.classesOf
  rw [← List.filter_filter, relation_classes generated]
  exact filter_map_of_key oids member fun q => refers_iff rfl

theorem typesOf_placed {p : SchemaDef × RelationDef} (member : p ∈ source.placed database) :
    g.typesOf p.2.oid = [buildPgTypeRowtypeRow p.2 p.1.oid] := by
  unfold GeneratedCatalog.typesOf
  rw [types_built generated.types]
  exact filter_map_of_key oids member fun q => refers_iff rfl

theorem attributesOf_placed {p : SchemaDef × RelationDef}
    (member : p ∈ source.placed database) :
    g.attributesOf p.2.oid = buildPgAttributeRows p.2.oid (source.columnsAt database p) := by
  unfold GeneratedCatalog.attributesOf
  rw [(attributes_built generated.attributes).2]
  refine filter_flatMap_of_key oids member fun q row inside => ?_
  obtain ⟨column, _, rfl⟩ := List.mem_map.mp inside
  exact refers_iff rfl

end

theorem namespace_of_class (schemaOids : ((source.schemasIn database).map (·.oid)).Nodup)
    (generated : Generated source database g) {row : Row} (inside : row ∈ g.classes) :
    ∃ oid schema, row.refers "relnamespace" oid ∧
      g.namespaces.filter (·.refers "oid" oid) = [schema] := by
  rw [classes_built generated.classes] at inside
  obtain ⟨schema, declared, here⟩ := List.mem_flatMap.mp inside
  refine ⟨schema.oid, buildPgNamespaceRow schema, ?_, ?_⟩
  · obtain relation | index := List.mem_append.mp here
    · obtain ⟨rel, _, rfl⟩ := List.mem_map.mp relation
      exact (refers_iff rfl).mpr rfl
    · obtain ⟨index, _, rfl⟩ := List.mem_map.mp index
      exact (refers_iff rfl).mpr rfl
  · rw [namespaces_built generated.namespaces]
    exact filter_map_of_key schemaOids declared fun other => refers_iff rfl

/-- Positions that fit are numbered from one. -/
theorem attribute_numbers (oid : Int32) {columns : List ColumnSpec}
    (small : (columns.length : Int) ≤ Int32.maxValue.toInt) :
    (buildPgAttributeRows oid columns).map (·.get "attnum") =
      (List.range columns.length).map (fun i => some (.number (i + 1))) := by
  unfold buildPgAttributeRows
  have each : ∀ column ∈ columns.zipIdx,
      (buildPgAttributeRow oid column.2 column.1).get "attnum" =
        some (.number ((column.2 : Int) + 1)) := by
    intro column member
    have position := (List.mem_zipIdx' member).1
    have fits : ((column.2 + 1 : Nat) : Int) ≤ Int32.maxValue.toInt := by omega
    have value := toInt_ofNat fits
    exact congrArg (fun n => some (Value.number n)) value
  have positions := List.zipIdx_map_snd 0 columns
  rw [List.map_map, List.range_eq_range', ← positions, List.map_map]
  exact List.map_congr_left each

theorem attribute_names (oid : Int32) (columns : List ColumnSpec) :
    (buildPgAttributeRows oid columns).map (·.get "attname") =
      columns.map fun column => some (.string column.name) := by
  have again := List.zipIdx_map_fst 0 columns
  conv_rhs => rw [← again]
  unfold buildPgAttributeRows
  rw [List.map_map, List.map_map]
  exact List.map_congr_left fun column _ => rfl

/-- The cells a default handle names its column by. -/
def handleCells (handle : Int32 × Int32) : Option Value × Option Value :=
  (some (.oid handle.1), some (.oid handle.2))

theorem handleCells_injective : Function.Injective handleCells := by
  rintro ⟨a, n⟩ ⟨b, m⟩ same
  obtain ⟨first, second⟩ := Prod.mk.inj same
  exact Prod.ext (oid_eq_iff.mp (Option.some.inj first)) (oid_eq_iff.mp (Option.some.inj second))

theorem numberedAttrdefs_handles (oid : Int32) (handles : List (Int32 × Int32)) :
    (numberedAttrdefs oid handles).map (fun row => (row.get "adrelid", row.get "adnum")) =
      handles.map handleCells := by
  induction handles generalizing oid with
  | nil => rfl
  | cons handle rest ih =>
    have later := ih (oid + 1)
    rw [numberedAttrdefs, List.map_cons, List.map_cons, later]
    rfl

theorem numberedAttrdefs_oids (oid : Int32) (handles : List (Int32 × Int32)) :
    (numberedAttrdefs oid handles).map (·.get "oid") =
      (List.range handles.length).map fun i => some (.oid (oid + Int32.ofNat i)) := by
  induction handles generalizing oid with
  | nil => rfl
  | cons handle rest ih =>
    have first : oid + Int32.ofNat 0 = oid := Int32.add_zero oid
    have later := ih (oid + 1)
    rw [numberedAttrdefs, List.map_cons, later, List.length_cons, List.range_succ_eq_map,
      List.map_cons, List.map_map, first]
    refine congrArg₂ List.cons rfl (List.map_congr_left fun i _ => ?_)
    rw [Function.comp_apply, Nat.succ_eq_add_one, ofNat_succ, Int32.add_assoc]

theorem ofNat_inj_iff {i j : Nat} :
    Int32.ofNat i = Int32.ofNat j ↔ i % 2 ^ 32 = j % 2 ^ 32 := by
  rw [← Int32.toBitVec_inj, Int32.toBitVec_ofNat', Int32.toBitVec_ofNat', ← BitVec.toNat_inj,
    BitVec.toNat_ofNat, BitVec.toNat_ofNat]

/-- A counter of thirty-two bits numbers that many rows apart and not one more. -/
theorem counted_apart_iff (oid : Int32) (n : Nat) :
    ((List.range n).map fun i => some (Value.oid (oid + Int32.ofNat i))).Nodup ↔ n ≤ 2 ^ 32 := by
  have same_iff : ∀ i j, some (Value.oid (oid + Int32.ofNat i)) =
      some (Value.oid (oid + Int32.ofNat j)) ↔ i % 2 ^ 32 = j % 2 ^ 32 := by
    intro i j
    rw [Option.some.injEq, oid_eq_iff, Int32.add_right_inj, ofNat_inj_iff]
  constructor
  · intro apart
    by_contra many
    have inside : 2 ^ 32 ∈ List.range n := List.mem_range.mpr (by omega)
    have zero : 0 ∈ List.range n := List.mem_range.mpr (by omega)
    have wrapped := List.inj_on_of_nodup_map apart inside zero ((same_iff _ _).mpr (by decide))
    exact absurd wrapped (by decide)
  · intro few
    refine List.Nodup.map_on (fun i hi j hj same => ?_) List.nodup_range
    have low := List.mem_range.mp hi
    have other := List.mem_range.mp hj
    have equal := (same_iff i j).mp same
    rw [Nat.mod_eq_of_lt (by omega), Nat.mod_eq_of_lt (by omega)] at equal
    exact equal

theorem defaulted_handles (generated : Generated source database g) :
    g.defaulted.map (fun row => (row.get "attrelid", row.get "attnum")) =
      ((source.placed database).flatMap (source.defaultHandles database)).map handleCells := by
  unfold GeneratedCatalog.defaulted
  rw [(attributes_built generated.attributes).2, List.filter_flatMap, List.map_flatMap,
    List.map_flatMap]
  refine List.flatMap_congr fun p _ => ?_
  have rows : buildPgAttributeRows p.2.oid (source.columnsAt database p) =
      (source.columnsAt database p).zipIdx.map fun column =>
        buildPgAttributeRow p.2.oid column.2 column.1 := rfl
  have kept : (fun row : Row => decide (row.get "atthasdef" = some (.bool true))) ∘
      (fun column : ColumnSpec × Nat => buildPgAttributeRow p.2.oid column.2 column.1) =
        fun column => column.1.hasDefault := by
    funext column
    have cell : (buildPgAttributeRow p.2.oid column.2 column.1).get "atthasdef" =
        some (.bool column.1.hasDefault) := rfl
    rw [Function.comp_apply, cell]
    cases column.1.hasDefault <;> rfl
  rw [rows, List.filter_map, kept, LazyCatalogSource.defaultHandles, List.map_map, List.map_map]
  exact List.map_congr_left fun column _ => rfl

theorem defaultHandles_nodup (oids : ((source.placed database).map (·.2.oid)).Nodup)
    (small : ∀ p ∈ source.placed database,
      ((source.columnsAt database p).length : Int) ≤ Int32.maxValue.toInt) :
    ((source.placed database).flatMap (source.defaultHandles database)).Nodup := by
  refine nodup_flatMap_of_tag (·.2.oid) oids ?_ ?_
  · intro p _ q _ handle first second
    obtain ⟨_, _, rfl⟩ := List.mem_map.mp first
    obtain ⟨_, _, same⟩ := List.mem_map.mp second
    exact (Prod.mk.inj same).1.symm
  · intro p member
    have positions : (((source.columnsAt database p).zipIdx.filter (·.1.hasDefault)).map
        (·.2)).Nodup := by
      have all : ((source.columnsAt database p).zipIdx.map (·.2)).Nodup := by
        have range := List.zipIdx_map_snd 0 (source.columnsAt database p)
        rw [range]
        exact List.nodup_range'
      exact all.sublist (List.Sublist.map _ List.filter_sublist)
    unfold LazyCatalogSource.defaultHandles
    refine List.Nodup.map_on ?_ (List.Nodup.of_map _ positions)
    intro a ha b hb same
    have room : ((source.columnsAt database p).length : Int) ≤ 2147483647 := small p member
    have first := (List.mem_zipIdx' (List.mem_filter.mp ha).1).1
    have second := (List.mem_zipIdx' (List.mem_filter.mp hb).1).1
    have wrapped := ofNat_inj_iff.mp (Prod.mk.inj same).2
    rw [Nat.mod_eq_of_lt (by omega), Nat.mod_eq_of_lt (by omega)] at wrapped
    exact List.inj_on_of_nodup_map positions ha hb (by omega)

theorem defaultHandles_length :
    ((source.placed database).flatMap (source.defaultHandles database)).length =
      source.defaultCount database := by
  unfold LazyCatalogSource.defaultCount
  rw [List.length_flatMap, List.countP_flatMap]
  refine congrArg List.sum (List.map_congr_left fun p _ => ?_)
  have again := List.zipIdx_map_fst 0 (source.columnsAt database p)
  conv_rhs => rw [Function.comp_apply, ← again, List.countP_map, List.countP_eq_length_filter]
  unfold LazyCatalogSource.defaultHandles
  rw [List.length_map]
  rfl

theorem synthetic_iff (generated : Generated source database g) :
    (g.attrdefs.map (·.get "oid")).Nodup ↔ source.defaultCount database ≤ 2 ^ 32 := by
  rw [attrdefs_built generated.attrdefs, numberedAttrdefs_oids, counted_apart_iff,
    defaultHandles_length]

/-- The references hold in every database of every source whose relations and schemas
have distinct numbers, up to the defaults that the counter has numbers for. -/
theorem integrity_iff (oids : ((source.placed database).map (·.2.oid)).Nodup)
    (schemaOids : ((source.schemasIn database).map (·.oid)).Nodup)
    (generated : Generated source database g) :
    ReferentialIntegrity source database g ↔ source.defaultCount database ≤ 2 ^ 32 := by
  constructor
  · intro integrity
    exact (synthetic_iff generated).mp integrity.synthetic
  intro few
  have small := (attributes_built generated.attributes).1
  refine ⟨fun row inside => namespace_of_class schemaOids generated inside, ?_, ?_, ?_, ?_, ?_, ?_,
    (synthetic_iff generated).mpr few⟩
  · intro p member
    have natts := @classRow_natts source database p
    rw [Value.oid, toInt_ofNat (small p member)] at natts
    refine ⟨_, _, classesOf_placed oids generated member, natts, ?_, ?_⟩
    · rw [attributesOf_placed oids generated member]
      exact attribute_numbers p.2.oid (small p member)
    · rw [attributesOf_placed oids generated member]
      exact attribute_names p.2.oid _
  · intro p member
    exact ⟨_, _, classesOf_placed oids generated member, typesOf_placed oids generated member,
      (refers_iff rfl).mpr rfl, (refers_iff rfl).mpr rfl⟩
  · rw [attrdefs_built generated.attrdefs, numberedAttrdefs_handles, defaulted_handles generated]
  · rw [defaulted_handles generated]
    exact (defaultHandles_nodup oids small).map handleCells_injective
  · rw [indexes_built generated.indexes, List.map_map]
    rfl
  · rw [index_classes generated, List.map_map]
    rfl

end

/-- As many columns as can be numbered, each with a default. -/
def wideColumns (n : Nat) : List ColumnSpec :=
  (List.range n).map fun i => ⟨toString i, 23, true, true⟩

def wideRelations : List RelationDef :=
  [{ oid := 16385, reltypeOid := 16386, name := "a" },
    { oid := 16387, reltypeOid := 16388, name := "b" },
    { oid := 16389, reltypeOid := 16390, name := "c" }]

/-- Three relations of `n` columns. -/
def wideSource (n : Nat) : DeclaredCatalogSource where
  databases := [declaredDatabaseRow "app" 16384]
  schemas := [("app", { oid := 2200, name := "public", ownerOid := some 10 })]
  relations := wideRelations.map fun rel => ⟨"app", "public", rel, wideColumns n⟩

theorem wideColumns_servable {n : Nat} (small : (n : Int) ≤ Int32.maxValue.toInt) :
    ColumnsServable (wideColumns n) := by
  unfold wideColumns
  constructor
  · rw [List.map_map]
    exact List.nodup_range.map fun a b same => Nat.repr_inj.mp same
  · rw [List.length_map, List.length_range]
    exact small

theorem wideSource_schemas (n : Nat) : (wideSource n).schemasIn "app" =
    [{ oid := 2200, name := "public", ownerOid := some 10 }] := rfl

theorem wideSource_relations (n : Nat) (schema : String) :
    (wideSource n).relationsIn "app" schema = if schema = "public" then wideRelations else [] := by
  split
  · rename_i here
    rw [here]
    rfl
  · rename_i other
    unfold DeclaredCatalogSource.relationsIn
    have away : ((wideSource n).relations.filter
        fun entry => entry.database = "app" ∧ entry.schema = schema) = [] := by
      apply List.filter_eq_nil_iff.mpr
      intro entry member kept
      obtain ⟨rel, _, rfl⟩ := List.mem_map.mp member
      exact other (of_decide_eq_true kept).2.symm
    rw [away]
    rfl

theorem wideSource_placed (n : Nat) : (wideSource n).placed "app" =
    wideRelations.map fun rel => ({ oid := 2200, name := "public", ownerOid := some 10 }, rel) :=
  rfl

theorem wideSource_keyed (n : Nat) : (wideSource n).WellKeyed "app" := by
  constructor
  · exact List.nodup_singleton _
  · rw [wideSource_schemas]
    exact List.nodup_singleton _
  · rw [wideSource_schemas]
    exact List.nodup_singleton _
  · intro schema
    rw [wideSource_relations]
    split
    · decide
    · exact List.nodup_nil
  · rw [wideSource_placed]
    decide

theorem wideSource_columns (n : Nat) :
    ∀ p ∈ (wideSource n).placed "app", (wideSource n).columnsAt "app" p = wideColumns n := by
  intro p member
  rw [wideSource_placed] at member
  obtain ⟨rel, here, rfl⟩ := List.mem_map.mp member
  simp only [wideRelations, List.mem_cons, List.not_mem_nil, or_false] at here
  obtain rfl | rfl | rfl := here <;> rfl

/-- The lazy view of a declared source reports what was declared. -/
theorem toLazy_placed (source : DeclaredCatalogSource) (database : String) :
    source.toLazy.placed database = source.placed database := by
  have schemas : source.toLazy.schemasIn database = source.schemasIn database :=
    Delivery.told_of_fetch (Delivery.fetch_once _)
  have relations : ∀ schema, source.toLazy.relationsIn database schema =
      source.relationsIn database schema := fun schema =>
    Delivery.told_of_fetch (Delivery.fetch_once _)
  rw [LazyCatalogSource.placed, schemas]
  exact List.flatMap_congr fun schema _ => by rw [relations]

theorem toLazy_columnsAt (source : DeclaredCatalogSource) (database : String)
    (p : SchemaDef × RelationDef) :
    source.toLazy.columnsAt database p = source.columnsAt database p :=
  Delivery.told_of_fetch (Delivery.fetch_once _)

theorem wide_defaultCount (n : Nat) : (wideSource n).toLazy.defaultCount "app" = 3 * n := by
  have each : ∀ p ∈ (wideSource n).placed "app",
      ((wideSource n).toLazy.columnsAt "app" p).countP (·.hasDefault) = n := by
    intro p member
    rw [toLazy_columnsAt, wideSource_columns n p member, wideColumns, List.countP_map]
    have all : ∀ i ∈ List.range n, ((fun column : ColumnSpec => column.hasDefault) ∘
        fun i : Nat => ⟨toString i, 23, true, true⟩) i = true := fun _ _ => rfl
    rw [List.countP_eq_length.mpr all, List.length_range]
  unfold LazyCatalogSource.defaultCount
  have counts : ((wideSource n).placed "app").map
      ((List.countP (·.hasDefault)) ∘ (wideSource n).toLazy.columnsAt "app") = [n, n, n] :=
    List.map_congr_left each
  rw [List.countP_flatMap, toLazy_placed, counts]
  simp only [List.sum_cons, List.sum_nil]
  omega

theorem infoColumns_ok (catalog schema relation : String) {columns : List ColumnSpec}
    (small : (columns.length : Int) ≤ Int32.maxValue.toInt) :
    ∃ rows, buildInfoColumnsRows catalog schema relation columns = .ok rows := by
  refine mapM_exists fun column member => ?_
  have position := (List.mem_zipIdx' member).1
  have fits : (column.2 : Int) + 1 ≤ Int32.maxValue.toInt := by omega
  obtain ⟨ordinal, numbered, _⟩ := oneBasedPosition_ok relation fits
  dsimp only
  rw [numbered]
  exact ⟨_, rfl⟩

/-- Every table of the wide source builds. -/
theorem wide_built {n : Nat} (small : (n : Int) ≤ Int32.maxValue.toInt) (table : CatalogTable) :
    ∃ rows, buildRowsFor table (wideSource n).toLazy "app" = .ok rows := by
  have keyed := wideSource_keyed n
  have columns : ∀ p ∈ (wideSource n).placed "app",
      ColumnsServable ((wideSource n).columnsAt "app" p) := by
    intro p member
    rw [wideSource_columns n p member]
    exact wideColumns_servable small
  have served := DeclaredCatalogSource.servable_of_columns keyed columns
  by_cases listed : table ∈ LazyCatalogOptions.all
  · obtain ⟨⟨rows, built, _⟩, _⟩ := served table listed
    exact ⟨rows, built⟩
  have fetched := DeclaredCatalogSource.fetch_schemas keyed
  cases table
  case informationSchemaTables =>
    exact ⟨_, DeclaredCatalogSource.collect_placed keyed
      (fun p => [buildInfoTablesRow "app" p.1.name p.2]) fun _ _ => rfl⟩
  case informationSchemaSchemata =>
    refine ⟨((wideSource n).schemasIn "app").map (buildInfoSchemataRow "app"), ?_⟩
    unfold buildRowsFor collectInfoSchemataRows
    rw [fetched]
    rfl
  case informationSchemaColumns =>
    let rows (schema : SchemaDef) (rel : RelationDef) : DFResult (List Row) := do
      let columns ← ((wideSource n).toLazy.columns "app" schema.name rel.name).fetch
      buildInfoColumnsRows "app" schema.name rel.name columns
    have each : ∀ p ∈ (wideSource n).placed "app", rows p.1 p.2 =
        .ok ((rows p.1 p.2).toOption.getD []) := ?_
    · exact ⟨_, DeclaredCatalogSource.collect_placed keyed _ each⟩
    intro p member
    have few : (((wideSource n).columnsAt "app" p).length : Int) ≤ Int32.maxValue.toInt :=
      (columns p member).2
    obtain ⟨built, numbered⟩ := infoColumns_ok "app" p.1.name p.2.name few
    have walked : rows p.1 p.2 = .ok built := by
      simp only [rows, DeclaredCatalogSource.toLazy, Delivery.fetch_once, ok_bind]
      exact numbered
    rw [walked]
    rfl
  all_goals exact absurd (by decide) listed

/-- Six billion defaults are numbered by a counter of thirty-two bits: every table builds,
and handles of different columns come under one number. -/
theorem attrdef_oids_repeat :
    (((wideSource 2147483647).toLazy.placed "app").map (·.2.oid)).Nodup ∧
      (((wideSource 2147483647).toLazy.schemasIn "app").map (·.oid)).Nodup ∧
      (∀ table, ∃ rows, buildRowsFor table (wideSource 2147483647).toLazy "app" = .ok rows) ∧
      ∀ g, Generated (wideSource 2147483647).toLazy "app" g →
        ¬ReferentialIntegrity (wideSource 2147483647).toLazy "app" g := by
  refine ⟨?_, ?_, wide_built (by decide), ?_⟩
  · rw [toLazy_placed]
    exact (wideSource_keyed 2147483647).relation_oids
  · exact (wideSource_keyed 2147483647).schema_oids
  · intro g generated integrity
    have few := (synthetic_iff generated).mp integrity.synthetic
    rw [wide_defaultCount] at few
    exact absurd few (by decide)

/-- A few defaults are numbered apart. -/
theorem small_integrity : ∃ g, Generated (wideSource 2).toLazy "app" g ∧
    ReferentialIntegrity (wideSource 2).toLazy "app" g := by
  have built := wide_built (n := 2) (by decide)
  obtain ⟨namespaces, namespaces_built⟩ := built .pgNamespace
  obtain ⟨classes, classes_built⟩ := built .pgClass
  obtain ⟨types, types_built⟩ := built .pgType
  obtain ⟨attributes, attributes_built⟩ := built .pgAttribute
  obtain ⟨indexes, indexes_built⟩ := built .pgIndex
  obtain ⟨attrdefs, attrdefs_built⟩ := built .pgAttrdef
  refine ⟨⟨namespaces, classes, types, attributes, indexes, attrdefs⟩,
    ⟨namespaces_built, classes_built, types_built, attributes_built, indexes_built,
      attrdefs_built⟩, ?_⟩
  have oids : (((wideSource 2).toLazy.placed "app").map (·.2.oid)).Nodup := by decide
  have schemaOids : (((wideSource 2).toLazy.schemasIn "app").map (·.oid)).Nodup := by decide
  refine (integrity_iff oids schemaOids ⟨namespaces_built, classes_built, types_built,
    attributes_built, indexes_built, attrdefs_built⟩).mpr ?_
  rw [wide_defaultCount]
  decide

end PgCatalog
