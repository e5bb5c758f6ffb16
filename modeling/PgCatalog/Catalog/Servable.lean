import PgCatalog.Catalog.Keys

/-! Which declared catalogs can be scanned: every table builds its rows under distinct
keys exactly when no declared table repeats a column name. -/
namespace PgCatalog

open Library

/-- Columns that can be served: no name twice, and few enough to be numbered. -/
def ColumnsServable (columns : List ColumnSpec) : Prop :=
  (columns.map (·.name)).Nodup ∧ (columns.length : Int) ≤ Int32.maxValue.toInt

namespace DeclaredCatalogSource
variable {source : DeclaredCatalogSource} {database : String}

theorem attributeKeys_nodup (p : SchemaDef × RelationDef)
    (distinct : ((source.columnsAt database p).map (·.name)).Nodup) :
    (source.attributeKeys database p).Nodup := by
  refine List.Nodup.map_on ?_ (List.Nodup.of_map _ distinct)
  intro a ha b hb same
  exact List.inj_on_of_nodup_map distinct ha hb (List.cons.inj (List.cons.inj same).2).1

theorem servable_of_columns (keyed : source.WellKeyed database)
    (columns : ∀ p ∈ source.placed database, ColumnsServable (source.columnsAt database p)) :
    ∀ table ∈ LazyCatalogOptions.all, Servable table source.toLazy database := by
  have small := fun p member => (columns p member).2
  have nothing : ∀ table, buildRowsFor table source.toLazy database = .ok [] →
      Servable table source.toLazy database := by
    intro table built
    exact (servable_iff _ _ _).mpr ⟨[], built, List.nodup_nil⟩
  have schemas_only : ∀ (rows : SchemaDef → DFResult (List Row)), (∀ schema, rows schema = .ok []) →
      collectSchemas source.toLazy database rows = .ok [] := by
    intro rows empty
    rw [collectSchemas, fetch_schemas keyed, ok_bind,
      mapM_ok (g := fun _ => []) fun schema _ => empty schema, ok_bind]
    exact congrArg Except.ok (by simp)
  intro table member
  simp only [LazyCatalogOptions.all, List.mem_cons, List.not_mem_nil, or_false] at member
  rcases member with rfl | rfl | rfl | rfl | rfl | rfl | rfl | rfl | rfl | rfl
  case inl =>
    refine (servable_iff _ _ _).mpr ⟨source.databases.map buildPgDatabaseRow, ?_, ?_⟩
    · simp only [buildRowsFor, collectPgDatabaseRows, toLazy, Delivery.fetch_once, ok_bind]
      rfl
    · rw [List.map_map]
      have names := keyed.database_names.map (f := fun name => [name]) fun a b same =>
        (List.cons.inj same).1
      rwa [List.map_map] at names
  case inr.inl =>
    refine (servable_iff _ _ _).mpr ⟨(source.schemasIn database).map buildPgNamespaceRow, ?_, ?_⟩
    · simp only [buildRowsFor, collectPgNamespaceRows, fetch_schemas keyed, ok_bind]
      rfl
    · rw [List.map_map]
      have oids := keyed.schema_oids.map (f := fun oid : Int32 => [toString oid.toInt])
        fun a b same => toString_oid_inj (List.cons.inj same).1
      rwa [List.map_map] at oids
  case inr.inr.inl =>
    obtain ⟨rows, built, keys⟩ := class_rows keyed small
    exact (servable_iff _ _ _).mpr ⟨rows, built, keys ▸ placed_keys keyed⟩
  case inr.inr.inr.inl =>
    obtain ⟨rows, built, keys⟩ := type_rows keyed
    exact (servable_iff _ _ _).mpr ⟨rows, built, keys ▸ placed_keys keyed⟩
  case inr.inr.inr.inr.inl =>
    obtain ⟨rows, built, keys⟩ := attribute_rows keyed small
    refine (servable_iff _ _ _).mpr ⟨rows, built, keys ▸ placed_blocks keyed ?_ ?_⟩
    · intro p _ key member
      obtain ⟨column, _, rfl⟩ := List.mem_map.mp member
      rfl
    · exact fun p member => attributeKeys_nodup p (columns p member).1
  case inr.inr.inr.inr.inr.inl =>
    exact nothing _ (schemas_only _ fun _ => rfl)
  case inr.inr.inr.inr.inr.inr.inl =>
    exact nothing _ (schemas_only _ fun _ => rfl)
  case inr.inr.inr.inr.inr.inr.inr.inl =>
    obtain ⟨rows, built, keys⟩ := attrdef_rows keyed small
    refine (servable_iff _ _ _).mpr ⟨rows, built, keys ▸ placed_blocks keyed ?_ ?_⟩
    · intro p _ key member
      obtain ⟨column, _, member⟩ := List.mem_flatMap.mp member
      split at member
      · obtain rfl := List.mem_singleton.mp member
        rfl
      · cases member
    · exact fun p _ => attrdefKeys_nodup p
  all_goals exact nothing _ rfl

theorem columns_of_servable (keyed : source.WellKeyed database)
    (served : Servable .pgAttribute source.toLazy database) :
    ∀ p ∈ source.placed database, ColumnsServable (source.columnsAt database p) := by
  obtain ⟨⟨rows, built, distinct⟩, _⟩ := served
  have small : ∀ p ∈ source.placed database,
      ((source.columnsAt database p).length : Int) ≤ Int32.maxValue.toInt := by
    intro p member
    obtain ⟨block, walked⟩ := collect_placed_mem keyed built p member
    refine (attributeCountAsI32_ok_iff p.2.name).mp ?_
    simp only [pgAttributeRows, toLazy, Delivery.fetch_once, ok_bind] at walked
    cases counted : attributeCountAsI32 (source.columnsAt database p).length p.2.name with
    | ok n => exact ⟨n, rfl⟩
    | error e =>
      rw [columnsAt] at counted
      rw [counted] at walked
      cases walked
  intro p member
  refine ⟨?_, small p member⟩
  obtain ⟨rows', built', keys⟩ := attribute_rows keyed small
  have same : rows = rows' := Except.ok.inj (built.symm.trans built')
  rw [same, keys] at distinct
  have block := (List.nodup_flatMap.mp distinct).1 p member
  rw [attributeKeys] at block
  exact List.Nodup.of_map (f := fun name => [toString p.2.oid.toInt, name]) (by rwa [List.map_map])

end DeclaredCatalogSource

section
variable {σ : Type} [CatalogOidRegistry σ] [LawfulRegistry σ] {s : σ}
  {databases : List String} {schemas : List (String × String)} {tables : List DeclaredTable}

/-- A placed relation is a declared table's, under a schema of the same database. -/
theorem describe_placed {l : Ledger} {database : String} {p : SchemaDef × RelationDef}
    (member : p ∈ (l.describe databases schemas tables).placed database) :
    ∃ table ∈ tables, table.home = (database, p.1.name) ∧ p.2 = (l.describeTable table).relation := by
  obtain ⟨schema, _, inside⟩ := List.mem_flatMap.mp member
  obtain ⟨rel, here, rfl⟩ := List.mem_map.mp inside
  rw [describe_relationsIn] at here
  obtain ⟨table, kept, rfl⟩ := List.mem_map.mp here
  obtain ⟨listed, home⟩ := List.mem_filter.mp kept
  exact ⟨table, listed, of_decide_eq_true home, rfl⟩

theorem describe_placed_mem (l : Ledger) (databases : List String)
    (schemas : List (String × String)) {table : DeclaredTable} (member : table ∈ tables) :
    ∃ p ∈ (l.describe databases schemas tables).placed table.database,
      p.1.name = table.schema ∧ p.2 = (l.describeTable table).relation := by
  have here : (l.describeTable table).relation ∈
      (l.describe databases schemas tables).relationsIn table.database table.schema := by
    rw [describe_relationsIn]
    exact List.mem_map.mpr ⟨table, List.mem_filter.mpr ⟨member, decide_eq_true rfl⟩, rfl⟩
  obtain ⟨schema, declared, named⟩ := List.mem_map.mp
    (describe_relations_inside l (List.ne_nil_of_mem here))
  refine ⟨(schema, _), List.mem_flatMap.mpr ⟨schema, declared, ?_⟩, named, rfl⟩
  rw [named]
  exact List.mem_map.mpr ⟨_, here, rfl⟩

theorem describe_columnsOf {l : Ledger} (accepted : Acceptable databases schemas tables)
    {table : DeclaredTable} (member : table ∈ tables) :
    (l.describe databases schemas tables).columnsOf table.database table.schema table.name =
      columnSpecsFromDefs table.columns := by
  simp only [DeclaredCatalogSource.columnsOf, Ledger.describe, List.find?_map, Option.map_map]
  have found : tables.find? ((fun r : DeclaredRelation => decide (r.database = table.database ∧
      r.schema = table.schema ∧ r.relation.name = table.name)) ∘ l.describeTable) = some table := by
    cases first : tables.find? ((fun r : DeclaredRelation => decide (r.database = table.database ∧
        r.schema = table.schema ∧ r.relation.name = table.name)) ∘ l.describeTable) with
    | none =>
      refine absurd (List.find?_eq_none.mp first table member) (not_not_intro ?_)
      exact decide_eq_true ⟨rfl, rfl, rfl⟩
    | some other =>
      have matched := List.find?_some first
      simp only [Function.comp_apply, decide_eq_true_eq] at matched
      obtain ⟨same_database, same_schema, same_name⟩ := matched
      refine congrArg some (List.inj_on_of_nodup_map accepted.tables_nodup
        (List.mem_of_find?_eq_some first) member ?_)
      exact Prod.ext same_database (Prod.ext same_schema same_name)
  rw [found]
  rfl

theorem describe_wellKeyed (valid : Valid s) (accepted : Acceptable databases schemas tables)
    (served : Served s (declarationCalls databases schemas tables)) (database : String) :
    ((ledger (run resolve s (declarationCalls databases schemas tables))).describe
      databases schemas tables).WellKeyed database := by
  generalize number : ledger (run resolve s (declarationCalls databases schemas tables)) = l
  have injective : ∀ {a b : OidSlot}, a.object ∈ declarationCalls databases schemas tables →
      b.object ∈ declarationCalls databases schemas tables → l.oid a = l.oid b → a = b := by
    rw [← number]
    exact called_oid_injective valid served
  have user : ∀ {a : OidSlot}, a.object ∈ declarationCalls databases schemas tables →
      l.oid a ≠ PUBLIC_SCHEMA_OID := by
    intro a called same
    have held := called_oidAt valid served called
    have above := ((run_oidInvariant valid _).bounded _ _ held).1
    rw [number, same] at above
    exact absurd above (by decide)
  have called : ∀ schema ∈ (l.describe databases schemas tables).schemasIn database,
      schema.name ≠ "public" → CatalogObject.schema database schema.name ∈
        declarationCalls databases schemas tables := by
    intro schema member named
    refine mem_declarationCalls.mpr (.inr (.inl ⟨_, (mem_describe_schemasIn _ _ _ _ member).1, ?_⟩))
    rw [schemaCalls, if_neg named]
    exact List.mem_singleton.mpr rfl
  have schema_oid : ∀ schema ∈ (l.describe databases schemas tables).schemasIn database,
      schema.oid = if schema.name = "public" then PUBLIC_SCHEMA_OID
        else l.oid (.schema database schema.name) := by
    intro schema member
    rw [(mem_describe_schemasIn _ _ _ _ member).2]
    by_cases named : schema.name = "public"
    · simp only [Ledger.describeSchema, if_pos named]
    · simp only [Ledger.describeSchema, if_neg named]
  have placed_oid : ∀ p ∈ (l.describe databases schemas tables).placed database,
      p.2.oid = l.oid (.relation database p.1.name p.2.name) ∧
        CatalogObject.relation database p.1.name p.2.name ∈
          declarationCalls databases schemas tables := by
    intro p member
    obtain ⟨table, listed, home, relation⟩ := describe_placed member
    simp only [DeclaredTable.home, Prod.mk.injEq] at home
    rw [relation, ← home.1, ← home.2]
    exact ⟨rfl, mem_declarationCalls.mpr (.inr (.inr ⟨table, listed, rfl⟩))⟩
  constructor
  · simpa only [Ledger.describe, map_datname] using accepted.databases_nodup
  · exact describe_schema_names l accepted database
  · refine List.Nodup.map_on ?_ (List.Nodup.of_map _ (describe_schema_names l accepted database))
    intro a ha b hb same
    refine List.inj_on_of_nodup_map (describe_schema_names l accepted database) ha hb ?_
    rw [schema_oid a ha, schema_oid b hb] at same
    split at same <;> split at same
    · simp only [*]
    · exact absurd same.symm (user (called b hb ‹_›))
    · exact absurd same (user (called a ha ‹_›))
    · exact (OidSlot.schema.inj (injective (called a ha ‹_›) (called b hb ‹_›) same)).2
  · exact describe_relation_names l accepted database
  · have apart : (((l.describe databases schemas tables).placed database).map
        fun p => (p.1.name, p.2.name)).Nodup := by
      rw [DeclaredCatalogSource.placed, List.map_flatMap]
      refine nodup_flatMap_of_tag (·.name) (describe_schema_names l accepted database) ?_ ?_
      · intro a _ b _ key first second
        simp only [List.map_map, List.mem_map] at first second
        obtain ⟨rel, _, rfl⟩ := first
        obtain ⟨other, _, same⟩ := second
        exact (Prod.mk.inj same).1.symm
      · intro schema _
        rw [List.map_map]
        refine List.Nodup.map_on ?_
          (List.Nodup.of_map _ (describe_relation_names l accepted database schema.name))
        intro a ha b hb same
        exact List.inj_on_of_nodup_map (describe_relation_names l accepted database schema.name)
          ha hb (Prod.mk.inj same).2
    refine List.Nodup.map_on ?_ (List.Nodup.of_map _ apart)
    intro p hp q hq same
    obtain ⟨first, here⟩ := placed_oid p hp
    obtain ⟨second, there⟩ := placed_oid q hq
    have slots := OidSlot.relation.inj (injective here there (first.symm.trans (same.trans second)))
    exact List.inj_on_of_nodup_map apart hp hq (Prod.ext slots.2.1 slots.2.2)

/-- A declared catalog can be scanned, table by table, exactly when the columns of every
table declared in the database can be served. -/
theorem declared_servable_iff (valid : Valid s) {source : DeclaredCatalogSource} {t : σ}
    (declared : fromDeclarations databases schemas tables s = (.ok source, t)) (database : String) :
    (∀ table ∈ LazyCatalogOptions.all, Servable table source.toLazy database) ↔
      ∀ table ∈ tables, table.database = database →
        ColumnsServable (columnSpecsFromDefs table.columns) := by
  obtain ⟨accepted, served, rfl, rfl⟩ := (fromDeclarations_iff valid _ _ _ _).mp declared
  have keyed := describe_wellKeyed valid accepted served database
  constructor
  · intro all table listed home
    have columns := DeclaredCatalogSource.columns_of_servable keyed (all .pgAttribute (by decide))
    obtain ⟨p, member, named, relation⟩ := describe_placed_mem
      (ledger (run resolve s (declarationCalls databases schemas tables))) databases schemas listed
    have here := columns p (home ▸ member)
    rw [DeclaredCatalogSource.columnsAt, named, relation, ← home] at here
    exact describe_columnsOf accepted listed ▸ here
  · intro columns
    refine DeclaredCatalogSource.servable_of_columns keyed fun p member => ?_
    obtain ⟨table, listed, home, relation⟩ := describe_placed member
    simp only [DeclaredTable.home, Prod.mk.injEq] at home
    rw [DeclaredCatalogSource.columnsAt, relation, ← home.1, ← home.2]
    exact (describe_columnsOf accepted listed).symm ▸ columns table listed home.1

end

/-- A table with two columns of one name is declared without complaint, and then every
scan of `pg_attribute` is refused. -/
theorem repeated_column_refused_by_scan :
    ∃ source t, fromDeclarations ["app"] []
        [⟨"app", "sales", "orders",
          [.single "id" ⟨"int", false, false⟩, .single "id" ⟨"text", true, false⟩]⟩]
        InMemoryRegistryState.new = (.ok source, t) ∧
      scanUserKeys .pgAttribute source.toLazy "app" = .error (.execution
        ("lazy catalog source returned a duplicate pg_attribute entry for (attrelid, attname) = "
          ++ "[\"16386\", \"id\"]")) ∧
      ¬ ∀ table ∈ LazyCatalogOptions.all, Servable table source.toLazy "app" := by
  refine ⟨_, _, rfl, ?_, ?_⟩
  · decide
  · intro all
    obtain ⟨keys, scanned⟩ := (all .pgAttribute (by decide)).2
    cases scanned

/-- Distinct names are served, whatever maps spell them. -/
theorem orders_servable :
    ∃ source t, fromDeclarations ["app"] []
        [⟨"app", "sales", "orders",
          [.single "id" ⟨"int", false, true⟩, .single "note" ⟨"text", true, false⟩]⟩]
        InMemoryRegistryState.new = (.ok source, t) ∧
      ∀ table ∈ LazyCatalogOptions.all, Servable table source.toLazy "app" := by
  have declared := (fromDeclarations_iff new_valid ["app"] [] [⟨"app", "sales", "orders",
    [.single "id" ⟨"int", false, true⟩, .single "note" ⟨"text", true, false⟩]⟩] _).mpr
    ⟨⟨by decide, by decide, by decide, by decide, by decide⟩, served_of_all (by decide), rfl, rfl⟩
  refine ⟨_, _, declared, (declared_servable_iff new_valid declared "app").mpr ?_⟩
  intro table listed _
  obtain rfl := List.mem_singleton.mp listed
  exact ⟨by decide, by decide⟩

end PgCatalog
