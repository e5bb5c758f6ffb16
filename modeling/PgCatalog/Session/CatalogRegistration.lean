import PgCatalog.Library.Placing
import PgCatalog.Session.IpcArtifact
import PgCatalog.Session.Views

/-! Registering a parsed catalog with a session: its tables are put where none stands, the views
it declares are left for later. -/
namespace PgCatalog.Session

open Library Library.Placing

/-- Declared views that are served as views. -/
def VIEWS_TO_REGISTER : List (String × String) :=
  [("pg_catalog", "pg_views"), ("pg_catalog", "pg_tables"),
    ("information_schema", "table_constraints"), ("information_schema", "key_column_usage"),
    ("information_schema", "constraint_column_usage"),
    ("information_schema", "referential_constraints"), ("pg_catalog", "pg_indexes"),
    ("pg_catalog", "pg_matviews"), ("pg_catalog", "pg_shadow"),
    ("information_schema", "routines"), ("information_schema", "sequences"),
    ("information_schema", "domains"), ("information_schema", "attributes"),
    ("information_schema", "triggers"), ("information_schema", "user_defined_types"),
    ("information_schema", "column_udt_usage"), ("information_schema", "column_domain_usage"),
    ("information_schema", "constraint_table_usage"), ("information_schema", "character_sets"),
    ("information_schema", "collations"),
    ("information_schema", "collation_character_set_applicability"),
    ("information_schema", "check_constraint_routine_usage"),
    ("information_schema", "column_column_usage"), ("information_schema", "domain_constraints"),
    ("information_schema", "domain_udt_usage"), ("information_schema", "enabled_roles"),
    ("information_schema", "information_schema_catalog_name"),
    ("information_schema", "routine_column_usage"),
    ("information_schema", "routine_routine_usage"),
    ("information_schema", "routine_sequence_usage"),
    ("information_schema", "routine_table_usage"),
    ("information_schema", "triggered_update_columns"), ("information_schema", "transforms"),
    ("information_schema", "view_column_usage"), ("information_schema", "view_routine_usage"),
    ("information_schema", "view_table_usage"), ("information_schema", "tables"),
    ("information_schema", "columns"), ("information_schema", "schemata"),
    ("information_schema", "views"), ("information_schema", "check_constraints"),
    ("information_schema", "parameters"), ("information_schema", "element_types"),
    ("pg_catalog", "pg_roles"), ("pg_catalog", "pg_user"),
    ("information_schema", "_pg_foreign_data_wrappers"),
    ("information_schema", "_pg_foreign_servers"),
    ("information_schema", "_pg_foreign_table_columns"),
    ("information_schema", "_pg_foreign_tables"), ("pg_catalog", "pg_sequences"),
    ("information_schema", "_pg_user_mappings"),
    ("information_schema", "administrable_role_authorizations"),
    ("information_schema", "applicable_roles"), ("information_schema", "column_options"),
    ("information_schema", "column_privileges"), ("information_schema", "data_type_privileges"),
    ("information_schema", "foreign_data_wrapper_options"),
    ("information_schema", "foreign_data_wrappers"),
    ("information_schema", "foreign_server_options"), ("information_schema", "foreign_servers"),
    ("information_schema", "foreign_table_options"), ("information_schema", "foreign_tables"),
    ("information_schema", "role_column_grants"), ("information_schema", "role_routine_grants"),
    ("information_schema", "role_table_grants"), ("information_schema", "role_udt_grants"),
    ("information_schema", "role_usage_grants"), ("information_schema", "routine_privileges"),
    ("information_schema", "table_privileges"), ("information_schema", "udt_privileges"),
    ("information_schema", "usage_privileges"), ("information_schema", "user_mapping_options"),
    ("information_schema", "user_mappings"), ("pg_catalog", "pg_rules"),
    ("pg_catalog", "pg_stat_sys_indexes"), ("pg_catalog", "pg_stat_sys_tables"),
    ("pg_catalog", "pg_stat_user_indexes"), ("pg_catalog", "pg_stat_user_tables"),
    ("pg_catalog", "pg_stat_xact_sys_tables"), ("pg_catalog", "pg_stat_xact_user_tables"),
    ("pg_catalog", "pg_statio_sys_indexes"), ("pg_catalog", "pg_statio_sys_sequences"),
    ("pg_catalog", "pg_statio_sys_tables"), ("pg_catalog", "pg_statio_user_indexes"),
    ("pg_catalog", "pg_statio_user_sequences"), ("pg_catalog", "pg_statio_user_tables"),
    ("pg_catalog", "pg_user_mappings"), ("pg_catalog", "pg_stat_all_tables"),
    ("pg_catalog", "pg_stat_all_indexes"), ("pg_catalog", "pg_stat_xact_all_tables"),
    ("pg_catalog", "pg_statio_all_indexes"), ("pg_catalog", "pg_statio_all_sequences"),
    ("pg_catalog", "pg_stat_database"), ("pg_catalog", "pg_stat_database_conflicts"),
    ("pg_catalog", "pg_stat_user_functions"), ("pg_catalog", "pg_stat_xact_user_functions"),
    ("pg_catalog", "pg_stat_activity"), ("pg_catalog", "pg_stat_replication"),
    ("pg_catalog", "pg_stat_gssapi"), ("pg_catalog", "pg_stat_ssl"),
    ("pg_catalog", "pg_stat_io"), ("pg_catalog", "pg_stat_slru"),
    ("pg_catalog", "pg_stat_subscription"), ("pg_catalog", "pg_stat_recovery_prefetch"),
    ("pg_catalog", "pg_stat_progress_analyze"), ("pg_catalog", "pg_stat_progress_basebackup"),
    ("pg_catalog", "pg_stat_progress_cluster"), ("pg_catalog", "pg_stat_progress_copy"),
    ("pg_catalog", "pg_stat_progress_vacuum"), ("pg_catalog", "pg_locks"),
    ("pg_catalog", "pg_cursors"), ("pg_catalog", "pg_prepared_statements"),
    ("pg_catalog", "pg_prepared_xacts"), ("pg_catalog", "pg_file_settings"),
    ("pg_catalog", "pg_wait_events"), ("pg_catalog", "pg_backend_memory_contexts"),
    ("pg_catalog", "pg_shmem_allocations"), ("pg_catalog", "pg_replication_slots"),
    ("pg_catalog", "pg_replication_origin_status"),
    ("information_schema", "user_mapping_options"), ("pg_catalog", "pg_stat_archiver"),
    ("pg_catalog", "pg_stat_wal"), ("pg_catalog", "pg_stat_wal_receiver"),
    ("pg_catalog", "pg_stat_replication_slots"), ("pg_catalog", "pg_stat_subscription_stats"),
    ("pg_catalog", "pg_stat_bgwriter"), ("pg_catalog", "pg_stat_checkpointer"),
    ("pg_catalog", "pg_stat_progress_create_index"), ("pg_catalog", "pg_seclabels"),
    ("pg_catalog", "pg_publication_tables"), ("pg_catalog", "pg_stats_ext"),
    ("pg_catalog", "pg_stats_ext_exprs"), ("pg_catalog", "pg_stats"),
    ("pg_catalog", "pg_policies"), ("pg_catalog", "pg_available_extension_versions"),
    ("pg_catalog", "pg_statio_all_tables"), ("pg_catalog", "pg_group"),
    ("pg_catalog", "pg_publication_tables"), ("pg_catalog", "pg_stats_ext"),
    ("pg_catalog", "pg_stats_ext_exprs")]

def shouldAttemptAsView (schemaName tableName : String) (isView : Bool) : Bool :=
  isView && VIEWS_TO_REGISTER.any fun (schema, table) => schema = schemaName && table = tableName

/-- The rows are of the schema, as the inner table asks. -/
structure ScanRecordingMemTable where
  tableName : String
  schema : List PgCatalog.Field
  batches : List PgCatalog.RecordBatch
  bound : ∀ batch ∈ batches, batch.schema = schema

def ScanRecordingMemTable.new (tableName : String) (info : ParsedTable) : ScanRecordingMemTable :=
  ⟨tableName, info.schema, info.batches, info.bound⟩

abbrev SchemaProvider := HashMap String ScanRecordingMemTable
abbrev CatalogProvider := HashMap String SchemaProvider
abbrev CatalogList := HashMap String CatalogProvider

def tableExists (name : String) : DataFusionError :=
  .execution s!"The table {name} already exists"

/-- `register_table` of a schema in memory. -/
def SchemaProvider.registerTable (provider : SchemaProvider) (name : String)
    (table : ScanRecordingMemTable) : DFResult SchemaProvider :=
  if (provider.lookup name).isSome then .error (tableExists name)
  else .ok (provider.insert name table)

/-- What is left for later of a declared view. -/
def deferred (currentCatalog schemaName table : String) (info : ParsedTable) :
    Option ViewToRegister :=
  if shouldAttemptAsView schemaName table info.isView then
    info.viewSql.map fun sql => ⟨currentCatalog, schemaName, table, sql⟩
  else none

def registerParsedTable (currentCatalog schemaName : String)
    (state : SchemaProvider × List ViewToRegister) (entry : Sigma fun _ : String => ParsedTable) :
    DFResult (SchemaProvider × List ViewToRegister) :=
  match deferred currentCatalog schemaName entry.1 entry.2 with
  | some view => .ok (state.1, state.2 ++ [view])
  | none => do
    let provider ← state.1.registerTable entry.1 (.new entry.1 entry.2)
    return (provider, state.2)

def registerParsedSchema (currentCatalog : String)
    (state : CatalogProvider × List ViewToRegister) (entry : Sigma fun _ : String => Tables) :
    DFResult (CatalogProvider × List ViewToRegister) := do
  let (provider, views) ← entry.2.entries.foldlM (registerParsedTable currentCatalog entry.1)
    ((state.1.lookup entry.1).getD ∅, state.2)
  return (state.1.insert entry.1 provider, views)

/-- The name a catalog is registered under: `public` is the database of the export. -/
def currentCatalog (defaultCatalog catalogName : String) : String :=
  if catalogName = "public" then defaultCatalog else catalogName

def registerParsedCatalog (defaultCatalog : String) (state : CatalogList × List ViewToRegister)
    (entry : Sigma fun _ : String => Schemas) : DFResult (CatalogList × List ViewToRegister) := do
  let current := currentCatalog defaultCatalog entry.1
  let (provider, views) ← entry.2.entries.foldlM (registerParsedSchema current)
    ((state.1.lookup current).getD ∅, state.2)
  return (state.1.insert current provider, views)

/-- The session's catalogs and the views for later; on an error the session is given up. -/
def registerCatalogsFromSchemas (ctx : CatalogList) (schemas : SchemaMap)
    (defaultCatalog : String) : DFResult (CatalogList × List ViewToRegister) :=
  schemas.entries.foldlM (registerParsedCatalog defaultCatalog) (ctx, [])

/-- The table that stands under a name. -/
def standing (ctx : CatalogList) (place : String × String × String) :
    Option ScanRecordingMemTable :=
  (ctx.lookup place.1).bind fun provider =>
    (provider.lookup place.2.1).bind fun tables => tables.lookup place.2.2

/-! What the loops place. -/

/-- A parsed table by its place, unless it is left for later. -/
def placement (defaultCatalog : String) : Placed →
    Option ((String × String × String) × ScanRecordingMemTable)
  | (catalog, schemaName, table, info) =>
    let current := currentCatalog defaultCatalog catalog
    if (deferred current schemaName table info).isSome then none
    else some ((current, schemaName, table), .new table info)

def deferredView (defaultCatalog : String) : Placed → Option ViewToRegister
  | (catalog, schemaName, table, info) =>
    deferred (currentCatalog defaultCatalog catalog) schemaName table info

def tableItems (current schemaName : String) (entry : Sigma fun _ : String => ParsedTable) :
    List (String × ScanRecordingMemTable) :=
  if (deferred current schemaName entry.1 entry.2).isSome then []
  else [(entry.1, .new entry.1 entry.2)]

def schemaItems (current : String) (entry : Sigma fun _ : String => Tables) :
    List ((String × String) × ScanRecordingMemTable) :=
  (entry.2.entries.flatMap (tableItems current entry.1)).map fun item => ((entry.1, item.1), item.2)

def catalogItems (current : String) (entry : Sigma fun _ : String => Schemas) :
    List ((String × String × String) × ScanRecordingMemTable) :=
  (entry.2.entries.flatMap (schemaItems current)).map fun item => ((current, item.1), item.2)

theorem places_table (current schemaName : String) (entry : Sigma fun _ : String => ParsedTable) :
    Places (fun (m : SchemaProvider) name => m.lookup name) tableExists
      (registerParsedTable current schemaName · entry) (tableItems current schemaName entry)
      (deferred current schemaName entry.1 entry.2).toList := by
  unfold tableItems registerParsedTable
  cases deferred current schemaName entry.1 entry.2 with
  | some view =>
    constructor
    · rintro before after ran
      obtain rfl := Except.ok.inj ran
      exact ⟨fits_nil, place_nil.symm, rfl⟩
    · exact fun before _ => ⟨_, rfl⟩
    · rintro before e ⟨⟩
  | none =>
    constructor
    · rintro ⟨m, w⟩ after ran
      obtain ⟨provider, stored, same⟩ := Places.ok_bind.mp ran
      obtain rfl := Except.ok.inj same
      unfold SchemaProvider.registerTable at stored
      split at stored
      · cases stored
      next free =>
        obtain rfl := Except.ok.inj stored
        rw [Option.not_isSome_iff_eq_none] at free
        refine ⟨⟨by simp, by simpa using free⟩, ?_, (List.append_nil _).symm⟩
        funext name
        by_cases here : name = entry.1
        · subst here
          simp [place, put, free]
        · simp [place, put, here, Ne.symm here]
    · rintro ⟨m, w⟩ fits
      have free : m.lookup entry.1 = none := fits.2 (entry.1, .new entry.1 entry.2) (by simp)
      simp [SchemaProvider.registerTable, free]
    · rintro ⟨m, w⟩ e failed
      obtain failed | ⟨after, -, failed⟩ := Places.error_bind.mp failed
      · unfold SchemaProvider.registerTable at failed
        split at failed
        · obtain rfl := Except.error.inj failed
          exact ⟨_, List.mem_singleton_self _, rfl⟩
        · cases failed
      · cases failed

theorem places_schema (current : String) (entry : Sigma fun _ : String => Tables) :
    Places (lookWithin fun (m : SchemaProvider) name => m.lookup name)
      (fun place => tableExists place.2) (registerParsedSchema current · entry)
      (schemaItems current entry)
      (entry.2.entries.flatMap fun table =>
        (deferred current entry.1 table.1 table.2).toList) := by
  have tables := Places.loop entry.2.entries fun table _ => places_table current entry.1 table
  exact @Places.within _ _ _ _ _ _ _ _ _ _ ∅ (fun _ => rfl) _ _ _ tables entry.1

theorem places_catalog (defaultCatalog : String) (entry : Sigma fun _ : String => Schemas) :
    Places (lookWithin (lookWithin fun (m : SchemaProvider) name => m.lookup name))
      (fun place => tableExists place.2.2) (registerParsedCatalog defaultCatalog · entry)
      (catalogItems (currentCatalog defaultCatalog entry.1) entry)
      (entry.2.entries.flatMap fun schema => schema.2.entries.flatMap fun table =>
        (deferred (currentCatalog defaultCatalog entry.1) schema.1 table.1 table.2).toList) := by
  have schemas := Places.loop entry.2.entries fun schema _ =>
    places_schema (currentCatalog defaultCatalog entry.1) schema
  exact @Places.within _ _ _ _ _ _ _ _ _ _ ∅ (fun _ => rfl) _ _ _ schemas
    (currentCatalog defaultCatalog entry.1)

theorem filterMap_placedTables {α : Type} (pick : Placed → Option α) (m : SchemaMap) :
    (placedTables m).filterMap pick = m.entries.flatMap fun entry =>
      entry.2.entries.flatMap fun schema => schema.2.entries.flatMap fun table =>
        (pick (entry.1, schema.1, table.1, table.2)).toList := by
  simp only [placedTables, HashMap.parts, List.filterMap_eq_flatMap_toList, List.flatMap_assoc,
    List.flatMap_map, List.map_flatMap]

theorem placements_eq (defaultCatalog : String) (m : SchemaMap) :
    (m.entries.flatMap fun entry => catalogItems (currentCatalog defaultCatalog entry.1) entry) =
      (placedTables m).filterMap (placement defaultCatalog) := by
  have leaf : ∀ catalog schemaName (table : Sigma fun _ : String => ParsedTable),
      ((tableItems (currentCatalog defaultCatalog catalog) schemaName table).map fun item =>
        ((currentCatalog defaultCatalog catalog, schemaName, item.1), item.2)) =
      (placement defaultCatalog (catalog, schemaName, table.1, table.2)).toList := by
    intro catalog schemaName table
    unfold tableItems placement
    dsimp only
    split <;> rfl
  rw [filterMap_placedTables]
  simp only [catalogItems, schemaItems, List.map_flatMap, List.map_map, Function.comp_def, ← leaf]

/-- What a registered catalog holds: what stood there before, and every table of the map that is
not left for later. -/
structure Registers (ctx : CatalogList) (schemas : SchemaMap) (defaultCatalog : String)
    (made : CatalogList) (views : List ViewToRegister) : Prop where
  kept : ∀ place table, standing ctx place = some table → standing made place = some table
  tables : ∀ placed ∈ placedTables schemas, ∀ place table,
    placement defaultCatalog placed = some (place, table) → standing made place = some table
  only : ∀ place table, standing made place = some table → standing ctx place = some table ∨
    ∃ placed ∈ placedTables schemas, placement defaultCatalog placed = some (place, table)
  views : views = (placedTables schemas).filterMap (deferredView defaultCatalog)

/-- No table of the map has the place of another, or of one that stands. -/
structure Free (ctx : CatalogList) (schemas : SchemaMap) (defaultCatalog : String) : Prop where
  standing : ∀ placed ∈ placedTables schemas, ∀ place table,
    placement defaultCatalog placed = some (place, table) → standing ctx place = none
  apart : ∀ first ∈ placedTables schemas, ∀ second ∈ placedTables schemas, ∀ place one two,
    placement defaultCatalog first = some (place, one) →
    placement defaultCatalog second = some (place, two) → first.1 = second.1

theorem places_catalogs (defaultCatalog : String) (schemas : SchemaMap) :
    Places standing (fun place => tableExists place.2.2)
      (fun state => schemas.entries.foldlM (registerParsedCatalog defaultCatalog) state)
      ((placedTables schemas).filterMap (placement defaultCatalog))
      ((placedTables schemas).filterMap (deferredView defaultCatalog)) := by
  have all := Places.loop schemas.entries fun entry _ => places_catalog defaultCatalog entry
  rw [placements_eq] at all
  rw [filterMap_placedTables (deferredView defaultCatalog)]
  exact all

theorem placement_place {defaultCatalog : String} {placed : Placed}
    {place : String × String × String} {table : ScanRecordingMemTable}
    (put : placement defaultCatalog placed = some (place, table)) :
    place = (currentCatalog defaultCatalog placed.1, placed.2.1, placed.2.2.1) := by
  obtain ⟨catalog, schemaName, name, info⟩ := placed
  unfold placement at put
  dsimp only at put
  split at put
  · cases put
  · exact (Prod.mk.inj (Option.some.inj put)).1.symm

theorem places_nodup (m : SchemaMap) :
    ((placedTables m).map fun placed => (placed.1, placed.2.1, placed.2.2.1)).Nodup := by
  have tables : ∀ catalog schemas, m.lookup catalog = some schemas →
      ((placedInSchemas schemas).map fun placed => (placed.1, placed.2.1)).Nodup := by
    intro catalog schemas _
    have names : ∀ schemaName tables, schemas.lookup schemaName = some tables →
        ((tables.entries.map fun entry => (entry.1, entry.2)).map fun named => named.1).Nodup := by
      intro schemaName tables _
      rw [List.map_map]
      exact tables.nodupKeys
    exact schemas.parts_nodup names
  exact m.parts_nodup tables

theorem placedTables_nodup (m : SchemaMap) : (placedTables m).Nodup :=
  (places_nodup m).of_map

theorem fits_iff_free {ctx : CatalogList} {schemas : SchemaMap} {defaultCatalog : String} :
    Fits (standing ctx) ((placedTables schemas).filterMap (placement defaultCatalog)) ↔
      Free ctx schemas defaultCatalog := by
  unfold Fits
  rw [nodup_picked (placedTables_nodup schemas)]
  constructor
  · rintro ⟨apart, standing⟩
    constructor
    · intro placed member place table put
      exact standing _ (List.mem_filterMap.mpr ⟨placed, member, put⟩)
    · intro first here second there place one two put put'
      rw [apart first here second there place one two put put']
  · intro free
    constructor
    · rintro ⟨catalog, schemaName, name, info⟩ here ⟨catalog', schemaName', name', info'⟩ there
        place one two put put'
      obtain rfl : catalog = catalog' := free.apart _ here _ there place one two put put'
      have same := (placement_place put).symm.trans (placement_place put')
      simp only [Prod.mk.injEq, true_and] at same
      obtain ⟨rfl, rfl⟩ := same
      obtain ⟨schemas₁, found, tables₁, found', found''⟩ := mem_placedTables.mp here
      obtain ⟨schemas₂, other, tables₂, other', other''⟩ := mem_placedTables.mp there
      obtain rfl := Option.some.inj (found.symm.trans other)
      obtain rfl := Option.some.inj (found'.symm.trans other')
      obtain rfl := Option.some.inj (found''.symm.trans other'')
      rfl
    · rintro ⟨place, table⟩ member
      obtain ⟨placed, member, put⟩ := List.mem_filterMap.mp member
      exact free.standing placed member place table put

/-- How a registration ends: the tables are there, or one of them is named whose place is taken. -/
def Registered (ctx : CatalogList) (schemas : SchemaMap) (defaultCatalog : String) :
    DFResult (CatalogList × List ViewToRegister) → Prop
  | .ok (made, views) =>
    Free ctx schemas defaultCatalog ∧ Registers ctx schemas defaultCatalog made views
  | .error e => ¬ Free ctx schemas defaultCatalog ∧ ∃ placed ∈ placedTables schemas,
      ∃ place table, placement defaultCatalog placed = some (place, table) ∧
        e = tableExists place.2.2

section
variable {ctx made : CatalogList} {schemas : SchemaMap} {defaultCatalog : String}
  {views : List ViewToRegister}

theorem standing_made
    (ran : registerCatalogsFromSchemas ctx schemas defaultCatalog = .ok (made, views)) :
    Free ctx schemas defaultCatalog ∧ standing made = place (standing ctx)
      ((placedTables schemas).filterMap (placement defaultCatalog)) ∧
      views = (placedTables schemas).filterMap (deferredView defaultCatalog) := by
  obtain ⟨fits, placed, wrote⟩ := (places_catalogs defaultCatalog schemas).sound ran
  exact ⟨fits_iff_free.mp fits, placed, wrote⟩

theorem registers_of_ok
    (ran : registerCatalogsFromSchemas ctx schemas defaultCatalog = .ok (made, views)) :
    Registers ctx schemas defaultCatalog made views := by
  obtain ⟨free, placed, wrote⟩ := standing_made ran
  have distinct := (fits_iff_free.mpr free).1
  constructor
  · intro place table stood
    simp [placed, Placing.place, stood]
  · intro parsed member place table put
    have item : (place, table) ∈ (placedTables schemas).filterMap (placement defaultCatalog) :=
      List.mem_filterMap.mpr ⟨parsed, member, put⟩
    rw [placed, Placing.place, free.standing parsed member place table put, Option.none_or]
    exact put_of_mem distinct item
  · intro place table stands
    rw [placed, Placing.place, Option.or_eq_some_iff] at stands
    obtain stood | ⟨-, new⟩ := stands
    · exact .inl stood
    · exact .inr (List.mem_filterMap.mp (mem_of_put new))
  · exact wrote

end

/-- A catalog is registered whole exactly if each of its tables has a place of its own. -/
theorem catalogs_registered (ctx : CatalogList) (schemas : SchemaMap) (defaultCatalog : String) :
    Registered ctx schemas defaultCatalog
      (registerCatalogsFromSchemas ctx schemas defaultCatalog) := by
  cases ran : registerCatalogsFromSchemas ctx schemas defaultCatalog with
  | ok result =>
    obtain ⟨made, views⟩ := result
    exact ⟨(standing_made ran).1, registers_of_ok ran⟩
  | error e =>
    constructor
    · intro free
      obtain ⟨result, done⟩ := (places_catalogs defaultCatalog schemas).ready (ctx, [])
        (fits_iff_free.mpr free)
      rw [registerCatalogsFromSchemas] at ran
      rw [ran] at done
      cases done
    · obtain ⟨⟨place, table⟩, member, same⟩ :=
        (places_catalogs defaultCatalog schemas).refused ran
      obtain ⟨placed, member, put⟩ := List.mem_filterMap.mp member
      exact ⟨placed, member, place, table, put, same⟩

end PgCatalog.Session
