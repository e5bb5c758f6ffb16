import PgCatalog.Catalog.Described

/-! The three declaration loops: each succeeds exactly when its names are new and
its calls are answered, and then adds what the reached ledger describes. -/
namespace PgCatalog

open Library

/-- Names a loop can add: none twice and none taken before. -/
def Fresh {α : Type} (names taken : List α) : Prop :=
  names.Nodup ∧ ∀ name ∈ names, name ∉ taken

@[simp] theorem fresh_nil {α : Type} (taken : List α) : Fresh [] taken :=
  ⟨List.nodup_nil, fun _ member => by cases member⟩

theorem fresh_cons {α : Type} (name : α) (rest taken : List α) :
    Fresh (name :: rest) taken ↔ name ∉ taken ∧ Fresh rest (taken ++ [name]) := by
  simp only [Fresh, List.nodup_cons, List.mem_cons, forall_eq_or_imp, List.mem_append,
    List.not_mem_nil, or_false, not_or]
  constructor
  · rintro ⟨⟨absent, nodup⟩, free, rest_free⟩
    exact ⟨free, nodup, fun other member =>
      ⟨rest_free other member, fun same => absent (same ▸ member)⟩⟩
  · rintro ⟨free, nodup, rest_free⟩
    exact ⟨⟨fun member => (rest_free name member).2 rfl, nodup⟩, free,
      fun other member => (rest_free other member).1⟩

/-- What counts as taken is a set: its order does not matter. -/
theorem fresh_swap {α : Type} {name : α} {names taken : List α} :
    Fresh names (name :: taken) ↔ Fresh names (taken ++ [name]) := by
  refine and_congr_right fun _ => forall₂_congr fun other _ => not_congr ?_
  rw [List.mem_cons, List.mem_append, List.mem_singleton, or_comm]

/-- The key a declared schema is found under. -/
def schemaKey (entry : String × SchemaDef) : String × String := (entry.1, entry.2.name)

theorem schemaDeclared_iff {defs : List (String × SchemaDef)} {database name : String} :
    schemaDeclared defs database name = true ↔ (database, name) ∈ defs.map schemaKey := by
  simp only [schemaDeclared, List.any_eq_true, decide_eq_true_eq, List.mem_map, schemaKey,
    Prod.mk.injEq]

theorem schemaKey_describeSchema (l : Ledger) (schema : String × String) :
    schemaKey (l.describeSchema schema) = schema := by
  simp only [schemaKey, Ledger.describeSchema]
  split <;> rfl

theorem map_schemaKey (l : Ledger) (schemas : List (String × String)) :
    (schemas.map l.describeSchema).map schemaKey = schemas := by
  rw [List.map_map]
  exact (List.map_congr_left fun schema _ => schemaKey_describeSchema l schema).trans
    (List.map_id schemas)

theorem databases_any {defs : List DatabaseDef} {name : String} :
    defs.any (·.datname = name) = true ↔ name ∈ defs.map (·.datname) := by
  simp only [List.any_eq_true, decide_eq_true_eq, List.mem_map]

/-- The key a declared relation is found under. -/
def DeclaredRelation.key (r : DeclaredRelation) : String × String × String :=
  (r.database, r.schema, r.relation.name)

theorem relations_any {defs : List DeclaredRelation} {database schema name : String} :
    (defs.any fun r => r.database = database ∧ r.schema = schema ∧ r.relation.name = name) = true ↔
      (database, schema, name) ∈ defs.map (·.key) := by
  simp only [List.any_eq_true, decide_eq_true_eq, List.mem_map, DeclaredRelation.key,
    Prod.mk.injEq]

section
variable {σ : Type} [CatalogOidRegistry σ] [LawfulRegistry σ] {s t : σ}

theorem database_row (valid : Valid s) {name : String} {oid : Int32}
    (answered : resolveDatabase s name = (.ok oid, t)) (calls : List CatalogObject) :
    (ledger (run resolve t calls)).describeDatabase name = declaredDatabaseRow name oid := by
  have seen := resolved_kept valid (resolveDatabase_iff.mp answered) calls
  rw [Ledger.describeDatabase, Ledger.oid_recorded (.database name) seen]
  rfl

theorem declareDatabases_iff (valid : Valid s) (names : List String) (defs r : List DatabaseDef) :
    declareDatabases names defs s = (.ok r, t) ↔
      Fresh names (defs.map (·.datname)) ∧ Served s (names.map .database) ∧
        t = run resolve s (names.map .database) ∧
        r = defs ++ names.map (ledger t).describeDatabase := by
  induction names generalizing s defs with
  | nil =>
    simp only [declareDatabases, RegistryM.pure_ok_iff, fresh_nil, List.map_nil, served_nil,
      run_nil, List.append_nil, true_and]
    exact And.comm
  | cons name rest ih =>
    rw [declareDatabases, fresh_cons]
    by_cases taken : defs.any (·.datname = name) = true
    · rw [if_pos taken]
      simp only [RegistryM.fail_ne_ok, databases_any.mp taken, not_true_eq_false, false_and]
    rw [if_neg taken, RegistryM.bind_ok_iff]
    rw [databases_any] at taken
    have keys : ∀ oid, (defs ++ [declaredDatabaseRow name oid]).map (·.datname) =
        defs.map (·.datname) ++ [name] := fun oid => List.map_append
    simp only [List.map_cons, served_cons, run_cons]
    constructor
    · rintro ⟨oid, s', answered, loop⟩
      have named := resolveDatabase_iff.mp answered
      obtain ⟨fresh, served, rfl, rfl⟩ := (ih (answered_valid valid named) _).mp loop
      rw [keys] at fresh
      rw [named, database_row valid answered, List.append_assoc]
      exact ⟨⟨taken, fresh⟩, ⟨⟨_, rfl⟩, served⟩, rfl, rfl⟩
    · rintro ⟨⟨_, fresh⟩, ⟨⟨oids, answer⟩, served⟩, rfl, rfl⟩
      obtain ⟨oid, answered⟩ := served_database answer
      refine ⟨oid, _, answered, ?_⟩
      rw [ih (answered_valid valid (resolveDatabase_iff.mp answered)), keys,
        database_row valid answered, List.append_assoc]
      exact ⟨fresh, served, rfl, rfl⟩

theorem declaredSchemaRow_iff (valid : Valid s) {database name : String} {row : SchemaDef} :
    declaredSchemaRow database name s = (.ok row, t) ↔
      Served s (schemaCalls (database, name)) ∧ t = run resolve s (schemaCalls (database, name)) ∧
        row = ((ledger t).describeSchema (database, name)).2 := by
  by_cases builtIn : name = "public"
  · rw [declaredSchemaRow, if_pos builtIn, RegistryM.pure_ok_iff]
    simp only [schemaCalls, Ledger.describeSchema, if_pos builtIn, served_nil, run_nil, true_and]
    exact And.comm
  · simp only [declaredSchemaRow, if_neg builtIn, RegistryM.bind_ok_iff, RegistryM.pure_ok_iff,
      schemaCalls, Ledger.describeSchema, served_cons, served_nil, run_cons, run_nil, and_true]
    have number : ∀ {oid u}, resolveSchema s database name = (.ok oid, u) →
        (ledger u).oid (.schema database name) = oid := by
      intro oid u answered
      have seen := resolved_kept valid (resolveSchema_iff.mp answered) []
      exact Ledger.oid_recorded (.schema database name) seen
    constructor
    · rintro ⟨oid, u, answered, rfl, rfl⟩
      rw [number answered, resolveSchema_iff.mp answered]
      exact ⟨⟨_, rfl⟩, rfl, rfl⟩
    · rintro ⟨⟨oids, answer⟩, rfl, rfl⟩
      obtain ⟨oid, answered⟩ := served_schema answer
      exact ⟨oid, _, answered, by rw [number answered], rfl⟩

/-- What a served run recorded about its objects, later calls do not change. -/
theorem served_kept (valid : Valid s) {calls : List CatalogObject} (served : Served s calls)
    (later : List CatalogObject) : ∀ object ∈ calls,
      (ledger (run resolve (run resolve s calls) later)).recorded object =
        (ledger (run resolve s calls)).recorded object := by
  intro object member
  obtain ⟨oids, seen⟩ := served_recorded valid served member
  rw [seen]
  exact run_keeps (run_valid valid calls) seen later

theorem describeSchema_kept (valid : Valid s) {schema : String × String}
    (served : Served s (schemaCalls schema)) (later : List CatalogObject) :
    (ledger (run resolve (run resolve s (schemaCalls schema)) later)).describeSchema schema =
      (ledger (run resolve s (schemaCalls schema))).describeSchema schema :=
  Ledger.describeSchema_congr (served_kept valid served later)

theorem declareSchemas_iff (valid : Valid s) (databases : List DatabaseDef)
    (schemas : List (String × String)) (defs r : List (String × SchemaDef)) :
    declareSchemas databases schemas defs s = (.ok r, t) ↔
      (Fresh schemas (defs.map schemaKey) ∧
        ∀ schema ∈ schemas, schema.1 ∈ databases.map (·.datname)) ∧
      Served s (schemas.flatMap schemaCalls) ∧
      t = run resolve s (schemas.flatMap schemaCalls) ∧
      r = defs ++ schemas.map (ledger t).describeSchema := by
  induction schemas generalizing s defs with
  | nil =>
    simp only [declareSchemas, RegistryM.pure_ok_iff, fresh_nil, List.flatMap_nil, served_nil,
      run_nil, List.map_nil, List.append_nil, List.not_mem_nil, false_imp_iff, implies_true,
      true_and]
    exact And.comm
  | cons schema rest ih =>
    obtain ⟨database, name⟩ := schema
    rw [declareSchemas, fresh_cons]
    simp only [List.forall_mem_cons]
    by_cases home : databases.any (·.datname = database) = true
    swap
    · have absent : database ∉ databases.map (·.datname) := fun member =>
        home (databases_any.mpr member)
      rw [if_pos (by simpa using home)]
      simp only [RegistryM.fail_ne_ok, absent, false_and, and_false]
    rw [if_neg (by simpa using home)]
    by_cases taken : schemaDeclared defs database name = true
    · rw [if_pos taken]
      simp only [RegistryM.fail_ne_ok, schemaDeclared_iff.mp taken, not_true_eq_false, false_and]
    rw [if_neg taken, RegistryM.bind_ok_iff]
    rw [schemaDeclared_iff] at taken
    rw [databases_any] at home
    simp only [List.flatMap_cons, served_append, run_append, List.map_cons]
    have keys : ∀ l : Ledger, (defs ++ [l.describeSchema (database, name)]).map schemaKey =
        defs.map schemaKey ++ [(database, name)] := by
      intro l
      simp only [List.map_append, List.map_cons, List.map_nil, schemaKey_describeSchema]
    have moved := run_valid valid (schemaCalls (database, name))
    constructor
    · rintro ⟨row, s', answered, loop⟩
      obtain ⟨called, rfl, rfl⟩ := (declaredSchemaRow_iff valid).mp answered
      obtain ⟨⟨fresh, homes⟩, served, rfl, rfl⟩ := (ih moved _).mp loop
      have kept := describeSchema_kept valid called (rest.flatMap schemaCalls)
      refine ⟨⟨⟨taken, (keys _).symm ▸ fresh⟩, home, homes⟩, ⟨called, served⟩, rfl, ?_⟩
      rw [kept, List.append_assoc]
      rfl
    · rintro ⟨⟨⟨_, fresh⟩, _, homes⟩, ⟨called, served⟩, rfl, rfl⟩
      refine ⟨_, _, (declaredSchemaRow_iff valid).mpr ⟨called, rfl, rfl⟩, ?_⟩
      have kept := describeSchema_kept valid called (rest.flatMap schemaCalls)
      refine (ih moved _).mpr ⟨⟨?_, homes⟩, served, rfl, ?_⟩
      · exact (keys _).symm ▸ fresh
      · rw [kept, List.append_assoc]
        rfl

theorem declareReferencedSchema_iff (valid : Valid s) (table : DeclaredTable)
    (schemas : List (String × SchemaDef)) {r : List (String × SchemaDef)} :
    declareReferencedSchema schemas table.database table.schema s = (.ok r, t) ↔
      Served s ((introduced (schemas.map schemaKey) table).flatMap schemaCalls) ∧
      t = run resolve s ((introduced (schemas.map schemaKey) table).flatMap schemaCalls) ∧
      r = schemas ++ (introduced (schemas.map schemaKey) table).map (ledger t).describeSchema := by
  by_cases declared : schemaDeclared schemas table.database table.schema = true
  · have seen : table.home ∈ schemas.map schemaKey := schemaDeclared_iff.mp declared
    rw [declareReferencedSchema, if_pos declared, RegistryM.pure_ok_iff]
    simp only [introduced, if_pos seen, List.flatMap_nil, served_nil, run_nil, List.map_nil,
      List.append_nil, true_and]
    exact And.comm
  · have unseen : table.home ∉ schemas.map schemaKey := fun member =>
      declared (schemaDeclared_iff.mpr member)
    rw [declareReferencedSchema, if_neg declared]
    simp only [RegistryM.bind_ok_iff, RegistryM.pure_ok_iff, introduced, if_neg unseen,
      List.flatMap_cons, List.flatMap_nil, List.append_nil, List.map_cons, List.map_nil]
    constructor
    · rintro ⟨row, u, answered, rfl, rfl⟩
      obtain ⟨called, rfl, rfl⟩ := (declaredSchemaRow_iff valid).mp answered
      exact ⟨called, rfl, rfl⟩
    · rintro ⟨called, rfl, rfl⟩
      exact ⟨_, _, (declaredSchemaRow_iff valid).mpr ⟨called, rfl, rfl⟩, rfl, rfl⟩

theorem describeTable_kept (valid : Valid s) {table : DeclaredTable} {oids : Int32 × Int32}
    (answered : resolveRelation s table.database table.schema table.name = (.ok oids, t))
    (later : List CatalogObject) : (ledger (run resolve t later)).describeTable table =
      { database := table.database, schema := table.schema
        relation := { oid := oids.1, reltypeOid := oids.2, name := table.name }
        columns := columnSpecsFromDefs table.columns } := by
  have seen := resolved_kept valid (resolveRelation_iff.mp answered) later
  rw [Ledger.describeTable,
    Ledger.oid_recorded (.relation table.database table.schema table.name) seen,
    Ledger.oid_recorded (.rowtype table.database table.schema table.name) seen]
  rfl

theorem declareRelations_iff (valid : Valid s) (databases : List DatabaseDef)
    (tables : List DeclaredTable) (schemas sd : List (String × SchemaDef))
    (relations rd : List DeclaredRelation) :
    declareRelations databases tables schemas relations s = (.ok (sd, rd), t) ↔
      (Fresh (tables.map (·.key)) (relations.map (·.key)) ∧
        ∀ table ∈ tables, table.database ∈ databases.map (·.datname)) ∧
      Served s (relationCalls tables (schemas.map schemaKey)) ∧
      t = run resolve s (relationCalls tables (schemas.map schemaKey)) ∧
      sd = schemas ++
        (referencedSchemas tables (schemas.map schemaKey)).map (ledger t).describeSchema ∧
      rd = relations ++ tables.map (ledger t).describeTable := by
  induction tables generalizing s schemas relations with
  | nil =>
    simp only [declareRelations, RegistryM.pure_ok_iff, List.map_nil, fresh_nil, relationCalls,
      referencedSchemas, served_nil, run_nil, List.append_nil, List.not_mem_nil, false_imp_iff,
      implies_true, true_and, Prod.mk.injEq]
    exact and_comm
  | cons table rest ih =>
    rw [declareRelations]
    simp only [List.map_cons, fresh_cons, List.forall_mem_cons]
    by_cases home : databases.any (·.datname = table.database) = true
    swap
    · have absent : table.database ∉ databases.map (·.datname) := fun member =>
        home (databases_any.mpr member)
      rw [if_pos (by simpa using home)]
      simp only [RegistryM.fail_ne_ok, absent, false_and, and_false]
    rw [if_neg (by simpa using home)]
    by_cases taken : table.key ∈ relations.map (·.key)
    · rw [if_pos (relations_any.mpr taken)]
      simp only [RegistryM.fail_ne_ok, taken, not_true_eq_false, false_and]
    rw [if_neg (mt relations_any.mp taken)]
    rw [databases_any] at home
    simp only [relationCalls, referencedSchemas, served_append, served_cons, run_append, run_cons,
      List.map_append]
    generalize fresh_schemas : introduced (schemas.map schemaKey) table = added
    have referenced := fun {r t} => declareReferencedSchema_iff (t := t) (r := r) valid table schemas
    simp only [fresh_schemas] at referenced
    have reached := run_valid valid (added.flatMap schemaCalls)
    have keys : ∀ l : Ledger, (schemas ++ added.map l.describeSchema).map schemaKey =
        schemas.map schemaKey ++ added := by
      intro l
      rw [List.map_append, map_schemaKey]
    have kept : ∀ (served : Served s (added.flatMap schemaCalls)) (later : List CatalogObject),
        added.map (ledger (run resolve (run resolve s (added.flatMap schemaCalls))
          later)).describeSchema =
        added.map (ledger (run resolve s (added.flatMap schemaCalls))).describeSchema := by
      intro served later
      refine List.map_congr_left fun schema member => Ledger.describeSchema_congr ?_
      intro object called
      exact served_kept valid served later object (List.mem_flatMap.mpr ⟨schema, member, called⟩)
    simp only [RegistryM.bind_ok_iff]
    constructor
    · rintro ⟨schemas', s', first, oids, u, answered, loop⟩
      obtain ⟨called, rfl, rfl⟩ := referenced.mp first
      have named := resolveRelation_iff.mp answered
      obtain ⟨⟨fresh, homes⟩, served, rfl, rfl, rfl⟩ :=
        (ih (answered_valid reached named) _ _).mp loop
      rw [keys] at served ⊢
      have relation_kept := describeTable_kept reached answered
        (relationCalls rest (schemas.map schemaKey ++ added))
      have schemas_kept := kept called
        (table.object :: relationCalls rest (schemas.map schemaKey ++ added))
      rw [run_cons, DeclaredTable.object, named] at schemas_kept
      rw [DeclaredTable.object, named]
      rw [List.map_append] at fresh
      refine ⟨⟨⟨taken, fresh⟩, home, homes⟩, ⟨called, ⟨_, rfl⟩, served⟩, rfl, ?_, ?_⟩
      · rw [schemas_kept, List.append_assoc]
      · rw [relation_kept, List.append_assoc]
        rfl
    · rintro ⟨⟨⟨_, fresh⟩, _, homes⟩, ⟨called, ⟨oids, answer⟩, served⟩, rfl, rfl, rfl⟩
      obtain ⟨pair, answered⟩ := served_relation answer
      have named := resolveRelation_iff.mp answered
      have relation_kept := describeTable_kept reached answered
        (relationCalls rest (schemas.map schemaKey ++ added))
      have schemas_kept := kept called
        (table.object :: relationCalls rest (schemas.map schemaKey ++ added))
      refine ⟨_, _, referenced.mpr ⟨called, rfl, rfl⟩, pair, _, answered, ?_⟩
      refine (ih (answered_valid reached named) _ _).mpr ?_
      rw [keys, List.map_append]
      refine ⟨⟨fresh, homes⟩, served, rfl, ?_, ?_⟩
      · rw [run_cons] at schemas_kept
        rw [DeclaredTable.object] at schemas_kept ⊢
        rw [schemas_kept, List.append_assoc]
      · rw [DeclaredTable.object, relation_kept, List.append_assoc]
        rfl

theorem fresh_nothing_taken {α : Type} (names : List α) : Fresh names [] ↔ names.Nodup := by
  simp only [Fresh, List.not_mem_nil, not_false_eq_true, implies_true, and_true]

theorem map_datname (l : Ledger) (names : List String) :
    (names.map l.describeDatabase).map (·.datname) = names := by
  rw [List.map_map]
  exact List.map_id names

/-- A declaration set is accepted exactly when its names are, and every call is
answered; the source is then the one the reached ledger describes. -/
theorem fromDeclarations_iff (valid : Valid s) (databases : List String)
    (schemas : List (String × String)) (tables : List DeclaredTable)
    (source : DeclaredCatalogSource) :
    fromDeclarations databases schemas tables s = (.ok source, t) ↔
      Acceptable databases schemas tables ∧
      Served s (declarationCalls databases schemas tables) ∧
      t = run resolve s (declarationCalls databases schemas tables) ∧
      source = (ledger t).describe databases schemas tables := by
  have databases_kept : ∀ (_ : Served s (databases.map .database)) (calls later),
      databases.map (ledger (run resolve (run resolve (run resolve s (databases.map .database))
        calls) later)).describeDatabase =
      databases.map (ledger (run resolve s (databases.map .database))).describeDatabase := by
    intro served calls later
    rw [← run_append]
    refine List.map_congr_left fun name member => Ledger.describeDatabase_congr ?_
    exact served_kept valid served (calls ++ later) _ (List.mem_map.mpr ⟨name, member, rfl⟩)
  have reached := run_valid valid (databases.map .database)
  have schemas_kept : ∀ (_ : Served (run resolve s (databases.map .database))
        (schemas.flatMap schemaCalls)) (later : List CatalogObject),
      schemas.map (ledger (run resolve (run resolve (run resolve s (databases.map .database))
        (schemas.flatMap schemaCalls)) later)).describeSchema =
      schemas.map (ledger (run resolve (run resolve s (databases.map .database))
        (schemas.flatMap schemaCalls))).describeSchema := by
    intro served later
    refine List.map_congr_left fun schema member => Ledger.describeSchema_congr ?_
    intro object called
    exact served_kept reached served later object (List.mem_flatMap.mpr ⟨schema, member, called⟩)
  have moved := run_valid reached (schemas.flatMap schemaCalls)
  simp only [fromDeclarations, RegistryM.bind_ok_iff, RegistryM.pure_ok_iff, declarationCalls,
    served_append, run_append]
  constructor
  · rintro ⟨databaseDefs, s₁, first, schemaDefs, s₂, second, ⟨sd, rd⟩, s₃, third, rfl, rfl⟩
    obtain ⟨distinct, served, rfl, rfl⟩ := (declareDatabases_iff valid _ _ _).mp first
    obtain ⟨⟨pairs, homes⟩, served', rfl, rfl⟩ := (declareSchemas_iff reached _ _ _ _).mp second
    simp only [List.nil_append, map_datname] at third homes
    obtain ⟨⟨keys, table_homes⟩, served'', rfl, rfl, rfl⟩ :=
      (declareRelations_iff moved _ _ _ _ _ _).mp third
    rw [map_schemaKey] at served''
    rw [map_datname] at table_homes
    refine ⟨⟨?_, ?_, ?_, homes, table_homes⟩, ⟨served, served', served''⟩, ?_, ?_⟩
    · exact (fresh_nothing_taken _).mp distinct
    · exact (fresh_nothing_taken _).mp pairs
    · exact (fresh_nothing_taken _).mp keys
    · rw [map_schemaKey]
    · rw [map_schemaKey, Ledger.describe, List.map_append, schemas_kept served',
        databases_kept served, List.nil_append, List.nil_append]
  · rintro ⟨accepted, ⟨served, served', served''⟩, rfl, rfl⟩
    refine ⟨_, _, (declareDatabases_iff valid _ _ _).mpr
      ⟨(fresh_nothing_taken _).mpr accepted.databases_nodup, served, rfl, rfl⟩, _, _,
      (declareSchemas_iff reached _ _ _ _).mpr
        ⟨⟨(fresh_nothing_taken _).mpr accepted.schemas_nodup, ?_⟩, served', rfl, rfl⟩, _, _,
      (declareRelations_iff moved _ _ _ _ _ _).mpr
        ⟨⟨(fresh_nothing_taken _).mpr accepted.tables_nodup, ?_⟩, ?_, rfl, rfl, rfl⟩, ?_, ?_⟩
    · simpa only [List.nil_append, map_datname] using accepted.schema_homes
    · simpa only [List.nil_append, map_datname] using accepted.table_homes
    · simpa only [List.nil_append, map_schemaKey] using served''
    · rw [List.nil_append, List.nil_append, map_schemaKey, Ledger.describe, List.map_append,
        schemas_kept served', databases_kept served, List.nil_append]
    · rw [List.nil_append, map_schemaKey]

end

end PgCatalog
