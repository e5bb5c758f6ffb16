import PgCatalog.Catalog.Shape

/-! Which declaration sets are accepted, what their source answers, and why the
order of the declarations does not matter to a registry that knows the names. -/
namespace PgCatalog

open Library

/-- What the source of an accepted declaration set answers. -/
structure DeclaredAnswers (source : DeclaredCatalogSource) (databases : List String)
    (schemas : List (String × String)) (tables : List DeclaredTable) : Prop where
  databases_listed : source.toLazy.databases.fetch.map (·.map (·.datname)) = .ok databases
  schemas_listed : ∀ database, ∃ names,
    (source.toLazy.schemas database).fetch.map (·.map (·.name)) = .ok names ∧ names.Nodup ∧
      ∀ name, name ∈ names ↔
        (database, name) ∈ schemas ∨ ∃ table ∈ tables, table.home = (database, name)
  relations_listed : ∀ database schema,
    (source.toLazy.relations database schema).fetch.map (·.map (·.name)) =
      .ok ((tables.filter fun table => table.home = (database, schema)).map (·.name))
  relations_inside : ∀ database schema, source.relationsIn database schema ≠ [] →
    schema ∈ (source.schemasIn database).map (·.name)
  oids_distinct : source.reportedOids.Nodup
  public_fixed : ∀ database, ∀ schema ∈ source.schemasIn database, schema.name = "public" →
    schema.oid = PUBLIC_SCHEMA_OID

section
variable (l : Ledger) (databases : List String) (schemas : List (String × String))
  (tables : List DeclaredTable)

theorem describe_schemasIn (database : String) :
    ((l.describe databases schemas tables).schemasIn database).map (·.name) =
      ((schemas ++ referencedSchemas tables schemas).filter (·.1 = database)).map (·.2) := by
  simp only [DeclaredCatalogSource.schemasIn, Ledger.describe, List.filter_map, List.map_map]
  refine List.map_congr_left fun schema _ => ?_
  exact congrArg Prod.snd (schemaKey_describeSchema l schema)

theorem describe_relationsIn (database schema : String) :
    (l.describe databases schemas tables).relationsIn database schema =
      (tables.filter fun table => table.home = (database, schema)).map
        fun table => (l.describeTable table).relation := by
  simp only [DeclaredCatalogSource.relationsIn, Ledger.describe, List.filter_map, List.map_map]
  refine congrArg (List.map _) (List.filter_congr fun table _ => decide_eq_decide.mpr ?_)
  simp only [Ledger.describeTable, DeclaredTable.home, Prod.mk.injEq]

theorem mem_describe_schemasIn {database : String} {schema : SchemaDef}
    (member : schema ∈ (l.describe databases schemas tables).schemasIn database) :
    ((database, schema.name) ∈ schemas ∨ ∃ table ∈ tables, table.home = (database, schema.name)) ∧
      schema = (l.describeSchema (database, schema.name)).2 := by
  simp only [DeclaredCatalogSource.schemasIn, Ledger.describe, List.mem_map, List.mem_filter,
    decide_eq_true_eq] at member
  obtain ⟨_, ⟨⟨pair, listed, rfl⟩, rfl⟩, rfl⟩ := member
  have key : ((l.describeSchema pair).1, (l.describeSchema pair).2.name) = pair :=
    schemaKey_describeSchema l pair
  rw [key]
  exact ⟨(mem_referencedSchemas tables schemas pair).mp listed, rfl⟩

/-- The reported numbers are the ledger's. -/
theorem describe_reportedOids :
    (l.describe databases schemas tables).reportedOids =
      (l.describe databases schemas tables).reportedSlots.map l.oid := by
  simp only [DeclaredCatalogSource.reportedOids, DeclaredCatalogSource.reportedSlots,
    List.map_flatMap, List.map_cons, List.map_append]
  refine List.flatMap_congr fun database declared => ?_
  obtain ⟨name, _, rfl⟩ := List.mem_map.mp declared
  refine congrArg₂ List.cons rfl (List.flatMap_congr fun schema inside => ?_)
  obtain ⟨_, row⟩ := mem_describe_schemasIn l databases schemas tables inside
  refine congrArg₂ (· ++ ·) ?_ (List.flatMap_congr fun relation here => ?_)
  · split
    · rfl
    · rename_i named
      have number : schema.oid = l.oid (.schema name schema.name) := by
        rw [row]
        simp only [Ledger.describeSchema, if_neg named]
        rfl
      rw [number]
      rfl
  · rw [describe_relationsIn] at here
    obtain ⟨table, kept, rfl⟩ := List.mem_map.mp here
    have home := of_decide_eq_true (List.mem_filter.mp kept).2
    simp only [DeclaredTable.home, Prod.mk.injEq] at home
    rw [← home.1, ← home.2]
    rfl

/-- Every reported slot belongs to an object the declarations asked for. -/
theorem reportedSlots_called {slot : OidSlot}
    (member : slot ∈ (l.describe databases schemas tables).reportedSlots) :
    slot.object ∈ declarationCalls databases schemas tables := by
  rw [mem_declarationCalls]
  obtain ⟨database, declared, member⟩ := List.mem_flatMap.mp member
  obtain ⟨name, named, rfl⟩ := List.mem_map.mp declared
  obtain rfl | member := List.mem_cons.mp member
  · exact .inl ⟨name, named, rfl⟩
  obtain ⟨schema, inside, member⟩ := List.mem_flatMap.mp member
  obtain ⟨listed, _⟩ := mem_describe_schemasIn l databases schemas tables inside
  obtain own | member := List.mem_append.mp member
  · split at own
    · cases own
    · rename_i builtIn
      obtain rfl := List.mem_singleton.mp own
      refine .inr (.inl ⟨_, listed, ?_⟩)
      rw [schemaCalls, if_neg builtIn]
      exact List.mem_singleton.mpr rfl
  · obtain ⟨relation, here, member⟩ := List.mem_flatMap.mp member
    rw [describe_relationsIn] at here
    obtain ⟨table, kept, rfl⟩ := List.mem_map.mp here
    obtain ⟨listed, home⟩ := List.mem_filter.mp kept
    have home := of_decide_eq_true home
    simp only [DeclaredTable.home, Prod.mk.injEq] at home
    rw [← home.1, ← home.2] at member
    simp only [List.mem_cons, List.not_mem_nil, or_false] at member
    obtain rfl | rfl := member <;> exact .inr (.inr ⟨table, listed, rfl⟩)

end

section
variable {σ : Type} [CatalogOidRegistry σ] [LawfulRegistry σ] {s : σ}

/-- A served call's slot holds a number, and it is the slot's own. -/
theorem called_oidAt (valid : Valid s) {calls : List CatalogObject} (served : Served s calls)
    {slot : OidSlot} (called : slot.object ∈ calls) :
    (ledger (run resolve s calls)).oidAt slot =
      some ((ledger (run resolve s calls)).oid slot) := by
  obtain ⟨oids, seen⟩ := served_recorded valid served called
  simp only [Ledger.oid, Ledger.oidAt, seen, Option.map_some, Option.getD_some]

theorem run_oidInvariant (valid : Valid s) (calls : List CatalogObject) :
    OidInvariant (ledger (run resolve s calls)) :=
  (LawfulRegistry.valid_sound _ (run_valid valid calls)).oidInvariant

theorem called_oid_injective (valid : Valid s) {calls : List CatalogObject}
    (served : Served s calls) {a b : OidSlot} (ha : a.object ∈ calls) (hb : b.object ∈ calls)
    (same : (ledger (run resolve s calls)).oid a = (ledger (run resolve s calls)).oid b) :
    a = b :=
  (run_oidInvariant valid calls).distinct a b _ (called_oidAt valid served ha)
    (same ▸ called_oidAt valid served hb)

section
variable {databases : List String} {schemas : List (String × String)}
  {tables : List DeclaredTable}

theorem describe_schema_names (l : Ledger) (accepted : Acceptable databases schemas tables)
    (database : String) :
    (((l.describe databases schemas tables).schemasIn database).map (·.name)).Nodup := by
  rw [describe_schemasIn]
  have all_nodup := nodup_referencedSchemas tables schemas accepted.schemas_nodup
  refine List.Nodup.map_on ?_ (all_nodup.filter _)
  intro a ha b hb same
  have first := of_decide_eq_true (List.mem_filter.mp ha).2
  have second := of_decide_eq_true (List.mem_filter.mp hb).2
  exact Prod.ext (first.trans second.symm) same

theorem describe_relation_names (l : Ledger) (accepted : Acceptable databases schemas tables)
    (database schema : String) :
    (((l.describe databases schemas tables).relationsIn database schema).map (·.name)).Nodup := by
  rw [describe_relationsIn, List.map_map]
  refine List.Nodup.map_on ?_ ((List.Nodup.of_map _ accepted.tables_nodup).filter _)
  intro a ha b hb same
  have first := of_decide_eq_true (List.mem_filter.mp ha).2
  have second := of_decide_eq_true (List.mem_filter.mp hb).2
  refine List.inj_on_of_nodup_map accepted.tables_nodup (List.mem_filter.mp ha).1
    (List.mem_filter.mp hb).1 ?_
  simp only [DeclaredTable.home, Prod.mk.injEq] at first second
  exact Prod.ext (first.1.trans second.1.symm) (Prod.ext (first.2.trans second.2.symm) same)

theorem describe_relations_inside (l : Ledger) {database schema : String}
    (nonempty : (l.describe databases schemas tables).relationsIn database schema ≠ []) :
    schema ∈ ((l.describe databases schemas tables).schemasIn database).map (·.name) := by
  rw [describe_relationsIn] at nonempty
  obtain ⟨table, kept⟩ := List.exists_mem_of_ne_nil _
    (fun empty => nonempty (by rw [empty, List.map_nil]) :
      (tables.filter fun table => table.home = (database, schema)) ≠ [])
  obtain ⟨listed, home⟩ := List.mem_filter.mp kept
  rw [describe_schemasIn, List.mem_map]
  refine ⟨(database, schema), List.mem_filter.mpr ⟨?_, decide_eq_true rfl⟩, rfl⟩
  exact (mem_referencedSchemas tables schemas _).mpr
    (.inr ⟨table, listed, of_decide_eq_true home⟩)

/-- No number is reported twice once the calls of the declarations were served. -/
theorem describe_oids_distinct (valid : Valid s) (accepted : Acceptable databases schemas tables)
    (served : Served s (declarationCalls databases schemas tables)) :
    ((ledger (run resolve s (declarationCalls databases schemas tables))).describe
      databases schemas tables).reportedOids.Nodup := by
  rw [describe_reportedOids]
  refine List.Nodup.map_on ?_ (DeclaredCatalogSource.reportedSlots_nodup
    (by simpa only [Ledger.describe, map_datname] using accepted.databases_nodup)
    (describe_schema_names _ accepted) (describe_relation_names _ accepted))
  intro a ha b hb same
  exact called_oid_injective valid served (reportedSlots_called _ _ _ _ ha)
    (reportedSlots_called _ _ _ _ hb) same

/-- The answers, for the ledger that a served declaration leaves behind. -/
theorem describe_answers (valid : Valid s) (accepted : Acceptable databases schemas tables)
    (served : Served s (declarationCalls databases schemas tables)) :
    DeclaredAnswers ((ledger (run resolve s (declarationCalls databases schemas tables))).describe
      databases schemas tables) databases schemas tables := by
  constructor
  · simp only [DeclaredCatalogSource.toLazy, Delivery.fetch_once, Except.map, Ledger.describe,
      map_datname]
  · intro database
    have names_nodup := describe_schema_names
      (ledger (run resolve s (declarationCalls databases schemas tables))) accepted database
    refine ⟨_, ?_, names_nodup, ?_⟩
    · simp only [DeclaredCatalogSource.toLazy, Delivery.fetch_once, Except.map]
    · intro name
      rw [describe_schemasIn, ← mem_referencedSchemas, List.mem_map]
      constructor
      · rintro ⟨pair, kept, rfl⟩
        obtain ⟨listed, home⟩ := List.mem_filter.mp kept
        rwa [← of_decide_eq_true home]
      · intro listed
        exact ⟨_, List.mem_filter.mpr ⟨listed, decide_eq_true rfl⟩, rfl⟩
  · intro database schema
    simp only [DeclaredCatalogSource.toLazy, Delivery.fetch_once, Except.map, describe_relationsIn,
      List.map_map]
    rfl
  · intro database schema nonempty
    exact describe_relations_inside _ nonempty
  · exact describe_oids_distinct valid accepted served
  · intro database schema member builtIn
    rw [(mem_describe_schemasIn _ _ _ _ member).2]
    simp only [Ledger.describeSchema, if_pos builtIn]

end

/-- A registry that answers the calls of a declaration set accepts it exactly when
no name is declared twice and every home is declared; the source then answers what
was declared, and `public` never reaches the registry. -/
theorem declarations_accepted_iff (valid : Valid s) (databases : List String)
    (schemas : List (String × String)) (tables : List DeclaredTable)
    (served : Served s (declarationCalls databases schemas tables)) :
    ((∃ source t, fromDeclarations databases schemas tables s = (.ok source, t)) ↔
      Acceptable databases schemas tables) ∧
    ∀ source t, fromDeclarations databases schemas tables s = (.ok source, t) →
      DeclaredAnswers source databases schemas tables ∧
      ∃ calls, t = run resolve s calls ∧ ∀ database, .schema database "public" ∉ calls := by
  refine ⟨⟨?_, ?_⟩, ?_⟩
  · rintro ⟨source, t, success⟩
    exact ((fromDeclarations_iff valid _ _ _ _).mp success).1
  · intro accepted
    exact ⟨_, _, (fromDeclarations_iff valid _ _ _ _).mpr ⟨accepted, served, rfl, rfl⟩⟩
  · intro source t success
    obtain ⟨accepted, _, rfl, rfl⟩ := (fromDeclarations_iff valid _ _ _ _).mp success
    exact ⟨describe_answers valid accepted served, _, rfl, public_not_called⟩

/-- The declarations of one database with a table in a schema nothing else names. -/
theorem one_table_accepted :
    ∃ source t, fromDeclarations ["app"] [("app", "public")]
        [⟨"app", "sales", "orders", [.single "id" ⟨"int", false, false⟩]⟩]
        InMemoryRegistryState.new = (.ok source, t) ∧
      DeclaredAnswers source ["app"] [("app", "public")]
        [⟨"app", "sales", "orders", [.single "id" ⟨"int", false, false⟩]⟩] := by
  have accepted := declarations_accepted_iff new_valid ["app"] [("app", "public")]
    [⟨"app", "sales", "orders", [.single "id" ⟨"int", false, false⟩]⟩] (served_of_all (by decide))
  obtain ⟨source, t, success⟩ := accepted.1.mpr ⟨by decide, by decide, by decide, by decide, by decide⟩
  exact ⟨source, t, success, (accepted.2 source t success).1⟩

/-- A registry that holds every object of a run answers it and stays as it is. -/
theorem recorded_served (valid : Valid s) {calls : List CatalogObject}
    (recorded : ∀ object ∈ calls, ∃ oids, (ledger s).recorded object = some oids) :
    Served s calls ∧ run resolve s calls = s := by
  induction calls with
  | nil => exact ⟨served_nil s, run_nil resolve s⟩
  | cons object rest ih =>
    obtain ⟨oids, seen⟩ := recorded object List.mem_cons_self
    obtain ⟨served, unchanged⟩ := ih fun other member =>
      recorded other (List.mem_cons_of_mem _ member)
    have same := LawfulRegistry.recorded_unchanged s object oids valid seen
    rw [served_cons, run_cons, same]
    refine ⟨⟨⟨oids, ?_⟩, served⟩, unchanged⟩
    rw [answer_eq valid, Ledger.resolve_recorded seen]

theorem Acceptable.perm {databases databases' : List String} {schemas schemas' : List (String × String)}
    {tables tables' : List DeclaredTable} (accepted : Acceptable databases schemas tables)
    (hd : databases'.Perm databases) (hs : schemas'.Perm schemas) (ht : tables'.Perm tables) :
    Acceptable databases' schemas' tables' where
  databases_nodup := hd.nodup_iff.mpr accepted.databases_nodup
  schemas_nodup := hs.nodup_iff.mpr accepted.schemas_nodup
  tables_nodup := (ht.map _).nodup_iff.mpr accepted.tables_nodup
  schema_homes schema member := hd.mem_iff.mpr (accepted.schema_homes schema (hs.mem_iff.mp member))
  table_homes table member := hd.mem_iff.mpr (accepted.table_homes table (ht.mem_iff.mp member))

/-- The same schemas are introduced in any order of the lists. -/
theorem referencedSchemas_perm {schemas schemas' : List (String × String)}
    {tables tables' : List DeclaredTable} (nodup : schemas.Nodup) (hs : schemas'.Perm schemas)
    (ht : tables'.Perm tables) :
    (schemas' ++ referencedSchemas tables' schemas').Perm
      (schemas ++ referencedSchemas tables schemas) := by
  rw [List.perm_ext_iff_of_nodup
    (nodup_referencedSchemas tables' schemas' (hs.nodup_iff.mpr nodup))
    (nodup_referencedSchemas tables schemas nodup)]
  intro schema
  simp only [mem_referencedSchemas, hs.mem_iff, ht.mem_iff]

theorem declarationCalls_perm {databases databases' : List String}
    {schemas schemas' : List (String × String)} {tables tables' : List DeclaredTable}
    (hd : databases'.Perm databases) (hs : schemas'.Perm schemas) (ht : tables'.Perm tables)
    {object : CatalogObject} (called : object ∈ declarationCalls databases' schemas' tables') :
    object ∈ declarationCalls databases schemas tables := by
  simpa only [mem_declarationCalls, hd.mem_iff, hs.mem_iff, ht.mem_iff] using called

end

end PgCatalog
