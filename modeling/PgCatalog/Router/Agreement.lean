import PgCatalog.Router.Qualify

/-! Detection and qualification visit the same table names, and what qualification writes
resolves as what it replaced. -/
namespace PgCatalog.Router

open Library Sql

section
variable {ctx : SessionContext}

mutual

theorem qualifyFactor_rename : ∀ factor : TableFactor,
    qualifyFactor ctx factor = renameFactor (qualifiedName ctx) factor
  | .table _ _ _ => rfl
  | .derived _ subquery _ => by rw [qualifyFactor, renameFactor, qualifyQuery_rename subquery]
  | .nestedJoin entry _ => by rw [qualifyFactor, renameFactor, qualifyEntry_rename entry]
  | .function _ _ _ _ => rfl
  | .tableFunction _ _ => rfl
  | .unnest _ _ => rfl

theorem qualifyEntry_rename : ∀ entry : TableWithJoins,
    qualifyTableWithJoins ctx entry = renameEntry (qualifiedName ctx) entry
  | ⟨relation, joins⟩ => by
    rw [qualifyTableWithJoins, renameEntry, qualifyFactor_rename relation,
      qualifyJoins_rename joins]

theorem qualifyJoins_rename : ∀ joins : List Join,
    qualifyJoins ctx joins = renameJoins (qualifiedName ctx) joins
  | [] => rfl
  | ⟨relation, _, _⟩ :: rest => by
    rw [qualifyJoins, renameJoins, qualifyFactor_rename relation, qualifyJoins_rename rest]

theorem qualifyFrom_rename : ∀ from_ : List TableWithJoins,
    qualifyFrom ctx from_ = renameFrom (qualifiedName ctx) from_
  | [] => rfl
  | entry :: rest => by
    rw [qualifyFrom, renameFrom, qualifyEntry_rename entry, qualifyFrom_rename rest]

theorem qualifyBody_rename : ∀ body : SetExpr,
    qualifySetexpr ctx body = renameBody (qualifiedName ctx) body
  | .select ⟨_, _, from_, _, _, _⟩ => by
    rw [qualifySetexpr, renameBody, qualifyFrom_rename from_]
  | .query q => by rw [qualifySetexpr, renameBody, qualifyQuery_rename q]
  | .setOperation _ _ left right => by
    rw [qualifySetexpr, renameBody, qualifyBody_rename left, qualifyBody_rename right]
  | .values _ => rfl

theorem qualifyQuery_rename : ∀ q : Query,
    qualifyQuery ctx q = renameQuery (qualifiedName ctx) q
  | ⟨with_, body, _, _, _⟩ => by
    rw [qualifyQuery, renameQuery, qualifyWith_rename with_, qualifyBody_rename body]

theorem qualifyWith_rename : ∀ with_ : Option With,
    qualifyWith ctx with_ = renameWith (qualifiedName ctx) with_
  | none => rfl
  | some ⟨_, cteTables⟩ => by rw [qualifyWith, renameWith, qualifyCtes_rename cteTables]

theorem qualifyCtes_rename : ∀ cteTables : List Cte,
    qualifyCtes ctx cteTables = renameCtes (qualifiedName ctx) cteTables
  | [] => rfl
  | ⟨_, query⟩ :: rest => by
    rw [qualifyCtes, renameCtes, qualifyQuery_rename query, qualifyCtes_rename rest]

end

mutual

theorem factorHasCatalog_tables : ∀ factor : TableFactor,
    factorHasCatalog ctx factor = (factorTables factor).any ctx.objectIsCatalog
  | .table name _ _ => by
    rw [factorHasCatalog, factorTables, List.any_cons, List.any_nil, Bool.or_false]
  | .derived _ subquery _ => by
    rw [factorHasCatalog, factorTables, queryHasCatalog_tables subquery]
  | .nestedJoin entry _ => by rw [factorHasCatalog, factorTables, entryHasCatalog_tables entry]
  | .function _ _ _ _ => rfl
  | .tableFunction _ _ => rfl
  | .unnest _ _ => rfl

theorem entryHasCatalog_tables : ∀ entry : TableWithJoins,
    tableWithJoinsContainsCatalog ctx entry = (entryTables entry).any ctx.objectIsCatalog
  | ⟨relation, joins⟩ => by
    rw [tableWithJoinsContainsCatalog, entryTables, List.any_append,
      factorHasCatalog_tables relation, joinsHaveCatalog_tables joins]

theorem joinsHaveCatalog_tables : ∀ joins : List Join,
    joinsHaveCatalog ctx joins = (joinsTables joins).any ctx.objectIsCatalog
  | [] => rfl
  | ⟨relation, _, _⟩ :: rest => by
    rw [joinsHaveCatalog, joinsTables, List.any_append, factorHasCatalog_tables relation,
      joinsHaveCatalog_tables rest]

theorem fromHasCatalog_tables : ∀ from_ : List TableWithJoins,
    fromHasCatalog ctx from_ = (fromTables from_).any ctx.objectIsCatalog
  | [] => rfl
  | entry :: rest => by
    rw [fromHasCatalog, fromTables, List.any_append, entryHasCatalog_tables entry,
      fromHasCatalog_tables rest]

theorem bodyHasCatalog_tables : ∀ body : SetExpr,
    setexprHasCatalog ctx body = (bodyTables body).any ctx.objectIsCatalog
  | .select ⟨_, _, from_, _, _, _⟩ => by
    rw [setexprHasCatalog, bodyTables, fromHasCatalog_tables from_]
  | .query q => by rw [setexprHasCatalog, bodyTables, queryHasCatalog_tables q]
  | .setOperation _ _ left right => by
    rw [setexprHasCatalog, bodyTables, List.any_append, bodyHasCatalog_tables left,
      bodyHasCatalog_tables right]
  | .values _ => rfl

/-- Detection asks exactly the names in FROM clauses. -/
theorem queryHasCatalog_tables : ∀ q : Query,
    queryHasCatalog ctx q = (queryTables q).any ctx.objectIsCatalog
  | ⟨with_, body, _, _, _⟩ => by
    rw [queryHasCatalog, queryTables, List.any_append, bodyHasCatalog_tables body,
      withHasCatalog_tables with_]

theorem withHasCatalog_tables : ∀ with_ : Option With,
    withHasCatalog ctx with_ = (withTables with_).any ctx.objectIsCatalog
  | none => rfl
  | some ⟨_, cteTables⟩ => by rw [withHasCatalog, withTables, ctesHaveCatalog_tables cteTables]

theorem ctesHaveCatalog_tables : ∀ cteTables : List Cte,
    ctesHaveCatalog ctx cteTables = (ctesTables cteTables).any ctx.objectIsCatalog
  | [] => rfl
  | ⟨_, query⟩ :: rest => by
    rw [ctesHaveCatalog, ctesTables, List.any_append, queryHasCatalog_tables query,
      ctesHaveCatalog_tables rest]

end

end

section
variable (f g : ObjectName → ObjectName)

mutual

theorem factorTables_rename : ∀ factor : TableFactor,
    factorTables (renameFactor f factor) = (factorTables factor).map f
  | .table _ _ _ => rfl
  | .derived _ subquery _ => by
    rw [renameFactor, factorTables, factorTables, queryTables_rename subquery]
  | .nestedJoin entry _ => by
    rw [renameFactor, factorTables, factorTables, entryTables_rename entry]
  | .function _ _ _ _ => rfl
  | .tableFunction _ _ => rfl
  | .unnest _ _ => rfl

theorem entryTables_rename : ∀ entry : TableWithJoins,
    entryTables (renameEntry f entry) = (entryTables entry).map f
  | ⟨relation, joins⟩ => by
    rw [renameEntry, entryTables, entryTables, List.map_append, factorTables_rename relation,
      joinsTables_rename joins]

theorem joinsTables_rename : ∀ joins : List Join,
    joinsTables (renameJoins f joins) = (joinsTables joins).map f
  | [] => rfl
  | ⟨relation, _, _⟩ :: rest => by
    rw [renameJoins, joinsTables, joinsTables, List.map_append, factorTables_rename relation,
      joinsTables_rename rest]

theorem fromTables_rename : ∀ from_ : List TableWithJoins,
    fromTables (renameFrom f from_) = (fromTables from_).map f
  | [] => rfl
  | entry :: rest => by
    rw [renameFrom, fromTables, fromTables, List.map_append, entryTables_rename entry,
      fromTables_rename rest]

theorem bodyTables_rename : ∀ body : SetExpr,
    bodyTables (renameBody f body) = (bodyTables body).map f
  | .select ⟨_, _, from_, _, _, _⟩ => by
    rw [renameBody, bodyTables, bodyTables, fromTables_rename from_]
  | .query q => by rw [renameBody, bodyTables, bodyTables, queryTables_rename q]
  | .setOperation _ _ left right => by
    rw [renameBody, bodyTables, bodyTables, List.map_append, bodyTables_rename left,
      bodyTables_rename right]
  | .values _ => rfl

/-- Renaming renames the names in FROM clauses, each in its place. -/
theorem queryTables_rename : ∀ q : Query,
    queryTables (renameQuery f q) = (queryTables q).map f
  | ⟨with_, body, _, _, _⟩ => by
    rw [renameQuery, queryTables, queryTables, List.map_append, bodyTables_rename body,
      withTables_rename with_]

theorem withTables_rename : ∀ with_ : Option With,
    withTables (renameWith f with_) = (withTables with_).map f
  | none => rfl
  | some ⟨_, cteTables⟩ => by
    rw [renameWith, withTables, withTables, ctesTables_rename cteTables]

theorem ctesTables_rename : ∀ cteTables : List Cte,
    ctesTables (renameCtes f cteTables) = (ctesTables cteTables).map f
  | [] => rfl
  | ⟨_, query⟩ :: rest => by
    rw [renameCtes, ctesTables, ctesTables, List.map_append, queryTables_rename query,
      ctesTables_rename rest]

end

mutual

theorem renameFactor_rename : ∀ factor : TableFactor,
    renameFactor g (renameFactor f factor) = renameFactor (fun name => g (f name)) factor
  | .table _ _ _ => rfl
  | .derived _ subquery _ => by
    rw [renameFactor, renameFactor, renameFactor, renameQuery_rename subquery]
  | .nestedJoin entry _ => by
    rw [renameFactor, renameFactor, renameFactor, renameEntry_rename entry]
  | .function _ _ _ _ => rfl
  | .tableFunction _ _ => rfl
  | .unnest _ _ => rfl

theorem renameEntry_rename : ∀ entry : TableWithJoins,
    renameEntry g (renameEntry f entry) = renameEntry (fun name => g (f name)) entry
  | ⟨relation, joins⟩ => by
    rw [renameEntry, renameEntry, renameEntry, renameFactor_rename relation,
      renameJoins_rename joins]

theorem renameJoins_rename : ∀ joins : List Join,
    renameJoins g (renameJoins f joins) = renameJoins (fun name => g (f name)) joins
  | [] => rfl
  | ⟨relation, _, _⟩ :: rest => by
    rw [renameJoins, renameJoins, renameJoins, renameFactor_rename relation,
      renameJoins_rename rest]

theorem renameFrom_rename : ∀ from_ : List TableWithJoins,
    renameFrom g (renameFrom f from_) = renameFrom (fun name => g (f name)) from_
  | [] => rfl
  | entry :: rest => by
    rw [renameFrom, renameFrom, renameFrom, renameEntry_rename entry, renameFrom_rename rest]

theorem renameBody_rename : ∀ body : SetExpr,
    renameBody g (renameBody f body) = renameBody (fun name => g (f name)) body
  | .select ⟨_, _, from_, _, _, _⟩ => by
    rw [renameBody, renameBody, renameBody, renameFrom_rename from_]
  | .query q => by rw [renameBody, renameBody, renameBody, renameQuery_rename q]
  | .setOperation _ _ left right => by
    rw [renameBody, renameBody, renameBody, renameBody_rename left, renameBody_rename right]
  | .values _ => rfl

theorem renameQuery_rename : ∀ q : Query,
    renameQuery g (renameQuery f q) = renameQuery (fun name => g (f name)) q
  | ⟨with_, body, _, _, _⟩ => by
    rw [renameQuery, renameQuery, renameQuery, renameWith_rename with_, renameBody_rename body]

theorem renameWith_rename : ∀ with_ : Option With,
    renameWith g (renameWith f with_) = renameWith (fun name => g (f name)) with_
  | none => rfl
  | some ⟨_, cteTables⟩ => by
    rw [renameWith, renameWith, renameWith, renameCtes_rename cteTables]

theorem renameCtes_rename : ∀ cteTables : List Cte,
    renameCtes g (renameCtes f cteTables) = renameCtes (fun name => g (f name)) cteTables
  | [] => rfl
  | ⟨_, query⟩ :: rest => by
    rw [renameCtes, renameCtes, renameCtes, renameQuery_rename query, renameCtes_rename rest]

end

end

section
variable {ctx : SessionContext}

/-- The catalog schemas are registered under their lower-case names. -/
def CatalogLowerCase (ctx : SessionContext) : Prop :=
  ∀ catalog schema table, ctx.tableExists catalog schema table = true →
    schemaIsCatalog schema = true → schema.toLower = schema

theorem searchSchemas_exists {table schema : String} {searched : List String}
    (found : ctx.searchSchemas table searched = some schema) :
    ctx.tableExists ctx.defaultCatalog schema table = true := by
  induction searched with
  | nil => cases found
  | cons sp rest ih =>
    unfold SessionContext.searchSchemas at found
    dsimp only at found
    generalize (if sp = "$user" then ctx.defaultSchema else sp) = schemaName at found
    split at found
    · rename_i present
      obtain rfl := Option.some.inj found
      exact present
    · exact ih found

variable (ctx) in
/-- A name changes only if it has one part and resolves to a catalog schema. -/
theorem qualified_cases (name : ObjectName) :
    (qualifiedName ctx name = name ∧ ∀ part schema, name = [part] →
        ctx.resolveSchema name = some schema → schemaIsCatalog schema = false) ∨
      ∃ part schema, name = [part] ∧ ctx.resolveSchema name = some schema ∧
        schemaIsCatalog schema = true ∧
        qualifiedName ctx name = [.identifier (.new schema), part] := by
  unfold qualifiedName
  cases found : ctx.resolveSchema name with
  | none => exact .inl ⟨rfl, fun _ _ _ impossible => by cases impossible⟩
  | some schema =>
    dsimp only
    by_cases catalog : schemaIsCatalog schema = true
    · rw [if_pos catalog]
      unfold qualifyTableName
      split
      · rename_i part
        exact .inr ⟨part, schema, rfl, rfl, catalog, rfl⟩
      · rename_i long
        exact .inl ⟨rfl, fun part _ one => absurd one (long part)⟩
    · rw [if_neg catalog]
      refine .inl ⟨rfl, fun _ other _ same => ?_⟩
      rw [← Option.some.inj same]
      exact Bool.eq_false_iff.mpr catalog

/-- What qualification makes of a name resolves as the name does. -/
theorem resolve_qualified (lower : CatalogLowerCase ctx) (name : ObjectName) :
    ctx.resolveSchema (qualifiedName ctx name) = ctx.resolveSchema name := by
  obtain ⟨same, _⟩ | ⟨part, schema, rfl, found, catalog, prefixed⟩ :=
    qualified_cases ctx name
  · rw [same]
  · rw [prefixed, found]
    unfold SessionContext.resolveSchema at found ⊢
    cases part with
    | function text => cases found
    | identifier id =>
      have one : resolvedNameParts [.identifier id] = [resolvedIdentifier id] := rfl
      rw [one] at found
      have present := searchSchemas_exists found
      have two : resolvedNameParts [.identifier (.new schema), .identifier id] =
          [schema.toLower, resolvedIdentifier id] := rfl
      rw [two, lower _ _ _ present catalog]
      exact if_pos present

theorem qualified_twice (name : ObjectName) :
    qualifiedName ctx (qualifiedName ctx name) = qualifiedName ctx name := by
  obtain ⟨same, _⟩ | ⟨part, schema, _, _, _, prefixed⟩ := qualified_cases ctx name
  · rw [same, same]
  · rw [prefixed]
    obtain ⟨same, _⟩ | ⟨_, _, one, _⟩ :=
      qualified_cases ctx [.identifier (.new schema), part]
    · exact same
    · cases one

/-- Qualification and detection of one query, and of it once qualified. -/
structure Agrees (ctx : SessionContext) (q : Query) : Prop where
  detected : queryHasCatalog ctx q = (queryTables q).any ctx.objectIsCatalog
  /-- At the names detection asks something may change, and nowhere else. -/
  renamed : qualifyQuery ctx q = renameQuery (qualifiedName ctx) q
  tables : queryTables (qualifyQuery ctx q) = (queryTables q).map (qualifiedName ctx)
  prefixed : ∀ part schema, ctx.resolveSchema [part] = some schema →
    schemaIsCatalog schema = true → qualifiedName ctx [part] = [.identifier (.new schema), part]
  untouched : ∀ name, (¬∃ part schema, name = [part] ∧ ctx.resolveSchema name = some schema ∧
    schemaIsCatalog schema = true) → qualifiedName ctx name = name
  resolved : ∀ name, ctx.resolveSchema (qualifiedName ctx name) = ctx.resolveSchema name
  again : queryHasCatalog ctx (qualifyQuery ctx q) = queryHasCatalog ctx q
  idempotent : qualifyQuery ctx (qualifyQuery ctx q) = qualifyQuery ctx q

end

/-- A session that knows `pg_class` and one table of the user's. -/
def pgClassSession : SessionContext where
  tableExists catalog schema table :=
    (catalog, schema, table) ∈ [("datafusion", "pg_catalog", "pg_class"),
      ("datafusion", "public", "users")]
  functionRegistered _ := false
  defaultCatalog := "datafusion"
  defaultSchema := "public"
  searchPath := none

/-- `SELECT * FROM <table>`. -/
def selectAll (table : ObjectName) : Query :=
  ⟨none, .select ⟨.no, [.wildcard], [⟨.table table none none, []⟩], none, .expressions [], none⟩,
    [], none, none⟩

theorem pgClassSession_lower : CatalogLowerCase pgClassSession := by
  intro catalog schema table present _
  have listed := of_decide_eq_true present
  simp only [List.mem_cons, Prod.mk.injEq, List.not_mem_nil, or_false] at listed
  obtain ⟨_, rfl, _⟩ | ⟨_, rfl, _⟩ := listed <;> decide +kernel

end PgCatalog.Router
