import PgCatalog.Library.Repeats
import PgCatalog.Server.SearchPath

/-! `current_schema()` and `current_schemas()`, and the schemas a bare name is looked up in. -/
namespace PgCatalog.UserFunctions

open Library Sql Router Server

/-- An argument or result of a function call: one value, or one for each row. -/
inductive ColumnarValue (α : Type) where
  | scalar (value : Option α)
  | array (values : List (Option α))
  deriving DecidableEq

def DEFAULT_USER_SCHEMA : String := "public"

def IMPLICIT_SYSTEM_SCHEMA : String := "pg_catalog"

def namesSchema (entry : String) : Bool := entry ≠ "" && entry ≠ "$user"

/-- The schemas on a session's search path, in order, with `$user` dropped. -/
def searchPathSchemas (ctx : SessionContext) : List String :=
  match ctx.searchPath with
  | none => [DEFAULT_USER_SCHEMA]
  | some path =>
    let schemas := ((split ',' path).map fun entry => trim (trimMatches '"' (trim entry))).filter
      namesSchema
    if schemas = [] then [DEFAULT_USER_SCHEMA] else schemas

def currentSchema (ctx : SessionContext) : String :=
  (searchPathSchemas ctx).head?.getD DEFAULT_USER_SCHEMA

def currentSchemas (ctx : SessionContext) (args : List (ColumnarValue Bool)) : List String :=
  let includeImplicit := args.head? = some (.scalar (some true))
  (if includeImplicit then [IMPLICIT_SYSTEM_SCHEMA] else []) ++ searchPathSchemas ctx

/-- The schemas a bare name is looked up in. -/
def probedSchemas (ctx : SessionContext) : List String :=
  ctx.searched.map (readAs "$user" ctx.defaultSchema)

/-- The path names the catalog's schema itself. -/
def namesCatalog (path : String) : Bool :=
  (searchPathEntries path).any (eqIgnoreAsciiCase · "pg_catalog")

/-- What is reported is what is searched. -/
structure SchemasAgree (ctx : SessionContext) (path : String) : Prop where
  distinct : (currentSchemas ctx [.scalar (some true)]).Nodup
  probed : currentSchemas ctx [.scalar (some true)] = (probedSchemas ctx).eraseDups
  resolves : ∀ id, ctx.resolveSchema [.identifier id] =
    (currentSchemas ctx [.scalar (some true)]).find?
      (ctx.tableExists ctx.defaultCatalog · (resolvedIdentifier id))
  explicit : currentSchemas ctx [.scalar (some false)] =
    if namesCatalog path then currentSchemas ctx [.scalar (some true)]
    else (currentSchemas ctx [.scalar (some true)]).filter (· ≠ IMPLICIT_SYSTEM_SCHEMA)
  first : (currentSchemas ctx [.scalar (some false)]).head? = some (currentSchema ctx)

/-- The path does not name the catalog's schema; its names but `$user` are apart, with no
blank at an end and none empty; and `$user` stands where the default schema is passed over
or comes next, or alone for `public`. -/
structure PlainPath (defaultSchema path : String) : Prop where
  uncatalogued : namesCatalog path = false
  trimmed : ∀ entry ∈ searchPathEntries path, entry ≠ "$user" → trim entry = entry ∧ entry ≠ ""
  distinct : ((searchPathEntries path).filter (· ≠ "$user")).Nodup
  user : if (searchPathEntries path).filter (· ≠ "$user") = [] then
      searchPathEntries path ≠ [] ∧ defaultSchema = DEFAULT_USER_SCHEMA
    else "$user" ∈ searchPathEntries path →
      defaultSchema = "pg_catalog" ∨ defaultSchema ∈ beforeFirst "$user" (searchPathEntries path) ∨
        (afterFirst "$user" (searchPathEntries path)).head? = some defaultSchema

section
variable (defaultSchema : String) (ctx : SessionContext)

/-- The names reported of a path, where there are any. -/
def reportedNames (path : String) : List String :=
  ((searchPathEntries path).map trim).filter namesSchema

/-- It makes no difference that pieces without a name are left out before the quotes go. -/
theorem reported_pieces (pieces : List String) :
    (pieces.map fun piece => trim (trimMatches '"' piece)).filter namesSchema =
      (((pieces.filter (· ≠ "")).map (trimMatches '"')).map trim).filter namesSchema := by
  have empty : trim (trimMatches '"' "") = "" := by decide +kernel
  induction pieces with
  | nil => simp only [List.map_nil, List.filter_nil]
  | cons piece rest ih =>
    by_cases blank : piece = ""
    · have nothing : trim (trimMatches '"' piece) = "" := by rw [blank, empty]
      have nameless : ¬namesSchema "" = true := by decide
      rw [List.map_cons, nothing, List.filter_cons_of_neg nameless,
        List.filter_cons_of_neg (by simpa using blank), ih]
    · rw [List.filter_cons_of_pos (a := piece) (p := (· ≠ "")) (by simpa using blank),
        List.map_cons, List.map_cons, List.map_cons, List.filter_cons, List.filter_cons, ih]

theorem searchPathSchemas_path {path : String} (stored : ctx.searchPath = some path) :
    searchPathSchemas ctx =
      if reportedNames path = [] then [DEFAULT_USER_SCHEMA] else reportedNames path := by
  have names : ((split ',' path).map fun entry => trim (trimMatches '"' (trim entry))).filter
      namesSchema = reportedNames path := by
    have pieces := reported_pieces ((split ',' path).map trim)
    rw [List.map_map] at pieces
    exact pieces
  unfold searchPathSchemas
  rw [stored]
  dsimp only
  rw [names]

theorem searchSchemas_find? (table : String) (schemas : List String) :
    ctx.searchSchemas table schemas =
      (schemas.map (readAs "$user" ctx.defaultSchema)).find?
        (ctx.tableExists ctx.defaultCatalog · table) := by
  induction schemas with
  | nil => rfl
  | cons sp rest ih =>
    rw [SessionContext.searchSchemas, List.map_cons, List.find?_cons, ih]
    unfold readAs
    cases ctx.tableExists ctx.defaultCatalog (if sp = "$user" then ctx.defaultSchema else sp) table with
    | true => rfl
    | false => rfl

end

section
variable {ctx : SessionContext} {path : String}

theorem currentSchemas_true :
    currentSchemas ctx [.scalar (some true)] = "pg_catalog" :: searchPathSchemas ctx := rfl

theorem currentSchemas_false :
    currentSchemas ctx [.scalar (some false)] = searchPathSchemas ctx := rfl

theorem searchPathSchemas_head (ctx : SessionContext) :
    (searchPathSchemas ctx).head? = some (currentSchema ctx) := by
  unfold currentSchema searchPathSchemas
  cases ctx.searchPath with
  | none => rfl
  | some path =>
    dsimp only
    split
    · rfl
    · rename_i some_
      rw [List.head?_eq_some_head some_]
      rfl

/-- The names reported of a path are trimmed and neither empty nor `$user`. -/
theorem searchPathSchemas_plain (stored : ctx.searchPath = some path) :
    ∀ entry ∈ searchPathSchemas ctx, trim entry = entry ∧ entry ≠ "" ∧ entry ≠ "$user" := by
  intro entry member
  rw [searchPathSchemas_path ctx stored] at member
  split at member
  · obtain rfl := List.mem_singleton.mp member
    exact ⟨by decide +kernel, by decide, by decide⟩
  · obtain ⟨listed, named⟩ := List.mem_filter.mp member
    obtain ⟨name, _, rfl⟩ := List.mem_map.mp listed
    have both : trim name ≠ "" ∧ trim name ≠ "$user" := by simpa [namesSchema] using named
    exact ⟨trim_trim name, both⟩

/-- With every name trimmed and none empty, the names reported are those but `$user`. -/
theorem reportedNames_trimmed
    (trimmed_ : ∀ entry ∈ searchPathEntries path, entry ≠ "$user" → trim entry = entry ∧ entry ≠ "") :
    reportedNames path = (searchPathEntries path).filter (· ≠ "$user") := by
  have user : trim "$user" = "$user" := by decide +kernel
  unfold reportedNames
  generalize searchPathEntries path = entries at trimmed_
  induction entries with
  | nil => rfl
  | cons entry rest ih =>
    have later := ih fun other member => trimmed_ other (List.mem_cons_of_mem _ member)
    by_cases same : entry = "$user"
    · have nameless : ¬namesSchema "$user" = true := by decide
      rw [same, List.map_cons, user, List.filter_cons_of_neg nameless,
        List.filter_cons_of_neg (by simp), later]
    · obtain ⟨kept, some_⟩ := trimmed_ entry List.mem_cons_self same
      have named : namesSchema entry = true := by simp [namesSchema, some_, same]
      rw [List.map_cons, kept, List.filter_cons_of_pos named,
        List.filter_cons_of_pos (a := entry) (p := (· ≠ "$user")) (by simpa using same), later]

/-- A path that does not name the catalog's schema is searched after it. -/
theorem probedSchemas_uncatalogued (stored : ctx.searchPath = some path)
    (uncatalogued : namesCatalog path = false) :
    (probedSchemas ctx).eraseDups =
      "pg_catalog" :: (((searchPathEntries path).map (readAs "$user" ctx.defaultSchema)).filter
        (· ≠ "pg_catalog")).eraseDups := by
  have catalog : readAs "$user" ctx.defaultSchema "pg_catalog" = "pg_catalog" :=
    if_neg (by decide)
  have searched : ctx.searched = "pg_catalog" :: searchPathEntries path := by
    unfold SessionContext.searched
    rw [stored]
    exact (parseSearchPath_entries path).trans (if_neg (by
      rw [Bool.not_eq_true]
      exact uncatalogued))
  rw [probedSchemas, searched, List.map_cons, catalog, List.eraseDups_cons]
  refine congrArg (fun kept => "pg_catalog" :: kept.eraseDups) (List.filter_congr fun entry _ => ?_)
  by_cases same : entry = "pg_catalog" <;> simp [same]

/-- A path that names the catalog's schema and reports no schema twice is never kept apart. -/
theorem not_named_of_agree (agree : SchemasAgree ctx path) : namesCatalog path = false := by
  by_contra named
  have both := agree.explicit
  rw [if_pos (Bool.not_eq_false _ ▸ named), currentSchemas_true, currentSchemas_false] at both
  exact List.cons_ne_self _ _ both.symm

end

/-- A session with a stored search path. -/
def withSearchPath (ctx : SessionContext) (path : String) : SessionContext :=
  { ctx with searchPath := some path }

section
variable {ctx : SessionContext} {path : String}

theorem not_catalog_of_uncatalogued (uncatalogued : namesCatalog path = false) :
    "pg_catalog" ∉ searchPathEntries path := by
  intro member
  have itself : eqIgnoreAsciiCase "pg_catalog" "pg_catalog" = true := decide_eq_true rfl
  have named : namesCatalog path = true := List.any_eq_true.mpr ⟨_, member, itself⟩
  rw [uncatalogued] at named
  cases named

/-- For a path that does not name the catalog's schema, agreement is about the rest. -/
theorem schemas_agree_rest (stored : ctx.searchPath = some path) :
    SchemasAgree ctx path ↔ namesCatalog path = false ∧
      searchPathSchemas ctx =
        (((searchPathEntries path).map (readAs "$user" ctx.defaultSchema)).filter
          (· ≠ "pg_catalog")).eraseDups := by
  constructor
  · intro agree
    have uncatalogued := not_named_of_agree agree
    have same := agree.probed
    rw [currentSchemas_true, probedSchemas_uncatalogued stored uncatalogued] at same
    exact ⟨uncatalogued, (List.cons.inj same).2⟩
  · rintro ⟨uncatalogued, same⟩
    have probed : currentSchemas ctx [.scalar (some true)] = (probedSchemas ctx).eraseDups := by
      rw [currentSchemas_true, probedSchemas_uncatalogued stored uncatalogued, same]
    refine ⟨probed ▸ nodup_eraseDups _, probed, fun id => ?_, ?_, searchPathSchemas_head ctx⟩
    · rw [probed, find?_eraseDups]
      exact searchSchemas_find? ctx _ _
    · rw [uncatalogued, if_neg (by decide), currentSchemas_true, currentSchemas_false,
        List.filter_cons_of_neg (by decide)]
      refine (List.filter_eq_self.mpr fun entry member => ?_).symm
      rw [same] at member
      exact (List.mem_filter.mp (List.mem_eraseDups.mp member)).2

/-- Names that are all `$user` are one schema, the default one. -/
theorem users_read {entries : List String} (users : entries.filter (· ≠ "$user") = [])
    (some_ : entries ≠ []) (defaultSchema : String) :
    ((entries.map (readAs "$user" defaultSchema)).filter (· ≠ "pg_catalog")).eraseDups =
      if defaultSchema = "pg_catalog" then [] else [defaultSchema] := by
  have all : entries.map (readAs "$user" defaultSchema) =
      List.replicate entries.length defaultSchema := by
    refine List.eq_replicate_iff.mpr ⟨List.length_map _, fun entry member => ?_⟩
    obtain ⟨name, listed, rfl⟩ := List.mem_map.mp member
    have user := List.filter_eq_nil_iff.mp users name listed
    exact if_pos (by simpa using user)
  rw [all, List.filter_replicate]
  by_cases catalog : defaultSchema = "pg_catalog"
  · rw [if_pos catalog, if_neg (by simpa using catalog)]
    rfl
  · rw [if_neg catalog, if_pos (by simpa using catalog)]
    obtain ⟨n, length⟩ := Nat.exists_eq_succ_of_ne_zero (mt List.length_eq_zero_iff.mp some_)
    rw [length, List.replicate_succ, List.eraseDups_cons, List.filter_replicate,
      if_neg (by simp)]
    rfl

/-- What is reported is what is searched exactly for the plain paths. -/
theorem schemas_agree_iff (ctx : SessionContext) (path : String) :
    SchemasAgree (withSearchPath ctx path) path ↔ PlainPath ctx.defaultSchema path := by
  have stored : (withSearchPath ctx path).searchPath = some path := rfl
  have default_ : (withSearchPath ctx path).defaultSchema = ctx.defaultSchema := rfl
  rw [schemas_agree_rest stored, default_]
  constructor
  · rintro ⟨uncatalogued, same⟩
    have catalog := not_catalog_of_uncatalogued uncatalogued
    have trimmed_ : ∀ entry ∈ searchPathEntries path, entry ≠ "$user" →
        trim entry = entry ∧ entry ≠ "" := by
      intro entry member other
      have inside : entry ∈ searchPathSchemas (withSearchPath ctx path) := by
        rw [same, List.mem_eraseDups, List.mem_filter]
        refine ⟨List.mem_map.mpr ⟨entry, member, if_neg other⟩, decide_eq_true ?_⟩
        rintro rfl
        exact catalog member
      have plain := searchPathSchemas_plain stored entry inside
      exact ⟨plain.1, plain.2.1⟩
    rw [searchPathSchemas_path _ stored, reportedNames_trimmed trimmed_] at same
    refine ⟨uncatalogued, trimmed_, ?_, ?_⟩
    · split at same
      · rename_i none_
        rw [none_]
        exact List.nodup_nil
      · rw [same]
        exact nodup_eraseDups _
    · split at same
      · rename_i none_
        rw [if_pos none_]
        by_cases empty : searchPathEntries path = []
        · rw [empty] at same
          cases same
        · rw [users_read none_ empty] at same
          split at same
          · cases same
          · exact ⟨empty, (List.singleton_inj.mp same).symm⟩
      · rename_i some_
        rw [if_neg some_]
        intro member
        have distinct : ((searchPathEntries path).filter (· ≠ "$user")).Nodup :=
          same ▸ nodup_eraseDups _
        exact (eraseDups_readAs_iff _ distinct catalog member).mp same.symm
  · rintro ⟨uncatalogued, trimmed_, distinct, user⟩
    have catalog := not_catalog_of_uncatalogued uncatalogued
    refine ⟨uncatalogued, ?_⟩
    rw [searchPathSchemas_path _ stored, reportedNames_trimmed trimmed_]
    by_cases none_ : (searchPathEntries path).filter (· ≠ "$user") = []
    · rw [if_pos none_] at user ⊢
      rw [users_read none_ user.1, user.2, if_neg (by decide)]
    · rw [if_neg none_] at user ⊢
      by_cases member : "$user" ∈ searchPathEntries path
      · exact ((eraseDups_readAs_iff _ distinct catalog member).mpr (user member)).symm
      · have named : ∀ entry ∈ searchPathEntries path, decide (entry ≠ "pg_catalog") = true :=
          fun entry inside => decide_eq_true fun same => catalog (same ▸ inside)
        have userless : ∀ entry ∈ searchPathEntries path, decide (entry ≠ "$user") = true :=
          fun entry inside => decide_eq_true fun same => member (same ▸ inside)
        rw [List.filter_eq_self.mpr userless] at distinct ⊢
        rw [map_readAs_of_not_mem _ _ member, List.filter_eq_self.mpr named,
          eraseDups_of_nodup distinct]

end

/-- `SET search_path TO pg_catalog, public`: the catalog's schema is reported twice. -/
theorem catalog_reported_twice : ¬SchemasAgree (withSearchPath ⟨fun _ _ _ => false,
    fun _ => false, "datafusion", "public", none⟩ "pg_catalog, public") "pg_catalog, public" := by
  intro agree
  have listed : "pg_catalog" ∈ searchPathEntries "pg_catalog, public" := by decide +kernel
  exact not_catalog_of_uncatalogued (not_named_of_agree agree) listed

end PgCatalog.UserFunctions
