import PgCatalog.Session.CatalogRegistration

/-! The catalog a session starts from: the YAML files of an archive or a directory merged one after
the other, and the artifact that is embedded in their place. -/
namespace PgCatalog.Session

open Library Library.Placing

/-- The table a map has under a name. -/
def stored (m : SchemaMap) (place : String × String × String) : Option ParsedTable :=
  (m.lookup place.1).bind fun schemas =>
    (schemas.lookup place.2.1).bind fun tables => tables.lookup place.2.2

/-- How a document is parsed, and how its floats are spelled. -/
structure YamlReader where
  fromStr : String → Option YamlSchema
  spell : FloatText

def parseSchemaText (reader : YamlReader) (contents : String) : Option SchemaMap :=
  (reader.fromStr contents).bind (parseSchemaContents reader.spell)

/-- An archive's members by their names; those without the extension are skipped. -/
def parseSchemaZipReader (reader : YamlReader) (members : List (String × String)) :
    Option SchemaMap :=
  members.foldlM (fun all (entryName, contents) =>
    if hasExtension entryName "yaml" then
      (parseSchemaText reader contents).map (mergeSchemaMaps all)
    else some all) ∅

/-- A directory's files by their paths; here the extension is compared as it is. -/
def parseSchemaDir (reader : YamlReader) (files : List (String × String)) : Option SchemaMap :=
  files.foldlM (fun all (path, contents) =>
    if (fileName path.toList).bind extension = some "yaml".toList then
      (parseSchemaText reader contents).map (mergeSchemaMaps all)
    else some all) ∅

def buildIpcArtifact (formats : Formats) (reader : YamlReader) (members : List (String × String)) :
    Option formats.Bytes :=
  (parseSchemaZipReader reader members).bind (schemasToIpcZip formats)

/-! Merging. -/

theorem stored_empty (place : String × String × String) : stored ∅ place = none := rfl

/-- A merged map has the table of the addition, or else its own. -/
theorem stored_mergeSchemaMaps (target addition : SchemaMap) (place : String × String × String) :
    stored (mergeSchemaMaps target addition) place =
      (stored addition place).or (stored target place) := by
  obtain ⟨catalog, schemaName, table⟩ := place
  simp only [stored, mergeSchemaMaps, HashMap.lookup_absorb]
  cases addition.lookup catalog with
  | none => rfl
  | some added =>
    simp only [Option.map_some, Option.some_or, Option.bind_some, mergeSchemas,
      HashMap.lookup_absorb]
    cases added.lookup schemaName with
    | none => cases target.lookup catalog <;> rfl
    | some new =>
      simp only [Option.map_some, Option.some_or, Option.bind_some, mergeTables,
        HashMap.lookup_absorb]
      have old : ((((target.lookup catalog).getD ∅).lookup schemaName).getD ∅).lookup table =
          (target.lookup catalog).bind fun schemas =>
            (schemas.lookup schemaName).bind fun tables => tables.lookup table := by
        cases target.lookup catalog with
        | none => rfl
        | some schemas =>
          rw [Option.getD_some, Option.bind_some]
          cases schemas.lookup schemaName <;> rfl
      rw [old]
      cases new.lookup table <;> rfl

section
variable {reader : YamlReader} {files : List (String × String)} {m : SchemaMap}

/-- What a file adds, by whether it is one of the catalog's. -/
def documentOf (reader : YamlReader) (counts : String → Bool) (file : String × String) :
    Option SchemaMap :=
  if counts file.1 then parseSchemaText reader file.2 else none

/-- Files merged one after the other onto a map. -/
def mergeFiles (reader : YamlReader) (counts : String → Bool) (start : SchemaMap)
    (files : List (String × String)) : Option SchemaMap :=
  files.foldlM (fun all file =>
    if counts file.1 then (parseSchemaText reader file.2).map (mergeSchemaMaps all)
    else some all) start

theorem mergeFiles_cons (counts : String → Bool) (start : SchemaMap) (file : String × String)
    (rest : List (String × String)) : mergeFiles reader counts start (file :: rest) =
      if counts file.1 then (parseSchemaText reader file.2).bind fun document =>
        mergeFiles reader counts (mergeSchemaMaps start document) rest
      else mergeFiles reader counts start rest := by
  by_cases counted : counts file.1 = true
  · rw [if_pos counted, mergeFiles, List.foldlM_cons, if_pos counted]
    cases parseSchemaText reader file.2 <;> rfl
  · rw [if_neg counted, mergeFiles, List.foldlM_cons, if_neg counted]
    rfl

/-- The files can be merged exactly if each that counts can be parsed. -/
theorem mergeFiles_ready (counts : String → Bool) (start : SchemaMap) :
    (∃ m, mergeFiles reader counts start files = some m) ↔
      ∀ file ∈ files, counts file.1 = true → (parseSchemaText reader file.2).isSome = true := by
  induction files generalizing start with
  | nil => simp [mergeFiles]
  | cons file rest ih =>
    rw [List.forall_mem_cons, mergeFiles_cons]
    by_cases counted : counts file.1 = true
    · rw [if_pos counted]
      cases parseSchemaText reader file.2 with
      | none => simp [counted]
      | some document =>
        rw [Option.bind_some, ih]
        simp
    · rw [if_neg counted, ih]
      simp [counted]

/-- Each table is that of the last file that declares it. -/
theorem stored_mergeFiles {counts : String → Bool} {start : SchemaMap}
    (merged : mergeFiles reader counts start files = some m) (place : String × String × String) :
    stored m place = (files.reverse.findSome? fun file =>
      (documentOf reader counts file).bind (stored · place)).or (stored start place) := by
  induction files generalizing start with
  | nil =>
    obtain rfl := Option.some.inj merged
    rfl
  | cons file rest ih =>
    rw [mergeFiles_cons] at merged
    rw [List.reverse_cons, List.findSome?_append, Option.or_assoc, List.findSome?_singleton,
      documentOf]
    by_cases counted : counts file.1 = true
    · rw [if_pos counted] at merged ⊢
      obtain ⟨document, parsed, later⟩ := Option.bind_eq_some_iff.mp merged
      rw [parsed, Option.bind_some, ih later, stored_mergeSchemaMaps]
    · rw [if_neg counted] at merged ⊢
      rw [ih merged]
      rfl

end

/-- The table a place has of the last file that declares one for it. -/
def lastDeclared (reader : YamlReader) (counts : String → Bool) (files : List (String × String))
    (place : String × String × String) : Option ParsedTable :=
  files.reverse.findSome? fun file => (documentOf reader counts file).bind (stored · place)

/-- The files are read whole or not at all, and a later file overrides the earlier ones. -/
structure Merges (reader : YamlReader) (counts : String → Bool) (files : List (String × String))
    (loaded : Option SchemaMap) : Prop where
  loads : loaded.isSome = true ↔
    ∀ file ∈ files, counts file.1 = true → (parseSchemaText reader file.2).isSome = true
  tables : ∀ m ∈ loaded, ∀ place, stored m place = lastDeclared reader counts files place

theorem merges_mergeFiles (reader : YamlReader) (counts : String → Bool)
    (files : List (String × String)) :
    Merges reader counts files (mergeFiles reader counts ∅ files) := by
  constructor
  · rw [Option.isSome_iff_exists]
    exact mergeFiles_ready counts ∅
  · intro m merged place
    rw [stored_mergeFiles merged, stored_empty, Option.or_none, lastDeclared]

/-- An archive and a directory both give each place the table of the last file that declares one;
only what counts as a file of the catalog differs. -/
theorem last_declaration_wins (reader : YamlReader) (files : List (String × String)) :
    Merges reader (hasExtension · "yaml") files (parseSchemaZipReader reader files) ∧
      Merges reader (fun path => (fileName path.toList).bind extension = some "yaml".toList) files
        (parseSchemaDir reader files) := by
  have archive : parseSchemaZipReader reader files =
    mergeFiles reader (hasExtension · "yaml") ∅ files := rfl
  have directory : parseSchemaDir reader files = mergeFiles reader
      (fun path => (fileName path.toList).bind extension = some "yaml".toList) ∅ files := by
    simp only [parseSchemaDir, mergeFiles, decide_eq_true_eq]
  rw [archive, directory]
  exact ⟨merges_mergeFiles _ _ _, merges_mergeFiles _ _ _⟩

/-! The artifact. -/

/-- The artifact keeps every table, whatever becomes of empty schemas. -/
theorem stored_rebuilt (m : SchemaMap) (place : String × String × String) :
    stored ((placedTables m).foldl insertTable ∅) place = stored m place := by
  obtain ⟨catalog, schemaName, table⟩ := place
  simp only [stored, lookup_rebuilt]
  cases m.lookup catalog with
  | none => rfl
  | some schemas =>
    simp only [Option.bind_some]
    by_cases none_ : placedInSchemas schemas = []
    · rw [if_pos none_, Option.bind_none]
      cases there : schemas.lookup schemaName with
      | none => rfl
      | some tables =>
        have empty := placedInSchemas_eq_nil.mp none_ schemaName tables there
        rw [Option.bind_some]
        cases found : tables.lookup table with
        | none => rfl
        | some info =>
          have member := HashMap.mem_entries.mp found
          rw [empty] at member
          cases member
    · rw [if_neg none_, Option.bind_some, lookup_rebuiltSchemas]
      cases schemas.lookup schemaName with
      | none => rfl
      | some tables =>
        simp only [Option.bind_some]
        by_cases empty : tables.entries = []
        · rw [if_pos empty, Option.bind_none]
          cases found : tables.lookup table with
          | none => rfl
          | some info =>
            have member := HashMap.mem_entries.mp found
            rw [empty] at member
            cases member
        · rw [if_neg empty, Option.bind_some, lookup_rebuiltTables]

theorem mem_placedTables_iff {m : SchemaMap} {placed : Placed} :
    placed ∈ placedTables m ↔ stored m (placed.1, placed.2.1, placed.2.2.1) = some placed.2.2.2 := by
  obtain ⟨catalog, schemaName, table, info⟩ := placed
  simp only [mem_placedTables, stored, Option.bind_eq_some_iff]

/-- Maps of the same tables list the same tables. -/
theorem placedTables_perm {first second : SchemaMap}
    (same : ∀ place, stored first place = stored second place) :
    (placedTables first).Perm (placedTables second) := by
  refine (List.perm_ext_iff_of_nodup (placedTables_nodup first) (placedTables_nodup second)).mpr ?_
  intro placed
  rw [mem_placedTables_iff, mem_placedTables_iff, same]

/-- Both sessions have the same tables and the same views to create, or neither is started. -/
def Alike : DFResult (CatalogList × List ViewToRegister) →
    DFResult (CatalogList × List ViewToRegister) → Prop
  | .ok (made, views), .ok (made', views') =>
    (∀ place, standing made place = standing made' place) ∧ views.Perm views'
  | .error _, .error _ => True
  | _, _ => False

theorem free_of_perm {ctx : CatalogList} {first second : SchemaMap} {defaultCatalog : String}
    (perm : (placedTables first).Perm (placedTables second)) :
    Free ctx first defaultCatalog ↔ Free ctx second defaultCatalog := by
  have same : ∀ placed, placed ∈ placedTables first ↔ placed ∈ placedTables second :=
    fun placed => perm.mem_iff
  constructor
  · rintro ⟨standing, apart⟩
    simp only [same] at standing apart
    exact ⟨standing, apart⟩
  · rintro ⟨standing, apart⟩
    simp only [← same] at standing apart
    exact ⟨standing, apart⟩

theorem put_perm {κ ν : Type} [DecidableEq κ] {first second : List (κ × ν)}
    (perm : first.Perm second) (distinct : (first.map (·.1)).Nodup) (k : κ) :
    put first k = put second k := by
  have distinct' := (perm.map (·.1)).nodup_iff.mp distinct
  cases found : put first k with
  | some v => exact (put_of_mem distinct' (perm.mem_iff.mp (mem_of_put found))).symm
  | none =>
    rw [put_eq_none] at found
    refine (put_eq_none.mpr ?_).symm
    rwa [(perm.map (·.1)).mem_iff] at found

/-- Maps of the same tables are registered alike. -/
theorem alike_of_stored {first second : SchemaMap}
    (same : ∀ place, stored first place = stored second place) (ctx : CatalogList)
    (defaultCatalog : String) : Alike (registerCatalogsFromSchemas ctx first defaultCatalog)
      (registerCatalogsFromSchemas ctx second defaultCatalog) := by
  have perm := placedTables_perm same
  have free := @free_of_perm ctx _ _ defaultCatalog perm
  cases ran : registerCatalogsFromSchemas ctx first defaultCatalog with
  | ok result =>
    obtain ⟨made, views⟩ := result
    obtain ⟨fits, placed, wrote⟩ := standing_made ran
    cases ran' : registerCatalogsFromSchemas ctx second defaultCatalog with
    | ok result' =>
      obtain ⟨made', views'⟩ := result'
      obtain ⟨-, placed', wrote'⟩ := standing_made ran'
      constructor
      · intro place
        rw [placed, placed', Placing.place, Placing.place,
          put_perm (perm.filterMap _) (fits_iff_free.mpr fits).1]
      · rw [wrote, wrote']
        exact perm.filterMap _
    | error e =>
      obtain ⟨_, done⟩ := (places_catalogs defaultCatalog second).ready (ctx, [])
        (fits_iff_free.mpr (free.mp fits))
      have failed := ran'.symm.trans done
      cases failed
  | error e =>
    cases ran' : registerCatalogsFromSchemas ctx second defaultCatalog with
    | ok result' =>
      obtain ⟨_, done⟩ := (places_catalogs defaultCatalog first).ready (ctx, [])
        (fits_iff_free.mpr (free.mpr (standing_made ran').1))
      have failed := ran.symm.trans done
      cases failed
    | error e => trivial

/-- A session that starts on the embedded artifact has the tables and views of the archive the
artifact was built from. -/
theorem embedded_registered_alike {formats : Formats} {reader : YamlReader}
    {members : List (String × String)} {embedded : SchemaMap}
    (read : (buildIpcArtifact formats reader members).bind (parseSchemaIpcBytes formats) =
      some embedded) (ctx : CatalogList) (defaultCatalog : String) :
    ∃ m, parseSchemaZipReader reader members = some m ∧
      Alike (registerCatalogsFromSchemas ctx embedded defaultCatalog)
        (registerCatalogsFromSchemas ctx m defaultCatalog) := by
  rw [buildIpcArtifact, Option.bind_assoc] at read
  obtain ⟨m, parsed, read⟩ := Option.bind_eq_some_iff.mp read
  obtain ⟨-, rfl⟩ := (read_artifact m embedded).mp read
  exact ⟨m, parsed, alike_of_stored (stored_rebuilt m) ctx defaultCatalog⟩

/-! A document with one table and a schema without any. -/

def classDef : TableDef where
  tableType := none
  schema := [("oid", "int"), ("relname", "text")]
  pgTypes := none
  rows := none
  viewSql := none

def classDocument : YamlSchema :=
  AList.singleton "public" ((AList.singleton "information_schema" ∅).insert "pg_catalog"
    (AList.singleton "pg_class" classDef))

def classReader : YamlReader where
  fromStr contents := if contents = "pg_class" then some classDocument else none
  spell := ⟨fun _ => "", fun _ => ""⟩

def classMembers : List (String × String) := [("README", "none"), ("pg_class.YAML", "pg_class")]

def classTable : ParsedTable :=
  tableOf (newEmpty (tableFields classDef)) (filled_newEmpty _) none false

def classMap : SchemaMap := mergeSchemaMaps ∅ (AList.singleton "public"
  ((AList.singleton "pg_catalog" (AList.singleton "pg_class" classTable)).insert
    "information_schema" ∅))

theorem class_counts : hasExtension "pg_class.YAML" "yaml" = true := by
  have found : extension "pg_class.YAML".toList = some "YAML".toList := by decide
  rw [hasExtension, fileName_plain (by decide) (by decide), Option.bind_some, found,
    Option.any_some, String.ofList_toList, eqIgnoreAsciiCase_toList]
  decide

theorem readme_skipped : hasExtension "README" "yaml" = false := by
  have none_ : extension "README".toList = none := by decide
  rw [hasExtension, fileName_plain (by decide) (by decide), Option.bind_some, none_,
    Option.any_none]

theorem class_parsed : parseSchemaZipReader classReader classMembers = some classMap := by
  simp only [parseSchemaZipReader, classMembers, List.foldlM_cons, class_counts, readme_skipped]
  rfl

theorem class_embedded : (buildIpcArtifact plainFormats classReader classMembers).bind
    (parseSchemaIpcBytes plainFormats) = some ((placedTables classMap).foldl insertTable ∅) := by
  rw [buildIpcArtifact, class_parsed]
  refine (read_artifact classMap _).mpr ⟨?_, rfl⟩
  intro placed member
  obtain rfl : placed = ("public", "pg_catalog", "pg_class", classTable) :=
    List.mem_singleton.mp member
  exact .inr (List.cons_ne_nil _ _)

theorem class_registered_alike : ∃ m, parseSchemaZipReader classReader classMembers = some m ∧
    Alike (registerCatalogsFromSchemas ∅ ((placedTables classMap).foldl insertTable ∅) "postgres")
      (registerCatalogsFromSchemas ∅ m "postgres") :=
  embedded_registered_alike class_embedded ∅ "postgres"

end PgCatalog.Session
