import PgCatalog.Library.Regroup
import PgCatalog.Session.RowBatch

/-! The catalog as the YAML loader makes it, the zip of IPC streams it is embedded as, and the
catalog read back from those bytes. -/
namespace PgCatalog.Session

open Library

/-- A column that must not be NULL lacks no value. -/
def Filled (batch : PgCatalog.RecordBatch) : Prop :=
  ∀ pair ∈ batch.schema.zip batch.columns,
    pair.1.nullable = true ∨ ∀ cell ∈ pair.2.values, cell.isSome

/-- A table as both loaders make it: every batch is of the table's schema. -/
structure ParsedTable where
  schema : List PgCatalog.Field
  batches : List PgCatalog.RecordBatch
  viewSql : Option String
  isView : Bool
  bound : ∀ batch ∈ batches, batch.schema = schema
  filled : ∀ batch ∈ batches, Filled batch

abbrev Tables := HashMap String ParsedTable
abbrev Schemas := HashMap String Tables
abbrev SchemaMap := HashMap String Schemas

/-- What a catalog map answers: two are equal when they answer the same. -/
def contents (m : SchemaMap) : String → Option (String → Option (String → Option ParsedTable)) :=
  fun catalog => (m.lookup catalog).map fun schemas schema => (schemas.lookup schema).map fun
    tables table => tables.lookup table

/-! The YAML loader. A panic is none. -/

structure TableDef where
  tableType : Option String
  schema : List (String × String)
  pgTypes : Option (List (String × String))
  rows : Option (List JsonRow)
  viewSql : Option String

abbrev YamlSchema := HashMap String (HashMap String (HashMap String TableDef))

def systemCols : List String := ["xmin", "xmax", "ctid", "tableoid", "cmin", "cmax"]

/-- A column's type; `pg_types` is asked only for `bytea`. -/
def mappedType (def_ : TableDef) (column type : String) : String :=
  ((def_.pgTypes.bind (·.lookup column)).filter (· = "bytea")).getD type

def isSystemCatalog (def_ : TableDef) : Bool := def_.tableType = some "system_catalog"

/-- The declared columns, and of a system catalog the pseudo-columns it does not declare. -/
def tableFields (def_ : TableDef) : List PgCatalog.Field :=
  let fields := def_.schema.map fun (column, type) =>
    ⟨column, mapPgType (mappedType def_ column type), true⟩
  if isSystemCatalog def_ then
    systemCols.foldl (fun fields column =>
      if fields.any (·.name = column) then fields else fields ++ [⟨column, .int32, true⟩]) fields
  else fields

/-- A pseudo-column's value where a row has none of its own. -/
def seedRow (row : JsonRow) : JsonRow :=
  systemCols.foldl (fun row column =>
    if (row.lookup column).isSome then row else row ++ [(column, .number (.posInt 1))]) row

def newEmpty (schema : List PgCatalog.Field) : PgCatalog.RecordBatch where
  schema := schema
  columns := schema.map fun field => ⟨field.dataType, []⟩
  numRows := 0
  typed := by simp
  sized := by simp

theorem filled_of_tryNew {schema : List PgCatalog.Field} {columns : List ArrayRef}
    {batch : PgCatalog.RecordBatch}
    (built : PgCatalog.RecordBatch.tryNew schema columns = .ok batch) :
    batch.schema = schema ∧ Filled batch := by
  obtain ⟨-, declared, same, filled⟩ := tryNew_inv built
  refine ⟨declared, ?_⟩
  rw [Filled, declared, same]
  exact filled

theorem filled_newEmpty (schema : List PgCatalog.Field) : Filled (newEmpty schema) := by
  rintro ⟨field, array⟩ member
  right
  obtain ⟨field, -, rfl⟩ := List.mem_map.mp (List.of_mem_zip member).2
  intro cell held
  cases held

theorem filled_rowsToRecordBatch {spell : FloatText} {schema : List PgCatalog.Field}
    {rows : List JsonRow} {batch : PgCatalog.RecordBatch}
    (built : rowsToRecordBatch spell schema rows = .ok batch) :
    batch.schema = schema ∧ Filled batch := by
  unfold rowsToRecordBatch at built
  cases arrays : schema.mapM fun field =>
      jsonValuesToArray spell field.dataType (columnValues rows field.name) with
  | error e => rw [arrays] at built; cases built
  | ok arrays_ =>
    rw [arrays] at built
    exact filled_of_tryNew built

/-- One batch of a schema, as a table. -/
def tableOf (batch : PgCatalog.RecordBatch) (filled : Filled batch) (viewSql : Option String)
    (isView : Bool) : ParsedTable where
  schema := batch.schema
  batches := [batch]
  viewSql := viewSql
  isView := isView
  bound := by simp
  filled := by simpa using filled

def buildTable (spell : FloatText) (def_ : TableDef) : Option ParsedTable :=
  let fields := tableFields def_
  let isView := def_.tableType = some "view"
  match def_.rows with
  | some rows =>
    let rows := if isSystemCatalog def_ then rows.map seedRow else rows
    match built : rowsToRecordBatch spell fields rows with
    | .ok batch => some (tableOf batch (filled_rowsToRecordBatch built).2 def_.viewSql isView)
    | .error _ => none
  | none => some (tableOf (newEmpty fields) (filled_newEmpty fields) def_.viewSql isView)

/-- A map with every value converted; the keys stay. -/
def convertValues {ν μ : Type} (convert : ν → Option μ) (m : HashMap String ν) :
    Option (HashMap String μ) :=
  m.entries.foldlM (fun made entry => (convert entry.2).map (made.insert entry.1 ·)) ∅

def parseSchemaContents (spell : FloatText) (parsed : YamlSchema) : Option SchemaMap :=
  convertValues (convertValues (convertValues (buildTable spell))) parsed

def mergeTables (target addition : Tables) : Tables :=
  target.absorb (fun _ parsed => parsed) addition

def mergeSchemas (target addition : Schemas) : Schemas :=
  target.absorb (fun tables => mergeTables (tables.getD ∅)) addition

/-- A table of both wins from the addition. -/
def mergeSchemaMaps (target addition : SchemaMap) : SchemaMap :=
  target.absorb (fun schemas => mergeSchemas (schemas.getD ∅)) addition

/-! The artifact. -/

/-- A schema with the metadata an IPC stream carries. -/
structure Schema where
  fields : List PgCatalog.Field
  metadata : String → Option String

/-- The two formats the artifact is made of: each reads back what it wrote. -/
structure Formats where
  Bytes : Type
  stream : Schema → List PgCatalog.RecordBatch → Bytes
  readStream : Bytes → Option (Schema × List PgCatalog.RecordBatch)
  archive : List (String × Bytes) → Bytes
  entries : Bytes → Option (List (String × Bytes))
  stream_read : ∀ schema batches, (∀ batch ∈ batches, batch.schema = schema.fields) →
    readStream (stream schema batches) = some (schema, batches)
  archive_entries : ∀ files, (files.map (·.1)).Nodup → entries (archive files) = some files

def tableMetadata (catalog schemaName table : String) (parsed : ParsedTable) :
    String → Option String := fun key =>
  if key = "pgcat.catalog" then some catalog
  else if key = "pgcat.schema" then some schemaName
  else if key = "pgcat.table" then some table
  else if key = "pgcat.is_view" then some (if parsed.isView then "1" else "0")
  else if key = "pgcat.view_sql" then parsed.viewSql
  else none

/-- A batch's columns under another schema. -/
def rebind (schema : List PgCatalog.Field) (batch : PgCatalog.RecordBatch) :
    Option PgCatalog.RecordBatch :=
  match PgCatalog.RecordBatch.tryNew schema batch.columns with
  | .ok rebound => some rebound
  | .error _ => none

/-- Where a table stands, and the table. -/
abbrev Placed := String × String × String × ParsedTable

/-- All tables in the order of the maps' iteration. -/
def placedTables (schemas : SchemaMap) : List Placed :=
  schemas.parts fun schemas => schemas.parts fun tables => tables.entries.map fun entry =>
    (entry.1, entry.2)

def writeTable (formats : Formats) : Placed → Option formats.Bytes
  | (catalog, schemaName, table, parsed) => do
    let metaSchema : Schema := ⟨parsed.schema, tableMetadata catalog schemaName table parsed⟩
    let rebound ← parsed.batches.mapM (rebind metaSchema.fields)
    return formats.stream metaSchema rebound

/-- The name of an entry: its number on five digits at least. -/
def entryName (idx : ℕ) : String :=
  let digits := Nat.toDigits 10 idx
  String.ofList (List.replicate (5 - digits.length) '0' ++ digits ++ ".arrow".toList)

/-- The archive refuses a second entry of a name. -/
def schemasToIpcZip (formats : Formats) (schemas : SchemaMap) : Option formats.Bytes := do
  let files ← (placedTables schemas).zipIdx.mapM fun (placed, idx) => do
    let buf ← writeTable formats placed
    return (entryName idx, buf)
  if (files.map (·.1)).Nodup then return formats.archive files else none

/-- The last component of a path, unless it is a directory's. -/
def fileName (path : List Char) : Option (List Char) :=
  match ((path.splitOn '/').filter fun part => part ≠ [] ∧ part ≠ ['.']).getLast? with
  | some ['.', '.'] => none
  | found => found

/-- What follows a file name's last dot; a name that starts with its only dot has none. -/
def extension (file : List Char) : Option (List Char) :=
  let after := (file.reverse.takeWhile (· ≠ '.')).reverse
  let before := (file.reverse.dropWhile (· ≠ '.')).drop 1
  if before = [] then none else some after

def hasExtension (entryName expected : String) : Bool :=
  ((fileName entryName.toList).bind extension).any fun found =>
    eqIgnoreAsciiCase (String.ofList found) expected

theorem rebind_eq_some {schema : List PgCatalog.Field} {batch rebound : PgCatalog.RecordBatch} :
    rebind schema batch = some rebound ↔
      PgCatalog.RecordBatch.tryNew schema batch.columns = .ok rebound := by
  unfold rebind
  cases PgCatalog.RecordBatch.tryNew schema batch.columns <;> simp

theorem rebound_sound {schema : List PgCatalog.Field} {batches rebound : List PgCatalog.RecordBatch}
    (all : batches.mapM (rebind schema) = some rebound) :
    ∀ batch ∈ rebound, batch.schema = schema ∧ Filled batch := by
  induction batches generalizing rebound with
  | nil =>
    obtain rfl := Option.some.inj all
    intro batch member
    cases member
  | cons first rest ih =>
    simp only [List.mapM_cons, Option.bind_eq_bind, Option.bind_eq_some_iff] at all
    obtain ⟨batch, built, later, rest, same⟩ := all
    obtain rfl := Option.some.inj same
    intro other member
    obtain rfl | inside := List.mem_cons.mp member
    · exact filled_of_tryNew (rebind_eq_some.mp built)
    · exact ih rest other inside

/-- One stream as a table, and its place from the stream's metadata. -/
def readTable (formats : Formats) (buf : formats.Bytes) : Option Placed := do
  let (mdSchema, streamed) ← formats.readStream buf
  let catalog ← mdSchema.metadata "pgcat.catalog"
  let schemaName ← mdSchema.metadata "pgcat.schema"
  let table ← mdSchema.metadata "pgcat.table"
  let isView := (mdSchema.metadata "pgcat.is_view").any (· = "1")
  let viewSql := mdSchema.metadata "pgcat.view_sql"
  match all : streamed.mapM (rebind mdSchema.fields) with
  | some batches => some (catalog, schemaName, table, ⟨mdSchema.fields, batches, viewSql, isView,
      fun batch member => (rebound_sound all batch member).1,
      fun batch member => (rebound_sound all batch member).2⟩)
  | none => none

/-- Puts a table where it stands, under new levels where they are missing. -/
def insertTable (all : SchemaMap) : Placed → SchemaMap
  | (catalog, schemaName, table, parsed) =>
    all.alter catalog fun schemas =>
      (schemas.getD ∅).alter schemaName fun tables => (tables.getD ∅).insert table parsed

def parseSchemaIpcBytes (formats : Formats) (bytes : formats.Bytes) : Option SchemaMap := do
  let entries ← formats.entries bytes
  entries.foldlM (fun all (name, buf) =>
    if hasExtension name "arrow" then (readTable formats buf).map (insertTable all) else some all) ∅

theorem columns_length (batch : PgCatalog.RecordBatch) :
    batch.columns.length = batch.schema.length := by
  simpa using congrArg List.length batch.typed

/-- A batch with a column is rebuilt from its columns. -/
theorem rebind_same (batch : PgCatalog.RecordBatch) (some_ : batch.schema ≠ [])
    (filled : Filled batch) : rebind batch.schema batch = some batch := by
  have lengths := columns_length batch
  obtain ⟨schema, columns, numRows, typed, sized⟩ := batch
  rw [rebind_eq_some]
  cases columns with
  | nil => exact absurd (List.length_eq_zero_iff.mp lengths.symm) some_
  | cons first rest =>
    obtain rfl := sized first List.mem_cons_self
    unfold PgCatalog.RecordBatch.tryNew
    dsimp only
    rw [dif_pos typed, dif_pos sized, if_pos]
    rw [List.all_eq_true]
    intro pair member
    simpa [List.all_eq_true] using filled pair member

/-- Without columns the rebuilt batch would not know its rows. -/
theorem rebind_no_columns (batch : PgCatalog.RecordBatch) (none_ : batch.schema = []) :
    rebind batch.schema batch = none := by
  have lengths := columns_length batch
  rw [none_] at lengths
  have columns : batch.columns = [] := List.length_eq_zero_iff.mp lengths
  unfold rebind
  rw [columns]
  rfl

theorem rebind_all {parsed : ParsedTable} (writable : parsed.batches = [] ∨ parsed.schema ≠ []) :
    parsed.batches.mapM (rebind parsed.schema) = some parsed.batches := by
  have each : ∀ batch ∈ parsed.batches, rebind parsed.schema batch = some batch := by
    intro batch member
    rw [← parsed.bound batch member]
    refine rebind_same batch ?_ (parsed.filled batch member)
    rw [parsed.bound batch member]
    exact writable.resolve_left (List.ne_nil_of_mem member)
  generalize parsed.batches = batches at each
  induction batches with
  | nil => rfl
  | cons first rest ih =>
    rw [List.mapM_cons, each first List.mem_cons_self,
      ih fun batch member => each batch (List.mem_cons_of_mem _ member)]
    rfl

/-- A table is written exactly when it has no batch or a column. -/
theorem writeTable_ok (formats : Formats) (catalog schemaName table : String)
    {parsed : ParsedTable} (writable : parsed.batches = [] ∨ parsed.schema ≠ []) :
    writeTable formats (catalog, schemaName, table, parsed) =
      some (formats.stream ⟨parsed.schema, tableMetadata catalog schemaName table parsed⟩
        parsed.batches) := by
  simp only [writeTable, rebind_all writable]
  rfl

theorem writable_of_writeTable {formats : Formats} {catalog schemaName table : String}
    {parsed : ParsedTable} {buf : formats.Bytes}
    (written : writeTable formats (catalog, schemaName, table, parsed) = some buf) :
    parsed.batches = [] ∨ parsed.schema ≠ [] := by
  by_contra unwritable
  rw [not_or, not_not] at unwritable
  obtain ⟨first, rest, batches⟩ := List.exists_cons_of_ne_nil unwritable.1
  have declared := parsed.bound first (by simp [batches])
  have refused := rebind_no_columns first (declared.trans unwritable.2)
  rw [declared] at refused
  simp [writeTable, batches, refused] at written

/-- A table that was written is read back, with its place. -/
theorem readTable_written {formats : Formats} {placed : Placed} {buf : formats.Bytes}
    (written : writeTable formats placed = some buf) : readTable formats buf = some placed := by
  obtain ⟨catalog, schemaName, table, parsed⟩ := placed
  have writable := writable_of_writeTable written
  rw [writeTable_ok formats catalog schemaName table writable] at written
  obtain rfl := Option.some.inj written
  have read := formats.stream_read ⟨parsed.schema, tableMetadata catalog schemaName table parsed⟩
    parsed.batches parsed.bound
  have rebound := rebind_all writable
  unfold readTable
  rw [read]
  simp only [tableMetadata, if_true, if_false, String.reduceEq, Option.bind_eq_bind,
    Option.bind_some]
  split
  · next batches all =>
    rw [rebound] at all
    obtain rfl := Option.some.inj all
    obtain ⟨schema, batches, viewSql, isView, bound, filled⟩ := parsed
    cases isView <;> rfl
  · next all =>
    rw [rebound] at all
    cases all

/-! The entries' names. -/

theorem entryName_toList (idx : ℕ) : (entryName idx).toList =
    (List.replicate (5 - (Nat.toDigits 10 idx).length) '0' ++ Nat.toDigits 10 idx) ++
      ".arrow".toList := by
  simp [entryName]

/-- Leading zeros do not change the number. -/
theorem ofDigitChars_zeros (n : ℕ) (digits : List Char) :
    Nat.ofDigitChars 10 (List.replicate n '0' ++ digits) 0 = Nat.ofDigitChars 10 digits 0 := by
  induction n with
  | zero => rfl
  | succ n ih => exact ih

theorem entryName_injective {i j : ℕ} (same : entryName i = entryName j) : i = j := by
  have texts := congrArg String.toList same
  rw [entryName_toList, entryName_toList] at texts
  have digits := congrArg (Nat.ofDigitChars 10 · 0) (List.append_cancel_right texts)
  simpa only [ofDigitChars_zeros, Nat.ofDigitChars_ten_toDigits] using digits

theorem entryName_digits (idx : ℕ) : ∀ c ∈
    List.replicate (5 - (Nat.toDigits 10 idx).length) '0' ++ Nat.toDigits 10 idx,
    c.isDigit = true := by
  intro c member
  obtain padding | digit := List.mem_append.mp member
  · rw [List.eq_of_mem_replicate padding]
    rfl
  · exact Nat.isDigit_of_mem_toDigits (by decide) (by decide) digit

theorem fileName_plain {name : List Char} (plain : '/' ∉ name) (long : 2 < name.length) :
    fileName name = some name := by
  have one : name.splitOn '/' = [name] := List.splitOn_eq_singleton plain
  have some_ : name ≠ [] := by
    rintro rfl
    simp at long
  have dot : name ≠ ['.'] := by
    rintro rfl
    simp at long
  simp only [fileName, one, List.filter_cons, List.filter_nil, some_, dot, ne_eq,
    not_false_eq_true, and_self, decide_true, if_true, List.getLast?_singleton]
  split
  · next dots =>
    obtain rfl := Option.some.inj dots
    simp at long
  · rfl

/-- A name of digits and a suffix has that suffix for its extension. -/
theorem hasExtension_entryName (idx : ℕ) : hasExtension (entryName idx) "arrow" = true := by
  have digits := entryName_digits idx
  have some_ : List.replicate (5 - (Nat.toDigits 10 idx).length) '0' ++ Nat.toDigits 10 idx ≠ [] := by
    simp [Nat.toDigits_ne_nil]
  rw [hasExtension, entryName_toList]
  generalize List.replicate (5 - (Nat.toDigits 10 idx).length) '0' ++ Nat.toDigits 10 idx = stem
    at digits some_
  have plain : '/' ∉ stem ++ ".arrow".toList := by
    intro member
    obtain digit | suffix := List.mem_append.mp member
    · exact absurd (digits _ digit) (by decide)
    · exact absurd suffix (by decide)
  have ends : extension (stem ++ ".arrow".toList) = some "arrow".toList := by
    simp [extension, some_]
  rw [fileName_plain plain (by simp), Option.bind_some, ends, Option.any_some, String.ofList_toList]
  exact decide_eq_true rfl

/-! The whole archive. -/

section
variable {formats : Formats} {m : SchemaMap}

/-- A table can be written: it has no batch or a column. -/
def Writable (placed : Placed) : Prop := placed.2.2.2.batches = [] ∨ placed.2.2.2.schema ≠ []

variable (formats) in
theorem written_of_writable {placed : Placed} (writable : Writable placed) :
    ∃ buf, writeTable formats placed = some buf :=
  ⟨_, writeTable_ok formats placed.1 placed.2.1 placed.2.2.1 writable⟩

def writeEntry (formats : Formats) (entry : Placed × ℕ) : Option (String × formats.Bytes) := do
  let buf ← writeTable formats entry.1
  return (entryName entry.2, buf)

/-- The files of a list of tables, numbered from `start` on. -/
def FilesFrom (formats : Formats) (start : ℕ) (all : List Placed)
    (files : List (String × formats.Bytes)) : Prop :=
  (all.zipIdx start).mapM (writeEntry formats) = some files

theorem filesFrom_cons {start : ℕ} {placed : Placed} {rest : List Placed}
    {files : List (String × formats.Bytes)} :
    FilesFrom formats start (placed :: rest) files ↔
      ∃ buf later, writeTable formats placed = some buf ∧ FilesFrom formats (start + 1) rest later ∧
        files = (entryName start, buf) :: later := by
  simp only [FilesFrom, List.zipIdx_cons, List.mapM_cons, writeEntry, Option.bind_eq_bind,
    Option.bind_eq_some_iff, Option.pure_def, Option.some.injEq]
  constructor
  · rintro ⟨_, ⟨buf, written, rfl⟩, later, all, rfl⟩
    exact ⟨buf, later, written, all, rfl⟩
  · rintro ⟨buf, later, written, all, rfl⟩
    exact ⟨_, ⟨buf, written, rfl⟩, later, all, rfl⟩

variable (formats) in
theorem filesFrom_of_writable (start : ℕ) {all : List Placed}
    (writable : ∀ placed ∈ all, Writable placed) : ∃ files, FilesFrom formats start all files := by
  induction all generalizing start with
  | nil => exact ⟨[], rfl⟩
  | cons placed rest ih =>
    obtain ⟨buf, written⟩ := written_of_writable formats (writable placed List.mem_cons_self)
    obtain ⟨later, files⟩ := ih (start + 1) fun other member =>
      writable other (List.mem_cons_of_mem _ member)
    exact ⟨_, filesFrom_cons.mpr ⟨buf, later, written, files, rfl⟩⟩

theorem writable_of_filesFrom {start : ℕ} {all : List Placed} {files : List (String × formats.Bytes)}
    (made : FilesFrom formats start all files) : ∀ placed ∈ all, Writable placed := by
  induction all generalizing start files with
  | nil =>
    intro placed member
    cases member
  | cons placed rest ih =>
    obtain ⟨buf, later, written, files, rfl⟩ := filesFrom_cons.mp made
    intro other member
    obtain rfl | inside := List.mem_cons.mp member
    · exact writable_of_writeTable written
    · exact ih files other inside

theorem filesFrom_names {start : ℕ} {all : List Placed} {files : List (String × formats.Bytes)}
    (made : FilesFrom formats start all files) :
    files.map (·.1) = (List.range' start all.length).map entryName := by
  induction all generalizing start files with
  | nil =>
    obtain rfl := Option.some.inj made
    rfl
  | cons placed rest ih =>
    obtain ⟨buf, later, written, files, rfl⟩ := filesFrom_cons.mp made
    simp [List.range'_succ, ih files]

theorem filesFrom_nodup {start : ℕ} {all : List Placed} {files : List (String × formats.Bytes)}
    (made : FilesFrom formats start all files) : (files.map (·.1)).Nodup := by
  rw [filesFrom_names made]
  exact List.Nodup.map (fun i j => entryName_injective) List.nodup_range'

/-- Reading the files inserts the tables in their order. -/
theorem foldlM_files {start : ℕ} {all : List Placed} {files : List (String × formats.Bytes)}
    (made : FilesFrom formats start all files) (m : SchemaMap) :
    files.foldlM (fun all (file : String × formats.Bytes) =>
      if hasExtension file.1 "arrow" then (readTable formats file.2).map (insertTable all)
      else some all) m = some (all.foldl insertTable m) := by
  induction all generalizing start files m with
  | nil =>
    obtain rfl := Option.some.inj made
    rfl
  | cons placed rest ih =>
    obtain ⟨buf, later, written, files, rfl⟩ := filesFrom_cons.mp made
    simp only [List.foldlM_cons, hasExtension_entryName, if_true, readTable_written written,
      Option.map_some, Option.bind_eq_bind, Option.bind_some]
    exact ih files (insertTable m placed)

/-- The artifact can be written exactly when every table can, and what it is read back as. -/
theorem read_artifact (m m' : SchemaMap) :
    (schemasToIpcZip formats m).bind (parseSchemaIpcBytes formats) = some m' ↔
      (∀ placed ∈ placedTables m, Writable placed) ∧
        m' = (placedTables m).foldl insertTable ∅ := by
  have zipped : ∀ files, FilesFrom formats 0 (placedTables m) files →
      (schemasToIpcZip formats m).bind (parseSchemaIpcBytes formats) =
        some ((placedTables m).foldl insertTable ∅) := by
    intro files made
    have distinct := filesFrom_nodup made
    have archived : schemasToIpcZip formats m = some (formats.archive files) := by
      change ((placedTables m).zipIdx.mapM (writeEntry formats)).bind _ = _
      rw [made, Option.bind_some, if_pos distinct]
      rfl
    rw [archived, Option.bind_some, parseSchemaIpcBytes, formats.archive_entries files distinct]
    exact foldlM_files made ∅
  constructor
  · intro read
    obtain ⟨bytes, archived, -⟩ := Option.bind_eq_some_iff.mp read
    change ((placedTables m).zipIdx.mapM (writeEntry formats)).bind _ = _ at archived
    obtain ⟨files, made, -⟩ := Option.bind_eq_some_iff.mp archived
    exact ⟨writable_of_filesFrom made, Option.some.inj (read.symm.trans (zipped files made))⟩
  · rintro ⟨writable, rfl⟩
    obtain ⟨files, made⟩ := filesFrom_of_writable formats 0 writable
    exact zipped files made

/-! What the insertions rebuild, level by level. -/

/-- A map of tables inserted entry by entry into an empty one. -/
def rebuiltTables (tables : Tables) : Tables := mergeTables ∅ tables

def insertInSchemas (schemas : Schemas) (entry : String × String × ParsedTable) : Schemas :=
  schemas.alter entry.1 fun tables => (tables.getD ∅).insert entry.2.1 entry.2.2

def placedInSchemas (schemas : Schemas) : List (String × String × ParsedTable) :=
  schemas.parts fun tables => tables.entries.map fun entry => (entry.1, entry.2)

def rebuiltSchemas (schemas : Schemas) : Schemas :=
  (placedInSchemas schemas).foldl insertInSchemas ∅

theorem lookup_rebuiltTables (tables : Tables) (table : String) :
    (rebuiltTables tables).lookup table = tables.lookup table := by
  rw [rebuiltTables, mergeTables, HashMap.lookup_absorb]
  cases tables.lookup table <;> rfl

theorem lookup_rebuiltSchemas (schemas : Schemas) (name : String) :
    (rebuiltSchemas schemas).lookup name = (schemas.lookup name).bind fun tables =>
      if tables.entries = [] then none else some (rebuiltTables tables) := by
  have regrouped := schemas.lookup_regroup_parts
    (fun (tables : Option Tables) entry => (tables.getD ∅).insert entry.1 entry.2)
    (fun tables => tables.entries.map fun entry => (entry.1, entry.2)) name
  refine regrouped.trans ?_
  congr 1
  funext tables
  rw [HashMap.foldl_default ∅ fun (made : Tables) (entry : String × ParsedTable) =>
    made.insert entry.1 entry.2, List.foldl_map]
  simp only [List.map_eq_nil_iff]
  rfl

theorem lookup_rebuilt (m : SchemaMap) (catalog : String) :
    ((placedTables m).foldl insertTable ∅).lookup catalog = (m.lookup catalog).bind fun schemas =>
      if placedInSchemas schemas = [] then none else some (rebuiltSchemas schemas) := by
  have regrouped := m.lookup_regroup_parts
    (fun schemas entry => insertInSchemas (schemas.getD ∅) entry) placedInSchemas catalog
  refine regrouped.trans ?_
  congr 1
  funext schemas
  rw [HashMap.foldl_default ∅ insertInSchemas]
  rfl

theorem mem_placedTables {m : SchemaMap} {catalog schemaName table : String}
    {parsed : ParsedTable} : (catalog, schemaName, table, parsed) ∈ placedTables m ↔
      ∃ schemas, m.lookup catalog = some schemas ∧ ∃ tables,
        schemas.lookup schemaName = some tables ∧ tables.lookup table = some parsed := by
  simp only [placedTables, HashMap.mem_parts, List.mem_map, Prod.mk.injEq]
  constructor
  · rintro ⟨schemas, here, tables, there, ⟨_, _⟩, member, rfl, rfl⟩
    exact ⟨schemas, here, tables, there, HashMap.mem_entries.mpr member⟩
  · rintro ⟨schemas, here, tables, there, found⟩
    exact ⟨schemas, here, tables, there, _, HashMap.mem_entries.mp found, rfl, rfl⟩

/-- No table stands in the schemas exactly if none of them has one. -/
theorem placedInSchemas_eq_nil {schemas : Schemas} : placedInSchemas schemas = [] ↔
    ∀ name tables, schemas.lookup name = some tables → tables.entries = [] := by
  simp only [placedInSchemas, HashMap.parts_eq_nil, List.map_eq_nil_iff]

/-- The artifact is read back as a map that answers what the first one did. -/
def Restored (formats : Formats) (m : SchemaMap) : Prop :=
  ∃ m', (schemasToIpcZip formats m).bind (parseSchemaIpcBytes formats) = some m' ∧
    contents m' = contents m

/-- No level is empty, and no table has a batch without columns. -/
def Restorable (m : SchemaMap) : Prop :=
  ∀ catalog schemas, m.lookup catalog = some schemas →
    schemas.entries ≠ [] ∧ ∀ name tables, schemas.lookup name = some tables →
      tables.entries ≠ [] ∧ ∀ table parsed, tables.lookup table = some parsed →
        parsed.batches = [] ∨ parsed.schema ≠ []

/-- The artifact's map is the one the insertions rebuild. -/
theorem restored_iff_rebuilt {formats : Formats} {m : SchemaMap} : Restored formats m ↔
    (∀ placed ∈ placedTables m, Writable placed) ∧
      contents ((placedTables m).foldl insertTable ∅) = contents m := by
  simp only [Restored, read_artifact]
  constructor
  · rintro ⟨_, ⟨writable, rfl⟩, same⟩
    exact ⟨writable, same⟩
  · rintro ⟨writable, same⟩
    exact ⟨_, ⟨writable, rfl⟩, same⟩

theorem restorable_of_restored {formats : Formats} {m : SchemaMap} (restored : Restored formats m) :
    Restorable m := by
  obtain ⟨writable, same⟩ := restored_iff_rebuilt.mp restored
  intro catalog schemas here
  have at_catalog := congrFun same catalog
  simp only [contents, lookup_rebuilt, here, Option.bind_some, Option.map_some] at at_catalog
  split at at_catalog
  · cases at_catalog
  · next some_ =>
    simp only [Option.map_some, Option.some.injEq] at at_catalog
    refine ⟨fun none_ => some_ (by simp [placedInSchemas, HashMap.parts, none_]), ?_⟩
    intro name tables there
    have at_schema := congrFun at_catalog name
    simp only [lookup_rebuiltSchemas, there, Option.bind_some, Option.map_some] at at_schema
    split at at_schema
    · cases at_schema
    · next some_ =>
      refine ⟨some_, fun table parsed found => ?_⟩
      exact writable _ (mem_placedTables.mpr ⟨schemas, here, tables, there, found⟩)

theorem contents_rebuilt {m : SchemaMap} (restorable : Restorable m) :
    contents ((placedTables m).foldl insertTable ∅) = contents m := by
  funext catalog
  simp only [contents, lookup_rebuilt]
  cases here : m.lookup catalog with
  | none => rfl
  | some schemas =>
    obtain ⟨some_, each⟩ := restorable catalog schemas here
    have placed : placedInSchemas schemas ≠ [] := by
      obtain ⟨name, tables, there⟩ := HashMap.entries_ne_nil.mp some_
      intro none_
      exact (each name tables there).1 (placedInSchemas_eq_nil.mp none_ name tables there)
    simp only [Option.bind_some, placed, if_false, Option.map_some, Option.some.injEq]
    funext name
    rw [lookup_rebuiltSchemas]
    cases there : schemas.lookup name with
    | none => rfl
    | some tables =>
      simp only [Option.bind_some, (each name tables there).1, if_false, Option.map_some]
      congr 1
      funext table
      exact lookup_rebuiltTables tables table

/-- A catalog map survives its artifact exactly if it is restorable, in whatever order its maps
are iterated. -/
theorem artifact_restored_iff (formats : Formats) (m : SchemaMap) : Restored formats m ↔ Restorable m := by
  constructor
  · exact restorable_of_restored
  · intro restorable
    refine restored_iff_rebuilt.mpr ⟨?_, contents_rebuilt restorable⟩
    rintro ⟨catalog, schemaName, table, parsed⟩ member
    obtain ⟨schemas, here, tables, there, found⟩ := mem_placedTables.mp member
    exact ((restorable catalog schemas here).2 schemaName tables there).2 table parsed found

/-! Merged documents. -/

/-- Two restorable maps merge into one. -/
theorem restorable_mergeSchemaMaps {target addition : SchemaMap} (first : Restorable target)
    (second : Restorable addition) : Restorable (mergeSchemaMaps target addition) := by
  intro catalog schemas here
  obtain old | ⟨added, new, rfl⟩ := HashMap.lookup_absorb_cases here
  · exact first catalog schemas old
  obtain ⟨some_, each⟩ := second catalog added new
  refine ⟨HashMap.absorb_ne_nil (.inr some_), ?_⟩
  intro name tables there
  obtain old | ⟨added', new', rfl⟩ := HashMap.lookup_absorb_cases there
  · cases known : target.lookup catalog with
    | none => simp [known] at old
    | some kept =>
      rw [known] at old
      exact (first catalog kept known).2 name tables old
  obtain ⟨some', tables'⟩ := each name added' new'
  refine ⟨HashMap.absorb_ne_nil (.inr some'), ?_⟩
  intro table parsed inside
  obtain old | ⟨parsed, new, rfl⟩ := HashMap.lookup_absorb_cases inside
  · cases known : target.lookup catalog with
    | none => simp [known] at old
    | some kept =>
      simp only [known, Option.getD_some] at old
      cases known' : kept.lookup name with
      | none => simp [known'] at old
      | some tables =>
        rw [known'] at old
        exact ((first catalog kept known).2 name tables known').2 table parsed old
  · exact tables' table _ new

/-! Formats whose bytes are what was written. -/

inductive Blob where
  | stream (schema : Schema) (batches : List PgCatalog.RecordBatch)
  | archive (files : List (String × Blob))

def plainFormats : Formats where
  Bytes := Blob
  stream := .stream
  readStream
    | .stream schema batches => some (schema, batches)
    | .archive _ => none
  archive := .archive
  entries
    | .archive files => some files
    | .stream .. => none
  stream_read := fun _ _ _ => rfl
  archive_entries := fun _ _ => rfl

/-- A catalog declared without schemas is not in the artifact. -/
theorem empty_catalog_lost : ¬ ∀ (formats : Formats) (spell : FloatText) (document : YamlSchema)
    (m : SchemaMap), parseSchemaContents spell document = some m → Restored formats m := by
  intro restored
  have kept := restored plainFormats ⟨fun _ => "", fun _ => ""⟩ (AList.singleton "postgres" ∅)
    (AList.singleton "postgres" ∅) rfl
  exact (restorable_of_restored kept "postgres" ∅ rfl).1 rfl

end

end PgCatalog.Session
