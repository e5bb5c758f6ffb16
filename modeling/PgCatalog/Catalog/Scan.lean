import PgCatalog.Catalog.Arrow
import PgCatalog.Catalog.Keys

/-! The merge of a scan: built-in batches without the rows that a user row shadows, and
the user rows behind them as one batch. -/
namespace PgCatalog

open Library

/-- The columns that decide which built-in rows a user row replaces. -/
def CatalogTable.builtinShadowKeyColumns : CatalogTable → List String
  | .pgNamespace => ["nspname"]
  | table => table.keyColumns

/-- A sentinel no user key can match. -/
def UNMATCHABLE_KEY : String := "\x00UNMATCHABLE\x00"

def Cell.keyComponent : Cell → String
  | ⟨_, none⟩ => NULL_KEY
  | ⟨.int32, some n⟩ => toString n.toInt
  | ⟨.int64, some n⟩ => toString n.toInt
  | ⟨.utf8, some s⟩ | ⟨.largeUtf8, some s⟩ | ⟨.utf8View, some s⟩ => s
  | _ => UNMATCHABLE_KEY

def arrayKeyComponent (array : ArrayRef) (i : Nat) : String := (array.cell i).keyComponent

/-- The elements at the places marked true. -/
def selected {α : Type} (keep : List Bool) (xs : List α) : List α :=
  (xs.zip keep).filterMap fun p => if p.2 then some p.1 else none

theorem selected_map {α β : Type} (f : α → β) (keep : List Bool) (xs : List α) :
    selected keep (xs.map f) = (selected keep xs).map f := by
  induction xs generalizing keep with
  | nil => rfl
  | cons x rest ih =>
    cases keep with
    | nil => rfl
    | cons kept keep =>
      have later := ih keep
      unfold selected at later ⊢
      cases kept with
      | false => exact later
      | true => exact congrArg (f x :: ·) later

/-- Marks made from the elements themselves select as a filter does. -/
theorem selected_marks {α : Type} (mark : α → Bool) (xs : List α) :
    selected (xs.map mark) xs = xs.filter mark := by
  induction xs with
  | nil => rfl
  | cons x rest ih =>
    unfold selected at ih ⊢
    rw [List.map_cons, List.zip_cons_cons, List.filterMap_cons, List.filter_cons, ih]
    cases mark x <;> rfl

theorem range_map_getD {α : Type} (xs : List α) (fallback : α) :
    (List.range xs.length).map (xs.getD · fallback) = xs := by
  apply List.ext_getElem
  · rw [List.length_map, List.length_range]
  · intro i low high
    rw [List.getElem_map, List.getElem_range, List.getD_eq_getElem _ _ high]

theorem selected_length {α : Type} (keep : List Bool) (xs : List α) :
    (selected keep xs).length = (selected keep (List.range xs.length)).length := by
  cases xs with
  | nil => rfl
  | cons x rest =>
    have places := range_map_getD (x :: rest) x
    conv_lhs => rw [← places, selected_map, List.length_map]

def filterRecordBatch (batch : RecordBatch) (keep : List Bool) : RecordBatch where
  schema := batch.schema
  columns := batch.columns.map fun array => ⟨array.dataType, selected keep array.values⟩
  numRows := (selected keep (List.range batch.numRows)).length
  typed := by
    rw [List.map_map]
    exact batch.typed
  sized := by
    intro array member
    obtain ⟨before, inside, rfl⟩ := List.mem_map.mp member
    rw [selected_length, batch.sized before inside]

/-- The array of a position, in range in a batch of the schema that was asked. -/
def RecordBatch.column (batch : RecordBatch) (i : Nat) : ArrayRef :=
  batch.columns.getD i ⟨.other "", []⟩

def dropBuiltinRowsShadowedByUsers (batch : RecordBatch) (schema : List Field)
    (keyCols : List String) (userKeys : List (List String)) : DFResult RecordBatch :=
  if userKeys.isEmpty then .ok batch
  else do
    let keyArrays ← keyCols.mapM fun column => do
      let i ← indexOf schema column
      return batch.column i
    let keep := (List.range batch.numRows).map fun i =>
      !(userKeys.contains (keyArrays.map (arrayKeyComponent · i)))
    return filterRecordBatch batch keep

/-- The type the checked-in data declares for a key column: numbers are `int`, names `varchar`. -/
def keyColumnType (column : String) : DataType :=
  if column ∈ ["oid", "relnamespace", "typnamespace", "attrelid", "indexrelid", "adrelid", "adnum"]
  then .int32 else .utf8

/-- One catalog table: what its loaded provider held when it was replaced, and the source. -/
structure LazyCatalogTableProvider where
  table : CatalogTable
  schema : List Field
  builtinBatches : List RecordBatch
  source : LazyCatalogSource
  database : String
  loaded : ∀ field ∈ schema, field.nullable = true ∧ ∃ pgType, field.dataType = mapPgType pgType
  named : (schema.map (·.name)).Nodup
  keyed : ∀ column ∈ table.keyColumns ++ table.builtinShadowKeyColumns,
    ∃ field ∈ schema, field.name = column ∧ field.dataType = keyColumnType column
  captured : ∀ batch ∈ builtinBatches, batch.schema = schema

namespace LazyCatalogTableProvider

/-- The batches a scan serves. -/
def scan (p : LazyCatalogTableProvider) : DFResult (List RecordBatch) := do
  let userRows ← buildRowsFor p.table p.source p.database
  let _ ← collectUserKeys p.table userRows []
  let userBatch ← rowsToRecordBatch p.schema userRows
  let shadowCols := p.table.builtinShadowKeyColumns
  let shadowKeys := userRows.map (userRowKey · shadowCols)
  let batches ← p.builtinBatches.mapM fun builtin =>
    dropBuiltinRowsShadowedByUsers builtin p.schema shadowCols shadowKeys
  return batches ++ [userBatch]

/-- The built-in rows, batch after batch. -/
def builtinRows (p : LazyCatalogTableProvider) : List (List Cell) :=
  p.builtinBatches.flatMap (·.rows)

/-- The cell of a table row in a column. -/
def cellAt (schema : List Field) (row : List Cell) (column : String) : Cell :=
  row.getD (schema.findIdx (·.name = column)) ⟨.other "", none⟩

/-- The cells that decide what a row is shadowed by. -/
def keyCells (p : LazyCatalogTableProvider) (row : List Cell) : List Cell :=
  p.table.builtinShadowKeyColumns.map (cellAt p.schema row)

def shadowKey (p : LazyCatalogTableProvider) (row : List Cell) : List String :=
  (p.keyCells row).map (·.keyComponent)

end LazyCatalogTableProvider

/-- The cell a row becomes in a field, as it would alone. -/
def Field.cell (field : Field) (row : Row) : Cell :=
  match jsonValuesToArray field.dataType [row.value field.name] with
  | .ok array => array.cell 0
  | .error _ => ⟨field.dataType, none⟩

namespace LazyCatalogTableProvider

/-- A user row as the table holds it. -/
def userCells (p : LazyCatalogTableProvider) (row : Row) : List Cell := p.schema.map (·.cell row)

/-- What a scan must serve for these user rows. -/
structure Merges (p : LazyCatalogTableProvider) (userRows : List Row) (out : List RecordBatch) :
    Prop where
  rows : out.flatMap (·.rows) =
    (p.builtinRows.filter fun row =>
      p.shadowKey row ∉ userRows.map fun user => p.shadowKey (p.userCells user)) ++
      userRows.map p.userCells
  apart : ((out.flatMap (·.rows)).map p.shadowKey).Nodup
  unchanged : userRows = [] → ∃ empty, out = p.builtinBatches ++ [empty] ∧ empty.rows = []
  agree : ∀ user ∈ userRows, p.shadowKey (p.userCells user) =
    userRowKey user p.table.builtinShadowKeyColumns
  /-- Where a built-in row has its key, text decides as the cells themselves would. -/
  replaced : ∀ row ∈ p.builtinRows, (∀ cell ∈ p.keyCells row, cell.value.isSome) →
    ∀ user ∈ userRows, p.shadowKey row = p.shadowKey (p.userCells user) ↔
      p.keyCells row = p.keyCells (p.userCells user)

end LazyCatalogTableProvider

section
variable {batch : RecordBatch} {schema : List Field}

theorem filterRecordBatch_rows (batch : RecordBatch) (keep : List Bool) :
    (filterRecordBatch batch keep).rows = selected keep batch.rows := by
  have places := range_map_getD (selected keep (List.range batch.numRows)) 0
  unfold RecordBatch.rows filterRecordBatch
  rw [selected_map]
  dsimp only
  conv_rhs => rw [← places, List.map_map]
  refine List.map_congr_left fun j inside => ?_
  rw [Function.comp_apply, List.map_map]
  refine List.map_congr_left fun array member => ?_
  have values := range_map_getD array.values none
  rw [batch.sized array member] at values
  have low := List.mem_range.mp inside
  unfold Function.comp ArrayRef.cell
  refine congrArg (Cell.mk array.dataType) ?_
  dsimp only
  conv_lhs => rw [← values, selected_map]
  rw [List.getD_eq_getElem _ _ (by rwa [List.length_map]), List.getElem_map,
    List.getD_eq_getElem _ _ low]

theorem indexOf_ok {column : String} (known : ∃ field ∈ schema, field.name = column) :
    indexOf schema column = .ok (schema.findIdx (·.name = column)) ∧
      schema.findIdx (·.name = column) < schema.length := by
  obtain ⟨field, member, named⟩ := known
  have low : schema.findIdx (·.name = column) < schema.length :=
    List.findIdx_lt_length_of_exists ⟨field, member, decide_eq_true named⟩
  refine ⟨?_, low⟩
  unfold indexOf
  rw [List.findIdx?_eq_some_of_exists ⟨field, member, decide_eq_true named⟩]

theorem columns_length (batch : RecordBatch) : batch.columns.length = batch.schema.length := by
  have lengths := congrArg List.length batch.typed
  rwa [List.length_map, List.length_map] at lengths

/-- What is dropped are the rows whose key a user row has. -/
theorem drop_rows (keyCols : List String) (userKeys : List (List String))
    (known : ∀ column ∈ keyCols, ∃ field ∈ batch.schema, field.name = column) :
    ∃ out, dropBuiltinRowsShadowedByUsers batch batch.schema keyCols userKeys = .ok out ∧
      out.rows = batch.rows.filter fun row =>
        keyCols.map (fun column =>
          (LazyCatalogTableProvider.cellAt batch.schema row column).keyComponent) ∉ userKeys := by
  unfold dropBuiltinRowsShadowedByUsers
  by_cases none_ : userKeys.isEmpty = true
  · rw [if_pos none_]
    refine ⟨batch, rfl, ?_⟩
    rw [List.isEmpty_iff.mp none_]
    exact (List.filter_eq_self.mpr fun row _ => by simp).symm
  · rw [if_neg none_]
    have arrays : keyCols.mapM (fun column => do
        let i ← indexOf batch.schema column
        return batch.column i) = (.ok (keyCols.map fun column =>
          batch.column (batch.schema.findIdx (·.name = column))) : DFResult (List ArrayRef)) := by
      refine mapM_ok fun column member => ?_
      rw [(indexOf_ok (known column member)).1, ok_bind]
      rfl
    rw [arrays, ok_bind]
    refine ⟨_, rfl, ?_⟩
    rw [filterRecordBatch_rows, ← selected_marks]
    refine congrArg (selected · batch.rows) ?_
    unfold RecordBatch.rows
    rw [List.map_map]
    refine List.map_congr_left fun i _ => ?_
    have keys : (keyCols.map fun column =>
        batch.column (batch.schema.findIdx (·.name = column))).map (arrayKeyComponent · i) =
          keyCols.map fun column => (LazyCatalogTableProvider.cellAt batch.schema
            (batch.columns.map (·.cell i)) column).keyComponent := by
      rw [List.map_map]
      refine List.map_congr_left fun column member => ?_
      have low := (indexOf_ok (known column member)).2
      rw [← columns_length] at low
      unfold Function.comp arrayKeyComponent RecordBatch.column LazyCatalogTableProvider.cellAt
      dsimp only
      rw [List.getD_eq_getElem _ _ low, List.getD_eq_getElem _ _ (by rwa [List.length_map]),
        List.getElem_map]
    rw [Function.comp_apply, keys]
    simp only [List.contains_eq_mem, decide_not]

end

end PgCatalog
