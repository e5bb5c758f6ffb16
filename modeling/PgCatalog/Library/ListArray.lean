import Mathlib.Data.List.Range

/-! Arrow's columns of lists: all elements in one array, each row a range between two offsets,
and a bit a row that says whether it is null. -/
namespace PgCatalog.Library

structure ListArray (α : Type) where
  values : List α
  offsets : List Nat
  valid : List Bool
  bounds : offsets.length = valid.length + 1
  ordered : offsets.Pairwise (· ≤ ·)
  inside : ∀ o ∈ offsets, o ≤ values.length

namespace ListArray

variable {α : Type} (a : ListArray α)

def len : Nat := a.valid.length

def isNull (i : Nat) : Bool := !a.valid.getD i false

/-- The elements from one offset to the next. -/
def value (i : Nat) : List α :=
  (a.values.take (a.offsets.getD (i + 1) 0)).drop (a.offsets.getD i 0)

def row (i : Nat) : Option (List α) := if a.isNull i then none else some (a.value i)

/-- The rows; what lies under a null one does not count. -/
def rows : List (Option (List α)) := (List.range a.len).map a.row

@[simp] theorem length_rows : a.rows.length = a.len := by simp [rows]

theorem rows_eq {rows : List (Option (List α))} (length : a.len = rows.length)
    (each : ∀ i, (inside : i < rows.length) → a.row i = rows[i]) : a.rows = rows := by
  refine List.ext_getElem (by simp [length]) fun i _ inside => ?_
  simp only [ListArray.rows, List.getElem_map, List.getElem_range]
  exact each i inside

/-- The elements of the rows before one. -/
def elementsBefore (rows : List (Option (List α))) (i : Nat) : List α :=
  (rows.take i).flatMap (·.getD [])

theorem elementsBefore_succ {rows : List (Option (List α))} {i : Nat} (inside : i < rows.length) :
    elementsBefore rows (i + 1) = elementsBefore rows i ++ rows[i].getD [] := by
  unfold elementsBefore
  rw [List.take_succ_eq_append_getElem inside, List.flatMap_append, List.flatMap_singleton]

theorem elementsBefore_begins (rows : List (Option (List α))) (i : Nat) :
    elementsBefore rows i <+: rows.flatMap (·.getD []) := by
  refine ⟨(rows.drop i).flatMap (·.getD []), ?_⟩
  unfold elementsBefore
  rw [← List.flatMap_append, List.take_append_drop]

/-- Where each row starts, and where the last ends. -/
def startsOf (rows : List (Option (List α))) : List Nat :=
  (List.range (rows.length + 1)).map fun i => (elementsBefore rows i).length

theorem startsOf_getD {rows : List (Option (List α))} {i : Nat} (inside : i ≤ rows.length) :
    (startsOf rows).getD i 0 = (elementsBefore rows i).length := by
  have listed : i < rows.length + 1 := by omega
  simp [startsOf, List.getD_eq_getElem?_getD, List.getElem?_map, List.getElem?_range listed]

theorem startsOf_bounds (rows : List (Option (List α))) :
    (startsOf rows).length = (rows.map (·.isSome)).length + 1 := by
  simp [startsOf]

theorem startsOf_ordered (rows : List (Option (List α))) :
    (startsOf rows).Pairwise (· ≤ ·) := by
  refine List.pairwise_map.mpr (List.pairwise_le_range.imp fun {i j} le => ?_)
  obtain ⟨more, whole⟩ : rows.take i <+: rows.take j := List.take_prefix_take_left le
  unfold elementsBefore
  rw [← whole, List.flatMap_append, List.length_append]
  exact Nat.le_add_right _ _

theorem startsOf_inside (rows : List (Option (List α))) :
    ∀ o ∈ startsOf rows, o ≤ (rows.flatMap (·.getD [])).length := by
  intro o member
  obtain ⟨i, -, rfl⟩ := List.mem_map.mp member
  exact (elementsBefore_begins rows i).length_le

/-- The column with the rows given, without anything under a null one. -/
def ofRows (rows : List (Option (List α))) : ListArray α :=
  ⟨rows.flatMap (·.getD []), startsOf rows, rows.map (·.isSome), startsOf_bounds rows,
    startsOf_ordered rows, startsOf_inside rows⟩

@[simp] theorem rows_ofRows (rows : List (Option (List α))) : (ofRows rows).rows = rows := by
  refine rows_eq _ (by simp [len, ofRows]) fun i inside => ?_
  have range : (ofRows rows).value i = rows[i].getD [] := by
    have whole := List.prefix_iff_eq_take.mp (elementsBefore_begins rows (i + 1))
    change ((rows.flatMap (·.getD [])).take ((startsOf rows).getD (i + 1) 0)).drop
      ((startsOf rows).getD i 0) = _
    rw [startsOf_getD (Nat.le_of_lt inside), startsOf_getD inside, ← whole,
      elementsBefore_succ inside, List.drop_left]
  have valid : (ofRows rows).isNull i = !rows[i].isSome := by
    simp [isNull, ofRows, List.getD_eq_getElem?_getD, inside]
  rw [row, valid, range]
  cases rows[i] with
  | none => rfl
  | some xs => rfl

/-- A column of one row. -/
def single (row : Option (List α)) : ListArray α := ofRows [row]

@[simp] theorem len_single (row : Option (List α)) : (single row).len = 1 := rfl

@[simp] theorem row_single (row : Option (List α)) : (single row).row 0 = row := by
  cases row with
  | none => rfl
  | some xs => simp [ListArray.row, isNull, value, single, ofRows, startsOf, elementsBefore,
      List.range_succ]

@[simp] theorem value_single (row : Option (List α)) : (single row).value 0 = row.getD [] := by
  simp [value, single, ofRows, startsOf, elementsBefore, List.range_succ]

end ListArray

end PgCatalog.Library
