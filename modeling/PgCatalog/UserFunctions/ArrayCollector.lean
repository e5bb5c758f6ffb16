import PgCatalog.Library.ListArray

/-! `pg_get_array`: an accumulator whose partial states are lists of what it has gathered. -/
namespace PgCatalog.UserFunctions

open Library

/-- The values of an element type, null or not. -/
structure ArrayCollector (α : Type) where
  collectedValues : List (Option α)

namespace ArrayCollector

variable {α : Type}

def new : ArrayCollector α := ⟨[]⟩

def push (c : ArrayCollector α) (value : Option α) : ArrayCollector α :=
  ⟨c.collectedValues ++ [value]⟩

/-- The partial state is a copy; the values stay. -/
def state (c : ArrayCollector α) : ListArray (Option α) × ArrayCollector α :=
  (.single (some c.collectedValues), c)

def updateBatch (c : ArrayCollector α) (values : List (Option α)) : ArrayCollector α :=
  values.foldl push c

/-- `ScalarValue::try_from_array`: one row as a column of its own, null where it is. -/
def scalarAt {β : Type} (states : ListArray β) (row : Nat) : ListArray β :=
  .single (states.row row)

def mergeRow (c : ArrayCollector α) (list : ListArray (Option α)) : ArrayCollector α :=
  (List.range list.len).foldl (fun c idx => (list.value idx).foldl push c) c

def mergeBatch (c : ArrayCollector α) (states : ListArray (Option α)) : ArrayCollector α :=
  (List.range states.len).foldl (fun c row => c.mergeRow (scalarAt states row)) c

/-- The gathered values as one list, which are taken. -/
def evaluate (c : ArrayCollector α) : ListArray (Option α) × ArrayCollector α :=
  (.single (some c.collectedValues), new)

end ArrayCollector

/-- What is done to an accumulator. A merge is handed the states of other accumulators, each
after steps of its own, or null ones; `layout` tells columns with the same rows apart. -/
inductive CollectorStep (α : Type) where
  | updateBatch (values : List (Option α))
  | state
  | mergeBatch (layout : Nat) (parts : List (Option (List (CollectorStep α))))

/-- The engine puts states into columns: any column with these rows. -/
abbrev StateLayout (α : Type) :=
  Nat → (rows : List (Option (List (Option α)))) →
    {column : ListArray (Option α) // column.rows = rows}

section
variable {α : Type} (columnOf : StateLayout α)

mutual

def CollectorStep.run (c : ArrayCollector α) : CollectorStep α → ArrayCollector α
  | .updateBatch values => c.updateBatch values
  | .state => c.state.2
  | .mergeBatch layout parts => c.mergeBatch (columnOf layout (partStates parts)).1

def runSteps (c : ArrayCollector α) : List (CollectorStep α) → ArrayCollector α
  | [] => c
  | step :: rest => runSteps (step.run c) rest

def partStates : List (Option (List (CollectorStep α))) → List (Option (List (Option α)))
  | [] => []
  | part :: rest => partState part :: partStates rest

def partState : Option (List (CollectorStep α)) → Option (List (Option α))
  | none => none
  | some steps => (runSteps .new steps).state.1.row 0

end

end

mutual

/-- The values that a step brings, in order. -/
def CollectorStep.values {α : Type} : CollectorStep α → List (Option α)
  | .updateBatch values => values
  | .state => []
  | .mergeBatch _ parts => partsValues parts

def stepsValues {α : Type} : List (CollectorStep α) → List (Option α)
  | [] => []
  | step :: rest => step.values ++ stepsValues rest

def partsValues {α : Type} : List (Option (List (CollectorStep α))) → List (Option α)
  | [] => []
  | part :: rest => partValues part ++ partsValues rest

def partValues {α : Type} : Option (List (CollectorStep α)) → List (Option α)
  | none => []
  | some steps => stepsValues steps

end

section
variable {α : Type} {c : ArrayCollector α}

theorem foldl_push (values : List (Option α)) :
    values.foldl ArrayCollector.push c = ⟨c.collectedValues ++ values⟩ := by
  induction values generalizing c with
  | nil => rw [List.foldl_nil, List.append_nil]
  | cons value rest ih =>
    rw [List.foldl_cons, ih, ArrayCollector.push, List.append_assoc]
    rfl

/-- A null state has no elements. -/
theorem mergeRow_scalarAt (states : ListArray (Option α)) (row : Nat) :
    c.mergeRow (ArrayCollector.scalarAt states row) =
      ⟨c.collectedValues ++ (states.row row).getD []⟩ := by
  simp [ArrayCollector.mergeRow, ArrayCollector.scalarAt, List.range_succ, foldl_push]

theorem mergeBatch_rows (states : ListArray (Option α)) :
    c.mergeBatch states = ⟨c.collectedValues ++ states.rows.flatMap (·.getD [])⟩ := by
  have rows : ∀ (indices : List Nat) (c : ArrayCollector α),
      indices.foldl (fun c row => c.mergeRow (ArrayCollector.scalarAt states row)) c =
        ⟨c.collectedValues ++ indices.flatMap fun row => (states.row row).getD []⟩ := by
    intro indices
    induction indices with
    | nil => simp
    | cons row rest ih =>
      intro c
      rw [List.foldl_cons, ih, mergeRow_scalarAt, List.append_assoc, List.flatMap_cons]
  rw [ArrayCollector.mergeBatch, rows, ListArray.rows, List.flatMap_map]

variable (columnOf : StateLayout α)

mutual

/-- A step appends the values it brings. -/
theorem CollectorStep.run_values : ∀ (step : CollectorStep α) (c : ArrayCollector α),
    step.run columnOf c = ⟨c.collectedValues ++ step.values⟩
  | .updateBatch values, c => foldl_push values
  | .state, c => by
    rw [CollectorStep.values, List.append_nil]
    rfl
  | .mergeBatch layout parts, c => by
    rw [CollectorStep.run, mergeBatch_rows, (columnOf layout _).2, CollectorStep.values,
      partStates_values parts]

theorem runSteps_values : ∀ (steps : List (CollectorStep α)) (c : ArrayCollector α),
    runSteps columnOf c steps = ⟨c.collectedValues ++ stepsValues steps⟩
  | [], c => by
    rw [stepsValues, List.append_nil]
    rfl
  | step :: rest, c => by
    rw [runSteps, runSteps_values rest, step.run_values c, stepsValues, List.append_assoc]

theorem partStates_values : ∀ parts : List (Option (List (CollectorStep α))),
    (partStates columnOf parts).flatMap (·.getD []) = partsValues parts
  | [] => rfl
  | part :: rest => by
    rw [partStates, List.flatMap_cons, partStates_values rest, partState_values part, partsValues]

theorem partState_values : ∀ part : Option (List (CollectorStep α)),
    (partState columnOf part).getD [] = partValues part
  | none => rfl
  | some steps => by
    rw [partState, runSteps_values steps .new, ArrayCollector.state, ListArray.row_single]
    rfl

end

/-- However the values are split into batches, partitions and partial states, null states and
states taken on the way included, the state and the result are the list of all of them in order. -/
theorem pg_get_array_collects_all (steps : List (CollectorStep α)) :
    (runSteps columnOf .new steps).state.1.rows = [some (stepsValues steps)] ∧
      (runSteps columnOf .new steps).evaluate.1.rows = [some (stepsValues steps)] := by
  rw [runSteps_values columnOf steps .new]
  exact ⟨ListArray.rows_ofRows _, ListArray.rows_ofRows _⟩

end

end PgCatalog.UserFunctions
