import Mathlib.Data.List.Basic

/-! The positions of a list at which a predicate holds, and what stands at given positions. -/
namespace PgCatalog.Library

variable {α β : Type}

/-- The positions at which a predicate holds, from the left. -/
def positions (p : α → Bool) (xs : List α) : List Nat :=
  (List.range xs.length).filter fun i => xs[i]?.any p

/-- What stands at the given positions. -/
def picked (is : List Nat) (xs : List α) : List α := is.filterMap (xs[·]?)

theorem mem_positions {p : α → Bool} {xs : List α} {i : Nat} :
    i ∈ positions p xs ↔ ∃ x, xs[i]? = some x ∧ p x = true := by
  simp only [positions, List.mem_filter, List.mem_range, Option.any_eq_true]
  constructor
  · rintro ⟨-, x, here, holds⟩
    exact ⟨x, here, holds⟩
  · rintro ⟨x, here, holds⟩
    exact ⟨(List.getElem?_eq_some_iff.mp here).1, x, here, holds⟩

theorem positions_cons (p : α → Bool) (x : α) (xs : List α) :
    positions p (x :: xs) = (if p x then [0] else []) ++ (positions p xs).map (· + 1) := by
  have later : ((List.range xs.length).map (· + 1)).filter (fun i => (x :: xs)[i]?.any p) =
      (positions p xs).map (· + 1) := by
    rw [List.filter_map, positions]
    simp [Function.comp_def]
  rw [positions, List.length_cons, List.range_succ_eq_map, List.filter_cons]
  cases holds : p x <;> simpa [holds] using later

theorem picked_map_succ (is : List Nat) (x : α) (xs : List α) :
    picked (is.map (· + 1)) (x :: xs) = picked is xs := by
  simp [picked, List.filterMap_map]

/-- What stands where a predicate holds is what it keeps. -/
theorem picked_positions (p : α → Bool) (xs : List α) :
    picked (positions p xs) xs = xs.filter p := by
  induction xs with
  | nil => rfl
  | cons x xs ih =>
    rw [positions_cons, List.filter_cons]
    have later := picked_map_succ (positions p xs) x xs
    rw [ih] at later
    cases holds : p x
    · simpa using later
    · simpa [picked] using later

theorem picked_map (f : α → β) (is : List Nat) (xs : List α) :
    picked is (xs.map f) = (picked is xs).map f := by
  simp only [picked, List.getElem?_map, List.map_filterMap]

theorem positions_map (f : α → β) (p : β → Bool) (xs : List α) :
    positions p (xs.map f) = positions (fun x => p (f x)) xs := by
  simp [positions, Option.any_map]

/-- Where labels are the same, a predicate of labels holds at the same positions. -/
theorem positions_labels {γ : Type} {f : α → γ} {g : β → γ} {xs : List α} {ys : List β}
    (same : xs.map f = ys.map g) (p : γ → Bool) :
    positions (fun x => p (f x)) xs = positions (fun y => p (g y)) ys := by
  have left := positions_map f p xs
  rw [same, positions_map] at left
  exact left.symm

theorem positions_congr {p q : α → Bool} {xs : List α} (same : ∀ x ∈ xs, p x = q x) :
    positions p xs = positions q xs := by
  refine List.filter_congr fun i inside => ?_
  have bound : i < xs.length := List.mem_range.mp inside
  rw [List.getElem?_eq_getElem bound, Option.any_some, Option.any_some]
  exact same _ (List.getElem_mem bound)

theorem length_positions (p : α → Bool) (xs : List α) :
    (positions p xs).length = (xs.filter p).length := by
  induction xs with
  | nil => rfl
  | cons x xs ih =>
    rw [positions_cons, List.filter_cons]
    cases p x <;> simp [ih]

theorem positions_true (xs : List α) : positions (fun _ => true) xs = List.range xs.length := by
  refine List.filter_eq_self.mpr fun i inside => ?_
  rw [List.getElem?_eq_getElem (List.mem_range.mp inside), Option.any_some]

theorem picked_range (xs : List α) : picked (List.range xs.length) xs = xs := by
  rw [← positions_true, picked_positions, List.filter_true]

/-- As many positions as elements are all of them. -/
theorem positions_full {p : α → Bool} {xs : List α}
    (full : (positions p xs).length = xs.length) : positions p xs = List.range xs.length := by
  rw [length_positions, List.length_filter_eq_length_iff] at full
  rw [positions_congr full, positions_true]

/-- Two choices that leave the same labels are one choice, where one of them goes by labels. -/
theorem same_choice [DecidableEq β] {label : α → β} {byLabel : β → Bool} {chosen : α → Bool}
    {xs : List α} (same : (xs.filter fun x => byLabel (label x)).map label =
      (xs.filter chosen).map label) : ∀ x ∈ xs, byLabel (label x) = chosen x := by
  intro x member
  -- Among the elements labelled as `x` is, as many are chosen by one as by the other.
  let alike := xs.filter fun y => decide (label y = label x)
  have there : x ∈ alike := List.mem_filter.mpr ⟨member, by simp⟩
  have labelled : ∀ y ∈ alike, label y = label x := fun y here => by
    simpa using (List.mem_filter.mp here).2
  have counts : alike.countP (fun y => byLabel (label y)) = alike.countP chosen := by
    have counted := congrArg (List.countP fun l => decide (l = label x)) same
    rw [List.countP_map, List.countP_map, List.countP_filter, List.countP_filter] at counted
    rw [List.countP_filter, List.countP_filter]
    simpa [Bool.and_comm] using counted
  cases holds : byLabel (label x) with
  | false =>
    have none_ : alike.countP (fun y => byLabel (label y)) = 0 :=
      List.countP_eq_zero.mpr fun y here => by simp [labelled y here, holds]
    rw [none_] at counts
    simpa using List.countP_eq_zero.mp counts.symm x there
  | true =>
    have all : alike.countP (fun y => byLabel (label y)) = alike.length :=
      List.countP_eq_length.mpr fun y here => by simp [labelled y here, holds]
    rw [all] at counts
    exact (List.countP_eq_length.mp counts.symm x there).symm

end PgCatalog.Library
