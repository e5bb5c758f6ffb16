import Mathlib.Data.List.Nodup
import Mathlib.Logic.Function.Basic

/-! The occurrences of the elements of a list, numbered, and lists in which the later
occurrences are relabelled by their numbers. -/
namespace PgCatalog.Library

variable {α : Type} [DecidableEq α]

/-- Each element with the number of its occurrence, after those seen before. -/
def occurrences (seen : α → Nat) : List α → List (α × Nat)
  | [] => []
  | x :: rest => (x, seen x + 1) :: occurrences (Function.update seen x (seen x + 1)) rest

theorem occurrences_fst (seen : α → Nat) (xs : List α) :
    (occurrences seen xs).map Prod.fst = xs := by
  induction xs generalizing seen with
  | nil => rfl
  | cons x rest ih => exact congrArg (x :: ·) (ih _)

theorem mem_occurrences {seen : α → Nat} {xs : List α} {x : α} {k : Nat} :
    (x, k) ∈ occurrences seen xs ↔ seen x < k ∧ k ≤ seen x + xs.count x := by
  induction xs generalizing seen with
  | nil =>
    rw [List.count_nil]
    refine iff_of_false List.not_mem_nil ?_
    omega
  | cons y rest ih =>
    rw [occurrences, List.mem_cons, ih, Prod.mk.injEq]
    by_cases same : x = y
    · subst same
      rw [Function.update_self, List.count_cons_self, and_iff_right rfl]
      omega
    · rw [Function.update_of_ne same, List.count_cons_of_ne (Ne.symm same)]
      simp [same]

theorem occurrences_nodup (seen : α → Nat) (xs : List α) : (occurrences seen xs).Nodup := by
  induction xs generalizing seen with
  | nil => exact List.nodup_nil
  | cons x rest ih =>
    refine List.nodup_cons.mpr ⟨fun again => ?_, ih _⟩
    have later := (mem_occurrences.mp again).1
    rw [Function.update_self] at later
    exact Nat.lt_irrefl _ later

section
variable (label : α → Nat → α)

/-- The first occurrence is the element, a later one is labelled. -/
def labelled (occurrence : α × Nat) : α :=
  if 1 < occurrence.2 then label occurrence.1 occurrence.2 else occurrence.1

/-- No label of a later occurrence is an element. -/
def Unlabelled (xs : List α) : Prop :=
  ∀ x k, 1 < k → k ≤ xs.count x → label x k ∉ xs

variable {label}

theorem mem_first {xs : List α} {x : α} (member : x ∈ xs) :
    (x, 1) ∈ occurrences (fun _ => 0) xs := by
  refine mem_occurrences.mpr ⟨Nat.zero_lt_one, ?_⟩
  rw [Nat.zero_add]
  exact List.count_pos_iff.mpr member

/-- Labelling makes the elements different exactly if no label is an element. -/
theorem labelled_nodup_iff
    (apart : ∀ x y i j, label x i = label y j → x = y ∧ i = j) (xs : List α) :
    ((occurrences (fun _ => 0) xs).map (labelled label)).Nodup ↔ Unlabelled label xs := by
  rw [List.nodup_map_iff_inj_on (occurrences_nodup _ xs)]
  have listed : ∀ {x : α} {k : Nat}, (x, k) ∈ occurrences (fun _ => 0) xs → x ∈ xs := by
    intro x k member
    rw [← occurrences_fst (fun _ => 0) xs]
    exact List.mem_map_of_mem member
  constructor
  · intro distinct x k later within there
    have same := distinct (label x k, 1) (mem_first there) (x, k)
      (mem_occurrences.mpr ⟨by omega, by omega⟩) ?_
    · have one := (Prod.mk.inj same).2
      omega
    · rw [labelled, labelled, if_neg (Nat.lt_irrefl 1), if_pos later]
  · rintro free ⟨x, i⟩ first ⟨y, j⟩ second same
    have low := (mem_occurrences.mp first)
    have low' := (mem_occurrences.mp second)
    unfold labelled at same
    by_cases later : 1 < i <;> by_cases later' : 1 < j
    · rw [if_pos later, if_pos later'] at same
      obtain ⟨rfl, rfl⟩ := apart x y i j same
      rfl
    · rw [if_pos later, if_neg later'] at same
      have taken := listed second
      dsimp only at same
      rw [← same] at taken
      exact absurd taken (free x i later (by omega))
    · rw [if_neg later, if_pos later'] at same
      have taken := listed first
      dsimp only at same
      rw [same] at taken
      exact absurd taken (free y j later' (by omega))
    · rw [if_neg later, if_neg later'] at same
      refine Prod.ext same ?_
      dsimp only
      omega

/-- Labelling changes nothing exactly if nothing occurs twice. -/
theorem labelled_eq_iff (moves : ∀ x k, label x k ≠ x) (xs : List α) :
    (occurrences (fun _ => 0) xs).map (labelled label) = xs ↔ xs.Nodup := by
  conv_lhs => rhs; rw [← occurrences_fst (fun _ => 0) xs]
  rw [List.map_inj_left, List.nodup_iff_count_le_one]
  constructor
  · intro same x
    by_contra twice
    have second : (x, 2) ∈ occurrences (fun _ => 0) xs :=
      mem_occurrences.mpr ⟨by omega, by omega⟩
    exact moves x 2 (same (x, 2) second)
  · rintro once ⟨x, k⟩ member
    have within := mem_occurrences.mp member
    have few := once x
    refine if_neg ?_
    dsimp only
    omega

end

end PgCatalog.Library
