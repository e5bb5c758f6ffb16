import Mathlib.Data.List.Count
import Mathlib.Data.List.Perm.Basic

/-! Rows that carry where they come from: two lists of them are the same but for the order
exactly if they are so origin by origin. -/
namespace PgCatalog.Library

/-- What comes of each origin passes or fails together. -/
theorem filter_flatMap_origin {A B : Type} {f : A → List B} {p : B → Bool} {q : A → Bool}
    {xs : List A} (same : ∀ a ∈ xs, ∀ b ∈ f a, p b = q a) :
    (xs.flatMap f).filter p = (xs.filter q).flatMap f := by
  induction xs with
  | nil => rfl
  | cons a rest ih =>
    obtain ⟨first, later⟩ := List.forall_mem_cons.mp same
    rw [List.flatMap_cons, List.filter_append, ih later, List.filter_cons,
      List.filter_congr (q := fun _ => q a) first]
    cases q a with
    | false => rw [List.filter_false]; rfl
    | true => rw [List.filter_true]; rfl

section
variable {A B C : Type} {tag : A → B → C} {xs : List A}

open Classical in
/-- A tagged element occurs as often as its origin, times as often as in what comes of it. -/
theorem count_tagged {f : A → List B} {a : A}
    (apart : ∀ a' ∈ xs, ∀ b b', tag a b = tag a' b' → a = a' ∧ b = b') (b : B) :
    (xs.flatMap fun a' => (f a').map (tag a')).count (tag a b) = xs.count a * (f a).count b := by
  induction xs with
  | nil => rw [List.flatMap_nil, List.count_nil, List.count_nil, Nat.zero_mul]
  | cons x rest ih =>
    obtain ⟨first, later⟩ := List.forall_mem_cons.mp apart
    rw [List.flatMap_cons, List.count_append, ih later, List.count_cons, Nat.add_mul,
      Nat.add_comm]
    congr 1
    by_cases same : x = a
    · subst same
      have injective : Function.Injective (tag x) := fun b b' equal => (first b b' equal).2
      rw [List.count_map_of_injective _ _ injective, if_pos (beq_self_eq_true x), Nat.one_mul]
    · have none_ : tag a b ∉ (f x).map (tag x) := by
        intro member
        obtain ⟨b', _, equal⟩ := List.mem_map.mp member
        exact same (first b b' equal.symm).1.symm
      rw [List.count_eq_zero_of_not_mem none_, if_neg (by simpa using same), Nat.zero_mul]

/-- Tagged rows are a permutation of each other exactly if those of each origin are. -/
theorem flatMap_perm_iff {f g : A → List B}
    (apart : ∀ a ∈ xs, ∀ a' ∈ xs, ∀ b b', tag a b = tag a' b' → a = a' ∧ b = b') :
    (xs.flatMap fun a => (f a).map (tag a)).Perm (xs.flatMap fun a => (g a).map (tag a)) ↔
      ∀ a ∈ xs, (f a).Perm (g a) := by
  classical
  constructor
  · intro same a member
    rw [List.perm_iff_count]
    intro b
    have counts := same.count_eq (tag a b)
    rw [count_tagged (apart a member), count_tagged (apart a member)] at counts
    exact Nat.eq_of_mul_eq_mul_left (List.count_pos_iff.mpr member) counts
  · intro each
    exact List.Perm.flatMap_left _ fun a member => (each a member).map (tag a)

end

end PgCatalog.Library
