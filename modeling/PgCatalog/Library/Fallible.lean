import Mathlib.Data.List.Basic
import Mathlib.Data.List.Forall2

/-! Lists of fallible steps: `mapM` succeeds exactly with every step. -/
namespace PgCatalog.Library

section
variable {ε : Type}

theorem except_bind {α β : Type} (a : α) (f : α → Except ε β) : (Except.ok a >>= f) = f a := rfl

theorem mapM_ok {α β : Type} {f : α → Except ε β} {g : α → β} {xs : List α}
    (each : ∀ x ∈ xs, f x = .ok (g x)) : xs.mapM f = .ok (xs.map g) := by
  induction xs with
  | nil => rfl
  | cons x rest ih =>
    rw [List.mapM_cons, each x List.mem_cons_self, except_bind,
      ih fun y member => each y (List.mem_cons_of_mem _ member), except_bind]
    rfl

theorem mapM_ok_mem {α β : Type} {f : α → Except ε β} {xs : List α} {ys : List β}
    (all : xs.mapM f = .ok ys) : ∀ x ∈ xs, ∃ y, f x = .ok y := by
  induction xs generalizing ys with
  | nil => intro x member; cases member
  | cons x rest ih =>
    rw [List.mapM_cons] at all
    cases first : f x with
    | error e => rw [first] at all; cases all
    | ok y =>
      rw [first, except_bind] at all
      cases tail : rest.mapM f with
      | error e => rw [tail] at all; cases all
      | ok zs =>
        intro z member
        obtain rfl | later := List.mem_cons.mp member
        · exact ⟨y, first⟩
        · exact ih tail z later

theorem mem_mapM_ok {α β : Type} {f : α → Except ε β} {xs : List α} {ys : List β}
    (all : xs.mapM f = .ok ys) : ∀ y ∈ ys, ∃ x ∈ xs, f x = .ok y := by
  induction xs generalizing ys with
  | nil =>
    obtain rfl := Except.ok.inj all
    intro y member
    cases member
  | cons x rest ih =>
    rw [List.mapM_cons] at all
    cases first : f x with
    | error e => rw [first] at all; cases all
    | ok z =>
      rw [first, except_bind] at all
      cases tail : rest.mapM f with
      | error e => rw [tail] at all; cases all
      | ok zs =>
        rw [tail, except_bind] at all
        obtain rfl := Except.ok.inj all
        intro y member
        obtain rfl | later := List.mem_cons.mp member
        · exact ⟨x, List.mem_cons_self, first⟩
        · obtain ⟨w, inside, made⟩ := ih tail y later
          exact ⟨w, List.mem_cons_of_mem _ inside, made⟩

theorem mapM_ok_eq {α β : Type} {f : α → Except ε β} {g : α → β} {xs : List α} {ys : List β}
    (all : xs.mapM f = .ok ys) (each : ∀ x ∈ xs, ∀ y, f x = .ok y → y = g x) :
    ys = xs.map g := by
  have built : ∀ x ∈ xs, f x = .ok (g x) := by
    intro x member
    obtain ⟨y, answered⟩ := mapM_ok_mem all x member
    rw [answered, each x member y answered]
  exact Except.ok.inj (all.symm.trans (mapM_ok built))

theorem mapM_exists {α β : Type} {f : α → Except ε β} {xs : List α}
    (each : ∀ x ∈ xs, ∃ y, f x = .ok y) : ∃ ys, xs.mapM f = .ok ys := by
  induction xs with
  | nil => exact ⟨[], rfl⟩
  | cons x rest ih =>
    obtain ⟨y, first⟩ := each x List.mem_cons_self
    obtain ⟨ys, later⟩ := ih fun z member => each z (List.mem_cons_of_mem _ member)
    rw [List.mapM_cons, first, except_bind, later, except_bind]
    exact ⟨_, rfl⟩

end

section
variable {α β : Type} {f : α → Option β}

/-- Without a report of the failure: the results stand side by side with the steps. -/
theorem mapM_eq_some {xs : List α} {ys : List β} :
    xs.mapM f = some ys ↔ List.Forall₂ (fun x y => f x = some y) xs ys := by
  induction xs generalizing ys with
  | nil =>
    rw [List.mapM_nil, List.forall₂_nil_left_iff]
    exact ⟨fun same => (Option.some.inj same).symm, fun empty => congrArg some empty.symm⟩
  | cons x rest ih =>
    rw [List.mapM_cons]
    constructor
    · intro all
      obtain ⟨y, first, all⟩ := Option.bind_eq_some_iff.mp all
      obtain ⟨zs, later, all⟩ := Option.bind_eq_some_iff.mp all
      obtain rfl := Option.some.inj all
      exact .cons first (ih.mp later)
    · intro beside
      cases beside with
      | cons first later =>
        rw [ih.mpr later, first]
        rfl

theorem mapM_some_iff {xs : List α} :
    (∃ ys, xs.mapM f = some ys) ↔ ∀ x ∈ xs, ∃ y, f x = some y := by
  induction xs with
  | nil => simp
  | cons x rest ih =>
    rw [List.forall_mem_cons, ← ih]
    constructor
    · rintro ⟨ys, all⟩
      cases mapM_eq_some.mp all with
      | cons first later => exact ⟨⟨_, first⟩, ⟨_, mapM_eq_some.mpr later⟩⟩
    · rintro ⟨⟨y, first⟩, zs, later⟩
      exact ⟨y :: zs, mapM_eq_some.mpr (.cons first (mapM_eq_some.mp later))⟩

theorem mem_mapM_some {xs : List α} {ys : List β} (all : xs.mapM f = some ys) {y : β}
    (member : y ∈ ys) : ∃ x ∈ xs, f x = some y := by
  have beside := mapM_eq_some.mp all
  clear all
  induction beside with
  | nil => cases member
  | cons first _ ih =>
    obtain rfl | later := List.mem_cons.mp member
    · exact ⟨_, List.mem_cons_self, first⟩
    · obtain ⟨x, inside, made⟩ := ih later
      exact ⟨x, List.mem_cons_of_mem _ inside, made⟩

/-- Steps whose results are mapped, one by one, have the mapped results. -/
theorem mapM_map {γ : Type} {f' : α → Option γ} {g : β → γ} {xs : List α}
    (each : ∀ x ∈ xs, f' x = (f x).map g) : xs.mapM f' = (xs.mapM f).map (List.map g) := by
  induction xs with
  | nil => rfl
  | cons x rest ih =>
    obtain ⟨first, later⟩ := List.forall_mem_cons.mp each
    rw [List.mapM_cons, List.mapM_cons, first, ih later]
    cases f x with
    | none => rfl
    | some y => cases rest.mapM f <;> rfl

theorem forall₂_mem {R : α → β → Prop} {xs : List α} {ys : List β} (beside : List.Forall₂ R xs ys)
    {x : α} (member : x ∈ xs) : ∃ y ∈ ys, R x y := by
  induction beside with
  | nil => cases member
  | cons first _ ih =>
    obtain rfl | later := List.mem_cons.mp member
    · exact ⟨_, List.mem_cons_self, first⟩
    · obtain ⟨y, inside, related⟩ := ih later
      exact ⟨y, List.mem_cons_of_mem _ inside, related⟩

/-- All steps succeed, each with a result that stands in a relation, exactly if each does. -/
theorem mapM_related {R : α → β → Prop} {xs : List α} :
    (∃ ys, xs.mapM f = some ys ∧ List.Forall₂ R xs ys) ↔ ∀ x ∈ xs, ∃ y, f x = some y ∧ R x y := by
  induction xs with
  | nil => exact ⟨fun _ => nofun, fun _ => ⟨[], rfl, .nil⟩⟩
  | cons x rest ih =>
    rw [List.forall_mem_cons, ← ih]
    constructor
    · rintro ⟨ys, all, related⟩
      cases mapM_eq_some.mp all with
      | cons first later =>
        obtain ⟨same, others⟩ := List.forall₂_cons.mp related
        exact ⟨⟨_, first, same⟩, _, mapM_eq_some.mpr later, others⟩
    · rintro ⟨⟨y, first, same⟩, ys, later, others⟩
      exact ⟨y :: ys, mapM_eq_some.mpr (.cons first (mapM_eq_some.mp later)), .cons same others⟩

end

end PgCatalog.Library
