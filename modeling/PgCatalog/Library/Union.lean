import Mathlib.Data.List.Nodup
import Mathlib.Data.List.Basic

/-! Putting together what several sources answer to one question, where an answer is a
list or a failure, and when it makes no difference how the sources are nested. -/
namespace PgCatalog.Library

section
variable {α K : Type} [DecidableEq K] (key : α → K)

/-- The elements whose key is neither in `seen` nor that of an element before them. -/
def firstByKey : List K → List α → List α
  | _, [] => []
  | seen, a :: rest =>
    if key a ∈ seen then firstByKey seen rest else a :: firstByKey (key a :: seen) rest

theorem firstByKey_congr {seen seen' : List K} (same : ∀ k, k ∈ seen ↔ k ∈ seen') (xs : List α) :
    firstByKey key seen xs = firstByKey key seen' xs := by
  induction xs generalizing seen seen' with
  | nil => rfl
  | cons a rest ih =>
    simp only [firstByKey, same]
    split
    · exact ih same
    · refine congrArg (a :: ·) (ih fun k => ?_)
      rw [List.mem_cons, List.mem_cons, same]

theorem firstByKey_append (seen : List K) (xs ys : List α) :
    firstByKey key seen (xs ++ ys) =
      firstByKey key seen xs ++ firstByKey key (xs.map key ++ seen) ys := by
  induction xs generalizing seen with
  | nil => rfl
  | cons a rest ih =>
    simp only [List.cons_append, firstByKey, List.map_cons]
    split
    · rename_i present
      rw [ih]
      congr 1
      refine firstByKey_congr key (fun k => ?_) ys
      simp only [List.mem_append, List.mem_cons]
      constructor
      · exact .inr
      · rintro (rfl | inside)
        · exact .inr present
        · exact inside
    · rw [ih, List.cons_append]
      congr 2
      refine firstByKey_congr key (fun k => ?_) ys
      simp only [List.mem_append, List.mem_cons]
      exact or_left_comm

/-- What was kept once is kept again, wherever no more was seen before. -/
theorem firstByKey_idem {seen seen' : List K} (fewer : ∀ k ∈ seen', k ∈ seen) (xs : List α) :
    firstByKey key seen (firstByKey key seen' xs) = firstByKey key seen xs := by
  induction xs generalizing seen seen' with
  | nil => rfl
  | cons a rest ih =>
    by_cases present : key a ∈ seen'
    · rw [firstByKey, if_pos present, ih fewer, firstByKey, if_pos (fewer _ present)]
    · rw [firstByKey, if_neg present, firstByKey, firstByKey]
      by_cases before : key a ∈ seen
      · rw [if_pos before, if_pos before]
        exact ih fun k inside => (List.mem_cons.mp inside).elim (· ▸ before) (fewer k)
      · rw [if_neg before, if_neg before]
        congr 1
        exact ih fun k inside => List.mem_cons.mpr ((List.mem_cons.mp inside).imp id (fewer k))

theorem mem_keys_firstByKey (seen : List K) (xs : List α) (k : K) :
    k ∈ (firstByKey key seen xs).map key ++ seen ↔ k ∈ xs.map key ++ seen := by
  induction xs generalizing seen with
  | nil => rfl
  | cons a rest ih =>
    simp only [firstByKey]
    split
    · rename_i present
      rw [ih]
      simp only [List.map_cons, List.mem_append, List.mem_cons]
      constructor
      · exact (·.imp_left .inr)
      · rintro ((rfl | inside) | outside)
        · exact .inr present
        · exact .inl inside
        · exact .inr outside
    · have later := ih (key a :: seen)
      simp only [List.map_cons, List.mem_append, List.mem_cons] at later ⊢
      tauto

/-- The first of the elements of each key, as the standard library states it. -/
theorem firstByKey_eq_eraseDupsBy (seen : List K) (xs : List α) :
    firstByKey key seen xs =
      (xs.filter (key · ∉ seen)).eraseDupsBy fun a b => decide (key a = key b) := by
  induction xs generalizing seen with
  | nil => rfl
  | cons a rest ih =>
    by_cases present : key a ∈ seen
    · rw [firstByKey, if_pos present, List.filter_cons_of_neg (by simpa using present), ih]
    · rw [firstByKey, if_neg present, List.filter_cons_of_pos (by simpa using present), ih,
        List.eraseDupsBy_cons, List.filter_filter]
      congr 2
      refine List.filter_congr fun b _ => ?_
      simp only [List.mem_cons, not_or, Bool.decide_and, decide_not, Bool.decide_eq_false]

end

/-- Sources put together in any shape. -/
inductive Nested (σ : Type) where
  | leaf (s : σ)
  | node (members : List (Nested σ))

namespace Nested
variable {σ β : Type}

mutual

def leaves : Nested σ → List σ
  | leaf s => [s]
  | node members => allLeaves members

def allLeaves : List (Nested σ) → List σ
  | [] => []
  | member :: rest => member.leaves ++ allLeaves rest

end

mutual

/-- The value of a shape whose nodes are put together by `combine`. -/
def value (combine : List β → β) (answer : σ → β) : Nested σ → β
  | leaf s => answer s
  | node members => combine (values combine answer members)

def values (combine : List β → β) (answer : σ → β) : List (Nested σ) → List β
  | [] => []
  | member :: rest => member.value combine answer :: values combine answer rest

end

theorem values_eq_map {combine : List β → β} {answer : σ → β} {members : List (Nested σ)} :
    values combine answer members = members.map (value combine answer) := by
  induction members with
  | nil => rfl
  | cons member rest ih => rw [values, List.map_cons, ih]

section
variable {γ : Type} {combine : List β → β} {combine' : List γ → γ} {answer : σ → β} {f : β → γ}

mutual

/-- A map that respects the way of putting together respects every shape. -/
theorem map_value (respects : ∀ bs, f (combine bs) = combine' (bs.map f)) :
    ∀ member : Nested σ,
      f (member.value combine answer) = member.value combine' fun s => f (answer s)
  | leaf _ => rfl
  | node members => by
    have inside := map_values respects members
    rw [value, value, respects, inside]

theorem map_values (respects : ∀ bs, f (combine bs) = combine' (bs.map f)) :
    ∀ members : List (Nested σ),
      (values combine answer members).map f = values combine' (fun s => f (answer s)) members
  | [] => rfl
  | member :: rest => by
    have first := map_value respects member
    have later := map_values respects rest
    rw [values, values, List.map_cons, first, later]

end

end

end Nested

/-- A way to put answers together in which a group may be put together first. -/
def Splices {β : Type} (combine : List β → β) : Prop :=
  ∀ before inner after,
    combine (before ++ combine inner :: after) = combine (before ++ inner ++ after)

namespace Splices
variable {σ β : Type} {combine : List β → β} {answer : σ → β}

mutual

theorem value_eq (splices : Splices combine) : ∀ member : Nested σ, ∀ before after,
    combine (before ++ member.value combine answer :: after) =
      combine (before ++ member.leaves.map answer ++ after)
  | .leaf _, before, after => by
    simp only [Nested.value, Nested.leaves, List.map_cons, List.map_nil, List.append_assoc,
      List.singleton_append]
  | .node members, before, after => by
    have inside := values_eq splices members [] []
    simp only [List.nil_append, List.append_nil] at inside
    rw [Nested.value, inside, splices, Nested.leaves]

/-- Whatever the shape, it is put together as the list of its sources. -/
theorem values_eq (splices : Splices combine) : ∀ members : List (Nested σ), ∀ before after,
    combine (before ++ Nested.values combine answer members ++ after) =
      combine (before ++ (Nested.allLeaves members).map answer ++ after)
  | [], _, _ => rfl
  | member :: rest, before, after => by
    have first := value_eq splices member before (Nested.values combine answer rest ++ after)
    have later := values_eq splices rest (before ++ member.leaves.map answer) after
    simp only [List.append_assoc] at first later
    rw [Nested.values, Nested.allLeaves, List.map_append]
    simp only [List.append_assoc, List.cons_append]
    rw [first, later]

end

end Splices

section
variable {α K : Type} [DecidableEq K] (key : α → K)

/-- All the lists one after the other, a failure if there is one among them. -/
def concatenated : List (Option (List α)) → Option (List α)
  | [] => some []
  | none :: _ => none
  | some xs :: rest => (concatenated rest).map (xs ++ ·)

/-- One key in two answers, or twice in one, is a failure. -/
def refusingTwice (answers : List (Option (List α))) : Option (List α) :=
  (concatenated answers).filter fun xs => (xs.map key).Nodup

/-- The first element of each key counts. -/
def keepingFirst (answers : List (Option (List α))) : Option (List α) :=
  (concatenated answers).map (firstByKey key [])

/-- The first answer that is not empty, and no answer after it. -/
def firstNonempty : List (Option (List α)) → Option (List α)
  | [] => some []
  | none :: _ => none
  | some [] :: rest => firstNonempty rest
  | some (x :: xs) :: _ => some (x :: xs)

theorem concatenated_append (first second : List (Option (List α))) :
    concatenated (first ++ second) =
      (concatenated first).bind fun xs => (concatenated second).map (xs ++ ·) := by
  induction first with
  | nil => simp [concatenated]
  | cons answer rest ih =>
    cases answer with
    | none => rfl
    | some xs =>
      simp only [List.cons_append, concatenated, ih]
      cases concatenated rest <;> simp [Function.comp_def]

theorem refusingTwice_splices : Splices (refusingTwice key) := by
  intro before inner after
  simp only [refusingTwice, List.append_assoc, concatenated_append before]
  cases concatenated before with
  | none => rfl
  | some xs =>
    simp only [Option.bind_some]
    cases inside : concatenated inner with
    | none => simp [concatenated_append, concatenated, inside]
    | some ys =>
      simp only [concatenated_append, inside, Option.bind_some]
      by_cases once : (ys.map key).Nodup
      · simp only [Option.filter_some, once, decide_true, if_true, concatenated]
      · simp only [Option.filter_some, once, decide_false, Bool.false_eq_true, if_false,
          concatenated, Option.map_none, Option.filter_none]
        cases concatenated after with
        | none => rfl
        | some zs =>
          have twice : ¬((xs ++ (ys ++ zs)).map key).Nodup := fun all => by
            simp only [List.map_append, List.nodup_append] at all
            exact once all.2.1.1
          rw [Option.map_some, Option.map_some, Option.filter_some, if_neg (by simpa using twice)]

theorem keepingFirst_splices : Splices (keepingFirst key) := by
  intro before inner after
  simp only [keepingFirst, List.append_assoc, concatenated_append before]
  cases concatenated before with
  | none => rfl
  | some xs =>
    simp only [Option.bind_some, concatenated_append inner]
    cases concatenated inner with
    | none => rfl
    | some ys =>
      simp only [Option.map_some, concatenated, Option.bind_some, Option.map_map]
      cases concatenated after with
      | none => rfl
      | some zs =>
        simp only [Option.map_some, Function.comp_apply, Option.some.injEq, firstByKey_append,
          firstByKey_idem key (fun _ none_ => absurd none_ List.not_mem_nil), List.append_nil]
        congr 2
        refine firstByKey_congr key (fun k => ?_) zs
        have kept := mem_keys_firstByKey key [] ys k
        simp only [List.append_nil] at kept
        rw [List.mem_append, List.mem_append, kept]

theorem firstNonempty_append (first second : List (Option (List α))) :
    firstNonempty (first ++ second) =
      (firstNonempty first).bind fun xs => if xs = [] then firstNonempty second else some xs := by
  induction first with
  | nil => simp [firstNonempty]
  | cons answer rest ih =>
    cases answer with
    | none => rfl
    | some xs =>
      cases xs with
      | nil => exact ih
      | cons x xs => rfl

theorem firstNonempty_splices : Splices (firstNonempty : List (Option (List α)) → _) := by
  intro before inner after
  rw [List.append_assoc, firstNonempty_append, firstNonempty_append]
  cases firstNonempty before with
  | none => rfl
  | some xs =>
    simp only [Option.bind_some]
    split
    · rw [firstNonempty_append]
      cases inside : firstNonempty inner with
      | none => rfl
      | some ys => cases ys <;> rfl
    · rfl

end

end PgCatalog.Library
