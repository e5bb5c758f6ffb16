import Mathlib.Data.List.Basic
import Mathlib.Data.List.TakeWhile
import Mathlib.Data.List.Nodup

/-! Lists without later repetitions, and one element of a list read as another. -/
namespace PgCatalog.Library

variable {α : Type} [DecidableEq α]

theorem filter_ne_nodup {xs : List α} {x : α} (distinct : (x :: xs).Nodup) :
    xs.filter (fun y => !y == x) = xs := by
  refine List.filter_eq_self.mpr fun y member => ?_
  have apart : y ≠ x := fun same => (List.nodup_cons.mp distinct).1 (same ▸ member)
  simpa using apart

theorem eraseDups_of_nodup {xs : List α} (distinct : xs.Nodup) : xs.eraseDups = xs := by
  induction xs with
  | nil => rfl
  | cons x rest ih =>
    rw [List.eraseDups_cons, filter_ne_nodup distinct, ih (List.nodup_cons.mp distinct).2]

/-- What has no later repetitions has none at all. -/
theorem nodup_eraseDups (xs : List α) : xs.eraseDups.Nodup := by
  cases xs with
  | nil => exact List.nodup_nil
  | cons x rest =>
    rw [List.eraseDups_cons, List.nodup_cons]
    refine ⟨fun again => ?_, nodup_eraseDups _⟩
    have inside := List.mem_eraseDups.mp again
    simpa using (List.mem_filter.mp inside).2
termination_by xs.length
decreasing_by
  have shorter := List.length_filter_le (fun y => !y == x) rest
  rw [List.length_cons]
  omega

/-- A search meets the same element with and without the later repetitions. -/
theorem find?_eraseDups (p : α → Bool) (xs : List α) : xs.eraseDups.find? p = xs.find? p := by
  cases xs with
  | nil => rfl
  | cons x rest =>
    rw [List.eraseDups_cons, List.find?_cons, List.find?_cons]
    cases holds : p x with
    | true => rfl
    | false =>
      have later := find?_eraseDups p (rest.filter fun y => !y == x)
      dsimp only
      rw [later, List.find?_filter]
      refine congrArg (fun q : α → Bool => rest.find? q) (funext fun y => ?_)
      by_cases same : y = x
      · rw [same, holds]
        simp
      · simp [same]
termination_by xs.length
decreasing_by
  have shorter := List.length_filter_le (fun y => !y == x) rest
  rw [List.length_cons]
  omega

section
variable (x d : α) (xs : List α)

/-- `x` read as `d`. -/
def readAs (y : α) : α := if y = x then d else y

theorem map_readAs_of_not_mem {xs : List α} (absent : x ∉ xs) : xs.map (readAs x d) = xs := by
  refine (List.map_congr_left fun y member => ?_).trans (List.map_id xs)
  refine if_neg fun same => ?_
  rw [same] at member
  exact absent member

/-- Before the first `x`, and after it without those that follow. -/
def beforeFirst : List α := xs.takeWhile (· ≠ x)

def afterFirst : List α := (xs.dropWhile (· ≠ x)).filter (· ≠ x)

theorem not_mem_beforeFirst : x ∉ beforeFirst x xs := by
  intro member
  simpa using List.mem_takeWhile_imp member

theorem filter_ne_split : xs.filter (· ≠ x) = beforeFirst x xs ++ afterFirst x xs := by
  have before : (beforeFirst x xs).filter (· ≠ x) = beforeFirst x xs := by
    refine List.filter_eq_self.mpr fun y member => ?_
    have apart : y ≠ x := fun same => not_mem_beforeFirst x xs (same ▸ member)
    exact decide_eq_true apart
  conv_lhs => rw [← List.takeWhile_append_dropWhile (p := fun y => decide (y ≠ x)) (l := xs)]
  rw [List.filter_append]
  exact congrArg (· ++ afterFirst x xs) before

variable {x xs}

/-- From the first `x` on. -/
theorem dropWhile_of_mem (member : x ∈ xs) :
    ∃ rest, xs.dropWhile (· ≠ x) = x :: rest ∧ afterFirst x xs = rest.filter (· ≠ x) := by
  induction xs with
  | nil => cases member
  | cons y ys ih =>
    by_cases same : y = x
    · have here : (y :: ys).dropWhile (· ≠ x) = x :: ys := by
        rw [List.dropWhile_cons_of_neg (by simpa using same), same]
      refine ⟨ys, here, ?_⟩
      rw [afterFirst, here, List.filter_cons_of_neg (by simp)]
    · have later : (y :: ys).dropWhile (· ≠ x) = ys.dropWhile (· ≠ x) :=
        List.dropWhile_cons_of_pos (by simpa using same)
      rw [afterFirst, later]
      exact ih ((List.mem_cons.mp member).resolve_left (Ne.symm same))

/-- Where `d` is dropped, so is each `x` read as it. -/
theorem filter_readAs {q : α → Bool} (drops : q d = false) (kept : ∀ y ∈ xs, y ≠ x → q y = true) :
    (xs.map (readAs x d)).filter q = xs.filter (· ≠ x) := by
  induction xs with
  | nil => rfl
  | cons y ys ih =>
    have later := ih fun z member => kept z (List.mem_cons_of_mem _ member)
    by_cases same : y = x
    · have read : readAs x d y = d := if_pos same
      rw [List.map_cons, read, List.filter_cons_of_neg (by rw [drops]; decide),
        List.filter_cons_of_neg (by simpa using same), later]
    · have read : readAs x d y = y := if_neg same
      have keep := kept y List.mem_cons_self same
      rw [List.map_cons, read, List.filter_cons_of_pos keep,
        List.filter_cons_of_pos (by simpa using same), later]

theorem filter_ne_readAs :
    (xs.map (readAs x d)).filter (fun y => !y == d) =
      (xs.filter (· ≠ x)).filter (fun y => !y == d) := by
  induction xs with
  | nil => rfl
  | cons y ys ih =>
    by_cases same : y = x
    · have read : readAs x d y = d := if_pos same
      rw [List.map_cons, read, List.filter_cons_of_neg (by simp),
        List.filter_cons_of_neg (by simpa using same), ih]
    · have read : readAs x d y = y := if_neg same
      rw [List.map_cons, read, List.filter_cons_of_pos (a := y) (p := fun y => y ≠ x)
        (by simpa using same), List.filter_cons, List.filter_cons, ih]

theorem cons_filter_iff {xs : List α} (distinct : xs.Nodup) :
    d :: xs.filter (fun y => !y == d) = xs ↔ xs.head? = some d := by
  cases xs with
  | nil => exact iff_of_false nofun nofun
  | cons y ys =>
    constructor
    · intro same
      rw [(List.cons.inj same).1, List.head?_cons]
    · intro first
      obtain rfl := Option.some.inj first
      rw [List.filter_cons_of_neg (by simp), filter_ne_nodup distinct]

variable {p : α}

/-- With `x` read as `d` and without `p`, a list has the elements it has without `x`, in
their order, exactly if `x` is read as `p` or as an element that came before or comes next. -/
theorem eraseDups_readAs_iff (distinct : (xs.filter (· ≠ x)).Nodup) (absent : p ∉ xs)
    (member : x ∈ xs) :
    ((xs.map (readAs x d)).filter (· ≠ p)).eraseDups = xs.filter (· ≠ x) ↔
      d = p ∨ d ∈ beforeFirst x xs ∨ (afterFirst x xs).head? = some d := by
  have others : ∀ y ∈ xs, decide (y ≠ p) = true := fun y inside =>
    decide_eq_true fun same => absent (same ▸ inside)
  by_cases dropped : d = p
  · refine iff_of_true ?_ (.inl dropped)
    rw [filter_readAs d (by simpa using dropped) fun y inside _ => others y inside,
      eraseDups_of_nodup distinct]
  have all : (xs.map (readAs x d)).filter (· ≠ p) = xs.map (readAs x d) := by
    refine List.filter_eq_self.mpr fun y inside => ?_
    obtain ⟨z, listed, rfl⟩ := List.mem_map.mp inside
    unfold readAs
    split
    · exact decide_eq_true dropped
    · exact others z listed
  obtain ⟨rest, from_, after⟩ := dropWhile_of_mem member
  have parts : xs = beforeFirst x xs ++ x :: rest := by
    rw [← from_]
    exact List.takeWhile_append_dropWhile.symm
  have read : xs.map (readAs x d) = beforeFirst x xs ++ d :: rest.map (readAs x d) := by
    have here : readAs x d x = d := if_pos rfl
    conv_lhs => rw [parts]
    rw [List.map_append, List.map_cons, here,
      map_readAs_of_not_mem x d (not_mem_beforeFirst x xs)]
  rw [filter_ne_split x xs] at distinct ⊢
  obtain ⟨beforeDistinct, afterDistinct, apart⟩ := List.nodup_append.mp distinct
  rw [all, read, List.eraseDups_append, eraseDups_of_nodup beforeDistinct, List.append_right_inj,
    List.removeAll]
  have outside : ∀ y ∈ rest, y ≠ x → (!(beforeFirst x xs).elem y) = true := by
    intro y inside ne
    have later : y ∈ afterFirst x xs := by
      rw [after]
      exact List.mem_filter.mpr ⟨inside, decide_eq_true ne⟩
    have free : y ∉ beforeFirst x xs := fun early => apart y early y later rfl
    simpa using free
  by_cases early : d ∈ beforeFirst x xs
  · have drops : (!(beforeFirst x xs).elem d) = false := by simpa using early
    refine iff_of_true ?_ (.inr (.inl early))
    rw [List.filter_cons_of_neg (p := fun y => !(beforeFirst x xs).elem y)
      (by rw [drops]; decide), filter_readAs d drops outside, ← after,
      eraseDups_of_nodup afterDistinct]
  · have keeps : (!(beforeFirst x xs).elem d) = true := by simpa using early
    have whole : (rest.map (readAs x d)).filter (fun y => !(beforeFirst x xs).elem y) =
        rest.map (readAs x d) := by
      refine List.filter_eq_self.mpr fun y inside => ?_
      obtain ⟨z, listed, rfl⟩ := List.mem_map.mp inside
      unfold readAs
      split
      · exact keeps
      · rename_i ne
        exact outside z listed ne
    rw [List.filter_cons_of_pos (p := fun y => !(beforeFirst x xs).elem y) keeps, whole, List.eraseDups_cons, filter_ne_readAs, ← after,
      eraseDups_of_nodup (afterDistinct.filter _), cons_filter_iff d afterDistinct]
    simp only [dropped, early, false_or]

end

end PgCatalog.Library
