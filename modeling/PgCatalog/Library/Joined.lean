import Mathlib.Data.List.Basic

/-! Texts joined with a separator, and what shows which ones they were. -/
namespace PgCatalog.Library

variable {s t : String} {texts : List String}

theorem length_intercalate (s : String) (texts : List String) :
    (s.intercalate texts).length =
      (String.join texts).length + s.length * (texts.length - 1) := by
  induction texts with
  | nil => rfl
  | cons text texts ih =>
    cases texts with
    | nil => simp
    | cons next texts =>
      rw [String.intercalate_cons_cons]
      simp only [String.length_append, ih, String.join_cons, List.length_cons, Nat.add_sub_cancel]
      rw [Nat.mul_succ]
      omega

theorem empty_intercalate (texts : List String) : "".intercalate texts = String.join texts := by
  induction texts with
  | nil => simp
  | cons text texts ih =>
    cases texts with
    | nil => simp
    | cons next texts => simp [String.intercalate_cons_cons, ih]

/-- A join shows its separator as soon as there are two texts. -/
theorem intercalate_inj : s.intercalate texts = t.intercalate texts ↔
    s = t ∨ texts.length ≤ 1 := by
  constructor
  · intro same
    cases texts with
    | nil => exact .inr (by simp)
    | cons text texts =>
      cases texts with
      | nil => exact .inr (by simp)
      | cons next texts =>
        have lengths := congrArg String.length same
        simp only [length_intercalate, List.length_cons, Nat.add_sub_cancel] at lengths
        have length : s.length = t.length :=
          Nat.eq_of_mul_eq_mul_right (Nat.succ_pos _) (Nat.add_left_cancel lengths)
        simp only [String.intercalate_cons_cons, String.append_assoc, ← String.toList_inj,
          String.toList_append, List.append_cancel_left_eq] at same
        exact .inl (String.toList_inj.mp (List.append_inj_left same length))
  · rintro (rfl | few)
    · rfl
    · cases texts with
      | nil => rfl
      | cons text texts =>
        obtain rfl : texts = [] := List.length_eq_zero_iff.mp (by simpa using few)
        simp

end PgCatalog.Library
