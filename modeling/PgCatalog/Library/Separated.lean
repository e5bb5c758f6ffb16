import Mathlib.Data.List.Basic

/-! Two texts with a separator between them, and when two such pairs are one text. -/
namespace PgCatalog.Library

variable {sep a b a' b' : String}

/-- The second pair's first text goes on where the first pair has its separator. -/
def Continues (sep a b a' b' : String) : Prop :=
  ∃ more, more ≠ "" ∧ a' = a ++ more ∧ sep ++ b = more ++ (sep ++ b')

/-- Two pairs read alike, their texts being alike or one going on within the other. -/
def ReadAlike (sep : String) (first second : Prop) (a b a' b' : String) : Prop :=
  (first ∧ second) ∨ Continues sep a b a' b' ∨ Continues sep a' b' a b

theorem append_eq_append_iff : a ++ b = a' ++ b' ↔
    (∃ more, a' = a ++ more ∧ b = more ++ b') ∨ ∃ more, a = a' ++ more ∧ b' = more ++ b := by
  simp only [← String.toList_inj, String.toList_append, List.append_eq_append_iff]
  constructor
  · rintro (⟨more, first, second⟩ | ⟨more, first, second⟩)
    · exact .inl ⟨String.ofList more, by simpa using first, by simpa using second⟩
    · exact .inr ⟨String.ofList more, by simpa using first, by simpa using second⟩
  · rintro (⟨more, first, second⟩ | ⟨more, first, second⟩)
    · exact .inl ⟨more.toList, first, second⟩
    · exact .inr ⟨more.toList, first, second⟩

/-- Pairs are one text exactly if they read alike. -/
theorem separated_eq_iff {first second : Prop} (first_ : a = a' ↔ first)
    (second_ : b = b' ↔ second) :
    a ++ (sep ++ b) = a' ++ (sep ++ b') ↔ ReadAlike sep first second a b a' b' := by
  rw [append_eq_append_iff]
  constructor
  · rintro (⟨more, left, right⟩ | ⟨more, left, right⟩)
    · by_cases none_ : more = ""
      · subst none_
        simp only [String.append_empty, String.empty_append, String.append_right_inj] at left right
        exact .inl ⟨first_.mp left.symm, second_.mp right⟩
      · exact .inr (.inl ⟨more, none_, left, right⟩)
    · by_cases none_ : more = ""
      · subst none_
        simp only [String.append_empty, String.empty_append, String.append_right_inj] at left right
        exact .inl ⟨first_.mp left, second_.mp right.symm⟩
      · exact .inr (.inr ⟨more, none_, left, right⟩)
  · rintro (⟨left, right⟩ | ⟨more, -, left, right⟩ | ⟨more, -, left, right⟩)
    · obtain rfl := first_.mpr left
      obtain rfl := second_.mpr right
      exact .inl ⟨"", by simp, by simp⟩
    · exact .inl ⟨more, left, right⟩
    · exact .inr ⟨more, left, right⟩

end PgCatalog.Library
