import Mathlib.Data.List.Basic

/-! A list up to the first place where a mark stands, and what follows the mark. -/
namespace PgCatalog.Library

variable {α : Type} [DecidableEq α] {mark text body rest : List α}

def upTo (mark : List α) : List α → Option (List α × List α)
  | [] => if mark = [] then some ([], []) else none
  | c :: text =>
    if mark.isPrefixOf (c :: text) then some ([], (c :: text).drop mark.length)
    else (upTo mark text).map fun (body, rest) => (c :: body, rest)

/-- With the mark behind it, the list has no mark before that one. -/
def Unmarked (mark body : List α) : Prop :=
  ∀ pre post, body ++ mark = pre ++ mark ++ post → pre = body

theorem drop_of_isPrefixOf (starts : mark.isPrefixOf text = true) :
    mark ++ text.drop mark.length = text := by
  obtain ⟨rest, rfl⟩ := List.isPrefixOf_iff_prefix.mp starts
  simp

theorem upTo_eq_some (read : upTo mark text = some (body, rest)) : text = body ++ mark ++ rest := by
  induction text generalizing body with
  | nil =>
    rw [upTo, Option.ite_none_right_eq_some] at read
    obtain ⟨rfl, same⟩ := read
    obtain ⟨rfl, rfl⟩ := Prod.mk.inj (Option.some.inj same)
    rfl
  | cons c text ih =>
    rw [upTo] at read
    split at read
    · rename_i starts
      obtain ⟨rfl, rfl⟩ := Prod.mk.inj (Option.some.inj read)
      exact (drop_of_isPrefixOf starts).symm
    · obtain ⟨⟨inner, after⟩, here, same⟩ := Option.map_eq_some_iff.mp read
      obtain ⟨rfl, rfl⟩ := Prod.mk.inj same
      rw [ih here]
      rfl

theorem upTo_append (read : upTo mark text = some (body, rest)) (more : List α) :
    upTo mark (text ++ more) = some (body, rest ++ more) := by
  induction text generalizing body with
  | nil =>
    rw [upTo, Option.ite_none_right_eq_some] at read
    obtain ⟨rfl, same⟩ := read
    obtain ⟨rfl, rfl⟩ := Prod.mk.inj (Option.some.inj same)
    cases more <;> rfl
  | cons c text ih =>
    rw [upTo] at read
    rw [List.cons_append, upTo]
    split at read
    · rename_i starts
      obtain ⟨rfl, rfl⟩ := Prod.mk.inj (Option.some.inj read)
      have starts' : mark.isPrefixOf (c :: (text ++ more)) = true := by
        rw [List.isPrefixOf_iff_prefix] at starts ⊢
        exact starts.trans (List.prefix_append (c :: text) more)
      have within := (List.isPrefixOf_iff_prefix.mp starts).length_le
      rw [if_pos starts', ← List.cons_append, List.drop_append_of_le_length within]
    · rename_i other
      obtain ⟨⟨inner, after⟩, here, same⟩ := Option.map_eq_some_iff.mp read
      obtain ⟨rfl, rfl⟩ := Prod.mk.inj same
      have other' : ¬ mark.isPrefixOf (c :: (text ++ more)) = true := by
        intro starts
        have within := congrArg List.length (upTo_eq_some here)
        simp only [List.length_append] at within
        rw [List.isPrefixOf_iff_prefix] at starts other
        apply other
        apply List.prefix_of_prefix_length_le starts (List.prefix_append (c :: text) more)
        rw [List.length_cons]
        omega
      rw [if_neg other', ih here]
      rfl

/-- No place of the mark comes before the one found. -/
theorem upTo_first (read : upTo mark text = some (body, rest)) {pre post : List α}
    (marked : text = pre ++ mark ++ post) : body.length ≤ pre.length := by
  induction text generalizing body pre with
  | nil =>
    rw [upTo, Option.ite_none_right_eq_some] at read
    obtain ⟨rfl, rfl⟩ := Prod.mk.inj (Option.some.inj read.2)
    exact Nat.zero_le _
  | cons c text ih =>
    rw [upTo] at read
    split at read
    · obtain ⟨rfl, rfl⟩ := Prod.mk.inj (Option.some.inj read)
      exact Nat.zero_le _
    · rename_i other
      obtain ⟨⟨inner, after⟩, here, same⟩ := Option.map_eq_some_iff.mp read
      obtain ⟨rfl, rfl⟩ := Prod.mk.inj same
      cases pre with
      | nil =>
        rw [List.nil_append] at marked
        exact absurd (List.isPrefixOf_iff_prefix.mpr ⟨post, marked.symm⟩) other
      | cons d pre =>
        have tails := (List.cons.inj marked).2
        exact Nat.succ_le_succ (ih here tails)

theorem upTo_marked (mark body rest : List α) :
    ∃ first after, upTo mark (body ++ mark ++ rest) = some (first, after) := by
  induction body with
  | nil =>
    cases marked : mark ++ rest with
    | nil =>
      obtain ⟨rfl, rfl⟩ := List.append_eq_nil_iff.mp marked
      exact ⟨[], [], rfl⟩
    | cons c text =>
      have starts : mark.isPrefixOf (c :: text) = true :=
        List.isPrefixOf_iff_prefix.mpr ⟨rest, marked⟩
      rw [List.nil_append, marked, upTo, if_pos starts]
      exact ⟨_, _, rfl⟩
  | cons c body ih =>
    obtain ⟨first, after, read⟩ := ih
    rw [List.cons_append, List.cons_append, upTo]
    split
    · exact ⟨_, _, rfl⟩
    · rw [read]
      exact ⟨_, _, rfl⟩

/-- The list is read whole exactly if it has no mark of its own. -/
theorem upTo_eq_body_iff :
    upTo mark (body ++ mark ++ rest) = some (body, rest) ↔ Unmarked mark body := by
  obtain ⟨first, after, read⟩ := upTo_marked mark body []
  rw [List.append_nil] at read
  have whole := upTo_append read rest
  have parts := upTo_eq_some read
  constructor
  · intro here pre post marked
    rw [here] at whole
    obtain ⟨rfl, -⟩ := Prod.mk.inj (Option.some.inj whole)
    have least := upTo_first read marked
    have counted := congrArg List.length marked
    simp only [List.length_append] at counted
    rw [List.append_assoc] at marked
    exact (List.append_inj_left marked (by omega)).symm
  · intro unmarked
    obtain rfl := unmarked first after parts
    rw [List.append_assoc, List.append_cancel_left_eq] at parts
    obtain rfl : after = [] := List.append_right_eq_self.mp parts.symm
    exact whole

end PgCatalog.Library
