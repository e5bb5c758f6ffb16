import Mathlib.Data.List.Basic

/-! Three-valued logic: `none` is the truth value "unknown". -/
namespace PgCatalog.Library

abbrev Truth := Option Bool

namespace Truth

def neg : Truth → Truth := Option.map (!·)

def both : Truth → Truth → Truth
  | some false, _ => some false
  | _, some false => some false
  | some true, some true => some true
  | _, _ => none

def either (t u : Truth) : Truth := neg (both (neg t) (neg u))

/-- Whether all of the truths hold. -/
def every (truths : List Truth) : Truth := truths.foldr both (some true)

/-- Whether one of the truths holds. -/
def anyOf (truths : List Truth) : Truth := truths.foldr either (some false)

theorem both_eq_true {t u : Truth} : both t u = some true ↔ t = some true ∧ u = some true := by
  rcases t with _ | _ | _ <;> rcases u with _ | _ | _ <;> simp [both]

theorem either_eq_true {t u : Truth} :
    either t u = some true ↔ t = some true ∨ u = some true := by
  rcases t with _ | _ | _ <;> rcases u with _ | _ | _ <;> simp [either, both, neg]

theorem either_eq_false {t u : Truth} :
    either t u = some false ↔ t = some false ∧ u = some false := by
  rcases t with _ | _ | _ <;> rcases u with _ | _ | _ <;> simp [either, both, neg]

theorem neg_eq_true {t : Truth} : neg t = some true ↔ t = some false := by
  rcases t with _ | _ | _ <;> simp [neg]

theorem every_eq_true {truths : List Truth} :
    every truths = some true ↔ ∀ t ∈ truths, t = some true := by
  induction truths with
  | nil => simp [every]
  | cons t rest ih =>
    rw [List.forall_mem_cons, ← ih]
    exact both_eq_true

theorem anyOf_eq_true {truths : List Truth} :
    anyOf truths = some true ↔ some true ∈ truths := by
  induction truths with
  | nil => simp [anyOf]
  | cons t rest ih =>
    rw [List.mem_cons, ← ih, eq_comm (a := some true)]
    exact either_eq_true

theorem anyOf_eq_false {truths : List Truth} :
    anyOf truths = some false ↔ ∀ t ∈ truths, t = some false := by
  induction truths with
  | nil => simp [anyOf]
  | cons t rest ih =>
    rw [List.forall_mem_cons, ← ih]
    exact either_eq_false

end Truth

end PgCatalog.Library
