import Mathlib.Data.List.Lex
import Mathlib.Order.WithBot
import Mathlib.Order.Compare

/-! Nullable values over any linear order, their arrays, and SQL's three-valued
comparisons: `none` is the truth value "unknown". -/
namespace PgCatalog.Library

inductive Comparison where
  | eq | notEq | lt | ltEq | gt | gtEq
  deriving DecidableEq, Repr

namespace Comparison

def holds : Comparison → Ordering → Bool
  | .eq, o => o = .eq
  | .notEq, o => o ≠ .eq
  | .lt, o => o = .lt
  | .ltEq, o => o ≠ .gt
  | .gt, o => o = .gt
  | .gtEq, o => o ≠ .lt

/-- The comparison that reads its operands the other way round. -/
def flip : Comparison → Comparison
  | .lt => .gt
  | .ltEq => .gtEq
  | .gt => .lt
  | .gtEq => .ltEq
  | c => c

theorem holds_swap (c : Comparison) (o : Ordering) : c.holds o.swap = c.flip.holds o := by
  cases c <;> cases o <;> rfl

/-- Only equality and inequality read alike in both directions. -/
theorem flip_eq_self_iff (c : Comparison) : c.flip = c ↔ c = .eq ∨ c = .notEq := by
  cases c <;> decide

/-- Two different orderings tell a comparison from its flip. -/
theorem holds_flip_ne {c : Comparison} (strict : c.flip ≠ c) : c.holds .lt ≠ c.flip.holds .lt := by
  cases c <;> simp_all [flip, holds]

end Comparison

/-- A null, a scalar, or an array, whose null elements are its top. -/
inductive Datum (α : Type) where
  | null
  | scalar (a : α)
  | array (items : List (WithTop α))

namespace Datum
variable {α : Type}

def element : WithTop α → Datum α
  | none => null
  | some a => scalar a

/-- Whether some truth value in the list is true, in three values. -/
def anyTruth (truths : List (Option Bool)) : Option Bool :=
  if some true ∈ truths then some true
  else if none ∈ truths then none
  else some false

variable [LinearOrder α]

/-- The order of two values of one kind; nulls and mixed kinds have none. -/
def order? : Datum α → Datum α → Option Ordering
  | scalar a, scalar b => some (cmp a b)
  | array a, array b => some (cmp a b)
  | _, _ => none

def compare (c : Comparison) (x y : Datum α) : Option Bool := (x.order? y).map c.holds

/-- `x = ANY (y)`: unknown where `y` is no array. -/
def anyEq (x : Datum α) : Datum α → Option Bool
  | array items => anyTruth (items.map fun item => compare .eq x (element item))
  | _ => none

theorem order?_swap (x y : Datum α) : y.order? x = (x.order? y).map Ordering.swap := by
  cases x <;> cases y <;> first | rfl | exact congrArg some (cmp_swap _ _).symm

theorem compare_flip (c : Comparison) (x y : Datum α) : compare c y x = compare c.flip x y := by
  rw [compare, compare, order?_swap, Option.map_map]
  exact congrArg (Option.map · _) (funext c.holds_swap)

/-- Two distinct scalars tell every comparison but equality and inequality from its flip. -/
theorem compare_flip_ne [Nontrivial α] {c : Comparison} (strict : c.flip ≠ c) :
    ∃ x y : Datum α, compare c x y ≠ compare c y x := by
  obtain ⟨a, b, different⟩ := exists_pair_ne α
  wlog less : a < b generalizing a b
  · exact this b a different.symm (lt_of_le_of_ne (not_lt.mp less) different.symm)
  refine ⟨scalar a, scalar b, ?_⟩
  rw [compare_flip c (scalar a) (scalar b)]
  change some (c.holds (cmp a b)) ≠ some (c.flip.holds (cmp a b))
  rw [(cmp_eq_lt_iff a b).mpr less]
  exact fun same => Comparison.holds_flip_ne strict (Option.some.inj same)

/-- The array side of `ANY` cannot be exchanged with the scalar side. -/
theorem anyEq_swap_ne (a : α) : ∃ x y : Datum α, anyEq x y ≠ anyEq y x := by
  refine ⟨scalar a, array [(a : WithTop α)], ?_⟩
  have found : compare .eq (scalar a) (element (a : WithTop α)) = some true := by
    change some (Comparison.eq.holds (cmp a a)) = some true
    rw [cmp_self_eq_eq]
    rfl
  simp only [anyEq, List.map_cons, List.map_nil, found, anyTruth, List.mem_cons, true_or, if_true]
  exact Option.some_ne_none _

end Datum

end PgCatalog.Library
