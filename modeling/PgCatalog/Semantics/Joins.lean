import Mathlib.Algebra.BigOperators.Group.List.Basic
import PgCatalog.Library.Multiplicity
import PgCatalog.Semantics.Enclosing
import PgCatalog.Semantics.Rows

/-! An inner or a left join with a derived table, row by row of its left side; and the columns
that a select list shows. -/
namespace PgCatalog.Semantics

open Sql Library

/-- Whether a join keeps the left rows that meet none. -/
def keepsUnmatched : JoinKind → Bool
  | .left | .leftOuter => true
  | _ => false

/-- Whether a select item is a wildcard over a column. -/
def showsColumn (c : Column) : SelectItem → Bool
  | .wildcard => true
  | .qualifiedWildcard of_ => Item.names.qualifies of_ c
  | _ => false

section
variable {D : Type} (E : Engine D)

/-- What a left row meets, or NULLs where it meets nothing and is kept. -/
def padded (keeps : Bool) (width : Nat) (met : List (List D)) : List (List D) :=
  if keeps && met.isEmpty then [List.replicate width E.null] else met

/-- The columns of a derived table whose select list has no wildcards. -/
def derivedColumns (alias_ : TableAlias) (sel : Select) : List Column :=
  (renamed alias_.name alias_.columns
    (⟨((clauses E sel).names []).map (⟨[], ·⟩), []⟩ : Table D)).columns

/-- The rows of a join beside one row of its left side. -/
def besideRow (s : Scope D) (kind : JoinKind) (leftColumns columns : List Column)
    (condition : Expr) (l : List D) (rows : List (List D)) : Option (List (List D)) :=
  (kept (fun d => passes E (some (exprMeaning E condition))
    (s.under (.row (leftColumns ++ columns) (l ++ d)))) rows).map fun met =>
      (padded E (keepsUnmatched kind) columns.length met).map (l ++ ·)

/-- A join with a derived table, which a LATERAL one is anew beside each row of the left side. -/
def joinMeaning (s : Scope D) (left : Table D) : Join → Option (Table D)
  | ⟨.derived lateral ⟨with_, .select sel, orderBy, limit, offset⟩ (some alias_), kind,
      .on condition⟩ =>
    let columns := derivedColumns E alias_ sel
    (if lateral then
      left.rows.mapM fun l =>
        (queryMeaning E ⟨with_, .select sel, orderBy, limit, offset⟩
          (s.under (.row left.columns l))).bind fun a =>
            besideRow E s kind left.columns columns condition l a.rows
    else
      (queryMeaning E ⟨with_, .select sel, orderBy, limit, offset⟩ s).bind fun a =>
        left.rows.mapM fun l => besideRow E s kind left.columns columns condition l a.rows).map
          fun rows => ⟨left.columns ++ columns, rows.flatten⟩
  | _ => none

end

theorem filter_insertIdx {A : Type} (p : A → Bool) {a : A} (fails : p a = false) :
    ∀ (k : Nat) (xs : List A), (xs.insertIdx k a).filter p = xs.filter p
  | 0, xs => by rw [List.insertIdx_zero, List.filter_cons_of_neg (by simp [fails])]
  | _ + 1, [] => rfl
  | k + 1, x :: rest => by
    rw [List.insertIdx_succ_cons, List.filter_cons, List.filter_cons,
      filter_insertIdx p fails k rest]

theorem countP_insertIdx {A : Type} (p : A → Bool) {a : A} (holds : p a = true) :
    ∀ {k : Nat} {xs : List A}, k ≤ xs.length → (xs.insertIdx k a).countP p = xs.countP p + 1
  | 0, xs, _ => by rw [List.insertIdx_zero, List.countP_cons_of_pos holds]
  | k + 1, x :: rest, within => by
    rw [List.insertIdx_succ_cons, List.countP_cons, List.countP_cons,
      countP_insertIdx p holds (Nat.le_of_succ_le_succ within)]
    omega

section
variable {D : Type} {E : Engine D} {c : Column} {k : Nat} {columns : List Column}

theorem item_names_hidden {item : SelectItem} (hidden : showsColumn c item = false) :
    (itemMeaning E item).names (columns.insertIdx k c) = (itemMeaning E item).names columns := by
  cases item with
  | unnamedExpr e => rfl
  | exprWithAlias e name => rfl
  | qualifiedWildcard of_ =>
    exact congrArg (List.map _) (filter_insertIdx (Item.names.qualifies of_) hidden k columns)
  | wildcard => cases hidden

/-- An item that shows a column has one more for it, any other none. -/
theorem item_names_length (item : SelectItem) (place : k ≤ columns.length) :
    ((itemMeaning E item).names (columns.insertIdx k c)).length =
      ((itemMeaning E item).names columns).length + if showsColumn c item then 1 else 0 := by
  cases shown : showsColumn c item with
  | false => rw [item_names_hidden shown]; rfl
  | true =>
    cases item with
    | unnamedExpr e => cases shown
    | exprWithAlias e name => cases shown
    | qualifiedWildcard of_ =>
      change ((List.filter _ _).map _).length = ((List.filter _ _).map _).length + 1
      rw [List.length_map, List.length_map, ← List.countP_eq_length_filter,
        ← List.countP_eq_length_filter]
      exact countP_insertIdx (Item.names.qualifies of_) shown place
    | wildcard =>
      change (List.map _ _).length = (List.map _ _).length + 1
      rw [List.length_map, List.length_map, List.length_insertIdx_of_le_length place]

/-- A select list has the same columns with one more in FROM exactly if no item shows it. -/
theorem names_same_iff (place : k ≤ columns.length) (projection : List SelectItem) :
    (projection.map (itemMeaning E)).flatMap (Item.names (columns.insertIdx k c)) =
      (projection.map (itemMeaning E)).flatMap (Item.names columns) ↔
        ∀ item ∈ projection, showsColumn c item = false := by
  constructor
  · intro same item member
    have lengths := congrArg List.length same
    rw [List.flatMap_map, List.flatMap_map, List.length_flatMap, List.length_flatMap,
      List.map_congr_left fun item _ => item_names_length item place, List.sum_map_add] at lengths
    have none_ : (projection.map fun item => if showsColumn c item then 1 else 0).sum = 0 := by
      omega
    have zero := List.sum_eq_zero_iff_forall_eq_nat.mp none_ _ (List.mem_map_of_mem member)
    simpa using zero
  · intro hidden
    rw [List.flatMap_map, List.flatMap_map]
    exact List.flatMap_congr fun item member => item_names_hidden (hidden item member)

end

section
variable {D : Type} (E : Engine D)

theorem padded_perm {keeps : Bool} {width : Nat} {xs ys : List (List D)} (same : xs.Perm ys) :
    (padded E keeps width xs).Perm (padded E keeps width ys) := by
  have empty : xs.isEmpty = ys.isEmpty := by
    rw [Bool.eq_iff_iff, List.isEmpty_iff_length_eq_zero, List.isEmpty_iff_length_eq_zero,
      same.length_eq]
  unfold padded
  rw [empty]
  split
  · exact .refl _
  · exact same

/-- Rows stand for no row exactly if there are none, or one of NULLs where that takes the place
of none. -/
theorem padded_none_iff {keeps : Bool} {width : Nat} {xs : List (List D)} :
    (padded E keeps width xs).Perm (padded E keeps width []) ↔
      xs = [] ∨ keeps = true ∧ xs = [List.replicate width E.null] := by
  unfold padded
  cases keeps with
  | false => simp
  | true =>
    cases xs with
    | nil => simp
    | cons x rest => simp

/-- The first column taken off the rows of a join. -/
theorem padded_tail {keeps : Bool} {width : Nat} {met : List (List D)} :
    (padded E keeps (width + 1) met).map List.tail = padded E keeps width (met.map List.tail) := by
  unfold padded
  rw [List.isEmpty_map]
  split
  · rfl
  · rfl

/-- Two joins of the same left rows have the same rows exactly if beside each of them they do. -/
theorem joined_perm_iff {rows : List (List D)} {n : Nat} (wide : ∀ l ∈ rows, l.length = n)
    {f g : List D → List (List D)} :
    (rows.flatMap fun l => (f l).map (l ++ ·)).Perm (rows.flatMap fun l => (g l).map (l ++ ·)) ↔
      ∀ l ∈ rows, (f l).Perm (g l) := by
  apply flatMap_perm_iff
  intro l member l' member' d d' same
  exact List.append_inj same ((wide l member).trans (wide l' member').symm)

end

end PgCatalog.Semantics
