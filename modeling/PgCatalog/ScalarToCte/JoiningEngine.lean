import PgCatalog.ScalarToCte.LiftedJoin

/-! The small engine over the natural numbers with `coalesce` and LEFT JOINs, which keeps every
promise that lifting relies on. -/
namespace PgCatalog.ScalarToCte

open Sql Library Semantics
open Replace (verdict equals)

def coalescing : Shape → List (Option Semantics.Cell) → Option Semantics.Cell
  | .call shape, [some a, some b] =>
    if shape = coalesceShape then some (if a = .truth none then b else a) else none
  | shape, operands => Semantics.Cell.operator shape operands

/-- The engine with `coalesce`, by which ON is read. -/
def onEngine : Engine Semantics.Cell where
  __ := naturals
  operator := coalescing
  literal_zero := naturals.literal_zero
  literal_one := naturals.literal_one
  both_truths := naturals.both_truths
  both_short := naturals.both_short
  compared := naturals.compared
  null_compared := naturals.null_compared
  number_gt := naturals.number_gt
  number_eq := naturals.number_eq

/-- One LEFT JOIN of a table on equalities of columns; no other join is known. -/
def leftJoined (s : Scope Semantics.Cell) (left : Table Semantics.Cell) :
    Join → Option (Table Semantics.Cell)
  | ⟨.table [.identifier name] none none, kind, .on on_⟩ =>
    if keepsUnmatched kind && equates on_ then
      (s.relation [.identifier name]).bind fun t =>
        (left.rows.mapM fun l =>
          besideRow onEngine s kind left.columns (qualified name t) on_ l t.rows).map fun lists =>
            ⟨left.columns ++ qualified name t, lists.flatten⟩
    else none
  | _ => none

def joinSource (s : Scope Semantics.Cell) : List TableWithJoins → Option (Table Semantics.Cell)
  | [⟨relation, joins⟩] =>
    (Semantics.Cell.source s [⟨relation, []⟩]).bind fun t => joins.foldlM (leftJoined s) t
  | from_ => Semantics.Cell.source s from_

def joining : Engine Semantics.Cell where
  __ := onEngine
  source := joinSource

theorem onEngine_equates {e : Expr} (equal : equates e = true) :
    exprMeaning joining e = exprMeaning onEngine e := by
  fun_induction equates e with
  | case1 left right first second =>
    obtain ⟨left_, right_⟩ := (Bool.and_eq_true _ _).mp equal
    rw [exprMeaning, exprMeaning, first left_, second right_]
    rfl
  | case2 left right =>
    rw [exprMeaning, exprMeaning, exprMeaning, exprMeaning, exprMeaning, exprMeaning]
    rfl
  | case3 =>
    rw [exprMeaning, exprMeaning]
    rfl
  | case4 => cases equal

theorem joining_besideRow {on_ : Expr} (equal : equates on_ = true) (s : Scope Semantics.Cell)
    (kind : JoinKind) (leftColumns columns : List Column) (l : List Semantics.Cell)
    (rows : List (List Semantics.Cell)) :
    besideRow joining s kind leftColumns columns on_ l rows =
      besideRow onEngine s kind leftColumns columns on_ l rows := by
  rw [besideRow, onEngine_equates equal]
  rfl

/-- ON reads nothing of the scope but the frames. -/
theorem besideRow_frames {on_ : Expr} (equal : equates on_ = true) {s s' : Scope Semantics.Cell}
    (frames : s.frames = s'.frames) (kind : JoinKind) (leftColumns columns : List Column)
    (l : List Semantics.Cell) (rows : List (List Semantics.Cell)) :
    besideRow onEngine s kind leftColumns columns on_ l rows =
      besideRow onEngine s' kind leftColumns columns on_ l rows := by
  have value : ∀ d, (exprMeaning onEngine on_).value
      (s.under (.row (leftColumns ++ columns) (l ++ d))) =
      (exprMeaning onEngine on_).value (s'.under (.row (leftColumns ++ columns) (l ++ d))) := by
    intro d
    refine expr_alike onEngine (under_isRow _ _ _) (under_isRow _ _ _) on_ fun x member => ?_
    refine ⟨equates_rowwise equal x member, fun parts _ => ?_⟩
    change lookup x parts (_ :: s.frames) = lookup x parts (_ :: s'.frames)
    rw [frames]
  rw [besideRow, besideRow]
  congr 1
  refine kept_congr fun d _ => ?_
  rw [passes, passes, value d]

theorem leftJoined_same {s s' : Scope Semantics.Cell} (frames : s.frames = s'.frames) {j : Join}
    (table : ∃ name alias_, j.relation = .table name alias_ none ∧
      s.relation name = s'.relation name)
    (left : Table Semantics.Cell) : leftJoined s left j = leftJoined s' left j := by
  obtain ⟨relation, kind, constraint⟩ := j
  obtain ⟨name, alias_, rfl, same⟩ := table
  unfold leftJoined
  split
  · next name kind on_ written =>
    obtain ⟨written, _⟩ := Join.mk.inj written
    cases written
    split
    · next guard =>
      obtain ⟨_, equal⟩ := (Bool.and_eq_true _ _).mp guard
      rw [same]
      refine Option.bind_congr fun t _ => ?_
      congr 1
      exact mapM_congr fun l _ => besideRow_frames equal frames kind _ _ l t.rows
    · rfl
  · rfl

theorem foldlM_same {s s' : Scope Semantics.Cell} (frames : s.frames = s'.frames)
    {joins : List Join} (tables : ∀ j ∈ joins, ∃ name alias_, j.relation = .table name alias_ none ∧
      s.relation name = s'.relation name) (t : Table Semantics.Cell) :
    joins.foldlM (leftJoined s) t = joins.foldlM (leftJoined s') t := by
  induction joins generalizing t with
  | nil => rfl
  | cons j rest ih =>
    obtain ⟨first, later⟩ := List.forall_mem_cons.mp tables
    rw [List.foldlM_cons, List.foldlM_cons, leftJoined_same frames first]
    exact Option.bind_congr fun t _ => ih later t

theorem zip_all_same {A : Type} [DecidableEq A] {xs ys : List A} (long : xs.length = ys.length) :
    decide (xs = ys) = (xs.zip ys).all fun pair => decide (pair.1 = pair.2) := by
  induction xs generalizing ys with
  | nil =>
    cases ys with
    | nil => rfl
    | cons y rest => cases long
  | cons x rest ih =>
    cases ys with
    | nil => cases long
    | cons y others =>
      rw [List.zip_cons_cons, List.all_cons, ← ih (Nat.succ.inj long), ← Bool.decide_and]
      exact decide_eq_decide.mpr List.cons_eq_cons

theorem joining_promises : LiftPromises joining where
  literal_true := rfl
  equal_symm := Replace.naturals_promises.equal_symm
  grouping := by
    refine ⟨fun a b => decide (a = b), fun _ _ long => zip_all_same long,
      fun a b => decide_eq_decide.mpr eq_comm, fun a b c same => ?_⟩
    have grouped := Replace.naturals_promises.same_key a b c same
    refine (decide_eq_decide.mpr ?_).trans grouped
    exact ⟨fun same => congrArg ([·]) same, fun same => (List.cons.inj same).1⟩
  same_column q x y := by
    refine decide_eq_decide.mpr ⟨fun same => ?_, fun same => ?_⟩
    · exact (List.cons.inj (List.cons.inj same).2).1
    · rw [List.map_cons, List.map_cons, List.map_cons, List.map_cons, same]
  same_call _ _ := rfl
  shown _ _ := rfl
  no_aggregate := by decide
  coalesce_null _ := rfl
  coalesce_some _ _ some_ := congrArg some (if_neg some_)
  table s s' name name' alias_ same := by
    change Option.bind (Option.map _ (s.relation name)) _ =
      Option.bind (Option.map _ (s'.relation name')) _
    rw [same]
    rfl
  tables s s' relation joins frames tables _ := by
    rw [tableFactors, List.flatMap_cons, List.flatMap_nil, List.append_nil, List.forall_mem_cons,
      List.forall_mem_map] at tables
    obtain ⟨⟨name, alias_, rfl, same⟩, later⟩ := tables
    change Option.bind (Option.map _ (s.relation name)) _ =
      Option.bind (Option.map _ (s'.relation name)) _
    rw [same]
    exact Option.bind_congr fun t _ => foldlM_same frames later t
  joined s relation joins name kind on_ left t lists keeps equal source found joined := by
    have rows : left.rows.mapM (fun l => besideRow onEngine s kind left.columns (qualified name t)
        on_ l t.rows) = some lists := by
      rw [← joined]
      exact mapM_congr fun l _ => (joining_besideRow equal s kind _ _ l t.rows).symm
    refine ⟨⟨left.columns ++ qualified name t, lists.flatten⟩, ?_, rfl, .refl _⟩
    obtain ⟨first, plain, folded_⟩ := Option.bind_eq_some_iff.mp source
    change Option.bind (Semantics.Cell.source s [⟨relation, []⟩]) _ = _
    rw [plain, Option.bind_some, List.foldlM_append]
    change Option.bind (joins.foldlM (leftJoined s) first) _ = _
    rw [folded_, Option.bind_some, List.foldlM_cons, plainTable, leftJoined, keeps, equal, found]
    change Option.bind (Option.map _ (left.rows.mapM _)) _ = _
    rw [rows]
    rfl

end PgCatalog.ScalarToCte
