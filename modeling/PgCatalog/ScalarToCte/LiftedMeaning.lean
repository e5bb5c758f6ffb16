import Std.Data.String.ToNat
import PgCatalog.Library.Text
import PgCatalog.Replace.LateralAggregate
import PgCatalog.ScalarToCte.Reports
import PgCatalog.Semantics.Widening

/-! What a correlated aggregate is worth beside a row of the enclosing query, and what the LEFT
JOIN with its CTE puts there. -/
namespace PgCatalog.ScalarToCte

open Sql Library Semantics
open Replace (verdict equals)

theorem toLower_digits (n : Nat) : (toString n).toList.map Char.toLower = (toString n).toList := by
  refine (List.map_congr_left fun c member => ?_).trans (List.map_id _)
  have digit : c.isDigit = true := by
    refine Nat.isDigit_of_mem_toDigits (b := 10) (n := n) (by decide) (by decide) ?_
    rw [Nat.toString_eq_repr, Nat.repr, String.toList_ofList] at member
    exact member
  have high : c.toNat ≤ 57 := (Char.isDigit_iff_toNat.mp digit).2
  refine dif_neg fun upper => ?_
  have low : 65 ≤ c.toNat := upper.1
  omega

theorem cteName_folded (n : Nat) : (cteName n).folded = "__cte" ++ toString n := by
  change ("__cte" ++ toString n).toLower = _
  have letters : "__cte".toList.map Char.toLower = "__cte".toList := by decide
  rw [← String.toList_inj, toList_toLower, String.toList_append, List.map_append, letters,
    toLower_digits]

/-- No two CTEs have one name. -/
theorem cteName_inj {m n : Nat} (same : (cteName m).folded = (cteName n).folded) : m = n := by
  rw [cteName_folded, cteName_folded] at same
  exact Nat.repr_injective (String.append_right_inj _ |>.mp same)

section
variable {D : Type} (E : Engine D)

/-- Whether a condition is true in a scope. -/
def holds (r : Scope D) (c : Expr) : Bool :=
  ((exprMeaning E c).value r).bind E.truth == some (some true)

/-- Whether a condition has a truth value in a scope, be it the unknown one. -/
def Judged (r : Scope D) (c : Expr) : Prop := ∃ t, (exprMeaning E c).value r = some (E.ofTruth t)

theorem holds_judged {r : Scope D} {c : Expr} {t : Truth}
    (value : (exprMeaning E c).value r = some (E.ofTruth t)) :
    holds E r c = true ↔ t = some true := by
  rw [holds, value, Option.bind_some, E.truth_ofTruth, beq_iff_eq, Option.some_inj]

/-- The conjunction of judged conditions is judged, and true if all of them are. -/
theorem splitAnd_value {r : Scope D} (row : IsRow r) {pred : Expr}
    (judged : ∀ c ∈ splitAnd pred, Judged E r c) :
    ∃ t, (exprMeaning E pred).value r = some (E.ofTruth t) ∧
      (t = some true ↔ ∀ c ∈ splitAnd pred, holds E r c = true) := by
  fun_induction splitAnd pred with
  | case1 left right first second =>
    obtain ⟨t, left_, all⟩ := first fun c member => judged c (List.mem_append_left _ member)
    obtain ⟨u, right_, all'⟩ := second fun c member => judged c (List.mem_append_right _ member)
    refine ⟨t.both u, ?_, ?_⟩
    · rw [exprMeaning, operation_value E _ _ _ row, List.map_cons, List.map_cons, left_, right_]
      exact E.both_truths t u
    · rw [Truth.both_eq_true, all, all', List.forall_mem_append]
  | case2 other isOther =>
    obtain ⟨t, value⟩ := judged other (List.mem_singleton_self _)
    exact ⟨t, value, by rw [List.forall_mem_singleton, holds_judged E value]⟩

/-- A WHERE clause of judged conditions passes the rows in which all of them are true. -/
theorem passes_conjuncts {r : Scope D} (row : IsRow r) {selection : Option Expr}
    (judged : ∀ c ∈ conjuncts selection, Judged E r c) :
    passes E (optionMeaning E selection) r = some ((conjuncts selection).all (holds E r)) := by
  cases selection with
  | none => rfl
  | some pred =>
    obtain ⟨t, value, all⟩ := splitAnd_value E row judged
    rw [optionMeaning, passes, value, Option.bind_some, E.truth_ofTruth, Option.map_some, conjuncts,
      Option.some_inj, Bool.eq_iff_iff, beq_iff_eq, all, List.all_eq_true]

theorem splitAnd_spans {pred : Expr}
    (narrow : ∀ c ∈ splitAnd pred, (exprMeaning E c).spans = false) :
    (exprMeaning E pred).spans = false := by
  fun_induction splitAnd pred with
  | case1 left right first second =>
    have left_ := first fun c member => narrow c (List.mem_append_left _ member)
    have right_ := second fun c member => narrow c (List.mem_append_right _ member)
    obtain ⟨aggregates, windows⟩ := Bool.or_eq_false_iff.mp left_
    obtain ⟨aggregates', windows'⟩ := Bool.or_eq_false_iff.mp right_
    rw [exprMeaning]
    simp [Meaning.spans, operation, aggregates, windows, aggregates', windows']
  | case2 other isOther => exact narrow other (List.mem_singleton_self _)

theorem conjuncts_spans {selection : Option Expr}
    (narrow : ∀ c ∈ conjuncts selection, (exprMeaning E c).spans = false) :
    (optionMeaning E selection).any (·.spans) = false := by
  cases selection with
  | none => rfl
  | some pred => exact splitAnd_spans E narrow

/-- What an aggregate gets from one row: the values of its operands there. -/
def operandsIn (f : Function) (s : Scope D) (columns : List Column) (cells : List D) :
    List (Option D) :=
  (operandMeanings E f).map (·.value (s.under (.row columns cells)))

/-- In a group an aggregate call is read over its rows, if it is no key. -/
theorem aggregate_value {f : Function} (called : E.aggregates f.name = true)
    (plain : (callShape f).over_ = none) (s : Scope D) (columns : List Column)
    (rows : List (List D)) (key : Expr → Option D) :
    (exprMeaning E (.function f)).value (s.under (.group columns rows key)) =
      (key (.function f)).or (E.aggregate (callShape f) (rows.map (operandsIn E f s columns))) := by
  have over_ : (callShape f).over_.isSome = false := by
    rw [plain]
    rfl
  have name : E.aggregates (callShape f).name = true := called
  rw [function_meaning, call, over_, if_neg Bool.false_ne_true, if_pos name]
  rfl

theorem aggregate_aggregates {f : Function} (called : E.aggregates f.name = true)
    (plain : (callShape f).over_ = none) : (exprMeaning E (.function f)).aggregates = true := by
  have over_ : (callShape f).over_.isSome = false := by
    rw [plain]
    rfl
  have name : E.aggregates (callShape f).name = true := called
  rw [function_meaning, call, over_, if_neg Bool.false_ne_true, if_pos name]

/-- An AND of equalities of columns, or no condition. -/
def equates : Expr → Bool
  | .binaryOp left .and right => equates left && equates right
  | .binaryOp (.compoundIdentifier _) .eq (.compoundIdentifier _) => true
  | .value (.boolean true) => true
  | _ => false

def coalesceShape : CallShape where
  name := [.identifier (.new "coalesce")]
  args := .list false [.expr none, .expr none] []

/-- The columns of a table that a query reads by its own name. -/
def qualified (name : Ident) (t : Table D) : List Column :=
  t.columns.map fun c => ⟨[name.folded], c.name⟩

/-- A relation name of one part. -/
def Names (name : ObjectName) (id : Ident) : Prop :=
  name.map (fun part => part.asIdent.map Ident.folded) = [some id.folded]

/-- What the rewrite relies on the engine for: `true` is true; equality is symmetric, and groups
as GROUP BY does; a column of a table is grouped by, and shown, under its name; `coalesce` gives
its first value that is not NULL; a table has its columns under its alias whatever it is called
by, a FROM clause of tables reads only these, and a LEFT JOIN puts beside each row what it meets
of the table, or NULLs. -/
structure LiftPromises : Prop where
  literal_true : E.operator (.value (.boolean true)) [] = some (E.ofTruth (some true))
  equal_symm : ∀ a b, verdict E a b = verdict E b a
  grouping : ∃ same : D → D → Bool,
    (∀ xs ys, xs.length = ys.length →
      E.sameRow xs ys = (xs.zip ys).all fun pair => same pair.1 pair.2) ∧
    (∀ a b, same a b = same b a) ∧ ∀ a b c, equals E b c = true → same a b = equals E a c
  same_column : ∀ q x y : Ident,
    E.sameExpr (.compoundIdentifier [q, x]) (.compoundIdentifier [q, y]) =
      decide (x.folded = y.folded)
  same_call : ∀ parts f, E.sameExpr (.compoundIdentifier parts) (.function f) = false
  shown : ∀ q x : Ident, E.nameOf (.compoundIdentifier [q, x]) = x.folded
  no_aggregate : E.aggregates coalesceShape.name = false
  coalesce_null : ∀ b, E.operator (.call coalesceShape) [some E.null, some b] = some b
  coalesce_some : ∀ a b, a ≠ E.null → E.operator (.call coalesceShape) [some a, some b] = some a
  table : ∀ (s s' : Scope D) name name' alias_, s.relation name = s'.relation name' →
    E.source s (aliased name alias_) = E.source s' (aliased name' alias_)
  tables : ∀ (s s' : Scope D) relation joins, s.frames = s'.frames →
    (∀ factor ∈ tableFactors [⟨relation, joins⟩], ∃ name alias_, factor = .table name alias_ none ∧
      s.relation name = s'.relation name) →
    (∀ x ∈ visitedFrom [⟨relation, joins⟩], isRowwise x = true) →
    E.source s [⟨relation, joins⟩] = E.source s' [⟨relation, joins⟩]
  joined : ∀ (s : Scope D) relation joins name kind on_ left t lists,
    keepsUnmatched kind = true → equates on_ = true →
    E.source s [⟨relation, joins⟩] = some left → s.relation [.identifier name] = some t →
    left.rows.mapM (fun l => besideRow E s kind left.columns (qualified name t) on_ l t.rows) =
      some lists →
    ∃ whole, E.source s [⟨relation, joins ++ [⟨plainTable name, kind, .on on_⟩]⟩] = some whole ∧
      whole.columns = left.columns ++ qualified name t ∧ whole.rows.Perm lists.flatten

end

namespace ScalarAggregate
variable (outerAliases : List Ident) (a : ScalarAggregate)

/-- The expressions that read the table. -/
def exprs : List Expr := (Expr.function a.call).visited ++ visitedOption a.selection

variable {D : Type} (E : Engine D) (s : Scope D) (left t : Table D)

/-- Whether the conditions on the table alone hold in a row of it. -/
def passed (cells : List D) : Bool :=
  (a.locals outerAliases).all (holds E (s.under (.row t.columns cells)))

/-- Whether a row of the enclosing query is equal to one of the table in all that is compared. -/
def meets (l cells : List D) : Bool :=
  (a.pairs outerAliases).all fun p =>
    equals E (cellOf E left.columns (folded p.outer) l) (cellOf E t.columns (folded p.inner) cells)

def passedRows : List (List D) := t.rows.filter (a.passed outerAliases E s t)

/-- The rows of the table that the aggregate is over beside a row of the enclosing query. -/
def matched (l : List D) : List (List D) :=
  (a.passedRows outerAliases E s t).filter (a.meets outerAliases E left t l)

/-- The aggregate can be evaluated over every choice of the table's rows, and is then a given
value of them, NULL or zero over none: its columns are the table's, its conditions have truth
values, and the columns it is compared with are those of the enclosing FROM clause. -/
structure Evaluates (value : List (List D) → D) : Prop where
  source : E.source s (aliased a.table a.alias_) = some t
  catalog : s.relation (catalogued a.table) = s.relation a.table
  wide : ∀ cells ∈ t.rows, cells.length = t.columns.length
  columns : ∀ name, .compoundIdentifier [a.alias_, name] ∈ a.exprs →
    IsColumn t.columns (folded [a.alias_, name])
  outer : ∀ p ∈ a.pairs outerAliases, IsColumn left.columns (folded p.outer) ∧
    ∀ c ∈ t.columns, c.answers (folded p.outer) = false
  compared : ∀ p ∈ a.pairs outerAliases, ∀ l ∈ left.rows, ∀ cells ∈ t.rows, ∃ truth,
    verdict E (cellOf E left.columns (folded p.outer) l)
      (cellOf E t.columns (folded p.inner) cells) = some truth
  narrow : ∀ c ∈ a.locals outerAliases, (exprMeaning E c).spans = false
  judged : ∀ c ∈ a.locals outerAliases, ∀ cells ∈ t.rows,
    Judged E (s.under (.row t.columns cells)) c
  called : E.aggregates a.call.name = true
  total : ∀ rows, rows.Sublist t.rows →
    E.aggregate (callShape a.call) (rows.map (operandsIn E a.call s t.columns)) = some (value rows)
  empty : value [] = if counts a.call then E.number 0 else E.null
  counted : counts a.call = true → ∀ rows, rows.Sublist t.rows → value rows ≠ E.null
  single : ∀ rows, rows.Sublist t.rows → ∀ keys, (∀ k ∈ keys, ∃ cells ∈ t.rows, k ∈ cells) →
    E.unfold (value rows :: keys) = [value rows :: keys]

end ScalarAggregate

theorem visited_conjunct {selection : Option Expr} {c x : Expr}
    (conjunct : c ∈ conjuncts selection) (inside : x ∈ c.visited) :
    x ∈ visitedOption selection := by
  cases selection with
  | none => cases conjunct
  | some pred =>
    change c ∈ splitAnd pred at conjunct
    change x ∈ pred.visited
    fun_induction splitAnd pred with
    | case1 left right first second =>
      apply List.mem_cons_of_mem
      refine (List.mem_append.mp conjunct).elim (fun there => ?_) fun there => ?_
      · exact List.mem_append_left _ (first there)
      · exact List.mem_append_right _ (second there)
    | case2 other isOther =>
      obtain rfl := List.mem_singleton.mp conjunct
      exact inside

section
variable {D : Type} {E : Engine D} {s : Scope D} {left t : Table D} {outerAliases : List Ident}
  {a : ScalarAggregate} {value : List (List D) → D} {l cells : List D}

theorem judged_of_truth {r : Scope D} {c : Expr} {truth : Truth}
    (read : ((exprMeaning E c).value r).bind E.truth = some truth) : Judged E r c := by
  obtain ⟨d, value, same⟩ := Option.bind_eq_some_iff.mp read
  exact ⟨truth, value.trans (congrArg some (E.ofTruth_truth d truth same))⟩

/-- An equality of columns, whichever stands first. -/
theorem spelled_truth (promises : LiftPromises E) {r : Scope D} (row : IsRow r) {c : Expr}
    {outer alias_ column key : Ident} (spelled : Spells c (equation outer alias_ column key))
    {o k : D} (first : ∀ e, lookup e (folded [outer, column]) r.frames = some o)
    (second : ∀ e, lookup e (folded [alias_, key]) r.frames = some k) :
    ((exprMeaning E c).value r).bind E.truth = verdict E o k := by
  obtain rfl | rfl := spelled
  · rw [exprMeaning, operation_value E _ _ _ row, exprMeaning, exprMeaning, List.map_cons,
      List.map_cons, column_value _ _ row, column_value _ _ row]
    change Option.bind (E.operator _ [lookup _ (folded [outer, column]) _,
      lookup _ (folded [alias_, key]) _]) _ = _
    rw [first, second]
    rfl
  · rw [exprMeaning, operation_value E _ _ _ row, exprMeaning, exprMeaning, List.map_cons,
      List.map_cons, column_value _ _ row, column_value _ _ row]
    change Option.bind (E.operator _ [lookup _ (folded [alias_, key]) _,
      lookup _ (folded [outer, column]) _]) _ = _
    rw [first, second]
    exact promises.equal_symm k o

/-- What reads the table alone reads the same wherever the table is. -/
theorem readAlike_own {s s' : Scope D} {exprs : List Expr} (reads : ReadsOnly a.alias_ exprs)
    (columns : ∀ name, .compoundIdentifier [a.alias_, name] ∈ exprs →
      IsColumn t.columns (folded [a.alias_, name])) :
    ReadAlike (s.under (.row t.columns cells)) (s'.under (.row t.columns cells)) exprs := by
  intro x member
  obtain ⟨rowwise, column⟩ := reads x member
  refine ⟨rowwise, fun parts reference => ?_⟩
  have isColumn : isColumn x = true := by
    cases x <;> first | rfl | cases reference
  obtain ⟨name, rfl⟩ := column isColumn
  obtain rfl := Option.some.inj reference
  exact lookup_inside (columns name member)

theorem under_isRow (s : Scope D) (columns : List Column) (cells : List D) :
    IsRow (s.under (.row columns cells)) := ⟨s, columns, cells, rfl⟩

section
variable (plain : a.Correlated outerAliases) (evaluates : a.Evaluates outerAliases E s left t value)
include plain evaluates

theorem operandsIn_same (s' : Scope D) :
    operandsIn E a.call s' t.columns cells = operandsIn E a.call s t.columns cells := by
  have alike : ReadAlike (s'.under (.row t.columns cells)) (s.under (.row t.columns cells))
      (Expr.function a.call).visited :=
    readAlike_own plain.call fun name member =>
      evaluates.columns name (List.mem_append_left _ member)
  exact operands_alike E (under_isRow _ _ _) (under_isRow _ _ _) a.call
    (alike _ List.mem_cons_self).1 (readAlike_cons.mp alike).2

theorem local_same {c : Expr} (listed : c ∈ a.locals outerAliases) (s' : Scope D)
    (cells : List D) :
    (exprMeaning E c).value (s'.under (.row t.columns cells)) =
      (exprMeaning E c).value (s.under (.row t.columns cells)) := by
  have conjunct := (List.mem_filter.mp listed).1
  obtain ⟨_, reads⟩ | ⟨gone, _⟩ := conjunct_cases plain conjunct
  · refine expr_alike E (under_isRow _ _ _) (under_isRow _ _ _) c (readAlike_own reads ?_)
    exact fun name member => evaluates.columns name
      (List.mem_append_right _ (visited_conjunct conjunct member))
  · exact absurd listed gone

theorem inner_column {p : CorrelatedPredicate} (paired : p ∈ a.pairs outerAliases) :
    IsColumn t.columns (folded p.inner) := by
  obtain ⟨outer, _, column, key, rfl, c, conjunct, spelled⟩ := pair_cases plain paired
  refine evaluates.columns key (List.mem_append_right _ (visited_conjunct conjunct ?_))
  obtain rfl | rfl := spelled
  · exact List.mem_cons_of_mem _ (List.mem_append_right _ (itself_visited _))
  · exact List.mem_cons_of_mem _ (List.mem_append_left _ (itself_visited _))

variable (promises : LiftPromises E) (outside : ∀ l ∈ left.rows, l.length = left.columns.length)
  (beside : l ∈ left.rows) (row : cells ∈ t.rows)
include promises outside beside row

/-- An equality of the WHERE clause, beside a row of the enclosing query. -/
theorem equality_truth {c : Expr} {p : CorrelatedPredicate} (paired : p ∈ a.pairs outerAliases)
    (spelled : Spells c p) :
    ((exprMeaning E c).value ((s.under (.row left.columns l)).under (.row t.columns cells))).bind
        E.truth = verdict E (cellOf E left.columns (folded p.outer) l)
          (cellOf E t.columns (folded p.inner) cells) := by
  have inner := inner_column plain evaluates paired
  obtain ⟨there, absent⟩ := evaluates.outer p paired
  obtain ⟨outer, _, column, key, rfl, _⟩ := pair_cases plain paired
  refine spelled_truth promises (under_isRow _ _ _) spelled (fun e => ?_) fun e => ?_
  · have none_ : t.columns.findIdxs (·.answers (folded [outer, column])) = [] :=
      List.findIdxs_eq_nil_iff.mpr absent
    change lookup e _ (.row t.columns cells :: .row left.columns l :: s.frames) = _
    rw [lookup, none_]
    exact lookup_cell E there (outside l beside)
  · exact lookup_cell E inner (evaluates.wide cells row)

/-- The WHERE clause of the subquery passes the rows of the table that are matched. -/
theorem where_matched :
    passes E (optionMeaning E a.selection)
        ((s.under (.row left.columns l)).under (.row t.columns cells)) =
      some (a.passed outerAliases E s t cells && a.meets outerAliases E left t l cells) := by
  have local_ : ∀ c ∈ a.locals outerAliases, _ := fun c listed =>
    local_same plain evaluates listed (s.under (.row left.columns l)) cells
  have equal : ∀ p ∈ a.pairs outerAliases, ∀ c, Spells c p → _ := fun p paired c spelled =>
    equality_truth plain evaluates promises outside beside row paired spelled
  have judged : ∀ c ∈ conjuncts a.selection,
      Judged E ((s.under (.row left.columns l)).under (.row t.columns cells)) c := by
    intro c conjunct
    obtain ⟨listed, _⟩ | ⟨_, p, paired, spelled⟩ := conjunct_cases plain conjunct
    · obtain ⟨truth, value⟩ := evaluates.judged c listed cells row
      exact ⟨truth, (local_ c listed).trans value⟩
    · obtain ⟨truth, found⟩ := evaluates.compared p paired l beside cells row
      exact judged_of_truth ((equal p paired c spelled).trans found)
  rw [passes_conjuncts E (under_isRow _ _ _) judged, Option.some_inj, Bool.eq_iff_iff,
    List.all_eq_true, Bool.and_eq_true, ScalarAggregate.passed, ScalarAggregate.meets,
    List.all_eq_true, List.all_eq_true]
  constructor
  · intro all
    constructor
    · intro c listed
      have held := all c (List.mem_filter.mp listed).1
      rw [holds, local_ c listed] at held
      exact held
    · intro p paired
      obtain ⟨_, _, _, _, _, c, conjunct, spelled⟩ := pair_cases plain paired
      have held := all c conjunct
      rw [holds, equal p paired c spelled] at held
      exact held
  · rintro ⟨passed, meets⟩ c conjunct
    obtain ⟨listed, _⟩ | ⟨_, p, paired, spelled⟩ := conjunct_cases plain conjunct
    · rw [holds, local_ c listed]
      exact passed c listed
    · rw [holds, equal p paired c spelled]
      exact meets p paired

end

theorem matched_sublist : (a.matched outerAliases E s left t l).Sublist t.rows :=
  (List.filter_sublist).trans List.filter_sublist

theorem call_over (plain : a.Correlated outerAliases) : (callShape a.call).over_ = none :=
  rowwise_call (plain.call _ (itself_visited _)).1

section
variable (plain : a.Correlated outerAliases) (evaluates : a.Evaluates outerAliases E s left t value)
include plain evaluates

/-- A group without keys of its own gives one row of the aggregate over it. -/
theorem aggregate_item {rows : List (List D)} (within : rows.Sublist t.rows) (s' : Scope D)
    {key : Expr → Option D} (none_ : key (.function a.call) = none) :
    (exprMeaning E (.function a.call)).value (s'.under (.group t.columns rows key)) =
      some (value rows) := by
  rw [aggregate_value E evaluates.called (call_over plain), none_, Option.none_or,
    ← evaluates.total rows within]
  congr 1
  exact List.map_congr_left fun cells _ => operandsIn_same plain evaluates s'

/-- Beside a row of the enclosing query the subquery is its aggregate over what is matched. -/
theorem subquery_value (promises : LiftPromises E)
    (outside : ∀ l ∈ left.rows, l.length = left.columns.length) (beside : l ∈ left.rows) :
    (exprMeaning E (.subquery a.query)).value (s.under (.row left.columns l)) =
      some (value (a.matched outerAliases E s left t l)) := by
  have passing : ∀ cells ∈ t.rows, _ := fun cells row =>
    where_matched plain evaluates promises outside beside row
  have kept : (t.rows.filter fun cells => passes E (optionMeaning E a.selection)
      ((s.under (.row left.columns l)).under (.row t.columns cells)) == some true) =
        a.matched outerAliases E s left t l := by
    rw [ScalarAggregate.matched, ScalarAggregate.passedRows, List.filter_filter]
    refine List.filter_congr fun cells row => ?_
    rw [passing cells row, Option.some_beq_some, beq_true, Bool.and_comm]
  have narrow : (optionMeaning E a.selection).any (·.spans) = false := by
    refine conjuncts_spans E fun c conjunct => ?_
    obtain ⟨listed, _⟩ | ⟨_, p, paired, spelled⟩ := conjunct_cases plain conjunct
    · exact evaluates.narrow c listed
    · obtain rfl | rfl := spelled <;> rfl
  have filtered : (clauses E a.select).filtered E (s.under (.row left.columns l)) =
      some ⟨t.columns, a.matched outerAliases E s left t l⟩ := by
    refine (filtered_eq_some E _).mpr ⟨narrow, t, ?_, fun cells row => ⟨_, passing cells row⟩, ?_⟩
    · have same := promises.table (s.under (.row left.columns l)) s a.table a.table a.alias_ rfl
      exact same.trans evaluates.source
    · exact congrArg _ kept.symm
  have grouped : (clauses E a.select).grouped [] = true := by
    have aggregates := aggregate_aggregates E evaluates.called (call_over plain)
    have first : (clauses E a.select).items.any Item.aggregates = true := by
      change ((exprMeaning E (.function a.call)).aggregates || _) = true
      rw [aggregates]
      rfl
    rw [Clauses.grouped, first, Bool.or_true, Bool.true_or]
  have frames : (clauses E a.select).frames E [] (s.under (.row left.columns l))
      ⟨t.columns, a.matched outerAliases E s left t l⟩ =
        some [.group t.columns (a.matched outerAliases E s left t l) fun _ => none] := by
    rw [Clauses.frames, if_pos grouped]
    exact kept_all fun _ _ => rfl
  have listed : listRows E (clauses E a.select) ((s.under (.row left.columns l)).under
      (.group t.columns (a.matched outerAliases E s left t l) fun _ => none)) =
        some [[value (a.matched outerAliases E s left t l)]] := by
    have within : (a.matched outerAliases E s left t l).Sublist t.rows := matched_sublist
    have item : (exprMeaning E (.function a.call)).value ((s.under (.row left.columns l)).under
        (.group t.columns (a.matched outerAliases E s left t l) fun _ => none)) =
          some (value (a.matched outerAliases E s left t l)) :=
      aggregate_item plain evaluates within _ rfl
    have one := evaluates.single _ within [] fun k member => absurd member List.not_mem_nil
    rw [listRows]
    change Option.map _ (List.mapM _ [Item.expr (.function a.call) _ _]) = _
    rw [List.mapM_cons, Item.cells, item]
    exact congrArg some one
  have rows := unordered_answer E (c := clauses E a.select) rfl (s.under (.row left.columns l))
  rw [filtered, Option.bind_some, frames, Option.bind_some, List.mapM_cons, listed] at rows
  obtain ⟨answer, answered, only⟩ := Option.map_eq_some_iff.mp rows
  have query := select_query E none a.select (s.under (.row left.columns l))
  rw [exprMeaning]
  change Option.bind (queryMeaning E ⟨none, .select a.select, [], none, none⟩ _) _ = _
  rw [query]
  change Option.bind (Option.bind (some _) _) _ = _
  rw [Option.bind_some, answered, Option.bind_some, only]
  rfl

end

end

end PgCatalog.ScalarToCte
