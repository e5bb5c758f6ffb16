import Mathlib.Data.List.ReduceOption
import PgCatalog.ScalarToCte.Rewriter

/-! When the rewriter adds no grouping: for one SELECT, and for statements that hold no
subquery, where grouping is all it could do. -/
namespace PgCatalog.ScalarToCte

open Sql

mutual

/-- The parts of an expression under operators, casts, tests, parentheses, CASE and the
plain arguments of functions, without the arguments of an aggregate. -/
def openParts : Expr → List Expr
  | .function ⟨name, args, filter, over_, withinGroup⟩ =>
    .function ⟨name, args, filter, over_, withinGroup⟩ ::
      if isAggregate ⟨name, args, filter, over_, withinGroup⟩ then [] else openArguments args
  | .binaryOp left op right => .binaryOp left op right :: (openParts left ++ openParts right)
  | .isDistinctFrom left right => .isDistinctFrom left right :: (openParts left ++ openParts right)
  | .isNotDistinctFrom left right =>
    .isNotDistinctFrom left right :: (openParts left ++ openParts right)
  | .nested inner => .nested inner :: openParts inner
  | .unaryOp op inner => .unaryOp op inner :: openParts inner
  | .cast kind inner dataType => .cast kind inner dataType :: openParts inner
  | .isTest test inner => .isTest test inner :: openParts inner
  | .case operand conditions elseResult =>
    .case operand conditions elseResult ::
      (openOption operand ++ openCases conditions ++ openOption elseResult)
  | e => [e]

def openOption : Option Expr → List Expr
  | none => []
  | some e => openParts e

def openCases : List CaseWhen → List Expr
  | [] => []
  | ⟨condition, result⟩ :: rest => openParts condition ++ openParts result ++ openCases rest

def openArguments : FunctionArguments → List Expr
  | .list _ args _ => openArgs args
  | _ => []

def openArgs : List FunctionArg → List Expr
  | [] => []
  | .unnamed (.expr e) :: rest => openParts e ++ openArgs rest
  | _ :: rest => openArgs rest

end

def isColumn : Expr → Bool
  | .identifier _ | .compoundIdentifier _ => true
  | _ => false

def isAggregateCall : Expr → Bool
  | .function f => isAggregate f
  | _ => false

/-- A SELECT that is never grouped: it is grouped already, expands a wildcard or reads an
unnested array; or no open part is a column; or none is a call by an aggregate's name, and
there are as many open columns as items that are no bare constants. -/
def GroupingQuiet (sel : Select) : Prop :=
  hasUserGroupBy sel.groupBy = true ∨ bailsOut sel.projection = true ∨
    ((countedExprs sel.projection).flatMap openParts).countP isColumn = 0 ∨
    ((countedExprs sel.projection).flatMap openParts).any isAggregateCall = false ∧
      (countedExprs sel.projection).length ≤
        ((countedExprs sel.projection).flatMap openParts).countP isColumn

instance (sel : Select) : Decidable (GroupingQuiet sel) :=
  inferInstanceAs (Decidable (_ ∨ _ ∨ _ ∨ _ ∧ _))

/-- A walk that found what the parts hold: an aggregate among them, and their columns. -/
def Finds (found : GroupByColumns) (parts : List Expr) : Prop :=
  found.hasAggr = parts.any isAggregateCall ∧ found.cols.map (·.expr) = parts.filter isColumn

theorem finds_nil : Finds .none [] := ⟨rfl, rfl⟩

theorem finds_other {e : Expr} (noColumn : isColumn e = false) (noCall : isAggregateCall e = false) :
    Finds .none [e] := by
  constructor
  · simp only [GroupByColumns.none, List.any_cons, noCall, List.any_nil, Bool.or_false]
  · rw [List.filter_cons_of_neg (by simp [noColumn])]
    rfl

theorem Finds.both {a b : GroupByColumns} {first second : List Expr} (left : Finds a first)
    (right : Finds b second) : Finds (a.both b) (first ++ second) := by
  constructor
  · rw [GroupByColumns.both, List.any_append, left.1, right.1]
  · rw [GroupByColumns.both, List.map_append, List.filter_append, left.2, right.2]

theorem Finds.under {found : GroupByColumns} {parts : List Expr} (inner : Finds found parts)
    {e : Expr} (noColumn : isColumn e = false) (noCall : isAggregateCall e = false) :
    Finds found (e :: parts) := by
  constructor
  · rw [List.any_cons, noCall, Bool.false_or, inner.1]
  · rw [List.filter_cons_of_neg (by simp [noColumn]), inner.2]

theorem Finds.count {found : GroupByColumns} {parts : List Expr} (holds : Finds found parts) :
    found.cols.length = parts.countP isColumn := by
  rw [List.countP_eq_length_filter, ← holds.2, List.length_map]

mutual

/-- Below an aggregate the walk collects no column. -/
theorem collect_inside : ∀ e : Expr, (collectGroupByColumns true e).cols = []
  | .function ⟨_, args, _, _, _⟩ => by
    simp only [collectGroupByColumns, GroupByColumns.both, Bool.true_or, List.nil_append]
    exact collectArguments_inside args
  | .compoundIdentifier _ => rfl
  | .identifier _ => rfl
  | .binaryOp left _ right => by
    simp only [collectGroupByColumns, GroupByColumns.both, collect_inside left, collect_inside right,
      List.append_nil]
  | .isDistinctFrom left right => by
    simp only [collectGroupByColumns, GroupByColumns.both, collect_inside left, collect_inside right,
      List.append_nil]
  | .isNotDistinctFrom left right => by
    simp only [collectGroupByColumns, GroupByColumns.both, collect_inside left, collect_inside right,
      List.append_nil]
  | .nested inner => by rw [collectGroupByColumns]; exact collect_inside inner
  | .unaryOp _ inner => by rw [collectGroupByColumns]; exact collect_inside inner
  | .cast _ inner _ => by rw [collectGroupByColumns]; exact collect_inside inner
  | .isTest _ inner => by rw [collectGroupByColumns]; exact collect_inside inner
  | .case operand conditions elseResult => by
    simp only [collectGroupByColumns, GroupByColumns.both, collectOption_inside operand,
      collectCases_inside conditions, collectOption_inside elseResult, List.append_nil]
  | .value _ => rfl
  | .anyOp _ _ _ _ => rfl
  | .compoundFieldAccess _ _ => rfl
  | .subquery _ => rfl
  | .exists _ _ => rfl
  | .inSubquery _ _ _ => rfl
  | .node _ _ => rfl

theorem collectOption_inside : ∀ e : Option Expr, (collectOption true e).cols = []
  | none => rfl
  | some e => by rw [collectOption]; exact collect_inside e

theorem collectCases_inside : ∀ cases : List CaseWhen, (collectCases true cases).cols = []
  | [] => rfl
  | ⟨condition, result⟩ :: rest => by
    simp only [collectCases, GroupByColumns.both, collect_inside condition, collect_inside result,
      collectCases_inside rest, List.append_nil]

theorem collectArguments_inside : ∀ args : FunctionArguments, (collectArguments true args).cols = []
  | .list _ args _ => by rw [collectArguments]; exact collectArgs_inside args
  | .none => rfl
  | .subquery _ => rfl

theorem collectArgs_inside : ∀ args : List FunctionArg, (collectArgs true args).cols = []
  | [] => rfl
  | .unnamed (.expr e) :: rest => by
    simp only [collectArgs, GroupByColumns.both, collect_inside e, collectArgs_inside rest,
      List.append_nil]
  | .unnamed (.qualifiedWildcard _) :: rest => by
    simp only [collectArgs, collectArgs_inside rest]
  | .unnamed .wildcard :: rest => by simp only [collectArgs, collectArgs_inside rest]
  | .named _ _ :: rest => by simp only [collectArgs, collectArgs_inside rest]

end

mutual

/-- The walk of an expression finds what its open parts hold. -/
theorem collect_finds : ∀ e : Expr, Finds (collectGroupByColumns false e) (openParts e)
  | .function ⟨name, args, filter, over_, withinGroup⟩ => by
    rw [collectGroupByColumns, openParts]
    by_cases aggregate : isAggregate ⟨name, args, filter, over_, withinGroup⟩ = true
    · simp only [aggregate, if_true, Bool.or_true]
      constructor
      · simp only [GroupByColumns.both, Bool.true_or, List.any_cons, isAggregateCall, aggregate]
      · simp only [GroupByColumns.both, collectArguments_inside args, List.nil_append]
        rfl
    · simp only [Bool.not_eq_true] at aggregate
      simp only [aggregate, Bool.false_eq_true, if_false, Bool.or_false]
      exact Finds.under (collectArguments_finds args) rfl aggregate
  | .compoundIdentifier _ => ⟨rfl, rfl⟩
  | .identifier _ => ⟨rfl, rfl⟩
  | .binaryOp left _ right => by
    rw [collectGroupByColumns, openParts]
    exact ((collect_finds left).both (collect_finds right)).under rfl rfl
  | .isDistinctFrom left right => by
    rw [collectGroupByColumns, openParts]
    exact ((collect_finds left).both (collect_finds right)).under rfl rfl
  | .isNotDistinctFrom left right => by
    rw [collectGroupByColumns, openParts]
    exact ((collect_finds left).both (collect_finds right)).under rfl rfl
  | .nested inner => by
    rw [collectGroupByColumns, openParts]
    exact (collect_finds inner).under rfl rfl
  | .unaryOp _ inner => by
    rw [collectGroupByColumns, openParts]
    exact (collect_finds inner).under rfl rfl
  | .cast _ inner _ => by
    rw [collectGroupByColumns, openParts]
    exact (collect_finds inner).under rfl rfl
  | .isTest _ inner => by
    rw [collectGroupByColumns, openParts]
    exact (collect_finds inner).under rfl rfl
  | .case operand conditions elseResult => by
    rw [collectGroupByColumns, openParts]
    exact (((collectOption_finds operand).both (collectCases_finds conditions)).both
      (collectOption_finds elseResult)).under rfl rfl
  | .value _ => finds_other rfl rfl
  | .anyOp _ _ _ _ => finds_other rfl rfl
  | .compoundFieldAccess _ _ => finds_other rfl rfl
  | .subquery _ => finds_other rfl rfl
  | .exists _ _ => finds_other rfl rfl
  | .inSubquery _ _ _ => finds_other rfl rfl
  | .node _ _ => finds_other rfl rfl

theorem collectOption_finds : ∀ e : Option Expr, Finds (collectOption false e) (openOption e)
  | none => finds_nil
  | some e => by rw [collectOption, openOption]; exact collect_finds e

theorem collectCases_finds :
    ∀ cases : List CaseWhen, Finds (collectCases false cases) (openCases cases)
  | [] => finds_nil
  | ⟨condition, result⟩ :: rest => by
    rw [collectCases, openCases]
    exact ((collect_finds condition).both (collect_finds result)).both (collectCases_finds rest)

theorem collectArguments_finds :
    ∀ args : FunctionArguments, Finds (collectArguments false args) (openArguments args)
  | .list _ args _ => by rw [collectArguments, openArguments]; exact collectArgs_finds args
  | .none => finds_nil
  | .subquery _ => finds_nil

theorem collectArgs_finds :
    ∀ args : List FunctionArg, Finds (collectArgs false args) (openArgs args)
  | [] => finds_nil
  | .unnamed (.expr e) :: rest => by
    rw [collectArgs, openArgs]
    exact (collect_finds e).both (collectArgs_finds rest)
  | .unnamed (.qualifiedWildcard _) :: rest => by
    simp only [collectArgs, openArgs]; exact collectArgs_finds rest
  | .unnamed .wildcard :: rest => by simp only [collectArgs, openArgs]; exact collectArgs_finds rest
  | .named _ _ :: rest => by simp only [collectArgs, openArgs]; exact collectArgs_finds rest

end

theorem collectProjection_finds (exprs : List Expr) :
    Finds (collectProjection exprs) (exprs.flatMap openParts) := by
  suffices from_found : ∀ found parts, Finds found parts →
      Finds (exprs.foldl (fun found e => found.both (collectGroupByColumns false e)) found)
        (parts ++ exprs.flatMap openParts) from from_found .none [] finds_nil
  induction exprs with
  | nil =>
    intro found parts holds
    rwa [List.flatMap_nil, List.append_nil]
  | cons e rest ih =>
    intro found parts holds
    rw [List.foldl_cons, List.flatMap_cons, ← List.append_assoc]
    exact ih _ _ (holds.both (collect_finds e))

theorem injectGroupBy_groupBy_iff (sel : Select) :
    (injectGroupBy sel).groupBy = sel.groupBy ↔ GroupingQuiet sel := by
  have found := collectProjection_finds (countedExprs sel.projection)
  have found_aggr := found.1
  have found_cols := found.count
  rw [GroupingQuiet, ← found_aggr, ← found_cols, injectGroupBy]
  by_cases bails : (hasUserGroupBy sel.groupBy || bailsOut sel.projection) = true
  · rw [if_pos bails]
    simp only [Bool.or_eq_true] at bails
    exact iff_of_true rfl (bails.imp_right .inl)
  · rw [if_neg bails]
    simp only [Bool.or_eq_true, not_or, Bool.not_eq_true] at bails
    have ungrouped : sel.groupBy = .expressions [] := by
      cases written : sel.groupBy with
      | all => rw [written] at bails; cases bails.1
      | expressions exprs =>
        rw [written] at bails
        exact congrArg _ (by simpa [hasUserGroupBy] using bails.1)
    simp only [bails, Bool.false_eq_true, false_or]
    generalize collectProjection (countedExprs sel.projection) = found
    split
    · rename_i grouped
      have written_nil : found.cols.foldl pushNew [] = [] ↔ found.cols = [] := by
        simp only [List.eq_nil_iff_forall_not_mem, mem_foldl_pushNew, List.not_mem_nil, false_or]
      simp only [ungrouped, GroupByExpr.expressions.injEq, List.map_eq_nil_iff, written_nil,
        List.length_eq_zero_iff]
      constructor
      · exact .inl
      · rintro (empty | ⟨noAggr, enough⟩)
        · exact empty
        · rw [noAggr] at grouped
          simp only [Bool.false_eq_true, false_or] at grouped
          exact absurd grouped.2 (Nat.not_lt.mpr enough)
    · rename_i ungrouped'
      simp only [not_or, Bool.not_eq_true, not_and, Nat.not_lt, ne_eq] at ungrouped'
      refine iff_of_true rfl ?_
      rw [List.length_eq_zero_iff]
      exact or_iff_not_imp_left.mpr fun some_ => ⟨ungrouped'.1, ungrouped'.2 some_⟩

mutual

/-- The SELECTs a visit of a query groups: those of its body and of its derived tables. -/
def selectsOf : Query → List Select
  | ⟨_, body, _, _, _⟩ => selectsOfBody body

def selectsOfBody : SetExpr → List Select
  | .select ⟨distinct, projection, from_, selection, groupBy, having⟩ =>
    ⟨distinct, projection, from_, selection, groupBy, having⟩ :: selectsOfFrom from_
  | .query q => selectsOf q
  | .setOperation _ _ left right => selectsOfBody left ++ selectsOfBody right
  | .values _ => []

def selectsOfFrom : List TableWithJoins → List Select
  | [] => []
  | entry :: rest => selectsOfEntry entry ++ selectsOfFrom rest

def selectsOfEntry : TableWithJoins → List Select
  | ⟨relation, joins⟩ => selectsOfFactor relation ++ selectsOfJoins joins

def selectsOfJoins : List Join → List Select
  | [] => []
  | ⟨relation, _, _⟩ :: rest => selectsOfFactor relation ++ selectsOfJoins rest

def selectsOfFactor : TableFactor → List Select
  | .derived _ q _ => selectsOf q
  | .nestedJoin entry _ => selectsOfEntry entry
  | _ => []

end

mutual

/-- A query with each of these SELECTs grouped where its projection calls for it. -/
def grouped : Query → Query
  | ⟨with_, body, orderBy, limit, offset⟩ => ⟨with_, groupedBody body, orderBy, limit, offset⟩

def groupedBody : SetExpr → SetExpr
  | .select ⟨distinct, projection, from_, selection, groupBy, having⟩ =>
    .select (injectGroupBy ⟨distinct, projection, groupedFrom from_, selection, groupBy, having⟩)
  | .query q => .query (grouped q)
  | .setOperation op quantifier left right =>
    .setOperation op quantifier (groupedBody left) (groupedBody right)
  | .values rows => .values rows

def groupedFrom : List TableWithJoins → List TableWithJoins
  | [] => []
  | entry :: rest => groupedEntry entry :: groupedFrom rest

def groupedEntry : TableWithJoins → TableWithJoins
  | ⟨relation, joins⟩ => ⟨groupedFactor relation, groupedJoins joins⟩

def groupedJoins : List Join → List Join
  | [] => []
  | ⟨relation, kind, constraint⟩ :: rest =>
    ⟨groupedFactor relation, kind, constraint⟩ :: groupedJoins rest

def groupedFactor : TableFactor → TableFactor
  | .derived lateral q alias_ => .derived lateral (grouped q) alias_
  | .nestedJoin entry alias_ => .nestedJoin (groupedEntry entry) alias_
  | factor => factor

end

/-- Grouping changes the GROUP BY clause and nothing else. -/
theorem injectGroupBy_eq (sel : Select) :
    injectGroupBy sel = { sel with groupBy := (injectGroupBy sel).groupBy } := by
  obtain ⟨_, _, _, _, _, _⟩ := sel
  rw [injectGroupBy]
  split
  · rfl
  · dsimp only
    split <;> rfl

theorem grouped_select_iff {distinct : Distinct} {projection : List SelectItem}
    {from_ from_' : List TableWithJoins} {selection having : Option Expr} {groupBy : GroupByExpr} :
    injectGroupBy ⟨distinct, projection, from_', selection, groupBy, having⟩ =
        ⟨distinct, projection, from_, selection, groupBy, having⟩ ↔
      GroupingQuiet ⟨distinct, projection, from_, selection, groupBy, having⟩ ∧ from_' = from_ := by
  rw [injectGroupBy_eq, Select.mk.injEq]
  have quiet := injectGroupBy_groupBy_iff ⟨distinct, projection, from_', selection, groupBy, having⟩
  simp only [true_and, and_true]
  exact ⟨fun ⟨same, kept⟩ => ⟨quiet.mp kept, same⟩, fun ⟨kept, same⟩ => ⟨same, quiet.mpr kept⟩⟩

mutual

/-- A query keeps its form under grouping exactly when each of its SELECTs is quiet. -/
theorem grouped_iff : ∀ q : Query, grouped q = q ↔ ∀ sel ∈ selectsOf q, GroupingQuiet sel
  | ⟨_, body, _, _, _⟩ => by
    simp only [grouped, selectsOf, Query.mk.injEq, true_and, and_true]
    exact groupedBody_iff body

theorem groupedBody_iff :
    ∀ body : SetExpr, groupedBody body = body ↔ ∀ sel ∈ selectsOfBody body, GroupingQuiet sel
  | .select ⟨distinct, projection, from_, selection, groupBy, having⟩ => by
    simp only [groupedBody, selectsOfBody, SetExpr.select.injEq, grouped_select_iff,
      groupedFrom_iff from_, List.forall_mem_cons]
  | .query q => by
    simp only [groupedBody, selectsOfBody, SetExpr.query.injEq]
    exact grouped_iff q
  | .setOperation _ _ left right => by
    simp only [groupedBody, selectsOfBody, SetExpr.setOperation.injEq, true_and,
      groupedBody_iff left, groupedBody_iff right, List.forall_mem_append]
  | .values _ => by simp only [groupedBody, selectsOfBody, List.not_mem_nil, false_imp_iff,
      implies_true]

theorem groupedFrom_iff : ∀ from_ : List TableWithJoins,
    groupedFrom from_ = from_ ↔ ∀ sel ∈ selectsOfFrom from_, GroupingQuiet sel
  | [] => by simp only [groupedFrom, selectsOfFrom, List.not_mem_nil, false_imp_iff, implies_true]
  | entry :: rest => by
    simp only [groupedFrom, selectsOfFrom, List.cons.injEq, groupedEntry_iff entry,
      groupedFrom_iff rest, List.forall_mem_append]

theorem groupedEntry_iff : ∀ entry : TableWithJoins,
    groupedEntry entry = entry ↔ ∀ sel ∈ selectsOfEntry entry, GroupingQuiet sel
  | ⟨relation, joins⟩ => by
    simp only [groupedEntry, selectsOfEntry, TableWithJoins.mk.injEq, groupedFactor_iff relation,
      groupedJoins_iff joins, List.forall_mem_append]

theorem groupedJoins_iff : ∀ joins : List Join,
    groupedJoins joins = joins ↔ ∀ sel ∈ selectsOfJoins joins, GroupingQuiet sel
  | [] => by simp only [groupedJoins, selectsOfJoins, List.not_mem_nil, false_imp_iff, implies_true]
  | ⟨relation, kind, constraint⟩ :: rest => by
    simp only [groupedJoins, selectsOfJoins, List.cons.injEq, Join.mk.injEq, and_true,
      groupedFactor_iff relation, groupedJoins_iff rest, List.forall_mem_append]

theorem groupedFactor_iff : ∀ factor : TableFactor,
    groupedFactor factor = factor ↔ ∀ sel ∈ selectsOfFactor factor, GroupingQuiet sel
  | .derived _ q _ => by
    simp only [groupedFactor, selectsOfFactor, TableFactor.derived.injEq, true_and, and_true]
    exact grouped_iff q
  | .nestedJoin entry _ => by
    simp only [groupedFactor, selectsOfFactor, TableFactor.nestedJoin.injEq, and_true]
    exact groupedEntry_iff entry
  | .table _ _ _ => iff_of_true rfl fun _ none_ => absurd none_ List.not_mem_nil
  | .function _ _ _ _ => iff_of_true rfl fun _ none_ => absurd none_ List.not_mem_nil
  | .tableFunction _ _ => iff_of_true rfl fun _ none_ => absurd none_ List.not_mem_nil
  | .unnest _ _ => iff_of_true rfl fun _ none_ => absurd none_ List.not_mem_nil

end

section
variable (host : Host) (visit : Visit) (outerAliases : List Ident)

theorem rewriteExpr_plain {e : Expr}
    (none_ : ∀ x ∈ e.visited, isSubquery x = false) :
    rewriteExpr host visit outerAliases e = pure e := by
  refine e.walked_plain (fun leaf other => ?_) none_
  cases leaf <;> first | rfl | cases other

theorem rewriteItem_plain {item : SelectItem}
    (none_ : ∀ e ∈ itemExpr item, ∀ x ∈ e.visited, isSubquery x = false) :
    rewriteItem host visit outerAliases item = pure item := by
  cases item with
  | unnamedExpr e =>
    rw [rewriteItem, rewriteExpr_plain host visit outerAliases (none_ e rfl)]
    funext l
    change (if l.rewriter.converted < l.rewriter.converted then _ else _, l) = _
    rw [if_neg (Nat.lt_irrefl _)]
    rfl
  | exprWithAlias e alias_ =>
    rw [rewriteItem, rewriteExpr_plain host visit outerAliases (none_ e rfl), pure_bind]
  | qualifiedWildcard _ | wildcard => rfl

theorem analyseScalar_plain {item : SelectItem}
    (none_ : ∀ e ∈ itemExpr item, ∀ x ∈ e.visited, isSubquery x = false) :
    analyseScalar host outerAliases item = pure none := by
  fun_cases analyseScalar host outerAliases item with
  | case1 q => cases none_ _ rfl _ (List.mem_cons_self ..)
  | case2 q alias_ => cases none_ _ rfl _ (List.mem_cons_self ..)
  | case3 item notUnnamed notAliased => rfl

theorem mem_visitedItems {projection : List SelectItem} {item : SelectItem}
    (member : item ∈ projection) :
    ∀ e ∈ itemExpr item, ∀ x ∈ e.visited, x ∈ visitedItems projection := by
  intro e expr x inside
  induction projection with
  | nil => cases member
  | cons first rest ih =>
    obtain rfl | later := List.mem_cons.mp member
    · cases item <;> cases expr
      · exact List.mem_append_left _ inside
      · exact List.mem_append_left _ inside
    · have there := ih later
      cases first with
      | unnamedExpr _ | exprWithAlias _ _ => exact List.mem_append_right _ there
      | qualifiedWildcard _ | wildcard => exact there

/-- With no subquery in it, a projection is left as it is and only grouped. -/
theorem visitProjection_plain (sel : Select) (l : Lifting)
    (none_ : ∀ x ∈ visitedItems sel.projection, isSubquery x = false) :
    (visitProjection host visit outerAliases sel).run l =
      (injectGroupBy { sel with from_ := l.from_ }, l) := by
  have items := fun item (member : item ∈ sel.projection) e expr x inside =>
    none_ x (mem_visitedItems member e expr x inside)
  have rewritten : sel.projection.mapM (rewriteItem host visit outerAliases) =
      pure sel.projection := by
    have same := mapM_eq_pure fun item member =>
      rewriteItem_plain host visit outerAliases (items item member)
    rwa [List.map_id'] at same
  have analysed : (sel.projection.mapM fun item =>
      stepRewriter (analyseScalar host outerAliases item)) = pure (sel.projection.map fun _ => none) :=
    mapM_eq_pure fun item member => by
      rw [analyseScalar_plain host outerAliases (items item member)]
      rfl
  have patched : ((sel.projection.zip (sel.projection.map fun _ => none)).mapM
      fun x => patchItem x.1 x.2) = pure sel.projection := by
    rw [mapM_eq_pure (g := Prod.fst)]
    · rw [List.map_fst_zip (Nat.le_of_eq (List.length_map _).symm)]
    · rintro ⟨item, info⟩ member
      obtain ⟨_, _, rfl⟩ := List.mem_map.mp (List.of_mem_zip member).2
      rfl
  have nothing : (sel.projection.map fun _ => (none : Option CorrelatedInfo)).reduceOption = [] := by
    rw [List.map_const', List.reduceOption_replicate_none]
  have kept : ∀ sel : Select, (injectGroupBy sel).projection = sel.projection := fun sel => by
    rw [injectGroupBy_eq]
  simp only [visitProjection, rewritten, pure_bind, StateT.run_bind, StateT.run_get, kept, analysed,
    nothing, List.forIn_nil, patched, StateT.run_pure]
  rw [injectGroupBy_eq]
  rfl

theorem qualifyOuterColumns_plain (sel : Select)
    (none_ : ∀ x ∈ visitedItems sel.projection, isSubquery x = false) :
    qualifyOuterColumnsInProjectionSubqueries host sel = sel := by
  have items : ∀ outer, sel.projection.map (mapItem (qualifyOuterColumnsInSubqueriesOf host outer)) =
      sel.projection := by
    intro outer
    have kept : ∀ e : Expr, (∀ x ∈ e.visited, isSubquery x = false) →
        qualifyOuterColumnsInSubqueriesOf host outer e = e := fun e none_ =>
      e.walked_plain (m := Id) (fun leaf other => by cases leaf <;> first | rfl | cases other) none_
    refine (List.map_congr_left fun item member => ?_).trans (List.map_id _)
    have inside := mem_visitedItems member
    cases item with
    | unnamedExpr e => exact congrArg _ (kept e fun x h => none_ x (inside e rfl x h))
    | exprWithAlias e alias_ =>
      exact congrArg (SelectItem.exprWithAlias · alias_)
        (kept e fun x h => none_ x (inside e rfl x h))
    | qualifiedWildcard _ | wildcard => rfl
  obtain ⟨_, _, _, _, _, _⟩ := sel
  rw [qualifyOuterColumnsInProjectionSubqueries]
  split
  · rfl
  · rfl
  · rw [items]

theorem visitSelect_plain {with_ : Option With} {sel : Select} {from_ : List TableWithJoins}
    (visited : visitFrom visit sel.from_ = pure from_)
    (none_ : ∀ x ∈ visitedItems sel.projection, isSubquery x = false) :
    visitSelect host visit with_ sel = pure (with_, injectGroupBy { sel with from_ }) := by
  funext s
  obtain ⟨distinct, projection, written, selection, groupBy, having⟩ := sel
  have plain := visitProjection_plain host visit (collectOuterAliases from_)
    ⟨distinct, projection, from_, selection, groupBy, having⟩ ⟨s, with_, from_⟩ none_
  have qualified := qualifyOuterColumns_plain host
    ⟨distinct, projection, from_, selection, groupBy, having⟩ none_
  simp only [visitSelect, visited, pure_bind, qualified]
  simp only [bind, StateT.bind, get, getThe, MonadStateOf.get, StateT.get, pure, plain]
  rfl

end

section
variable {host : Host} {visit : Visit} {depth : Nat}

/-- Visits of queries less deep that only group. -/
def GroupsBelow (visit : Visit) (depth : Nat) : Prop :=
  ∀ q, nesting q ≤ depth → (∀ x ∈ q.visited, isSubquery x = false) → visit q = pure (grouped q)

mutual

theorem visitFactor_plain (below : GroupsBelow visit depth) : ∀ factor : TableFactor,
    nestingFactor factor ≤ depth → (∀ x ∈ factor.visited, isSubquery x = false) →
    visitFactor visit factor = pure (groupedFactor factor)
  | .derived _ q _, deep, none_ => by rw [visitFactor, below q deep none_, pure_bind]; rfl
  | .nestedJoin entry _, deep, none_ => by
    rw [visitFactor, visitEntry_plain below entry deep none_, pure_bind]
    rfl
  | .table _ _ _, _, _ => rfl
  | .function _ _ _ _, _, _ => rfl
  | .tableFunction _ _, _, _ => rfl
  | .unnest _ _, _, _ => rfl

theorem visitEntry_plain (below : GroupsBelow visit depth) : ∀ entry : TableWithJoins,
    nestingEntry entry ≤ depth → (∀ x ∈ entry.visited, isSubquery x = false) →
    visitEntry visit entry = pure (groupedEntry entry)
  | ⟨relation, joins⟩, deep, none_ => by
    simp only [nestingEntry, Nat.max_le] at deep
    simp only [TableWithJoins.visited, List.mem_append] at none_
    rw [visitEntry, visitFactor_plain below relation deep.1 fun x h => none_ x (.inl h), pure_bind,
      visitJoins_plain below joins deep.2 fun x h => none_ x (.inr h), pure_bind]
    rfl

theorem visitJoins_plain (below : GroupsBelow visit depth) : ∀ joins : List Join,
    nestingJoins joins ≤ depth → (∀ x ∈ visitedJoins joins, isSubquery x = false) →
    visitJoins visit joins = pure (groupedJoins joins)
  | [], _, _ => rfl
  | ⟨relation, kind, constraint⟩ :: rest, deep, none_ => by
    simp only [nestingJoins, Nat.max_le] at deep
    simp only [visitedJoins, List.mem_append] at none_
    rw [visitJoins, visitFactor_plain below relation deep.1 fun x h => none_ x (.inl (.inl h)),
      pure_bind, visitJoins_plain below rest deep.2 fun x h => none_ x (.inr h), pure_bind]
    rfl

end

theorem visitFrom_plain (below : GroupsBelow visit depth) (from_ : List TableWithJoins)
    (deep : nestingFrom from_ ≤ depth) (none_ : ∀ x ∈ visitedFrom from_, isSubquery x = false) :
    visitFrom visit from_ = pure (groupedFrom from_) := by
  induction from_ with
  | nil => rfl
  | cons entry rest ih =>
    simp only [nestingFrom, Nat.max_le] at deep
    simp only [visitedFrom, List.mem_append] at none_
    have later := ih deep.2 fun x h => none_ x (.inr h)
    rw [visitFrom] at later ⊢
    rw [List.mapM_cons, visitEntry_plain below entry deep.1 fun x h => none_ x (.inl h), pure_bind,
      later, pure_bind]
    rfl

theorem visitSetExpr_plain (below : GroupsBelow visit depth) :
    ∀ (with_ : Option With) (body : SetExpr), nestingBody body ≤ depth →
      (∀ x ∈ body.visited, isSubquery x = false) →
      visitSetExpr host visit with_ body = pure (with_, groupedBody body)
  | with_, .select ⟨_, projection, from_, _, _, _⟩, deep, none_ => by
    simp only [nestingBody, Nat.max_le] at deep
    simp only [SetExpr.visited, Select.visited, List.mem_append] at none_
    have inside := visitFrom_plain below from_ deep.2 fun x h =>
      none_ x (.inl (.inl (.inl (.inr h))))
    rw [visitSetExpr, visitSelect_plain host visit inside fun x h => none_ x (.inl (.inl (.inl (.inl (.inr h))))),
      pure_bind]
    rfl
  | with_, .setOperation _ _ left right, deep, none_ => by
    simp only [nestingBody, Nat.max_le] at deep
    simp only [SetExpr.visited, List.mem_append] at none_
    rw [visitSetExpr, visitSetExpr_plain below with_ left deep.1 fun x h => none_ x (.inl h), pure_bind]
    dsimp only
    rw [visitSetExpr_plain below with_ right deep.2 fun x h => none_ x (.inr h), pure_bind]
    rfl
  | with_, .query q, deep, none_ => by
    rw [visitSetExpr, below q deep none_, pure_bind]
    rfl
  | with_, .values _, _, _ => rfl

theorem visitQuery_plain (host : Host) (depth : Nat) : GroupsBelow (visitQuery host depth) depth := by
  induction depth with
  | zero =>
    intro q deep
    obtain ⟨_, _, _, _, _⟩ := q
    cases deep
  | succ depth below =>
    intro q deep none_
    obtain ⟨with_, body, orderBy, limit, offset⟩ := q
    simp only [nesting, Nat.add_le_add_iff_right] at deep
    simp only [Query.visited, List.mem_append] at none_
    rw [visitQuery, visitSetExpr_plain below with_ body deep fun x h =>
      none_ x (.inl (.inl (.inl (.inr h)))), pure_bind]
    rfl

end

/-- What the rewriter makes of a query without subqueries. -/
theorem rewrite_plain (host : Host) {q : Query} (none_ : ∀ x ∈ q.visited, isSubquery x = false) :
    rewriteScalarSubqueriesToCtes host q = grouped q := by
  rw [rewriteScalarSubqueriesToCtes, visitQuery_plain host _ q (Nat.le_refl _) none_]
  rfl

/-- Grouping leaves a SELECT's GROUP BY clause alone exactly when it is quiet; and a query
without subqueries comes back as it was exactly when all its SELECTs are. -/
theorem grouping_unchanged_iff (host : Host) :
    (∀ sel : Select, (injectGroupBy sel).groupBy = sel.groupBy ↔ GroupingQuiet sel) ∧
      ∀ q : Query, (∀ x ∈ q.visited, isSubquery x = false) →
        (rewriteScalarSubqueriesToCtes host q = q ↔ ∀ sel ∈ selectsOf q, GroupingQuiet sel) := by
  refine ⟨injectGroupBy_groupBy_iff, fun q none_ => ?_⟩
  rw [rewrite_plain host none_]
  exact grouped_iff q

def niladicCall (name : String) : Expr :=
  .function ⟨[.identifier (.new name)], .list false [] [], none, none, []⟩

/-- `SELECT <exprs> FROM t` -/
def fromT (exprs : List Expr) : Select :=
  ⟨.no, exprs.map .unnamedExpr, [⟨plainTable (.new "t"), []⟩], none, .expressions [], none⟩

def plainQuery (sel : Select) : Query := ⟨none, .select sel, [], none, none⟩

/-- `SELECT a, now() FROM t` holds no aggregate and no subquery, and is grouped by `a`. -/
theorem column_beside_call_grouped :
    (∀ x ∈ (plainQuery (fromT [.identifier (.new "a"), niladicCall "now"])).visited,
      isAggregateCall x = false ∧ isSubquery x = false) ∧
    (injectGroupBy (fromT [.identifier (.new "a"), niladicCall "now"])).groupBy ≠
      (fromT [.identifier (.new "a"), niladicCall "now"]).groupBy :=
  ⟨by decide +kernel, (injectGroupBy_groupBy_iff _).not.mpr (by decide +kernel)⟩

theorem single_column_unchanged :
    (∀ x ∈ (plainQuery (fromT [.identifier (.new "a")])).visited, isSubquery x = false) ∧
    (rewriteScalarSubqueriesToCtes blankHost
        (plainQuery (fromT [.identifier (.new "a")])) =
          plainQuery (fromT [.identifier (.new "a")]) ↔
      ∀ sel ∈ selectsOf (plainQuery (fromT [.identifier (.new "a")])), GroupingQuiet sel) :=
  have none_ : ∀ x ∈ (plainQuery (fromT [.identifier (.new "a")])).visited, isSubquery x = false :=
    by decide +kernel
  ⟨none_, (grouping_unchanged_iff _).2 _ none_⟩

end PgCatalog.ScalarToCte
