import PgCatalog.Sql.Statement

/-! The literals of a tree in the order they stand in, and what becomes of them under a visitor
that rewrites nothing else. -/
namespace PgCatalog.Sql

def Expr.literal : Expr → Option Value
  | .value v => some v
  | _ => none

/-- The literals among expressions. -/
def literals (es : List Expr) : List Value := es.filterMap Expr.literal

@[simp] theorem literals_append (xs ys : List Expr) :
    literals (xs ++ ys) = literals xs ++ literals ys := List.filterMap_append

/-- The literals that `f` puts in the place of one. -/
def becomes (f : Expr → Expr) (v : Value) : List Value := literals (f (.value v)).visited

theorem literals_kept {f : Expr → Expr} {e e' : Expr} {xs ys : List Expr}
    (other : e.literal = none) (other' : e'.literal = none)
    (same : literals ys = (literals xs).flatMap (becomes f)) :
    literals (e' :: ys) = (literals (e :: xs)).flatMap (becomes f) := by
  have before : literals (e :: xs) = literals xs := List.filterMap_cons_none other
  have after : literals (e' :: ys) = literals ys := List.filterMap_cons_none other'
  rw [before, after, same]

section
variable {f : Expr → Expr} (keeps : ∀ e : Expr, e.literal = none → f e = e)
include keeps
set_option linter.unusedSectionVars false

mutual

/-- The literals of the tree a visitor of literals leaves are what it made of each, in order. -/
theorem Expr.literals_replaced : ∀ x : Expr,
    literals (x.replaced f).visited = (literals x.visited).flatMap (becomes f)
  | .identifier _ => by
    rw [Expr.replaced, keeps _ rfl]
    rfl
  | .compoundIdentifier _ => by
    rw [Expr.replaced, keeps _ rfl]
    rfl
  | .value v => (List.flatMap_singleton (becomes f) v).symm
  | .binaryOp left _ right => by
    rw [Expr.replaced, keeps _ rfl]
    refine literals_kept rfl rfl ?_
    simp only [left.literals_replaced, right.literals_replaced,
      literals_append, List.flatMap_append]
  | .unaryOp _ inner => by
    rw [Expr.replaced, keeps _ rfl]
    exact literals_kept rfl rfl inner.literals_replaced
  | .nested inner => by
    rw [Expr.replaced, keeps _ rfl]
    exact literals_kept rfl rfl inner.literals_replaced
  | .cast _ inner _ => by
    rw [Expr.replaced, keeps _ rfl]
    exact literals_kept rfl rfl inner.literals_replaced
  | .case operand conditions elseResult => by
    rw [Expr.replaced, keeps _ rfl]
    refine literals_kept rfl rfl ?_
    simp only [literalsOption_replaced operand,
      literalsCases_replaced conditions, literalsOption_replaced elseResult,
      literals_append, List.flatMap_append]
  | .anyOp left _ right _ => by
    rw [Expr.replaced, keeps _ rfl]
    refine literals_kept rfl rfl ?_
    simp only [left.literals_replaced, right.literals_replaced,
      literals_append, List.flatMap_append]
  | .isTest _ inner => by
    rw [Expr.replaced, keeps _ rfl]
    exact literals_kept rfl rfl inner.literals_replaced
  | .isDistinctFrom left right => by
    rw [Expr.replaced, keeps _ rfl]
    refine literals_kept rfl rfl ?_
    simp only [left.literals_replaced, right.literals_replaced,
      literals_append, List.flatMap_append]
  | .isNotDistinctFrom left right => by
    rw [Expr.replaced, keeps _ rfl]
    refine literals_kept rfl rfl ?_
    simp only [left.literals_replaced, right.literals_replaced,
      literals_append, List.flatMap_append]
  | .function call => by
    rw [Expr.replaced, keeps _ rfl]
    exact literals_kept rfl rfl call.literals_replaced
  | .compoundFieldAccess root chain => by
    rw [Expr.replaced, keeps _ rfl]
    refine literals_kept rfl rfl ?_
    simp only [root.literals_replaced,
      literalsAccess_replaced chain, literals_append, List.flatMap_append]
  | .subquery q => by
    rw [Expr.replaced, keeps _ rfl]
    exact literals_kept rfl rfl q.literals_replaced
  | .exists q _ => by
    rw [Expr.replaced, keeps _ rfl]
    exact literals_kept rfl rfl q.literals_replaced
  | .inSubquery inner q _ => by
    rw [Expr.replaced, keeps _ rfl]
    refine literals_kept rfl rfl ?_
    simp only [inner.literals_replaced, q.literals_replaced,
      literals_append, List.flatMap_append]
  | .node _ children => by
    rw [Expr.replaced, keeps _ rfl]
    exact literals_kept rfl rfl (literalsList_replaced children)

theorem literalsOption_replaced : ∀ x : Option Expr,
    literals (visitedOption (replacedOption f x)) = (literals (visitedOption x)).flatMap (becomes f)
  | none => rfl
  | some e => e.literals_replaced

theorem literalsList_replaced : ∀ x : List Expr,
    literals (visitedList (replacedList f x)) = (literals (visitedList x)).flatMap (becomes f)
  | [] => rfl
  | e :: rest => by
    simp only [replacedList, visitedList, e.literals_replaced, literalsList_replaced rest,
      literals_append, List.flatMap_append]

theorem literalsCases_replaced : ∀ x : List CaseWhen,
    literals (visitedCases (replacedCases f x)) = (literals (visitedCases x)).flatMap (becomes f)
  | [] => rfl
  | ⟨condition, result⟩ :: rest => by
    simp only [replacedCases, visitedCases, condition.literals_replaced,
      result.literals_replaced, literalsCases_replaced rest, literals_append, List.flatMap_append]

theorem literalsAccess_replaced : ∀ x : List AccessExpr,
    literals (visitedAccess (replacedAccess f x)) = (literals (visitedAccess x)).flatMap (becomes f)
  | [] => rfl
  | .dot e :: rest => by
    simp only [replacedAccess, visitedAccess, e.literals_replaced, literalsAccess_replaced rest,
      literals_append, List.flatMap_append]
  | .subscript index :: rest => by
    simp only [replacedAccess, visitedAccess, index.literals_replaced,
      literalsAccess_replaced rest, literals_append, List.flatMap_append]
  | .slice lower upper :: rest => by
    simp only [replacedAccess, visitedAccess, literalsOption_replaced lower,
      literalsOption_replaced upper, literalsAccess_replaced rest,
      literals_append, List.flatMap_append]

theorem Function.literals_replaced : ∀ x : Function,
    literals (x.replaced f).visited = (literals x.visited).flatMap (becomes f)
  | ⟨_, args, filter, over_, withinGroup⟩ => by
    simp only [Function.replaced, Function.visited, args.literals_replaced,
      literalsOption_replaced filter, literalsWindow_replaced over_,
      literalsOrderBy_replaced withinGroup, literals_append, List.flatMap_append]

theorem FunctionArguments.literals_replaced : ∀ x : FunctionArguments,
    literals (x.replaced f).visited = (literals x.visited).flatMap (becomes f)
  | .none => rfl
  | .subquery q => q.literals_replaced
  | .list _ args orderBy => by
    simp only [FunctionArguments.replaced, FunctionArguments.visited, literalsArgs_replaced args,
      literalsOrderBy_replaced orderBy, literals_append, List.flatMap_append]

theorem literalsArgs_replaced : ∀ x : List FunctionArg,
    literals (visitedArgs (replacedArgs f x)) = (literals (visitedArgs x)).flatMap (becomes f)
  | [] => rfl
  | .unnamed arg :: rest => by
    simp only [replacedArgs, visitedArgs, arg.literals_replaced, literalsArgs_replaced rest,
      literals_append, List.flatMap_append]
  | .named _ arg :: rest => by
    simp only [replacedArgs, visitedArgs, arg.literals_replaced, literalsArgs_replaced rest,
      literals_append, List.flatMap_append]

theorem FunctionArgExpr.literals_replaced : ∀ x : FunctionArgExpr,
    literals (x.replaced f).visited = (literals x.visited).flatMap (becomes f)
  | .expr e => e.literals_replaced
  | .qualifiedWildcard _ => rfl
  | .wildcard => rfl

theorem literalsWindow_replaced : ∀ x : Option WindowType,
    literals (visitedWindow (replacedWindow f x)) = (literals (visitedWindow x)).flatMap (becomes f)
  | none => rfl
  | some (.spec partitionBy orderBy) => by
    simp only [replacedWindow, visitedWindow, literalsList_replaced partitionBy,
      literalsOrderBy_replaced orderBy, literals_append, List.flatMap_append]
  | some (.named _) => rfl

theorem literalsOrderBy_replaced : ∀ x : List OrderByExpr,
    literals (visitedOrderBy (replacedOrderBy f x)) =
      (literals (visitedOrderBy x)).flatMap (becomes f)
  | [] => rfl
  | ⟨e, _, _⟩ :: rest => by
    simp only [replacedOrderBy, visitedOrderBy, e.literals_replaced,
      literalsOrderBy_replaced rest, literals_append, List.flatMap_append]

theorem Query.literals_replaced : ∀ x : Query,
    literals (x.replaced f).visited = (literals x.visited).flatMap (becomes f)
  | ⟨with_, body, orderBy, limit, offset⟩ => by
    simp only [Query.replaced, Query.visited, literalsWith_replaced with_,
      body.literals_replaced, literalsOrderBy_replaced orderBy, literalsOption_replaced limit,
      literalsOption_replaced offset, literals_append, List.flatMap_append]

theorem literalsWith_replaced : ∀ x : Option With,
    literals (visitedWith (replacedWith f x)) = (literals (visitedWith x)).flatMap (becomes f)
  | none => rfl
  | some ⟨_, ctes⟩ => literalsCtes_replaced ctes

theorem literalsCtes_replaced : ∀ x : List Cte,
    literals (visitedCtes (replacedCtes f x)) = (literals (visitedCtes x)).flatMap (becomes f)
  | [] => rfl
  | ⟨_, q⟩ :: rest => by
    simp only [replacedCtes, visitedCtes, q.literals_replaced, literalsCtes_replaced rest,
      literals_append, List.flatMap_append]

theorem SetExpr.literals_replaced : ∀ x : SetExpr,
    literals (x.replaced f).visited = (literals x.visited).flatMap (becomes f)
  | .select s => s.literals_replaced
  | .query q => q.literals_replaced
  | .setOperation _ _ left right => by
    simp only [SetExpr.replaced, SetExpr.visited, left.literals_replaced,
      right.literals_replaced, literals_append, List.flatMap_append]
  | .values rows => literalsList_replaced rows

theorem Select.literals_replaced : ∀ x : Select,
    literals (x.replaced f).visited = (literals x.visited).flatMap (becomes f)
  | ⟨distinct, projection, from_, selection, groupBy, having⟩ => by
    simp only [Select.replaced, Select.visited, distinct.literals_replaced,
      literalsItems_replaced projection, literalsFrom_replaced from_,
      literalsOption_replaced selection, groupBy.literals_replaced,
      literalsOption_replaced having, literals_append, List.flatMap_append]

theorem Distinct.literals_replaced : ∀ x : Distinct,
    literals (x.replaced f).visited = (literals x.visited).flatMap (becomes f)
  | .no => rfl
  | .rows => rfl
  | .on exprs => literalsList_replaced exprs

theorem literalsItems_replaced : ∀ x : List SelectItem,
    literals (visitedItems (replacedItems f x)) = (literals (visitedItems x)).flatMap (becomes f)
  | [] => rfl
  | .unnamedExpr e :: rest => by
    simp only [replacedItems, visitedItems, e.literals_replaced, literalsItems_replaced rest,
      literals_append, List.flatMap_append]
  | .exprWithAlias e _ :: rest => by
    simp only [replacedItems, visitedItems, e.literals_replaced, literalsItems_replaced rest,
      literals_append, List.flatMap_append]
  | .qualifiedWildcard _ :: rest => literalsItems_replaced rest
  | .wildcard :: rest => literalsItems_replaced rest

theorem GroupByExpr.literals_replaced : ∀ x : GroupByExpr,
    literals (x.replaced f).visited = (literals x.visited).flatMap (becomes f)
  | .all => rfl
  | .expressions exprs => literalsList_replaced exprs

theorem literalsFrom_replaced : ∀ x : List TableWithJoins,
    literals (visitedFrom (replacedFrom f x)) = (literals (visitedFrom x)).flatMap (becomes f)
  | [] => rfl
  | entry :: rest => by
    simp only [replacedFrom, visitedFrom, entry.literals_replaced, literalsFrom_replaced rest,
      literals_append, List.flatMap_append]

theorem TableWithJoins.literals_replaced : ∀ x : TableWithJoins,
    literals (x.replaced f).visited = (literals x.visited).flatMap (becomes f)
  | ⟨relation, joins⟩ => by
    simp only [TableWithJoins.replaced, TableWithJoins.visited, relation.literals_replaced,
      literalsJoins_replaced joins, literals_append, List.flatMap_append]

theorem literalsJoins_replaced : ∀ x : List Join,
    literals (visitedJoins (replacedJoins f x)) = (literals (visitedJoins x)).flatMap (becomes f)
  | [] => rfl
  | ⟨relation, _, constraint⟩ :: rest => by
    simp only [replacedJoins, visitedJoins, relation.literals_replaced,
      constraint.literals_replaced, literalsJoins_replaced rest,
      literals_append, List.flatMap_append]

theorem JoinConstraint.literals_replaced : ∀ x : JoinConstraint,
    literals (x.replaced f).visited = (literals x.visited).flatMap (becomes f)
  | .on e => e.literals_replaced
  | .using _ => rfl
  | .natural => rfl
  | .none => rfl

theorem TableFactor.literals_replaced : ∀ x : TableFactor,
    literals (x.replaced f).visited = (literals x.visited).flatMap (becomes f)
  | .table _ _ none => rfl
  | .table _ _ (some args) => literalsArgs_replaced args
  | .derived _ q _ => q.literals_replaced
  | .nestedJoin entry _ => entry.literals_replaced
  | .function _ _ args _ => literalsArgs_replaced args
  | .tableFunction e _ => e.literals_replaced
  | .unnest _ exprs => literalsList_replaced exprs
end

/-- `visit_expressions_mut` on a statement. -/
def SetStatement.replaced (f : Expr → Expr) : SetStatement → SetStatement
  | .singleAssignment scope variable_ values =>
    .singleAssignment scope variable_ (replacedList f values)
  | .setTimeZone isLocal value => .setTimeZone isLocal (value.replaced f)
  | .other exprs => .other (replacedList f exprs)

def Statement.replaced (f : Expr → Expr) : Statement → Statement
  | .query q => .query (q.replaced f)
  | .set s => .set (s.replaced f)
  | .other relations queries exprs =>
    .other relations (queries.map (·.replaced f)) (replacedList f exprs)

theorem SetStatement.literals_replaced (s : SetStatement) :
    literals (visitedList (s.replaced f).exprs) =
      (literals (visitedList s.exprs)).flatMap (becomes f) := by
  cases s with
  | singleAssignment scope variable_ values => exact literalsList_replaced keeps values
  | setTimeZone isLocal value => exact literalsList_replaced keeps [value]
  | other exprs => exact literalsList_replaced keeps exprs

/-- The literals of a statement after such a visitor are what it made of each, in order. -/
theorem Statement.literals_replaced (s : Statement) :
    literals (s.replaced f).visited = (literals s.visited).flatMap (becomes f) := by
  cases s with
  | query q => exact q.literals_replaced keeps
  | set s => exact s.literals_replaced keeps
  | other relations queries exprs =>
    have inQueries : ∀ qs : List Query,
        literals ((qs.map (·.replaced f)).flatMap (·.visited)) =
          (literals (qs.flatMap (·.visited))).flatMap (becomes f) := by
      intro qs
      induction qs with
      | nil => rfl
      | cons q rest ih =>
        simp only [List.map_cons, List.flatMap_cons, literals_append, List.flatMap_append,
          q.literals_replaced keeps, ih]
    simp only [Statement.replaced, Statement.visited, literals_append, List.flatMap_append,
      inQueries, literalsList_replaced keeps exprs]

end

end PgCatalog.Sql
