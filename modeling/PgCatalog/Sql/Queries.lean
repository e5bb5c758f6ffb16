import PgCatalog.Sql.Visit

/-! The queries of a tree, and a visitor that acts on the ORDER BY of each of them. -/
namespace PgCatalog.Sql

mutual

/-- `visit_queries`: the queries met, each before those inside it. -/
def Expr.queries : Expr → List Query
  | .identifier _ => []
  | .compoundIdentifier _ => []
  | .value _ => []
  | .binaryOp left _ right => left.queries ++ right.queries
  | .unaryOp _ inner => inner.queries
  | .nested inner => inner.queries
  | .cast _ inner _ => inner.queries
  | .case operand conditions elseResult =>
    queriesOption operand ++ queriesCases conditions ++ queriesOption elseResult
  | .anyOp left _ right _ => left.queries ++ right.queries
  | .isTest _ inner => inner.queries
  | .isDistinctFrom left right => left.queries ++ right.queries
  | .isNotDistinctFrom left right => left.queries ++ right.queries
  | .function f => f.queries
  | .compoundFieldAccess root chain => root.queries ++ queriesAccess chain
  | .subquery q => q.queries
  | .exists q _ => q.queries
  | .inSubquery inner q _ => inner.queries ++ q.queries
  | .node _ children => queriesList children

def queriesOption : Option Expr → List Query
  | none => []
  | some e => e.queries

def queriesList : List Expr → List Query
  | [] => []
  | e :: rest => e.queries ++ queriesList rest

def queriesCases : List CaseWhen → List Query
  | [] => []
  | ⟨condition, result⟩ :: rest => condition.queries ++ result.queries ++ queriesCases rest

def queriesAccess : List AccessExpr → List Query
  | [] => []
  | .dot e :: rest => e.queries ++ queriesAccess rest
  | .subscript index :: rest => index.queries ++ queriesAccess rest
  | .slice lower upper :: rest =>
    queriesOption lower ++ queriesOption upper ++ queriesAccess rest

def Function.queries : Function → List Query
  | ⟨_, args, filter, over_, withinGroup⟩ =>
    args.queries ++ queriesOption filter ++ queriesWindow over_ ++ queriesOrderBy withinGroup

def FunctionArguments.queries : FunctionArguments → List Query
  | .none => []
  | .subquery q => q.queries
  | .list _ args orderBy => queriesArgs args ++ queriesOrderBy orderBy

def queriesArgs : List FunctionArg → List Query
  | [] => []
  | .unnamed arg :: rest => arg.queries ++ queriesArgs rest
  | .named _ arg :: rest => arg.queries ++ queriesArgs rest

def FunctionArgExpr.queries : FunctionArgExpr → List Query
  | .expr e => e.queries
  | .qualifiedWildcard _ => []
  | .wildcard => []

def queriesWindow : Option WindowType → List Query
  | none => []
  | some (.spec partitionBy orderBy) => queriesList partitionBy ++ queriesOrderBy orderBy
  | some (.named _) => []

def queriesOrderBy : List OrderByExpr → List Query
  | [] => []
  | ⟨e, _, _⟩ :: rest => e.queries ++ queriesOrderBy rest

def Query.queries : Query → List Query
  | q@⟨with_, body, orderBy, limit, offset⟩ =>
    q :: (queriesWith with_ ++ body.queries ++ queriesOrderBy orderBy ++ queriesOption limit ++
      queriesOption offset)

def queriesWith : Option With → List Query
  | none => []
  | some ⟨_, ctes⟩ => queriesCtes ctes

def queriesCtes : List Cte → List Query
  | [] => []
  | ⟨_, q⟩ :: rest => q.queries ++ queriesCtes rest

def SetExpr.queries : SetExpr → List Query
  | .select s => s.queries
  | .query q => q.queries
  | .setOperation _ _ left right => left.queries ++ right.queries
  | .values rows => queriesList rows

def Select.queries : Select → List Query
  | ⟨distinct, projection, from_, selection, groupBy, having⟩ =>
    distinct.queries ++ queriesItems projection ++ queriesFrom from_ ++
      queriesOption selection ++ groupBy.queries ++ queriesOption having

def Distinct.queries : Distinct → List Query
  | .no => []
  | .rows => []
  | .on exprs => queriesList exprs

def queriesItems : List SelectItem → List Query
  | [] => []
  | .unnamedExpr e :: rest => e.queries ++ queriesItems rest
  | .exprWithAlias e _ :: rest => e.queries ++ queriesItems rest
  | .qualifiedWildcard _ :: rest => queriesItems rest
  | .wildcard :: rest => queriesItems rest

def GroupByExpr.queries : GroupByExpr → List Query
  | .all => []
  | .expressions exprs => queriesList exprs

def queriesFrom : List TableWithJoins → List Query
  | [] => []
  | entry :: rest => entry.queries ++ queriesFrom rest

def TableWithJoins.queries : TableWithJoins → List Query
  | ⟨relation, joins⟩ => relation.queries ++ queriesJoins joins

def queriesJoins : List Join → List Query
  | [] => []
  | ⟨relation, _, constraint⟩ :: rest =>
    relation.queries ++ constraint.queries ++ queriesJoins rest

def JoinConstraint.queries : JoinConstraint → List Query
  | .on e => e.queries
  | .using _ => []
  | .natural => []
  | .none => []

def TableFactor.queries : TableFactor → List Query
  | .table _ _ none => []
  | .table _ _ (some args) => queriesArgs args
  | .derived _ q _ => q.queries
  | .nestedJoin entry _ => entry.queries
  | .function _ _ args _ => queriesArgs args
  | .tableFunction e _ => e.queries
  | .unnest _ exprs => queriesList exprs

end

mutual

/-- `visit_queries_mut` for a visitor that only replaces ORDER BY expressions of the query it
stands at: `h` gives what takes the place of one, from the query's body. -/
def Expr.reordered (h : SetExpr → Expr → Option Expr) : Expr → Expr
  | .identifier id => .identifier id
  | .compoundIdentifier parts => .compoundIdentifier parts
  | .value v => .value v
  | .binaryOp left op right => .binaryOp (left.reordered h) op (right.reordered h)
  | .unaryOp op inner => .unaryOp op (inner.reordered h)
  | .nested inner => .nested (inner.reordered h)
  | .cast kind inner dataType => .cast kind (inner.reordered h) dataType
  | .case operand conditions elseResult =>
    .case (reorderedOption h operand) (reorderedCases h conditions) (reorderedOption h elseResult)
  | .anyOp left op right isSome => .anyOp (left.reordered h) op (right.reordered h) isSome
  | .isTest test inner => .isTest test (inner.reordered h)
  | .isDistinctFrom left right => .isDistinctFrom (left.reordered h) (right.reordered h)
  | .isNotDistinctFrom left right => .isNotDistinctFrom (left.reordered h) (right.reordered h)
  | .function call => .function (call.reordered h)
  | .compoundFieldAccess root chain =>
    .compoundFieldAccess (root.reordered h) (reorderedAccess h chain)
  | .subquery q => .subquery (q.reordered h)
  | .exists q negated => .exists (q.reordered h) negated
  | .inSubquery inner q negated => .inSubquery (inner.reordered h) (q.reordered h) negated
  | .node form children => .node form (reorderedList h children)

def reorderedOption (h : SetExpr → Expr → Option Expr) : Option Expr → Option Expr
  | none => none
  | some e => some (e.reordered h)

def reorderedList (h : SetExpr → Expr → Option Expr) : List Expr → List Expr
  | [] => []
  | e :: rest => e.reordered h :: reorderedList h rest

def reorderedCases (h : SetExpr → Expr → Option Expr) : List CaseWhen → List CaseWhen
  | [] => []
  | ⟨condition, result⟩ :: rest =>
    ⟨condition.reordered h, result.reordered h⟩ :: reorderedCases h rest

def reorderedAccess (h : SetExpr → Expr → Option Expr) : List AccessExpr → List AccessExpr
  | [] => []
  | .dot e :: rest => .dot (e.reordered h) :: reorderedAccess h rest
  | .subscript index :: rest => .subscript (index.reordered h) :: reorderedAccess h rest
  | .slice lower upper :: rest =>
    .slice (reorderedOption h lower) (reorderedOption h upper) :: reorderedAccess h rest

def Function.reordered (h : SetExpr → Expr → Option Expr) : Function → Function
  | ⟨name, args, filter, over_, withinGroup⟩ =>
    ⟨name, args.reordered h, reorderedOption h filter, reorderedWindow h over_,
      reorderedOrderBy h withinGroup⟩

def FunctionArguments.reordered (h : SetExpr → Expr → Option Expr) :
    FunctionArguments → FunctionArguments
  | .none => .none
  | .subquery q => .subquery (q.reordered h)
  | .list distinct args orderBy =>
    .list distinct (reorderedArgs h args) (reorderedOrderBy h orderBy)

def reorderedArgs (h : SetExpr → Expr → Option Expr) : List FunctionArg → List FunctionArg
  | [] => []
  | .unnamed arg :: rest => .unnamed (arg.reordered h) :: reorderedArgs h rest
  | .named name arg :: rest => .named name (arg.reordered h) :: reorderedArgs h rest

def FunctionArgExpr.reordered (h : SetExpr → Expr → Option Expr) :
    FunctionArgExpr → FunctionArgExpr
  | .expr e => .expr (e.reordered h)
  | .qualifiedWildcard name => .qualifiedWildcard name
  | .wildcard => .wildcard

def reorderedWindow (h : SetExpr → Expr → Option Expr) : Option WindowType → Option WindowType
  | none => none
  | some (.spec partitionBy orderBy) =>
    some (.spec (reorderedList h partitionBy) (reorderedOrderBy h orderBy))
  | some (.named name) => some (.named name)

def reorderedOrderBy (h : SetExpr → Expr → Option Expr) : List OrderByExpr → List OrderByExpr
  | [] => []
  | ⟨e, asc, nullsFirst⟩ :: rest =>
    ⟨e.reordered h, asc, nullsFirst⟩ :: reorderedOrderBy h rest

def Query.reordered (h : SetExpr → Expr → Option Expr) : Query → Query
  | ⟨with_, body, orderBy, limit, offset⟩ =>
    ⟨reorderedWith h with_, body.reordered h, reorderedKeys h body orderBy,
      reorderedOption h limit, reorderedOption h offset⟩

/-- The ORDER BY of a query with that body. -/
def reorderedKeys (h : SetExpr → Expr → Option Expr) (body : SetExpr) :
    List OrderByExpr → List OrderByExpr
  | [] => []
  | ⟨e, asc, nullsFirst⟩ :: rest =>
    ⟨(h body e).getD (e.reordered h), asc, nullsFirst⟩ :: reorderedKeys h body rest

def reorderedWith (h : SetExpr → Expr → Option Expr) : Option With → Option With
  | none => none
  | some ⟨recursive, ctes⟩ => some ⟨recursive, reorderedCtes h ctes⟩

def reorderedCtes (h : SetExpr → Expr → Option Expr) : List Cte → List Cte
  | [] => []
  | ⟨name, q⟩ :: rest => ⟨name, q.reordered h⟩ :: reorderedCtes h rest

def SetExpr.reordered (h : SetExpr → Expr → Option Expr) : SetExpr → SetExpr
  | .select s => .select (s.reordered h)
  | .query q => .query (q.reordered h)
  | .setOperation op quantifier left right =>
    .setOperation op quantifier (left.reordered h) (right.reordered h)
  | .values rows => .values (reorderedList h rows)

def Select.reordered (h : SetExpr → Expr → Option Expr) : Select → Select
  | ⟨distinct, projection, from_, selection, groupBy, having⟩ =>
    ⟨distinct.reordered h, reorderedItems h projection, reorderedFrom h from_,
      reorderedOption h selection, groupBy.reordered h, reorderedOption h having⟩

def Distinct.reordered (h : SetExpr → Expr → Option Expr) : Distinct → Distinct
  | .no => .no
  | .rows => .rows
  | .on exprs => .on (reorderedList h exprs)

def reorderedItems (h : SetExpr → Expr → Option Expr) : List SelectItem → List SelectItem
  | [] => []
  | .unnamedExpr e :: rest => .unnamedExpr (e.reordered h) :: reorderedItems h rest
  | .exprWithAlias e name :: rest => .exprWithAlias (e.reordered h) name :: reorderedItems h rest
  | .qualifiedWildcard name :: rest => .qualifiedWildcard name :: reorderedItems h rest
  | .wildcard :: rest => .wildcard :: reorderedItems h rest

def GroupByExpr.reordered (h : SetExpr → Expr → Option Expr) : GroupByExpr → GroupByExpr
  | .all => .all
  | .expressions exprs => .expressions (reorderedList h exprs)

def reorderedFrom (h : SetExpr → Expr → Option Expr) :
    List TableWithJoins → List TableWithJoins
  | [] => []
  | entry :: rest => entry.reordered h :: reorderedFrom h rest

def TableWithJoins.reordered (h : SetExpr → Expr → Option Expr) :
    TableWithJoins → TableWithJoins
  | ⟨relation, joins⟩ => ⟨relation.reordered h, reorderedJoins h joins⟩

def reorderedJoins (h : SetExpr → Expr → Option Expr) : List Join → List Join
  | [] => []
  | ⟨relation, kind, constraint⟩ :: rest =>
    ⟨relation.reordered h, kind, constraint.reordered h⟩ :: reorderedJoins h rest

def JoinConstraint.reordered (h : SetExpr → Expr → Option Expr) :
    JoinConstraint → JoinConstraint
  | .on e => .on (e.reordered h)
  | .using columns => .using columns
  | .natural => .natural
  | .none => .none

def TableFactor.reordered (h : SetExpr → Expr → Option Expr) : TableFactor → TableFactor
  | .table name alias_ none => .table name alias_ none
  | .table name alias_ (some args) => .table name alias_ (some (reorderedArgs h args))
  | .derived lateral q alias_ => .derived lateral (q.reordered h) alias_
  | .nestedJoin entry alias_ => .nestedJoin (entry.reordered h) alias_
  | .function lateral name args alias_ => .function lateral name (reorderedArgs h args) alias_
  | .tableFunction e alias_ => .tableFunction (e.reordered h) alias_
  | .unnest alias_ exprs => .unnest alias_ (reorderedList h exprs)

end

section
set_option linter.unusedSectionVars false

variable {h : SetExpr → Expr → Option Expr}
  (plain : ∀ body e e', h body e = some e' → e.queries = [] ∧ e'.queries = [])
include plain

/-- An ORDER BY expression that is replaced held no query, and does not hold one then. -/
theorem queries_key (body : SetExpr) (e : Expr)
    (kept : (e.reordered h).queries = e.queries.map (Query.reordered h)) :
    ((h body e).getD (e.reordered h)).queries = e.queries.map (Query.reordered h) := by
  cases found : h body e with
  | none => exact kept
  | some e' =>
    obtain ⟨before, after⟩ := plain body e e' found
    rw [Option.getD_some, before, after, List.map_nil]

mutual

/-- The queries of the tree the visitor leaves are those it met, each as it leaves it. -/
theorem Expr.queries_reordered : ∀ x : Expr,
    (x.reordered h).queries = x.queries.map (Query.reordered h)
  | .identifier _ => rfl
  | .compoundIdentifier _ => rfl
  | .value _ => rfl
  | .binaryOp left _ right => by
    simp only [Expr.reordered, Expr.queries, left.queries_reordered, right.queries_reordered,
      List.map_append]
  | .unaryOp _ inner => inner.queries_reordered
  | .nested inner => inner.queries_reordered
  | .cast _ inner _ => inner.queries_reordered
  | .case operand conditions elseResult => by
    simp only [Expr.reordered, Expr.queries, queriesOption_reordered operand,
      queriesCases_reordered conditions, queriesOption_reordered elseResult, List.map_append]
  | .anyOp left _ right _ => by
    simp only [Expr.reordered, Expr.queries, left.queries_reordered, right.queries_reordered,
      List.map_append]
  | .isTest _ inner => inner.queries_reordered
  | .isDistinctFrom left right => by
    simp only [Expr.reordered, Expr.queries, left.queries_reordered, right.queries_reordered,
      List.map_append]
  | .isNotDistinctFrom left right => by
    simp only [Expr.reordered, Expr.queries, left.queries_reordered, right.queries_reordered,
      List.map_append]
  | .function call => call.queries_reordered
  | .compoundFieldAccess root chain => by
    simp only [Expr.reordered, Expr.queries, root.queries_reordered,
      queriesAccess_reordered chain, List.map_append]
  | .subquery q => q.queries_reordered
  | .exists q _ => q.queries_reordered
  | .inSubquery inner q _ => by
    simp only [Expr.reordered, Expr.queries, inner.queries_reordered, q.queries_reordered,
      List.map_append]
  | .node _ children => queriesList_reordered children

theorem queriesOption_reordered : ∀ x : Option Expr,
    queriesOption (reorderedOption h x) = (queriesOption x).map (Query.reordered h)
  | none => rfl
  | some e => e.queries_reordered

theorem queriesList_reordered : ∀ x : List Expr,
    queriesList (reorderedList h x) = (queriesList x).map (Query.reordered h)
  | [] => rfl
  | e :: rest => by
    simp only [reorderedList, queriesList, e.queries_reordered, queriesList_reordered rest,
      List.map_append]

theorem queriesCases_reordered : ∀ x : List CaseWhen,
    queriesCases (reorderedCases h x) = (queriesCases x).map (Query.reordered h)
  | [] => rfl
  | ⟨condition, result⟩ :: rest => by
    simp only [reorderedCases, queriesCases, condition.queries_reordered,
      result.queries_reordered, queriesCases_reordered rest, List.map_append]

theorem queriesAccess_reordered : ∀ x : List AccessExpr,
    queriesAccess (reorderedAccess h x) = (queriesAccess x).map (Query.reordered h)
  | [] => rfl
  | .dot e :: rest => by
    simp only [reorderedAccess, queriesAccess, e.queries_reordered, queriesAccess_reordered rest,
      List.map_append]
  | .subscript index :: rest => by
    simp only [reorderedAccess, queriesAccess, index.queries_reordered,
      queriesAccess_reordered rest, List.map_append]
  | .slice lower upper :: rest => by
    simp only [reorderedAccess, queriesAccess, queriesOption_reordered lower,
      queriesOption_reordered upper, queriesAccess_reordered rest, List.map_append]

theorem Function.queries_reordered : ∀ x : Function,
    (x.reordered h).queries = x.queries.map (Query.reordered h)
  | ⟨_, args, filter, over_, withinGroup⟩ => by
    simp only [Function.reordered, Function.queries, args.queries_reordered,
      queriesOption_reordered filter, queriesWindow_reordered over_,
      queriesOrderBy_reordered withinGroup, List.map_append]

theorem FunctionArguments.queries_reordered : ∀ x : FunctionArguments,
    (x.reordered h).queries = x.queries.map (Query.reordered h)
  | .none => rfl
  | .subquery q => q.queries_reordered
  | .list _ args orderBy => by
    simp only [FunctionArguments.reordered, FunctionArguments.queries, queriesArgs_reordered args,
      queriesOrderBy_reordered orderBy, List.map_append]

theorem queriesArgs_reordered : ∀ x : List FunctionArg,
    queriesArgs (reorderedArgs h x) = (queriesArgs x).map (Query.reordered h)
  | [] => rfl
  | .unnamed arg :: rest => by
    simp only [reorderedArgs, queriesArgs, arg.queries_reordered, queriesArgs_reordered rest,
      List.map_append]
  | .named _ arg :: rest => by
    simp only [reorderedArgs, queriesArgs, arg.queries_reordered, queriesArgs_reordered rest,
      List.map_append]

theorem FunctionArgExpr.queries_reordered : ∀ x : FunctionArgExpr,
    (x.reordered h).queries = x.queries.map (Query.reordered h)
  | .expr e => e.queries_reordered
  | .qualifiedWildcard _ => rfl
  | .wildcard => rfl

theorem queriesWindow_reordered : ∀ x : Option WindowType,
    queriesWindow (reorderedWindow h x) = (queriesWindow x).map (Query.reordered h)
  | none => rfl
  | some (.spec partitionBy orderBy) => by
    simp only [reorderedWindow, queriesWindow, queriesList_reordered partitionBy,
      queriesOrderBy_reordered orderBy, List.map_append]
  | some (.named _) => rfl

theorem queriesOrderBy_reordered : ∀ x : List OrderByExpr,
    queriesOrderBy (reorderedOrderBy h x) = (queriesOrderBy x).map (Query.reordered h)
  | [] => rfl
  | ⟨e, _, _⟩ :: rest => by
    simp only [reorderedOrderBy, queriesOrderBy, e.queries_reordered,
      queriesOrderBy_reordered rest, List.map_append]

theorem queriesKeys_reordered (body : SetExpr) : ∀ x : List OrderByExpr,
    queriesOrderBy (reorderedKeys h body x) = (queriesOrderBy x).map (Query.reordered h)
  | [] => rfl
  | ⟨e, _, _⟩ :: rest => by
    have first := queries_key plain body e e.queries_reordered
    simp only [reorderedKeys, queriesOrderBy, first, queriesKeys_reordered body rest,
      List.map_append]

theorem Query.queries_reordered : ∀ x : Query,
    (x.reordered h).queries = x.queries.map (Query.reordered h)
  | ⟨with_, body, orderBy, limit, offset⟩ => by
    simp only [Query.reordered, Query.queries, queriesWith_reordered with_,
      body.queries_reordered, queriesKeys_reordered body orderBy, queriesOption_reordered limit,
      queriesOption_reordered offset, List.map_cons, List.map_append]

theorem queriesWith_reordered : ∀ x : Option With,
    queriesWith (reorderedWith h x) = (queriesWith x).map (Query.reordered h)
  | none => rfl
  | some ⟨_, ctes⟩ => queriesCtes_reordered ctes

theorem queriesCtes_reordered : ∀ x : List Cte,
    queriesCtes (reorderedCtes h x) = (queriesCtes x).map (Query.reordered h)
  | [] => rfl
  | ⟨_, q⟩ :: rest => by
    simp only [reorderedCtes, queriesCtes, q.queries_reordered, queriesCtes_reordered rest,
      List.map_append]

theorem SetExpr.queries_reordered : ∀ x : SetExpr,
    (x.reordered h).queries = x.queries.map (Query.reordered h)
  | .select s => s.queries_reordered
  | .query q => q.queries_reordered
  | .setOperation _ _ left right => by
    simp only [SetExpr.reordered, SetExpr.queries, left.queries_reordered,
      right.queries_reordered, List.map_append]
  | .values rows => queriesList_reordered rows

theorem Select.queries_reordered : ∀ x : Select,
    (x.reordered h).queries = x.queries.map (Query.reordered h)
  | ⟨distinct, projection, from_, selection, groupBy, having⟩ => by
    simp only [Select.reordered, Select.queries, distinct.queries_reordered,
      queriesItems_reordered projection, queriesFrom_reordered from_,
      queriesOption_reordered selection, groupBy.queries_reordered,
      queriesOption_reordered having, List.map_append]

theorem Distinct.queries_reordered : ∀ x : Distinct,
    (x.reordered h).queries = x.queries.map (Query.reordered h)
  | .no => rfl
  | .rows => rfl
  | .on exprs => queriesList_reordered exprs

theorem queriesItems_reordered : ∀ x : List SelectItem,
    queriesItems (reorderedItems h x) = (queriesItems x).map (Query.reordered h)
  | [] => rfl
  | .unnamedExpr e :: rest => by
    simp only [reorderedItems, queriesItems, e.queries_reordered, queriesItems_reordered rest,
      List.map_append]
  | .exprWithAlias e _ :: rest => by
    simp only [reorderedItems, queriesItems, e.queries_reordered, queriesItems_reordered rest,
      List.map_append]
  | .qualifiedWildcard _ :: rest => queriesItems_reordered rest
  | .wildcard :: rest => queriesItems_reordered rest

theorem GroupByExpr.queries_reordered : ∀ x : GroupByExpr,
    (x.reordered h).queries = x.queries.map (Query.reordered h)
  | .all => rfl
  | .expressions exprs => queriesList_reordered exprs

theorem queriesFrom_reordered : ∀ x : List TableWithJoins,
    queriesFrom (reorderedFrom h x) = (queriesFrom x).map (Query.reordered h)
  | [] => rfl
  | entry :: rest => by
    simp only [reorderedFrom, queriesFrom, entry.queries_reordered, queriesFrom_reordered rest,
      List.map_append]

theorem TableWithJoins.queries_reordered : ∀ x : TableWithJoins,
    (x.reordered h).queries = x.queries.map (Query.reordered h)
  | ⟨relation, joins⟩ => by
    simp only [TableWithJoins.reordered, TableWithJoins.queries, relation.queries_reordered,
      queriesJoins_reordered joins, List.map_append]

theorem queriesJoins_reordered : ∀ x : List Join,
    queriesJoins (reorderedJoins h x) = (queriesJoins x).map (Query.reordered h)
  | [] => rfl
  | ⟨relation, _, constraint⟩ :: rest => by
    simp only [reorderedJoins, queriesJoins, relation.queries_reordered,
      constraint.queries_reordered, queriesJoins_reordered rest, List.map_append]

theorem JoinConstraint.queries_reordered : ∀ x : JoinConstraint,
    (x.reordered h).queries = x.queries.map (Query.reordered h)
  | .on e => e.queries_reordered
  | .using _ => rfl
  | .natural => rfl
  | .none => rfl

theorem TableFactor.queries_reordered : ∀ x : TableFactor,
    (x.reordered h).queries = x.queries.map (Query.reordered h)
  | .table _ _ none => rfl
  | .table _ _ (some args) => queriesArgs_reordered args
  | .derived _ q _ => q.queries_reordered
  | .nestedJoin entry _ => entry.queries_reordered
  | .function _ _ args _ => queriesArgs_reordered args
  | .tableFunction e _ => e.queries_reordered
  | .unnest _ exprs => queriesList_reordered exprs
end

end

end PgCatalog.Sql
