import PgCatalog.Sql.Ast

/-! The parser's own visitors: every expression inside a tree, subqueries included, and
the same tree with a function applied to each of them, innermost first. -/
namespace PgCatalog.Sql

mutual

/-- `visit_expressions`: the expressions met, each before what it holds. -/
def Expr.visited : Expr → List Expr
  | e@(.identifier _) => [e]
  | e@(.compoundIdentifier _) => [e]
  | e@(.value _) => [e]
  | e@(.binaryOp left _ right) => e :: (left.visited ++ right.visited)
  | e@(.unaryOp _ inner) => e :: inner.visited
  | e@(.nested inner) => e :: inner.visited
  | e@(.cast _ inner _) => e :: inner.visited
  | e@(.case operand conditions elseResult) =>
    e :: (visitedOption operand ++ visitedCases conditions ++ visitedOption elseResult)
  | e@(.anyOp left _ right _) => e :: (left.visited ++ right.visited)
  | e@(.isTest _ inner) => e :: inner.visited
  | e@(.isDistinctFrom left right) => e :: (left.visited ++ right.visited)
  | e@(.isNotDistinctFrom left right) => e :: (left.visited ++ right.visited)
  | e@(.function f) => e :: f.visited
  | e@(.compoundFieldAccess root chain) => e :: (root.visited ++ visitedAccess chain)
  | e@(.subquery q) => e :: q.visited
  | e@(.exists q _) => e :: q.visited
  | e@(.inSubquery inner q _) => e :: (inner.visited ++ q.visited)
  | e@(.node _ children) => e :: visitedList children

def visitedOption : Option Expr → List Expr
  | none => []
  | some e => e.visited

def visitedList : List Expr → List Expr
  | [] => []
  | e :: rest => e.visited ++ visitedList rest

def visitedCases : List CaseWhen → List Expr
  | [] => []
  | ⟨condition, result⟩ :: rest => condition.visited ++ result.visited ++ visitedCases rest

def visitedAccess : List AccessExpr → List Expr
  | [] => []
  | .dot e :: rest => e.visited ++ visitedAccess rest
  | .subscript index :: rest => index.visited ++ visitedAccess rest
  | .slice lower upper :: rest =>
    visitedOption lower ++ visitedOption upper ++ visitedAccess rest

def Function.visited : Function → List Expr
  | ⟨_, args, filter, over_, withinGroup⟩ =>
    args.visited ++ visitedOption filter ++ visitedWindow over_ ++ visitedOrderBy withinGroup

def FunctionArguments.visited : FunctionArguments → List Expr
  | .none => []
  | .subquery q => q.visited
  | .list _ args orderBy => visitedArgs args ++ visitedOrderBy orderBy

def visitedArgs : List FunctionArg → List Expr
  | [] => []
  | .unnamed arg :: rest => arg.visited ++ visitedArgs rest
  | .named _ arg :: rest => arg.visited ++ visitedArgs rest

def FunctionArgExpr.visited : FunctionArgExpr → List Expr
  | .expr e => e.visited
  | .qualifiedWildcard _ => []
  | .wildcard => []

def visitedWindow : Option WindowType → List Expr
  | none => []
  | some (.spec partitionBy orderBy) => visitedList partitionBy ++ visitedOrderBy orderBy
  | some (.named _) => []

def visitedOrderBy : List OrderByExpr → List Expr
  | [] => []
  | ⟨e, _, _⟩ :: rest => e.visited ++ visitedOrderBy rest

def Query.visited : Query → List Expr
  | ⟨with_, body, orderBy, limit, offset⟩ =>
    visitedWith with_ ++ body.visited ++ visitedOrderBy orderBy ++ visitedOption limit ++
      visitedOption offset

def visitedWith : Option With → List Expr
  | none => []
  | some ⟨_, ctes⟩ => visitedCtes ctes

def visitedCtes : List Cte → List Expr
  | [] => []
  | ⟨_, q⟩ :: rest => q.visited ++ visitedCtes rest

def SetExpr.visited : SetExpr → List Expr
  | .select s => s.visited
  | .query q => q.visited
  | .setOperation _ _ left right => left.visited ++ right.visited
  | .values rows => visitedList rows

def Select.visited : Select → List Expr
  | ⟨distinct, projection, from_, selection, groupBy, having⟩ =>
    distinct.visited ++ visitedItems projection ++ visitedFrom from_ ++
      visitedOption selection ++ groupBy.visited ++ visitedOption having

def Distinct.visited : Distinct → List Expr
  | .no => []
  | .rows => []
  | .on exprs => visitedList exprs

def visitedItems : List SelectItem → List Expr
  | [] => []
  | .unnamedExpr e :: rest => e.visited ++ visitedItems rest
  | .exprWithAlias e _ :: rest => e.visited ++ visitedItems rest
  | .qualifiedWildcard _ :: rest => visitedItems rest
  | .wildcard :: rest => visitedItems rest

def GroupByExpr.visited : GroupByExpr → List Expr
  | .all => []
  | .expressions exprs => visitedList exprs

def visitedFrom : List TableWithJoins → List Expr
  | [] => []
  | entry :: rest => entry.visited ++ visitedFrom rest

def TableWithJoins.visited : TableWithJoins → List Expr
  | ⟨relation, joins⟩ => relation.visited ++ visitedJoins joins

def visitedJoins : List Join → List Expr
  | [] => []
  | ⟨relation, _, constraint⟩ :: rest =>
    relation.visited ++ constraint.visited ++ visitedJoins rest

def JoinConstraint.visited : JoinConstraint → List Expr
  | .on e => e.visited
  | .using _ => []
  | .natural => []
  | .none => []

def TableFactor.visited : TableFactor → List Expr
  | .table _ _ none => []
  | .table _ _ (some args) => visitedArgs args
  | .derived _ q _ => q.visited
  | .nestedJoin entry _ => entry.visited
  | .function _ _ args _ => visitedArgs args
  | .tableFunction e _ => e.visited
  | .unnest _ exprs => visitedList exprs

end

mutual

/-- `visit_expressions_mut`: the tree with `f` applied to each expression after what it
holds has been replaced. -/
def Expr.replaced (f : Expr → Expr) : Expr → Expr
  | e@(.identifier _) => f e
  | e@(.compoundIdentifier _) => f e
  | e@(.value _) => f e
  | .binaryOp left op right => f (.binaryOp (left.replaced f) op (right.replaced f))
  | .unaryOp op inner => f (.unaryOp op (inner.replaced f))
  | .nested inner => f (.nested (inner.replaced f))
  | .cast kind inner dataType => f (.cast kind (inner.replaced f) dataType)
  | .case operand conditions elseResult =>
    f (.case (replacedOption f operand) (replacedCases f conditions) (replacedOption f elseResult))
  | .anyOp left op right isSome => f (.anyOp (left.replaced f) op (right.replaced f) isSome)
  | .isTest test inner => f (.isTest test (inner.replaced f))
  | .isDistinctFrom left right => f (.isDistinctFrom (left.replaced f) (right.replaced f))
  | .isNotDistinctFrom left right => f (.isNotDistinctFrom (left.replaced f) (right.replaced f))
  | .function call => f (.function (call.replaced f))
  | .compoundFieldAccess root chain =>
    f (.compoundFieldAccess (root.replaced f) (replacedAccess f chain))
  | .subquery q => f (.subquery (q.replaced f))
  | .exists q negated => f (.exists (q.replaced f) negated)
  | .inSubquery inner q negated => f (.inSubquery (inner.replaced f) (q.replaced f) negated)
  | .node form children => f (.node form (replacedList f children))

def replacedOption (f : Expr → Expr) : Option Expr → Option Expr
  | none => none
  | some e => some (e.replaced f)

def replacedList (f : Expr → Expr) : List Expr → List Expr
  | [] => []
  | e :: rest => e.replaced f :: replacedList f rest

def replacedCases (f : Expr → Expr) : List CaseWhen → List CaseWhen
  | [] => []
  | ⟨condition, result⟩ :: rest =>
    ⟨condition.replaced f, result.replaced f⟩ :: replacedCases f rest

def replacedAccess (f : Expr → Expr) : List AccessExpr → List AccessExpr
  | [] => []
  | .dot e :: rest => .dot (e.replaced f) :: replacedAccess f rest
  | .subscript index :: rest => .subscript (index.replaced f) :: replacedAccess f rest
  | .slice lower upper :: rest =>
    .slice (replacedOption f lower) (replacedOption f upper) :: replacedAccess f rest

def Function.replaced (f : Expr → Expr) : Function → Function
  | ⟨name, args, filter, over_, withinGroup⟩ =>
    ⟨name, args.replaced f, replacedOption f filter, replacedWindow f over_,
      replacedOrderBy f withinGroup⟩

def FunctionArguments.replaced (f : Expr → Expr) : FunctionArguments → FunctionArguments
  | .none => .none
  | .subquery q => .subquery (q.replaced f)
  | .list distinct args orderBy =>
    .list distinct (replacedArgs f args) (replacedOrderBy f orderBy)

def replacedArgs (f : Expr → Expr) : List FunctionArg → List FunctionArg
  | [] => []
  | .unnamed arg :: rest => .unnamed (arg.replaced f) :: replacedArgs f rest
  | .named name arg :: rest => .named name (arg.replaced f) :: replacedArgs f rest

def FunctionArgExpr.replaced (f : Expr → Expr) : FunctionArgExpr → FunctionArgExpr
  | .expr e => .expr (e.replaced f)
  | .qualifiedWildcard name => .qualifiedWildcard name
  | .wildcard => .wildcard

def replacedWindow (f : Expr → Expr) : Option WindowType → Option WindowType
  | none => none
  | some (.spec partitionBy orderBy) =>
    some (.spec (replacedList f partitionBy) (replacedOrderBy f orderBy))
  | some (.named name) => some (.named name)

def replacedOrderBy (f : Expr → Expr) : List OrderByExpr → List OrderByExpr
  | [] => []
  | ⟨e, asc, nullsFirst⟩ :: rest => ⟨e.replaced f, asc, nullsFirst⟩ :: replacedOrderBy f rest

def Query.replaced (f : Expr → Expr) : Query → Query
  | ⟨with_, body, orderBy, limit, offset⟩ =>
    ⟨replacedWith f with_, body.replaced f, replacedOrderBy f orderBy, replacedOption f limit,
      replacedOption f offset⟩

def replacedWith (f : Expr → Expr) : Option With → Option With
  | none => none
  | some ⟨recursive, ctes⟩ => some ⟨recursive, replacedCtes f ctes⟩

def replacedCtes (f : Expr → Expr) : List Cte → List Cte
  | [] => []
  | ⟨name, q⟩ :: rest => ⟨name, q.replaced f⟩ :: replacedCtes f rest

def SetExpr.replaced (f : Expr → Expr) : SetExpr → SetExpr
  | .select s => .select (s.replaced f)
  | .query q => .query (q.replaced f)
  | .setOperation op quantifier left right =>
    .setOperation op quantifier (left.replaced f) (right.replaced f)
  | .values rows => .values (replacedList f rows)

def Select.replaced (f : Expr → Expr) : Select → Select
  | ⟨distinct, projection, from_, selection, groupBy, having⟩ =>
    ⟨distinct.replaced f, replacedItems f projection, replacedFrom f from_,
      replacedOption f selection, groupBy.replaced f, replacedOption f having⟩

def Distinct.replaced (f : Expr → Expr) : Distinct → Distinct
  | .no => .no
  | .rows => .rows
  | .on exprs => .on (replacedList f exprs)

def replacedItems (f : Expr → Expr) : List SelectItem → List SelectItem
  | [] => []
  | .unnamedExpr e :: rest => .unnamedExpr (e.replaced f) :: replacedItems f rest
  | .exprWithAlias e name :: rest => .exprWithAlias (e.replaced f) name :: replacedItems f rest
  | .qualifiedWildcard name :: rest => .qualifiedWildcard name :: replacedItems f rest
  | .wildcard :: rest => .wildcard :: replacedItems f rest

def GroupByExpr.replaced (f : Expr → Expr) : GroupByExpr → GroupByExpr
  | .all => .all
  | .expressions exprs => .expressions (replacedList f exprs)

def replacedFrom (f : Expr → Expr) : List TableWithJoins → List TableWithJoins
  | [] => []
  | entry :: rest => entry.replaced f :: replacedFrom f rest

def TableWithJoins.replaced (f : Expr → Expr) : TableWithJoins → TableWithJoins
  | ⟨relation, joins⟩ => ⟨relation.replaced f, replacedJoins f joins⟩

def replacedJoins (f : Expr → Expr) : List Join → List Join
  | [] => []
  | ⟨relation, kind, constraint⟩ :: rest =>
    ⟨relation.replaced f, kind, constraint.replaced f⟩ :: replacedJoins f rest

def JoinConstraint.replaced (f : Expr → Expr) : JoinConstraint → JoinConstraint
  | .on e => .on (e.replaced f)
  | .using columns => .using columns
  | .natural => .natural
  | .none => .none

def TableFactor.replaced (f : Expr → Expr) : TableFactor → TableFactor
  | .table name alias_ none => .table name alias_ none
  | .table name alias_ (some args) => .table name alias_ (some (replacedArgs f args))
  | .derived lateral q alias_ => .derived lateral (q.replaced f) alias_
  | .nestedJoin entry alias_ => .nestedJoin (entry.replaced f) alias_
  | .function lateral name args alias_ => .function lateral name (replacedArgs f args) alias_
  | .tableFunction e alias_ => .tableFunction (e.replaced f) alias_
  | .unnest alias_ exprs => .unnest alias_ (replacedList f exprs)

end

end PgCatalog.Sql
