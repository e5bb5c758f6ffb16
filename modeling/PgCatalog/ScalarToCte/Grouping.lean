import PgCatalog.Sql.Visit
import PgCatalog.ScalarToCte.Correlation

/-! The grouping the rewriter adds to a SELECT whose projection seems to mix aggregates
with plain columns. -/
namespace PgCatalog.ScalarToCte

open Sql

def aggregateFunctionNames : List String :=
  ["array", "array_agg", "avg", "bit_and", "bit_or", "bit_xor", "bool_and", "bool_or", "corr",
    "count", "covar_pop", "covar_samp", "every", "json_agg", "json_object_agg", "jsonb_agg",
    "jsonb_object_agg", "max", "min", "pg_get_array", "range_agg", "range_intersect_agg",
    "stddev", "stddev_pop", "stddev_samp", "string_agg", "sum", "var_pop", "var_samp",
    "variance", "xmlagg"]

/-- The unqualified name of a called function, in lower case. -/
def baseName (f : Function) : String := ((lastIdent f.name).map (·.value.toLower)).getD ""

def isAggregate (f : Function) : Bool := baseName f ∈ aggregateFunctionNames

def isSubscript : AccessExpr → Bool
  | .dot _ => false
  | .subscript _ | .slice _ _ => true

/-- A subscript access or a call of `unnest`, anywhere inside. -/
def hasSrfUnnestMarker (e : Expr) : Bool :=
  e.visited.any fun
    | .compoundFieldAccess _ accessChain => accessChain.any isSubscript
    | .function f => (lastIdent f.name).any (·.value.toLower = "unnest")
    | _ => false

/-- A plain column as a grouping key. -/
inductive ColumnRef where
  | identifier (id : Ident)
  | compound (parts : List Ident)
  deriving DecidableEq, Repr

def ColumnRef.expr : ColumnRef → Expr
  | .identifier id => .identifier id
  | .compound parts => .compoundIdentifier parts

/-- What the walk of an expression found: whether an aggregate, and the columns outside
every aggregate. -/
structure GroupByColumns where
  hasAggr : Bool
  cols : List ColumnRef
  deriving DecidableEq, Repr

namespace GroupByColumns

def none : GroupByColumns := ⟨false, []⟩

def column (insideAggr : Bool) (c : ColumnRef) : GroupByColumns :=
  ⟨false, if insideAggr then [] else [c]⟩

def both (a b : GroupByColumns) : GroupByColumns := ⟨a.hasAggr || b.hasAggr, a.cols ++ b.cols⟩

end GroupByColumns

mutual

def collectGroupByColumns (insideAggr : Bool) : Expr → GroupByColumns
  | .function ⟨name, args, filter, over_, withinGroup⟩ =>
    let isAggr := isAggregate ⟨name, args, filter, over_, withinGroup⟩
    .both ⟨isAggr, []⟩ (collectArguments (insideAggr || isAggr) args)
  | .compoundIdentifier parts => .column insideAggr (.compound parts)
  | .identifier id => .column insideAggr (.identifier id)
  | .binaryOp left _ right =>
    (collectGroupByColumns insideAggr left).both (collectGroupByColumns insideAggr right)
  | .isDistinctFrom left right =>
    (collectGroupByColumns insideAggr left).both (collectGroupByColumns insideAggr right)
  | .isNotDistinctFrom left right =>
    (collectGroupByColumns insideAggr left).both (collectGroupByColumns insideAggr right)
  | .nested inner => collectGroupByColumns insideAggr inner
  | .unaryOp _ inner => collectGroupByColumns insideAggr inner
  | .cast _ inner _ => collectGroupByColumns insideAggr inner
  | .isTest _ inner => collectGroupByColumns insideAggr inner
  | .case operand conditions elseResult =>
    ((collectOption insideAggr operand).both (collectCases insideAggr conditions)).both
      (collectOption insideAggr elseResult)
  | _ => .none

def collectOption (insideAggr : Bool) : Option Expr → GroupByColumns
  | none => .none
  | some e => collectGroupByColumns insideAggr e

def collectCases (insideAggr : Bool) : List CaseWhen → GroupByColumns
  | [] => .none
  | ⟨condition, result⟩ :: rest =>
    ((collectGroupByColumns insideAggr condition).both
      (collectGroupByColumns insideAggr result)).both (collectCases insideAggr rest)

def collectArguments (insideAggr : Bool) : FunctionArguments → GroupByColumns
  | .list _ args _ => collectArgs insideAggr args
  | _ => .none

def collectArgs (insideAggr : Bool) : List FunctionArg → GroupByColumns
  | [] => .none
  | .unnamed (.expr e) :: rest => (collectGroupByColumns insideAggr e).both (collectArgs insideAggr rest)
  | _ :: rest => collectArgs insideAggr rest

end

def hasUserGroupBy : GroupByExpr → Bool
  | .all => true
  | .expressions exprs => !exprs.isEmpty

def isWildcard : SelectItem → Bool
  | .wildcard | .qualifiedWildcard _ => true
  | _ => false

/-- The expression of a projection item, aliased or not. -/
def itemExpr : SelectItem → Option Expr
  | .unnamedExpr e => some e
  | .exprWithAlias e _ => some e
  | _ => none

def isLiteral : Expr → Bool
  | .value _ => true
  | _ => false

/-- The projection expressions that count: bare constants do not. -/
def countedExprs (projection : List SelectItem) : List Expr :=
  (projection.filterMap itemExpr).filter (!isLiteral ·)

def collectProjection (exprs : List Expr) : GroupByColumns :=
  exprs.foldl (fun found e => found.both (collectGroupByColumns false e)) .none

/-- A projection that is never grouped: it expands a wildcard or reads an unnested array. -/
def bailsOut (projection : List SelectItem) : Bool :=
  projection.any (fun item => (itemExpr item).any hasSrfUnnestMarker) || projection.any isWildcard

def injectGroupBy (sel : Select) : Select :=
  if hasUserGroupBy sel.groupBy || bailsOut sel.projection then sel
  else
    let counted := countedExprs sel.projection
    let found := collectProjection counted
    let mixesPlainColumnsWithAggregates := found.cols ≠ [] ∧ found.cols.length < counted.length
    if found.hasAggr ∨ mixesPlainColumnsWithAggregates then
      { sel with groupBy := .expressions ((found.cols.foldl pushNew []).map (·.expr)) }
    else sel

end PgCatalog.ScalarToCte
