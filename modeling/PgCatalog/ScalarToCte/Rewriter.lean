import PgCatalog.ScalarToCte.Lift

/-! The rewriter over whole statements: derived tables first, then the projection, with
the bodies of lifted subqueries rewritten on their way into the WITH clause. -/
namespace PgCatalog.ScalarToCte

open Sql

/-- The rewriter with the WITH clause and the FROM clause that lifting adds to. -/
structure Lifting where
  rewriter : ScalarToCte
  with_ : Option With
  from_ : List TableWithJoins

/-- Rewriting a query inside another one. -/
abbrev Visit := Query → StateM ScalarToCte Query

section
variable (host : Host) (visit : Visit)

/-- The rewritten body of a lifted subquery. -/
def visitBody (info : CorrelatedInfo) : StateM ScalarToCte Query := do
  modify fun s => { s with enclosingLiftedBodies := s.enclosingLiftedBodies + 1 }
  let body ← visit (cleanedSubquery info)
  modify fun s => { s with enclosingLiftedBodies := s.enclosingLiftedBodies - 1 }
  return body

/-- A rewriter step as a step of the lifting around it. -/
def stepRewriter {α : Type} (step : StateM ScalarToCte α) : StateM Lifting α := fun l =>
  let (a, rewriter) := step.run l.rewriter
  (a, { l with rewriter })

def pushCteAndJoin (info : CorrelatedInfo) : StateM Lifting Unit := do
  let body ← stepRewriter (visitBody visit info)
  modify fun l =>
    { l with
      with_ := appendCte l.with_ (makeCte info.cteIdent body)
      from_ := addJoin l.from_ info }

def countConverted : StateM Lifting Unit :=
  stepRewriter (modify fun s => { s with converted := s.converted + 1 })

def rewriteExpr (outerAliases : List Ident) (e : Expr) : StateM Lifting Expr :=
  e.walked fun
    | .subquery q => do
      match ← stepRewriter (analyseScalar host outerAliases (.unnamedExpr (.subquery q))) with
      | some info =>
        pushCteAndJoin visit info
        countConverted
        return makeCteColumnRef info
      | none => return .subquery q
    | leaf => return leaf

/-- The column name given to an item that had none: `subqN`. -/
def subqueryAlias (converted : Nat) : Ident := .new s!"subq{converted}"

def rewriteItem (outerAliases : List Ident) : SelectItem → StateM Lifting SelectItem
  | .unnamedExpr e => do
    let before := (← get).rewriter.converted
    let e ← rewriteExpr host visit outerAliases e
    let after := (← get).rewriter.converted
    return if before < after then .exprWithAlias e (subqueryAlias after) else .unnamedExpr e
  | .exprWithAlias e alias_ => return .exprWithAlias (← rewriteExpr host visit outerAliases e) alias_
  | item => return item

/-- The three closing passes over an item the walk left as a subquery: analysed again, lifted,
and replaced. -/
def patchItem (item : SelectItem) (info : Option CorrelatedInfo) : StateM Lifting SelectItem := do
  match info with
  | none => return item
  | some info =>
    let alias_ := info.origAlias.getD (subqueryAlias ((← get).rewriter.converted + 1))
    countConverted
    return .exprWithAlias (makeCteColumnRef info) alias_

def visitProjection (outerAliases : List Ident) (sel : Select) : StateM Lifting Select := do
  let projection ← sel.projection.mapM (rewriteItem host visit outerAliases)
  let sel := injectGroupBy { sel with projection, from_ := (← get).from_ }
  let collected ← sel.projection.mapM fun item => stepRewriter (analyseScalar host outerAliases item)
  for info in collected.reduceOption do
    pushCteAndJoin visit info
  let projection ← (sel.projection.zip collected).mapM fun (item, info) => patchItem item info
  return { sel with projection, from_ := (← get).from_ }

mutual

/-- Derived tables, each with the WITH clause of its own. -/
def visitFactor : TableFactor → StateM ScalarToCte TableFactor
  | .derived lateral subquery alias_ => return .derived lateral (← visit subquery) alias_
  | .nestedJoin entry alias_ => return .nestedJoin (← visitEntry entry) alias_
  | factor => return factor

def visitEntry : TableWithJoins → StateM ScalarToCte TableWithJoins
  | ⟨relation, joins⟩ => do
    let relation ← visitFactor relation
    return ⟨relation, ← visitJoins joins⟩

def visitJoins : List Join → StateM ScalarToCte (List Join)
  | [] => return []
  | ⟨relation, kind, constraint⟩ :: rest => do
    let relation ← visitFactor relation
    return ⟨relation, kind, constraint⟩ :: (← visitJoins rest)

end

def visitFrom (from_ : List TableWithJoins) : StateM ScalarToCte (List TableWithJoins) :=
  from_.mapM (visitEntry visit)

def visitSelect (with_ : Option With) (sel : Select) : StateM ScalarToCte (Option With × Select) := do
  let from_ ← visitFrom visit sel.from_
  let sel := qualifyOuterColumnsInProjectionSubqueries host { sel with from_ }
  let outerAliases := collectOuterAliases sel.from_
  let (sel, lifting) := (visitProjection host visit outerAliases sel).run ⟨← get, with_, sel.from_⟩
  set lifting.rewriter
  return (lifting.with_, sel)

/-- A branch of a set operation hangs its CTEs on the WITH clause of the query it is in. -/
def visitSetExpr (with_ : Option With) : SetExpr → StateM ScalarToCte (Option With × SetExpr)
  | .select sel => do
    let (with_, sel) ← visitSelect host visit with_ sel
    return (with_, .select sel)
  | .setOperation op quantifier left right => do
    let (with_, left) ← visitSetExpr with_ left
    let (with_, right) ← visitSetExpr with_ right
    return (with_, .setOperation op quantifier left right)
  | .query inner => return (with_, .query (← visit inner))
  | .values rows => return (with_, .values rows)

end

mutual

/-- How deep the queries lie in each other that a visit goes through: derived tables, the
branches of set operations, and subqueries where the walk of a projection gets to them. -/
def nesting : Query → Nat
  | ⟨_, body, _, _, _⟩ => nestingBody body + 1

def nestingBody : SetExpr → Nat
  | .select ⟨_, projection, from_, _, _, _⟩ => max (nestingItems projection) (nestingFrom from_)
  | .query q => nesting q
  | .setOperation _ _ left right => max (nestingBody left) (nestingBody right)
  | .values _ => 0

def nestingItems : List SelectItem → Nat
  | [] => 0
  | .unnamedExpr e :: rest => max (nestingExpr e) (nestingItems rest)
  | .exprWithAlias e _ :: rest => max (nestingExpr e) (nestingItems rest)
  | _ :: rest => nestingItems rest

def nestingExpr : Expr → Nat
  | .subquery q => nesting q
  | .binaryOp left _ right => max (nestingExpr left) (nestingExpr right)
  | .nested inner => nestingExpr inner
  | .unaryOp _ inner => nestingExpr inner
  | .cast _ inner _ => nestingExpr inner
  | .case operand conditions elseResult =>
    max (max (nestingOption operand) (nestingCases conditions)) (nestingOption elseResult)
  | .function ⟨_, .list _ args _, _, _, _⟩ => nestingArgs args
  | _ => 0

def nestingOption : Option Expr → Nat
  | none => 0
  | some e => nestingExpr e

def nestingCases : List CaseWhen → Nat
  | [] => 0
  | ⟨condition, result⟩ :: rest =>
    max (max (nestingExpr condition) (nestingExpr result)) (nestingCases rest)

def nestingArgs : List FunctionArg → Nat
  | [] => 0
  | .unnamed (.expr e) :: rest => max (nestingExpr e) (nestingArgs rest)
  | .named _ (.expr e) :: rest => max (nestingExpr e) (nestingArgs rest)
  | _ :: rest => nestingArgs rest

def nestingFrom : List TableWithJoins → Nat
  | [] => 0
  | entry :: rest => max (nestingEntry entry) (nestingFrom rest)

def nestingEntry : TableWithJoins → Nat
  | ⟨relation, joins⟩ => max (nestingFactor relation) (nestingJoins joins)

def nestingJoins : List Join → Nat
  | [] => 0
  | ⟨relation, _, _⟩ :: rest => max (nestingFactor relation) (nestingJoins rest)

def nestingFactor : TableFactor → Nat
  | .derived _ q _ => nesting q
  | .nestedJoin entry _ => nestingEntry entry
  | _ => 0

end

/-- The rewriting of a query and of the queries in it, down to a depth. -/
def visitQuery (host : Host) : Nat → Visit
  | 0, q => return q
  | depth + 1, q => do
    let (with_, body) ← visitSetExpr host (visitQuery host depth) q.with_ q.body
    return { q with with_, body }

/-- The rewriting of a statement's query: every nested visit is of a query less deep. -/
def rewriteScalarSubqueriesToCtes (host : Host) (q : Query) : Query :=
  ((visitQuery host (nesting q) q).run {}).1

end PgCatalog.ScalarToCte
