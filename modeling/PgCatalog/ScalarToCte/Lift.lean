import PgCatalog.ScalarToCte.Grouping
import PgCatalog.ScalarToCte.Qualify

/-! Lifting one scalar subquery: whether it can be, the CTE body it becomes, and what
takes its place. -/
namespace PgCatalog

open Sql

/-- What the rewriter carries: the subqueries converted, the CTE names handed out, and
how many lifted bodies enclose the query at hand. -/
structure ScalarToCte where
  converted : Nat := 0
  cteCounter : Nat := 0
  enclosingLiftedBodies : Nat := 0
  deriving DecidableEq, Repr

namespace ScalarToCte

structure CorrelatedInfo where
  cteIdent : Ident
  subquery : Query
  onPairs : List CorrelatedPredicate
  outerOnlyPredicates : List Expr
  origAlias : Option Ident
  outerAliases : List Ident

/-- The name the rewriter takes a FROM item to bind: a relation without alias goes by the
first part of its name. -/
def outerAlias : TableFactor → Option Ident
  | .table _ (some alias_) _ => some alias_.name
  | .derived _ _ (some alias_) => some alias_.name
  | .table name none _ => name.head?.bind (·.asIdent)
  | _ => none

def collectOuterAliases (from_ : List TableWithJoins) : List Ident :=
  (tableFactors from_).filterMap outerAlias

/-- The name of the n-th CTE: `__cteN`. -/
def cteName (n : Nat) : Ident := .new s!"__cte{n}"

def freshName : StateM ScalarToCte Ident := do
  modify fun s => { s with cteCounter := s.cteCounter + 1 }
  return cteName (← get).cteCounter

/-- The conjuncts that stay in the subquery's WHERE clause. -/
def keptConjuncts (pred : Expr) (pairs : List CorrelatedPredicate) (outerAliases : List Ident) :
    List Expr :=
  (splitAnd pred).filter fun conjunct =>
    !pairs.any (isSamePred conjunct) && !outerAliases.any (isOuterOnly conjunct)

def stripCorrFilters (sel : Select) (pairs : List CorrelatedPredicate) (outerAliases : List Ident) :
    Select :=
  match sel.selection with
  | some pred => { sel with selection := buildAnd (keptConjuncts pred pairs outerAliases) }
  | none => sel

/-- The inner column that a path written for the outer one stands for. -/
def innerFor (pairs : List CorrelatedPredicate) (path : List Ident) : Option (List Ident) :=
  (pairs.find? (·.outer = path)).map (·.inner)

def replaceOuterRefs (pairs : List CorrelatedPredicate) (e : Expr) : Expr :=
  e.walked (m := Id) fun
    | .compoundIdentifier path =>
      match innerFor pairs path with
      | some inner => .compoundIdentifier inner
      | none => .compoundIdentifier path
    | .identifier id =>
      match innerFor pairs [id] with
      | some [inner] => .identifier inner
      | some inner => .compoundIdentifier inner
      | none => .identifier id
    | leaf => leaf

/-- The first item of a projection as `col`, unless it has an alias of its own. -/
def exposeValue (pairs : List CorrelatedPredicate) : List SelectItem → List SelectItem
  | .unnamedExpr e :: rest => .exprWithAlias (replaceOuterRefs pairs e) (.new "col") :: rest
  | projection => projection

/-- Whether an item is the bare column of a path. -/
def projectsPath (path : List Ident) : SelectItem → Bool
  | .unnamedExpr (.compoundIdentifier p) => p = path
  | _ => false

def ensureProjectedColumn (projection : List SelectItem) (path : List Ident) : List SelectItem :=
  if projection.any (projectsPath path) then projection
  else projection ++ [.unnamedExpr (.compoundIdentifier path)]

mutual

/-- A relation name of one part gains the `pg_catalog` prefix, a call of a table function
does not. -/
def qualifyFactor : TableFactor → TableFactor
  | .table [name] alias_ none => .table [.identifier (.new "pg_catalog"), name] alias_ none
  | .derived lateral subquery alias_ => .derived lateral (qualifyPgCatalogTables subquery) alias_
  | .nestedJoin entry alias_ => .nestedJoin (qualifyEntry entry) alias_
  | factor => factor

def qualifyEntry : TableWithJoins → TableWithJoins
  | ⟨relation, joins⟩ => ⟨qualifyFactor relation, qualifyJoins joins⟩

def qualifyJoins : List Join → List Join
  | [] => []
  | ⟨relation, kind, constraint⟩ :: rest =>
    ⟨qualifyFactor relation, kind, constraint⟩ :: qualifyJoins rest

def qualifyFrom : List TableWithJoins → List TableWithJoins
  | [] => []
  | entry :: rest => qualifyEntry entry :: qualifyFrom rest

def qualifyPgCatalogTables : Query → Query
  | ⟨with_, body, orderBy, limit, offset⟩ => ⟨with_, qualifyBody body, orderBy, limit, offset⟩

def qualifyBody : SetExpr → SetExpr
  | .select ⟨distinct, projection, from_, selection, groupBy, having⟩ =>
    .select ⟨distinct, projection, qualifyFrom from_, selection, groupBy, having⟩
  | body => body

end

/-- The body of the lifted SELECT: correlated filters gone, the value exposed as `col`,
every join key projected, and grouped where the projection calls for it. -/
def cleanedSelect (sel : Select) (pairs : List CorrelatedPredicate) (outerAliases : List Ident) :
    Select :=
  let sel := stripCorrFilters sel pairs outerAliases
  injectGroupBy { sel with
    projection := (joinKeyPaths pairs).foldl ensureProjectedColumn (exposeValue pairs sel.projection) }

def cleanedSubquery (info : CorrelatedInfo) : Query :=
  match info.subquery.body with
  | .select sel =>
    qualifyPgCatalogTables
      { info.subquery with body := .select (cleanedSelect sel info.onPairs info.outerAliases) }
  | _ => qualifyPgCatalogTables info.subquery

mutual

/-- The names the WITH and FROM clauses of a query bind, and those of the derived tables
and CTE bodies in them. -/
def boundInQuery : Query → List Ident
  | ⟨with_, body, _, _, _⟩ => boundInWith with_ ++ boundInBody body

def boundInWith : Option With → List Ident
  | none => []
  | some ⟨_, ctes⟩ => boundInCtes ctes

def boundInCtes : List Cte → List Ident
  | [] => []
  | ⟨alias_, q⟩ :: rest => alias_.name :: boundInQuery q ++ boundInCtes rest

def boundInBody : SetExpr → List Ident
  | .select ⟨_, _, from_, _, _, _⟩ => boundInFrom from_
  | _ => []

def boundInFrom : List TableWithJoins → List Ident
  | [] => []
  | entry :: rest => boundInEntry entry ++ boundInFrom rest

def boundInEntry : TableWithJoins → List Ident
  | ⟨relation, joins⟩ => boundInFactor relation ++ boundInJoins joins

def boundInJoins : List Join → List Ident
  | [] => []
  | ⟨relation, _, _⟩ :: rest => boundInFactor relation ++ boundInJoins rest

def boundInFactor : TableFactor → List Ident
  | .table name alias_ _ => (bindingName name alias_).toList
  | .derived _ subquery alias_ => (alias_.map (·.name)).toList ++ boundInQuery subquery
  | .nestedJoin entry alias_ => (alias_.map (·.name)).toList ++ boundInEntry entry
  | .function _ _ _ alias_ => (alias_.map (·.name)).toList
  | .tableFunction _ alias_ => (alias_.map (·.name)).toList
  | .unnest alias_ _ => (alias_.map (·.name)).toList

end

/-- Every name bound at any depth. The visitor reaches the subqueries of subqueries by
itself, so each one only adds its own. -/
def collectDefinedAliases (q : Query) : List Ident :=
  boundInQuery q ++ q.visited.flatMap fun
    | .subquery inner => boundInQuery inner
    | .exists inner _ => boundInQuery inner
    | _ => []

def pathRoot : Expr → Option Ident
  | .compoundIdentifier parts => parts.head?
  | _ => none

def sameName (left right : Ident) : Bool := left.value.toLower = right.value.toLower

/-- The first of every group of elements that count as the same. -/
def firstOfSame {α : Type} (same : α → α → Bool) (xs : List α) : List α :=
  xs.foldl (fun unique x => if unique.any (same · x) then unique else unique ++ [x]) []

/-- The outer aliases a subquery names and binds nowhere. -/
def unresolvedOuterAliases (subquery : Query) (outerAliases : List Ident) : List Ident :=
  let defined := collectDefinedAliases subquery
  let referenced := subquery.visited.filterMap pathRoot
  firstOfSame sameName <| outerAliases.filter fun alias_ =>
    referenced.any (sameName · alias_) && !defined.any (sameName · alias_)

section
variable (host : Host)

/-- The outer-only conjuncts, alias by alias; of two printed alike the first is kept. -/
def outerOnlyPredicates (pred : Expr) (outerAliases : List Ident) : List Expr :=
  firstOfSame (host.display · = host.display ·) <|
    outerAliases.flatMap fun alias_ => (splitAnd pred).filter (isOuterOnly · alias_)

def subqueryPairs (outerAliases : List Ident) (inner : Select) : List CorrelatedPredicate :=
  (inner.selection.map (correlatedPairs outerAliases)).getD []

/-- What is learned about a subquery over a plain SELECT. -/
def correlatedInfo (origAlias : Option Ident) (outerAliases : List Ident) (q : Query)
    (inner : Select) (cteIdent : Ident) : CorrelatedInfo :=
  { cteIdent
    subquery := q
    onPairs := subqueryPairs outerAliases inner
    outerOnlyPredicates := (inner.selection.map (outerOnlyPredicates host · outerAliases)).getD []
    origAlias
    outerAliases }

/-- The cleaned body leaves no outer alias behind. -/
def standsAlone (info : CorrelatedInfo) : Bool :=
  (unresolvedOuterAliases (cleanedSubquery info) info.outerAliases).isEmpty

/-- A subquery in a lifted body is left alone if nothing correlates it. -/
def analyseSubquery (origAlias : Option Ident) (outerAliases : List Ident) (q : Query) :
    StateM ScalarToCte (Option CorrelatedInfo) := do
  match q.body with
  | .select inner =>
    if 0 < (← get).enclosingLiftedBodies ∧ (subqueryPairs outerAliases inner).isEmpty then
      return none
    let info := correlatedInfo host origAlias outerAliases q inner (← freshName)
    return if standsAlone info then some info else none
  | _ => return none

/-- A projection item is lifted if it is a scalar subquery over a plain SELECT that stands
on its own once cleaned. -/
def analyseScalar (outerAliases : List Ident) :
    SelectItem → StateM ScalarToCte (Option CorrelatedInfo)
  | .unnamedExpr (.subquery q) => analyseSubquery host none outerAliases q
  | .exprWithAlias (.subquery q) alias_ => analyseSubquery host (some alias_) outerAliases q
  | _ => return none

end

section
variable {host : Host} {outerAliases : List Ident} {s t : ScalarToCte} {info : CorrelatedInfo}

theorem analyseSubquery_run {origAlias : Option Ident} {q : Query} {inner : Select}
    (body : q.body = .select inner) :
    (analyseSubquery host origAlias outerAliases q).run s =
      if 0 < s.enclosingLiftedBodies ∧ (subqueryPairs outerAliases inner).isEmpty then (none, s)
      else
        let info :=
          correlatedInfo host origAlias outerAliases q inner (cteName (s.cteCounter + 1))
        (if standsAlone info then some info else none, { s with cteCounter := s.cteCounter + 1 }) := by
  simp only [analyseSubquery, body]
  by_cases alone : 0 < s.enclosingLiftedBodies ∧ (subqueryPairs outerAliases inner).isEmpty
  · rw [if_pos alone]
    change StateT.run (ite (0 < s.enclosingLiftedBodies ∧ _) _ _) s = _
    rw [if_pos alone]
    rfl
  · rw [if_neg alone]
    change StateT.run (ite (0 < s.enclosingLiftedBodies ∧ _) _ _) s = _
    rw [if_neg alone]
    rfl

/-- A subquery is lifted where it stands alone and is correlated as much as it must be. -/
theorem analyseScalar_lifts {q : Query} {inner : Select} (body : q.body = .select inner)
    (correlated : 0 < s.enclosingLiftedBodies → subqueryPairs outerAliases inner ≠ [])
    (alone : standsAlone (correlatedInfo host none outerAliases q inner
      (cteName (s.cteCounter + 1))) = true) :
    (analyseScalar host outerAliases (.unnamedExpr (.subquery q))).run s =
      (some (correlatedInfo host none outerAliases q inner (cteName (s.cteCounter + 1))),
        { s with cteCounter := s.cteCounter + 1 }) := by
  rw [analyseScalar, analyseSubquery_run body, if_neg]
  · simp only [alone, if_true]
  · rintro ⟨enclosed, empty⟩
    exact correlated enclosed (List.isEmpty_iff.mp empty)

/-- Everything a lifted projection item is. -/
theorem analyseScalar_some {item : SelectItem}
    (lifted : (analyseScalar host outerAliases item).run s = (some info, t)) :
    ∃ q inner origAlias, itemExpr item = some (.subquery q) ∧ q.body = .select inner ∧
      info = correlatedInfo host origAlias outerAliases q inner (cteName (s.cteCounter + 1)) ∧
      t = { s with cteCounter := s.cteCounter + 1 } ∧
      (0 < s.enclosingLiftedBodies → info.onPairs ≠ []) ∧ standsAlone info = true := by
  have subquery : ∀ {origAlias : Option Ident} {q : Query},
      (analyseSubquery host origAlias outerAliases q).run s = (some info, t) →
      ∃ inner, q.body = .select inner ∧
        info = correlatedInfo host origAlias outerAliases q inner (cteName (s.cteCounter + 1)) ∧
        t = { s with cteCounter := s.cteCounter + 1 } ∧
        (0 < s.enclosingLiftedBodies → info.onPairs ≠ []) ∧ standsAlone info = true := by
    intro origAlias q lifted
    cases body : q.body with
    | select inner =>
      rw [analyseSubquery_run body] at lifted
      split at lifted
      · cases lifted
      · rename_i correlated
        dsimp only at lifted
        split at lifted
        · rename_i alone
          cases lifted
          refine ⟨inner, rfl, rfl, rfl, fun enclosed empty => correlated ⟨enclosed, ?_⟩, alone⟩
          exact List.isEmpty_iff.mpr empty
        · cases lifted
    | query _ | setOperation _ _ _ _ | values _ =>
      simp only [analyseSubquery, body] at lifted
      cases lifted
  rw [analyseScalar.eq_def] at lifted
  split at lifted
  · obtain ⟨inner, found⟩ := subquery lifted
    exact ⟨_, inner, _, rfl, found⟩
  · obtain ⟨inner, found⟩ := subquery lifted
    exact ⟨_, inner, _, rfl, found⟩
  · cases lifted

end

def addJoin (from_ : List TableWithJoins) (info : CorrelatedInfo) : List TableWithJoins :=
  match from_ with
  | [] => [⟨plainTable info.cteIdent, []⟩]
  | ⟨relation, joins⟩ :: rest =>
    ⟨relation, joins ++ [buildLeftJoin info.cteIdent info.onPairs info.outerOnlyPredicates]⟩ :: rest

def unwrapped : Expr → Expr
  | .nested inner => unwrapped inner
  | other => other

/-- Whether the scalar value is a bare `count`, the one aggregate whose value over an empty
set is not null. -/
def projectsACountingAggregate (info : CorrelatedInfo) : Bool :=
  match info.subquery.body with
  | .select sel =>
    match (sel.projection.head?.bind itemExpr).map unwrapped with
    | some (.function f) => (lastIdent f.name).any (·.value.toLower = "count")
    | _ => false
  | _ => false

def coalesceZero (column : Expr) : Expr :=
  .function ⟨[.identifier (.new "coalesce")],
    .list false [.unnamed (.expr column), .unnamed (.expr (.value (.number "0" false)))] [],
    none, none, []⟩

/-- What takes the subquery's place: `__cteN.col`. -/
def makeCteColumnRef (info : CorrelatedInfo) : Expr :=
  let column := .compoundIdentifier [info.cteIdent, .new "col"]
  if projectsACountingAggregate info then coalesceZero column else column

def makeCte (alias_ : Ident) (subquery : Query) : Cte := ⟨⟨alias_, []⟩, subquery⟩

/-- A WITH clause, empty where there was none, with one more CTE at its end. -/
def appendCte (with_ : Option With) (cte : Cte) : Option With :=
  match with_ with
  | none => some ⟨false, [cte]⟩
  | some ⟨recursive, ctes⟩ => some ⟨recursive, ctes ++ [cte]⟩

end ScalarToCte

end PgCatalog
