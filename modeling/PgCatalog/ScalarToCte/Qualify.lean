import PgCatalog.Sql.Visit
import PgCatalog.Sql.Walk
import PgCatalog.ScalarToCte.Correlation

/-! Writing the enclosing query's table name onto the columns a projection subquery
borrows from it without one. -/
namespace PgCatalog.ScalarToCte

open Sql

/-- What the rewriter uses of the code around it: the columns the embedded catalog
declares for a relation, in lower case, and how an expression is printed. -/
structure Host where
  columnsOfCatalogRelation : String → Option (List String)
  display : Expr → String

/-- A host that knows no relation and prints everything alike. -/
def blankHost : Host := ⟨fun _ => none, fun _ => ""⟩

/-- A relation a FROM clause binds, with every column it declares. -/
structure BoundRelation where
  binding : Ident
  columns : List String

def relationLookupKey (name : ObjectName) : Option String :=
  (name.mapM ObjectNamePart.asIdent).map fun parts => ".".intercalate (parts.map (·.value))

/-- The name columns are bound under: the alias, or the last part of the own name. -/
def bindingName (name : ObjectName) : Option TableAlias → Option Ident
  | some alias_ => some alias_.name
  | none => lastIdent name

/-- Each entry's own relation and the relation of each of its joins. -/
def tableFactors (from_ : List TableWithJoins) : List TableFactor :=
  from_.flatMap fun entry => entry.relation :: entry.joins.map (·.relation)

variable (host : Host)

def boundRelation : TableFactor → Option BoundRelation
  | .table name alias_ none => do
    let columns ← host.columnsOfCatalogRelation (← relationLookupKey name)
    return ⟨← bindingName name alias_, columns⟩
  | _ => none

/-- All the relations a FROM clause binds, or none if one of them cannot be looked up. -/
def resolvableRelations (from_ : List TableWithJoins) : Option (List BoundRelation) :=
  (tableFactors from_).mapM (boundRelation host)

def anyRelationDeclares (relations : List BoundRelation) (column : String) : Bool :=
  relations.any (column.toLower ∈ ·.columns)

def soleRelationDeclaring (relations : List BoundRelation) (column : String) : Option Ident :=
  match relations.filter (column.toLower ∈ ·.columns) with
  | [relation] => some relation.binding
  | _ => none

def containsSubquery (e : Expr) : Bool :=
  e.visited.any fun
    | .subquery _ | .exists _ _ | .inSubquery _ _ _ => true
    | _ => false

def qualifiedColumn (inner outer : List BoundRelation) : Expr → Expr
  | .identifier id =>
    if anyRelationDeclares inner id.value then .identifier id
    else
      match soleRelationDeclaring outer id.value with
      | some binding => .compoundIdentifier [binding, id]
      | none => .identifier id
  | e => e

def qualifyColumnsTheEnclosingQueryDeclares (whereClause : Expr) (inner outer : List BoundRelation) :
    Expr :=
  whereClause.replaced (qualifiedColumn inner outer)

def qualifyOuterColumnsInSubquery (outer : List BoundRelation) (q : Query) : Query :=
  match q.with_, q.body with
  | none, .select sel =>
    match resolvableRelations host sel.from_, sel.selection with
    | some inner, some whereClause =>
      if containsSubquery whereClause then q
      else
        let selection := qualifyColumnsTheEnclosingQueryDeclares whereClause inner outer
        { q with body := .select { sel with selection := some selection } }
    | _, _ => q
  | _, _ => q

def qualifyOuterColumnsInSubqueriesOf (outer : List BoundRelation) (e : Expr) : Expr :=
  e.walked (m := Id) fun
    | .subquery q => .subquery (qualifyOuterColumnsInSubquery host outer q)
    | leaf => leaf

/-- A projection item with its expression replaced. -/
def mapItem (f : Expr → Expr) : SelectItem → SelectItem
  | .unnamedExpr e => .unnamedExpr (f e)
  | .exprWithAlias e alias_ => .exprWithAlias (f e) alias_
  | item => item

def qualifyOuterColumnsInProjectionSubqueries (sel : Select) : Select :=
  match resolvableRelations host sel.from_ with
  | none | some [] => sel
  | some outer =>
    { sel with projection := sel.projection.map (mapItem (qualifyOuterColumnsInSubqueriesOf host outer)) }

end PgCatalog.ScalarToCte
