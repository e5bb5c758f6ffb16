import PgCatalog.Sql.Visit

/-! Statements: queries, the forms of SET, and of every other kind what it holds. -/
namespace PgCatalog.Sql

inductive ContextModifier where
  | local | session | global
  deriving DecidableEq, Repr

inductive SetStatement where
  | singleAssignment (scope : Option ContextModifier) (variable_ : ObjectName)
    (values : List Expr)
  | setTimeZone (isLocal : Bool) (value : Expr)
  /-- The forms that set no variable of the session's, `SET ROLE` and the like. -/
  | other (exprs : List Expr)

inductive Statement where
  | query (q : Query)
  | set (s : SetStatement)
  /-- The relations a statement names itself, and the queries and expressions in it. -/
  | other (relations : List ObjectName) (queries : List Query) (exprs : List Expr)

def SetStatement.exprs : SetStatement → List Expr
  | .singleAssignment _ _ values => values
  | .setTimeZone _ value => [value]
  | .other exprs => exprs

def Statement.visited : Statement → List Expr
  | .query q => q.visited
  | .set s => visitedList s.exprs
  | .other _ queries exprs => queries.flatMap (·.visited) ++ visitedList exprs

/-- The queries an expression holds itself. -/
def Expr.subqueries : Expr → List Query
  | .subquery q => [q]
  | .exists q _ => [q]
  | .inSubquery _ q _ => [q]
  | .function ⟨_, .subquery q, _, _, _⟩ => [q]
  | _ => []

end PgCatalog.Sql
