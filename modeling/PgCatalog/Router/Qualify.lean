import PgCatalog.Router.Resolve

/-! The two traversals of the router over the tables of a query's FROM clauses: the one
that looks for catalog tables and the one that writes their schema in front of them. -/
namespace PgCatalog.Router

open Library Sql

/-- Only a name of one part takes the schema. -/
def qualifyTableName (name : ObjectName) (schema : String) : ObjectName :=
  match name with
  | [ident] => [.identifier (.new schema), ident]
  | name => name

section
variable (ctx : SessionContext)

/-- What the traversal makes of one table name. -/
def qualifiedName (name : ObjectName) : ObjectName :=
  match ctx.resolveSchema name with
  | some schema => if schemaIsCatalog schema then qualifyTableName name schema else name
  | none => name

mutual

def qualifyFactor : TableFactor → TableFactor
  | .table name alias_ args => .table (qualifiedName ctx name) alias_ args
  | .derived lateral subquery alias_ => .derived lateral (qualifyQuery subquery) alias_
  | .nestedJoin entry alias_ => .nestedJoin (qualifyTableWithJoins entry) alias_
  | factor => factor

def qualifyTableWithJoins : TableWithJoins → TableWithJoins
  | ⟨relation, joins⟩ => ⟨qualifyFactor relation, qualifyJoins joins⟩

def qualifyJoins : List Join → List Join
  | [] => []
  | ⟨relation, kind, constraint⟩ :: rest =>
    ⟨qualifyFactor relation, kind, constraint⟩ :: qualifyJoins rest

def qualifyFrom : List TableWithJoins → List TableWithJoins
  | [] => []
  | entry :: rest => qualifyTableWithJoins entry :: qualifyFrom rest

def qualifySetexpr : SetExpr → SetExpr
  | .select ⟨distinct, projection, from_, selection, groupBy, having⟩ =>
    .select ⟨distinct, projection, qualifyFrom from_, selection, groupBy, having⟩
  | .query q => .query (qualifyQuery q)
  | .setOperation op quantifier left right =>
    .setOperation op quantifier (qualifySetexpr left) (qualifySetexpr right)
  | .values rows => .values rows

def qualifyQuery : Query → Query
  | ⟨with_, body, orderBy, limit, offset⟩ =>
    ⟨qualifyWith with_, qualifySetexpr body, orderBy, limit, offset⟩

def qualifyWith : Option With → Option With
  | none => none
  | some ⟨recursive, cteTables⟩ => some ⟨recursive, qualifyCtes cteTables⟩

def qualifyCtes : List Cte → List Cte
  | [] => []
  | ⟨alias_, query⟩ :: rest => ⟨alias_, qualifyQuery query⟩ :: qualifyCtes rest

end

mutual

def factorHasCatalog : TableFactor → Bool
  | .table name _ _ => ctx.objectIsCatalog name
  | .derived _ subquery _ => queryHasCatalog subquery
  | .nestedJoin entry _ => tableWithJoinsContainsCatalog entry
  | _ => false

def tableWithJoinsContainsCatalog : TableWithJoins → Bool
  | ⟨relation, joins⟩ => factorHasCatalog relation || joinsHaveCatalog joins

def joinsHaveCatalog : List Join → Bool
  | [] => false
  | ⟨relation, _, _⟩ :: rest => factorHasCatalog relation || joinsHaveCatalog rest

def fromHasCatalog : List TableWithJoins → Bool
  | [] => false
  | entry :: rest => tableWithJoinsContainsCatalog entry || fromHasCatalog rest

def setexprHasCatalog : SetExpr → Bool
  | .select ⟨_, _, from_, _, _, _⟩ => fromHasCatalog from_
  | .query q => queryHasCatalog q
  | .setOperation _ _ left right => setexprHasCatalog left || setexprHasCatalog right
  | .values _ => false

def queryHasCatalog : Query → Bool
  | ⟨with_, body, _, _, _⟩ => setexprHasCatalog body || withHasCatalog with_

def withHasCatalog : Option With → Bool
  | none => false
  | some ⟨_, cteTables⟩ => ctesHaveCatalog cteTables

def ctesHaveCatalog : List Cte → Bool
  | [] => false
  | ⟨_, query⟩ :: rest => queryHasCatalog query || ctesHaveCatalog rest

end

end

mutual

/-- The table names of a query that stand in FROM clauses, those of derived tables, nested
joins, set operation branches and CTE bodies among them, none inside an expression. -/
def factorTables : TableFactor → List ObjectName
  | .table name _ _ => [name]
  | .derived _ subquery _ => queryTables subquery
  | .nestedJoin entry _ => entryTables entry
  | _ => []

def entryTables : TableWithJoins → List ObjectName
  | ⟨relation, joins⟩ => factorTables relation ++ joinsTables joins

def joinsTables : List Join → List ObjectName
  | [] => []
  | ⟨relation, _, _⟩ :: rest => factorTables relation ++ joinsTables rest

def fromTables : List TableWithJoins → List ObjectName
  | [] => []
  | entry :: rest => entryTables entry ++ fromTables rest

def bodyTables : SetExpr → List ObjectName
  | .select ⟨_, _, from_, _, _, _⟩ => fromTables from_
  | .query q => queryTables q
  | .setOperation _ _ left right => bodyTables left ++ bodyTables right
  | .values _ => []

def queryTables : Query → List ObjectName
  | ⟨with_, body, _, _, _⟩ => bodyTables body ++ withTables with_

def withTables : Option With → List ObjectName
  | none => []
  | some ⟨_, cteTables⟩ => ctesTables cteTables

def ctesTables : List Cte → List ObjectName
  | [] => []
  | ⟨_, query⟩ :: rest => queryTables query ++ ctesTables rest

end

section
variable (f : ObjectName → ObjectName)

mutual

/-- The query with other table names in its FROM clauses and nothing else changed. -/
def renameFactor : TableFactor → TableFactor
  | .table name alias_ args => .table (f name) alias_ args
  | .derived lateral subquery alias_ => .derived lateral (renameQuery subquery) alias_
  | .nestedJoin entry alias_ => .nestedJoin (renameEntry entry) alias_
  | factor => factor

def renameEntry : TableWithJoins → TableWithJoins
  | ⟨relation, joins⟩ => ⟨renameFactor relation, renameJoins joins⟩

def renameJoins : List Join → List Join
  | [] => []
  | ⟨relation, kind, constraint⟩ :: rest =>
    ⟨renameFactor relation, kind, constraint⟩ :: renameJoins rest

def renameFrom : List TableWithJoins → List TableWithJoins
  | [] => []
  | entry :: rest => renameEntry entry :: renameFrom rest

def renameBody : SetExpr → SetExpr
  | .select ⟨distinct, projection, from_, selection, groupBy, having⟩ =>
    .select ⟨distinct, projection, renameFrom from_, selection, groupBy, having⟩
  | .query q => .query (renameQuery q)
  | .setOperation op quantifier left right =>
    .setOperation op quantifier (renameBody left) (renameBody right)
  | .values rows => .values rows

def renameQuery : Query → Query
  | ⟨with_, body, orderBy, limit, offset⟩ =>
    ⟨renameWith with_, renameBody body, orderBy, limit, offset⟩

def renameWith : Option With → Option With
  | none => none
  | some ⟨recursive, cteTables⟩ => some ⟨recursive, renameCtes cteTables⟩

def renameCtes : List Cte → List Cte
  | [] => []
  | ⟨alias_, query⟩ :: rest => ⟨alias_, renameQuery query⟩ :: renameCtes rest

end

end

end PgCatalog.Router
