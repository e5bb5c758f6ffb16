import PgCatalog.Library.Text
import PgCatalog.Sql.Ast

/-! Which schema a name resolves to under a session's search path, and which schemas and
functions are the catalog's. -/
namespace PgCatalog.Router

open Library Sql

/-- What the router asks of a session. -/
structure SessionContext where
  tableExists : String → String → String → Bool
  functionRegistered : String → Bool
  defaultCatalog : String
  defaultSchema : String
  /-- The stored `search_path`, in a session that stores one. -/
  searchPath : Option String

/-- Always with `pg_catalog`, first where it is not listed. -/
def parseSearchPath (path : String) : List String :=
  let parts := (((split ',' path).map trim).filter (· ≠ "")).map (trimMatches '"')
  if parts.any (eqIgnoreAsciiCase · "pg_catalog") then parts else "pg_catalog" :: parts

/-- Without quotes a name is folded to lower case. -/
def resolvedIdentifier (ident : Ident) : String :=
  match ident.quoteStyle with
  | some _ => ident.value
  | none => ident.value.toLower

def resolvedNameParts (name : ObjectName) : List String :=
  name.filterMap fun part => part.asIdent.map resolvedIdentifier

def schemaIsCatalog (schema : String) : Bool :=
  eqIgnoreAsciiCase schema "pg_catalog" || eqIgnoreAsciiCase schema "information_schema"

namespace SessionContext
variable (ctx : SessionContext)

/-- The schemas a bare name is looked up in, in order. -/
def searched : List String :=
  match ctx.searchPath with
  | none => ["pg_catalog", ctx.defaultSchema]
  | some path => parseSearchPath path

/-- The first searched schema that has the table. -/
def searchSchemas (table : String) : List String → Option String
  | [] => none
  | sp :: rest =>
    let schemaName := if sp = "$user" then ctx.defaultSchema else sp
    if ctx.tableExists ctx.defaultCatalog schemaName table then some schemaName
    else searchSchemas table rest

def resolveSchema (name : ObjectName) : Option String :=
  match resolvedNameParts name with
  | catalog :: schema :: table :: _ =>
    if ctx.tableExists catalog schema table then some schema else none
  | [schema, table] =>
    if ctx.tableExists ctx.defaultCatalog schema table then some schema else none
  | [table] => ctx.searchSchemas table ctx.searched
  | [] => none

def objectIsCatalog (name : ObjectName) : Bool := (ctx.resolveSchema name).any schemaIsCatalog

def functionIsCatalog (name : ObjectName) : Bool :=
  match resolvedNameParts name with
  | [schema, func] | [_, schema, func] =>
    schemaIsCatalog schema && ctx.functionRegistered s!"{schema}.{func}"
  | [func] =>
    ["pg_catalog", "information_schema"].any fun schema =>
      ctx.functionRegistered s!"{schema}.{func}"
  | _ => false

end SessionContext

end PgCatalog.Router
