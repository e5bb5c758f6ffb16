import PgCatalog.Router.Scoping
import PgCatalog.Sql.Statement

/-! Which statements go to the catalog, and what of a statement that decision sees: the
names in FROM clauses, casts to types the parser has no keyword for, and function calls. -/
namespace PgCatalog.Router

open Library Sql ScalarToCte

/-- The types whose casts only the catalog can resolve. -/
def objectIdentifierTypeNames : List String :=
  ["regproc", "regprocedure", "regclass", "regtype", "regoper", "regoperator", "regnamespace",
    "regrole", "regcollation", "regconfig", "regdictionary"]

/-- The name of a type the parser does not know. Of the object-identifier types it knows
`regclass`, which it has a keyword for. -/
def customName : Sql.DataType → Option ObjectName
  | .named [.identifier ⟨value, none⟩] _ =>
    if eqIgnoreAsciiCase value "regclass" then none else some [.identifier (.new value)]
  | .named name _ => some name
  | .array _ => none

def castsToCustomObjectIdentifier : Expr → Bool
  | .cast _ _ dataType => ((customName dataType).bind lastIdent).any fun ident =>
      objectIdentifierTypeNames.any (eqIgnoreAsciiCase ident.value)
  | _ => false

def statementCastsToAnObjectIdentifierType (stmt : Statement) : Bool :=
  stmt.visited.any castsToCustomObjectIdentifier

def callsCatalogFunction (ctx : SessionContext) : Expr → Bool
  | .function ⟨name, _, _, _, _⟩ => ctx.functionIsCatalog name
  | _ => false

def statementHasCatalog (ctx : SessionContext) (stmt : Statement) : Bool :=
  (match stmt with
    | .query q => queryHasCatalog ctx q
    | _ => false) ||
  statementCastsToAnObjectIdentifierType stmt ||
  stmt.visited.any (callsCatalogFunction ctx)

def isCatalogQuery (ctx : SessionContext) (statements : List Statement) : Bool :=
  statements.any (statementHasCatalog ctx)

end PgCatalog.Router
