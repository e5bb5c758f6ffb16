import PgCatalog.Library.Text
import PgCatalog.Sql.Statement

/-! The spellings of a session's identity, each rewritten into the call it is answered by. -/
namespace PgCatalog.Session

open Library Sql

/-- A keyword, the function that answers it, and whether the call is written with parentheses. -/
structure IdentitySpelling where
  written : String
  resolved : String
  parenthesised : Bool
  deriving DecidableEq, Repr

def SPELLINGS : List IdentitySpelling :=
  [⟨"current_role", "current_role", true⟩, ⟨"current_schema", "current_schema", true⟩,
    ⟨"user", "current_user", false⟩, ⟨"current_catalog", "current_database", true⟩]

/-- The unquoted word an expression is, bare or read as a call without arguments. -/
def writtenWord : Expr → Option String
  | .identifier ⟨word, none⟩ => some word
  | .function ⟨[.identifier ⟨word, none⟩], .none, _, _, _⟩ => some word
  | _ => none

def spellingWrittenAs (e : Expr) : Option IdentitySpelling :=
  (writtenWord e).bind fun word =>
    SPELLINGS.find? fun spelling => eqIgnoreAsciiCase spelling.written word

def registeredCall (spelling : IdentitySpelling) : Expr :=
  .function ⟨[.identifier (.new spelling.resolved)],
    if spelling.parenthesised then .list false [] [] else .none, none, none, []⟩

/-- What becomes of one expression. -/
def registeredSpelling (e : Expr) : Expr :=
  match spellingWrittenAs e with
  | some spelling => registeredCall spelling
  | none => e

def rewriteKeywordsToRegisteredCalls : Statement → Statement
  | .query q => .query (q.replaced registeredSpelling)
  | .set (.singleAssignment scope variable_ values) =>
    .set (.singleAssignment scope variable_ (replacedList registeredSpelling values))
  | .set (.setTimeZone isLocal value) =>
    .set (.setTimeZone isLocal (value.replaced registeredSpelling))
  | .set (.other exprs) => .set (.other (replacedList registeredSpelling exprs))
  | .other relations queries exprs =>
    .other relations (queries.map (·.replaced registeredSpelling))
      (replacedList registeredSpelling exprs)

end PgCatalog.Session
