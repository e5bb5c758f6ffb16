import Mathlib.Data.List.Infix
import PgCatalog.Library.Run
import PgCatalog.Router.Detect
import PgCatalog.Server.SetAgreement
import PgCatalog.Session.IdentitySpellings
import PgCatalog.UserFunctions.CurrentSetting

/-! SET over the two protocols, and what SHOW answers. -/
namespace PgCatalog.Server

open Library Sql Router

/-! ## SHOW -/

def SERVER_VERSION : String := "17.4.0"

/-- The names of a result's columns, all of them text, and its rows. -/
structure TextRows where
  names : List String
  rows : List (List String)
  deriving DecidableEq, Repr

def showAllVariables (opts : ClientOpts) : TextRows :=
  ⟨["name", "setting", "description"],
    (opts.entries.map fun entry => [entry.1, entry.2, ""]) ++
      [["server_version", SERVER_VERSION, ""], ["transaction_isolation", "read committed", ""]]⟩

def shownValue (opts : ClientOpts) (name : String) : Option String :=
  match name with
  | "application_name" => some opts.applicationName
  | "datestyle" => some opts.datestyle
  | "search_path" => some opts.searchPath
  | "timezone" => some opts.timezone
  | "session_user" | "session_authorization" => some opts.sessionUser
  | "server_version" => some SERVER_VERSION
  | "transaction_isolation" => some "read committed"
  | _ => none

def showVariableResponse (opts : ClientOpts) (name : String) : Option TextRows :=
  if name = "all" then some (showAllVariables opts)
  else (shownValue opts name).map fun value => ⟨[name], [[value]]⟩

/-- `SHOW <name>`, in any letter case. -/
def showStatement (opts : ClientOpts) (name : String) : Option TextRows :=
  showVariableResponse opts name.toLower

/-! ## SET -/

/-- A text that reads as one SET. -/
structure SetCommand where
  text : String
  set : SetStatement

/-- The name a SET of one variable writes, with its dots. -/
def dottedName : SetStatement → Option String
  | .singleAssignment _ variable_ _ =>
    some (".".intercalate (variable_.filterMap fun part => part.asIdent.map (·.value)))
  | _ => none

/-- What runs a SET that the session does not answer itself. Of the settings kept here it
writes at most the one addressed as `pg_catalog.<key>`, the way the settings themselves do. -/
structure Planner where
  run : SetStatement → Option (List ScalarValue) → ClientOpts → DFResult QueryResult × ClientOpts
  kept : ∀ set scalars opts, (run set scalars opts).2 = opts ∨ ∃ key value,
    (dottedName set).map String.toLower = some ("pg_catalog." ++ key) ∧
      opts.set key value = .ok (run set scalars opts).2

/-- What the server is made of, but for the settings of its connection. -/
structure Backend where
  ctx : SessionContext
  display : Expr → String
  planner : Planner
  /-- The role the connection authenticated as. -/
  user : Option String

inductive Response where
  | execution (tag : String)
  | text (rows : TextRows)
  | query (result : QueryResult)
  | description (fields : List String)

/-- A SET as a simple query, or a step of it in the extended protocol, with the parameters
bound to it or the reason why they cannot be. -/
inductive Message where
  | query (command : SetCommand)
  | describeStatement (command : SetCommand)
  | describePortal (command : SetCommand) (boundScalars : DFResult (Option (List ScalarValue)))
  | execute (command : SetCommand) (boundScalars : DFResult (Option (List ScalarValue)))

def transactionIsolationResponse : TextRows := ⟨["transaction_isolation"], [["read committed"]]⟩

/-- The batch a query of `users` is answered with. -/
def usersBatch : RecordBatch where
  schema := [⟨"id", .int32⟩, ⟨"name", .utf8⟩]
  columns := [⟨.int32, [some 1, some 2]⟩, ⟨.utf8, [some "Alice", some "Bob"]⟩]
  numRows := 2
  typed := rfl
  sized := by
    intro array member
    simp only [List.mem_cons, List.not_mem_nil, or_false] at member
    obtain rfl | rfl := member <;> rfl

namespace Backend
variable (server : Backend)

def installAuthenticatedSessionUser (opts : ClientOpts) : ClientOpts :=
  match server.user with
  | some user => { opts with sessionUser := user }
  | none => opts

def executeSql (set : SetStatement) (boundScalars : DFResult (Option (List ScalarValue)))
    (opts : ClientOpts) : DFResult QueryResult × ClientOpts :=
  match boundScalars with
  | .error e => (.error e, opts)
  | .ok scalars =>
    match applySessionSetStatement server.display (some [.set set]) scalars (some opts) with
    | (.error e, session) => (.error e, session.getD opts)
    | (.ok (some result), session) => (.ok result, session.getD opts)
    | (.ok none, _) => server.planner.run set scalars opts

/-- The SET as the router sees it. -/
def routable (set : SetStatement) : SetStatement :=
  match Session.rewriteKeywordsToRegisteredCalls (.set set) with
  | .set routed => routed
  | _ => set

def isCatalogSet (set : SetStatement) : Bool :=
  isCatalogQuery server.ctx [.set (routable set)]

/-- A statement over `users`, by its text. -/
def readsUsers (text : String) : Bool :=
  text.toLower.toList.tails.any "from users".toList.isPrefixOf

def dispatchQuery (command : SetCommand) (boundScalars : DFResult (Option (List ScalarValue)))
    (opts : ClientOpts) : DFResult QueryResult × ClientOpts :=
  if server.isCatalogSet command.set then
    server.executeSql (routable command.set) boundScalars opts
  else if readsUsers command.text then (.ok ([usersBatch], usersBatch.schema), opts)
  else server.executeSql command.set boundScalars opts

def startsWith (text start : String) : Bool := start.toList.isPrefixOf text.toList

/-- The text as it is tested for the statements answered here. -/
def lowercase (text : String) : String := (trim text).toLower

def simpleQueryBuiltinResponse (text : String) : Option Response :=
  if startsWith (lowercase text) "begin" then some (.execution "BEGIN")
  else if startsWith (lowercase text) "commit" then some (.execution "COMMIT")
  else if startsWith (lowercase text) "rollback" then some (.execution "ROLLBACK")
  else if startsWith (lowercase text) "discard all" then some (.execution "DISCARD ALL")
  else if lowercase text = "show transaction isolation level" then
    some (.text transactionIsolationResponse)
  else if (lowercase text).isEmpty then some (.execution "")
  else none

def extendedQueryBuiltinResponse (text : String) : Option Response :=
  if (trim text).isEmpty then some (.execution "")
  else if startsWith (lowercase text) "discard all" then some (.execution "DISCARD ALL")
  else if lowercase text = "show transaction isolation level" then
    some (.text transactionIsolationResponse)
  else none

def builtinDescription (text : String) : Option Response :=
  if (trim text).isEmpty || startsWith (lowercase text) "discard all" then some (.description [])
  else if lowercase text = "show transaction isolation level" then
    some (.description ["transaction_isolation"])
  else if startsWith (lowercase text) "show " then some (.description ["name", "setting"])
  else none

/-- A SET is answered with its tag and not with the empty result it was planned as. -/
def simpleResponse (text : String) (result : QueryResult) : Response :=
  if startsWith (lowercase text) "set" then .execution "SET" else .query result

/-- The fields of a result's first batch, or of its schema. -/
def describedFields (result : QueryResult) (whenEmpty : List String) : List String :=
  match result.1 with
  | [] => whenEmpty
  | batch :: _ => batch.schema.map (·.name)

def simpleDoQuery (command : SetCommand) (opts : ClientOpts) :
    DFResult Response × ClientOpts :=
  let opts := server.installAuthenticatedSessionUser opts
  match simpleQueryBuiltinResponse command.text with
  | some response => (.ok response, opts)
  | none =>
    let outcome := server.dispatchQuery command (.ok none) opts
    (outcome.1.map (simpleResponse command.text), outcome.2)

def extendedDoQuery (command : SetCommand) (boundScalars : DFResult (Option (List ScalarValue)))
    (opts : ClientOpts) : DFResult Response × ClientOpts :=
  let opts := server.installAuthenticatedSessionUser opts
  match extendedQueryBuiltinResponse command.text with
  | some response => (.ok response, opts)
  | none =>
    let outcome := server.dispatchQuery command boundScalars opts
    (outcome.1.map .query, outcome.2)

def doDescribeStatement (command : SetCommand) (opts : ClientOpts) :
    DFResult Response × ClientOpts :=
  match builtinDescription command.text with
  | some response => (.ok response, opts)
  | none =>
    let outcome := server.executeSql command.set (.ok none) opts
    (outcome.1.map fun result => .description (describedFields result []), outcome.2)

def doDescribePortal (command : SetCommand) (boundScalars : DFResult (Option (List ScalarValue)))
    (opts : ClientOpts) : DFResult Response × ClientOpts :=
  match builtinDescription command.text with
  | some response => (.ok response, opts)
  | none =>
    let outcome := server.executeSql command.set boundScalars opts
    (outcome.1.map fun result =>
      .description (describedFields result (result.2.map (·.name))), outcome.2)

/-- The answer to one message, and the settings after it. -/
def respond (opts : ClientOpts) : Message → DFResult Response × ClientOpts
  | .query command => server.simpleDoQuery command opts
  | .describeStatement command => server.doDescribeStatement command opts
  | .describePortal command boundScalars => server.doDescribePortal command boundScalars opts
  | .execute command boundScalars => server.extendedDoQuery command boundScalars opts

end Backend

end PgCatalog.Server
