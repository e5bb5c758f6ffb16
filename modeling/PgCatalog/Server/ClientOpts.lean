import PgCatalog.Registry.Registry

/-! The settings of a connection that the server keeps itself. -/
namespace PgCatalog.Server

structure ClientOpts where
  applicationName : String
  datestyle : String
  searchPath : String
  timezone : String
  /-- The role the connection authenticated as. -/
  sessionUser : String
  deriving DecidableEq, Repr

def DEFAULT_SESSION_USER : String := "postgres"

def DEFAULT_TIMEZONE : String := "UTC"

namespace ClientOpts

/-- The settings a connection starts with. -/
def initial : ClientOpts :=
  ⟨"", "ISO, MDY", "\"$user\", public", DEFAULT_TIMEZONE, DEFAULT_SESSION_USER⟩

/-- `SET pg_catalog.<key> = <value>`. The role is not settable. -/
def set (opts : ClientOpts) (key value : String) : DFResult ClientOpts :=
  match key with
  | "application_name" => .ok { opts with applicationName := value }
  | "datestyle" => .ok { opts with datestyle := value }
  | "search_path" => .ok { opts with searchPath := value }
  | "timezone" => .ok { opts with timezone := value }
  | "extra_float_digits" => .ok opts
  | _ => .error (.configuration s!"unknown key {key}")

/-- Every setting with its value, under the key it is set by. -/
def entries (opts : ClientOpts) : List (String × String) :=
  [("application_name", opts.applicationName), ("datestyle", opts.datestyle),
    ("search_path", opts.searchPath), ("timezone", opts.timezone),
    ("session_user", opts.sessionUser)]

end ClientOpts

/-- What `SET <key> = DEFAULT` restores. -/
def sessionVariableDefaultValue (key : String) : Option String :=
  let defaults := ClientOpts.initial
  match key with
  | "application_name" => some defaults.applicationName
  | "datestyle" => some defaults.datestyle
  | "search_path" => some defaults.searchPath
  | "timezone" => some defaults.timezone
  | "extra_float_digits" => some ""
  | _ => none

/-- The settings after a variable is stored, in a session that has settings. -/
def storeSessionVariable (session : Option ClientOpts) (key value : String) :
    DFResult ClientOpts :=
  match session with
  | none => .error
      (.execution "this session has no ClientOpts, so a session variable cannot be stored")
  | some opts => opts.set key value

end PgCatalog.Server
