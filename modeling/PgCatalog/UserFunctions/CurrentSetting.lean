import PgCatalog.Server.ClientOpts
import PgCatalog.UserFunctions.SearchPathSchemas

/-! `current_setting(name[, missing_ok])`: the settings of the session, then a snapshot. -/
namespace PgCatalog.UserFunctions

open Server

/-- A setting the session keeps itself, by its lower-case name. -/
def liveSessionSetting (opts : ClientOpts) (lowercaseName : String) : Option String :=
  match lowercaseName with
  | "application_name" => some opts.applicationName
  | "datestyle" => some opts.datestyle
  | "search_path" => some opts.searchPath
  | "timezone" => some opts.timezone
  | "session_authorization" => some opts.sessionUser
  | _ => none

section
variable (live : Option ClientOpts) (snapshot : String → Option String)

/-- The answer for one row. -/
def settingOfRow (row : Option String × Option Bool) : DFResult (Option String) :=
  match row.1 with
  | none => .ok none
  | some name =>
    let lowercaseName := name.toLower
    match (live.bind (liveSessionSetting · lowercaseName)).or (snapshot lowercaseName) with
    | some value => .ok (some value)
    | none =>
      if row.2 = some true then .ok none
      else .error (.execution s!"unrecognized configuration parameter \"{name}\"")

/-- The rows are the names with `missing_ok` beside each, where it is given and not null. -/
def currentSetting (calledWithScalar : Bool) (rows : List (Option String × Option Bool)) :
    DFResult (ColumnarValue String) := do
  let resolved ← rows.mapM (settingOfRow live snapshot)
  return if calledWithScalar then .scalar resolved.head?.join else .array resolved

end

end PgCatalog.UserFunctions
