import Mathlib.Algebra.Group.Nat.Defs
import PgCatalog.Server.Columns
import PgCatalog.Server.ClientOpts
import PgCatalog.Library.Text
import PgCatalog.Sql.Statement

/-! SET: which statements the server answers itself, and what it stores for them. -/
namespace PgCatalog.Server

open Library Sql

inductive SetStatementDisposition where
  | applyToSession
  /-- `SET LOCAL` outside a transaction: answered, without effect. -/
  | acknowledgeWithoutApplying
  | notASessionSet
  deriving DecidableEq, Repr

def WIRE_SETTABLE_SESSION_VARIABLES : List String :=
  ["application_name", "datestyle", "search_path", "timezone", "extra_float_digits"]

/-- The last part of a name that is bare or qualified with `pg_catalog`. -/
def bareName : ObjectName → Option Ident
  | [.identifier name] => some name
  | [.identifier schema, .identifier name] =>
    if eqIgnoreAsciiCase schema.value "pg_catalog" then some name else none
  | _ => none

def setVariableIsWireSettable (variable_ : ObjectName) : Bool :=
  (bareName variable_).any fun name =>
    WIRE_SETTABLE_SESSION_VARIABLES.any (eqIgnoreAsciiCase name.value)

/-- Of a text that does not parse nothing is classified. -/
def classifySetStatement (parsed : Option (List Statement)) : SetStatementDisposition :=
  match parsed with
  | some [.set (.setTimeZone isLocal _)] =>
    if isLocal then .acknowledgeWithoutApplying else .applyToSession
  | some [.set (.singleAssignment scope variable_ _)] =>
    if !setVariableIsWireSettable variable_ then .notASessionSet
    else if scope = some .local then .acknowledgeWithoutApplying
    else .applyToSession
  | _ => .notASessionSet

/-- The key a variable is stored under: without quotes its case does not count. -/
def bareSessionVariableName (variable_ : ObjectName) : Option String :=
  (bareName variable_).map (·.folded)

/-- A bound parameter, null where it has no value; of a float how it prints. -/
inductive ScalarValue where
  | utf8 (text : Option String)
  | largeUtf8 (text : Option String)
  | utf8View (text : Option String)
  | boolean (flag : Option Bool)
  | int8 (number : Option Int8)
  | int16 (number : Option Int16)
  | int32 (number : Option Int32)
  | int64 (number : Option Int64)
  | uint8 (number : Option UInt8)
  | uint16 (number : Option UInt16)
  | uint32 (number : Option UInt32)
  | uint64 (number : Option UInt64)
  | float32 (printed : Option String)
  | float64 (printed : Option String)
  | null
  | other (dataType : String) (isNull : Bool)
  deriving DecidableEq, Repr

/-- The text of a parameter a SET value can be written from, and whether it is null. -/
def ScalarValue.read : ScalarValue → Option String × Bool × String
  | .utf8 text => (text, text.isNone, "Utf8")
  | .largeUtf8 text => (text, text.isNone, "LargeUtf8")
  | .utf8View text => (text, text.isNone, "Utf8View")
  | .boolean flag => (flag.map toString, flag.isNone, "Boolean")
  | .int8 number => (number.map toString, number.isNone, "Int8")
  | .int16 number => (number.map toString, number.isNone, "Int16")
  | .int32 number => (number.map toString, number.isNone, "Int32")
  | .int64 number => (number.map toString, number.isNone, "Int64")
  | .uint8 number => (number.map toString, number.isNone, "UInt8")
  | .uint16 number => (number.map toString, number.isNone, "UInt16")
  | .uint32 number => (number.map toString, number.isNone, "UInt32")
  | .uint64 number => (number.map toString, number.isNone, "UInt64")
  | .float32 printed => (printed, printed.isNone, "Float32")
  | .float64 printed => (printed, printed.isNone, "Float64")
  | .null => (none, true, "Null")
  | .other dataType isNull => (none, isNull, dataType)

def boundParameterAsSetValue (scalar : ScalarValue) (position : Nat) : DFResult String :=
  match scalar.read with
  | (some text, _, _) => .ok text
  | (none, true, _) =>
    .error (.plan s!"parameter ${position} is NULL, and a SET value cannot be NULL")
  | (none, false, dataType) => .error (.plan
      s!"parameter ${position} has type {dataType}, which a SET value cannot be written from")

/-- `str::parse` of a position: one plus sign at most, then decimal digits of a machine word. -/
def parsePosition (text : String) : Option Nat :=
  let digits : List Char := match text.toList with
    | '+' :: rest => rest
    | chars => chars
  let value := digits.foldl (fun n c => 10 * n + (c.toNat - 48)) 0
  if digits ≠ [] ∧ digits.all (·.isDigit) ∧ value < 2 ^ 64 then some value else none

def placeholderAsText (placeholder : String) (boundScalars : Option (List ScalarValue)) :
    DFResult String :=
  let shown := String.ofList (placeholder.toList.dropWhile (· = '$'))
  match parsePosition shown with
  | none => .error (.plan s!"placeholder {placeholder} does not name a parameter position")
  | some position =>
    match boundScalars with
    | none => .error (.plan s!"SET uses parameter ${position} but no parameters were bound")
    | some scalars =>
      -- Position 0 wraps round to one past every list.
      match if position = 0 then none else scalars[position - 1]? with
      | none => .error (.plan
          s!"SET uses parameter ${position} but only {scalars.length} parameters were bound")
      | some scalar => boundParameterAsSetValue scalar position

section
variable (display : Expr → String)

/-- What one value of a SET contributes: a literal itself, a word its spelling, a
placeholder the parameter bound there. -/
def setValueExpressionAsText (boundScalars : Option (List ScalarValue)) : Expr → DFResult String
  | .value (.singleQuotedString text) => .ok text
  | .value (.doubleQuotedString text) => .ok text
  | .value (.number text _) => .ok text
  | .value (.boolean flag) => .ok (toString flag)
  | .value (.placeholder placeholder) => placeholderAsText placeholder boundScalars
  | .value unsupported => .error (.plan s!"unsupported SET value: {display (.value unsupported)}")
  | .identifier ident => .ok ident.value
  | .unaryOp .minus operand => do
    let text ← setValueExpressionAsText boundScalars operand
    return s!"-{text}"
  | .unaryOp .plus operand => setValueExpressionAsText boundScalars operand
  | unsupported => .error (.plan s!"unsupported SET value expression: {display unsupported}")

/-- The bare, unquoted word. -/
def setValueExpressionIsDefault : Expr → Bool
  | .identifier ident => ident.quoteStyle.isNone && eqIgnoreAsciiCase ident.value "default"
  | _ => false

/-- The value a list of SET values stores. -/
def storedValue (key : String) (values : List Expr) (boundScalars : Option (List ScalarValue)) :
    DFResult String :=
  match values with
  | [] => .error (.plan "SET with no value is not supported")
  | first :: rest =>
    if rest.isEmpty && setValueExpressionIsDefault first then
      match sessionVariableDefaultValue key with
      | some value => .ok value
      | none => .error (.plan s!"session variable {key} has no default to reset to")
    else do
      let texts ← (first :: rest).mapM (setValueExpressionAsText display boundScalars)
      return ", ".intercalate texts

/-- The variable a SET stores and its value. -/
def setAssignment (set : SetStatement) (boundScalars : Option (List ScalarValue)) :
    DFResult (Option (String × String)) :=
  match set with
  | .setTimeZone _ value =>
    if setValueExpressionIsDefault value then .ok (some ("timezone", DEFAULT_TIMEZONE))
    else do
      let text ← setValueExpressionAsText display boundScalars value
      return some ("timezone", text)
  | .singleAssignment _ variable_ values =>
    match bareSessionVariableName variable_ with
    | none => .ok none
    | some key => do
      let value ← storedValue display key values boundScalars
      return some (key, value)
  | .other _ => .ok none

/-- The empty result a planned SET produces. -/
def handled : QueryResult := ([], [])

/-- The answer, if the statement is one to answer here, and the settings after it. -/
def applySessionSetStatement (parsed : Option (List Statement))
    (boundScalars : Option (List ScalarValue)) (session : Option ClientOpts) :
    DFResult (Option QueryResult) × Option ClientOpts :=
  match classifySetStatement parsed with
  | .notASessionSet => (.ok none, session)
  | .acknowledgeWithoutApplying => (.ok (some handled), session)
  | .applyToSession =>
    match parsed with
    | some [.set set] =>
      match setAssignment display set boundScalars with
      | .error e => (.error e, session)
      | .ok none => (.ok none, session)
      | .ok (some (key, value)) =>
        match storeSessionVariable session key value with
        | .error e => (.error e, session)
        | .ok opts => (.ok (some handled), some opts)
    | _ => (.ok none, session)

end

end PgCatalog.Server
