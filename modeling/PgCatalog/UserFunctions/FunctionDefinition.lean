import Mathlib

/-! `pg_get_functiondef`: the statement written for a row of `pg_proc`. -/
namespace PgCatalog.UserFunctions

/-! ## Floating-point numbers by their digits -/

def natValue (digits : List Char) : Nat := digits.foldl (fun n d => 10 * n + (d.toNat - 48)) 0

def fractionValue : List Char → Rat
  | [] => 0
  | d :: digits => ((d.toNat - 48 : Nat) + fractionValue digits) / 10

def decimalValue (whole fraction : List Char) : Rat := natValue whole + fractionValue fraction

/-- A finite `f64` as it is printed: a whole number with all its digits, another one with the fewest
that read back as it. -/
structure Decimal where
  negative : Bool
  whole : List Char
  fraction : List Char
  nonempty : whole ≠ []
  wholeDigits : whole.all Char.isDigit = true
  fractionDigits : fraction.all Char.isDigit = true

def Decimal.value (n : Decimal) : Rat :=
  if n.negative then -decimalValue n.whole n.fraction else decimalValue n.whole n.fraction

inductive Float64 where
  | finite (n : Decimal)
  | infinite (negative : Bool)
  | nan

def Float64.value? : Float64 → Option Rat
  | .finite n => some n.value
  | _ => none

/-- `f64::EPSILON`, which is two to the power of -52. -/
def EPSILON : Rat := 1 / 4503599627370496

/-- `(value - other).abs() > f64::EPSILON` -/
def Float64.apartFrom (value : Float64) (other : Rat) : Bool :=
  match value with
  | .finite n => EPSILON < n.value - other || EPSILON < other - n.value
  | .infinite _ => true
  | .nan => false

def trimmedNumber : Float64 → String
  | .finite n =>
    (if n.negative then "-" else "") ++ String.ofList n.whole ++
      if n.fraction = [] then "" else "." ++ String.ofList n.fraction
  | .infinite negative => if negative then "-inf" else "inf"
  | .nan => "NaN"

/-! ## The row and its statement -/

structure FunctionRow where
  name : String
  schema : String
  language : String
  kind : String
  volatility : String
  parallel : String
  isStrict : Bool
  isLeakproof : Bool
  securityDefiner : Bool
  returnsSet : Bool
  rettypeOid : Int
  argumentTypeOids : List Int
  allArgumentTypeOids : List Int
  argumentModes : List String
  argumentNames : List String
  cost : Float64
  resultRows : Float64
  support : String
  source : String

inductive DefinitionOutcome where
  | definition (statement : String)
  | aggregateRefusal (name : String)
  | bodyNotCaptured
  deriving DecidableEq

/-- The type names by OID. -/
abbrev TypeNamesByOid := Int → Option String

def typeName (typeNames : TypeNamesByOid) (oid : Int) : String :=
  (typeNames oid).getD (toString oid)

/-- What the lists hold for one argument. -/
structure Argument where
  mode : Option String
  name : Option String
  typeOid : Int

namespace FunctionRow

def arguments (row : FunctionRow) : List Argument :=
  (if row.allArgumentTypeOids = [] then row.argumentTypeOids else row.allArgumentTypeOids).mapIdx
    fun index typeOid => ⟨row.argumentModes[index]?, row.argumentNames[index]?, typeOid⟩

end FunctionRow

def modeWord : Option String → String
  | some "o" => "OUT "
  | some "b" => "INOUT "
  | some "v" => "VARIADIC "
  | _ => ""

def nameWord : Option String → String
  | some name => if name = "" then "" else name ++ " "
  | none => ""

def renderedArgument (typeNames : TypeNamesByOid) (argument : Argument) : String :=
  modeWord argument.mode ++ nameWord argument.name ++ typeName typeNames argument.typeOid

namespace FunctionRow

def renderedArgumentList (row : FunctionRow) (typeNames : TypeNamesByOid) : String :=
  ", ".intercalate (row.arguments.map (renderedArgument typeNames))

def defaultCost (row : FunctionRow) : Rat :=
  if row.language = "internal" || row.language = "c" then 1 else 100

def flagList (row : FunctionRow) : List String :=
  (if row.kind = "w" then ["WINDOW"] else []) ++
  (if row.volatility = "i" then ["IMMUTABLE"]
    else if row.volatility = "s" then ["STABLE"] else []) ++
  (if row.parallel = "s" then ["PARALLEL SAFE"]
    else if row.parallel = "r" then ["PARALLEL RESTRICTED"] else []) ++
  (if row.isStrict then ["STRICT"] else []) ++
  (if row.isLeakproof then ["LEAKPROOF"] else []) ++
  (if row.securityDefiner then ["SECURITY DEFINER"] else []) ++
  (if row.support ≠ "-" && row.support ≠ "" then ["SUPPORT " ++ row.support] else []) ++
  (if row.cost.apartFrom row.defaultCost then ["COST " ++ trimmedNumber row.cost] else []) ++
  (if row.returnsSet && row.resultRows.apartFrom 1000 then
    ["ROWS " ++ trimmedNumber row.resultRows] else [])

def renderedFlags (row : FunctionRow) : String := " ".intercalate row.flagList

def statement (row : FunctionRow) (typeNames : TypeNamesByOid) : String :=
  "CREATE OR REPLACE FUNCTION " ++ row.schema ++ "." ++ row.name ++ "(" ++
    row.renderedArgumentList typeNames ++ ")\n RETURNS " ++
    (if row.returnsSet then "SETOF " else "") ++ typeName typeNames row.rettypeOid ++
    "\n LANGUAGE " ++ row.language ++ "\n" ++
    (if row.renderedFlags = "" then "" else " " ++ row.renderedFlags ++ "\n") ++
    "AS $function$" ++ row.source ++ "$function$\n"

def render (row : FunctionRow) (typeNames : TypeNamesByOid) : DefinitionOutcome :=
  if row.kind = "a" then .aggregateRefusal row.name
  else if row.source = "" then .bodyNotCaptured
  else .definition (row.statement typeNames)

end FunctionRow
end PgCatalog.UserFunctions
