import PgCatalog.Library.Text
import PgCatalog.Sql.Rewriting

/-! The passes that rewrite casts, each by what it makes of one expression. -/
namespace PgCatalog.Replace

open Library Sql

/-! Types by name. -/

/-- The types the passes write or ask for that the parser has a keyword for. -/
def keywordTypes : List String :=
  ["regclass", "char", "text", "varchar", "character varying", "smallint", "int", "integer",
    "bigint", "real", "double precision", "boolean", "timestamp"]

def isKeywordType (value : String) : Bool := keywordTypes.any (eqIgnoreAsciiCase · value)

/-- The name of a type the parser has no keyword for. -/
def customType : Sql.DataType → Option ObjectName
  | .named [.identifier ⟨value, none⟩] _ =>
    if isKeywordType value then none else some [.identifier (.new value)]
  | .named name _ => some name
  | .array _ => none

/-- A type written with a keyword. -/
def keywordType (keyword : String) : Sql.DataType := .named [.identifier (.new keyword)] []

def isKeyword (keyword : String) : Sql.DataType → Bool
  | .named [.identifier ⟨value, none⟩] _ => eqIgnoreAsciiCase value keyword
  | _ => false

/-- The keyword without a length behind it. -/
def isBareKeyword (keyword : String) : Sql.DataType → Bool
  | .named [.identifier ⟨value, none⟩] [] => eqIgnoreAsciiCase value keyword
  | _ => false

def objectNameMatches (obj : ObjectName) (typeName : String) : Bool :=
  match obj with
  | [.identifier id] => eqIgnoreAsciiCase id.value typeName
  | [.identifier schema, .identifier id] =>
    eqIgnoreAsciiCase schema.value "pg_catalog" && eqIgnoreAsciiCase id.value typeName
  | _ => false

def namesCustomType (typeName : String) (dataType : Sql.DataType) : Bool :=
  (customType dataType).any (objectNameMatches · typeName)

/-- The custom type of this name without a schema. -/
def isUnqualifiedType (typeName : String) (dataType : Sql.DataType) : Bool :=
  match customType dataType with
  | some [.identifier id] => eqIgnoreAsciiCase id.value typeName
  | _ => false

def isStringLiteral : Expr → Bool
  | .value (.singleQuotedString _) => true
  | _ => false

def isStringLiteralOperand : Expr → Bool
  | .nested inner => isStringLiteralOperand inner
  | e => isStringLiteral e

def functionCall (name : String) (argument : Expr) : Expr :=
  .function ⟨[.identifier (.new name)], .list false [.unnamed (.expr argument)] [], none, none, []⟩

/-! Casts to another type. -/

/-- The cast with another target, given what is cast. -/
def retargeted (target : Expr → Sql.DataType → Sql.DataType) : Expr → Expr
  | .cast kind inner dataType => .cast kind inner (target inner dataType)
  | e => e

def rewriteCustomTypeCastTarget (typeName : String) (target : Sql.DataType) : Expr → Expr :=
  retargeted fun _ dataType => if namesCustomType typeName dataType then target else dataType

def rewriteRegoperatorCast : Expr → Expr :=
  rewriteCustomTypeCastTarget "regoperator" (keywordType "TEXT")

def rewriteRegprocedureCast : Expr → Expr :=
  rewriteCustomTypeCastTarget "regprocedure" (keywordType "TEXT")

def rewriteRegprocCast : Expr → Expr := rewriteCustomTypeCastTarget "regproc" (keywordType "TEXT")

def rewriteCharCast : Expr → Expr := rewriteCustomTypeCastTarget "char" (keywordType "CHAR")

def rewriteRegtypeCast : Expr → Expr := rewriteCustomTypeCastTarget "regtype" (keywordType "TEXT")

def rewriteXidCast : Expr → Expr := rewriteCustomTypeCastTarget "xid" (keywordType "BIGINT")

def rewriteNameCast : Expr → Expr := rewriteCustomTypeCastTarget "name" (keywordType "TEXT")

def isPgText : ObjectName → Bool
  | [.identifier a, .identifier b] =>
    eqIgnoreAsciiCase a.value "pg_catalog" && eqIgnoreAsciiCase b.value "text"
  | _ => false

def rewriteSchemaQualifiedText : Expr → Expr :=
  retargeted fun _ dataType =>
    if (customType dataType).any isPgText then keywordType "TEXT" else dataType

def datafusionTypeFor (bareName : String) : Option Sql.DataType :=
  if ["text", "regnamespace", "regtype", "regclass", "regproc", "regoper"].contains
      bareName.toLower then some (keywordType "TEXT")
  else if bareName.toLower = "int2" then some (keywordType "SMALLINT")
  else if bareName.toLower = "int4" then some (keywordType "INT")
  else if bareName.toLower = "int8" then some (keywordType "BIGINT")
  else if bareName.toLower = "float4" then some (keywordType "REAL")
  else if bareName.toLower = "float8" then some (keywordType "DOUBLE PRECISION")
  else if bareName.toLower = "bool" then some (keywordType "BOOLEAN")
  else none

def pgCatalogTypeName : ObjectName → Option String
  | [.identifier schema, .identifier bare] =>
    if eqIgnoreAsciiCase schema.value "pg_catalog" then some bare.value else none
  | _ => none

/-- The type that stands for a custom one. -/
def resolvedType (name : ObjectName) : Option Sql.DataType :=
  (pgCatalogTypeName name).bind datafusionTypeFor

def resolveType : Sql.DataType → Sql.DataType
  | .array element => .array (resolveType element)
  | .named name modifiers =>
    ((customType (.named name modifiers)).bind resolvedType).getD (.named name modifiers)

def namesAResolvableIdentifier (dataType : Sql.DataType) : Bool :=
  isKeyword "regclass" dataType || namesCustomType "regclass" dataType ||
    namesCustomType "regtype" dataType

/-- A string literal names what a later pass looks up. -/
def rewriteSchemaQualifiedCustomTypes : Expr → Expr :=
  retargeted fun operand dataType =>
    if isStringLiteralOperand operand && namesAResolvableIdentifier dataType then dataType
    else resolveType dataType

def baseType : ObjectName → Option Sql.DataType
  | [.identifier schema, .identifier ty] =>
    if !eqIgnoreAsciiCase schema.value "information_schema" then none
    else if ["sql_identifier", "character_data", "yes_or_no"].contains ty.value.toLower then
      some (keywordType "TEXT")
    else if ty.value.toLower = "cardinal_number" then some (keywordType "INTEGER")
    else if ty.value.toLower = "time_stamp" then some (keywordType "TIMESTAMP")
    else none
  | _ => none

def isUnboundedVarchar (dataType : Sql.DataType) : Bool :=
  isBareKeyword "character varying" dataType || isBareKeyword "varchar" dataType

def rewriteInformationSchemaCasts : Expr → Expr :=
  retargeted fun _ dataType =>
    match (customType dataType).bind baseType with
    | some base => base
    | none => if isUnboundedVarchar dataType then keywordType "TEXT" else dataType

def isNameArray : Sql.DataType → Bool
  | .array element => namesCustomType "name" element
  | _ => false

def rewriteTextBackedTypeCasts : Expr → Expr :=
  retargeted fun _ dataType =>
    if namesCustomType "anyarray" dataType then keywordType "TEXT"
    else if isNameArray dataType then .array (keywordType "TEXT")
    else dataType

/-! Casts to something else. -/

def rewriteRegoperCast : Expr → Expr
  | .cast kind inner dataType =>
    if namesCustomType "regoper" dataType then .value .null else .cast kind inner dataType
  | e => e

def PG_PROC_OID_FUNCTION : String := "pg_proc_oid"

def resolveRegprocLiteralsToFunctionOids : Expr → Expr
  | .cast kind (.cast innerKind functionName innerType) outerType =>
    if namesCustomType "oid" outerType && namesCustomType "regproc" innerType &&
        isStringLiteralOperand functionName then
      functionCall PG_PROC_OID_FUNCTION functionName
    else .cast kind (.cast innerKind functionName innerType) outerType
  | e => e

def isRegclassType (dataType : Sql.DataType) : Bool :=
  isKeyword "regclass" dataType || namesCustomType "regclass" dataType

/-- The literal of a name that is cast to `oid`: cast to `regclass` before, or the argument of a
call this pass made of such a cast. -/
def regclassLiteral : Expr → Option String
  | .cast _ (.value (.singleQuotedString s)) dataType =>
    if isKeyword "regclass" dataType then some s else none
  | .function ⟨[.identifier ⟨name, none⟩],
      .list _ (.unnamed (.expr (.value (.singleQuotedString s))) :: _) _, _, _, _⟩ =>
    if eqIgnoreAsciiCase name "regclass" || eqIgnoreAsciiCase name "oid" then some s else none
  | _ => none

def stringLiteral : Expr → Option String
  | .value (.singleQuotedString s) => some s
  | _ => none

def replaceRegclass : Expr → Expr
  | .cast kind inner dataType =>
    let resolved := if isUnqualifiedType "oid" dataType then regclassLiteral inner
      else if isRegclassType dataType then stringLiteral inner else none
    match resolved with
    | some s => functionCall "oid" (.value (.singleQuotedString s))
    | none => .cast kind inner dataType
  | e => e

def resolveRegtypeLiteralsToTypeOids : Expr → Expr
  | .cast kind (.value (.singleQuotedString name)) dataType =>
    if namesCustomType "regtype" dataType then
      functionCall "pg_type_oid" (.value (.singleQuotedString name))
    else .cast kind (.value (.singleQuotedString name)) dataType
  | e => e

def REGPROC_COLUMN_NAMES : List String :=
  ["aggcombinefn", "aggdeserialfn", "aggfinalfn", "aggfnoid", "aggmfinalfn", "aggminvtransfn",
    "aggmtransfn", "aggserialfn", "aggtransfn", "amhandler", "amproc", "conproc", "oprcode",
    "oprjoin", "oprrest", "prosupport", "prsend", "prsheadline", "prslextype", "prsstart",
    "prstoken", "rngcanonical", "rngsubdiff", "tmplinit", "tmpllexize", "trffromsql", "trftosql",
    "typanalyze", "typinput", "typmodin", "typmodout", "typoutput", "typreceive", "typsend",
    "typsubscript"]

/-- The column an expression reads. -/
def columnRead : Expr → Option Ident
  | .identifier ident => some ident
  | .compoundIdentifier parts => parts.getLast?
  | _ => none

def isRegprocColumn (e : Expr) : Bool :=
  (columnRead e).any fun column => REGPROC_COLUMN_NAMES.any (eqIgnoreAsciiCase · column.value)

def isNumber : Expr → Bool
  | .value (.number ..) => true
  | _ => false

def isPlaceholder : Expr → Bool
  | .value (.placeholder _) => true
  | _ => false

def rewriteOidCast : Expr → Expr
  | .cast kind inner dataType =>
    if !namesCustomType "oid" dataType then .cast kind inner dataType
    else if isNumber inner || isPlaceholder inner then
      .cast .doubleColon inner (keywordType "BIGINT")
    else if isRegprocColumn inner then functionCall PG_PROC_OID_FUNCTION inner
    else functionCall "oid" inner
  | e => e

def dropRedundantOidAndRegclassCasts : Expr → Expr
  | .cast kind inner dataType =>
    if isKeyword "regclass" dataType && !isStringLiteral inner ||
        isUnqualifiedType "oid" dataType && !isStringLiteral inner && !isNumber inner then inner
    else .cast kind inner dataType
  | e => e

def isOidArray : Sql.DataType → Bool
  | .array element => isUnqualifiedType "oid" element
  | _ => false

def dropOidArrayCast : Expr → Expr
  | .cast kind inner dataType => if isOidArray dataType then inner else .cast kind inner dataType
  | e => e

/-- The call's last name, where it is a plain one. -/
def isArrayAggCall : Expr → Bool
  | .function call => (lastIdent call.name).any (eqIgnoreAsciiCase ·.value "array_agg")
  | _ => false

def rewriteArrayAggVarcharCast : Expr → Expr
  | .cast kind inner dataType =>
    if isKeyword "varchar" dataType && isArrayAggCall inner then
      .function ⟨[.identifier (.new "pg_catalog"), .identifier (.new "array_to_string")],
        .list false [.unnamed (.expr inner), .unnamed (.expr (.value (.singleQuotedString ",")))]
          [], none, none, []⟩
    else .cast kind inner dataType
  | e => e

end PgCatalog.Replace
