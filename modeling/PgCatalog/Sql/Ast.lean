import Mathlib.Data.List.Basic

/-! The syntax trees the rewriters work on: the parser's own node kinds for every shape a
rewriter looks at, and one `node` for the operator forms that none of them tells apart. -/
namespace PgCatalog.Sql

structure Ident where
  value : String
  quoteStyle : Option Char := none
  deriving DecidableEq, Repr

/-- An identifier written without quotes. -/
def Ident.new (value : String) : Ident := ⟨value, none⟩

/-- The name an identifier stands for: without quotes its case does not count. -/
def Ident.folded (id : Ident) : String :=
  if id.quoteStyle.isSome then id.value else id.value.toLower

inductive ObjectNamePart where
  | identifier (id : Ident)
  | function (text : String)
  deriving DecidableEq, Repr

def ObjectNamePart.asIdent : ObjectNamePart → Option Ident
  | .identifier id => some id
  | .function _ => none

abbrev ObjectName := List ObjectNamePart

/-- A name's last part, where that is a plain identifier. -/
def lastIdent (name : ObjectName) : Option Ident := name.getLast?.bind (·.asIdent)

/-- A literal. -/
inductive Value where
  | number (text : String) (long : Bool)
  | singleQuotedString (s : String)
  | escapedStringLiteral (s : String)
  | dollarQuotedString (s : String) (tag : Option String)
  | nationalStringLiteral (s : String)
  | hexStringLiteral (s : String)
  | doubleQuotedString (s : String)
  | boolean (b : Bool)
  | null
  | placeholder (s : String)
  deriving DecidableEq, Repr

inductive BinaryOperator where
  | plus | minus | multiply | divide | modulo | stringConcat
  | eq | notEq | lt | ltEq | gt | gtEq | spaceship
  | and | or | xor
  | bitwiseOr | bitwiseAnd | bitwiseXor | shiftLeft | shiftRight | exponent
  | regexMatch | regexIMatch | regexNotMatch | regexNotIMatch
  | likeMatch | iLikeMatch | notLikeMatch | notILikeMatch | startsWith
  | arrow | longArrow | hashArrow | hashLongArrow | atAt | atArrow | arrowAt | hashMinus
  | atQuestion | question | questionAnd | questionPipe | overlap
  | custom (name : List String)
  deriving DecidableEq, Repr

inductive UnaryOperator where
  | plus | minus | not | bitwiseNot | squareRoot | cubeRoot | postfixFactorial
  | prefixFactorial | abs
  deriving DecidableEq, Repr

inductive CastKind where
  | cast | tryCast | safeCast | doubleColon
  deriving DecidableEq, Repr

inductive DataType where
  | named (name : ObjectName) (modifiers : List String)
  | array (element : DataType)
  deriving Repr

/-- The null and truth tests, each of one expression. -/
inductive IsTest where
  | isNull | isNotNull | isTrue | isNotTrue | isFalse | isNotFalse | isUnknown | isNotUnknown
  deriving DecidableEq, Repr

/-- The operator forms that hold expressions and are walked alike everywhere. -/
inductive NodeForm where
  | like (negated : Bool) (escape : Option String)
  | iLike (negated : Bool) (escape : Option String)
  | similarTo (negated : Bool) (escape : Option String)
  | inList (negated : Bool)
  | inUnnest (negated : Bool)
  | between (negated : Bool)
  | allOp (compareOp : BinaryOperator)
  | tuple | array
  | atTimeZone | collate (name : ObjectName) | extract (field : String)
  | position | substring | trim | overlay | ceil | floor | interval
  deriving DecidableEq, Repr

structure TableAlias where
  name : Ident
  columns : List Ident := []
  deriving DecidableEq, Repr

inductive JoinKind where
  | inner | left | leftOuter | right | rightOuter | fullOuter | cross | other
  deriving DecidableEq, Repr

inductive SetOperator where
  | union | except | intersect | minus
  deriving DecidableEq, Repr

inductive SetQuantifier where
  | all | distinct | byName | none
  deriving DecidableEq, Repr

mutual

inductive Expr where
  | identifier (id : Ident)
  | compoundIdentifier (parts : List Ident)
  | value (v : Value)
  | binaryOp (left : Expr) (op : BinaryOperator) (right : Expr)
  | unaryOp (op : UnaryOperator) (expr : Expr)
  | nested (expr : Expr)
  | cast (kind : CastKind) (expr : Expr) (dataType : DataType)
  | case (operand : Option Expr) (conditions : List CaseWhen) (elseResult : Option Expr)
  | anyOp (left : Expr) (compareOp : BinaryOperator) (right : Expr) (isSome : Bool)
  | isTest (test : IsTest) (expr : Expr)
  | isDistinctFrom (left right : Expr)
  | isNotDistinctFrom (left right : Expr)
  | function (f : Function)
  | compoundFieldAccess (root : Expr) (accessChain : List AccessExpr)
  | subquery (q : Query)
  | exists (q : Query) (negated : Bool)
  | inSubquery (expr : Expr) (q : Query) (negated : Bool)
  | node (form : NodeForm) (children : List Expr)

structure CaseWhen where
  condition : Expr
  result : Expr

inductive AccessExpr where
  | dot (expr : Expr)
  | subscript (index : Expr)
  | slice (lower upper : Option Expr)

structure Function where
  name : ObjectName
  args : FunctionArguments
  filter : Option Expr
  over_ : Option WindowType
  withinGroup : List OrderByExpr

inductive FunctionArguments where
  | none
  | subquery (q : Query)
  | list (distinct : Bool) (args : List FunctionArg) (orderBy : List OrderByExpr)

inductive FunctionArg where
  | unnamed (arg : FunctionArgExpr)
  | named (name : Ident) (arg : FunctionArgExpr)

inductive FunctionArgExpr where
  | expr (e : Expr)
  | qualifiedWildcard (name : ObjectName)
  | wildcard

inductive WindowType where
  | spec (partitionBy : List Expr) (orderBy : List OrderByExpr)
  | named (name : Ident)

structure OrderByExpr where
  expr : Expr
  asc : Option Bool
  nullsFirst : Option Bool

structure Query where
  with_ : Option With
  body : SetExpr
  orderBy : List OrderByExpr
  limit : Option Expr
  offset : Option Expr

structure With where
  recursive : Bool
  cteTables : List Cte

structure Cte where
  alias_ : TableAlias
  query : Query

inductive SetExpr where
  | select (s : Select)
  | query (q : Query)
  | setOperation (op : SetOperator) (quantifier : SetQuantifier) (left right : SetExpr)
  | values (rows : List Expr)

structure Select where
  distinct : Distinct
  projection : List SelectItem
  from_ : List TableWithJoins
  selection : Option Expr
  groupBy : GroupByExpr
  having : Option Expr

inductive Distinct where
  | no
  | rows
  | on (exprs : List Expr)

inductive SelectItem where
  | unnamedExpr (e : Expr)
  | exprWithAlias (e : Expr) (alias_ : Ident)
  | qualifiedWildcard (name : ObjectName)
  | wildcard

inductive GroupByExpr where
  | all
  | expressions (exprs : List Expr)

structure TableWithJoins where
  relation : TableFactor
  joins : List Join

structure Join where
  relation : TableFactor
  kind : JoinKind
  constraint : JoinConstraint

inductive JoinConstraint where
  | on (e : Expr)
  | using (columns : List ObjectName)
  | natural
  | none

inductive TableFactor where
  | table (name : ObjectName) (alias_ : Option TableAlias) (args : Option (List FunctionArg))
  | derived (lateral : Bool) (subquery : Query) (alias_ : Option TableAlias)
  | nestedJoin (tableWithJoins : TableWithJoins) (alias_ : Option TableAlias)
  | function (lateral : Bool) (name : ObjectName) (args : List FunctionArg)
    (alias_ : Option TableAlias)
  | tableFunction (expr : Expr) (alias_ : Option TableAlias)
  | unnest (alias_ : Option TableAlias) (exprs : List Expr)

end

end PgCatalog.Sql
