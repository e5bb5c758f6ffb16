import PgCatalog.Semantics.Clauses

/-! What a statement's tree means, node by node. -/
namespace PgCatalog.Semantics

open Sql Library

def folded (parts : List Ident) : List String := parts.map Ident.folded

def orderShape (orderBy : List OrderByExpr) : List (Option Bool × Option Bool) :=
  orderBy.map fun key => (key.asc, key.nullsFirst)

def accessShape : AccessExpr → AccessShape
  | .dot _ => .dot
  | .subscript _ => .subscript
  | .slice lower upper => .slice lower.isSome upper.isSome

def argShape : FunctionArg → ArgShape
  | .unnamed (.expr _) => .expr none
  | .unnamed (.qualifiedWildcard of_) => .qualifiedWildcard none of_
  | .unnamed .wildcard => .wildcard none
  | .named name (.expr _) => .expr (some name)
  | .named name (.qualifiedWildcard of_) => .qualifiedWildcard (some name) of_
  | .named name .wildcard => .wildcard (some name)

def argsShape : FunctionArguments → ArgsShape
  | .none => .none
  | .subquery _ => .subquery
  | .list distinct args orderBy => .list distinct (args.map argShape) (orderShape orderBy)

def windowShape : WindowType → WindowShape
  | .spec partitionBy orderBy => .spec partitionBy.length (orderShape orderBy)
  | .named name => .named name

def callShape (f : Function) : CallShape where
  name := f.name
  args := argsShape f.args
  filter := f.filter.isSome
  over_ := f.over_.map windowShape
  withinGroup := orderShape f.withinGroup

section
variable {D : Type} (E : Engine D)

mutual

def exprMeaning : Expr → Meaning D
  | e@(.identifier id) => column e [id.folded]
  | e@(.compoundIdentifier parts) => column e (folded parts)
  | e@(.value v) => operation E e (.value v) []
  | e@(.binaryOp left op right) => operation E e (.binary op) [exprMeaning left, exprMeaning right]
  | e@(.unaryOp op inner) => operation E e (.unary op) [exprMeaning inner]
  | .nested inner => exprMeaning inner
  | e@(.cast kind inner dataType) => operation E e (.cast kind dataType) [exprMeaning inner]
  | e@(.case operand conditions elseResult) =>
    operation E e (.case operand.isSome conditions.length elseResult.isSome)
      (optionMeanings operand ++ caseMeanings conditions ++ optionMeanings elseResult)
  | e@(.anyOp left op right _) => operation E e (.anyOp op) [exprMeaning left, exprMeaning right]
  | e@(.isTest test inner) => operation E e (.isTest test) [exprMeaning inner]
  | e@(.isDistinctFrom left right) =>
    operation E e .isDistinctFrom [exprMeaning left, exprMeaning right]
  | e@(.isNotDistinctFrom left right) =>
    operation E e .isNotDistinctFrom [exprMeaning left, exprMeaning right]
  | e@(.function ⟨name, args, filter, over_, withinGroup⟩) =>
    call E e (callShape ⟨name, args, filter, over_, withinGroup⟩)
      (argumentMeanings args ++ optionMeanings filter ++ windowMeanings over_ ++
        (orderMeanings withinGroup).map (·.meaning))
  | e@(.compoundFieldAccess root chain) =>
    operation E e (.access (chain.map accessShape)) (exprMeaning root :: accessMeanings chain)
  | e@(.subquery q) => scalarSubquery E e (queryMeaning q)
  | e@(.exists q negated) => existsSubquery E e (queryMeaning q) negated
  | e@(.inSubquery (.node .tuple elems) q negated) =>
    inSubquery E e (exprMeanings elems) (queryMeaning q) negated
  | e@(.inSubquery inner q negated) =>
    inSubquery E e [exprMeaning inner] (queryMeaning q) negated
  | e@(.node form children) => operation E e (.node form) (exprMeanings children)

def exprMeanings : List Expr → List (Meaning D)
  | [] => []
  | e :: rest => exprMeaning e :: exprMeanings rest

def optionMeanings : Option Expr → List (Meaning D)
  | none => []
  | some e => [exprMeaning e]

def optionMeaning : Option Expr → Option (Meaning D)
  | none => none
  | some e => some (exprMeaning e)

def caseMeanings : List CaseWhen → List (Meaning D)
  | [] => []
  | ⟨condition, result⟩ :: rest =>
    exprMeaning condition :: exprMeaning result :: caseMeanings rest

def accessMeanings : List AccessExpr → List (Meaning D)
  | [] => []
  | .dot e :: rest => exprMeaning e :: accessMeanings rest
  | .subscript index :: rest => exprMeaning index :: accessMeanings rest
  | .slice lower upper :: rest =>
    optionMeanings lower ++ optionMeanings upper ++ accessMeanings rest

def argumentMeanings : FunctionArguments → List (Meaning D)
  | .none => []
  | .subquery q => [arraySubquery E (queryMeaning q)]
  | .list _ args orderBy => argMeanings args ++ (orderMeanings orderBy).map (·.meaning)

def argMeanings : List FunctionArg → List (Meaning D)
  | [] => []
  | .unnamed arg :: rest => argMeaning arg ++ argMeanings rest
  | .named _ arg :: rest => argMeaning arg ++ argMeanings rest

def argMeaning : FunctionArgExpr → List (Meaning D)
  | .expr e => [exprMeaning e]
  | .qualifiedWildcard _ => []
  | .wildcard => []

def windowMeanings : Option WindowType → List (Meaning D)
  | none => []
  | some (.spec partitionBy orderBy) =>
    exprMeanings partitionBy ++ (orderMeanings orderBy).map (·.meaning)
  | some (.named _) => []

def orderMeanings : List OrderByExpr → List (OrderKey D)
  | [] => []
  | ⟨e, asc, nullsFirst⟩ :: rest => ⟨e, exprMeaning e, asc, nullsFirst⟩ :: orderMeanings rest

def queryMeaning : Query → Answer D
  | ⟨with_, body, orderBy, limit, offset⟩ =>
    queryAnswer E (withMeaning with_) (bodyMeaning body) (orderMeanings orderBy)
      (optionMeaning limit) (optionMeaning offset)

/-- The scope of a query under the names its WITH gives. -/
def withMeaning : Option With → Scope D → Option (Scope D)
  | none => some
  | some ⟨recursive, ctes⟩ => ctesMeaning recursive ctes

def ctesMeaning (recursive : Bool) : List Cte → Scope D → Option (Scope D)
  | [] => some
  | ⟨⟨name, columns⟩, q⟩ :: rest => fun s =>
    (if recursive then
      E.fixpoint fun table => (queryMeaning q (s.binding name (renamed name columns table)))
    else queryMeaning q s).bind fun table =>
      ctesMeaning recursive rest (s.binding name (renamed name columns table))

def bodyMeaning : SetExpr → List (OrderKey D) → Answer D
  | .select s => (clauses s).answer E
  | .query q => fun order s => (queryMeaning q s).bind fun t => arranged E t order s
  | .setOperation op quantifier left right => fun order s =>
    (bodyMeaning left [] s).bind fun a =>
      (bodyMeaning right [] s).bind fun b =>
        (E.combine op quantifier a b).bind fun t => arranged E t order s
  | .values rows => fun order s =>
    (E.values ((exprMeanings rows).map (·.value s))).bind fun t => arranged E t order s

def clauses : Select → Clauses D
  | ⟨distinct, projection, from_, selection, groupBy, having⟩ => {
    distinct := distinctMeaning distinct
    items := itemMeanings projection
    source := fun s => E.source s from_
    filter := optionMeaning selection
    keys := keyMeanings groupBy
    having := optionMeaning having }

def distinctMeaning : Distinct → Dedup D
  | .no => .no
  | .rows => .rows
  | .on exprs => .on (exprMeanings exprs)

def itemMeanings : List SelectItem → List (Item D)
  | [] => []
  | .unnamedExpr e :: rest => .expr e (E.nameOf e) (exprMeaning e) :: itemMeanings rest
  | .exprWithAlias e alias_ :: rest => .expr e alias_.folded (exprMeaning e) :: itemMeanings rest
  | .qualifiedWildcard name :: rest => .qualifiedWildcard name :: itemMeanings rest
  | .wildcard :: rest => .wildcard :: itemMeanings rest

def keyMeanings : GroupByExpr → Option (List (Expr × Meaning D))
  | .all => none
  | .expressions exprs => some (keyList exprs)

def keyList : List Expr → List (Expr × Meaning D)
  | [] => []
  | e :: rest => (e, exprMeaning e) :: keyList rest

end

end

end PgCatalog.Semantics
