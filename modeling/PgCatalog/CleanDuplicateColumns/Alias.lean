import PgCatalog.Sql.Ast

/-! Names for the unnamed columns of a query, and the way back: every unnamed item of the
outermost projections is aliased `alias_N`, and its own name recorded under that alias. -/
namespace PgCatalog.CleanDuplicateColumns

open Sql

/-- Which types the parser has keywords for, and how types print. -/
structure TypeNames where
  keyword : Sql.DataType → Bool
  display : Sql.DataType → String

def displayIdent (id : Ident) : String :=
  match id.quoteStyle with
  | none => id.value
  | some q =>
    let escaped := id.value.toList.flatMap fun c => if c = q then [q, q] else [c]
    String.ofList (q :: escaped ++ [q])

def displayPart : ObjectNamePart → String
  | .identifier id => displayIdent id
  | .function text => text

def displayName (name : ObjectName) : String := ".".intercalate (name.map displayPart)

/-- The counter and the map threaded through a statement. -/
structure Aliasing where
  counter : Nat
  aliasMap : List (String × String)

def aliasName (n : Nat) : String := s!"alias_{n}"

section
variable (types : TypeNames)

/-- The name PostgreSQL reports for an expression without an alias. -/
def recordedName : Expr → String
  | .cast _ _ dataType =>
    if types.keyword dataType then (types.display dataType).toLower
    else
      match dataType with
      | .named [part] _ => part.asIdent.elim "?column?" (·.value)
      | dataType => (types.display dataType).toLower
  | .function f => displayName f.name
  | .compoundIdentifier segments => segments.getLast?.elim "?column?" (·.value)
  | .identifier id => id.value
  | _ => "?column?"

def aliasProjection (st : Aliasing) : List SelectItem → List SelectItem × Aliasing
  | [] => ([], st)
  | .unnamedExpr e :: rest =>
    let alias_ := aliasName st.counter
    let (items, later) := aliasProjection
      ⟨st.counter + 1, (alias_, recordedName types e) :: st.aliasMap⟩ rest
    (.exprWithAlias e (.new alias_) :: items, later)
  | item :: rest =>
    let (items, later) := aliasProjection st rest
    (item :: items, later)

mutual

/-- Only at depth 0, where the client sees the columns, is anything aliased. -/
def aliasColumnsInSetExpr (depth : Nat) (st : Aliasing) : SetExpr → SetExpr × Aliasing
  | .select ⟨distinct, projection, from_, selection, groupBy, having⟩ =>
    let (projection, st) := if depth = 0 then aliasProjection types st projection
      else (projection, st)
    let (from_, st) := aliasColumnsInFrom depth st from_
    (.select ⟨distinct, projection, from_, selection, groupBy, having⟩, st)
  | .setOperation op quantifier left right =>
    let (left, st) := aliasColumnsInSetExpr depth st left
    let (right, st) := aliasColumnsInSetExpr depth st right
    (.setOperation op quantifier left right, st)
  | .query q =>
    let (q, st) := aliasColumnsInQuery depth st q
    (.query q, st)
  | .values rows => (.values rows, st)

def aliasColumnsInFrom (depth : Nat) (st : Aliasing) :
    List TableWithJoins → List TableWithJoins × Aliasing
  | [] => ([], st)
  | entry :: rest =>
    let (entry, st) := aliasColumnsInEntry depth st entry
    let (rest, st) := aliasColumnsInFrom depth st rest
    (entry :: rest, st)

def aliasColumnsInEntry (depth : Nat) (st : Aliasing) :
    TableWithJoins → TableWithJoins × Aliasing
  | ⟨relation, joins⟩ =>
    let (relation, st) := aliasColumnsInFactor depth st relation
    (⟨relation, joins⟩, st)

def aliasColumnsInFactor (depth : Nat) (st : Aliasing) : TableFactor → TableFactor × Aliasing
  | .derived lateral subquery alias_ =>
    let (subquery, st) := aliasColumnsInQuery (depth + 1) st subquery
    (.derived lateral subquery alias_, st)
  | factor => (factor, st)

def aliasColumnsInQuery (depth : Nat) (st : Aliasing) : Query → Query × Aliasing
  | ⟨with_, body, orderBy, limit, offset⟩ =>
    let (body, st) := aliasColumnsInSetExpr depth st body
    let (with_, st) := aliasColumnsInWith depth st with_
    (⟨with_, body, orderBy, limit, offset⟩, st)

def aliasColumnsInWith (depth : Nat) (st : Aliasing) : Option With → Option With × Aliasing
  | none => (none, st)
  | some ⟨recursive, ctes⟩ =>
    let (ctes, st) := aliasColumnsInCtes depth st ctes
    (some ⟨recursive, ctes⟩, st)

def aliasColumnsInCtes (depth : Nat) (st : Aliasing) : List Cte → List Cte × Aliasing
  | [] => ([], st)
  | ⟨alias_, q⟩ :: rest =>
    let (q, st) := aliasColumnsInQuery (depth + 1) st q
    let (rest, st) := aliasColumnsInCtes depth st rest
    (⟨alias_, q⟩ :: rest, st)

end

/-- The aliased query and the map from its aliases to the names they stand for. -/
def aliasUnnamedColumns (q : Query) : Query × List (String × String) :=
  let (q, st) := aliasColumnsInQuery types 0 ⟨1, []⟩ q
  (q, st.aliasMap)

end

def restoreItem (aliasMap : List (String × String)) : SelectItem → SelectItem
  | .exprWithAlias e alias_ =>
    match aliasMap.lookup alias_.value with
    | some realName => .exprWithAlias e (.new realName)
    | none => .exprWithAlias e alias_
  | item => item

mutual

def restoreInSetExpr (aliasMap : List (String × String)) : SetExpr → SetExpr
  | .select ⟨distinct, projection, from_, selection, groupBy, having⟩ =>
    .select ⟨distinct, projection.map (restoreItem aliasMap), from_, selection, groupBy, having⟩
  | .setOperation op quantifier left right =>
    .setOperation op quantifier (restoreInSetExpr aliasMap left) (restoreInSetExpr aliasMap right)
  | .query q => .query (restoreAliasedColumnNames aliasMap q)
  | .values rows => .values rows

def restoreAliasedColumnNames (aliasMap : List (String × String)) : Query → Query
  | ⟨with_, body, orderBy, limit, offset⟩ =>
    ⟨with_, restoreInSetExpr aliasMap body, orderBy, limit, offset⟩

end

/-- `rename_columns`, as far as the names of the fields go. -/
def renameColumns (aliasMap : List (String × String)) (fields : List String) : List String :=
  fields.map fun old => (aliasMap.lookup old).getD old

end PgCatalog.CleanDuplicateColumns
