import Mathlib.Data.List.Sort
import PgCatalog.Library.Truth
import PgCatalog.Sql.Ast

/-! What the query engine brings to the meaning of a statement: its values and operators,
its FROM clauses, and what it promises of them. Names, subqueries, grouping and the order of
a query's clauses are not its choice; they are defined over it. -/
namespace PgCatalog.Semantics

open Sql Library

/-- A column of a FROM clause: what may qualify it, and its own name. -/
structure Column where
  qualifier : List String
  name : String
  deriving DecidableEq, Repr

/-- Whether a reference, its qualifiers first, names the column. -/
def Column.answers (c : Column) (parts : List String) : Bool :=
  parts.getLast? = some c.name ∧ parts.dropLast <:+ c.qualifier

structure Table (D : Type) where
  columns : List Column
  rows : List (List D)

/-- What one SELECT puts in sight: a row, or a group of rows and the values of the
expressions it is grouped by. -/
inductive Frame (D : Type) where
  | row (columns : List Column) (cells : List D)
  | group (columns : List Column) (rows : List (List D)) (key : Expr → Option D)

/-- The relations a name may denote and the frames of the enclosing SELECTs, innermost first. -/
structure Scope (D : Type) where
  relation : ObjectName → Option (Table D)
  frames : List (Frame D)

namespace Scope
variable {D : Type}

def under (s : Scope D) (frame : Frame D) : Scope D := ⟨s.relation, frame :: s.frames⟩

/-- The scope in which a WITH name denotes a table. -/
def binding (s : Scope D) (name : Ident) (table : Table D) : Scope D :=
  ⟨fun called =>
    if (called.map fun part => part.asIdent.map Ident.folded) = [some name.folded] then some table
    else s.relation called, s.frames⟩

end Scope

inductive AccessShape where
  | dot
  | subscript
  | slice (lower upper : Bool)
  deriving DecidableEq, Repr

inductive ArgShape where
  | expr (name : Option Ident)
  | wildcard (name : Option Ident)
  | qualifiedWildcard (name : Option Ident) (of_ : ObjectName)
  deriving DecidableEq, Repr

inductive ArgsShape where
  | none
  | subquery
  | list (distinct : Bool) (args : List ArgShape) (orderBy : List (Option Bool × Option Bool))
  deriving DecidableEq, Repr

inductive WindowShape where
  | spec (partitionBy : Nat) (orderBy : List (Option Bool × Option Bool))
  | named (name : Ident)
  deriving DecidableEq, Repr

/-- A call without the expressions in it. -/
structure CallShape where
  name : ObjectName
  args : ArgsShape
  filter : Bool := false
  over_ : Option WindowShape := none
  withinGroup : List (Option Bool × Option Bool) := []
  deriving DecidableEq, Repr

/-- An operator without its operands. -/
inductive Shape where
  | value (v : Sql.Value)
  | binary (op : BinaryOperator)
  | unary (op : UnaryOperator)
  | cast (kind : CastKind) (dataType : Sql.DataType)
  | case (operand : Bool) (conditions : Nat) (elseResult : Bool)
  | anyOp (op : BinaryOperator)
  | isTest (test : IsTest)
  | isDistinctFrom
  | isNotDistinctFrom
  | call (shape : CallShape)
  | access (chain : List AccessShape)
  | node (form : NodeForm)

/-- `=`, `<>`, `<`, `<=`, `>` and `>=`. -/
def isComparison : BinaryOperator → Bool
  | .eq | .notEq | .lt | .ltEq | .gt | .gtEq => true
  | _ => false

/-- The name `count`, and its call `count(*)`. -/
def countName : ObjectName := [.identifier (Ident.new "count")]

def countShape : CallShape := { name := countName, args := .list false [.wildcard none] [] }

/-- The engine under the queries. Where it answers `none` it refuses. -/
structure Engine (D : Type) where
  ofTruth : Truth → D
  /-- The truth value a value is, where it is one; NULL is the unknown one. -/
  truth : D → Option Truth
  number : Nat → D
  operator : Shape → List (Option D) → Option D
  aggregates : ObjectName → Bool
  /-- An aggregate call on its operands' values, row by row. -/
  aggregate : CallShape → List (List (Option D)) → Option D
  window : CallShape → Scope D → List (Option D) → Option D
  /-- The rows a select list's values give: one, unless a value is a set of rows. -/
  unfold : List D → List (List D)
  /-- Whether DISTINCT and GROUP BY take two rows for one. -/
  sameRow : List D → List D → Bool
  /-- Whether two expressions of one SELECT are the same grouping key. -/
  sameExpr : Expr → Expr → Bool
  before : List (Option Bool × Option Bool) → List D → List D → Bool
  /-- A LIMIT or OFFSET: NULL is no bound. -/
  bound : D → Option (Option Nat)
  arrayOf : List (List D) → Option D
  source : Scope D → List TableWithJoins → Option (Table D)
  nameOf : Expr → String
  combine : SetOperator → SetQuantifier → Table D → Table D → Option (Table D)
  values : List (Option D) → Option (Table D)
  fixpoint : (Table D → Option (Table D)) → Option (Table D)
  truth_ofTruth : ∀ t, truth (ofTruth t) = some t
  ofTruth_truth : ∀ d t, truth d = some t → d = ofTruth t
  literal_zero : operator (.value (.number "0" false)) [] = some (number 0)
  literal_one : operator (.value (.number "1" false)) [] = some (number 1)
  both_truths : ∀ t u, operator (.binary .and) [some (ofTruth t), some (ofTruth u)] =
    some (ofTruth (t.both u))
  /-- An AND that does not need its right side is false. -/
  both_short : ∀ t d, operator (.binary .and) [some (ofTruth t), none] = some d →
    d = ofTruth (some false)
  compared : ∀ op left right d, isComparison op = true →
    operator (.binary op) [left, right] = some d →
      left.isSome = true ∧ right.isSome = true ∧ ∃ t, d = ofTruth t
  null_compared : ∀ op d, isComparison op = true →
    operator (.binary op) [some (ofTruth none), some d] = some (ofTruth none)
  number_gt : ∀ m n, operator (.binary .gt) [some (number m), some (number n)] =
    some (ofTruth (some (decide (n < m))))
  number_eq : ∀ m n, operator (.binary .eq) [some (number m), some (number n)] =
    some (ofTruth (some (decide (m = n))))
  counts : aggregates countName = true
  count_rows : ∀ rows, aggregate countShape rows = some (number rows.length)
  unfold_number : ∀ n, unfold [number n] = [[number n]]
  unfold_truth : ∀ t, unfold [ofTruth t] = [[ofTruth t]]

namespace Engine
variable {D : Type} (E : Engine D)

def null : D := E.ofTruth none

theorem ofTruth_inj {t u : Truth} (same : E.ofTruth t = E.ofTruth u) : t = u := by
  have read := congrArg E.truth same
  rw [E.truth_ofTruth, E.truth_ofTruth] at read
  exact Option.some.inj read

/-- The first of each kind of equals. -/
def keepFirst {A : Type} (same : A → A → Bool) : List A → List A
  | [] => []
  | a :: rest => a :: (keepFirst same rest).filter fun b => !same a b

/-- A scalar subquery's value: NULL without a row, refused with several. -/
def single : List (List D) → Option D
  | [] => some E.null
  | [[d]] => some d
  | _ => none

/-- Whether two lists of values are equal, one by one. -/
def rowEq (left right : List D) : Option Truth :=
  if left.length = right.length then
    ((left.zip right).mapM fun pair =>
      (E.operator (.binary .eq) [some pair.1, some pair.2]).bind E.truth).map Truth.every
  else none

end Engine

/-- The innermost frame that knows a column decides: of a row it is the cell, of a group only
a key can be read, and a name two columns share is refused. -/
def lookup {D : Type} (e : Expr) (parts : List String) : List (Frame D) → Option D
  | [] => none
  | .row columns cells :: outer =>
    match columns.findIdxs (·.answers parts) with
    | [] => lookup e parts outer
    | [i] => cells[i]?
    | _ => none
  | .group columns _ key :: outer =>
    match columns.findIdxs (·.answers parts) with
    | [] => lookup e parts outer
    | _ => key e

/-- What an expression stands for: its value in a scope, and whether it calls an aggregate or
a window function. -/
structure Meaning (D : Type) where
  value : Scope D → Option D
  aggregates : Bool := false
  windows : Bool := false

/-- Whether an expression looks beyond one row. -/
def Meaning.spans {D : Type} (m : Meaning D) : Bool := m.aggregates || m.windows

abbrev Answer (D : Type) := Scope D → Option (Table D)

section
variable {D : Type} (E : Engine D)

/-- Under a group, an expression it is grouped by is a value already. -/
def keyed (e : Expr) (value : Scope D → Option D) (s : Scope D) : Option D :=
  match s.frames with
  | .group _ _ key :: _ => (key e).or (value s)
  | _ => value s

def column (e : Expr) (parts : List String) : Meaning D where
  value := keyed e fun s => lookup e parts s.frames

def operation (e : Expr) (shape : Shape) (operands : List (Meaning D)) : Meaning D where
  value := keyed e fun s => E.operator shape (operands.map (·.value s))
  aggregates := operands.any (·.aggregates)
  windows := operands.any (·.windows)

/-- A call: over a window, of an aggregate on the rows of its group, or of a function. -/
def call (e : Expr) (shape : CallShape) (operands : List (Meaning D)) : Meaning D :=
  if shape.over_.isSome then
    { value := keyed e fun s => E.window shape s (operands.map (·.value s))
      aggregates := operands.any (·.aggregates)
      windows := true }
  else if E.aggregates shape.name then
    { value := keyed e fun s =>
        match s.frames with
        | .group columns rows _ :: outer =>
          E.aggregate shape (rows.map fun cells =>
            operands.map (·.value ⟨s.relation, .row columns cells :: outer⟩))
        | _ => none
      aggregates := true
      windows := operands.any (·.windows) }
  else operation E e (.call shape) operands

def scalarSubquery (e : Expr) (answer : Answer D) : Meaning D where
  value := keyed e fun s => (answer s).bind fun t => E.single t.rows

def arraySubquery (answer : Answer D) : Meaning D where
  value := fun s => (answer s).bind fun t => E.arrayOf t.rows

def existsSubquery (e : Expr) (answer : Answer D) (negated : Bool) : Meaning D where
  value := keyed e fun s =>
    (answer s).map fun t => E.ofTruth (some (t.rows.isEmpty == negated))

/-- `left [NOT] IN (subquery)`, the left side a row of one or more values. -/
def inSubquery (e : Expr) (left : List (Meaning D)) (answer : Answer D) (negated : Bool) :
    Meaning D where
  value := keyed e fun s =>
    (left.mapM fun m : Meaning D => m.value s).bind fun cells =>
      (answer s).bind fun t =>
        (t.rows.mapM (E.rowEq cells)).map fun found =>
          E.ofTruth (if negated then (Truth.anyOf found).neg else Truth.anyOf found)
  aggregates := left.any (·.aggregates)
  windows := left.any (·.windows)

end

end PgCatalog.Semantics
