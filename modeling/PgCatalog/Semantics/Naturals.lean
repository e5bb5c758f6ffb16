import PgCatalog.Semantics.Meaning

/-! A small engine over the natural numbers that keeps every promise, and its tables. -/
namespace PgCatalog.Semantics

open Sql Library

inductive Cell where
  | truth (t : Truth)
  | number (n : Nat)
  deriving DecidableEq, Repr

namespace Cell

/-- The value a numeral names. -/
def numeral (text : String) : Option Cell :=
  if text.toList.all Char.isDigit then
    some (.number (text.toList.foldl (fun n c => 10 * n + (c.toNat - '0'.toNat)) 0))
  else none

def order : BinaryOperator → Nat → Nat → Option Bool
  | .eq, m, n => some (decide (m = n))
  | .notEq, m, n => some (decide (m ≠ n))
  | .lt, m, n => some (decide (m < n))
  | .ltEq, m, n => some (decide (m ≤ n))
  | .gt, m, n => some (decide (n < m))
  | .gtEq, m, n => some (decide (n ≤ m))
  | _, _, _ => none

def compare (op : BinaryOperator) : Cell → Cell → Option Cell
  | .truth none, _ => if isComparison op then some (.truth none) else none
  | _, .truth none => if isComparison op then some (.truth none) else none
  | .number m, .number n => (order op m n).map fun b => .truth (some b)
  | .truth (some a), .truth (some b) =>
    (order op a.toNat b.toNat).map fun holds => .truth (some holds)
  | _, _ => none

def operator : Shape → List (Option Cell) → Option Cell
  | .value (.number text _), [] => numeral text
  | .value .null, [] => some (.truth none)
  | .value (.boolean b), [] => some (.truth (some b))
  | .binary .and, [some (.truth t), some (.truth u)] => some (.truth (t.both u))
  | .binary .or, [some (.truth t), some (.truth u)] => some (.truth (t.either u))
  | .unary .not, [some (.truth t)] => some (.truth t.neg)
  | .binary op, [some a, some b] => compare op a b
  | .isTest .isNull, [some d] => some (.truth (some (decide (d = .truth none))))
  | .isTest .isNotNull, [some d] => some (.truth (some (decide (d ≠ .truth none))))
  | _, _ => none

/-- A sort rank: NULL is above everything. -/
def rank : Cell → Nat
  | .truth none => 0
  | .truth (some b) => b.toNat + 1
  | .number n => n + 1

def before : List (Option Bool × Option Bool) → List Cell → List Cell → Bool
  | (asc, _) :: directions, a :: more, b :: others =>
    if a = b then before directions more others
    else if asc = some false then b ≠ .truth none ∧ (a = .truth none ∨ rank b < rank a)
    else a ≠ .truth none ∧ (b = .truth none ∨ rank a < rank b)
  | _, _, _ => true

def sameColumn : Expr → Expr → Bool
  | .identifier a, .identifier b => a.folded = b.folded
  | .compoundIdentifier a, .compoundIdentifier b => a.map Ident.folded = b.map Ident.folded
  | _, _ => false

/-- The names a table's columns are qualified by: its alias, or else its own. -/
def qualifierOf (name : ObjectName) : Option TableAlias → List String
  | some alias_ => [alias_.name.folded]
  | none => name.map fun part => (part.asIdent.map Ident.folded).getD ""

def source (s : Scope Cell) : List TableWithJoins → Option (Table Cell)
  | [] => some ⟨[], [[]]⟩
  | [⟨.table name alias_ none, []⟩] =>
    (s.relation name).map fun t =>
      ⟨t.columns.map fun c => ⟨qualifierOf name alias_, c.name⟩, t.rows⟩
  | _ => none

def countRows (shape : CallShape) (rows : List (List (Option Cell))) : Option Cell :=
  if shape = countShape then some (.number rows.length) else none

def nameOf : Expr → String
  | .identifier id => id.folded
  | .compoundIdentifier parts => (parts.getLast?.map Ident.folded).getD ""
  | .function f => ((lastIdent f.name).map Ident.folded).getD ""
  | _ => "?column?"

theorem compare_truth {op : BinaryOperator} {a b d : Cell} (compared : compare op a b = some d) :
    ∃ t, d = .truth t := by
  unfold compare at compared
  split at compared
  · split at compared
    · exact ⟨_, (Option.some.inj compared).symm⟩
    · cases compared
  · split at compared
    · exact ⟨_, (Option.some.inj compared).symm⟩
    · cases compared
  · obtain ⟨b, _, rfl⟩ := Option.map_eq_some_iff.mp compared
    exact ⟨_, rfl⟩
  · obtain ⟨b, _, rfl⟩ := Option.map_eq_some_iff.mp compared
    exact ⟨_, rfl⟩
  · cases compared

theorem operator_compared {op : BinaryOperator} {left right : Option Cell} {d : Cell}
    (comparison : isComparison op = true)
    (answered : operator (.binary op) [left, right] = some d) :
    left.isSome = true ∧ right.isSome = true ∧ ∃ t, d = .truth t := by
  have plain : ∀ a b, operator (.binary op) [some a, some b] = compare op a b := by
    intro a b
    cases op <;> first | rfl | cases comparison
  cases left with
  | none => cases op <;> cases answered
  | some a =>
    cases right with
    | none => cases op <;> first | cases answered | cases comparison
    | some b =>
      rw [plain] at answered
      exact ⟨rfl, rfl, compare_truth answered⟩

end Cell

open Semantics.Cell in
def naturals : Engine Cell where
  ofTruth := .truth
  truth
    | .truth t => some t
    | .number _ => none
  number := .number
  operator := operator
  aggregates name := name = countName
  aggregate := countRows
  window _ _ _ := none
  unfold cells := [cells]
  sameRow a b := a = b
  sameExpr := sameColumn
  before := before
  bound
    | .number n => some (some n)
    | .truth none => some none
    | .truth (some _) => none
  arrayOf _ := none
  source := source
  nameOf := nameOf
  combine _ _ _ _ := none
  values _ := none
  fixpoint _ := none
  truth_ofTruth _ := rfl
  ofTruth_truth d t read := by
    cases d with
    | truth u => exact congrArg Cell.truth (Option.some.inj read)
    | number n => cases read
  literal_zero := by decide
  literal_one := by decide
  both_truths _ _ := rfl
  both_short _ _ := nofun
  compared _ _ _ _ := operator_compared
  null_compared op d comparison := by
    cases op <;> first | rfl | cases comparison
  number_gt _ _ := rfl
  number_eq _ _ := rfl
  counts := by decide
  count_rows rows := if_pos rfl
  unfold_number _ := rfl
  unfold_truth _ := rfl

def pgClass : ObjectName := [.identifier (Ident.new "pg_class")]

/-- The scope of one relation, `pg_class`, of one column `oid`. -/
def catalogOf (oids : List Cell) : Scope Cell :=
  ⟨fun name => if name = pgClass then some ⟨[⟨["pg_class"], "oid"⟩], oids.map ([·])⟩ else none, []⟩

end PgCatalog.Semantics
