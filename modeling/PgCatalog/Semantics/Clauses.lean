import PgCatalog.Semantics.Engine

/-! The clauses of a query in the order SQL evaluates them: FROM, WHERE, GROUP BY, HAVING,
the select list, ORDER BY, DISTINCT, OFFSET and LIMIT. -/
namespace PgCatalog.Semantics

open Sql Library

inductive Item (D : Type) where
  | expr (e : Expr) (name : String) (meaning : Meaning D)
  | qualifiedWildcard (name : ObjectName)
  | wildcard

inductive Dedup (D : Type) where
  | no
  | rows
  | on (meanings : List (Meaning D))

structure OrderKey (D : Type) where
  expr : Expr
  meaning : Meaning D
  asc : Option Bool
  nullsFirst : Option Bool

def OrderKey.direction {D : Type} (k : OrderKey D) : Option Bool × Option Bool := (k.asc, k.nullsFirst)

/-- The clauses of one SELECT; GROUP BY ALL has no keys of its own. -/
structure Clauses (D : Type) where
  distinct : Dedup D
  items : List (Item D)
  source : Scope D → Option (Table D)
  filter : Option (Meaning D)
  keys : Option (List (Expr × Meaning D))
  having : Option (Meaning D)

/-- A row of the result with the values it is ordered and made distinct by. -/
structure Output (D : Type) where
  cells : List D
  keys : List D
  onKeys : List D

/-- A literal written as a position in the select list, counted from one. -/
def positionOf : Expr → Option Nat
  | .value (.number text false) => text.toNat?
  | _ => none

/-- The only index at which a name stands, refused where two share it. -/
def onlyIndex (names : List String) (name : String) : Option (Option Nat) :=
  match names.findIdxs (· == name) with
  | [] => some none
  | [i] => some (some i)
  | _ => none

/-- The rows that pass a fallible test. -/
def kept {A : Type} (test : A → Option Bool) : List A → Option (List A)
  | [] => some []
  | a :: rest => (test a).bind fun passed => (kept test rest).map fun more =>
      if passed then a :: more else more

namespace Item
variable {D : Type}

def aggregates : Item D → Bool
  | .expr _ _ m => m.aggregates
  | _ => false

def names (columns : List Column) : Item D → List String
  | .expr _ name _ => [name]
  | .qualifiedWildcard of_ =>
    (columns.filter fun c => qualifies of_ c).map (·.name)
  | .wildcard => columns.map (·.name)
where
  qualifies (of_ : ObjectName) (c : Column) : Bool :=
    of_.map (fun part => (part.asIdent.map Ident.folded).getD "") <:+ c.qualifier

/-- The values an item gives; a wildcard gives those of a row. -/
def cells (s : Scope D) : Item D → Option (List D)
  | .expr _ _ m => (m.value s).map ([·])
  | .qualifiedWildcard of_ =>
    match s.frames with
    | .row columns cells :: _ =>
      some (((columns.zip cells).filter fun pair => names.qualifies of_ pair.1).map (·.2))
    | _ => none
  | .wildcard =>
    match s.frames with
    | .row _ cells :: _ => some cells
    | _ => none

end Item

section
variable {D : Type} (E : Engine D)

/-- Whether a scope passes a condition, one that is absent always. -/
def passes (condition : Option (Meaning D)) (s : Scope D) : Option Bool :=
  match condition with
  | none => some true
  | some m => ((m.value s).bind E.truth).map (· == some true)

/-- An ORDER BY value: a name or a position of the select list stands for its column. -/
def OrderKey.value (k : OrderKey D) (names : List String) (cells : List D) (s : Scope D) :
    Option D :=
  match k.expr, positionOf k.expr with
  | .identifier id, _ =>
    (onlyIndex names id.folded).bind fun
      | some i => cells[i]?
      | none => k.meaning.value s
  | _, some 0 => none
  | _, some (position + 1) => cells[position]?
  | _, none => k.meaning.value s

/-- The rows in the order of their keys, rows with equal keys as they came. -/
def sorted (order : List (OrderKey D)) (outputs : List (Output D)) : List (Output D) :=
  if order.isEmpty then outputs
  else outputs.insertionSort fun a b =>
    E.before (order.map OrderKey.direction) a.keys b.keys = true

namespace Clauses
variable (c : Clauses D)

/-- A grouped SELECT: by its GROUP BY, a HAVING, or an aggregate outside WHERE. -/
def grouped (order : List (OrderKey D)) : Bool :=
  (match c.keys with | some [] => false | _ => true) || c.having.isSome ||
    c.items.any Item.aggregates || order.any (·.meaning.aggregates)

/-- FROM and WHERE; a WHERE that looks beyond its row is refused. -/
def filtered (s : Scope D) : Option (Table D) :=
  if c.filter.any (·.spans) then none
  else (c.source s).bind fun t =>
    (kept (fun cells => passes E c.filter (s.under (.row t.columns cells))) t.rows).map fun rows =>
      ⟨t.columns, rows⟩

/-- A grouping key: a position, or a name no column has, stands for its select item. -/
def keyOf (columns : List Column) (key : Expr × Meaning D) : Option (Expr × Meaning D) :=
  match key.1, positionOf key.1 with
  | .identifier id, _ =>
    if columns.any (·.answers [id.folded]) then some key
    else some ((c.items.findSome? fun
      | .expr e name m => if name = id.folded then some (e, m) else none
      | _ => none).getD key)
  | _, some 0 => none
  | _, some (position + 1) =>
    match c.items[position]? with
    | some (.expr e _ m) => some (e, m)
    | _ => none
  | _, none => some key

def groupKeys (columns : List Column) : Option (List (Expr × Meaning D)) :=
  match c.keys with
  | some keys => keys.mapM (c.keyOf columns)
  | none => some (c.items.filterMap fun
    | .expr e _ m => if m.aggregates then none else some (e, m)
    | _ => none)

/-- The groups of the rows by the values of the keys, in the order they are met; without a key
there is one, even of no row. -/
def groups (s : Scope D) (t : Table D) : Option (List (Frame D)) :=
  (c.groupKeys t.columns).bind fun keys =>
    if keys.isEmpty then some [.group t.columns t.rows fun _ => none]
    else
      (t.rows.mapM fun cells =>
        (keys.mapM fun key : Expr × Meaning D => key.2.value (s.under (.row t.columns cells))).map
          fun values => (values, cells)).map fun rows =>
        (Engine.keepFirst E.sameRow (rows.map (·.1))).map fun values =>
          .group t.columns ((rows.filter fun row => E.sameRow values row.1).map (·.2)) fun e =>
            (((keys.map (·.1)).zip values).find? fun pair => E.sameExpr pair.1 e).map (·.2)

/-- What the select list is read in: a frame a row, or a group each that passes HAVING. -/
def frames (order : List (OrderKey D)) (s : Scope D) (t : Table D) : Option (List (Frame D)) :=
  if c.grouped order then
    (c.groups E s t).bind (kept fun frame => passes E c.having (s.under frame))
  else some (t.rows.map (.row t.columns ·))

def names (columns : List Column) : List String := c.items.flatMap (Item.names columns)

def onMeanings : List (Meaning D) :=
  match c.distinct with
  | .on meanings => meanings
  | _ => []

/-- The rows the select list gives in one frame. -/
def outputs (order : List (OrderKey D)) (columns : List Column) (s : Scope D) :
    Option (List (Output D)) :=
  (c.items.mapM (Item.cells s)).bind fun lists =>
    (E.unfold lists.flatten).mapM fun cells =>
      (order.mapM fun k : OrderKey D => k.value (c.names columns) cells s).bind fun keys =>
        (c.onMeanings.mapM fun m : Meaning D => m.value s).map fun onKeys => ⟨cells, keys, onKeys⟩

def deduplicated (outputs : List (Output D)) : List (Output D) :=
  match c.distinct with
  | .no => outputs
  | .rows => Engine.keepFirst (fun a b => E.sameRow a.cells b.cells) outputs
  | .on _ => Engine.keepFirst (fun a b => E.sameRow a.onKeys b.onKeys) outputs

/-- The rows a SELECT gives before LIMIT and OFFSET. -/
def answer (order : List (OrderKey D)) (s : Scope D) : Option (Table D) :=
  (c.filtered E s).bind fun t =>
    (c.frames E order s t).bind fun frames =>
      (frames.mapM fun frame => c.outputs E order t.columns (s.under frame)).map fun outputs =>
        ⟨(c.names t.columns).map (⟨[], ·⟩),
          (c.deduplicated E (sorted E order outputs.flatten)).map (·.cells)⟩

end Clauses

/-- A table under a WITH name and the column names written there. -/
def renamed (name : Ident) (columns : List Ident) (t : Table D) : Table D :=
  ⟨t.columns.mapIdx fun i c => ⟨[name.folded], (columns[i]?.map Ident.folded).getD c.name⟩,
    t.rows⟩

/-- Rows that are no SELECT's own, ordered by their columns. -/
def arranged (t : Table D) (order : List (OrderKey D)) (s : Scope D) : Option (Table D) :=
  (t.rows.mapM fun cells =>
    (order.mapM fun k : OrderKey D =>
      k.value (t.columns.map (·.name)) cells (s.under (.row t.columns cells))).map
        fun keys => (⟨cells, keys, []⟩ : Output D)).map fun outputs =>
    ⟨t.columns, (sorted E order outputs).map (·.cells)⟩

/-- A bound's number, none where there is no bound. -/
def boundOf (bound : Option (Meaning D)) (s : Scope D) : Option (Option Nat) :=
  match bound with
  | none => some none
  | some m => (m.value s).bind E.bound

/-- The rows from the offset on, no more than the limit. -/
def cut {A : Type} (limit offset : Option Nat) (rows : List A) : List A :=
  match limit with
  | none => rows.drop (offset.getD 0)
  | some n => (rows.drop (offset.getD 0)).take n

/-- A query: the names of its WITH, its body in their scope, and the cut of its rows. -/
def queryAnswer (bind : Scope D → Option (Scope D)) (body : List (OrderKey D) → Answer D)
    (order : List (OrderKey D)) (limit offset : Option (Meaning D)) : Answer D := fun s =>
  (bind s).bind fun inner =>
    (body order inner).bind fun t =>
      (boundOf E limit inner).bind fun most =>
        (boundOf E offset inner).map fun skipped => ⟨t.columns, cut most skipped t.rows⟩

end

end PgCatalog.Semantics
