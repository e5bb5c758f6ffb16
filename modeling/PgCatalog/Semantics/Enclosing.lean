import PgCatalog.Semantics.Positions

/-! A query around an expression, which may stand in its WHERE clause, its select list and
its ORDER BY, and the rows it has for two expressions. -/
namespace PgCatalog.Semantics

open Sql Library

inductive Slot where
  | fixed (e : Expr)
  | hole (p : Position)

def Slot.fill (x : Expr) : Slot → Expr
  | fixed e => e
  | hole p => p.plug x

inductive ItemSlot where
  | fixed (item : SelectItem)
  | hole (p : Position) (alias_ : Option Ident)

def ItemSlot.fill (x : Expr) : ItemSlot → SelectItem
  | fixed item => item
  | hole p none => .unnamedExpr (p.plug x)
  | hole p (some alias_) => .exprWithAlias (p.plug x) alias_

structure SortSlot where
  slot : Slot
  asc : Option Bool
  nullsFirst : Option Bool

def SortSlot.fill (x : Expr) (k : SortSlot) : OrderByExpr := ⟨k.slot.fill x, k.asc, k.nullsFirst⟩

structure Enclosing where
  with_ : Option With
  distinct : Distinct
  items : List ItemSlot
  from_ : List TableWithJoins
  selection : Option Slot
  groupBy : GroupByExpr
  having : Option Expr
  orderBy : List SortSlot
  limit : Option Expr
  offset : Option Expr

namespace Enclosing

def select (Q : Enclosing) (x : Expr) : Select :=
  ⟨Q.distinct, Q.items.map (·.fill x), Q.from_, Q.selection.map (·.fill x), Q.groupBy, Q.having⟩

def fill (Q : Enclosing) (x : Expr) : Query :=
  ⟨Q.with_, .select (Q.select x), Q.orderBy.map (·.fill x), Q.limit, Q.offset⟩

/-- Whether the expression stands in the WHERE clause only. -/
def OnlyFilters (Q : Enclosing) : Prop :=
  (∀ item ∈ Q.items, ∃ i, item = .fixed i) ∧ ∀ k ∈ Q.orderBy, ∃ e, k.slot = .fixed e

theorem items_fixed {Q : Enclosing} (only : Q.OnlyFilters) (x y : Expr) :
    Q.items.map (·.fill x) = Q.items.map (·.fill y) := by
  apply List.map_congr_left
  intro item member
  obtain ⟨i, rfl⟩ := only.1 item member
  rfl

theorem orderBy_fixed {Q : Enclosing} (only : Q.OnlyFilters) (x y : Expr) :
    Q.orderBy.map (·.fill x) = Q.orderBy.map (·.fill y) := by
  apply List.map_congr_left
  rintro ⟨slot, asc, nullsFirst⟩ member
  obtain ⟨e, fixed⟩ := only.2 _ member
  cases fixed
  rfl

/-- Whether no ORDER BY can hang on the name made up for an item around the expression. -/
def Named (Q : Enclosing) : Prop :=
  Q.orderBy = [] ∨ ∀ p alias_, .hole p alias_ ∈ Q.items → alias_.isSome = true

end Enclosing

/-- An expression that ORDER BY reads as a value, neither as a name nor as a position. -/
structure Computed (x : Expr) : Prop where
  name : ∀ id, x ≠ .identifier id
  position : positionOf x = none

theorem plug_computed {x : Expr} (plain : Computed x) (p : Position) : Computed (p.plug x) := by
  cases p with
  | here => exact plain
  | _ => exact ⟨nofun, rfl⟩

section
variable {D : Type} (E : Engine D)

theorem kept_congr {A : Type} {test other : A → Option Bool} {rows : List A}
    (same : ∀ a ∈ rows, test a = other a) : kept test rows = kept other rows := by
  induction rows with
  | nil => rfl
  | cons a rest ih =>
    rw [List.forall_mem_cons] at same
    rw [kept, kept, same.1, ih same.2]

theorem kept_subset {A : Type} {test : A → Option Bool} {rows some_ : List A}
    (passed : kept test rows = some some_) : ∀ a ∈ some_, a ∈ rows := by
  induction rows generalizing some_ with
  | nil =>
    obtain rfl := Option.some.inj passed
    exact fun a member => member
  | cons b rest ih =>
    obtain ⟨holds, _, passed⟩ := Option.bind_eq_some_iff.mp passed
    obtain ⟨more, later, rfl⟩ := Option.map_eq_some_iff.mp passed
    intro a member
    cases holds with
    | false => exact List.mem_cons_of_mem _ (ih later a member)
    | true =>
      obtain rfl | member := List.mem_cons.mp member
      · exact List.mem_cons_self
      · exact List.mem_cons_of_mem _ (ih later a member)

theorem mapM_congr {A B : Type} {f g : A → Option B} {xs : List A}
    (same : ∀ x ∈ xs, f x = g x) : xs.mapM f = xs.mapM g := by
  induction xs with
  | nil => rfl
  | cons x rest ih =>
    rw [List.forall_mem_cons] at same
    rw [List.mapM_cons, List.mapM_cons, same.1, ih same.2]

variable {c d : Clauses D} {s : Scope D}

/-- Two filters that agree in every row of FROM keep the same rows. -/
theorem filtered_same (source : c.source s = d.source s)
    (spans : c.filter.any (·.spans) = d.filter.any (·.spans))
    (passed : ∀ t, c.source s = some t → ∀ cells ∈ t.rows,
      passes E c.filter (s.under (.row t.columns cells)) =
        passes E d.filter (s.under (.row t.columns cells))) :
    c.filtered E s = d.filtered E s := by
  rw [Clauses.filtered, Clauses.filtered, spans, source]
  split
  · rfl
  · apply Option.bind_congr
    intro t found
    rw [kept_congr (passed t (source.trans found))]

theorem filtered_subset {t : Table D} (kept : c.filtered E s = some t) :
    ∃ whole, c.source s = some whole ∧ whole.columns = t.columns ∧
      ∀ cells ∈ t.rows, cells ∈ whole.rows := by
  unfold Clauses.filtered at kept
  split at kept
  · cases kept
  obtain ⟨whole, found, kept⟩ := Option.bind_eq_some_iff.mp kept
  obtain ⟨rows, passed, rfl⟩ := Option.map_eq_some_iff.mp kept
  exact ⟨whole, found, rfl, kept_subset passed⟩

/-- Two ungrouped SELECTs whose lists agree in every row of FROM have the same rows. -/
theorem answer_same {order other : List (OrderKey D)}
    (filtered : c.filtered E s = d.filtered E s) (distinct : c.distinct = d.distinct)
    (directions : order.map OrderKey.direction = other.map OrderKey.direction)
    (plain : c.grouped order = false) (plain' : d.grouped other = false)
    (outputs : ∀ t, c.source s = some t → ∀ cells ∈ t.rows,
      c.outputs E order t.columns (s.under (.row t.columns cells)) =
        d.outputs E other t.columns (s.under (.row t.columns cells))) :
    (c.answer E order s).map (·.rows) = (d.answer E other s).map (·.rows) := by
  rw [Clauses.answer, Clauses.answer, ← filtered, Option.map_bind, Option.map_bind]
  apply Option.bind_congr
  intro t kept
  obtain ⟨whole, found, columns, within⟩ := filtered_subset E kept
  have each : ∀ frame ∈ t.rows.map (Frame.row t.columns ·),
      c.outputs E order t.columns (s.under frame) = d.outputs E other t.columns (s.under frame) := by
    intro frame member
    obtain ⟨cells, inside, rfl⟩ := List.mem_map.mp member
    rw [← columns]
    exact outputs whole found cells (within cells inside)
  have sorts : sorted E order = sorted E other := by
    unfold sorted
    rw [← List.isEmpty_map (f := OrderKey.direction), directions, List.isEmpty_map]
  have dedups : c.deduplicated E = d.deduplicated E := by
    unfold Clauses.deduplicated
    rw [distinct]
  simp only [Function.comp_apply, Clauses.frames, plain, plain', Bool.false_eq_true, if_false,
    Option.bind_some, mapM_congr each, sorts, dedups, Option.map_map]
  rfl

theorem outputs_same {order other : List (OrderKey D)} {columns : List Column} {r : Scope D}
    (cells : c.items.mapM (Item.cells r) = d.items.mapM (Item.cells r))
    (keys : ∀ row, (order.mapM fun k : OrderKey D => k.value (c.names columns) row r) =
      other.mapM fun k : OrderKey D => k.value (d.names columns) row r)
    (on_ : c.onMeanings = d.onMeanings) :
    c.outputs E order columns r = d.outputs E other columns r := by
  rw [Clauses.outputs, Clauses.outputs, cells, on_]
  simp only [keys]

/-- One item, one ORDER BY key. -/
def itemMeaning : SelectItem → Item D
  | .unnamedExpr e => .expr e (E.nameOf e) (exprMeaning E e)
  | .exprWithAlias e alias_ => .expr e alias_.folded (exprMeaning E e)
  | .qualifiedWildcard name => .qualifiedWildcard name
  | .wildcard => .wildcard

def keyMeaning (k : OrderByExpr) : OrderKey D := ⟨k.expr, exprMeaning E k.expr, k.asc, k.nullsFirst⟩

theorem itemMeanings_eq (items : List SelectItem) :
    itemMeanings E items = items.map (itemMeaning E) := by
  induction items with
  | nil => rfl
  | cons item rest ih =>
    cases item <;> rw [itemMeanings, ih] <;> rfl

theorem orderMeanings_eq (keys : List OrderByExpr) :
    orderMeanings E keys = keys.map (keyMeaning E) := by
  induction keys with
  | nil => rfl
  | cons k rest ih =>
    obtain ⟨e, asc, nullsFirst⟩ := k
    rw [orderMeanings, ih]
    rfl

/-- The scope of a row of a query's FROM clause. -/
def RowOf (s : Scope D) (with_ : Option With) (from_ : List TableWithJoins) (r : Scope D) : Prop :=
  ∃ inner t cells, withMeaning E with_ s = some inner ∧ E.source inner from_ = some t ∧
    cells ∈ t.rows ∧ r = inner.under (.row t.columns cells)

theorem rowOf_isRow {s : Scope D} {with_ : Option With} {from_ : List TableWithJoins} :
    ∀ r, RowOf E s with_ from_ r → IsRow r := by
  rintro _ ⟨inner, t, cells, _, _, _, rfl⟩
  exact ⟨inner, t.columns, cells, rfl⟩

section
variable {R : Scope D → Prop} (rows : ∀ r, R r → IsRow r) {x y : Expr}
  (same : SameIn R (exprMeaning E x) (exprMeaning E y))
include rows same

theorem slot_same (slot : Slot) :
    SameIn R (exprMeaning E (slot.fill x)) (exprMeaning E (slot.fill y)) := by
  cases slot with
  | fixed e => exact .refl _
  | hole p => exact plug_same E rows same p

theorem item_cells {r : Scope D} (within : R r) (item : ItemSlot) :
    Item.cells r (itemMeaning E (item.fill x)) = Item.cells r (itemMeaning E (item.fill y)) := by
  rcases item with item | ⟨p, _ | alias_⟩
  · rfl
  · exact congrArg (Option.map _) ((plug_same E rows same p).value r within)
  · exact congrArg (Option.map _) ((plug_same E rows same p).value r within)

theorem item_aggregates (item : ItemSlot) :
    (itemMeaning E (item.fill x)).aggregates = (itemMeaning E (item.fill y)).aggregates := by
  rcases item with item | ⟨p, _ | alias_⟩
  · rfl
  · exact (plug_same E rows same p).aggregates
  · exact (plug_same E rows same p).aggregates

theorem key_value (plain : Computed x) (plain' : Computed y) {r : Scope D} (within : R r)
    (k : SortSlot) (names : List String) (row : List D) :
    (keyMeaning E (k.fill x)).value names row r = (keyMeaning E (k.fill y)).value names row r := by
  obtain ⟨e | p, asc, nullsFirst⟩ := k
  · rfl
  have read : ∀ {z : Expr}, Computed z →
      (keyMeaning E (SortSlot.fill z ⟨.hole p, asc, nullsFirst⟩)).value names row r =
        (exprMeaning E (p.plug z)).value r := by
    intro z computed
    have here := plug_computed computed p
    unfold OrderKey.value
    split
    · next found => exact absurd found (here.name _)
    · next found _ => exact absurd (found.symm.trans here.position) nofun
    · next found _ => exact absurd (found.symm.trans here.position) nofun
    · rfl
  rw [read plain, read plain', (plug_same E rows same p).value r within]

end

theorem queryAnswer_rows (bind : Scope D → Option (Scope D))
    (body : List (OrderKey D) → Answer D) (order : List (OrderKey D))
    (limit offset : Option (Meaning D)) :
    (queryAnswer E bind body order limit offset s).map (·.rows) =
      (bind s).bind fun inner => ((body order inner).map (·.rows)).bind fun rows =>
        (boundOf E limit inner).bind fun most => (boundOf E offset inner).map fun skipped =>
          cut most skipped rows := by
  unfold queryAnswer
  rw [Option.map_bind]
  apply Option.bind_congr
  intro inner _
  rw [Function.comp_apply, Option.map_bind, Option.bind_map]
  apply Option.bind_congr
  intro t _
  rw [Function.comp_apply, Function.comp_apply, Option.map_bind]
  apply Option.bind_congr
  intro most _
  rw [Function.comp_apply, Option.map_map]
  rfl

section
variable (Q : Enclosing) {x y : Expr} {inner : Scope D}

theorem select_filtered (bound : withMeaning E Q.with_ s = some inner)
    (same : SameIn (RowOf E s Q.with_ Q.from_) (exprMeaning E x) (exprMeaning E y)) :
    (clauses E (Q.select x)).filtered E inner = (clauses E (Q.select y)).filtered E inner := by
  have slots : ∀ slot : Slot, SameIn (RowOf E s Q.with_ Q.from_) (exprMeaning E (slot.fill x))
      (exprMeaning E (slot.fill y)) := slot_same E (rowOf_isRow E) same
  refine filtered_same E ?_ ?_ ?_
  · rfl
  · simp only [Enclosing.select, clauses]
    cases Q.selection with
    | none => rfl
    | some slot =>
      have flags := slots slot
      simp only [Option.map_some, optionMeaning, Option.any_some, Meaning.spans,
        flags.aggregates, flags.windows]
  · intro t found cells member
    simp only [Enclosing.select, clauses]
    cases Q.selection with
    | none => rfl
    | some slot =>
      simp only [Option.map_some, optionMeaning, passes]
      rw [(slots slot).value _ ⟨inner, t, cells, bound, found, member, rfl⟩]

theorem select_grouped
    (same : SameIn (RowOf E s Q.with_ Q.from_) (exprMeaning E x) (exprMeaning E y)) :
    (clauses E (Q.select x)).grouped (orderMeanings E (Q.orderBy.map (·.fill x))) =
      (clauses E (Q.select y)).grouped (orderMeanings E (Q.orderBy.map (·.fill y))) := by
  have items : (Q.items.map (·.fill x)).any (fun i => (itemMeaning E i).aggregates) =
      (Q.items.map (·.fill y)).any fun i => (itemMeaning E i).aggregates := by
    rw [List.any_map, List.any_map]
    exact congrArg Q.items.any (funext fun item => item_aggregates E (rowOf_isRow E) same item)
  have keys : (Q.orderBy.map (·.fill x)).any (fun k => (exprMeaning E k.expr).aggregates) =
      (Q.orderBy.map (·.fill y)).any fun k => (exprMeaning E k.expr).aggregates := by
    rw [List.any_map, List.any_map]
    exact congrArg Q.orderBy.any
      (funext fun k => (slot_same E (rowOf_isRow E) same k.slot).aggregates)
  simp only [Clauses.grouped, clauses, Enclosing.select, itemMeanings_eq, orderMeanings_eq]
  rw [List.any_map (f := itemMeaning E), List.any_map (f := itemMeaning E),
    List.any_map (f := keyMeaning E), List.any_map (f := keyMeaning E)]
  exact congrArg₂ (· || ·) (congrArg (_ || ·) items) keys

theorem fill_directions :
    (orderMeanings E (Q.orderBy.map (·.fill x))).map OrderKey.direction =
      (orderMeanings E (Q.orderBy.map (·.fill y))).map OrderKey.direction := by
  simp only [orderMeanings_eq, List.map_map]
  rfl

theorem answer_filter {distinct : Distinct} {projection : List SelectItem}
    {from_ : List TableWithJoins} {selection other : Option Expr} {groupBy : GroupByExpr}
    {having : Option Expr} {order : List (OrderKey D)}
    (filtered : (clauses E ⟨distinct, projection, from_, selection, groupBy, having⟩).filtered E
      inner = (clauses E ⟨distinct, projection, from_, other, groupBy, having⟩).filtered E inner) :
    (clauses E ⟨distinct, projection, from_, selection, groupBy, having⟩).answer E order inner =
      (clauses E ⟨distinct, projection, from_, other, groupBy, having⟩).answer E order inner := by
  rw [Clauses.answer, Clauses.answer, filtered]
  rfl

theorem select_names (aliased : ∀ p alias_, .hole p alias_ ∈ Q.items → alias_.isSome = true)
    {columns : List Column} :
    (clauses E (Q.select x)).names columns = (clauses E (Q.select y)).names columns := by
  simp only [Clauses.names, clauses, Enclosing.select, itemMeanings_eq, List.map_map,
    List.flatMap_map]
  apply List.flatMap_congr
  rintro (item | ⟨p, _ | alias_⟩) member
  · rfl
  · cases aliased p none member
  · rfl

theorem select_outputs (bound : withMeaning E Q.with_ s = some inner) {t : Table D}
    {cells : List D} (found : E.source inner Q.from_ = some t) (member : cells ∈ t.rows)
    (plain : Computed x) (plain' : Computed y)
    (same : SameIn (RowOf E s Q.with_ Q.from_) (exprMeaning E x) (exprMeaning E y))
    (named : Q.Named) :
    (clauses E (Q.select x)).outputs E (orderMeanings E (Q.orderBy.map (·.fill x))) t.columns
        (inner.under (.row t.columns cells)) =
      (clauses E (Q.select y)).outputs E (orderMeanings E (Q.orderBy.map (·.fill y))) t.columns
        (inner.under (.row t.columns cells)) := by
  have within : RowOf E s Q.with_ Q.from_ (inner.under (.row t.columns cells)) :=
    ⟨inner, t, cells, bound, found, member, rfl⟩
  apply outputs_same
  · simp only [clauses, Enclosing.select, itemMeanings_eq, List.map_map, List.mapM_map]
    exact mapM_congr fun item _ => item_cells E (rowOf_isRow E) same within item
  · intro row
    simp only [orderMeanings_eq, List.map_map, List.mapM_map]
    obtain none_ | aliased := named
    · rw [none_]
      rfl
    rw [select_names E Q aliased]
    exact mapM_congr fun k _ => key_value E (rowOf_isRow E) same plain plain' within k _ row
  · rfl

end

/-- Two expressions that agree in every row of a query's FROM clause leave it the same rows,
wherever in its WHERE they stand; and in its list and ORDER BY, unless it groups its rows. -/
theorem fill_same (Q : Enclosing) {x y : Expr} (plain : Computed x) (plain' : Computed y)
    (same : SameIn (RowOf E s Q.with_ Q.from_) (exprMeaning E x) (exprMeaning E y))
    (named : Q.Named)
    (place : Q.OnlyFilters ∨
      (clauses E (Q.select x)).grouped (orderMeanings E (Q.orderBy.map (·.fill x))) = false) :
    (queryMeaning E (Q.fill x) s).map (·.rows) = (queryMeaning E (Q.fill y) s).map (·.rows) := by
  rw [Enclosing.fill, Enclosing.fill, queryMeaning, queryMeaning, queryAnswer_rows,
    queryAnswer_rows]
  apply Option.bind_congr
  intro inner bound
  rw [bodyMeaning, bodyMeaning]
  congr 1
  obtain only | plain_ := place
  · have filtered := select_filtered E Q bound same
    unfold Enclosing.select at filtered ⊢
    rw [Enclosing.items_fixed only x y] at filtered ⊢
    rw [Enclosing.orderBy_fixed only x y]
    exact congrArg (Option.map _) (answer_filter E filtered)
  · exact answer_same E (select_filtered E Q bound same) rfl (fill_directions E Q) plain_
      ((select_grouped E Q same).symm.trans plain_)
      fun t found cells member => select_outputs E Q bound found member plain plain' same named

end

end PgCatalog.Semantics
