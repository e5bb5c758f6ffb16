import Mathlib.Order.MinMax
import PgCatalog.Library.Text
import PgCatalog.Replace.BooleanScalar
import PgCatalog.ScalarToCte.Grouping
import PgCatalog.Sql.Mentions

/-! `rewrite_correlated_limit_one_subquery_to_max`: the largest of a column for an arbitrary
one, and which subqueries it leaves alone. -/
namespace PgCatalog.Replace

open Sql Library Semantics

/-- `limits_to_one_row_unordered`: exactly `LIMIT 1`. -/
def limitsToOneRowUnordered : Query → Bool
  | ⟨_, _, [], some (.value (.number n _)), none⟩ => n = "1"
  | _ => false

/-- `contains_aggregate_call`, anywhere inside. -/
def containsAggregateCall (e : Expr) : Bool :=
  e.visited.any fun
    | .function f => ScalarToCte.isAggregate f
    | _ => false

/-- The lower-cased name a FROM item adds to the local ones, where it is looked for. -/
def relationName : TableFactor → Option String
  | .table _ (some alias_) _ => some alias_.name.value.toLower
  | .table name none _ => (lastIdent name).map (·.value.toLower)
  | .derived _ _ (some alias_) | .nestedJoin _ (some alias_) => some alias_.name.value.toLower
  | _ => none

def localNames (from_ : List TableWithJoins) : List String :=
  from_.flatMap fun table =>
    (table.relation :: table.joins.map (·.relation)).filterMap relationName

/-- The expressions that are inspected for columns. -/
def inspected (sel : Select) : List Expr :=
  visitedOption sel.selection ++ (sel.projection.filterMap itemExpr).flatMap Expr.visited

/-- A column path that starts with another name. -/
def startsOutside (names : List String) : Expr → Bool
  | .compoundIdentifier (first :: _) => first.value.toLower ∉ names
  | _ => false

/-- `references_outer_column`. -/
def referencesOuterColumn (sel : Select) : Bool :=
  (inspected sel).any (startsOutside (localNames sel.from_))

def correlatedLimitOneProjection (q : Query) : Option Expr :=
  if !limitsToOneRowUnordered q then none
  else
    match q.body with
    | .select ⟨.no, [item], from_, selection, .expressions [], none⟩ =>
      match itemExpr item with
      | some projected =>
        if containsAggregateCall projected then none
        else if !referencesOuterColumn ⟨.no, [item], from_, selection, .expressions [], none⟩ then
          none
        else some projected
      | none => none
    | _ => none

def maxName : ObjectName := [.identifier (Ident.new "max")]

/-- `wrap_in_max`. -/
def wrapInMax (e : Expr) : Expr :=
  .function ⟨maxName, .list false [.unnamed (.expr e)] [], none, none, []⟩

def projectingOnly (e : Expr) : SetExpr → SetExpr
  | .select ⟨distinct, _, from_, selection, groupBy, having⟩ =>
    .select ⟨distinct, [.unnamedExpr e], from_, selection, groupBy, having⟩
  | body => body

/-- What the visitor leaves of one expression. -/
def limitOneToMax : Expr → Expr
  | .subquery ⟨with_, body, orderBy, limit, offset⟩ =>
    match correlatedLimitOneProjection ⟨with_, body, orderBy, limit, offset⟩ with
    | some projection =>
      .subquery ⟨with_, projectingOnly (wrapInMax projection) body, orderBy, none, offset⟩
    | none => .subquery ⟨with_, body, orderBy, limit, offset⟩
  | e => e

def rewriteCorrelatedLimitOneSubqueryToMax (q : Query) : Query := q.replaced limitOneToMax

/-- One projected expression that calls no aggregate, of a SELECT without DISTINCT, GROUP BY and
HAVING. -/
def OneColumn (sel : Select) (e : Expr) : Prop :=
  ∃ item from_ selection, sel = ⟨.no, [item], from_, selection, .expressions [], none⟩ ∧
    itemExpr item = some e ∧ containsAggregateCall e = false

theorem projection_eq_some {q : Query} {e : Expr} :
    correlatedLimitOneProjection q = some e ↔ limitsToOneRowUnordered q = true ∧
      ∃ sel, q.body = .select sel ∧ OneColumn sel e ∧ referencesOuterColumn sel = true := by
  unfold correlatedLimitOneProjection
  constructor
  · intro accepted
    split at accepted
    · cases accepted
    · next limits =>
      split at accepted
      · next item from_ selection body =>
        split at accepted
        · next projected found =>
          split at accepted
          · cases accepted
          · next plain =>
            split at accepted
            · cases accepted
            · next outer =>
              obtain rfl := Option.some.inj accepted
              simp only [Bool.not_eq_true, Bool.not_eq_false'] at limits plain outer
              exact ⟨by simpa using limits, _, body, ⟨item, from_, selection, rfl, found, plain⟩,
                by simpa using outer⟩
        · cases accepted
      · cases accepted
  · rintro ⟨limits, _, body, ⟨item, from_, selection, rfl, found, plain⟩, outer⟩
    rw [limits, body]
    simp only [Bool.not_true, Bool.false_eq_true, if_false, found, plain, outer]

theorem limits_cases {q : Query} (limits : limitsToOneRowUnordered q = true) :
    q.orderBy = [] ∧ (∃ long, q.limit = some (.value (.number "1" long))) ∧ q.offset = none := by
  unfold limitsToOneRowUnordered at limits
  split at limits
  · obtain rfl := of_decide_eq_true limits
    exact ⟨rfl, ⟨_, rfl⟩, rfl⟩
  · cases limits

/-- A clause that decides which row is the one, or another LIMIT. -/
def OtherClause (q : Query) : Prop :=
  q.orderBy ≠ [] ∨ q.offset ≠ none ∨ (∀ long, q.limit ≠ some (.value (.number "1" long))) ∨
    ∀ sel, q.body = .select sel →
      sel.distinct ≠ .no ∨ sel.groupBy ≠ .expressions [] ∨ sel.having ≠ none

/-- Every qualified column is of a FROM clause inside the subquery. -/
def OwnColumns (q : Query) : Prop :=
  ∀ bound path, .column bound path ∈ q.mentions → 2 ≤ path.length →
    path.dropLast.map Ident.folded ∈ bound

def LeavesAlone (q : Query) : Prop :=
  OtherClause q ∨ OwnColumns q → limitOneToMax (.subquery q) = .subquery q

/-- A subquery whose own columns are taken for outer ones: some column path starts neither with
an alias nor with the unqualified name of a table of FROM. -/
def Mistaken (q : Query) : Prop :=
  OwnColumns q ∧ limitsToOneRowUnordered q = true ∧ ∃ sel e, q.body = .select sel ∧
    OneColumn sel e ∧ ∃ first rest, .compoundIdentifier (first :: rest) ∈ inspected sel ∧
      first.value.toLower ∉ localNames sel.from_

theorem referencesOuterColumn_iff (sel : Select) : referencesOuterColumn sel = true ↔
    ∃ first rest, .compoundIdentifier (first :: rest) ∈ inspected sel ∧
      first.value.toLower ∉ localNames sel.from_ := by
  unfold referencesOuterColumn
  rw [List.any_eq_true]
  constructor
  · rintro ⟨e, member, starts⟩
    unfold startsOutside at starts
    split at starts
    · exact ⟨_, _, member, of_decide_eq_true starts⟩
    · cases starts
  · rintro ⟨first, rest, member, outside⟩
    exact ⟨_, member, decide_eq_true outside⟩

/-- What is rewritten is changed: its LIMIT is gone. -/
theorem limitOneToMax_changes {q : Query} {e : Expr}
    (accepted : correlatedLimitOneProjection q = some e) :
    limitOneToMax (.subquery q) ≠ .subquery q := by
  obtain ⟨with_, body, orderBy, limit, offset⟩ := q
  obtain ⟨_, ⟨long, limited⟩, _⟩ := limits_cases (projection_eq_some.mp accepted).1
  dsimp only at limited
  subst limited
  simp only [limitOneToMax, accepted]
  intro same
  cases (Query.mk.inj (Expr.subquery.inj same)).2.2.2.1

theorem limitOneToMax_keeps {q : Query} (refused : correlatedLimitOneProjection q = none) :
    limitOneToMax (.subquery q) = .subquery q := by
  obtain ⟨with_, body, orderBy, limit, offset⟩ := q
  simp only [limitOneToMax, refused]

/-- The subqueries that should stay do, except the mistaken ones. -/
theorem leavesAlone_iff (q : Query) : LeavesAlone q ↔ ¬Mistaken q := by
  constructor
  · rintro alone ⟨own, limits, sel, e, body, column, outside⟩
    have outer := (referencesOuterColumn_iff sel).mpr outside
    have accepted := projection_eq_some.mpr ⟨limits, sel, body, column, outer⟩
    exact limitOneToMax_changes accepted (alone (.inr own))
  · intro fine kept
    refine limitOneToMax_keeps (Option.eq_none_iff_forall_ne_some.mpr fun e accepted => ?_)
    obtain ⟨limits, sel, body, column, outer⟩ := projection_eq_some.mp accepted
    rcases kept with other | own
    · obtain ⟨ordered, ⟨long, limited⟩, skipped⟩ := limits_cases limits
      obtain ⟨item, from_, selection, rfl, _, _⟩ := column
      rcases other with other | other | other | other
      · exact other ordered
      · exact other skipped
      · exact other long limited
      · rcases other _ body with other | other | other <;> exact other rfl
    · exact fine ⟨own, limits, sel, e, body, column, (referencesOuterColumn_iff sel).mp outer⟩

/-- The call `max(<e>)` without its operand. -/
def maxShape : CallShape := { name := maxName, args := .list false [.expr none] [] }

section
variable {D : Type} (E : Engine D)

/-- What is known of `max` and of `LIMIT 1`: the largest of values is one of them, and of none
it is NULL. -/
structure Maxes : Prop where
  aggregates : E.aggregates maxName = true
  largest : ∀ values : List D, ∃ d, E.aggregate maxShape (values.map fun v => [some v]) = some d ∧
    (values = [] → d = E.null) ∧ (values ≠ [] → d ∈ values)
  one : ∀ long d, E.operator (.value (.number "1" long)) [] = some d → E.bound d = some (some 1)

/-- An expression that looks at one row and gives one value for it. -/
def OneValue (e : Expr) : Prop :=
  (exprMeaning E e).spans = false ∧ ∀ r v, (exprMeaning E e).value r = some v → E.unfold [v] = [[v]]

/-- In every row of an enclosing query where the subquery has a value, what replaces it has one
that the subquery could have: NULL where no row passes WHERE, else the column's value in one
that does; the same where no more than one does. -/
def PicksAdmissible (q : Query) (e : Expr) : Prop :=
  ∀ (s : Scope D) columns cells d,
    (exprMeaning E (.subquery q)).value (s.under (.row columns cells)) = some d →
    ∃ inner t d', withMeaning E q.with_ (s.under (.row columns cells)) = some inner ∧
      (∀ sel, q.body = .select sel → (clauses E sel).filtered E inner = some t) ∧
      (exprMeaning E (limitOneToMax (.subquery q))).value (s.under (.row columns cells)) = some d' ∧
      (t.rows = [] → d' = E.null) ∧
      (t.rows ≠ [] → ∃ row ∈ t.rows,
        (exprMeaning E e).value (inner.under (.row t.columns row)) = some d') ∧
      (t.rows.length ≤ 1 → d' = d)

variable {E}

theorem max_meaning (e : Expr) :
    exprMeaning E (wrapInMax e) = call E (wrapInMax e) maxShape [exprMeaning E e] := rfl

theorem max_aggregates (max : Maxes E) (e : Expr) :
    (exprMeaning E (wrapInMax e)).aggregates = true := by
  rw [max_meaning, call]
  simp only [maxShape, Option.isSome_none, Bool.false_eq_true, if_false, max.aggregates, if_true]

/-- Over the rows of a group, `max` is the aggregate of their values. -/
theorem max_value (max : Maxes E) (e : Expr) (inner : Scope D) (t : Table D) :
    (exprMeaning E (wrapInMax e)).value (inner.under (.group t.columns t.rows fun _ => none)) =
      E.aggregate maxShape (t.rows.map fun cells =>
        [(exprMeaning E e).value (inner.under (.row t.columns cells))]) := by
  rw [max_meaning, call]
  simp only [maxShape, Option.isSome_none, Bool.false_eq_true, if_false, max.aggregates, if_true,
    keyed, Scope.under, Option.none_or, List.map_cons, List.map_nil]

/-- In a row, a literal LIMIT 1 bounds by one. -/
theorem limit_bound (max : Maxes E) {long : Bool} {inner : Scope D} {columns : List Column}
    {cells : List D} {frames : List (Frame D)} {most : Option Nat}
    (row : inner.frames = .row columns cells :: frames)
    (limited : boundOf E (optionMeaning E (some (.value (.number "1" long)))) inner = some most) :
    most = some 1 := by
  obtain ⟨d, value, reads⟩ := Option.bind_eq_some_iff.mp limited
  have operator : E.operator (.value (.number "1" long)) [] = some d := by
    rw [← value, exprMeaning, operation]
    simp only [keyed, row, List.map_nil]
  exact Option.some.inj (reads.symm.trans (max.one long d operator))

theorem single_take {A : Type} (f : A → D) (rows : List A) :
    E.single ((rows.map fun a => [f a]).take 1) = some (rows.head?.elim E.null f) := by
  cases rows <;> rfl

section
variable {item : SelectItem} {e : Expr} {from_ : List TableWithJoins} {selection : Option Expr}
  {inner : Scope D} {t : Table D}

/-- The value of a row for its cells; there is none of a group. -/
def rowValue (v : List D → D) : Frame D → D
  | .row _ cells => v cells
  | .group _ _ _ => E.null

/-- Row by row a projection of one value has the values of its column. -/
theorem column_rows (found : itemExpr item = some e) (one : OneValue E e)
    (kept : (clauses E ⟨.no, [item], from_, selection, .expressions [], none⟩).filtered E inner =
      some t) {a : Table D}
    (answered : (clauses E ⟨.no, [item], from_, selection, .expressions [], none⟩).answer E [] inner =
      some a) :
    ∃ v : List D → D,
      (∀ cells ∈ t.rows, (exprMeaning E e).value (inner.under (.row t.columns cells)) =
        some (v cells)) ∧ a.rows = t.rows.map fun cells => [v cells] := by
  obtain ⟨name, items⟩ := item_meaning E found
  have plain : (exprMeaning E e).aggregates = false := (Bool.or_eq_false_iff.mp one.1).1
  have ungrouped : (clauses E ⟨.no, [item], from_, selection, .expressions [], none⟩).grouped [] =
      false := by
    have first : (itemMeanings E [item]).any Item.aggregates = false := by
      rw [items, List.any_cons, Item.aggregates, plain]
      rfl
    change ((itemMeanings E [item]).any Item.aggregates || false) = false
    rw [first]
    rfl
  have framed := plain_frames E .no [item] from_ selection [] inner t
  rw [ungrouped, if_neg Bool.false_ne_true] at framed
  have valued := answer_value E _ items kept framed answered
  rw [List.forall_mem_map] at valued
  have inhabited : Nonempty D := ⟨E.null⟩
  choose! v value using valued
  refine ⟨v, value, ?_⟩
  have rows := single_unordered E _ (v := rowValue (E := E) v) items rfl kept framed
    (List.forall_mem_map.mpr value) (List.forall_mem_map.mpr fun cells member =>
      one.2 _ _ (value cells member))
  rw [answered, List.map_map] at rows
  exact Option.some.inj rows

/-- The largest of the values of a column in the rows that pass WHERE is the one row of what
replaces it. -/
theorem max_rows (max : Maxes E) (one : OneValue E e) {v : List D → D}
    (kept : (clauses E ⟨.no, [item], from_, selection, .expressions [], none⟩).filtered E inner =
      some t)
    (value : ∀ cells ∈ t.rows, (exprMeaning E e).value (inner.under (.row t.columns cells)) =
      some (v cells)) :
    ∃ d, (t.rows = [] → d = E.null) ∧ (t.rows ≠ [] → d ∈ t.rows.map v) ∧
      ((clauses E ⟨.no, [.unnamedExpr (wrapInMax e)], from_, selection, .expressions [],
        none⟩).answer E [] inner).map (·.rows) = some [[d]] := by
  obtain ⟨d, largest, none_, some_⟩ := max.largest (t.rows.map v)
  rw [List.map_eq_nil_iff] at none_
  have chosen : t.rows ≠ [] → d ∈ t.rows.map v := fun rows =>
    some_ fun empty => rows (List.map_eq_nil_iff.mp empty)
  refine ⟨d, none_, chosen, ?_⟩
  have grouped : (clauses E ⟨.no, [.unnamedExpr (wrapInMax e)], from_, selection, .expressions [],
      none⟩).grouped [] = true := by
    change ((exprMeaning E (wrapInMax e)).aggregates || false || false) = true
    rw [max_aggregates max]
    rfl
  have framed := plain_frames E .no [.unnamedExpr (wrapInMax e)] from_ selection [] inner t
  rw [grouped, if_pos rfl] at framed
  have kept' : (clauses E ⟨.no, [.unnamedExpr (wrapInMax e)], from_, selection, .expressions [],
      none⟩).filtered E inner = some t := kept
  have read : (exprMeaning E (wrapInMax e)).value
      (inner.under (.group t.columns t.rows fun _ => none)) = some d := by
    rw [max_value max, ← largest, List.map_map]
    refine congrArg _ (List.map_congr_left fun cells member => ?_)
    rw [value cells member]
    rfl
  have unfolds : E.unfold [d] = [[d]] := by
    by_cases empty : t.rows = []
    · rw [none_ empty]
      exact E.unfold_truth none
    · obtain ⟨cells, member, rfl⟩ := List.mem_map.mp (chosen empty)
      exact one.2 _ _ (value cells member)
  exact single_unordered E _ (v := fun _ => d) rfl rfl kept' framed
    (List.forall_mem_singleton.mpr read) (List.forall_mem_singleton.mpr unfolds)

end

/-- What replaces a subquery picks a value the subquery could have. -/
theorem picks_admissible (max : Maxes E) {q : Query} {e : Expr} (one : OneValue E e)
    (accepted : correlatedLimitOneProjection q = some e) : PicksAdmissible E q e := by
  intro s columns cells d valued
  obtain ⟨limits, sel, body, ⟨item, from_, selection, rfl, found, _⟩, _⟩ :=
    projection_eq_some.mp accepted
  obtain ⟨with_, body', orderBy, limit, offset⟩ := q
  obtain ⟨ordered, ⟨long, limited⟩, skipped⟩ := limits_cases limits
  dsimp only at body ordered limited skipped
  subst body ordered limited skipped
  obtain ⟨whole, answered, valued⟩ := Option.bind_eq_some_iff.mp valued
  rw [queryMeaning, queryAnswer, bodyMeaning] at answered
  obtain ⟨inner, bound, answered⟩ := Option.bind_eq_some_iff.mp answered
  obtain ⟨a, selected, answered⟩ := Option.bind_eq_some_iff.mp answered
  obtain ⟨most, limited, answered⟩ := Option.bind_eq_some_iff.mp answered
  obtain ⟨skipped, started, rfl⟩ := Option.map_eq_some_iff.mp answered
  obtain rfl := limit_bound max (with_frames E bound) limited
  obtain rfl := Option.some.inj started
  obtain ⟨t, kept, _⟩ := Option.bind_eq_some_iff.mp selected
  obtain ⟨v, value, rows⟩ := column_rows found one kept selected
  obtain ⟨d', none_, chosen, maxed⟩ := max_rows max one kept value
  obtain ⟨b, answered', alone⟩ := Option.map_eq_some_iff.mp maxed
  have first : d = t.rows.head?.elim E.null v := by
    have taken : E.single ((a.rows.drop 0).take 1) = some d := valued
    rw [List.drop_zero, rows, single_take] at taken
    exact (Option.some.inj taken).symm
  have replaced : limitOneToMax (.subquery ⟨with_, .select ⟨.no, [item], from_, selection,
      .expressions [], none⟩, [], some (.value (.number "1" long)), none⟩) =
      .subquery ⟨with_, .select ⟨.no, [.unnamedExpr (wrapInMax e)], from_, selection,
        .expressions [], none⟩, [], none, none⟩ := by
    simp only [limitOneToMax, accepted, projectingOnly]
  refine ⟨inner, t, d', bound, ?_, ?_, none_, ?_, ?_⟩
  · rintro sel same
    cases same
    exact kept
  · rw [replaced]
    change ((queryMeaning E _ _).bind fun t => E.single t.rows) = _
    rw [queryMeaning, queryAnswer, bound, Option.bind_some, bodyMeaning, orderMeanings, answered',
      Option.bind_some]
    change E.single (b.rows.drop 0) = some d'
    rw [alone]
    rfl
  · intro some_
    obtain ⟨row, member, rfl⟩ := List.mem_map.mp (chosen some_)
    exact ⟨row, member, value row member⟩
  · intro few
    rw [first]
    cases rows : t.rows with
    | nil => exact none_ rows
    | cons row rest =>
      rw [rows, List.length_cons] at few
      obtain rfl := List.length_eq_zero_iff.mp (Nat.le_zero.mp (Nat.le_of_succ_le_succ few))
      have only := chosen (by rw [rows]; exact List.cons_ne_nil _ _)
      rw [rows] at only
      exact List.mem_singleton.mp only

end

def larger : Semantics.Cell → List (Option Semantics.Cell) → Semantics.Cell
  | .truth none, [some d] => d
  | .number m, [some (.number n)] => .number (max m n)
  | best, _ => best

def largestOf (rows : List (List (Option Semantics.Cell))) : Semantics.Cell := rows.foldl larger (.truth none)

theorem larger_mem (best v : Semantics.Cell) : larger best [some v] ∈ [best, v] := by
  cases best with
  | truth t => cases t <;> simp [larger]
  | number m =>
    cases v with
    | truth t => simp [larger]
    | number n =>
      rcases max_choice m n with same | same <;> simp [larger, same]

theorem foldl_larger_mem (best : Semantics.Cell) (values : List Semantics.Cell) :
    (values.map fun v => [some v]).foldl larger best ∈ best :: values := by
  induction values generalizing best with
  | nil => exact List.mem_cons_self
  | cons v rest ih =>
    rw [List.map_cons, List.foldl_cons]
    rcases List.mem_cons.mp (ih (larger best [some v])) with same | later
    · rw [same]
      rcases List.mem_cons.mp (larger_mem best v) with kept | taken
      · rw [kept]
        exact List.mem_cons_self
      · rw [List.mem_singleton.mp taken]
        exact List.mem_cons_of_mem _ List.mem_cons_self
    · exact List.mem_cons_of_mem _ (List.mem_cons_of_mem _ later)

open Semantics.Cell in
/-- The natural numbers with their largest. -/
def naturalsMax : Engine Semantics.Cell where
  ofTruth := naturals.ofTruth
  truth := naturals.truth
  number := naturals.number
  operator := naturals.operator
  aggregates name := naturals.aggregates name || name = maxName
  aggregate shape rows :=
    if shape = maxShape then some (largestOf rows) else naturals.aggregate shape rows
  window := naturals.window
  unfold := naturals.unfold
  sameRow := naturals.sameRow
  sameExpr := naturals.sameExpr
  before := naturals.before
  bound := naturals.bound
  arrayOf := naturals.arrayOf
  source := naturals.source
  nameOf := naturals.nameOf
  combine := naturals.combine
  values := naturals.values
  fixpoint := naturals.fixpoint
  truth_ofTruth := naturals.truth_ofTruth
  ofTruth_truth := naturals.ofTruth_truth
  literal_zero := naturals.literal_zero
  literal_one := naturals.literal_one
  both_truths := naturals.both_truths
  both_short := naturals.both_short
  compared := naturals.compared
  null_compared := naturals.null_compared
  number_gt := naturals.number_gt
  number_eq := naturals.number_eq
  counts := by decide
  count_rows rows := by
    have apart : countShape ≠ maxShape := by decide
    rw [if_neg apart]
    exact naturals.count_rows rows
  unfold_number := naturals.unfold_number
  unfold_truth := naturals.unfold_truth

theorem naturals_maxes : Maxes naturalsMax where
  aggregates := by decide
  largest values := by
    refine ⟨largestOf (values.map fun v => [some v]), rfl, ?_, ?_⟩
    · rintro rfl
      rfl
    · intro some_
      match values, some_ with
      | v :: rest, _ => exact foldl_larger_mem v rest
  one long d read := by
    have value : d = .number 1 := (Option.some.inj read).symm
    rw [value]
    rfl

/-- `SELECT pg_catalog.pg_class.oid FROM pg_catalog.pg_class LIMIT 1`. -/
def schemaQualified : Query :=
  let quoted (name : String) : Ident := ⟨name, some '"'⟩
  ⟨none, .select ⟨.no,
      [.unnamedExpr (.compoundIdentifier [quoted "pg_catalog", quoted "pg_class", quoted "oid"])],
      [⟨.table [.identifier (quoted "pg_catalog"), .identifier (quoted "pg_class")] none none, []⟩],
      none, .expressions [], none⟩,
    [], some oneExpr, none⟩

theorem schema_mistaken : Mistaken schemaQualified := by
  refine ⟨?_, rfl, _, _, rfl, ⟨_, _, _, rfl, rfl, rfl⟩, ⟨"pg_catalog", some '"'⟩,
    [⟨"pg_class", some '"'⟩, ⟨"oid", some '"'⟩], List.mem_cons_self, ?_⟩
  · intro bound path member _
    have mentioned : Mention.column bound path = .column [["pg_catalog", "pg_class"], ["pg_class"]]
        [⟨"pg_catalog", some '"'⟩, ⟨"pg_class", some '"'⟩, ⟨"oid", some '"'⟩] := by
      rcases List.mem_cons.mp member with same | member
      · exact same
      · cases List.mem_singleton.mp member
    cases mentioned
    decide
  · intro inside
    have same : "pg_catalog".toLower = "pg_class".toLower := List.mem_singleton.mp inside
    have chars := congrArg String.toList same
    rw [toList_toLower, toList_toLower] at chars
    exact absurd chars (by decide)

end PgCatalog.Replace
