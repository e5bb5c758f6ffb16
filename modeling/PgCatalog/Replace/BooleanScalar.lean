import PgCatalog.Replace.ExistsToCount
import PgCatalog.Semantics.Enclosing

/-! `rewrite_boolean_scalar_subquery_to_exists`, and when the EXISTS has the value of the
scalar subquery it replaces. -/
namespace PgCatalog.Replace

open Sql Library Semantics

/-- `is_boolean_comparison`. -/
def isBooleanComparison : Expr → Bool
  | .binaryOp _ op _ => isComparison op
  | _ => false

def itemExpr : SelectItem → Option Expr
  | .unnamedExpr e => some e
  | .exprWithAlias e _ => some e
  | _ => none

/-- `projection_predicate`: the one comparison a simple SELECT projects. -/
def projectionPredicate : Select → Option Expr
  | ⟨.no, [item], _, _, .expressions [], none⟩ =>
    (itemExpr item).bind fun e => if isBooleanComparison e then some e else none
  | _ => none

def oneExpr : Expr := .value (.number "1" false)

/-- The WHERE clause with the comparison folded in. -/
def withPredicate (selection : Option Expr) (predicate : Expr) : Expr :=
  match selection with
  | some existing => .binaryOp (.nested existing) .and (.nested predicate)
  | none => predicate

def booleanScalarToExists : Expr → Expr
  | .subquery ⟨with_, .select ⟨distinct, projection, from_, selection, groupBy, having⟩, orderBy,
      limit, offset⟩ =>
    match projectionPredicate ⟨distinct, projection, from_, selection, groupBy, having⟩ with
    | some predicate =>
      .exists ⟨with_, .select ⟨distinct, [.unnamedExpr oneExpr], from_,
        some (withPredicate selection predicate), groupBy, having⟩, orderBy, limit, offset⟩ false
    | none =>
      .subquery ⟨with_, .select ⟨distinct, projection, from_, selection, groupBy, having⟩, orderBy,
        limit, offset⟩
  | e => e

def rewriteBooleanScalarSubqueryToExists (q : Query) : Query := q.replaced booleanScalarToExists

theorem predicate_cases {sel : Select} {predicate : Expr}
    (accepted : projectionPredicate sel = some predicate) :
    ∃ item from_ selection left op right,
      sel = ⟨.no, [item], from_, selection, .expressions [], none⟩ ∧
        itemExpr item = some predicate ∧ predicate = .binaryOp left op right ∧
          isComparison op = true := by
  unfold projectionPredicate at accepted
  split at accepted
  · obtain ⟨e, found, accepted⟩ := Option.bind_eq_some_iff.mp accepted
    split at accepted
    · next boolean =>
      obtain rfl := Option.some.inj accepted
      unfold isBooleanComparison at boolean
      split at boolean
      · exact ⟨_, _, _, _, _, _, rfl, found, rfl, boolean⟩
      · cases boolean
    · cases accepted
  · cases accepted

section
variable {D : Type} (E : Engine D)

/-- At most one row of a subquery's FROM clause passes its WHERE clause. -/
def AtMostOne (s : Scope D) : Query → Prop
  | ⟨with_, .select sel, _, _, _⟩ =>
    ∀ inner t, withMeaning E with_ s = some inner →
      (clauses E sel).filtered E inner = some t → t.rows.length ≤ 1
  | _ => True

/-- Whether ORDER BY can be read beside the constant list: row by row, or over all the rows if
it calls an aggregate. -/
def OrderedBeside (order : List (OrderKey D)) (inner : Scope D) (columns : List Column)
    (rows : List (List D)) : Prop :=
  if order.any (·.meaning.aggregates) then
    ∀ k ∈ order, ∃ d, k.value [E.nameOf oneExpr] [E.number 1]
      (inner.under (.group columns rows fun _ => none)) = some d
  else ∀ cells ∈ rows, ∀ k ∈ order, ∃ d, k.value [E.nameOf oneExpr] [E.number 1]
    (inner.under (.row columns cells)) = some d

/-- When the comparison can stand in WHERE: it calls no aggregate and no window function, with
the rest of WHERE it has a truth value in every row of FROM, and ORDER BY does not need it. -/
def Foldable (s : Scope D) : Query → Expr → Prop
  | ⟨with_, .select ⟨_, _, from_, selection, _, _⟩, orderBy, _, _⟩, predicate =>
    (exprMeaning E (withPredicate selection predicate)).spans = false ∧
      ∃ inner t rows, withMeaning E with_ s = some inner ∧ E.source inner from_ = some t ∧
        kept (fun cells => passes E (some (exprMeaning E (withPredicate selection predicate)))
          (inner.under (.row t.columns cells))) t.rows = some rows ∧
        OrderedBeside E (orderMeanings E orderBy) inner t.columns rows
  | _, _ => False

theorem read_truth {p : Option D} {t : Truth} (read : p.bind E.truth = some t) :
    p = some (E.ofTruth t) := by
  obtain ⟨v, rfl, read⟩ := Option.bind_eq_some_iff.mp read
  rw [E.ofTruth_truth v t read]

/-- An AND with a truth value on its left is true if both sides are. -/
theorem both_passes {w p : Option D} {t u : Truth} (left : w.bind E.truth = some t)
    (truths : ∀ v, p = some v → ∃ t, v = E.ofTruth t)
    (read : (E.operator (.binary .and) [w, p]).bind E.truth = some u) :
    u = some true ↔ t = some true ∧ p = some (E.ofTruth (some true)) := by
  rw [read_truth E left] at read
  cases p with
  | none =>
    have short := E.both_short t _ (read_truth E read)
    obtain rfl := E.ofTruth_inj short
    exact ⟨nofun, nofun⟩
  | some v =>
    obtain ⟨q, rfl⟩ := truths v rfl
    rw [E.both_truths, Option.bind_some, E.truth_ofTruth] at read
    obtain rfl := Option.some.inj read
    rw [Truth.both_eq_true, Option.some.injEq]
    exact and_congr_right fun _ => ⟨congrArg E.ofTruth, E.ofTruth_inj⟩

/-- In a row that WHERE has a verdict on, the folded condition holds if WHERE and the comparison
do. -/
theorem fold_passes {selection : Option Expr} {predicate : Expr} {s : Scope D}
    {columns : List Column} {cells : List D} {b b' : Bool}
    (truths : ∀ v, (exprMeaning E predicate).value (s.under (.row columns cells)) = some v →
      ∃ t, v = E.ofTruth t)
    (old : passes E (optionMeaning E selection) (s.under (.row columns cells)) = some b)
    (new : passes E (some (exprMeaning E (withPredicate selection predicate)))
      (s.under (.row columns cells)) = some b') :
    b' = true ↔ b = true ∧ (exprMeaning E predicate).value
      (s.under (.row columns cells)) = some (E.ofTruth (some true)) := by
  obtain ⟨u, read', rfl⟩ := Option.map_eq_some_iff.mp new
  rw [beq_iff_eq]
  cases selection with
  | none =>
    obtain rfl := Option.some.inj old
    have value : (exprMeaning E predicate).value (s.under (.row columns cells)) =
        some (E.ofTruth u) := read_truth E read'
    rw [value, Option.some.injEq]
    exact ⟨fun holds => ⟨rfl, congrArg E.ofTruth holds⟩, fun holds => E.ofTruth_inj holds.2⟩
  | some existing =>
    obtain ⟨t, read, rfl⟩ := Option.map_eq_some_iff.mp old
    rw [beq_iff_eq]
    exact both_passes E read truths read'

variable {from_ : List TableWithJoins} {selection : Option Expr} {predicate : Expr}

/-- The SELECT under the EXISTS. -/
abbrev foldedSelect (from_ : List TableWithJoins) (selection : Option Expr) (predicate : Expr) :
    Select :=
  ⟨.no, [.unnamedExpr oneExpr], from_, some (withPredicate selection predicate), .expressions [],
    none⟩

theorem foldable_iff {distinct : Distinct} {projection : List SelectItem} {groupBy : GroupByExpr}
    {having : Option Expr} {with_ : Option With} {orderBy : List OrderByExpr}
    {limit offset : Option Expr} {s inner : Scope D} (bound : withMeaning E with_ s = some inner) :
    Foldable E s ⟨with_, .select ⟨distinct, projection, from_, selection, groupBy, having⟩, orderBy,
        limit, offset⟩ predicate ↔
      ∃ t, (clauses E (foldedSelect from_ selection predicate)).filtered E inner = some t ∧
        OrderedBeside E (orderMeanings E orderBy) inner t.columns t.rows := by
  have filtered : (clauses E (foldedSelect from_ selection predicate)).filtered E inner =
      if (exprMeaning E (withPredicate selection predicate)).spans then none
      else (E.source inner from_).bind fun t =>
        (kept (fun cells => passes E (some (exprMeaning E (withPredicate selection predicate)))
          (inner.under (.row t.columns cells))) t.rows).map fun rows => ⟨t.columns, rows⟩ := rfl
  rw [filtered]
  constructor
  · rintro ⟨narrow, inner', t, rows, bound', found, passed, ordered⟩
    obtain rfl := Option.some.inj (bound.symm.trans bound')
    rw [narrow, if_neg Bool.false_ne_true, found, Option.bind_some, passed]
    exact ⟨_, rfl, ordered⟩
  · rintro ⟨t, read, ordered⟩
    split at read
    · cases read
    · next narrow =>
      obtain ⟨whole, found, read⟩ := Option.bind_eq_some_iff.mp read
      obtain ⟨rows, passed, rfl⟩ := Option.map_eq_some_iff.mp read
      exact ⟨Bool.eq_false_iff.mpr narrow, inner, whole, rows, bound, found, passed, ordered⟩

theorem folded_grouped (order : List (OrderKey D)) :
    (clauses E (foldedSelect from_ selection predicate)).grouped order =
      order.any (·.meaning.aggregates) := rfl

theorem folded_answer {order : List (OrderKey D)} {inner : Scope D} {t : Table D}
    (kept : (clauses E (foldedSelect from_ selection predicate)).filtered E inner = some t) :
    ((∃ a, (clauses E (foldedSelect from_ selection predicate)).answer E order inner = some a) ↔
      OrderedBeside E order inner t.columns t.rows) ∧
    ∀ a, (clauses E (foldedSelect from_ selection predicate)).answer E order inner = some a →
      a.rows.length = if order.any (·.meaning.aggregates) then 1 else t.rows.length := by
  have framed := plain_frames E .no [.unnamedExpr oneExpr] from_
    (some (withPredicate selection predicate)) order inner t
  rw [folded_grouped] at framed
  unfold OrderedBeside
  split at framed
  · next grouped =>
    obtain ⟨read, rows⟩ := single_answer E _ (v := fun _ => E.number 1) rfl rfl kept framed
      (by simp only [List.forall_mem_singleton]; exact E.literal_one) fun _ _ => E.unfold_number 1
    rw [if_pos grouped, if_pos grouped]
    refine ⟨read.trans List.forall_mem_singleton, fun a answered => ?_⟩
    exact (rows a answered).length_eq
  · next plain =>
    obtain ⟨read, rows⟩ := single_answer E _ (v := fun _ => E.number 1) rfl rfl kept framed
      (by rw [List.forall_mem_map]; exact fun _ _ => E.literal_one) fun _ _ => E.unfold_number 1
    rw [if_neg plain, if_neg plain]
    refine ⟨read.trans List.forall_mem_map, fun a answered => ?_⟩
    rw [(rows a answered).length_eq, List.length_map, List.length_map]

theorem filter_sublist_of {A : Type} {f g : A → Option Bool} {rows : List A}
    (narrows : ∀ a ∈ rows, g a = some true → f a = some true) :
    (rows.filter fun a => g a == some true).Sublist (rows.filter fun a => f a == some true) := by
  have twice : rows.filter (fun a => g a == some true) =
      (rows.filter fun a => f a == some true).filter fun a => g a == some true := by
    rw [List.filter_filter]
    apply List.filter_congr
    intro a member
    cases holds : g a == some true with
    | false => rfl
    | true =>
      rw [narrows a member (beq_iff_eq.mp holds)]
      rfl
  rw [twice]
  exact List.filter_sublist

/-- The folded WHERE keeps those of the rows WHERE keeps in which the comparison holds. -/
theorem folded_rows {items : List SelectItem} {inner : Scope D} {t t' : Table D}
    (truths : ∀ cells v, (exprMeaning E predicate).value (inner.under (.row t.columns cells)) =
      some v → ∃ q, v = E.ofTruth q)
    (old : (clauses E ⟨.no, items, from_, selection, .expressions [], none⟩).filtered E inner =
      some t)
    (new : (clauses E (foldedSelect from_ selection predicate)).filtered E inner = some t') :
    t'.rows.Sublist t.rows ∧ ∀ cells, cells ∈ t'.rows ↔ cells ∈ t.rows ∧
      (exprMeaning E predicate).value (inner.under (.row t.columns cells)) =
        some (E.ofTruth (some true)) := by
  obtain ⟨whole, found, each, rfl⟩ := filtered_some E _ old
  obtain ⟨whole', found', each', rfl⟩ := filtered_some E _ new
  obtain rfl : whole = whole' := Option.some.inj (found.symm.trans found')
  have both : ∀ cells ∈ whole.rows, passes E (some (exprMeaning E
      (withPredicate selection predicate))) (inner.under (.row whole.columns cells)) = some true ↔
        passes E (optionMeaning E selection) (inner.under (.row whole.columns cells)) =
          some true ∧ (exprMeaning E predicate).value (inner.under (.row whole.columns cells)) =
            some (E.ofTruth (some true)) := by
    intro cells member
    obtain ⟨b, verdict⟩ : ∃ b, passes E (optionMeaning E selection)
      (inner.under (.row whole.columns cells)) = some b := each cells member
    obtain ⟨b', verdict'⟩ : ∃ b', passes E (some (exprMeaning E (withPredicate selection predicate)))
      (inner.under (.row whole.columns cells)) = some b' := each' cells member
    rw [verdict, verdict', Option.some.injEq, Option.some.injEq]
    exact fold_passes E (truths cells) verdict verdict'
  constructor
  · have again : ∀ cells ∈ whole.rows, passes E (some (exprMeaning E
        (withPredicate selection predicate))) (inner.under (.row whole.columns cells)) = some true →
          passes E (optionMeaning E selection) (inner.under (.row whole.columns cells)) = some true :=
      fun cells member holds => ((both cells member).mp holds).1
    exact filter_sublist_of again
  · intro cells
    rw [List.mem_filter, List.mem_filter, and_assoc]
    apply and_congr_right
    intro member
    rw [beq_iff_eq, beq_iff_eq]
    exact both cells member

/-- The frames of a SELECT that has no GROUP BY and keeps at most one row. -/
theorem few_frames {distinct : Distinct} {projection : List SelectItem}
    {order : List (OrderKey D)} {inner : Scope D} {t : Table D} (few : t.rows.length ≤ 1) :
    (clauses E ⟨distinct, projection, from_, selection, .expressions [], none⟩).frames E order
        inner t = some [] ∨
      ∃ frame, (clauses E ⟨distinct, projection, from_, selection, .expressions [], none⟩).frames E
        order inner t = some [frame] ∧
          (frame = .group t.columns t.rows (fun _ => none) ∧
            (clauses E ⟨distinct, projection, from_, selection, .expressions [], none⟩).grouped
              order = true ∨
            ∃ cells, t.rows = [cells] ∧ frame = .row t.columns cells) := by
  rw [plain_frames]
  split
  · next grouped => exact .inr ⟨_, rfl, .inl ⟨rfl, grouped⟩⟩
  · match rows : t.rows, few with
    | [], _ => exact .inl rfl
    | [cells], _ => exact .inr ⟨_, rfl, .inr ⟨cells, rfl, rfl⟩⟩

theorem item_meaning {item : SelectItem} (found : itemExpr item = some predicate) :
    ∃ name, itemMeanings E [item] = [.expr predicate name (exprMeaning E predicate)] := by
  cases item with
  | unnamedExpr e =>
    obtain rfl := Option.some.inj found
    exact ⟨_, rfl⟩
  | exprWithAlias e alias_ =>
    obtain rfl := Option.some.inj found
    exact ⟨_, rfl⟩
  | qualifiedWildcard name => cases found
  | wildcard => cases found

theorem fold_spans (calls : (exprMeaning E predicate).aggregates = true) :
    (exprMeaning E (withPredicate selection predicate)).spans = true := by
  cases selection with
  | none => exact Bool.or_eq_true_iff.mpr (.inl calls)
  | some existing =>
    apply Bool.or_eq_true_iff.mpr
    left
    change ((exprMeaning E existing).aggregates || ((exprMeaning E predicate).aggregates || false)) =
      true
    rw [calls, Bool.true_or, Bool.or_true]

theorem filtered_narrow {inner : Scope D} {t : Table D}
    (kept : (clauses E (foldedSelect from_ selection predicate)).filtered E inner = some t) :
    ¬ (exprMeaning E (withPredicate selection predicate)).spans = true := by
  intro spans
  have refused : (clauses E (foldedSelect from_ selection predicate)).filtered E inner = none :=
    if_pos spans
  cases refused.symm.trans kept

/-- What a scalar subquery of one comparison has read on its way to a value that is not NULL:
the comparison, in its one row or over all rows. -/
theorem scalar_value {item : SelectItem} {order : List (OrderKey D)} {inner : Scope D}
    {t a : Table D} {most skipped : Option Nat} {d : D} {left right : Expr} {op : BinaryOperator}
    (found : itemExpr item = some (.binaryOp left op right)) (comparison : isComparison op = true)
    (few : t.rows.length ≤ 1)
    (kept : (clauses E ⟨.no, [item], from_, selection, .expressions [], none⟩).filtered E inner =
      some t)
    (answered : (clauses E ⟨.no, [item], from_, selection, .expressions [], none⟩).answer E order
      inner = some a)
    (valued : E.single (cut most skipped a.rows) = some d) (known : d ≠ E.null) :
    (skipped.getD 0 = 0 ∧ most ≠ some 0) ∧ (∃ q, d = E.ofTruth q) ∧
      ((exprMeaning E (.binaryOp left op right)).aggregates = true ∨
        order.any (·.meaning.aggregates) = true ∨ ∃ cells, t.rows = [cells] ∧
          (exprMeaning E (.binaryOp left op right)).value (inner.under (.row t.columns cells)) =
            some d) := by
  obtain ⟨name, items⟩ := item_meaning E found
  obtain framed | ⟨frame, framed, place⟩ := few_frames E few
  · obtain ⟨_, rows⟩ := single_answer E _ (v := fun _ => E.null) items rfl kept framed nofun nofun
    rw [List.perm_nil.mp (rows a answered)] at valued
    have null : E.single (cut most skipped []) = some E.null := by
      unfold cut
      cases most <;> simp [Engine.single]
    exact absurd (Option.some.inj (valued.symm.trans null)) known
  · obtain ⟨v, value⟩ := answer_value E _ items kept framed answered frame List.mem_cons_self
    obtain ⟨q, rfl⟩ : ∃ q, v = E.ofTruth q := by
      obtain ⟨rfl, _⟩ | ⟨cells, _, rfl⟩ := place
      · exact (E.compared _ _ _ _ comparison value).2.2
      · exact (E.compared _ _ _ _ comparison value).2.2
    obtain ⟨_, rows⟩ := single_answer E _ (v := fun _ => E.ofTruth q) items rfl kept framed
      (List.forall_mem_singleton.mpr value) fun _ _ => E.unfold_truth q
    rw [List.perm_singleton.mp (rows a answered), cut_single] at valued
    split at valued
    · next uncut =>
      obtain rfl := Option.some.inj valued
      refine ⟨uncut, ⟨q, rfl⟩, ?_⟩
      obtain ⟨_, grouped⟩ | ⟨cells, only, rfl⟩ := place
      · have calls : (([Item.expr (.binaryOp left op right) name
            (exprMeaning E (.binaryOp left op right))] : List (Item D)).any Item.aggregates ||
              order.any (·.meaning.aggregates)) = true := by
          rw [← items]
          exact grouped
        rw [List.any_cons, List.any_nil, Bool.or_false, Bool.or_eq_true] at calls
        obtain calls | calls := calls
        · exact .inl calls
        · exact .inr (.inl calls)
      · exact .inr (.inr ⟨cells, only, value⟩)
    · exact absurd (Option.some.inj valued).symm known

/-- The value of the EXISTS: whether a row is left of those that pass the folded WHERE. -/
theorem exists_value {s inner : Scope D} {columns : List Column} {cells : List D}
    {with_ : Option With} {item : SelectItem} {orderBy : List OrderByExpr}
    {limit offset : Option Expr} {most skipped : Option Nat}
    (accepted : projectionPredicate ⟨.no, [item], from_, selection, .expressions [], none⟩ =
      some predicate)
    (bound : withMeaning E with_ (s.under (.row columns cells)) = some inner)
    (limited : boundOf E (optionMeaning E limit) inner = some most)
    (started : boundOf E (optionMeaning E offset) inner = some skipped) :
    (exprMeaning E (booleanScalarToExists (.subquery ⟨with_, .select ⟨.no, [item], from_, selection,
        .expressions [], none⟩, orderBy, limit, offset⟩))).value (s.under (.row columns cells)) =
      ((clauses E (foldedSelect from_ selection predicate)).answer E (orderMeanings E orderBy)
        inner).map fun a => E.ofTruth (some !(cut most skipped a.rows).isEmpty) := by
  have becomes : booleanScalarToExists (.subquery ⟨with_, .select ⟨.no, [item], from_, selection,
      .expressions [], none⟩, orderBy, limit, offset⟩) = .exists ⟨with_,
        .select (foldedSelect from_ selection predicate), orderBy, limit, offset⟩ false := by
    simp only [booleanScalarToExists, accepted]
  rw [becomes]
  change (queryMeaning E _ (s.under (.row columns cells))).map _ = _
  rw [queryMeaning, queryAnswer, bound, Option.bind_some, bodyMeaning]
  cases (clauses E (foldedSelect from_ selection predicate)).answer E (orderMeanings E orderBy)
    inner with
  | none => rfl
  | some a =>
    rw [Option.bind_some, limited, Option.bind_some, started, Option.map_some, Option.map_some,
      Option.map_some, beq_false]

/-- Where at most one row passes WHERE, the EXISTS has the value of the scalar subquery exactly if
the comparison can stand in WHERE and the value is not NULL. -/
theorem exists_agrees_iff (s : Scope D) (columns : List Column) (cells : List D)
    {with_ : Option With} {sel : Select} {orderBy : List OrderByExpr} {limit offset : Option Expr}
    (accepted : projectionPredicate sel = some predicate)
    (single : AtMostOne E (s.under (.row columns cells))
      ⟨with_, .select sel, orderBy, limit, offset⟩) {d : D}
    (valued : (exprMeaning E (.subquery ⟨with_, .select sel, orderBy, limit, offset⟩)).value
      (s.under (.row columns cells)) = some d) :
    (exprMeaning E (booleanScalarToExists (.subquery ⟨with_, .select sel, orderBy, limit,
        offset⟩))).value (s.under (.row columns cells)) = some d ↔
      Foldable E (s.under (.row columns cells)) ⟨with_, .select sel, orderBy, limit, offset⟩
        predicate ∧ d ≠ E.null ∧
          ((orderMeanings E orderBy).any (·.meaning.aggregates) = true →
            d = E.ofTruth (some true)) := by
  obtain ⟨item, from_, selection, left, op, right, rfl, found, rfl, comparison⟩ :=
    predicate_cases accepted
  -- what the scalar subquery has read on its way to a value
  obtain ⟨whole, answered, valued⟩ := Option.bind_eq_some_iff.mp valued
  rw [queryMeaning, queryAnswer, bodyMeaning] at answered
  obtain ⟨inner, bound, answered⟩ := Option.bind_eq_some_iff.mp answered
  obtain ⟨a, selected, answered⟩ := Option.bind_eq_some_iff.mp answered
  obtain ⟨most, limited, answered⟩ := Option.bind_eq_some_iff.mp answered
  obtain ⟨skipped, started, rfl⟩ := Option.map_eq_some_iff.mp answered
  obtain ⟨t, kept, _⟩ := Option.bind_eq_some_iff.mp selected
  have few := single inner t bound kept
  have reads := scalar_value E found comparison few kept selected valued
  rw [exists_value E accepted bound limited started, foldable_iff E bound]
  constructor
  · intro same
    obtain ⟨a', answered', rfl⟩ := Option.map_eq_some_iff.mp same
    obtain ⟨t', kept', _⟩ := Option.bind_eq_some_iff.mp answered'
    obtain ⟨ordered, rows⟩ := folded_answer E kept'
    have known : E.ofTruth (some !(cut most skipped a'.rows).isEmpty) ≠ E.null :=
      fun null => by cases E.ofTruth_inj null
    refine ⟨⟨t', kept', ordered.mp ⟨a', answered'⟩⟩, known, fun grouped => ?_⟩
    obtain ⟨uncut, _⟩ := reads known
    have one := rows a' answered'
    rw [if_pos grouped] at one
    obtain ⟨row, only⟩ := List.length_eq_one_iff.mp one
    rw [only, cut_single, if_pos uncut]
    rfl
  · rintro ⟨⟨t', kept', beside⟩, known, grouped⟩
    obtain ⟨ordered, rows⟩ := folded_answer E kept'
    obtain ⟨a', answered'⟩ := ordered.mpr beside
    obtain ⟨uncut, ⟨q, rfl⟩, place⟩ := reads known
    rw [answered', Option.map_some, Option.some.injEq]
    by_cases calls : (orderMeanings E orderBy).any (·.meaning.aggregates) = true
    · have one := rows a' answered'
      rw [if_pos calls] at one
      obtain ⟨row, only⟩ := List.length_eq_one_iff.mp one
      rw [only, cut_single, if_pos uncut, grouped calls]
      rfl
    obtain aggregate | order | ⟨row, only, value⟩ := place
    · exact absurd (fold_spans E aggregate) (filtered_narrow E kept')
    · exact absurd order calls
    have length := rows a' answered'
    rw [if_neg calls] at length
    have truths : ∀ cells v, (exprMeaning E (.binaryOp left op right)).value
        (inner.under (.row t.columns cells)) = some v → ∃ q, v = E.ofTruth q :=
      fun _ _ answered => (E.compared _ _ _ _ comparison answered).2.2
    obtain ⟨within, members⟩ := folded_rows E truths kept kept'
    have few' : a'.rows.length ≤ 1 := length ▸ within.length_le.trans few
    rw [cut_few few', if_pos uncut]
    apply congrArg E.ofTruth
    rcases q with _ | _ | _
    · exact absurd rfl known
    · have none_stays : t'.rows = [] := by
        apply List.eq_nil_iff_forall_not_mem.mpr
        intro row' stays
        obtain ⟨member, holds⟩ := (members row').mp stays
        obtain rfl := List.mem_singleton.mp (only ▸ member)
        cases E.ofTruth_inj (Option.some.inj (value.symm.trans holds))
      have empty : a'.rows = [] := by
        rw [← List.length_eq_zero_iff, length, none_stays, List.length_nil]
      rw [empty]
      rfl
    · have stays : row ∈ t'.rows := (members row).mpr ⟨only ▸ List.mem_cons_self, value⟩
      have some_row : a'.rows ≠ [] := by
        rw [← List.length_pos_iff, length]
        exact List.length_pos_of_mem stays
      rw [List.isEmpty_eq_false_iff.mpr some_row]
      rfl

theorem becomes_exists {with_ : Option With} {sel : Select} {orderBy : List OrderByExpr}
    {limit offset : Option Expr} (accepted : projectionPredicate sel = some predicate) :
    booleanScalarToExists (.subquery ⟨with_, .select sel, orderBy, limit, offset⟩) =
      .exists ⟨with_, .select ⟨sel.distinct, [.unnamedExpr oneExpr], sel.from_,
        some (withPredicate sel.selection predicate), sel.groupBy, sel.having⟩, orderBy, limit,
          offset⟩ false := by
  obtain ⟨distinct, projection, from_, selection, groupBy, having⟩ := sel
  simp only [booleanScalarToExists, accepted]

/-- A scalar subquery of one comparison, over at most one row, is a truth value. -/
theorem scalar_truth (s : Scope D) (columns : List Column) (cells : List D)
    {with_ : Option With} {sel : Select} {orderBy : List OrderByExpr} {limit offset : Option Expr}
    (accepted : projectionPredicate sel = some predicate)
    (single : AtMostOne E (s.under (.row columns cells))
      ⟨with_, .select sel, orderBy, limit, offset⟩) {d : D}
    (valued : (exprMeaning E (.subquery ⟨with_, .select sel, orderBy, limit, offset⟩)).value
      (s.under (.row columns cells)) = some d) : ∃ q, d = E.ofTruth q := by
  obtain ⟨item, from_, selection, left, op, right, rfl, found, rfl, comparison⟩ :=
    predicate_cases accepted
  obtain ⟨whole, answered, valued⟩ := Option.bind_eq_some_iff.mp valued
  rw [queryMeaning, queryAnswer, bodyMeaning] at answered
  obtain ⟨inner, bound, answered⟩ := Option.bind_eq_some_iff.mp answered
  obtain ⟨a, selected, answered⟩ := Option.bind_eq_some_iff.mp answered
  obtain ⟨most, limited, answered⟩ := Option.bind_eq_some_iff.mp answered
  obtain ⟨skipped, started, rfl⟩ := Option.map_eq_some_iff.mp answered
  obtain ⟨t, kept, _⟩ := Option.bind_eq_some_iff.mp selected
  by_cases known : d = E.null
  · exact ⟨none, known⟩
  · exact (scalar_value E found comparison (single inner t bound kept) kept selected valued
      known).2.1

/-- `SELECT <expression> AS value FROM ...`. -/
def projecting (with_ : Option With) (from_ : List TableWithJoins) : Enclosing where
  with_ := with_
  distinct := .no
  items := [.hole .here (some (Ident.new "value"))]
  from_ := from_
  selection := none
  groupBy := .expressions []
  having := none
  orderBy := []
  limit := none
  offset := none

section
variable {s inner : Scope D} {with_ : Option With} {from_ : List TableWithJoins} {x y : Expr}

theorem projecting_filtered {whole : Table D} (found : E.source inner from_ = some whole) :
    (clauses E ((projecting with_ from_).select x)).filtered E inner = some whole := by
  have all : kept (fun _ : List D => some true) whole.rows = some whole.rows :=
    kept_eq_some.mpr ⟨fun _ _ => ⟨true, rfl⟩, (List.filter_eq_self.mpr fun _ _ => rfl).symm⟩
  change (E.source inner from_).bind _ = _
  rw [found, Option.bind_some]
  change (kept (fun _ : List D => some true) whole.rows).map _ = _
  rw [all]
  rfl

theorem projecting_frames (plain : (exprMeaning E x).aggregates = false) (whole : Table D) :
    (clauses E ((projecting with_ from_).select x)).frames E [] inner whole =
      some (whole.rows.map (.row whole.columns ·)) := by
  have ungrouped : (clauses E ((projecting with_ from_).select x)).grouped [] = false := by
    change ((exprMeaning E x).aggregates || false || false) = false
    rw [plain]
    rfl
  rw [Clauses.frames, ungrouped, if_neg Bool.false_ne_true]

theorem projecting_answer (bound : withMeaning E with_ s = some inner) :
    (queryMeaning E ((projecting with_ from_).fill x) s).map (·.rows) =
      ((clauses E ((projecting with_ from_).select x)).answer E [] inner).map (·.rows) := by
  rw [Enclosing.fill, queryMeaning, queryAnswer_rows]
  change ((withMeaning E with_ s).bind fun inner => _) = _
  rw [bound, Option.bind_some, bodyMeaning]
  change (((clauses E ((projecting with_ from_).select x)).answer E [] inner).map (·.rows)).bind
    (fun rows => some rows) = _
  exact Option.bind_fun_some _

/-- Where two expressions leave that projection the same rows, they have the same values. -/
theorem projecting_values (plain : (exprMeaning E x).aggregates = false)
    (plain' : (exprMeaning E y).aggregates = false)
    (truths : ∀ r, Semantics.RowOf E s with_ from_ r → ∃ q, (exprMeaning E x).value r = some (E.ofTruth q))
    (truths' : ∀ r, Semantics.RowOf E s with_ from_ r → ∀ d, (exprMeaning E y).value r = some d →
      ∃ q, d = E.ofTruth q)
    (same : (queryMeaning E ((projecting with_ from_).fill y) s).map (·.rows) =
      (queryMeaning E ((projecting with_ from_).fill x) s).map (·.rows)) :
    ∀ r, Semantics.RowOf E s with_ from_ r → (exprMeaning E y).value r = (exprMeaning E x).value r := by
  rintro _ ⟨inner, whole, cells, bound, found, member, rfl⟩
  have within : ∀ cells ∈ whole.rows, Semantics.RowOf E s with_ from_ (inner.under (.row whole.columns cells)) :=
    fun cells member => ⟨inner, whole, cells, bound, found, member, rfl⟩
  let v (z : Expr) (frame : Frame D) : D := ((exprMeaning E z).value (inner.under frame)).getD E.null
  have rows : ∀ z, (exprMeaning E z).aggregates = false → (∀ cells ∈ whole.rows, ∃ q,
      (exprMeaning E z).value (inner.under (.row whole.columns cells)) = some (E.ofTruth q)) →
      ((clauses E ((projecting with_ from_).select z)).answer E [] inner).map (·.rows) =
        some (whole.rows.map fun cells => [v z (.row whole.columns cells)]) := by
    intro z plain truths
    have read := single_unordered E (clauses E ((projecting with_ from_).select z)) (v := v z) rfl
      rfl (projecting_filtered E found) (projecting_frames E plain whole)
    rw [List.forall_mem_map, List.forall_mem_map, List.map_map] at read
    apply read
    · intro cells member
      obtain ⟨q, value⟩ := truths cells member
      simp only [Position.plug, v, value, Option.getD_some]
    · intro cells member
      obtain ⟨q, value⟩ := truths cells member
      simp only [v, value, Option.getD_some, E.unfold_truth]
  rw [projecting_answer E bound, projecting_answer E bound,
    rows x plain fun cells member => truths _ (within cells member)] at same
  obtain ⟨a, answered, _⟩ := Option.map_eq_some_iff.mp same
  have valued : ∀ cells ∈ whole.rows, ∃ q,
      (exprMeaning E y).value (inner.under (.row whole.columns cells)) = some (E.ofTruth q) := by
    intro cells member
    obtain ⟨d, value⟩ := answer_value E _ rfl (projecting_filtered E found)
      (projecting_frames E plain' whole) answered _ (List.mem_map_of_mem member)
    obtain ⟨q, rfl⟩ := truths' _ (within cells member) d value
    exact ⟨q, value⟩
  rw [rows y plain' valued, Option.some.injEq] at same
  have pointwise := List.map_inj_left.mp same cells member
  obtain ⟨q, value⟩ := truths _ (within cells member)
  obtain ⟨q', value'⟩ := valued cells member
  simp only [v, value, value', Option.getD_some, List.cons.injEq, and_true] at pointwise
  rw [value, value', pointwise]

end

/-- Whether the EXISTS keeps the value of a scalar subquery of one comparison. -/
def KeepsValue (r : Scope D) (q : Query) (predicate : Expr) (d : D) : Prop :=
  Foldable E r q predicate ∧ d ≠ E.null ∧
    ((orderMeanings E q.orderBy).any (·.meaning.aggregates) = true → d = E.ofTruth (some true))

end

/-- `SELECT <left> = <right> FROM pg_class WHERE <selection>`, projected without a name. -/
def comparing (left right : Expr) (selection : Option Expr) : Query :=
  fromPgClass (.unnamedExpr (.binaryOp left .eq right)) selection

/-- The column `"oid"`. -/
def oidExpr : Expr := .identifier ⟨"oid", some '"'⟩

end PgCatalog.Replace
