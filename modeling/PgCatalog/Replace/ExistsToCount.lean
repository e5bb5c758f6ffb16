import PgCatalog.Semantics.Naturals
import PgCatalog.Semantics.Rows
import PgCatalog.Sql.Visit

/-! `rewrite_exists_to_count`, and when a count stands for an EXISTS. -/
namespace PgCatalog.Replace

open Sql Library Semantics

def zeroExpr : Expr := .value (.number "0" false)

/-- `count(*)`. -/
def countCall : Expr :=
  .function ⟨[.identifier (Ident.new "count")], .list false [.unnamed .wildcard] [], none, none, []⟩

def countItem : SelectItem := .unnamedExpr countCall

/-- `simple`: a plain SELECT with no grouping and no HAVING. -/
def simple : SetExpr → Bool
  | .select ⟨_, _, _, _, .expressions [], none⟩ => true
  | _ => false

def counting : SetExpr → SetExpr
  | .select ⟨_, _, from_, selection, groupBy, having⟩ =>
    .select ⟨.no, [countItem], from_, selection, groupBy, having⟩
  | body => body

/-- What the visitor leaves of one expression. -/
def existsToCount : Expr → Expr
  | .exists ⟨with_, body, orderBy, limit, offset⟩ negated =>
    if simple body then
      .binaryOp (.subquery ⟨with_, counting body, orderBy, limit, offset⟩)
        (if negated then .eq else .gt) zeroExpr
    else .exists ⟨with_, body, orderBy, limit, offset⟩ negated
  | e => e

def rewriteExistsToCount (q : Query) : Query := q.replaced existsToCount

section
variable {D : Type} (E : Engine D)

/-- Whether ORDER BY can be read over all rows at once, beside their number. -/
def OrderedOver (order : List (OrderKey D)) (inner : Scope D) (t : Table D) : Prop :=
  ∀ k ∈ order, ∃ d, k.value [E.nameOf countCall] [E.number t.rows.length]
    (inner.under (.group t.columns t.rows fun _ => none)) = some d

/-- Whether the select list has a row just when WHERE keeps one: a list that calls an aggregate
is read once over all the rows, kept or none, any other row by row. -/
def ListFollows (c : Clauses D) (order : List (OrderKey D)) (inner : Scope D) (t : Table D) :
    Prop :=
  if c.grouped order then
    t.rows ≠ [] ↔ GivesRow E c (inner.under (.group t.columns t.rows fun _ => none))
  else t.rows ≠ [] → ∃ cells ∈ t.rows, GivesRow E c (inner.under (.row t.columns cells))

/-- When the number of the rows that WHERE keeps tells whether the subquery has a row: ORDER BY
can be read over all of them, OFFSET skips nothing, LIMIT is not zero, and the select list
follows WHERE. -/
def Counted (s : Scope D) : Query → Prop
  | ⟨with_, .select sel, orderBy, limit, offset⟩ =>
    ∃ inner t, withMeaning E with_ s = some inner ∧ (clauses E sel).filtered E inner = some t ∧
      OrderedOver E (orderMeanings E orderBy) inner t ∧
      (boundOf E (optionMeaning E offset) inner).map (·.getD 0) = some 0 ∧
      boundOf E (optionMeaning E limit) inner ≠ some (some 0) ∧
      ListFollows E (clauses E sel) (orderMeanings E orderBy) inner t
  | _ => False

theorem follows_iff {distinct : Distinct} {projection : List SelectItem}
    {from_ : List TableWithJoins} {selection : Option Expr} {order : List (OrderKey D)}
    {inner : Scope D} {t a : Table D}
    (kept : (clauses E ⟨distinct, projection, from_, selection, .expressions [], none⟩).filtered E
      inner = some t)
    (answered : (clauses E ⟨distinct, projection, from_, selection, .expressions [], none⟩).answer
      E order inner = some a) :
    ListFollows E (clauses E ⟨distinct, projection, from_, selection, .expressions [], none⟩)
      order inner t ↔ (a.rows = [] ↔ t.rows = []) := by
  unfold ListFollows
  split
  · next grouped =>
    have framed : (clauses E ⟨distinct, projection, from_, selection, .expressions [], none⟩).frames
        E order inner t = some [.group t.columns t.rows fun _ => none] := by
      rw [Clauses.frames, if_pos grouped]
      rfl
    rw [answer_eq_nil E _ kept framed answered, List.forall_mem_singleton]
    exact not_iff_comm
  · next plain =>
    have framed : (clauses E ⟨distinct, projection, from_, selection, .expressions [], none⟩).frames
        E order inner t = some (t.rows.map (.row t.columns ·)) := by
      rw [Clauses.frames, if_neg plain]
    rw [answer_eq_nil E _ kept framed answered, List.forall_mem_map]
    constructor
    · intro follows
      refine ⟨fun gives_none => ?_, fun empty cells member => ?_⟩
      · by_contra some_row
        obtain ⟨cells, member, gives⟩ := follows some_row
        exact gives_none cells member gives
      · rw [empty] at member
        cases member
    · intro same some_row
      by_contra gives_none
      exact some_row (same.mp fun cells member gives => gives_none ⟨cells, member, gives⟩)

theorem count_meaning : exprMeaning E countCall = call E countCall countShape [] := rfl

/-- Over all rows of a group, `count(*)` is their number. -/
theorem count_value (inner : Scope D) (t : Table D) :
    (exprMeaning E countCall).value (inner.under (.group t.columns t.rows fun _ => none)) =
      some (E.number t.rows.length) := by
  rw [count_meaning, call]
  simp only [countShape, Option.isSome_none, Bool.false_eq_true, if_false, E.counts, if_true,
    keyed, Scope.under, Option.none_or, List.map_nil]
  rw [← countShape, E.count_rows, List.length_map]

theorem count_aggregates : (exprMeaning E countCall).aggregates = true := by
  rw [count_meaning, call]
  simp only [countShape, Option.isSome_none, Bool.false_eq_true, if_false, E.counts, if_true]

variable {from_ : List TableWithJoins} {selection : Option Expr}

/-- The SELECT that counts. -/
abbrev counted (from_ : List TableWithJoins) (selection : Option Expr) : Clauses D :=
  clauses E ⟨.no, [countItem], from_, selection, .expressions [], none⟩

/-- The ORDER BY values of the one row of a count. -/
abbrev countKeys (order : List (OrderKey D)) (inner : Scope D) (t : Table D) : Option (List D) :=
  order.mapM fun k : OrderKey D =>
    k.value [E.nameOf countCall] [E.number t.rows.length]
      (inner.under (.group t.columns t.rows fun _ => none))

theorem counted_frames (order : List (OrderKey D)) (inner : Scope D) (t : Table D) :
    (counted E from_ selection).frames E order inner t =
      some [.group t.columns t.rows fun _ => none] := by
  have grouped : (counted E from_ selection).grouped order = true := by
    simp only [Clauses.grouped, clauses, countItem, itemMeanings, Item.aggregates,
      List.any_cons, count_aggregates, Bool.true_or, Bool.or_true]
  rw [Clauses.frames, if_pos grouped]
  rfl

theorem counted_outputs (order : List (OrderKey D)) (inner : Scope D) (t : Table D) :
    (counted E from_ selection).outputs E order t.columns
        (inner.under (.group t.columns t.rows fun _ => none)) =
      (countKeys E order inner t).map fun keys => [⟨[E.number t.rows.length], keys, []⟩] := by
  have cells : (counted E from_ selection).items.mapM (Item.cells
      (inner.under (.group t.columns t.rows fun _ => none))) =
      some [[E.number t.rows.length]] := by
    apply mapM_eq_some.mpr
    refine .cons ?_ .nil
    rw [Item.cells, count_value]
    rfl
  rw [Clauses.outputs, cells, Option.bind_some, List.flatten_cons, List.flatten_nil,
    List.append_nil, E.unfold_number, List.mapM_cons, List.mapM_nil]
  change Option.bind (Option.bind (countKeys E order inner t) fun keys => some _) _ = _
  cases countKeys E order inner t with
  | none => rfl
  | some keys => rfl

/-- The counting SELECT has one row, the number of the rows that WHERE keeps. -/
theorem counted_answer (order : List (OrderKey D)) (inner : Scope D) :
    (counted E from_ selection).answer E order inner =
      ((counted E from_ selection).filtered E inner).bind fun t =>
        (countKeys E order inner t).map fun _ =>
          ⟨[⟨[], E.nameOf countCall⟩], [[E.number t.rows.length]]⟩ := by
  unfold Clauses.answer
  apply Option.bind_congr
  intro t _
  rw [counted_frames, Option.bind_some, List.mapM_cons, List.mapM_nil, counted_outputs]
  cases countKeys E order inner t with
  | none => rfl
  | some keys =>
    have alone : sorted E order [(⟨[E.number t.rows.length], keys, []⟩ : Output D)] =
        [⟨[E.number t.rows.length], keys, []⟩] := List.perm_singleton.mp (sorted_perm E order _)
    change some (Table.mk _ (((counted E from_ selection).deduplicated E
      (sorted E order [(⟨[E.number t.rows.length], keys, []⟩ : Output D)])).map _)) = _
    rw [alone]
    rfl

theorem countKeys_some {order : List (OrderKey D)} {inner : Scope D} {t : Table D} :
    (∃ keys, countKeys E order inner t = some keys) ↔ OrderedOver E order inner t :=
  mapM_some_iff

theorem zero_value (s : Scope D) (columns : List Column) (cells : List D) :
    (exprMeaning E zeroExpr).value (s.under (.row columns cells)) = some (E.number 0) :=
  E.literal_zero

/-- The operator a count is compared with zero by. -/
abbrev countOp (negated : Bool) : BinaryOperator := if negated then .eq else .gt

theorem countOp_comparison (negated : Bool) : isComparison (countOp negated) = true := by
  cases negated <;> rfl

theorem count_compared (n : Nat) (negated : Bool) :
    E.operator (.binary (countOp negated)) [some (E.number n), some (E.number 0)] =
      some (E.ofTruth (some (decide (n = 0) == negated))) := by
  cases negated with
  | true =>
    rw [countOp, if_pos rfl, E.number_eq]
    simp only [beq_true]
  | false =>
    rw [countOp, if_neg (Bool.false_ne_true), E.number_gt]
    simp only [beq_false, Nat.pos_iff_ne_zero, ne_eq, decide_not]

/-- The counting subquery has the number of kept rows, unless OFFSET or LIMIT cuts it off. -/
theorem counted_query {with_ : Option With} {orderBy : List OrderByExpr}
    {limit offset : Option Expr} {s inner : Scope D} {t : Table D} {most skipped : Option Nat}
    (bound : withMeaning E with_ s = some inner)
    (kept : (counted E from_ selection).filtered E inner = some t)
    (limited : boundOf E (optionMeaning E limit) inner = some most)
    (started : boundOf E (optionMeaning E offset) inner = some skipped) :
    queryMeaning E ⟨with_, .select ⟨.no, [countItem], from_, selection, .expressions [], none⟩,
        orderBy, limit, offset⟩ s =
      (countKeys E (orderMeanings E orderBy) inner t).map fun _ =>
        ⟨[⟨[], E.nameOf countCall⟩], cut most skipped [[E.number t.rows.length]]⟩ := by
  rw [queryMeaning, queryAnswer, bound, Option.bind_some, bodyMeaning, counted_answer, kept,
    Option.bind_some]
  cases countKeys E (orderMeanings E orderBy) inner t with
  | none => rfl
  | some keys =>
    rw [Option.map_some, Option.bind_some, limited, Option.bind_some, started, Option.map_some,
      Option.map_some]

theorem emptiness_agrees {A B : Type} {many : List A} {rows : List B} (negated : Bool) :
    (decide (many.length = 0) == negated) = (rows.isEmpty == negated) ↔
      (rows = [] ↔ many = []) := by
  cases negated <;> cases many <;> cases rows <;> simp

theorem simple_cases {body : SetExpr} (accepted : simple body = true) :
    ∃ distinct projection from_ selection,
      body = .select ⟨distinct, projection, from_, selection, .expressions [], none⟩ := by
  unfold simple at accepted
  split at accepted
  · exact ⟨_, _, _, _, rfl⟩
  · cases accepted

/-- In a row of the enclosing query, the count compared with zero has the truth value of the
EXISTS exactly when the rows that WHERE keeps tell it. -/
theorem count_agrees_iff (s : Scope D) (columns : List Column) (cells : List D) (q : Query)
    (negated : Bool) (accepted : simple q.body = true) {d : D}
    (valued : (exprMeaning E (.exists q negated)).value (s.under (.row columns cells)) = some d) :
    (exprMeaning E (existsToCount (.exists q negated))).value (s.under (.row columns cells)) =
      some d ↔ Counted E (s.under (.row columns cells)) q := by
  obtain ⟨with_, body, orderBy, limit, offset⟩ := q
  obtain ⟨distinct, projection, from_, selection, rfl⟩ := simple_cases accepted
  -- what the EXISTS has read on its way to a value
  obtain ⟨whole, answered, rfl⟩ := Option.map_eq_some_iff.mp valued
  rw [queryMeaning, queryAnswer, bodyMeaning] at answered
  obtain ⟨inner, bound, answered⟩ := Option.bind_eq_some_iff.mp answered
  obtain ⟨a, selected, answered⟩ := Option.bind_eq_some_iff.mp answered
  obtain ⟨most, limited, answered⟩ := Option.bind_eq_some_iff.mp answered
  obtain ⟨skipped, started, rfl⟩ := Option.map_eq_some_iff.mp answered
  obtain ⟨t, kept, _⟩ := Option.bind_eq_some_iff.mp selected
  have counting : Counted E (s.under (.row columns cells))
      ⟨with_, .select ⟨distinct, projection, from_, selection, .expressions [], none⟩, orderBy,
        limit, offset⟩ ↔
      OrderedOver E (orderMeanings E orderBy) inner t ∧ skipped.getD 0 = 0 ∧ most ≠ some 0 ∧
        (a.rows = [] ↔ t.rows = []) := by
    rw [← follows_iff E kept selected]
    constructor
    · rintro ⟨inner', t', bound', kept', ordered, start, limit_, same⟩
      obtain rfl := Option.some.inj (bound.symm.trans bound')
      obtain rfl := Option.some.inj (kept.symm.trans kept')
      rw [started] at start
      rw [limited] at limit_
      exact ⟨ordered, Option.some.inj start, fun zero => limit_ (congrArg some zero), same⟩
    · rintro ⟨ordered, start, limit_, same⟩
      refine ⟨inner, t, bound, kept, ordered, ?_, ?_, same⟩
      · rw [started, Option.map_some, start]
      · rw [limited]
        exact fun zero => limit_ (Option.some.inj zero)
  have replaced : (exprMeaning E (existsToCount (.exists ⟨with_, .select ⟨distinct, projection,
      from_, selection, .expressions [], none⟩, orderBy, limit, offset⟩ negated))).value
        (s.under (.row columns cells)) =
      E.operator (.binary (countOp negated)) [(queryMeaning E ⟨with_, .select ⟨.no, [countItem],
        from_, selection, .expressions [], none⟩, orderBy, limit, offset⟩
          (s.under (.row columns cells))).bind fun t => E.single t.rows, some (E.number 0)] := by
    rw [← zero_value E s columns cells]
    rfl
  rw [counting, replaced, counted_query E bound kept limited started, ← countKeys_some]
  cases keyed : countKeys E (orderMeanings E orderBy) inner t with
  | none =>
    constructor
    · intro refused
      cases (E.compared _ _ _ _ (countOp_comparison negated) refused).1
    · rintro ⟨⟨keys, found⟩, _⟩
      cases found
  | some keys =>
    rw [Option.map_some, Option.bind_some, cut_single]
    split
    · next uncut =>
      rw [Engine.single, count_compared, ← cut_eq_nil uncut.1 uncut.2, ← emptiness_agrees negated]
      constructor
      · intro same
        exact ⟨⟨keys, rfl⟩, uncut.1, uncut.2,
          Option.some.inj (E.ofTruth_inj (Option.some.inj same))⟩
      · rintro ⟨_, _, _, same⟩
        rw [same]
    · next lost =>
      rw [Engine.single, Engine.null, E.null_compared _ _ (countOp_comparison negated)]
      constructor
      · intro same
        cases E.ofTruth_inj (Option.some.inj same)
      · rintro ⟨_, start, limit_, _⟩
        exact absurd ⟨start, limit_⟩ lost

/-- A subquery without ORDER BY, LIMIT, OFFSET, aggregates and set-returning calls counts. -/
theorem counted_plain {s inner : Scope D} {with_ : Option With} {sel : Select} {t : Table D}
    (bound : withMeaning E with_ s = some inner) (kept : (clauses E sel).filtered E inner = some t)
    (plain : (clauses E sel).grouped [] = false)
    (each : ∀ cells ∈ t.rows, GivesRow E (clauses E sel) (inner.under (.row t.columns cells))) :
    Counted E s ⟨with_, .select sel, [], none, none⟩ := by
  refine ⟨inner, t, bound, kept, nofun, rfl, nofun, ?_⟩
  rw [ListFollows, orderMeanings, plain, if_neg Bool.false_ne_true]
  intro some_row
  obtain ⟨cells, member⟩ := List.exists_mem_of_ne_nil _ some_row
  exact ⟨cells, member, each cells member⟩

end

/-- `SELECT <item> FROM pg_class WHERE <selection>`. -/
def fromPgClass (item : SelectItem) (selection : Option Expr) : Query :=
  ⟨none, .select ⟨.no, [item], [⟨.table pgClass none none, []⟩], selection, .expressions [], none⟩,
    [], none, none⟩

theorem some_row_counted :
    (exprMeaning naturals (existsToCount (.exists (fromPgClass (.unnamedExpr zeroExpr) none)
        false))).value ((catalogOf [.number 1]).under (.row [] [])) = some (.truth (some true)) ↔
      Counted naturals ((catalogOf [.number 1]).under (.row [] []))
        (fromPgClass (.unnamedExpr zeroExpr) none) :=
  count_agrees_iff naturals (catalogOf [.number 1]) [] []
    (fromPgClass (.unnamedExpr zeroExpr) none) false rfl (by decide)

/-- `EXISTS (SELECT count(*) FROM pg_class WHERE FALSE)` is true, and its count is zero. -/
theorem aggregate_not_counted :
    ¬ ∀ (E : Engine Semantics.Cell) (s : Scope Semantics.Cell) (columns : List Column) (cells : List Semantics.Cell) (q : Query)
      (negated : Bool) (d : Semantics.Cell), simple q.body = true →
      (exprMeaning E (.exists q negated)).value (s.under (.row columns cells)) = some d →
      (exprMeaning E (existsToCount (.exists q negated))).value (s.under (.row columns cells)) =
        some d := by
  intro always
  have counted := always naturals (catalogOf [.number 1]) [] []
    (fromPgClass countItem (some (.value (.boolean false)))) false (.truth (some true)) rfl
    (by decide)
  exact absurd counted (by decide)

end PgCatalog.Replace
