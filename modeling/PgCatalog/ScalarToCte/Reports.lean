import PgCatalog.ScalarToCte.Aggregates

/-! Select lists of columns and correlated aggregates over one FROM entry, and the query that the
rewriter makes of them: a CTE, a LEFT JOIN and a column for each aggregate. -/
namespace PgCatalog.ScalarToCte

open Sql

inductive Listed where
  | column (e : Expr) (alias_ : Option Ident)
  | aggregate (a : ScalarAggregate) (alias_ : Option Ident)

/-- An expression in a select list, under an alias or not. -/
def listItem (e : Expr) : Option Ident → SelectItem
  | none => .unnamedExpr e
  | some alias_ => .exprWithAlias e alias_

def Listed.item : Listed → SelectItem
  | .column e alias_ => listItem e alias_
  | .aggregate a alias_ => listItem (.subquery a.query) alias_

/-- A call by the name `count`. -/
def counts (f : Function) : Bool := (lastIdent f.name).any (·.value.toLower = "count")

/-- The column that takes the place of an aggregate. -/
def ScalarAggregate.reference (a : ScalarAggregate) (cte : Ident) : Expr :=
  if counts a.call then coalesceZero (.compoundIdentifier [cte, .new "col"])
  else .compoundIdentifier [cte, .new "col"]

/-- The select list afterwards; `n` aggregates were lifted before. -/
def shownItems (n : Nat) : List Listed → List SelectItem
  | [] => []
  | .column e alias_ :: rest => listItem e alias_ :: shownItems n rest
  | .aggregate a alias_ :: rest =>
    .exprWithAlias (a.reference (cteName (n + 1))) (alias_.getD (subqueryAlias (n + 1))) ::
      shownItems (n + 1) rest

def liftedCtes (outerAliases : List Ident) (n : Nat) : List Listed → List Cte
  | [] => []
  | .column _ _ :: rest => liftedCtes outerAliases n rest
  | .aggregate a _ :: rest =>
    makeCte (cteName (n + 1)) (a.lifted outerAliases) :: liftedCtes outerAliases (n + 1) rest

def liftedJoins (outerAliases : List Ident) (n : Nat) : List Listed → List Join
  | [] => []
  | .column _ _ :: rest => liftedJoins outerAliases n rest
  | .aggregate a _ :: rest =>
    buildLeftJoin (cteName (n + 1)) (a.pairs outerAliases) [] ::
      liftedJoins outerAliases (n + 1) rest

def liftedCount : List Listed → Nat
  | [] => 0
  | .column _ _ :: rest => liftedCount rest
  | .aggregate _ _ :: rest => liftedCount rest + 1

/-- A WITH clause of these CTEs, none where there are none. -/
def withCtes : List Cte → Option With
  | [] => none
  | ctes => some ⟨false, ctes⟩

/-- `SELECT items FROM entry WHERE selection`. -/
structure Report where
  items : List Listed
  relation : TableFactor
  joins : List Join
  selection : Option Expr

namespace Report
variable (r : Report)

def select : Select :=
  ⟨.no, r.items.map Listed.item, [⟨r.relation, r.joins⟩], r.selection, .expressions [], none⟩

def query : Query := ⟨none, .select r.select, [], none, none⟩

def outerAliases : List Ident := collectOuterAliases [⟨r.relation, r.joins⟩]

def liftedSelect : Select :=
  ⟨.no, shownItems 0 r.items, [⟨r.relation, r.joins ++ liftedJoins r.outerAliases 0 r.items⟩],
    r.selection, .expressions [], none⟩

def liftedQuery : Query :=
  ⟨withCtes (liftedCtes r.outerAliases 0 r.items), .select r.liftedSelect, [], none, none⟩

/-- Plain tables in FROM, plain columns and correlated aggregates in the select list. -/
structure Plain : Prop where
  tables : ∀ factor ∈ tableFactors [⟨r.relation, r.joins⟩], ∃ name alias_,
    factor = .table name alias_ none
  columns : ∀ e alias_, .column e alias_ ∈ r.items → isColumn e = true
  aggregates : ∀ a alias_, .aggregate a alias_ ∈ r.items → a.Correlated r.outerAliases

end Report

theorem appendCte_withCtes (ctes : List Cte) (cte : Cte) :
    appendCte (withCtes ctes) cte = withCtes (ctes ++ [cte]) := by
  cases ctes <;> rfl

section
variable (host : Host) {outerAliases : List Ident} {depth : Nat}

/-- The state of the rewriter after so many lifted subqueries. -/
def liftedState (relation : TableFactor) (n : Nat) (ctes : List Cte) (joins : List Join) :
    Lifting :=
  ⟨⟨n, n, 0⟩, withCtes ctes, [⟨relation, joins⟩]⟩

theorem stepRewriter_run {α : Type} (step : StateM ScalarToCte α) (l : Lifting) :
    (stepRewriter step).run l =
      ((step.run l.rewriter).1, { l with rewriter := (step.run l.rewriter).2 }) := rfl

theorem pushCteAndJoin_run (visit : Visit) (info : CorrelatedInfo) (l : Lifting) :
    (pushCteAndJoin visit info).run l = ((),
      { rewriter := ((visitBody visit info).run l.rewriter).2
        with_ := appendCte l.with_ (makeCte info.cteIdent ((visitBody visit info).run l.rewriter).1)
        from_ := addJoin l.from_ info }) := rfl

/-- A correlated aggregate in the select list is lifted. -/
theorem rewriteExpr_aggregate {a : ScalarAggregate} (plain : a.Correlated outerAliases)
    (deep : nesting a.query ≤ depth) (relation : TableFactor) (n : Nat) (ctes : List Cte)
    (joins : List Join) :
    (rewriteExpr host (visitQuery host depth) outerAliases (.subquery a.query)).run
        (liftedState relation n ctes joins) =
      (a.reference (cteName (n + 1)), liftedState relation (n + 1)
        (ctes ++ [makeCte (cteName (n + 1)) (a.lifted outerAliases)])
        (joins ++ [buildLeftJoin (cteName (n + 1)) (a.pairs outerAliases) []])) := by
  have lifted : (analyseScalar host outerAliases (.unnamedExpr (.subquery a.query))).run ⟨n, n, 0⟩ =
      (some (correlatedInfo host none outerAliases a.query a.select (cteName (n + 1))),
        ⟨n, n + 1, 0⟩) :=
    analyseScalar_lifts rfl (fun enclosed => absurd enclosed (Nat.lt_irrefl 0))
      (standsAlone_lifted plain host none _)
  have body := visitBody_lifted plain host none (cteName (n + 1)) deep ⟨n, n + 1, 0⟩
  have analysed : (stepRewriter (analyseScalar host outerAliases
      (.unnamedExpr (.subquery a.query)))).run (liftedState relation n ctes joins) =
      (some (correlatedInfo host none outerAliases a.query a.select (cteName (n + 1))),
        ⟨⟨n, n + 1, 0⟩, withCtes ctes, [⟨relation, joins⟩]⟩) := by
    rw [stepRewriter_run]
    change ((analyseScalar _ _ _).run ⟨n, n, 0⟩ |>.1, _) = _
    rw [lifted]
    rfl
  have pushed : (pushCteAndJoin (visitQuery host depth)
      (correlatedInfo host none outerAliases a.query a.select (cteName (n + 1)))).run
        ⟨⟨n, n + 1, 0⟩, withCtes ctes, [⟨relation, joins⟩]⟩ =
      ((), ⟨⟨n, n + 1, 0⟩,
        withCtes (ctes ++ [makeCte (cteName (n + 1)) (a.lifted outerAliases)]),
        [⟨relation, joins ++ [buildLeftJoin (cteName (n + 1)) (a.pairs outerAliases) []]⟩]⟩) := by
    rw [pushCteAndJoin_run]
    simp only [body, appendCte_withCtes, addJoin, outerOnly_lifted plain]
    rfl
  change ((stepRewriter (analyseScalar host outerAliases
    (.unnamedExpr (.subquery a.query)))) >>= _).run _ = _
  rw [StateT.run_bind, analysed]
  change (pushCteAndJoin _ _ >>= _).run _ = _
  rw [StateT.run_bind, pushed]
  rfl

theorem rewriteItem_column {e : Expr} (column : isColumn e = true) (alias_ : Option Ident)
    (l : Lifting) :
    (rewriteItem host (visitQuery host depth) outerAliases (listItem e alias_)).run l =
      (listItem e alias_, l) := by
  rw [rewriteItem_plain]
  · rfl
  · intro x expr
    cases alias_ <;> cases expr <;> exact column_plain column

theorem rewriteItem_aggregate {a : ScalarAggregate} (plain : a.Correlated outerAliases)
    (deep : nesting a.query ≤ depth) (alias_ : Option Ident) (relation : TableFactor) (n : Nat)
    (ctes : List Cte) (joins : List Join) :
    (rewriteItem host (visitQuery host depth) outerAliases
        (listItem (.subquery a.query) alias_)).run (liftedState relation n ctes joins) =
      (.exprWithAlias (a.reference (cteName (n + 1))) (alias_.getD (subqueryAlias (n + 1))),
        liftedState relation (n + 1)
          (ctes ++ [makeCte (cteName (n + 1)) (a.lifted outerAliases)])
          (joins ++ [buildLeftJoin (cteName (n + 1)) (a.pairs outerAliases) []])) := by
  have lifted := rewriteExpr_aggregate host plain deep relation n ctes joins
  cases alias_ with
  | none =>
    have unnamed : ∀ (e : Expr) (l : Lifting),
        (rewriteItem host (visitQuery host depth) outerAliases (.unnamedExpr e)).run l =
          let (e', l') := (rewriteExpr host (visitQuery host depth) outerAliases e).run l
          (if l.rewriter.converted < l'.rewriter.converted then
            .exprWithAlias e' (subqueryAlias l'.rewriter.converted) else .unnamedExpr e', l') := by
      intro e l
      rw [rewriteItem]
      rfl
    rw [listItem, unnamed, lifted]
    change (if n < n + 1 then _ else _, _) = _
    rw [if_pos (Nat.lt_succ_self n)]
    rfl
  | some alias_ =>
    change (rewriteExpr _ _ _ _ >>= _).run (liftedState relation n ctes joins) = _
    rw [StateT.run_bind, lifted]
    rfl

/-- The walk over a select list: what it shows afterwards, and what it added. -/
theorem rewriteItems_run (relation : TableFactor) {items : List Listed}
    (columns : ∀ e alias_, .column e alias_ ∈ items → isColumn e = true)
    (aggregates : ∀ a alias_, .aggregate a alias_ ∈ items →
      a.Correlated outerAliases ∧ nesting a.query ≤ depth) (n : Nat) (ctes : List Cte)
    (joins : List Join) :
    ((items.map Listed.item).mapM (rewriteItem host (visitQuery host depth) outerAliases)).run
        (liftedState relation n ctes joins) =
      (shownItems n items, liftedState relation (n + liftedCount items)
        (ctes ++ liftedCtes outerAliases n items) (joins ++ liftedJoins outerAliases n items)) := by
  induction items generalizing n ctes joins with
  | nil =>
    rw [liftedCtes, liftedJoins, List.append_nil, List.append_nil]
    rfl
  | cons item rest ih =>
    have later := ih (fun e alias_ member => columns e alias_ (List.mem_cons_of_mem _ member))
      fun a alias_ member => aggregates a alias_ (List.mem_cons_of_mem _ member)
    rw [List.map_cons, List.mapM_cons, StateT.run_bind]
    cases item with
    | column e alias_ =>
      have first := @rewriteItem_column host outerAliases depth e
        (columns e alias_ List.mem_cons_self) alias_ (liftedState relation n ctes joins)
      rw [Listed.item, first]
      change StateT.run (List.mapM _ _ >>= _) (liftedState relation n ctes joins) = _
      rw [StateT.run_bind, later]
      rfl
    | aggregate a alias_ =>
      obtain ⟨plain, deep⟩ := aggregates a alias_ List.mem_cons_self
      rw [Listed.item, rewriteItem_aggregate host plain deep]
      change StateT.run (List.mapM _ _ >>= _) (liftedState relation (n + 1) _ _) = _
      rw [StateT.run_bind, later, List.append_assoc, List.append_assoc, liftedCount,
        Nat.add_right_comm]
      rfl

/-- Once the walk has left no subquery, the closing passes only group. -/
theorem visitProjection_settled (visit : Visit) (sel : Select) {projection : List SelectItem}
    {l l' : Lifting}
    (walked : (sel.projection.mapM (rewriteItem host visit outerAliases)).run l = (projection, l'))
    (none_ : ∀ x ∈ visitedItems projection, isSubquery x = false) :
    (visitProjection host visit outerAliases sel).run l =
      (injectGroupBy { sel with projection, from_ := l'.from_ }, l') := by
  have items := fun item (member : item ∈ projection) e expr x inside =>
    none_ x (mem_visitedItems member e expr x inside)
  have again : (projection.mapM (rewriteItem host visit outerAliases)).run l' =
      (projection, l') := by
    have same := mapM_eq_pure fun item member =>
      rewriteItem_plain host visit outerAliases (items item member)
    rw [same, List.map_id']
    rfl
  have plain := visitProjection_plain host visit outerAliases { sel with projection } l' none_
  rw [visitProjection_run] at plain ⊢
  rw [again] at plain
  rw [walked]
  exact plain

theorem visitJoins_tables (visit : Visit) {joins : List Join}
    (tables : ∀ j ∈ joins, ∃ name alias_, j.relation = .table name alias_ none) :
    visitJoins visit joins = pure joins := by
  induction joins with
  | nil => rfl
  | cons j rest ih =>
    obtain ⟨⟨name, alias_, table⟩, later⟩ := List.forall_mem_cons.mp tables
    obtain ⟨relation, kind, constraint⟩ := j
    obtain rfl := table
    rw [visitJoins, ih later]
    rfl

theorem visitFrom_tables (visit : Visit) {relation : TableFactor} {joins : List Join}
    (tables : ∀ factor ∈ tableFactors [⟨relation, joins⟩], ∃ name alias_,
      factor = .table name alias_ none) :
    visitFrom visit [⟨relation, joins⟩] = pure [⟨relation, joins⟩] := by
  have all : tableFactors [⟨relation, joins⟩] = relation :: joins.map (·.relation) :=
    List.append_nil _
  rw [all, List.forall_mem_cons, List.forall_mem_map] at tables
  obtain ⟨⟨name, alias_, rfl⟩, later⟩ := tables
  rw [visitFrom, List.mapM_cons, visitEntry, visitJoins_tables visit later]
  rfl

end

section
variable (host : Host)

/-- A SELECT whose FROM clause and borrowed columns are left as they are. -/
theorem visitSelect_run (visit : Visit) (with_ : Option With) {sel : Select}
    (visited : visitFrom visit sel.from_ = pure sel.from_)
    (qualified : qualifyOuterColumnsInProjectionSubqueries host sel = sel) (s : ScalarToCte) :
    (visitSelect host visit with_ sel).run s =
      let shown := (visitProjection host visit (collectOuterAliases sel.from_) sel).run
        ⟨s, with_, sel.from_⟩
      ((shown.2.with_, shown.1), shown.2.rewriter) := by
  obtain ⟨_, _, _, _, _, _⟩ := sel
  rw [visitSelect, visited, pure_bind, qualified]
  rfl

/-- No column of the subquery is without its table's name, so none is taken for an outer one. -/
theorem qualifyOuterColumns_aggregate {outerAliases : List Ident} {a : ScalarAggregate}
    (plain : a.Correlated outerAliases) (outer : List BoundRelation) :
    qualifyOuterColumnsInSubquery host outer a.query = a.query := by
  have qualified : ∀ x ∈ visitedOption a.selection, ∀ id, x ≠ .identifier id := by
    intro x member
    obtain ⟨left, right, rfl⟩ | ⟨c, conjunct, inside⟩ := visited_conjuncts member
    · exact nofun
    · obtain ⟨_, reads⟩ | ⟨_, p, paired, spelled⟩ := conjunct_cases plain conjunct
      · rintro id rfl
        cases ((reads _ inside).2 rfl).choose_spec
      · rintro id rfl
        obtain rfl | rfl := spelled
        · simp [Expr.visited] at inside
        · simp [Expr.visited] at inside
  obtain ⟨call, table, alias_, selection⟩ := a
  cases selection with
  | none =>
    simp only [qualifyOuterColumnsInSubquery, ScalarAggregate.query, ScalarAggregate.select]
    cases resolvableRelations host (aliased table alias_) <;> rfl
  | some pred =>
    have same : ∀ inner, qualifyColumnsTheEnclosingQueryDeclares pred inner outer = pred := by
      intro inner
      refine pred.replaced_fixed fun y member => ?_
      cases y with
      | identifier id => exact absurd rfl (qualified _ member id)
      | _ => rfl
    simp only [qualifyOuterColumnsInSubquery, ScalarAggregate.query, ScalarAggregate.select]
    cases resolvableRelations host (aliased table alias_) with
    | none => rfl
    | some inner =>
      dsimp only
      rw [same inner]
      split <;> rfl

variable {r : Report} (plain : r.Plain)
include plain

theorem qualifyOuterColumns_report :
    qualifyOuterColumnsInProjectionSubqueries host r.select = r.select := by
  have items : ∀ outer, (r.items.map Listed.item).map
      (mapItem (qualifyOuterColumnsInSubqueriesOf host outer)) = r.items.map Listed.item := by
    intro outer
    rw [List.map_map]
    refine List.map_congr_left fun item member => ?_
    have kept : ∀ {e : Expr} {alias_ : Option Ident},
        qualifyOuterColumnsInSubqueriesOf host outer e = e →
        mapItem (qualifyOuterColumnsInSubqueriesOf host outer) (listItem e alias_) =
          listItem e alias_ := by
      intro e alias_ same
      cases alias_ with
      | none => exact congrArg SelectItem.unnamedExpr same
      | some alias_ => exact congrArg (SelectItem.exprWithAlias · alias_) same
    cases item with
    | column e alias_ =>
      refine kept ?_
      have column := plain.columns e alias_ member
      cases e <;> first | rfl | cases column
    | aggregate a alias_ =>
      refine kept ?_
      exact congrArg Expr.subquery
        (qualifyOuterColumns_aggregate host (plain.aggregates a alias_ member) outer)
  simp only [qualifyOuterColumnsInProjectionSubqueries, Report.select]
  split
  · rfl
  · rfl
  · rw [items]

omit plain in
theorem nestingItems_listItem (e : Expr) (alias_ : Option Ident) (rest : List SelectItem) :
    nestingItems (listItem e alias_ :: rest) = max (nestingExpr e) (nestingItems rest) := by
  cases alias_ <;> rfl

omit plain in
/-- A subquery in a select list is less deep than the query. -/
theorem nesting_aggregate {a : ScalarAggregate} {alias_ : Option Ident} {items : List Listed}
    (member : .aggregate a alias_ ∈ items) :
    nesting a.query ≤ nestingItems (items.map Listed.item) := by
  induction items with
  | nil => cases member
  | cons first rest ih =>
    have shown : ∃ e alias_, first.item = listItem e alias_ := by
      cases first with
      | column e alias_ => exact ⟨e, alias_, rfl⟩
      | aggregate a alias_ => exact ⟨_, alias_, rfl⟩
    obtain ⟨e, alias_', written⟩ := shown
    rw [List.map_cons, written, nestingItems_listItem]
    obtain rfl | later := List.mem_cons.mp member
    · refine Nat.le_trans (Nat.le_of_eq ?_) (Nat.le_max_left _ _)
      cases alias_ <;> cases alias_' <;> cases written <;> rfl
    · exact Nat.le_trans (ih later) (Nat.le_max_right _ _)

/-- An expression that counts as one plain column where grouping is looked for. -/
def SingleColumn (e : Expr) : Prop :=
  isLiteral e = false ∧ (openParts e).any isAggregateCall = false ∧
    (openParts e).countP isColumn = 1

omit plain in
theorem column_single {e : Expr} (column : isColumn e = true) : SingleColumn e := by
  cases e <;> first | exact ⟨rfl, rfl, rfl⟩ | cases column

omit plain in
theorem reference_single (a : ScalarAggregate) (cte : Ident) : SingleColumn (a.reference cte) := by
  rw [ScalarAggregate.reference]
  split
  · have coalesce : isAggregate ⟨[.identifier (.new "coalesce")], .list false
        [.unnamed (.expr (.compoundIdentifier [cte, .new "col"])),
          .unnamed (.expr (.value (.number "0" false)))] [], none, none, []⟩ = false := by
      change decide ("coalesce".toLower ∈ aggregateFunctionNames) = false
      decide +kernel
    refine ⟨rfl, ?_, ?_⟩
    · rw [coalesceZero, openParts, if_neg (by rw [coalesce]; exact Bool.false_ne_true),
        List.any_cons]
      exact Bool.or_eq_false_iff.mpr ⟨coalesce, rfl⟩
    · rw [coalesceZero, openParts, if_neg (by rw [coalesce]; exact Bool.false_ne_true)]
      rfl
  · exact column_single rfl

omit plain in
theorem shown_exprs {items : List Listed}
    (columns : ∀ e alias_, .column e alias_ ∈ items → isColumn e = true) (n : Nat) :
    ∀ item ∈ shownItems n items, ∃ e ∈ itemExpr item, SingleColumn e ∧
      ∀ x ∈ e.visited, isSubquery x = false := by
  induction items generalizing n with
  | nil => exact nofun
  | cons first rest ih =>
    have later := ih fun e alias_ member => columns e alias_ (List.mem_cons_of_mem _ member)
    cases first with
    | column e alias_ =>
      have column := columns e alias_ List.mem_cons_self
      refine List.forall_mem_cons.mpr ⟨⟨e, ?_, column_single column, column_plain column⟩, later n⟩
      cases alias_ <;> rfl
    | aggregate a alias_ =>
      refine List.forall_mem_cons.mpr ⟨⟨_, rfl, reference_single a _, ?_⟩, later (n + 1)⟩
      rw [ScalarAggregate.reference]
      split
      · simp [coalesceZero, Expr.visited, Function.visited, FunctionArguments.visited, visitedArgs,
          FunctionArgExpr.visited, visitedOption, visitedWindow, visitedOrderBy, isSubquery]
      · simp [Expr.visited, isSubquery]

omit plain in
theorem visitedItems_exprs {projection : List SelectItem} {f : Expr → Prop}
    (all : ∀ item ∈ projection, ∃ e ∈ itemExpr item, ∀ x ∈ e.visited, f x) :
    ∀ x ∈ visitedItems projection, f x := by
  induction projection with
  | nil => exact nofun
  | cons item rest ih =>
    obtain ⟨⟨e, expr, first⟩, later⟩ := List.forall_mem_cons.mp all
    intro x member
    cases item with
    | unnamedExpr e' | exprWithAlias e' _ =>
      obtain rfl := Option.some.inj expr
      obtain here | there := List.mem_append.mp member
      · exact first x here
      · exact ih later x there
    | qualifiedWildcard _ | wildcard => cases expr

omit plain in
/-- As many columns as items, and no aggregate: nothing to group by. -/
theorem quiet_singles {projection : List SelectItem} {from_ : List TableWithJoins}
    {selection : Option Expr}
    (all : ∀ item ∈ projection, ∃ e ∈ itemExpr item, SingleColumn e) :
    GroupingQuiet ⟨.no, projection, from_, selection, .expressions [], none⟩ := by
  have counted : (projection.filterMap itemExpr).filter (!isLiteral ·) =
      projection.filterMap itemExpr ∧
      ((projection.filterMap itemExpr).flatMap openParts).any isAggregateCall = false ∧
      ((projection.filterMap itemExpr).flatMap openParts).countP isColumn =
        (projection.filterMap itemExpr).length := by
    induction projection with
    | nil => exact ⟨rfl, rfl, rfl⟩
    | cons item rest ih =>
      obtain ⟨⟨e, expr, literal, calls, single⟩, later⟩ := List.forall_mem_cons.mp all
      obtain ⟨kept, quiet, count⟩ := ih later
      rw [List.filterMap_cons_some expr, List.filter_cons_of_pos (by rw [literal]; rfl), kept,
        List.flatMap_cons, List.any_append, calls, quiet, List.countP_append, single, count,
        List.length_cons, Nat.add_comm]
      exact ⟨rfl, rfl, rfl⟩
  obtain ⟨kept, quiet, count⟩ := counted
  refine .inr (.inr (.inr ?_))
  change (((projection.filterMap itemExpr).filter (!isLiteral ·)).flatMap openParts).any _ = false ∧
    ((projection.filterMap itemExpr).filter (!isLiteral ·)).length ≤ List.countP isColumn
      (((projection.filterMap itemExpr).filter (!isLiteral ·)).flatMap openParts)
  rw [kept]
  exact ⟨quiet, Nat.le_of_eq count.symm⟩

/-- The visit of a report's SELECT, where it reaches as deep as the aggregates are nested. -/
theorem visitSelect_report {depth : Nat}
    (within : nestingItems (r.items.map Listed.item) ≤ depth) :
    (visitSelect host (visitQuery host depth) none r.select).run {} =
      ((withCtes (liftedCtes r.outerAliases 0 r.items), r.liftedSelect),
        ⟨0 + liftedCount r.items, 0 + liftedCount r.items, 0⟩) := by
  have deep : ∀ a alias_, .aggregate a alias_ ∈ r.items →
      a.Correlated r.outerAliases ∧ nesting a.query ≤ depth := fun a alias_ member =>
    ⟨plain.aggregates a alias_ member, Nat.le_trans (nesting_aggregate member) within⟩
  have walked := rewriteItems_run host r.relation plain.columns deep 0 [] r.joins
  have shown := shown_exprs plain.columns 0
  have projection := visitProjection_settled host _ r.select walked
    (visitedItems_exprs fun item member => by
      obtain ⟨e, expr, _, visited⟩ := shown item member
      exact ⟨e, expr, visited⟩)
  have quiet : injectGroupBy r.liftedSelect = r.liftedSelect :=
    grouped_select_iff.mpr ⟨quiet_singles fun item member => by
      obtain ⟨e, expr, single, _⟩ := shown item member
      exact ⟨e, expr, single⟩, rfl⟩
  rw [visitSelect_run host _ none (visitFrom_tables _ plain.tables)
    (qualifyOuterColumns_report host plain)]
  have settled : (visitProjection host (visitQuery host depth)
      (collectOuterAliases r.select.from_) r.select).run ⟨{}, none, r.select.from_⟩ =
        (injectGroupBy r.liftedSelect, liftedState r.relation (0 + liftedCount r.items)
          (liftedCtes r.outerAliases 0 r.items)
          (r.joins ++ liftedJoins r.outerAliases 0 r.items)) := projection
  rw [settled, quiet]
  rfl

/-- The rewriter makes of a report a query with a CTE and a LEFT JOIN for each aggregate. -/
theorem rewrite_report : rewriteScalarSubqueriesToCtes host r.query = r.liftedQuery := by
  have within : nestingItems (r.items.map Listed.item) ≤ nestingBody (.select r.select) :=
    Nat.le_max_left _ _
  change ((visitQuery host (nestingBody (.select r.select) + 1) r.query).run {}).1 = _
  rw [visitQuery]
  change ((visitSetExpr host (visitQuery host _) none (.select r.select) >>= _).run {}).1 = _
  rw [visitSetExpr, StateT.run_bind, StateT.run_bind, visitSelect_report host plain within]
  rfl

end

end PgCatalog.ScalarToCte
