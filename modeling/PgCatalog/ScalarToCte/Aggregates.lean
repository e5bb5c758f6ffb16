import PgCatalog.ScalarToCte.Exposed
import PgCatalog.ScalarToCte.Remaining
import PgCatalog.Semantics.Columns
import PgCatalog.Sql.Rewriting

/-! Aggregates over a correlated table: what their subqueries are taken apart into, and the CTE
bodies put together from the parts. -/
namespace PgCatalog.ScalarToCte

open Sql

/-- `(SELECT call FROM table alias WHERE selection)`. -/
structure ScalarAggregate where
  call : Function
  table : ObjectName
  alias_ : Ident
  selection : Option Expr

/-- A relation name as a lifted body has it. -/
def catalogued : ObjectName → ObjectName
  | [part] => pgCatalogName part
  | name => name

/-- A table under an alias. -/
def aliased (name : ObjectName) (alias_ : Ident) : List TableWithJoins :=
  [⟨.table name (some ⟨alias_, []⟩) none, []⟩]

/-- The columns of some expressions are all an alias's, written with it, and no expression looks
beyond its row. -/
def ReadsOnly (alias_ : Ident) (exprs : List Expr) : Prop :=
  ∀ x ∈ exprs, Semantics.isRowwise x = true ∧
    (isColumn x = true → ∃ name, x = .compoundIdentifier [alias_, name])

/-- `outer.column = alias.key`, as the rewriter keeps it. -/
def equation (outer alias_ column key : Ident) : CorrelatedPredicate :=
  ⟨[outer, column], [alias_, key], .eq, false⟩

/-- An equality is written with either side first. -/
def Spells (c : Expr) (p : CorrelatedPredicate) : Prop :=
  c = .binaryOp (.compoundIdentifier p.outer) .eq (.compoundIdentifier p.inner) ∨
    c = .binaryOp (.compoundIdentifier p.inner) .eq (.compoundIdentifier p.outer)

namespace ScalarAggregate
variable (outerAliases : List Ident) (a : ScalarAggregate)

def select : Select :=
  ⟨.no, [.unnamedExpr (.function a.call)], aliased a.table a.alias_, a.selection, .expressions [],
    none⟩

def query : Query := ⟨none, .select a.select, [], none, none⟩

def pairs : List CorrelatedPredicate := subqueryPairs outerAliases a.select

def keys : List (List Ident) := joinKeyPaths (a.pairs outerAliases)

/-- The conjuncts that are no equalities with the enclosing query. -/
def locals : List Expr := (conjuncts a.selection).filter (stays outerAliases)

/-- The body of the CTE: the value, and the keys it is grouped by. -/
def liftedSelect : Select :=
  ⟨.no, .exprWithAlias (.function a.call) (.new "col") ::
      (a.keys outerAliases).map fun key => .unnamedExpr (.compoundIdentifier key),
    aliased (catalogued a.table) a.alias_, buildAnd (a.locals outerAliases),
    .expressions ((a.keys outerAliases).map .compoundIdentifier), none⟩

def lifted : Query := ⟨none, .select (a.liftedSelect outerAliases), [], none, none⟩

/-- A call by an aggregate's name on the columns of one table; its WHERE clause a conjunction of
equalities with columns of the enclosing query and of conditions on the table; and the columns
compared of different names, none of them `col`. -/
structure Correlated : Prop where
  aggregate : isAggregate a.call = true
  ordinary : hasSrfUnnestMarker (.function a.call) = false
  own : a.alias_ ∉ outerAliases
  call : ReadsOnly a.alias_ (Expr.function a.call).visited
  conjunct : ∀ c ∈ conjuncts a.selection,
    (∃ outer ∈ outerAliases, ∃ column key, Spells c (equation outer a.alias_ column key)) ∨
      ReadsOnly a.alias_ c.visited
  keys : ∀ key ∈ a.keys outerAliases, exposedName key ≠ "col" ∧
    ∀ other ∈ a.keys outerAliases, exposedName other = exposedName key → other = key

end ScalarAggregate

theorem itself_visited (e : Expr) : e ∈ e.visited := by
  cases e <;> exact List.mem_cons_self

theorem visited_splitAnd {x pred : Expr} (member : x ∈ pred.visited) :
    (∃ left right, x = .binaryOp left .and right) ∨ ∃ c ∈ splitAnd pred, x ∈ c.visited := by
  fun_induction splitAnd pred with
  | case1 left right first second =>
    obtain rfl | member := List.mem_cons.mp member
    · exact .inl ⟨left, right, rfl⟩
    · obtain member | member := List.mem_append.mp member
      · refine (first member).imp_right ?_
        rintro ⟨c, conjunct, inside⟩
        exact ⟨c, List.mem_append_left _ conjunct, inside⟩
      · refine (second member).imp_right ?_
        rintro ⟨c, conjunct, inside⟩
        exact ⟨c, List.mem_append_right _ conjunct, inside⟩
  | case2 other isOther => exact .inr ⟨other, List.mem_singleton_self _, member⟩

/-- A WHERE clause holds its conjuncts and the ANDs between them. -/
theorem visited_conjuncts {x : Expr} {selection : Option Expr}
    (member : x ∈ visitedOption selection) :
    (∃ left right, x = .binaryOp left .and right) ∨ ∃ c ∈ conjuncts selection, x ∈ c.visited := by
  cases selection with
  | none => cases member
  | some pred => exact visited_splitAnd member

theorem visitedItems_columns (keys : List (List Ident)) :
    visitedItems (keys.map fun key => .unnamedExpr (.compoundIdentifier key)) =
      keys.map .compoundIdentifier := by
  induction keys with
  | nil => rfl
  | cons key rest ih => exact congrArg (Expr.compoundIdentifier key :: ·) ih

theorem visitedList_columns (keys : List (List Ident)) :
    visitedList (keys.map .compoundIdentifier) = keys.map .compoundIdentifier := by
  induction keys with
  | nil => rfl
  | cons key rest ih => exact congrArg (Expr.compoundIdentifier key :: ·) ih

theorem exprs_columns (keys : List (List Ident)) :
    (keys.map fun key => SelectItem.unnamedExpr (.compoundIdentifier key)).filterMap itemExpr =
      keys.map .compoundIdentifier := by
  induction keys with
  | nil => rfl
  | cons key rest ih => exact congrArg (Expr.compoundIdentifier key :: ·) ih

theorem openParts_columns (keys : List (List Ident)) :
    (keys.map Expr.compoundIdentifier).flatMap openParts = keys.map .compoundIdentifier := by
  induction keys with
  | nil => rfl
  | cons key rest ih => exact congrArg (Expr.compoundIdentifier key :: ·) ih

theorem foldl_pushNew_nodup {α : Type} [DecidableEq α] {out xs : List α}
    (nodup : (out ++ xs).Nodup) : xs.foldl pushNew out = out ++ xs := by
  induction xs generalizing out with
  | nil => rw [List.foldl_nil, List.append_nil]
  | cons x rest ih =>
    rw [List.append_cons] at nodup
    have fresh : x ∉ out := by
      intro member
      have first := (List.nodup_append.mp nodup).1
      exact (List.nodup_append.mp first).2.2 x member x (List.mem_singleton_self x) rfl
    rw [List.foldl_cons, pushNew, if_neg fresh, ih nodup, ← List.append_cons]

section
variable {outerAliases : List Ident} {a : ScalarAggregate} {c : Expr} {p : CorrelatedPredicate}

theorem conjuncts_locals :
    conjuncts (buildAnd (a.locals outerAliases)) = a.locals outerAliases := by
  refine conjuncts_buildAnd fun e kept => ?_
  have conjunct := (List.mem_filter.mp kept).1
  revert conjunct
  cases a.selection with
  | none => exact nofun
  | some pred => exact splitAnd_conjunct

theorem liftedPair_spells {outer alias_ column key name : Ident} (own : alias_ ≠ name)
    (spelled : Spells c (equation outer alias_ column key)) :
    liftedPair c name = if outer = name then some (equation outer alias_ column key) else none := by
  obtain rfl | rfl := spelled
  · simp only [equation, liftedPair, isComparison, correlatedPair, exprToColumnPath,
      List.head?_cons, own, if_true, ne_eq, not_false_eq_true, and_true, false_and, if_false]
  · simp only [equation, liftedPair, isComparison, correlatedPair, exprToColumnPath,
      List.head?_cons, own, if_true, ne_eq, not_false_eq_true, and_true, false_and, if_false]

theorem readsOnly_head {exprs : List Expr} {x : Expr} (reads : ReadsOnly a.alias_ exprs)
    (member : x ∈ exprs) (column : exprToColumnPath x ≠ []) :
    (exprToColumnPath x).head? = some a.alias_ := by
  have isColumn : isColumn x = true := by
    cases x <;> first | rfl | exact absurd rfl column
  obtain ⟨name, rfl⟩ := (reads x member).2 isColumn
  rfl

mutual

theorem collectPaths_visited {path : List Ident} : ∀ e : Expr, path ∈ collectPaths e →
    .compoundIdentifier path ∈ e.visited
  | .compoundIdentifier p, member => by
    cases List.mem_singleton.mp member
    exact List.mem_cons_self
  | .binaryOp left _ right, member => by
    apply List.mem_cons_of_mem
    refine (List.mem_append.mp member).elim (fun first => ?_) fun second => ?_
    · exact List.mem_append_left _ (collectPaths_visited left first)
    · exact List.mem_append_right _ (collectPaths_visited right second)
  | .unaryOp _ inner, member => List.mem_cons_of_mem _ (collectPaths_visited inner member)
  | .nested inner, member => List.mem_cons_of_mem _ (collectPaths_visited inner member)
  | .cast _ inner _, member => List.mem_cons_of_mem _ (collectPaths_visited inner member)
  | .case operand conditions elseResult, member => by
    apply List.mem_cons_of_mem
    refine (List.mem_append.mp member).elim (fun before => ?_) fun last => ?_
    · apply List.mem_append_left
      refine (List.mem_append.mp before).elim (fun first => ?_) fun cases_ => ?_
      · exact List.mem_append_left _ (collectPathsOption_visited operand first)
      · exact List.mem_append_right _ (collectPathsCases_visited conditions cases_)
    · exact List.mem_append_right _ (collectPathsOption_visited elseResult last)

theorem collectPathsOption_visited {path : List Ident} : ∀ e : Option Expr,
    path ∈ collectPathsOption e → .compoundIdentifier path ∈ visitedOption e
  | some e, member => collectPaths_visited e member

theorem collectPathsCases_visited {path : List Ident} : ∀ conditions : List CaseWhen,
    path ∈ collectPathsCases conditions → .compoundIdentifier path ∈ visitedCases conditions
  | ⟨condition, result⟩ :: rest, member => by
    refine (List.mem_append.mp member).elim (fun before => ?_) fun later => ?_
    · apply List.mem_append_left
      refine (List.mem_append.mp before).elim (fun first => ?_) fun second => ?_
      · exact List.mem_append_left _ (collectPaths_visited condition first)
      · exact List.mem_append_right _ (collectPaths_visited result second)
    · exact List.mem_append_right _ (collectPathsCases_visited rest later)

end

/-- A condition on the table alone is compared with no outer table, and all of none. -/
theorem stays_of_readsOnly (own : a.alias_ ∉ outerAliases) (reads : ReadsOnly a.alias_ c.visited) :
    stays outerAliases c = true := by
  have alike : ∀ {name : Ident} {left right : Expr}, left ∈ c.visited → right ∈ c.visited →
      ¬ComparesWith.Apart name (exprToColumnPath left) (exprToColumnPath right) := by
    rintro name left right first second ⟨some_, some_', apart⟩
    rw [readsOnly_head reads first some_, readsOnly_head reads second some_'] at apart
    exact apart.elim (fun both => both.2 both.1) fun both => both.2 both.1
  rw [stays_iff]
  constructor
  · intro name _ compares
    unfold ComparesWith at compares
    split at compares
    · exact alike (List.mem_cons_of_mem _ (List.mem_append_left _ (itself_visited _)))
        (List.mem_cons_of_mem _ (List.mem_append_right _ (itself_visited _))) compares
    · exact alike (List.mem_cons_of_mem _ (List.mem_append_left _ (itself_visited _)))
        (List.mem_cons_of_mem _ (List.mem_append_right _ (itself_visited _))) compares.2
    · exact compares
  · rintro name listed ⟨some_, all⟩
    obtain ⟨path, reached⟩ := List.exists_mem_of_ne_nil _ some_
    obtain ⟨column, written⟩ := (reads _ (collectPaths_visited c reached)).2 rfl
    cases written
    have head := all _ reached
    exact own (Option.some.inj head ▸ listed)

theorem not_stays_of_spells (own : a.alias_ ∉ outerAliases) {outer column key : Ident}
    (listed : outer ∈ outerAliases) (spelled : Spells c (equation outer a.alias_ column key)) :
    stays outerAliases c = false := by
  have apart : a.alias_ ≠ outer := fun same => own (same ▸ listed)
  have lifted := liftedPair_spells apart spelled
  rw [if_pos rfl] at lifted
  rw [stays, Bool.not_eq_false', List.any_eq_true]
  exact ⟨outer, listed, by rw [lifted]; rfl⟩

variable (plain : a.Correlated outerAliases)
include plain

/-- Each conjunct is a condition on the table, which stays, or an equality that is lifted. -/
theorem conjunct_cases (member : c ∈ conjuncts a.selection) :
    c ∈ a.locals outerAliases ∧ ReadsOnly a.alias_ c.visited ∨
      c ∉ a.locals outerAliases ∧ ∃ p ∈ a.pairs outerAliases, Spells c p := by
  obtain ⟨outer, listed, column, key, spelled⟩ | reads := plain.conjunct c member
  · refine .inr ⟨fun kept => ?_, equation outer a.alias_ column key, ?_, spelled⟩
    · have stayed := (List.mem_filter.mp kept).2
      rw [not_stays_of_spells plain.own listed spelled] at stayed
      cases stayed
    · have apart : a.alias_ ≠ outer := fun same => plain.own (same ▸ listed)
      have lifted := liftedPair_spells apart spelled
      rw [if_pos rfl] at lifted
      obtain ⟨_, table, _, selection⟩ := a
      cases selection with
      | none => cases member
      | some pred => exact mem_correlatedPairs.mpr ⟨outer, listed, c, member, lifted⟩
  · exact .inl ⟨List.mem_filter.mpr ⟨member, stays_of_readsOnly plain.own reads⟩, reads⟩

/-- Each lifted pair is an equality that stands among the conjuncts. -/
theorem pair_cases (member : p ∈ a.pairs outerAliases) :
    ∃ outer ∈ outerAliases, ∃ column key, p = equation outer a.alias_ column key ∧
      ∃ c ∈ conjuncts a.selection, Spells c p := by
  have found : ∃ name ∈ outerAliases, ∃ c ∈ conjuncts a.selection, liftedPair c name = some p := by
    obtain ⟨_, table, _, selection⟩ := a
    cases selection with
    | none => cases member
    | some pred => exact mem_correlatedPairs.mp member
  obtain ⟨name, listed, c, conjunct, lifted⟩ := found
  obtain ⟨outer, listed', column, key, spelled⟩ | reads := plain.conjunct c conjunct
  · have apart : a.alias_ ≠ name := fun same => plain.own (same ▸ listed)
    rw [liftedPair_spells apart spelled] at lifted
    split at lifted
    · obtain rfl := Option.some.inj lifted
      exact ⟨outer, listed', column, key, rfl, c, conjunct, spelled⟩
    · cases lifted
  · have stayed := stays_of_readsOnly plain.own reads
    rw [stays_iff] at stayed
    refine absurd ?_ (stayed.1 name listed)
    exact liftedPair_isSome_iff.mp (by rw [lifted]; rfl)

theorem key_cases {key : List Ident} (member : key ∈ a.keys outerAliases) :
    ∃ name, key = [a.alias_, name] := by
  obtain ⟨p, found, rfl⟩ := mem_joinKeyPaths.mp member
  obtain ⟨_, _, _, name, rfl, _⟩ := pair_cases plain found
  exact ⟨name, rfl⟩

theorem readsOnly_keys :
    ReadsOnly a.alias_ ((a.keys outerAliases).map .compoundIdentifier) := by
  intro x member
  obtain ⟨key, listed, rfl⟩ := List.mem_map.mp member
  obtain ⟨name, rfl⟩ := key_cases plain listed
  exact ⟨rfl, fun _ => ⟨name, rfl⟩⟩

/-- The body of the CTE reads the table alone. -/
theorem readsOnly_lifted : ReadsOnly a.alias_ (a.lifted outerAliases).visited := by
  intro x member
  simp only [ScalarAggregate.lifted, ScalarAggregate.liftedSelect, Query.visited, visitedWith,
    SetExpr.visited, Select.visited,
    Distinct.visited, visitedItems, visitedItems_columns, aliased, visitedFrom,
    TableWithJoins.visited, TableFactor.visited, visitedJoins, GroupByExpr.visited,
    visitedList_columns, visitedOption, visitedOrderBy, List.nil_append, List.append_nil,
    List.mem_append] at member
  obtain ((called | shown) | filtered) | grouped := member
  · exact plain.call x called
  · exact readsOnly_keys plain x shown
  · obtain ⟨left, right, rfl⟩ | ⟨c, kept, inside⟩ := visited_conjuncts filtered
    · exact ⟨rfl, fun column => absurd column Bool.false_ne_true⟩
    · rw [conjuncts_locals] at kept
      obtain ⟨_, reads⟩ | ⟨gone, _⟩ := conjunct_cases plain (List.mem_filter.mp kept).1
      · exact reads x inside
      · exact absurd kept gone
  · exact readsOnly_keys plain x grouped

/-- The value reads no outer column, so none is replaced in it. -/
theorem replaceOuterRefs_call :
    replaceOuterRefs (a.pairs outerAliases) (.function a.call) = .function a.call := by
  refine Expr.walked_fixed (m := Id) _ fun x member => ?_
  obtain ⟨_, columns⟩ := plain.call x member
  cases x with
  | identifier id => cases (columns rfl).choose_spec
  | compoundIdentifier path =>
    obtain ⟨name, written⟩ := columns rfl
    cases written
    have apart : innerFor (a.pairs outerAliases) [a.alias_, name] = none := by
      rw [innerFor, Option.map_eq_none_iff, List.find?_eq_none]
      intro p paired same
      obtain ⟨outer, listed, column, key, rfl, _⟩ := pair_cases plain paired
      rw [decide_eq_true_eq, equation, List.cons.injEq] at same
      exact plain.own (same.1 ▸ listed)
    dsimp only
    rw [apart]
    rfl
  | _ => rfl

/-- The keys are what the body is grouped by. -/
theorem injectGroupBy_lifted (from_ : List TableWithJoins) (selection : Option Expr) :
    injectGroupBy ⟨.no, .exprWithAlias (.function a.call) (.new "col") ::
        (a.keys outerAliases).map fun key => .unnamedExpr (.compoundIdentifier key),
      from_, selection, .expressions [], none⟩ =
    ⟨.no, .exprWithAlias (.function a.call) (.new "col") ::
        (a.keys outerAliases).map fun key => .unnamedExpr (.compoundIdentifier key),
      from_, selection, .expressions ((a.keys outerAliases).map .compoundIdentifier), none⟩ := by
  have nodup : (a.keys outerAliases).Nodup := nodup_joinKeyPaths _
  have counted : countedExprs (.exprWithAlias (.function a.call) (.new "col") ::
      (a.keys outerAliases).map fun key => .unnamedExpr (.compoundIdentifier key)) =
      .function a.call :: (a.keys outerAliases).map .compoundIdentifier := by
    rw [countedExprs, List.filterMap_cons, exprs_columns]
    exact List.filter_eq_self.mpr (List.forall_mem_cons.mpr
      ⟨rfl, List.forall_mem_map.mpr fun _ _ => rfl⟩)
  have shows : bailsOut (.exprWithAlias (.function a.call) (.new "col") ::
      (a.keys outerAliases).map fun key => .unnamedExpr (.compoundIdentifier key)) = false := by
    rw [bailsOut, List.any_cons, List.any_cons, List.any_map, List.any_map, Bool.or_eq_false_iff,
      Bool.or_eq_false_iff, Bool.or_eq_false_iff]
    exact ⟨⟨plain.ordinary, List.any_eq_false.mpr fun _ _ => Bool.false_ne_true⟩, rfl,
      List.any_eq_false.mpr fun _ _ => Bool.false_ne_true⟩
  have parts : (Expr.function a.call :: (a.keys outerAliases).map .compoundIdentifier).flatMap
      openParts = .function a.call :: (a.keys outerAliases).map .compoundIdentifier := by
    have call : openParts (.function a.call) = [.function a.call] := by
      have aggregate := plain.aggregate
      revert aggregate
      cases a.call
      intro aggregate
      rw [openParts, if_pos aggregate]
    rw [List.flatMap_cons, call, openParts_columns]
    rfl
  obtain ⟨aggregates, columns⟩ := collectProjection_finds
    (Expr.function a.call :: (a.keys outerAliases).map .compoundIdentifier)
  rw [parts] at aggregates columns
  have hasAggr : (collectProjection (Expr.function a.call ::
      (a.keys outerAliases).map .compoundIdentifier)).hasAggr = true := by
    rw [aggregates, List.any_cons]
    exact Bool.or_eq_true_iff.mpr (.inl plain.aggregate)
  have cols : (collectProjection (Expr.function a.call ::
      (a.keys outerAliases).map .compoundIdentifier)).cols.map (·.expr) =
      (a.keys outerAliases).map .compoundIdentifier := by
    rw [columns, List.filter_cons_of_neg Bool.false_ne_true]
    exact List.filter_eq_self.mpr (List.forall_mem_map.mpr fun _ _ => rfl)
  have once : (collectProjection (Expr.function a.call ::
      (a.keys outerAliases).map .compoundIdentifier)).cols.foldl pushNew [] =
      (collectProjection (Expr.function a.call ::
        (a.keys outerAliases).map .compoundIdentifier)).cols := by
    refine foldl_pushNew_nodup (List.Nodup.of_map (·.expr) ?_)
    rw [List.nil_append, cols]
    exact nodup.map fun _ _ same => Expr.compoundIdentifier.inj same
  rw [injectGroupBy]
  simp only [shows, hasUserGroupBy, List.isEmpty_nil, Bool.not_true, Bool.or_self,
    Bool.false_eq_true, if_false, counted, hasAggr, true_or, if_true, once, cols]

theorem quiet_lifted (sel : Select) (body : (a.lifted outerAliases).body = .select sel) :
    GroupingQuiet sel := by
  obtain rfl := SetExpr.select.inj body
  have kept := injectGroupBy_lifted plain (aliased (catalogued a.table) a.alias_)
    (buildAnd (a.locals outerAliases))
  rw [ScalarAggregate.liftedSelect]
  cases keys : a.keys outerAliases with
  | nil =>
    rw [keys] at kept
    exact (injectGroupBy_groupBy_iff _).mp (congrArg Select.groupBy kept)
  | cons key rest => exact .inl rfl

variable (host : Host) (origAlias : Option Ident) (cte : Ident)

/-- What the rewriter makes of the subquery before it visits it. -/
theorem cleaned_lifted :
    cleanedSubquery (correlatedInfo host origAlias outerAliases a.query a.select cte) =
      a.lifted outerAliases := by
  have value : exposeValue (subqueryPairs outerAliases a.select) a.select.projection =
      [.exprWithAlias (.function a.call) (.new "col")] := by
    change [SelectItem.exprWithAlias (replaceOuterRefs (a.pairs outerAliases) _) _] = _
    rw [replaceOuterRefs_call plain]
  have projection : (joinKeyPaths (subqueryPairs outerAliases a.select)).foldl
      ensureProjectedColumn (remainingSelect outerAliases a.select).projection =
      .exprWithAlias (.function a.call) (.new "col") ::
        (a.keys outerAliases).map fun key => .unnamedExpr (.compoundIdentifier key) := by
    change List.foldl ensureProjectedColumn (exposeValue (subqueryPairs outerAliases a.select)
      a.select.projection) _ = _
    rw [value, foldl_ensureProjectedColumn (nodup_joinKeyPaths _) fun _ _ => rfl]
    rfl
  have body : a.query.body = .select a.select := rfl
  rw [cleanedSubquery_eq body, projection]
  have grouped := injectGroupBy_lifted plain (aliased a.table a.alias_)
    (buildAnd (a.locals outerAliases))
  change qualifyPgCatalogTables ⟨none, .select (injectGroupBy ⟨.no, _, aliased a.table a.alias_,
    buildAnd (a.locals outerAliases), .expressions [], none⟩), [], none, none⟩ = _
  rw [grouped]
  have table : qualifyFrom (aliased a.table a.alias_) = aliased (catalogued a.table) a.alias_ := by
    cases a.table with
    | nil => rfl
    | cons part rest => cases rest <;> rfl
  simp only [qualifyPgCatalogTables, qualifyBody, table]
  rfl

theorem standsAlone_lifted :
    standsAlone (correlatedInfo host origAlias outerAliases a.query a.select cte) = true := by
  have own : a.alias_ ∈ collectDefinedAliases (a.lifted outerAliases) := by
    refine List.mem_append_left _ ?_
    exact List.mem_cons_self
  have none_ : outerAliases.filter (fun alias_ =>
      ((a.lifted outerAliases).visited.filterMap pathRoot).any (sameName · alias_) &&
        !(collectDefinedAliases (a.lifted outerAliases)).any (sameName · alias_)) = [] := by
    rw [List.filter_eq_nil_iff]
    intro alias_ _ both
    obtain ⟨referenced, unbound⟩ := (Bool.and_eq_true _ _).mp both
    obtain ⟨root, found, same⟩ := List.any_eq_true.mp referenced
    obtain ⟨x, visited, head⟩ := List.mem_filterMap.mp found
    have column : isColumn x = true := by
      cases x <;> first | rfl | cases head
    obtain ⟨name, rfl⟩ := (readsOnly_lifted plain x visited).2 column
    obtain rfl := Option.some.inj head
    have bound : (collectDefinedAliases (a.lifted outerAliases)).any (sameName · alias_) = true :=
      List.any_eq_true.mpr ⟨_, own, same⟩
    rw [bound] at unbound
    cases unbound
  rw [standsAlone, cleaned_lifted plain, unresolvedOuterAliases]
  change (firstOfSame sameName (outerAliases.filter _)).isEmpty = true
  rw [none_]
  rfl

/-- No conjunct goes to the join condition whole. -/
theorem outerOnly_lifted :
    (correlatedInfo host origAlias outerAliases a.query a.select cte).outerOnlyPredicates = [] := by
  rw [List.eq_nil_iff_forall_not_mem]
  intro e member
  have body : a.query.body = .select a.select := rfl
  obtain ⟨name, listed, conjunct, only⟩ := mem_correlatedInfo_outerOnly body member
  obtain ⟨kept, _⟩ | ⟨_, p, paired, spelled⟩ := conjunct_cases plain conjunct
  · exact (stays_iff.mp (List.mem_filter.mp kept).2).2 name listed (isOuterOnly_iff.mp only)
  · obtain ⟨outer, _, column, key, rfl, _⟩ := pair_cases plain paired
    have inside : [a.alias_, key] ∈ collectPaths e := by
      obtain rfl | rfl := spelled
      · exact List.mem_cons_of_mem _ List.mem_cons_self
      · exact List.mem_cons_self
    have head := (isOuterOnly_iff.mp only).2 _ inside
    exact plain.own (Option.some.inj head ▸ listed)

omit plain in
theorem nesting_lifted : nesting (a.lifted outerAliases) = nesting a.query := by
  have columns : ∀ keys : List (List Ident),
      nestingItems (keys.map fun key => .unnamedExpr (.compoundIdentifier key)) = 0 := by
    intro keys
    induction keys with
    | nil => rfl
    | cons key rest ih =>
      rw [List.map_cons, nestingItems, ih]
      rfl
  rw [ScalarAggregate.lifted, ScalarAggregate.liftedSelect, nesting, nestingBody, nestingItems,
    columns]
  rfl

/-- The body is left as it is by the visit of it. -/
theorem visitBody_lifted {depth : Nat} (deep : nesting a.query ≤ depth) (s : ScalarToCte) :
    (visitBody (visitQuery host depth)
        (correlatedInfo host origAlias outerAliases a.query a.select cte)).run s =
      (a.lifted outerAliases, s) := by
  have none_ : ∀ x ∈ (a.lifted outerAliases).visited, isSubquery x = false := by
    intro x member
    have rowwise := (readsOnly_lifted plain x member).1
    cases x <;> first | rfl | cases rowwise
  have grouped : grouped (a.lifted outerAliases) = a.lifted outerAliases := by
    rw [grouped_iff]
    intro sel member
    obtain rfl := List.mem_singleton.mp member
    exact quiet_lifted plain _ rfl
  have visited := visitQuery_plain host depth (a.lifted outerAliases)
    ((nesting_lifted).trans_le deep) none_
  rw [grouped] at visited
  rw [visitBody, cleaned_lifted plain, visited]
  rfl

end

end PgCatalog.ScalarToCte
