import PgCatalog.ScalarToCte.JoiningEngine
import PgCatalog.ScalarToCte.LiftedJoin

/-! A report and the query the rewriter makes of it have the same rows: each lifted aggregate adds
a CTE, and columns behind those of FROM that nothing else reads. -/
namespace PgCatalog.ScalarToCte

open Sql Library Semantics

/-- The columns that the CTEs add behind those of FROM. -/
def liftedColumns (outerAliases : List Ident) (n : Nat) : List Listed → List Column
  | [] => []
  | .column _ _ :: rest => liftedColumns outerAliases n rest
  | .aggregate a _ :: rest =>
    a.cteColumns outerAliases (cteName (n + 1)) ++ liftedColumns outerAliases (n + 1) rest

namespace Report
variable (r : Report)

/-- The columns the select list shows, and what WHERE is made of. -/
def exprs : List Expr :=
  (r.items.flatMap fun | .column e _ => e.visited | .aggregate _ _ => []) ++
    visitedOption r.selection

variable {D : Type} (E : Engine D) (s : Scope D) (left : Table D)

/-- FROM gives a table; its tables and their columns are named like none of the CTEs, and what the
query reads of it is no column of theirs. -/
structure Apart : Prop where
  source : E.source s [⟨r.relation, r.joins⟩] = some left
  wide : ∀ l ∈ left.rows, l.length = left.columns.length
  rowwise : ∀ x ∈ visitedFrom [⟨r.relation, r.joins⟩], isRowwise x = true
  named : ∀ name alias_, .table name alias_ none ∈ tableFactors [⟨r.relation, r.joins⟩] →
    ∀ n, ¬Names name (cteName n)
  qualified : ∀ c ∈ left.columns, ∀ n, ¬[(cteName n).folded] <:+ c.qualifier
  reads : ∀ x ∈ r.exprs, isRowwise x = true ∧ ∀ parts, reference x = some parts →
    ∀ c ∈ liftedColumns r.outerAliases 0 r.items, c.answers parts = false

/-- After some aggregates were lifted: their CTEs are in scope, and FROM has each of its rows as
before, with more columns behind. -/
structure Widened (n : Nat) (joins : List Join) (inner : Scope D) (more : List Column)
    (behind : List D → List D) : Prop where
  frames : inner.frames = s.frames
  relation : ∀ name : ObjectName, name.length ≠ 1 → inner.relation name = s.relation name
  source : ∃ whole, E.source inner [⟨r.relation, joins⟩] = some whole ∧
    whole.columns = left.columns ++ more ∧ whole.rows.Perm (left.rows.map fun l => l ++ behind l)
  wide : ∀ l ∈ left.rows, (behind l).length = more.length
  columns : ∀ c ∈ more, ∃ k ≤ n, c.qualifier = [(cteName k).folded]
  tables : ∀ factor ∈ tableFactors [⟨r.relation, joins⟩], ∃ name alias_,
    factor = .table name alias_ none ∧ ∀ k > n, ¬Names name (cteName k)
  rowwise : ∀ x ∈ visitedFrom [⟨r.relation, joins⟩], isRowwise x = true

end Report

theorem visitedJoins_append (joins more : List Join) :
    visitedJoins (joins ++ more) = visitedJoins joins ++ visitedJoins more := by
  induction joins with
  | nil => rfl
  | cons j rest ih =>
    obtain ⟨relation, kind, constraint⟩ := j
    rw [List.cons_append, visitedJoins, visitedJoins, ih, ← List.append_assoc]

theorem visited_entry (relation : TableFactor) (joins : List Join) :
    visitedFrom [⟨relation, joins⟩] = relation.visited ++ visitedJoins joins := List.append_nil _

theorem tableFactors_entry (relation : TableFactor) (joins : List Join) :
    tableFactors [⟨relation, joins⟩] = relation :: joins.map (·.relation) := List.append_nil _

/-- A name of two parts or none is no CTE's. -/
theorem catalogued_length (name : ObjectName) : (catalogued name).length ≠ 1 := by
  match name with
  | [] => exact Nat.zero_ne_one
  | [part] => exact Nat.succ_ne_self 1
  | _ :: _ :: _ => exact fun one => by cases one

section
variable {D : Type} {E : Engine D} {s : Scope D} {left : Table D} {r : Report} {n : Nat}
  {joins : List Join} {inner : Scope D} {more : List Column} {behind : List D → List D}

theorem binding_other {name : ObjectName} {cte : Ident} (table : Table D)
    (other : ¬Names name cte) :
    (inner.binding cte table).relation name = inner.relation name := if_neg other

theorem binding_own (cte : Ident) (table : Table D) :
    (inner.binding cte table).relation [.identifier cte] = some table := if_pos rfl

/-- A column of FROM is named by no CTE. -/
theorem outer_other (apart : r.Apart E s left) {outer name : Ident}
    (column : IsColumn left.columns (folded [outer, name])) (k : Nat) :
    outer.folded ≠ (cteName k).folded := by
  obtain ⟨c, member, answers⟩ := isColumn_answers column
  have qualified : [outer.folded] <:+ c.qualifier := (of_decide_eq_true answers).2
  intro same
  rw [same] at qualified
  exact apart.qualified c member k qualified

theorem columns_before (apart : r.Apart E s left)
    (widened : r.Widened E s left n joins inner more behind) :
    ∀ c ∈ left.columns ++ more, ¬[(cteName (n + 1)).folded] <:+ c.qualifier := by
  refine List.forall_mem_append.mpr ⟨fun c member => apart.qualified c member (n + 1), ?_⟩
  intro c member suffix
  obtain ⟨k, before, qualifier⟩ := widened.columns c member
  rw [qualifier] at suffix
  have same := cteName_inj (List.singleton_inj.mp (suffix.eq_of_length rfl))
  omega

section
variable {a : ScalarAggregate} {t : Table D} {value : List (List D) → D}
  (plain : a.Correlated r.outerAliases) (evaluates : a.Evaluates r.outerAliases E s left t value)
  (apart : r.Apart E s left) (widened : r.Widened E s left n joins inner more behind)
include plain evaluates apart widened

theorem outer_alone :
    ∀ p ∈ a.pairs r.outerAliases, ∀ c ∈ more, c.answers (folded p.outer) = false := by
  intro p paired c member
  have column := (evaluates.outer p paired).1
  obtain ⟨outer, _, name, key, rfl, _⟩ := pair_cases plain paired
  obtain ⟨k, _, qualifier⟩ := widened.columns c member
  refine decide_eq_false fun both => outer_other apart column k ?_
  have suffix : [outer.folded] <:+ c.qualifier := both.2
  rw [qualifier] at suffix
  exact List.singleton_inj.mp (suffix.eq_of_length rfl)

/-- Lifting one more aggregate adds its CTE, and beside each row of FROM the aggregate over what is
matched there, or NULL where nothing is. -/
theorem widened_step (promises : LiftPromises E) : ∃ (body : Table D) (added : List D → List D),
    queryMeaning E (a.lifted r.outerAliases) inner = some body ∧
    r.Widened E s left (n + 1)
      (joins ++ [buildLeftJoin (cteName (n + 1)) (a.pairs r.outerAliases) []])
      (inner.binding (cteName (n + 1)) (renamed (cteName (n + 1)) [] body))
      (more ++ a.cteColumns r.outerAliases (cteName (n + 1))) (fun l => behind l ++ added l) ∧
    ∀ l ∈ left.rows, ∃ v keys, added l = v :: keys ∧
      keys.length = (a.keys r.outerAliases).length ∧
      (v = value (a.matched r.outerAliases E s left t l) ∨
        v = E.null ∧ a.matched r.outerAliases E s left t l = []) := by
  obtain ⟨body, answered, columns, rows⟩ := lifted_answer plain evaluates promises
    (widened.relation _ (catalogued_length a.table))
  obtain ⟨kind, on_, join, keeps, equal, same⟩ := leftJoin_on plain promises (cteName (n + 1))
  obtain ⟨whole, source, shown, perm⟩ := widened.source
  have named := renamed_columns (cteName (n + 1)) columns
  -- beside each row
  have each : ∀ l ∈ left.rows, ∃ d, besideRow E
      (inner.binding (cteName (n + 1)) (renamed (cteName (n + 1)) [] body)) kind
        (left.columns ++ more) (a.cteColumns r.outerAliases (cteName (n + 1))) on_ (l ++ behind l)
        body.rows = some [l ++ behind l ++ d] ∧ ∃ v keys, d = v :: keys ∧
          keys.length = (a.keys r.outerAliases).length ∧
          (v = value (a.matched r.outerAliases E s left t l) ∨
            v = E.null ∧ a.matched r.outerAliases E s left t l = []) := by
    intro l beside
    obtain ⟨v, keys, row, long, value_⟩ := beside_row plain evaluates promises apart.wide
      (columns_before apart widened)
      (outer_alone plain evaluates apart widened) beside (widened.wide l beside) keeps same
      (inner.binding (cteName (n + 1)) (renamed (cteName (n + 1)) [] body))
    rw [rows]
    exact ⟨v :: keys, row, v, keys, rfl, long, value_⟩
  choose! added beside values using each
  refine ⟨body, added, answered, ?_, values⟩
  have narrower : ∀ factor ∈ tableFactors [⟨r.relation, joins⟩], ∃ name alias_,
      factor = .table name alias_ none ∧
        (inner.binding (cteName (n + 1)) (renamed (cteName (n + 1)) [] body)).relation name =
          inner.relation name := by
    intro factor member
    obtain ⟨name, alias_, table, others⟩ := widened.tables factor member
    exact ⟨name, alias_, table, binding_other _ (others (n + 1) (Nat.lt_succ_self n))⟩
  have source' : E.source (inner.binding (cteName (n + 1)) (renamed (cteName (n + 1)) [] body))
      [⟨r.relation, joins⟩] = some whole := by
    rw [← source]
    exact promises.tables _ inner r.relation joins rfl narrower widened.rowwise
  have lists : (left.rows.map fun l => l ++ behind l).mapM (fun l => besideRow E
      (inner.binding (cteName (n + 1)) (renamed (cteName (n + 1)) [] body)) kind whole.columns
        (qualified (cteName (n + 1)) (renamed (cteName (n + 1)) [] body)) on_ l body.rows) =
          some (left.rows.map fun l => [l ++ behind l ++ added l]) := by
    rw [List.mapM_map, mapM_eq_some, List.forall₂_map_right_iff, List.forall₂_same, shown, named]
    exact beside
  obtain ⟨lists', joined, perm'⟩ := mapM_perm perm lists
  obtain ⟨whole', source'', columns', rows'⟩ := promises.joined _ r.relation joins
    (cteName (n + 1)) kind on_ whole (renamed (cteName (n + 1)) [] body) lists' keeps equal source'
    (binding_own _ _) joined
  have factors : tableFactors [⟨r.relation, joins ++ [buildLeftJoin (cteName (n + 1))
      (a.pairs r.outerAliases) []]⟩] =
        tableFactors [⟨r.relation, joins⟩] ++ [plainTable (cteName (n + 1))] := by
    rw [join, tableFactors_entry, tableFactors_entry, List.map_append, List.cons_append]
    rfl
  have visited : visitedFrom [⟨r.relation, joins ++ [buildLeftJoin (cteName (n + 1))
      (a.pairs r.outerAliases) []]⟩] = visitedFrom [⟨r.relation, joins⟩] ++ on_.visited := by
    rw [join, visited_entry, visited_entry, visitedJoins_append, List.append_assoc]
    congr 2
    exact List.append_nil _
  exact {
    frames := widened.frames
    relation := fun name other => by
      refine (binding_other _ fun one => other ?_).trans (widened.relation name other)
      have length := congrArg List.length one
      rwa [List.length_map] at length
    source := by
      refine ⟨whole', by rw [join]; exact source'', ?_, rows'.trans ?_⟩
      · rw [columns', shown, named, List.append_assoc]
      · refine perm'.flatten.trans (.of_eq ?_)
        rw [← List.flatMap_def, ← List.map_eq_flatMap]
        exact List.map_congr_left fun l _ => List.append_assoc _ _ _
    wide := fun l member => by
      obtain ⟨v, keys, same, long, _⟩ := values l member
      rw [List.length_append, List.length_append, widened.wide l member, same, List.length_cons,
        long, ScalarAggregate.cteColumns, List.length_cons, List.length_map]
    columns := by
      refine List.forall_mem_append.mpr ⟨fun c member => ?_,
        fun c member => ⟨n + 1, Nat.le_refl _, ?_⟩⟩
      · obtain ⟨k, before, qualifier⟩ := widened.columns c member
        exact ⟨k, Nat.le_succ_of_le before, qualifier⟩
      · obtain rfl | listed := List.mem_cons.mp member
        · rfl
        · obtain ⟨key, _, rfl⟩ := List.mem_map.mp listed
          rfl
    tables := by
      rw [factors]
      refine List.forall_mem_append.mpr ⟨fun factor member => ?_, ?_⟩
      · obtain ⟨name, alias_, table, others⟩ := widened.tables factor member
        exact ⟨name, alias_, table, fun k later => others k (Nat.lt_of_succ_lt later)⟩
      · rw [List.forall_mem_singleton]
        refine ⟨_, _, rfl, fun k later one => ?_⟩
        have same := cteName_inj (Option.some.inj (List.singleton_inj.mp one))
        omega
    rowwise := by
      rw [visited]
      exact List.forall_mem_append.mpr ⟨widened.rowwise, equates_rowwise equal⟩ }

end

theorem coalesceZero_value (promises : LiftPromises E) {q : Scope D} (row : IsRow q) (e : Expr) :
    (exprMeaning E (coalesceZero e)).value q =
      E.operator (.call coalesceShape) [(exprMeaning E e).value q, some (E.number 0)] := by
  have zero : (exprMeaning E (.value (.number "0" false))).value q = some (E.number 0) := by
    rw [exprMeaning, operation_value E _ _ _ row]
    exact E.literal_zero
  have name : E.aggregates coalesceShape.name = false := promises.no_aggregate
  rw [coalesceZero, function_meaning, call_value E _ _ _ rfl row]
  change (if E.aggregates coalesceShape.name = true then _ else
    E.operator (.call coalesceShape) [(exprMeaning E e).value q,
      (exprMeaning E (.value (.number "0" false))).value q]) = _
  rw [name, if_neg Bool.false_ne_true, zero]

/-- The column that takes the place of an aggregate has its value. -/
theorem reference_value {a : ScalarAggregate} {t : Table D} {value : List (List D) → D}
    (evaluates : a.Evaluates r.outerAliases E s left t value) (promises : LiftPromises E)
    {q : Scope D} (row : IsRow q) {cte : Ident} {v : D} {l : List D}
    (found : ∀ e, lookup e (folded [cte, .new "col"]) q.frames = some v)
    (joined : v = value (a.matched r.outerAliases E s left t l) ∨
      v = E.null ∧ a.matched r.outerAliases E s left t l = []) :
    (exprMeaning E (a.reference cte)).value q =
      some (value (a.matched r.outerAliases E s left t l)) := by
  have column_ : (exprMeaning E (.compoundIdentifier [cte, .new "col"])).value q = some v := by
    rw [exprMeaning, column_value _ _ row, found]
  have empty := evaluates.empty
  rw [ScalarAggregate.reference]
  cases counting : counts a.call with
  | false =>
    rw [counting, if_neg Bool.false_ne_true] at empty
    rw [if_neg Bool.false_ne_true, column_]
    obtain rfl | ⟨rfl, none_⟩ := joined
    · rfl
    · rw [none_, empty]
  | true =>
    rw [counting, if_pos rfl] at empty
    rw [if_pos rfl, coalesceZero_value promises row, column_]
    obtain rfl | ⟨rfl, none_⟩ := joined
    · exact promises.coalesce_some _ _ (evaluates.counted counting _ matched_sublist)
    · rw [none_, empty]
      exact promises.coalesce_null _

theorem liftedColumns_named {items : List Listed} {outerAliases : List Ident} {n : Nat} :
    ∀ c ∈ liftedColumns outerAliases n items, ∃ k > n, c.qualifier = [(cteName k).folded] := by
  induction items generalizing n with
  | nil => exact nofun
  | cons item rest ih =>
    cases item with
    | column e alias_ => exact ih
    | aggregate a alias_ =>
      refine List.forall_mem_append.mpr ⟨fun c member => ⟨n + 1, Nat.lt_succ_self n, ?_⟩,
        fun c member => ?_⟩
      · obtain rfl | listed := List.mem_cons.mp member
        · rfl
        · obtain ⟨key, _, rfl⟩ := List.mem_map.mp listed
          rfl
      · obtain ⟨k, later, qualifier⟩ := ih c member
        exact ⟨k, Nat.lt_of_succ_lt later, qualifier⟩

theorem listItem_cells (e : Expr) (alias_ : Option Ident) (q : Scope D) :
    Item.cells q (itemMeaning E (listItem e alias_)) = ((exprMeaning E e).value q).map ([·]) := by
  cases alias_ <;> rfl

/-- The items a select list shows for those of a report have their values. -/
def ShownAlike (E : Engine D) (q q' : Scope D) (n : Nat) (items : List Listed) : Prop :=
  List.Forall₂ (fun shown item =>
    Item.cells q' (itemMeaning E shown) = Item.cells q (itemMeaning E item))
    (shownItems n items) (items.map Listed.item)

/-- The walk over a select list: every aggregate's CTE is in scope in the end, and the list has the
values it had. -/
theorem widened_run (promises : LiftPromises E) (apart : r.Apart E s left) {items : List Listed}
    (reads : ∀ e alias_, .column e alias_ ∈ items → ∀ x ∈ e.visited, isRowwise x = true ∧
      ∀ parts, reference x = some parts →
        ∀ c ∈ more ++ liftedColumns r.outerAliases n items, c.answers parts = false)
    (aggregates : ∀ a alias_, .aggregate a alias_ ∈ items → a.Correlated r.outerAliases ∧
      ∃ t value, a.Evaluates r.outerAliases E s left t value)
    (widened : r.Widened E s left n joins inner more behind) :
    ∃ (last : Scope D) (added : List D → List D),
      ctesMeaning E false (liftedCtes r.outerAliases n items) inner = some last ∧
      r.Widened E s left (n + liftedCount items) (joins ++ liftedJoins r.outerAliases n items) last
        (more ++ liftedColumns r.outerAliases n items) (fun l => behind l ++ added l) ∧
      ∀ l ∈ left.rows, ShownAlike E (s.under (.row left.columns l))
        (last.under (.row (left.columns ++ (more ++ liftedColumns r.outerAliases n items))
          (l ++ (behind l ++ added l)))) n items := by
  induction items generalizing n joins inner more behind with
  | nil =>
    refine ⟨inner, fun _ => [], by rw [liftedCtes, ctesMeaning], ?_, fun l _ => .nil⟩
    simp only [liftedCount, liftedJoins, liftedColumns, List.append_nil, Nat.add_zero]
    exact widened
  | cons item rest ih =>
    have later := fun a alias_ member => aggregates a alias_ (List.mem_cons_of_mem _ member)
    cases item with
    | column e alias_ =>
      obtain ⟨last, added, bound, widened', shown⟩ := ih
        (fun e alias_ member => reads e alias_ (List.mem_cons_of_mem _ member)) later widened
      refine ⟨last, added, bound, widened', fun l member => .cons ?_ (shown l member)⟩
      rw [listItem_cells, Listed.item, listItem_cells]
      refine congrArg _ (expr_apart E widened'.frames (apart.wide l member) ?_)
      exact reads e alias_ List.mem_cons_self
    | aggregate a alias_ =>
      obtain ⟨plain, t, value, evaluates⟩ := aggregates a alias_ List.mem_cons_self
      obtain ⟨body, first, answered, stepped, values⟩ :=
        widened_step plain evaluates apart widened promises
      obtain ⟨last, added, bound, widened', shown⟩ := ih
        (fun e alias_ member => by
          rw [List.append_assoc]
          exact reads e alias_ (List.mem_cons_of_mem _ member)) later stepped
      refine ⟨last, fun l => first l ++ added l, ?_, ?_, fun l member => ?_⟩
      · rw [liftedCtes, makeCte, ctesMeaning]
        change Option.bind (queryMeaning E (a.lifted r.outerAliases) inner) _ = _
        rw [answered, Option.bind_some]
        exact bound
      · have counted : n + (liftedCount rest + 1) = n + 1 + liftedCount rest := by omega
        have cells : (fun l => behind l ++ (first l ++ added l)) =
            fun l => behind l ++ first l ++ added l :=
          funext fun l => (List.append_assoc _ _ _).symm
        rw [liftedCount, counted, cells, liftedJoins, List.append_cons joins, liftedColumns,
          ← List.append_assoc more]
        exact widened'
      · rw [liftedColumns, ← List.append_assoc more, ← List.append_assoc (behind l)]
        refine .cons ?_ (shown l member)
        obtain ⟨v, keys, cells, long, joined⟩ := values l member
        have found : ∀ e, lookup e (folded [cteName (n + 1), .new "col"]) (.row (left.columns ++
            (more ++ a.cteColumns r.outerAliases (cteName (n + 1)) ++
              liftedColumns r.outerAliases (n + 1) rest))
            (l ++ (behind l ++ first l ++ added l)) :: last.frames) = some v := by
          intro e
          have front : (l ++ behind l).length = (left.columns ++ more).length := by
            rw [List.length_append, List.length_append, apart.wide l member, widened.wide l member]
          have own : (first l).length =
              (a.cteColumns r.outerAliases (cteName (n + 1))).length := by
            rw [cells, List.length_cons, long, ScalarAggregate.cteColumns, List.length_cons,
              List.length_map]
          have behind_ : ∀ c ∈ liftedColumns r.outerAliases (n + 1) rest,
              c.answers (folded [cteName (n + 1), .new "col"]) = false := by
            refine columns_apart fun c listed suffix => ?_
            obtain ⟨k, after, qualifier⟩ := liftedColumns_named c listed
            rw [qualifier] at suffix
            have same := cteName_inj (List.singleton_inj.mp (suffix.eq_of_length rfl))
            omega
          rw [List.append_assoc more, List.append_assoc (behind l),
            ← List.append_assoc left.columns, ← List.append_assoc l,
            lookup_behind front (columns_apart (columns_before apart widened)),
            lookup_apart own behind_, cells, lookup_col plain]
        rw [Listed.item, listItem_cells, subquery_value plain evaluates promises apart.wide member]
        change Option.map _ ((exprMeaning E (a.reference (cteName (n + 1)))).value _) = _
        rw [reference_value evaluates promises (under_isRow _ _ _) found joined]

theorem withMeaning_withCtes (ctes : List Cte) (q : Scope D) :
    withMeaning E (withCtes ctes) q = ctesMeaning E false ctes q := by
  cases ctes <;> rfl

/-- A select list without aggregates of its own is read row by row. -/
theorem ungrouped {projection : List SelectItem} {from_ : List TableWithJoins}
    {selection : Option Expr}
    (none_ : ∀ item ∈ projection, (itemMeaning E item).aggregates = false) :
    (clauses E ⟨.no, projection, from_, selection, .expressions [], none⟩).grouped [] = false := by
  have items : (itemMeanings E projection).any Item.aggregates = false := by
    rw [itemMeanings_eq, List.any_map, List.any_eq_false]
    intro item member
    rw [Function.comp_apply, none_ item member]
    exact Bool.false_ne_true
  change (false || (optionMeaning E none).isSome ||
    (itemMeanings E projection).any Item.aggregates || false) = false
  rw [items]
  rfl

theorem listItem_aggregates (e : Expr) (alias_ : Option Ident) :
    (itemMeaning E (listItem e alias_)).aggregates = (exprMeaning E e).aggregates := by
  cases alias_ <;> rfl

theorem reference_aggregates (promises : LiftPromises E) (a : ScalarAggregate) (cte : Ident) :
    (exprMeaning E (a.reference cte)).aggregates = false := by
  have name : E.aggregates coalesceShape.name = false := promises.no_aggregate
  rw [ScalarAggregate.reference]
  split
  · rw [coalesceZero, function_meaning, call]
    change (if E.aggregates coalesceShape.name = true then _ else _ : Meaning D).aggregates = false
    rw [name]
    rfl
  · rfl

theorem items_aggregates {items : List Listed}
    (columns : ∀ e alias_, .column e alias_ ∈ items → isColumn e = true) :
    ∀ item ∈ items.map Listed.item, (itemMeaning E item).aggregates = false := by
  rw [List.forall_mem_map]
  intro item member
  cases item with
  | column e alias_ =>
    have column := columns e alias_ member
    rw [Listed.item, listItem_aggregates]
    cases e <;> first | rfl | cases column
  | aggregate a alias_ =>
    rw [Listed.item, listItem_aggregates]
    rfl

theorem shown_aggregates (promises : LiftPromises E) {items : List Listed} (n : Nat)
    (columns : ∀ e alias_, .column e alias_ ∈ items → isColumn e = true) :
    ∀ item ∈ shownItems n items, (itemMeaning E item).aggregates = false := by
  induction items generalizing n with
  | nil => exact nofun
  | cons item rest ih =>
    have later := fun e alias_ member => columns e alias_ (List.mem_cons_of_mem _ member)
    cases item with
    | column e alias_ =>
      have column := columns e alias_ List.mem_cons_self
      refine List.forall_mem_cons.mpr ⟨?_, ih n later⟩
      rw [listItem_aggregates]
      cases e <;> first | rfl | cases column
    | aggregate a alias_ =>
      exact List.forall_mem_cons.mpr ⟨reference_aggregates promises a _, ih (n + 1) later⟩

theorem listRows_alike {c c' : Clauses D} {q q' : Scope D}
    (alike : List.Forall₂ (fun i j => Item.cells q' i = Item.cells q j) c'.items c.items) :
    listRows E c' q' = listRows E c q := by
  have cells : c'.items.mapM (Item.cells q') = c.items.mapM (Item.cells q) := by
    generalize c'.items = items', c.items = items at alike
    induction alike with
    | nil => rfl
    | cons first _ ih => rw [List.mapM_cons, List.mapM_cons, first, ih]
  rw [listRows, listRows, cells]

end

theorem reference_rowwise (a : ScalarAggregate) (cte : Ident) :
    ∀ x ∈ (a.reference cte).visited, isRowwise x = true := by
  rw [ScalarAggregate.reference]
  split
  · simp [coalesceZero, Expr.visited, Function.visited, FunctionArguments.visited, visitedArgs,
      FunctionArgExpr.visited, visitedOption, visitedWindow, visitedOrderBy, isRowwise]
  · simp [Expr.visited, isRowwise]

theorem shown_rowwise {items : List Listed} (n : Nat)
    (columns : ∀ e alias_, .column e alias_ ∈ items → ∀ x ∈ e.visited, isRowwise x = true) :
    ∀ x ∈ visitedItems (shownItems n items), isRowwise x = true := by
  refine visitedItems_exprs ?_
  induction items generalizing n with
  | nil => exact nofun
  | cons item rest ih =>
    have later := fun e alias_ member => columns e alias_ (List.mem_cons_of_mem _ member)
    cases item with
    | column e alias_ =>
      refine List.forall_mem_cons.mpr ⟨⟨e, ?_, columns e alias_ List.mem_cons_self⟩, ih n later⟩
      cases alias_ <;> rfl
    | aggregate a alias_ =>
      exact List.forall_mem_cons.mpr ⟨⟨_, rfl, reference_rowwise a _⟩, ih (n + 1) later⟩

theorem ctes_rowwise {items : List Listed} {outerAliases : List Ident} (n : Nat)
    (aggregates : ∀ a alias_, .aggregate a alias_ ∈ items → a.Correlated outerAliases) :
    ∀ x ∈ visitedCtes (liftedCtes outerAliases n items), isRowwise x = true := by
  induction items generalizing n with
  | nil => exact nofun
  | cons item rest ih =>
    have later := fun a alias_ member => aggregates a alias_ (List.mem_cons_of_mem _ member)
    cases item with
    | column e alias_ => exact ih n later
    | aggregate a alias_ =>
      have body := readsOnly_lifted (aggregates a alias_ List.mem_cons_self)
      exact List.forall_mem_append.mpr ⟨fun x member => (body x member).1, ih (n + 1) later⟩

def quoted (name : String) : Ident := ⟨name, some '"'⟩

/-- `(SELECT count(*) FROM "a" "a" WHERE "a"."relid" = "c"."oid")`. -/
def attributeCount : ScalarAggregate where
  call := ⟨[.identifier (Ident.new "count")], .list false [.unnamed .wildcard] [], none, none, []⟩
  table := [.identifier (quoted "pg_attribute")]
  alias_ := quoted "a"
  selection := some (.binaryOp (.compoundIdentifier [quoted "a", quoted "attrelid"]) .eq
    (.compoundIdentifier [quoted "c", quoted "oid"]))

/-- `SELECT "c"."oid", (SELECT count(*) ..) FROM "pg_class" "c"`. -/
def attributeCounts : Report where
  items := [.column (.compoundIdentifier [quoted "c", quoted "oid"]) none,
    .aggregate attributeCount none]
  relation := .table [.identifier (quoted "pg_class")] (some ⟨quoted "c", []⟩) none
  joins := []
  selection := none

/-- Two relations, and three attributes: two of the first relation and one of none. -/
def twoRelations : Scope Semantics.Cell :=
  ⟨fun name =>
    if name = [.identifier (quoted "pg_class")] then
      some ⟨[⟨["pg_class"], "oid"⟩], [[.number 1], [.number 2]]⟩
    else if name.getLast? = some (.identifier (quoted "pg_attribute")) then
      some ⟨[⟨["pg_attribute"], "attrelid"⟩], [[.number 1], [.truth none], [.number 1]]⟩
    else none, []⟩

theorem attributeCount_pairs : attributeCount.pairs attributeCounts.outerAliases =
    [equation (quoted "c") (quoted "a") (quoted "oid") (quoted "attrelid")] := by decide

theorem attributeCount_locals : attributeCount.locals attributeCounts.outerAliases = [] := by decide

theorem attributeCount_keys : attributeCount.keys attributeCounts.outerAliases =
    [[quoted "a", quoted "attrelid"]] := by decide

theorem attributeCount_correlated : attributeCount.Correlated attributeCounts.outerAliases where
  aggregate := by decide +kernel
  ordinary := by decide +kernel
  own := by decide
  call x member := by
    obtain rfl := List.mem_singleton.mp member
    exact ⟨rfl, nofun⟩
  conjunct c member := by
    obtain rfl := List.mem_singleton.mp member
    exact .inl ⟨quoted "c", List.mem_singleton_self _, quoted "oid", quoted "attrelid", .inr rfl⟩
  keys := by
    rw [attributeCount_keys]
    decide

theorem attributeCounts_plain : attributeCounts.Plain where
  tables factor member := by
    obtain rfl := List.mem_singleton.mp member
    exact ⟨_, _, rfl⟩
  columns e alias_ member := by
    obtain first | later := List.mem_cons.mp member
    · cases first
      rfl
    · cases List.mem_singleton.mp later
  aggregates a alias_ member := by
    obtain first | later := List.mem_cons.mp member
    · cases first
    · cases List.mem_singleton.mp later
      exact attributeCount_correlated

def attributes : Table Semantics.Cell :=
  ⟨[⟨["a"], "attrelid"⟩], [[.number 1], [.truth none], [.number 1]]⟩

def relations : Table Semantics.Cell := ⟨[⟨["c"], "oid"⟩], [[.number 1], [.number 2]]⟩

theorem cteName_apart {name : String} (other : name.toList.head? ≠ some '_') (n : Nat) :
    (cteName n).folded ≠ name := by
  rintro rfl
  apply other
  rw [cteName_folded, String.toList_append]
  rfl

theorem attributeCounts_apart : attributeCounts.Apart joining twoRelations relations where
  source := rfl
  wide := by decide
  rowwise := nofun
  named name alias_ member n one := by
    cases List.mem_singleton.mp member
    exact cteName_apart (by decide) n (Option.some.inj (List.singleton_inj.mp one)).symm
  qualified c member n suffix := by
    obtain rfl := List.mem_singleton.mp member
    exact cteName_apart (by decide) n (List.singleton_inj.mp (suffix.eq_of_length rfl))
  reads x member := by
    obtain rfl := List.mem_singleton.mp member
    refine ⟨rfl, fun parts named c listed => ?_⟩
    obtain rfl := Option.some.inj named
    change c ∈ attributeCount.cteColumns attributeCounts.outerAliases (cteName 1) ++ [] at listed
    rw [List.append_nil] at listed
    exact cteColumns_apart (fun same => cteName_apart (by decide) 1 same.symm) c listed

theorem attributeCount_evaluates : attributeCount.Evaluates attributeCounts.outerAliases joining
    twoRelations relations attributes fun rows => .number rows.length where
  source := rfl
  catalog := rfl
  wide := by decide
  columns name member := by
    have only : name = quoted "attrelid" := by
      simp [ScalarAggregate.exprs, attributeCount, visitedOption, Expr.visited, Function.visited,
        FunctionArguments.visited, visitedArgs, FunctionArgExpr.visited, visitedWindow,
        visitedOrderBy, quoted] at member
      exact member
    rw [only]
    exact ⟨0, rfl⟩
  outer := by
    rw [attributeCount_pairs, List.forall_mem_singleton]
    exact ⟨⟨0, rfl⟩, by decide⟩
  compared := by
    rw [attributeCount_pairs, List.forall_mem_singleton]
    have all : ∀ l ∈ relations.rows, ∀ cells ∈ attributes.rows,
        (Replace.verdict joining (cellOf joining relations.columns ["c", "oid"] l)
          (cellOf joining attributes.columns ["a", "attrelid"] cells)).isSome = true := by decide
    exact fun l beside cells row => Option.isSome_iff_exists.mp (all l beside cells row)
  narrow := by
    rw [attributeCount_locals]
    exact nofun
  judged := by
    rw [attributeCount_locals]
    exact nofun
  called := by decide
  total rows _ := by
    change some (Semantics.Cell.number (rows.map _).length) = _
    rw [List.length_map]
  empty := by
    have counting : counts attributeCount.call = true := by decide +kernel
    rw [if_pos counting]
    rfl
  counted _ _ _ := nofun
  single _ _ _ _ := rfl

end PgCatalog.ScalarToCte
