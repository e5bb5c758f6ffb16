import PgCatalog.ScalarToCte.LiftedMeaning

/-! The rows of a lifted body, and the LEFT JOIN with them: beside each row of the enclosing query
the one group that is matched there, or NULLs. -/
namespace PgCatalog.ScalarToCte

open Sql Library Semantics
open Replace (verdict equals)

/-- The grouping keys of a lifted body. -/
def keyList {D : Type} (E : Engine D) (keys : List (List Ident)) : List (Expr × Meaning D) :=
  keys.map fun key => (.compoundIdentifier key, exprMeaning E (.compoundIdentifier key))

namespace ScalarAggregate
variable (outerAliases : List Ident) (a : ScalarAggregate)
variable {D : Type} (E : Engine D) (s : Scope D) (t : Table D)

/-- The values of the keys in a row of the table. -/
def keyCells (cells : List D) : List D :=
  (a.keys outerAliases).map fun key => cellOf E t.columns (folded key) cells

def sameKeys (b c : List D) : Bool :=
  E.sameRow (a.keyCells outerAliases E t b) (a.keyCells outerAliases E t c)

/-- The rows of the body: the aggregate over each group and its keys, or over all rows. -/
def liftedRows (value : List (List D) → D) : List (List D) :=
  if (a.keys outerAliases).isEmpty then [[value (a.passedRows outerAliases E s t)]]
  else (Engine.keepFirst (a.sameKeys outerAliases E t) (a.passedRows outerAliases E s t)).map
    fun b => value ((a.passedRows outerAliases E s t).filter (a.sameKeys outerAliases E t b)) ::
      a.keyCells outerAliases E t b

/-- The columns of the CTE. -/
def cteColumns (cte : Ident) : List Column :=
  ⟨[cte.folded], "col"⟩ ::
    (a.keys outerAliases).map fun key => ⟨[cte.folded], exposedName key⟩

end ScalarAggregate

section
variable {D : Type} {E : Engine D}

theorem keyMeanings_columns (keys : List (List Ident)) :
    Semantics.keyList E (keys.map .compoundIdentifier) = keyList E keys := by
  induction keys with
  | nil => rfl
  | cons key rest ih => exact congrArg (_ :: ·) ih

/-- A group has the value of each of its keys. -/
theorem keyValue_key {keys : List (List Ident)} {g : List Ident → D}
    (apart : ∀ x ∈ keys, ∀ y ∈ keys,
      E.sameExpr (.compoundIdentifier x) (.compoundIdentifier y) = decide (x = y))
    {key : List Ident} (member : key ∈ keys) :
    Semantics.keyValue E (keyList E keys) (keys.map g) (.compoundIdentifier key) =
      some (g key) := by
  induction keys with
  | nil => cases member
  | cons first rest ih =>
    have here := apart first List.mem_cons_self key member
    rw [Semantics.keyValue, keyList, List.map_cons, List.map_cons, List.map_cons,
      List.zip_cons_cons]
    obtain rfl | later := List.mem_cons.mp member
    · rw [decide_eq_true rfl] at here
      rw [List.find?_cons_of_pos (by exact here)]
      rfl
    · by_cases same : first = key
      · rw [same] at here ⊢
        rw [decide_eq_true rfl] at here
        rw [List.find?_cons_of_pos (by exact here)]
        rfl
      · rw [decide_eq_false same] at here
        rw [List.find?_cons_of_neg (by rw [here]; exact Bool.false_ne_true)]
        exact ih (fun x first y second => apart x (List.mem_cons_of_mem _ first) y
          (List.mem_cons_of_mem _ second)) later

theorem keyValue_none {keys : List (List Ident)} {values : List D} {e : Expr}
    (apart : ∀ x ∈ keys, E.sameExpr (.compoundIdentifier x) e = false) :
    Semantics.keyValue E (keyList E keys) values e = none := by
  rw [Semantics.keyValue, Option.map_eq_none_iff, List.find?_eq_none]
  intro pair member
  obtain ⟨key, listed, same⟩ := List.mem_map.mp (List.of_mem_zip member).1
  obtain ⟨x, inside, rfl⟩ := List.mem_map.mp listed
  rw [← same, apart x inside]
  exact Bool.false_ne_true

variable {s : Scope D} {left t : Table D} {outerAliases : List Ident} {a : ScalarAggregate}
  {value : List (List D) → D} {l : List D}

/-- Two keys are one expression only if they are one column. -/
theorem keys_apart (plain : a.Correlated outerAliases) (promises : LiftPromises E) :
    ∀ x ∈ a.keys outerAliases, ∀ y ∈ a.keys outerAliases,
      E.sameExpr (.compoundIdentifier x) (.compoundIdentifier y) = decide (x = y) := by
  intro x first y second
  obtain ⟨name, rfl⟩ := key_cases plain first
  obtain ⟨name', rfl⟩ := key_cases plain second
  rw [promises.same_column]
  refine decide_eq_decide.mpr ⟨fun same => (plain.keys _ second).2 _ first same, fun same => ?_⟩
  cases same
  rfl

theorem passedRows_sublist : (a.passedRows outerAliases E s t).Sublist t.rows := List.filter_sublist

section
variable (plain : a.Correlated outerAliases) (evaluates : a.Evaluates outerAliases E s left t value)
include plain evaluates

theorem keyCells_values (s' : Scope D) {cells : List D} (row : cells ∈ t.rows) :
    keyValues (keyList E (a.keys outerAliases)) s' t.columns cells =
      some (a.keyCells outerAliases E t cells) := by
  rw [keyValues, mapM_eq_some, keyList, ScalarAggregate.keyCells, List.forall₂_map_left_iff,
    List.forall₂_map_right_iff, List.forall₂_same]
  intro key listed
  obtain ⟨p, paired, rfl⟩ := mem_joinKeyPaths.mp listed
  rw [exprMeaning, column_value _ _ (under_isRow _ _ _)]
  exact lookup_cell E (inner_column plain evaluates paired) (evaluates.wide cells row)

theorem keyCells_stored {cells : List D} (row : cells ∈ t.rows) :
    ∀ k ∈ a.keyCells outerAliases E t cells, ∃ cells ∈ t.rows, k ∈ cells := by
  intro k member
  obtain ⟨key, listed, rfl⟩ := List.mem_map.mp member
  obtain ⟨p, paired, rfl⟩ := mem_joinKeyPaths.mp listed
  have found : lookup (.compoundIdentifier p.inner) (folded p.inner) [.row t.columns cells] =
      some (cellOf E t.columns (folded p.inner) cells) :=
    lookup_cell E (inner_column plain evaluates paired) (evaluates.wide cells row)
  obtain ⟨i, only⟩ := inner_column plain evaluates paired
  rw [lookup, only] at found
  exact ⟨cells, row, List.mem_of_getElem? found⟩

/-- The row a group gives: the aggregate over it, and the values of its keys. -/
theorem group_row (promises : LiftPromises E) (s' : Scope D) {rows : List (List D)}
    (within : rows.Sublist t.rows) {b : List D}
    (stored : ∀ k ∈ a.keyCells outerAliases E t b, ∃ cells ∈ t.rows, k ∈ cells) :
    listRows E (clauses E (a.liftedSelect outerAliases))
        (s'.under (.group t.columns rows (Semantics.keyValue E (keyList E (a.keys outerAliases))
          (a.keyCells outerAliases E t b)))) =
      some [value rows :: a.keyCells outerAliases E t b] := by
  have first := aggregate_item plain evaluates within s' (@keyValue_none D E (a.keys outerAliases)
    (a.keyCells outerAliases E t b) _ fun x _ => promises.same_call x a.call)
  have later : ((a.keys outerAliases).map fun key =>
      itemMeaning E (.unnamedExpr (.compoundIdentifier key))).mapM (Item.cells (s'.under
        (.group t.columns rows (Semantics.keyValue E (keyList E (a.keys outerAliases))
          (a.keyCells outerAliases E t b))))) =
      some ((a.keyCells outerAliases E t b).map ([·])) := by
    rw [mapM_eq_some, ScalarAggregate.keyCells, List.map_map, List.forall₂_map_left_iff,
      List.forall₂_map_right_iff, List.forall₂_same]
    intro key listed
    have found := keyValue_key (g := fun key => cellOf E t.columns (folded key) b)
      (keys_apart plain promises) listed
    rw [itemMeaning, Item.cells, exprMeaning]
    change Option.map _ (Option.or (Semantics.keyValue E _ _ _) _) = _
    rw [found]
    rfl
  have items : (clauses E (a.liftedSelect outerAliases)).items =
      .expr (.function a.call) (Ident.new "col").folded (exprMeaning E (.function a.call)) ::
        (a.keys outerAliases).map fun key =>
          itemMeaning E (.unnamedExpr (.compoundIdentifier key)) := by
    change itemMeanings E (_ :: _) = _
    rw [itemMeanings_eq, List.map_cons, List.map_map]
    rfl
  rw [listRows, items, List.mapM_cons, later, Item.cells, first]
  change some (E.unfold ([value rows] ++ ((a.keyCells outerAliases E t b).map ([·])).flatten)) = _
  rw [← List.flatMap_def, List.flatMap_singleton']
  exact congrArg some (evaluates.single rows within _ stored)

/-- The groups of the body. -/
theorem lifted_frames (s' : Scope D) :
    (clauses E (a.liftedSelect outerAliases)).frames E [] s'
        ⟨t.columns, a.passedRows outerAliases E s t⟩ =
      some (if (a.keys outerAliases).isEmpty then
          [.group t.columns (a.passedRows outerAliases E s t) fun _ => none]
        else (Engine.keepFirst (a.sameKeys outerAliases E t) (a.passedRows outerAliases E s t)).map
          fun b => .group t.columns
            ((a.passedRows outerAliases E s t).filter (a.sameKeys outerAliases E t b))
            (Semantics.keyValue E (keyList E (a.keys outerAliases))
              (a.keyCells outerAliases E t b))) := by
  have grouped : (clauses E (a.liftedSelect outerAliases)).grouped [] = true := by
    have aggregates := aggregate_aggregates E evaluates.called (call_over plain)
    have first : (clauses E (a.liftedSelect outerAliases)).items.any Item.aggregates = true := by
      change ((exprMeaning E (.function a.call)).aggregates || _) = true
      rw [aggregates]
      rfl
    rw [Clauses.grouped, first, Bool.or_true, Bool.true_or]
  have keys : (clauses E (a.liftedSelect outerAliases)).groupKeys t.columns =
      some (keyList E (a.keys outerAliases)) := by
    change List.mapM _ (Semantics.keyList E _) = _
    rw [keyMeanings_columns, mapM_eq_some, keyList, List.forall₂_map_left_iff,
      List.forall₂_map_right_iff, List.forall₂_same]
    exact fun _ _ => rfl
  have all : ∀ frames : List (Frame D), kept (fun frame => passes E
      (clauses E (a.liftedSelect outerAliases)).having (s'.under frame)) frames = some frames :=
    fun frames => kept_all fun _ _ => rfl
  rw [Clauses.frames, if_pos grouped]
  cases none_ : (a.keys outerAliases).isEmpty with
  | true =>
    have empty : (keyList E (a.keys outerAliases)).isEmpty = true := by
      rw [keyList, List.isEmpty_map, none_]
    rw [Clauses.groups, keys, Option.bind_some, if_pos empty, Option.bind_some, all, if_pos rfl]
  | false =>
    have some_ : keyList E (a.keys outerAliases) ≠ [] := by
      rw [keyList, ne_eq, List.map_eq_nil_iff, ← List.isEmpty_iff, none_]
      exact Bool.false_ne_true
    have values : (a.passedRows outerAliases E s t).mapM (fun cells =>
        (keyValues (keyList E (a.keys outerAliases)) s' t.columns cells).map fun values =>
          (values, cells)) = some ((a.passedRows outerAliases E s t).map fun cells =>
            (a.keyCells outerAliases E t cells, cells)) := by
      rw [mapM_eq_some, List.forall₂_map_right_iff, List.forall₂_same]
      intro cells member
      rw [keyCells_values plain evaluates s' (List.mem_filter.mp member).1]
      rfl
    have firsts : Engine.keepFirst E.sameRow ((a.passedRows outerAliases E s t).map fun cells =>
        a.keyCells outerAliases E t cells) =
          (Engine.keepFirst (a.sameKeys outerAliases E t) (a.passedRows outerAliases E s t)).map
            (a.keyCells outerAliases E t) :=
      keepFirst_map fun _ _ _ _ => rfl
    have by_ := @groups_eq D E (clauses E (a.liftedSelect outerAliases)) s'
      ⟨t.columns, a.passedRows outerAliases E s t⟩ _ keys some_
    rw [by_, groupsBy, values, Option.map_some, List.map_map]
    change Option.bind (some ((Engine.keepFirst E.sameRow ((a.passedRows outerAliases E s t).map
      fun cells => a.keyCells outerAliases E t cells)).map _)) _ = _
    rw [firsts, Option.bind_some, all, if_neg Bool.false_ne_true, List.map_map]
    refine congrArg some (List.map_congr_left fun b _ => ?_)
    rw [Function.comp_apply, List.filter_map, List.map_map]
    exact congrArg (Frame.group t.columns · _) (List.map_id _)

/-- The table of the body, wherever its relation is found. -/
theorem lifted_answer (promises : LiftPromises E) {s' : Scope D}
    (found : s'.relation (catalogued a.table) = s.relation (catalogued a.table)) :
    ∃ body, queryMeaning E (a.lifted outerAliases) s' = some body ∧
      body.columns = ⟨[], "col"⟩ ::
        (a.keys outerAliases).map (fun key => ⟨[], exposedName key⟩) ∧
      body.rows = a.liftedRows outerAliases E s t value := by
  have source : E.source s' (aliased (catalogued a.table) a.alias_) = some t :=
    (promises.table s' s (catalogued a.table) a.table a.alias_
      (found.trans evaluates.catalog)).trans evaluates.source
  have local_ : ∀ c ∈ a.locals outerAliases, ∀ cells, _ := fun c listed cells =>
    local_same plain evaluates listed s' cells
  have judged : ∀ cells ∈ t.rows, ∀ c ∈ conjuncts (buildAnd (a.locals outerAliases)),
      Judged E (s'.under (.row t.columns cells)) c := by
    intro cells row c listed
    rw [conjuncts_locals] at listed
    obtain ⟨truth, value⟩ := evaluates.judged c listed cells row
    exact ⟨truth, (local_ c listed cells).trans value⟩
  have passing : ∀ cells ∈ t.rows, passes E (optionMeaning E (buildAnd (a.locals outerAliases)))
      (s'.under (.row t.columns cells)) = some (a.passed outerAliases E s t cells) := by
    intro cells row
    rw [passes_conjuncts E (under_isRow _ _ _) (judged cells row), conjuncts_locals,
      ScalarAggregate.passed, Option.some_inj]
    rw [Bool.eq_iff_iff, List.all_eq_true, List.all_eq_true]
    exact forall₂_congr fun c listed => by rw [holds, holds, local_ c listed cells]
  have narrow : (optionMeaning E (buildAnd (a.locals outerAliases))).any (·.spans) = false := by
    refine conjuncts_spans E fun c listed => ?_
    rw [conjuncts_locals] at listed
    exact evaluates.narrow c listed
  have filtered : (clauses E (a.liftedSelect outerAliases)).filtered E s' =
      some ⟨t.columns, a.passedRows outerAliases E s t⟩ := by
    refine (filtered_eq_some E _).mpr ⟨narrow, t, source,
      fun cells row => ⟨_, passing cells row⟩, ?_⟩
    rw [ScalarAggregate.passedRows]
    refine congrArg _ (List.filter_congr fun cells row => ?_)
    change _ = (passes E (optionMeaning E (buildAnd (a.locals outerAliases))) _ == _)
    rw [passing cells row, Option.some_beq_some, beq_true]
  have within : (a.passedRows outerAliases E s t).Sublist t.rows := passedRows_sublist
  have rows : ((clauses E (a.liftedSelect outerAliases)).answer E [] s').map (·.rows) =
      some (a.liftedRows outerAliases E s t value) := by
    rw [unordered_answer E rfl, filtered, Option.bind_some, lifted_frames plain evaluates,
      Option.bind_some, ScalarAggregate.liftedRows]
    cases none_ : (a.keys outerAliases).isEmpty with
    | true =>
      have keys : a.keys outerAliases = [] := List.isEmpty_iff.mp none_
      have cells : a.keyCells outerAliases E t [] = [] := by
        rw [ScalarAggregate.keyCells, keys]
        rfl
      have row := group_row plain evaluates promises s' (b := []) within
        (by rw [cells]; exact fun k member => absurd member List.not_mem_nil)
      have unkeyed : Semantics.keyValue E (keyList E (a.keys outerAliases)) [] = fun _ => none := by
        rw [keys]
        rfl
      rw [cells, unkeyed] at row
      rw [if_pos rfl, if_pos rfl, List.mapM_cons, row]
      rfl
    | false =>
      have inside : ∀ b ∈ Engine.keepFirst (a.sameKeys outerAliases E t)
          (a.passedRows outerAliases E s t), b ∈ t.rows := fun b member =>
        (List.mem_filter.mp (keepFirst_sub member)).1
      rw [if_neg Bool.false_ne_true, if_neg Bool.false_ne_true, List.mapM_map,
        Option.map_eq_some_iff]
      refine ⟨_, mapM_eq_some.mpr (List.forall₂_map_right_iff.mpr (List.forall₂_same.mpr
        fun b member => group_row plain evaluates promises s'
          (List.filter_sublist.trans within)
          (keyCells_stored plain evaluates (inside b member)))), ?_⟩
      rw [← List.flatMap_def, ← List.map_eq_flatMap]
  obtain ⟨body, answered, rows⟩ := Option.map_eq_some_iff.mp rows
  obtain ⟨_, filtered', columns⟩ := answer_columns E answered
  obtain rfl := Option.some.inj (filtered.symm.trans filtered')
  refine ⟨body, ?_, ?_, rows⟩
  · rw [ScalarAggregate.lifted, select_query]
    exact answered
  · have shown : ∀ key ∈ a.keys outerAliases,
        E.nameOf (.compoundIdentifier key) = exposedName key := by
      intro key listed
      obtain ⟨name, rfl⟩ := key_cases plain listed
      exact promises.shown a.alias_ name
    rw [columns, Clauses.names]
    change List.map _ ((itemMeanings E (_ :: _)).flatMap _) = _
    rw [itemMeanings_eq, List.map_cons, List.flatMap_cons, List.map_map, List.flatMap_map]
    change List.map _ ((Ident.new "col").folded :: _) = _
    rw [col_folded, List.map_cons]
    refine congrArg (_ :: ·) ?_
    change List.map _ ((a.keys outerAliases).flatMap fun key =>
      [E.nameOf (.compoundIdentifier key)]) = _
    rw [← List.map_eq_flatMap, List.map_map]
    exact List.map_congr_left fun key listed => congrArg (Column.mk []) (shown key listed)

end

theorem mapIdx_const {A B : Type} (f : A → B) (xs : List A) :
    xs.mapIdx (fun _ x => f x) = xs.map f := by
  induction xs with
  | nil => rfl
  | cons x rest ih => rw [List.mapIdx_cons, ih, List.map_cons]

/-- The table under the name of the CTE. -/
theorem renamed_columns (cte : Ident) {body : Table D}
    (columns : body.columns = ⟨[], "col"⟩ ::
      (a.keys outerAliases).map (fun key => ⟨[], exposedName key⟩)) :
    qualified cte (renamed cte [] body) = a.cteColumns outerAliases cte := by
  have plain : (renamed cte [] body).columns = body.columns.map fun c => ⟨[cte.folded], c.name⟩ :=
    mapIdx_const (fun c : Column => (⟨[cte.folded], c.name⟩ : Column)) body.columns
  rw [qualified, plain, columns, List.map_map, List.map_cons, List.map_map]
  rfl

/-- A column of the CTE is not named by a reference to another table. -/
theorem cteColumns_apart {cte outer name : Ident} (other : outer.folded ≠ cte.folded) :
    ∀ c ∈ a.cteColumns outerAliases cte, c.answers (folded [outer, name]) = false := by
  have each : ∀ n, (⟨[cte.folded], n⟩ : Column).answers (folded [outer, name]) = false := by
    intro n
    refine decide_eq_false fun both => other ?_
    have suffix : [outer.folded] <:+ [cte.folded] := both.2
    exact List.singleton_inj.mp (suffix.eq_of_length rfl)
  intro c member
  obtain rfl | listed := List.mem_cons.mp member
  · exact each _
  · obtain ⟨key, _, rfl⟩ := List.mem_map.mp listed
    exact each _

/-- The columns of other tables are not named by a reference to the CTE. -/
theorem columns_apart {columns : List Column} {cte name : Ident}
    (apart : ∀ c ∈ columns, ¬[cte.folded] <:+ c.qualifier) :
    ∀ c ∈ columns, c.answers (folded [cte, name]) = false :=
  fun c member => decide_eq_false fun both => apart c member both.2

theorem answers_own {cte name : Ident} {n : String} :
    (⟨[cte.folded], n⟩ : Column).answers (folded [cte, name]) = decide (n = name.folded) := by
  refine decide_eq_decide.mpr ⟨fun both => (Option.some.inj both.1).symm, ?_⟩
  rintro rfl
  exact ⟨rfl, List.suffix_rfl⟩

/-- The value of a lifted body in a row of it. -/
theorem lookup_col (plain : a.Correlated outerAliases) (cte : Ident) {v : D} {keys : List D}
    {e : Expr} {outer : List (Frame D)} :
    lookup e (folded [cte, .new "col"])
      (.row (a.cteColumns outerAliases cte) (v :: keys) :: outer) = some v := by
  have others : ∀ c ∈ (a.keys outerAliases).map
      fun key => (⟨[cte.folded], exposedName key⟩ : Column),
      c.answers (folded [cte, .new "col"]) = false := by
    intro c member
    obtain ⟨key, listed, rfl⟩ := List.mem_map.mp member
    rw [answers_own, col_folded]
    exact decide_eq_false (plain.keys key listed).1
  have first := @lookup_apart D e (folded [cte, .new "col"]) [⟨[cte.folded], "col"⟩] _ [v] keys
    outer rfl others
  refine first.trans (lookup_single ?_)
  rw [answers_own, col_folded]
  rfl

/-- A key in a row of a lifted body. -/
theorem lookup_key (plain : a.Correlated outerAliases) (cte : Ident) {v : D} {name : Ident}
    (listed : [a.alias_, name] ∈ a.keys outerAliases) {b : List D} {e : Expr}
    {outer : List (Frame D)} :
    lookup e (folded [cte, name])
      (.row (a.cteColumns outerAliases cte) (v :: a.keyCells outerAliases E t b) :: outer) =
        some (cellOf E t.columns (folded [a.alias_, name]) b) := by
  have first : ∀ c ∈ ([⟨[cte.folded], "col"⟩] : List Column),
      c.answers (folded [cte, name]) = false := by
    rw [List.forall_mem_singleton, answers_own]
    exact decide_eq_false fun same => (plain.keys _ listed).1 same.symm
  refine (@lookup_behind D e (folded [cte, name]) [⟨[cte.folded], "col"⟩] _ [v] _ outer rfl
    first).trans ?_
  -- the keys in front of it and behind it have other names
  obtain ⟨before, after, split⟩ := List.append_of_mem listed
  have nodup : (a.keys outerAliases).Nodup := nodup_joinKeyPaths _
  rw [split] at nodup
  have apart : ∀ key ∈ a.keys outerAliases, key ≠ [a.alias_, name] →
      (⟨[cte.folded], exposedName key⟩ : Column).answers (folded [cte, name]) = false := by
    intro key member other
    rw [answers_own]
    exact decide_eq_false fun same => other ((plain.keys _ listed).2 key member same)
  have front : ∀ c ∈ before.map fun key => (⟨[cte.folded], exposedName key⟩ : Column),
      c.answers (folded [cte, name]) = false := by
    rw [List.forall_mem_map]
    intro key member
    refine apart key (by rw [split]; exact List.mem_append_left _ member) ?_
    exact (List.nodup_append.mp nodup).2.2 key member _ List.mem_cons_self
  have back : ∀ c ∈ after.map fun key => (⟨[cte.folded], exposedName key⟩ : Column),
      c.answers (folded [cte, name]) = false := by
    rw [List.forall_mem_map]
    intro key member
    have listed : key ∈ a.keys outerAliases := by
      rw [split]
      exact List.mem_append_right _ (List.mem_cons_of_mem _ member)
    refine apart key listed ?_
    rintro rfl
    exact (List.nodup_cons.mp (List.nodup_append.mp nodup).2.1).1 member
  change lookup e _ (.row ((a.keys outerAliases).map _) ((a.keys outerAliases).map _) :: outer) = _
  rw [split, List.map_append, List.map_append,
    lookup_behind (by rw [List.length_map, List.length_map]) front]
  refine (@lookup_apart D e (folded [cte, name]) [⟨[cte.folded], exposedName [a.alias_, name]⟩] _
    [_] _ outer rfl back).trans (lookup_single ?_)
  rw [answers_own]
  exact decide_eq_true rfl

theorem equates_chain {rest : List Expr} (all : ∀ e ∈ rest, equates e = true) {first : Expr}
    (equal : equates first = true) :
    equates (rest.foldl (fun chain e => .binaryOp chain .and e) first) = true := by
  induction rest generalizing first with
  | nil => exact equal
  | cons e later ih =>
    obtain ⟨here, there⟩ := List.forall_mem_cons.mp all
    refine ih there ?_
    rw [equates, equal, here]
    rfl

theorem equates_rowwise {e : Expr} (equal : equates e = true) :
    ∀ x ∈ e.visited, isRowwise x = true := by
  fun_induction equates e with
  | case1 left right first second =>
    obtain ⟨left_, right_⟩ := (Bool.and_eq_true _ _).mp equal
    intro x member
    obtain rfl | inside := List.mem_cons.mp member
    · rfl
    · exact (List.mem_append.mp inside).elim (first left_ x) (second right_ x)
  | case2 left right =>
    intro x member
    obtain rfl | inside := List.mem_cons.mp member
    · rfl
    · obtain here | there := List.mem_append.mp inside
      · cases List.mem_singleton.mp here
        rfl
      · cases List.mem_singleton.mp there
        rfl
  | case3 =>
    intro x member
    cases List.mem_singleton.mp member
    rfl
  | case4 => cases equal

theorem onPredicate_equates (plain : a.Correlated outerAliases) (cte : Ident) :
    ∀ e ∈ (a.pairs outerAliases).map (onPredicate cte), equates e = true := by
  rw [List.forall_mem_map]
  intro p paired
  obtain ⟨outer, _, column, key, rfl, _⟩ := pair_cases plain paired
  rfl

/-- The join keeps every row of its left side, on the equalities. -/
theorem leftJoin_on (plain : a.Correlated outerAliases) (promises : LiftPromises E) (cte : Ident) :
    ∃ kind on_, buildLeftJoin cte (a.pairs outerAliases) [] = ⟨plainTable cte, kind, .on on_⟩ ∧
      keepsUnmatched kind = true ∧ equates on_ = true ∧
      ∀ r : Scope D, IsRow r → passes E (some (exprMeaning E on_)) r =
        passes E (optionMeaning E (buildAnd ((a.pairs outerAliases).map (onPredicate cte)))) r := by
  have equal := onPredicate_equates plain cte
  rw [buildLeftJoin, List.filter_nil, List.append_nil]
  cases predicates : (a.pairs outerAliases).map (onPredicate cte) with
  | nil =>
    refine ⟨_, _, rfl, rfl, rfl, fun r row => ?_⟩
    rw [exprMeaning, passes, operation_value E _ _ _ row]
    change Option.map _ (Option.bind (E.operator (.value (.boolean true)) []) E.truth) = _
    rw [promises.literal_true, Option.bind_some, E.truth_ofTruth]
    rfl
  | cons first rest =>
    rw [predicates] at equal
    obtain ⟨here, there⟩ := List.forall_mem_cons.mp equal
    exact ⟨_, _, rfl, rfl, equates_chain there here, fun _ _ => rfl⟩

section
variable (promises : LiftPromises E)
include promises

/-- Two rows of the table are in one group, if one of them meets the row, exactly if both do. -/
theorem sameKeys_meets {b c : List D} (met : a.meets outerAliases E left t l c = true) :
    a.sameKeys outerAliases E t b c = a.meets outerAliases E left t l b := by
  obtain ⟨same, componentwise, _, grouped⟩ := promises.grouping
  rw [ScalarAggregate.meets, List.all_eq_true] at met
  have each : ∀ p ∈ a.pairs outerAliases,
      same (cellOf E t.columns (folded p.inner) b) (cellOf E t.columns (folded p.inner) c) =
        equals E (cellOf E left.columns (folded p.outer) l)
          (cellOf E t.columns (folded p.inner) b) := by
    intro p paired
    have equal := met p paired
    rw [equals, promises.equal_symm] at equal
    rw [grouped _ _ _ equal, equals, equals, promises.equal_symm]
  have long : (a.keyCells outerAliases E t b).length = (a.keyCells outerAliases E t c).length := by
    rw [ScalarAggregate.keyCells, ScalarAggregate.keyCells, List.length_map, List.length_map]
  rw [ScalarAggregate.sameKeys, componentwise _ _ long, ScalarAggregate.keyCells,
    ScalarAggregate.keyCells, List.zip_map', List.all_map, ScalarAggregate.meets, Bool.eq_iff_iff,
    List.all_eq_true, List.all_eq_true]
  constructor
  · intro all p paired
    rw [← each p paired]
    exact all p.inner (mem_joinKeyPaths.mpr ⟨p, paired, rfl⟩)
  · intro all key listed
    obtain ⟨p, paired, rfl⟩ := mem_joinKeyPaths.mp listed
    exact (each p paired).trans (all p paired)

theorem sameKeys_symm (b c : List D) :
    a.sameKeys outerAliases E t b c = a.sameKeys outerAliases E t c b := by
  obtain ⟨same, componentwise, symm, _⟩ := promises.grouping
  have long : (a.keyCells outerAliases E t b).length = (a.keyCells outerAliases E t c).length := by
    rw [ScalarAggregate.keyCells, ScalarAggregate.keyCells, List.length_map, List.length_map]
  rw [ScalarAggregate.sameKeys, ScalarAggregate.sameKeys, componentwise _ _ long,
    componentwise _ _ long.symm, ScalarAggregate.keyCells, ScalarAggregate.keyCells, List.zip_map',
    List.zip_map', List.all_map, List.all_map]
  congr 1
  funext key
  exact symm _ _

end

section
variable (plain : a.Correlated outerAliases) (evaluates : a.Evaluates outerAliases E s left t value)
  (promises : LiftPromises E) (outside : ∀ l ∈ left.rows, l.length = left.columns.length)
  {cte : Ident} {more : List Column}
  (apart : ∀ c ∈ left.columns ++ more, ¬[cte.folded] <:+ c.qualifier)
  (alone : ∀ p ∈ a.pairs outerAliases, ∀ c ∈ more, c.answers (folded p.outer) = false)
  (beside : l ∈ left.rows) {o : List D} (long : o.length = more.length)
include plain evaluates promises outside apart alone beside long

/-- ON, beside a row of the enclosing query, in the row of a group. -/
theorem on_meets (s' : Scope D) {b : List D} (row : b ∈ t.rows) (v : D) :
    passes E (optionMeaning E (buildAnd ((a.pairs outerAliases).map (onPredicate cte))))
        (s'.under (.row (left.columns ++ more ++ a.cteColumns outerAliases cte)
          (l ++ o ++ v :: a.keyCells outerAliases E t b))) =
      some (a.meets outerAliases E left t l b) := by
  have wide := outside l beside
  have truth : ∀ p ∈ a.pairs outerAliases,
      ((exprMeaning E (onPredicate cte p)).value (s'.under (.row
        (left.columns ++ more ++ a.cteColumns outerAliases cte)
          (l ++ o ++ v :: a.keyCells outerAliases E t b)))).bind E.truth =
        verdict E (cellOf E left.columns (folded p.outer) l)
          (cellOf E t.columns (folded p.inner) b) := by
    intro p paired
    have column := (evaluates.outer p paired).1
    have others := alone p paired
    have listed : p.inner ∈ a.keys outerAliases := mem_joinKeyPaths.mpr ⟨p, paired, rfl⟩
    obtain ⟨outer, _, name, key, rfl, _⟩ := pair_cases plain paired
    have spelled : Spells (onPredicate cte (equation outer a.alias_ name key))
        (equation outer cte name key) := .inl rfl
    refine spelled_truth promises (under_isRow _ _ _) spelled (fun e => ?_) fun e => ?_
    · have other : outer.folded ≠ cte.folded := by
        obtain ⟨c, member, answers⟩ := isColumn_answers column
        have qualified : [outer.folded] <:+ c.qualifier := (of_decide_eq_true answers).2
        intro same
        rw [same] at qualified
        exact apart c (List.mem_append_left _ member) qualified
      change lookup e _ (.row _ _ :: _) = _
      rw [List.append_assoc, List.append_assoc, lookup_apart wide]
      · exact lookup_cell E column wide
      · exact List.forall_mem_append.mpr ⟨others, cteColumns_apart other⟩
    · change lookup e _ (.row _ _ :: _) = _
      rw [lookup_behind (by rw [List.length_append, List.length_append, wide, long])
        (columns_apart apart)]
      exact lookup_key plain cte listed
  have each : ∀ e ∈ (a.pairs outerAliases).map (onPredicate cte), splitAnd e = [e] := by
    rw [List.forall_mem_map]
    intro p paired
    obtain ⟨_, _, _, _, rfl, _⟩ := pair_cases plain paired
    rfl
  have judged : ∀ c ∈ (a.pairs outerAliases).map (onPredicate cte), Judged E (s'.under (.row
      (left.columns ++ more ++ a.cteColumns outerAliases cte)
        (l ++ o ++ v :: a.keyCells outerAliases E t b))) c := by
    rw [List.forall_mem_map]
    intro p paired
    obtain ⟨found, compared⟩ := evaluates.compared p paired l beside b row
    exact judged_of_truth ((truth p paired).trans compared)
  rw [passes_conjuncts E (under_isRow _ _ _) (by rw [conjuncts_buildAnd each]; exact judged),
    conjuncts_buildAnd each, List.all_map, ScalarAggregate.meets, Option.some_inj, Bool.eq_iff_iff,
    List.all_eq_true, List.all_eq_true]
  refine forall₂_congr fun p paired => ?_
  rw [Function.comp_apply, holds, truth p paired]
  rfl

/-- Beside a row of the enclosing query the join puts one row: the aggregate over what is matched
there and its keys, or NULLs where nothing is. -/
theorem beside_row {kind : JoinKind} {on_ : Expr} (keeps : keepsUnmatched kind = true)
    (same : ∀ r : Scope D, IsRow r → passes E (some (exprMeaning E on_)) r =
      passes E (optionMeaning E (buildAnd ((a.pairs outerAliases).map (onPredicate cte)))) r)
    (s' : Scope D) :
    ∃ v keys, besideRow E s' kind (left.columns ++ more) (a.cteColumns outerAliases cte) on_
        (l ++ o) (a.liftedRows outerAliases E s t value) = some [l ++ o ++ v :: keys] ∧
      keys.length = (a.keys outerAliases).length ∧
      (v = value (a.matched outerAliases E s left t l) ∨
        v = E.null ∧ a.matched outerAliases E s left t l = []) := by
  cases none_ : (a.keys outerAliases).isEmpty with
  | true =>
    have keys : a.keys outerAliases = [] := List.isEmpty_iff.mp none_
    have pairs : a.pairs outerAliases = [] := by
      refine List.eq_nil_iff_forall_not_mem.mpr fun p paired => ?_
      have listed : p.inner ∈ a.keys outerAliases := mem_joinKeyPaths.mpr ⟨p, paired, rfl⟩
      rw [keys] at listed
      cases listed
    have all : a.matched outerAliases E s left t l = a.passedRows outerAliases E s t := by
      refine List.filter_eq_self.mpr fun b _ => ?_
      rw [ScalarAggregate.meets, pairs]
      rfl
    have met : kept (fun d => passes E (some (exprMeaning E on_)) (s'.under (.row
        (left.columns ++ more ++ a.cteColumns outerAliases cte) (l ++ o ++ d))))
          (a.liftedRows outerAliases E s t value) =
            some [[value (a.matched outerAliases E s left t l)]] := by
      rw [ScalarAggregate.liftedRows, if_pos none_, all]
      refine kept_all fun d _ => ?_
      rw [same _ (under_isRow _ _ _), pairs]
      rfl
    refine ⟨value (a.matched outerAliases E s left t l), [], ?_, by rw [keys]; rfl, .inl rfl⟩
    rw [besideRow, met, keeps]
    rfl
  | false =>
    have inside : ∀ b ∈ Engine.keepFirst (a.sameKeys outerAliases E t)
        (a.passedRows outerAliases E s t), b ∈ t.rows := fun b member =>
      (List.mem_filter.mp (keepFirst_sub member)).1
    have tested : ∀ b ∈ t.rows, ∀ v, passes E (some (exprMeaning E on_)) (s'.under (.row
        (left.columns ++ more ++ a.cteColumns outerAliases cte)
          (l ++ o ++ v :: a.keyCells outerAliases E t b))) =
            some (a.meets outerAliases E left t l b) := fun b row v =>
      (same _ (under_isRow _ _ _)).trans
        (on_meets plain evaluates promises outside apart alone beside long s' row v)
    -- of the groups the one is met whose rows are matched, if any are
    have one : (Engine.keepFirst (a.sameKeys outerAliases E t)
        (a.passedRows outerAliases E s t)).filter (a.meets outerAliases E left t l) =
          (a.matched outerAliases E s left t l).take 1 :=
      keepFirst_class fun _ _ _ _ met => sameKeys_meets promises met
    have met : kept (fun d => passes E (some (exprMeaning E on_)) (s'.under (.row
        (left.columns ++ more ++ a.cteColumns outerAliases cte) (l ++ o ++ d))))
          (a.liftedRows outerAliases E s t value) =
            some (((a.matched outerAliases E s left t l).take 1).map fun b =>
              value ((a.passedRows outerAliases E s t).filter (a.sameKeys outerAliases E t b)) ::
                a.keyCells outerAliases E t b) := by
      rw [ScalarAggregate.liftedRows, if_neg (by rw [none_]; exact Bool.false_ne_true), ← one]
      refine kept_eq_some.mpr ⟨?_, ?_⟩
      · rw [List.forall_mem_map]
        exact fun b member => ⟨_, tested b (inside b member) _⟩
      · rw [List.filter_map]
        refine congrArg _ (List.filter_congr fun b member => ?_)
        rw [Function.comp_apply, tested b (inside b member), Option.some_beq_some, beq_true]
    rw [besideRow, met, keeps]
    cases matched : a.matched outerAliases E s left t l with
    | nil =>
      refine ⟨E.null, List.replicate (a.keys outerAliases).length E.null, ?_, List.length_replicate,
        .inr ⟨rfl, rfl⟩⟩
      rw [ScalarAggregate.cteColumns, List.length_cons, List.length_map]
      rfl
    | cons b rest =>
      have member : b ∈ a.matched outerAliases E s left t l := by
        rw [matched]
        exact List.mem_cons_self
      have group : (a.passedRows outerAliases E s t).filter (a.sameKeys outerAliases E t b) =
          a.matched outerAliases E s left t l := by
        refine List.filter_congr fun c _ => ?_
        rw [sameKeys_symm promises, sameKeys_meets promises (List.mem_filter.mp member).2]
      refine ⟨value (a.matched outerAliases E s left t l), a.keyCells outerAliases E t b, ?_, ?_,
        .inl (by rw [matched])⟩
      · rw [List.take_succ_cons, List.take_zero, List.map_singleton, group]
        rfl
      · rw [ScalarAggregate.keyCells, List.length_map]

end

end

end PgCatalog.ScalarToCte
