import Mathlib.Data.List.Infix
import PgCatalog.ScalarToCte.Comparison
import PgCatalog.ScalarToCte.Shadowing

/-! What the names that a lifted subquery leaves outside its body refer to: the references
to its CTE, and the tables of its join condition. -/
namespace PgCatalog.ScalarToCte

open Sql

/-- The name of an item's column; `unspelled` gives those an item does not spell out. -/
def itemName (unspelled : SelectItem → String) : SelectItem → String
  | .exprWithAlias _ alias_ => alias_.folded
  | .unnamedExpr (.compoundIdentifier path) => exposedName path
  | .unnamedExpr (.identifier id) => id.folded
  | item => unspelled item

/-- The name a subquery's value has in its CTE. -/
def valueName (unspelled : SelectItem → String) : SelectItem → String
  | .unnamedExpr _ => "col"
  | item => itemName unspelled item

/-- The columns a query over a plain SELECT puts out. -/
def outputColumns (unspelled : SelectItem → String) (q : Query) : List String :=
  ((selectOf q).map fun sel => sel.projection.map (itemName unspelled)).getD []

/-- The column of a CTE that a path after its name refers to is the only one so named. -/
def RefersToOne (columns : List String) (cte : Ident) : Expr → Prop
  | .compoundIdentifier [table, column] => table = cte ∧ columns.count column.folded = 1
  | _ => False

/-- `__cteN.col` is the value, first of the columns of the CTE's body and alone of that
name, and each key reference of the join condition has one column to go to. -/
def ReferencesResolve (unspelled : SelectItem → String) (info : CorrelatedInfo) (cteBody : Query) :
    Prop :=
  let columns := outputColumns unspelled cteBody
  columns.head? = some "col" ∧ columns.count "col" = 1 ∧
    ∀ p ∈ info.onPairs, RefersToOne columns info.cteIdent (qualifyWithCteAlias info.cteIdent p.inner)

/-- A path is compared in the subquery's WHERE clause with a column under an outer alias. -/
def IsKey (outerAliases : List Ident) (q : Query) (path : List Ident) : Prop :=
  ∃ name ∈ outerAliases, ∃ c ∈ whereConjuncts q, ∃ p, liftedPair c name = some p ∧ p.inner = path

/-- The value goes by `col`, and the keys by names of their own that a reference can spell. -/
def ColumnsDistinct (unspelled : SelectItem → String) (outerAliases : List Ident) (q : Query)
    (item : SelectItem) : Prop :=
  valueName unspelled item = "col" ∧
    ∀ key, IsKey outerAliases q key →
      key.length ≤ 2 ∧ exposedName key ≠ "col" ∧
        ∀ other, IsKey outerAliases q other → exposedName other = exposedName key → other = key

@[simp] theorem injectGroupBy_projection (sel : Select) :
    (injectGroupBy sel).projection = sel.projection := by
  rw [injectGroupBy]
  split
  · rfl
  · dsimp only
    split <;> rfl

theorem projection_qualifyPgCatalogTables (q : Query) :
    (selectOf (qualifyPgCatalogTables q)).map (·.projection) = (selectOf q).map (·.projection) := by
  obtain ⟨_, ⟨_, _, _, _, _, _⟩ | _ | _ | _, _, _, _⟩ := q <;>
    simp only [qualifyPgCatalogTables, qualifyBody, selectOf, Option.map_some, Option.map_none]

/-- Join keys are added behind a projection that names none of them bare. -/
theorem foldl_ensureProjectedColumn {keys : List (List Ident)} (nodup : keys.Nodup)
    {projection : List SelectItem} (absent : ∀ key ∈ keys, projection.any (projectsPath key) = false) :
    keys.foldl ensureProjectedColumn projection =
      projection ++ keys.map fun key => .unnamedExpr (.compoundIdentifier key) := by
  induction keys generalizing projection with
  | nil => simp
  | cons key rest ih =>
    obtain ⟨fresh, nodup⟩ := List.nodup_cons.mp nodup
    rw [List.foldl_cons, ensureProjectedColumn, absent key (List.mem_cons_self ..)]
    simp only [Bool.false_eq_true, if_false, List.map_cons]
    rw [ih nodup, List.append_assoc, List.singleton_append]
    intro other member
    simp only [List.any_append, absent other (List.mem_cons_of_mem _ member), List.any_cons,
      List.any_nil, projectsPath, Bool.or_false, Bool.false_or, decide_eq_false_iff_not]
    rintro rfl
    exact fresh member

theorem exposeValue_absent (pairs : List CorrelatedPredicate) (item : SelectItem) (key : List Ident) :
    (exposeValue pairs [item]).any (projectsPath key) = false := by
  cases item <;> rfl

theorem col_folded : (Ident.new "col").folded = "col" := by decide +kernel

/-- The projection of a lifted subquery: its value, then its keys. -/
theorem projection_cleanedSubquery {info : CorrelatedInfo} {sel : Select} {item : SelectItem}
    (body : info.subquery.body = .select sel) (single : sel.projection = [item]) :
    (selectOf (cleanedSubquery info)).map (·.projection) =
      some (exposeValue info.onPairs [item] ++ (joinKeyPaths info.onPairs).map fun key =>
        .unnamedExpr (.compoundIdentifier key)) := by
  simp only [cleanedSubquery, body, projection_qualifyPgCatalogTables]
  simp only [selectOf, Option.map_some, cleanedSelect, injectGroupBy_projection]
  rw [foldl_ensureProjectedColumn (nodup_joinKeyPaths _)]
  · rw [stripCorrFilters]
    split <;> rw [single]
  · intro key _
    rw [stripCorrFilters]
    split <;> · rw [single]; exact exposeValue_absent _ item key

theorem outputColumns_cleanedSubquery {unspelled : SelectItem → String} {info : CorrelatedInfo}
    {sel : Select} {item : SelectItem} (body : info.subquery.body = .select sel)
    (single : sel.projection = [item]) :
    outputColumns unspelled (cleanedSubquery info) =
      valueName unspelled item :: (joinKeyPaths info.onPairs).map exposedName := by
  have projected := projection_cleanedSubquery body single
  have named : outputColumns unspelled (cleanedSubquery info) =
      (((selectOf (cleanedSubquery info)).map (·.projection)).map
        (·.map (itemName unspelled))).getD [] := by
    rw [outputColumns, Option.map_map]
    rfl
  rw [named, projected, Option.map_some, Option.getD_some, List.map_append, List.map_map]
  cases item with
  | unnamedExpr e => exact congrArg (· :: _) col_folded
  | exprWithAlias _ _ | qualifiedWildcard _ | wildcard => rfl

theorem isKey_iff (host : Host) (origAlias : Option Ident) (cteIdent : Ident)
    {outerAliases : List Ident} {q : Query} {inner : Select} (body : q.body = .select inner)
    {path : List Ident} :
    IsKey outerAliases q path ↔
      path ∈ joinKeyPaths (correlatedInfo host origAlias outerAliases q inner cteIdent).onPairs := by
  simp only [mem_joinKeyPaths, mem_correlatedInfo_onPairs body, IsKey]
  constructor
  · rintro ⟨name, listed, c, conjunct, p, lifted, rfl⟩
    exact ⟨p, ⟨name, listed, c, conjunct, lifted⟩, rfl⟩
  · rintro ⟨p, ⟨name, listed, c, conjunct, lifted⟩, rfl⟩
    exact ⟨name, listed, c, conjunct, p, lifted, rfl⟩

/-- A key has one column to refer to exactly when its reference is of two parts and nothing
else goes by its name. -/
theorem refersToOne_key_iff {cte : Ident} {value : String} {keys : List (List Ident)}
    (nodup : keys.Nodup) {key : List Ident} (member : key ∈ keys) (nonempty : key ≠ []) :
    RefersToOne (value :: keys.map exposedName) cte (qualifyWithCteAlias cte key) ↔
      key.length ≤ 2 ∧ exposedName key ≠ value ∧
        ∀ other ∈ keys, exposedName other = exposedName key → other = key := by
  have count_iff : (value :: keys.map exposedName).count (exposedName key) = 1 ↔
      exposedName key ≠ value ∧ ∀ other ∈ keys, exposedName other = exposedName key → other = key := by
    have single : (keys.filter (exposedName · = exposedName key)).length = 1 ↔
        ∀ other ∈ keys, exposedName other = exposedName key → other = key := by
      rw [← filter_name_eq_singleton nodup member, List.length_eq_one_iff]
    have present : 0 < (keys.filter (exposedName · = exposedName key)).length :=
      List.length_pos_of_mem (List.mem_filter.mpr ⟨member, decide_eq_true rfl⟩)
    have counted : (keys.map exposedName).count (exposedName key) =
        (keys.filter (exposedName · = exposedName key)).length := by
      rw [List.count, List.countP_map, List.countP_eq_length_filter]
      rfl
    rw [List.count_cons, counted, ← single]
    by_cases taken : value = exposedName key
    · rw [if_pos (by simpa using taken)]
      exact iff_of_false (by omega) fun both => both.1 taken.symm
    · rw [if_neg (by simpa using taken), Nat.add_zero, and_iff_right (Ne.symm taken)]
  rcases key with _ | ⟨first, _ | ⟨second, _ | ⟨third, rest⟩⟩⟩
  · exact absurd rfl nonempty
  · exact (and_iff_right rfl).trans (count_iff.trans (and_iff_right (Nat.le_succ 1)).symm)
  · exact (and_iff_right rfl).trans (count_iff.trans (and_iff_right (Nat.le_refl 2)).symm)
  · simp [qualifyWithCteAlias, RefersToOne]

theorem referencesResolve_iff {unspelled : SelectItem → String} {host : Host}
    {outerAliases : List Ident} {q : Query} {inner : Select} {item : SelectItem}
    {origAlias : Option Ident} {cteIdent : Ident} {cteBody : Query} (body : q.body = .select inner)
    (single : inner.projection = [item])
    (kept : outputColumns unspelled cteBody = outputColumns unspelled
      (cleanedSubquery (correlatedInfo host origAlias outerAliases q inner cteIdent))) :
    ReferencesResolve unspelled (correlatedInfo host origAlias outerAliases q inner cteIdent)
      cteBody ↔ ColumnsDistinct unspelled outerAliases q item := by
  have columns : outputColumns unspelled cteBody = _ :=
    kept.trans (outputColumns_cleanedSubquery body single)
  have nonempty : ∀ p ∈ (correlatedInfo host origAlias outerAliases q inner cteIdent).onPairs,
      p.inner ≠ [] := by
    intro p member
    obtain ⟨_, _, _, _, lifted⟩ := (mem_correlatedInfo_onPairs body).mp member
    obtain ⟨_, _, _, _, nonempty, _⟩ := liftedPair_cases lifted
    exact nonempty
  simp only [ReferencesResolve, columns, ColumnsDistinct, List.head?_cons, Option.some.injEq,
    isKey_iff host origAlias cteIdent body]
  generalize (correlatedInfo host origAlias outerAliases q inner cteIdent).onPairs = pairs at *
  have nodup := nodup_joinKeyPaths pairs
  refine and_congr_right fun named => ?_
  rw [named]
  have key : ∀ p ∈ pairs, (RefersToOne ("col" :: (joinKeyPaths pairs).map exposedName)
      cteIdent (qualifyWithCteAlias cteIdent p.inner) ↔ _) := fun p member =>
    refersToOne_key_iff nodup (mem_joinKeyPaths.mpr ⟨p, member, rfl⟩) (nonempty p member)
  have free : ("col" :: (joinKeyPaths pairs).map exposedName).count "col" = 1 ↔
      ∀ path ∈ joinKeyPaths pairs, exposedName path ≠ "col" := by
    rw [List.count_cons_self, Nat.add_eq_right, List.count_eq_zero]
    simp only [List.mem_map, not_exists, not_and]
  constructor
  · rintro ⟨-, resolve⟩ path listed
    obtain ⟨p, member, rfl⟩ := mem_joinKeyPaths.mp listed
    exact (key p member).mp (resolve p member)
  · intro distinct
    exact ⟨free.mpr fun path listed => (distinct path listed).2.1, fun p member =>
      (key p member).mpr (distinct p.inner (mem_joinKeyPaths.mpr ⟨p, member, rfl⟩))⟩

/-- Every qualified column of the join condition names the joined CTE or a table of the FROM
entry it is joined to. -/
def JoinSeesItsTables (entry : TableWithJoins) (info : CorrelatedInfo) : Prop :=
  ∀ m ∈ (buildLeftJoin info.cteIdent info.onPairs info.outerOnlyPredicates).constraint.mentions,
    ¬(m.within ([info.cteIdent.folded] :: entry.names)).Free

/-- The conjuncts that leave the subquery name such tables only: the outer column of a
comparison, and all of a conjunct that is no comparison. -/
def TablesInReach (names : List Qualifier) (outerAliases : List Ident) (q : Query) : Prop :=
  ∀ alias_ ∈ outerAliases, ∀ c ∈ whereConjuncts q,
    (∀ p, liftedPair c alias_ = some p → ¬(Mention.column names p.outer).Free) ∧
      (NamesOnly alias_ c → (∀ other ∈ outerAliases, ¬ComparesWith other c) →
        ∀ m ∈ c.mentions, ¬(m.within names).Free)

/-- No two of these expressions print alike. -/
def PrintsApart (host : Host) (exprs : List Expr) : Prop :=
  ∀ e ∈ exprs, ∀ e' ∈ exprs, host.display e = host.display e' → e = e'

theorem mentions_chain (first : Expr) (rest : List Expr) :
    (rest.foldl (fun chain e => .binaryOp chain .and e) first).mentions =
      (first :: rest).flatMap (·.mentions) := by
  induction rest generalizing first with
  | nil => simp only [List.foldl_nil, List.flatMap_cons, List.flatMap_nil, List.append_nil]
  | cons second rest ih =>
    rw [List.foldl_cons, ih, List.flatMap_cons, List.flatMap_cons, List.flatMap_cons, Expr.mentions,
      List.append_assoc]

theorem mentions_buildLeftJoin (cte : Ident) (pairs : List CorrelatedPredicate)
    (outerOnly : List Expr) :
    (buildLeftJoin cte pairs outerOnly).constraint.mentions =
      (pairs.map (onPredicate cte) ++ outerOnly.filter fun pred => !pairs.any (isSamePred pred)).flatMap
        (·.mentions) := by
  rw [buildLeftJoin]
  cases pairs.map (onPredicate cte) ++ outerOnly.filter fun pred => !pairs.any (isSamePred pred) with
  | nil => rfl
  | cons first rest =>
    simp only [buildAnd, JoinConstraint.mentions]
    exact mentions_chain first rest

/-- A column of the joined CTE is bound by it. -/
theorem cteColumn_bound {cte : Ident} {names : List Qualifier} {rest : List Ident} :
    ¬(Mention.column ([cte.folded] :: names) (cte :: rest)).Free := by
  rintro ⟨qualified, free⟩
  cases rest with
  | nil => exact qualified rfl
  | cons second rest =>
    refine free [cte.folded] ?_ (List.mem_cons_self ..)
    rw [Mention.qualifiers, List.mem_filter, List.mem_inits]
    exact ⟨⟨_, rfl⟩, rfl⟩

theorem qualifyWithCteAlias_bound (cte : Ident) (names : List Qualifier) (path : List Ident) :
    ∀ m ∈ (qualifyWithCteAlias cte path).mentions, ¬(m.within ([cte.folded] :: names)).Free := by
  intro m member
  rcases path with _ | ⟨first, _ | ⟨second, rest⟩⟩ <;>
  · cases List.mem_singleton.mp member
    exact cteColumn_bound

/-- A lifted comparison names in the join condition its CTE and its outer column. -/
theorem onPredicate_bound_iff (cte : Ident) (names : List Qualifier) (p : CorrelatedPredicate) :
    (∀ m ∈ (onPredicate cte p).mentions, ¬(m.within ([cte.folded] :: names)).Free) ↔
      ¬(Mention.column ([cte.folded] :: names) p.outer).Free := by
  have key := qualifyWithCteAlias_bound cte names p.inner
  have outer : (∀ m ∈ (Expr.compoundIdentifier p.outer).mentions,
      ¬(m.within ([cte.folded] :: names)).Free) ↔
        ¬(Mention.column ([cte.folded] :: names) p.outer).Free := by
    simp only [Expr.mentions, List.forall_mem_singleton, Mention.within, List.nil_append]
  rw [onPredicate]
  split <;> simp only [Expr.mentions, List.forall_mem_append] at outer ⊢
  · rw [and_iff_right key]
    exact outer
  · rw [and_iff_left key]
    exact outer

section
variable {host : Host} {outerAliases : List Ident} {q : Query} {inner : Select}
  {origAlias : Option Ident} {cteIdent : Ident}

/-- Where conjuncts print apart, the outer-only ones are all kept. -/
theorem mem_outerOnly_iff (body : q.body = .select inner)
    (prints : PrintsApart host (whereConjuncts q)) {c : Expr} :
    c ∈ (correlatedInfo host origAlias outerAliases q inner cteIdent).outerOnlyPredicates ↔
      c ∈ whereConjuncts q ∧ ∃ alias_ ∈ outerAliases, NamesOnly alias_ c := by
  constructor
  · intro member
    obtain ⟨alias_, listed, conjunct, only⟩ := mem_correlatedInfo_outerOnly body member
    exact ⟨conjunct, alias_, listed, isOuterOnly_iff.mp only⟩
  · rintro ⟨conjunct, alias_, listed, only⟩
    have kept : ∃ e ∈ (correlatedInfo host origAlias outerAliases q inner
        cteIdent).outerOnlyPredicates, host.display e = host.display c := by
      simp only [whereConjuncts, selectOf, body, Option.bind_some] at conjunct
      simp only [correlatedInfo]
      cases filter : inner.selection with
      | none =>
        rw [filter] at conjunct
        cases conjunct
      | some pred =>
        rw [filter] at conjunct
        exact exists_mem_firstOfSame (List.mem_flatMap.mpr
          ⟨alias_, listed, List.mem_filter.mpr ⟨conjunct, isOuterOnly_iff.mpr only⟩⟩)
    obtain ⟨e, member, alike⟩ := kept
    obtain ⟨_, _, listed', _⟩ := mem_correlatedInfo_outerOnly body member
    exact prints e listed' c conjunct alike ▸ member

theorem joinSeesItsTables_iff (body : q.body = .select inner) (entry : TableWithJoins)
    (prints : PrintsApart host (whereConjuncts q)) :
    JoinSeesItsTables entry (correlatedInfo host origAlias outerAliases q inner cteIdent) ↔
      TablesInReach ([cteIdent.folded] :: entry.names) outerAliases q := by
  have parts : JoinSeesItsTables entry (correlatedInfo host origAlias outerAliases q inner cteIdent) ↔
      (∀ p ∈ (correlatedInfo host origAlias outerAliases q inner cteIdent).onPairs,
        ¬(Mention.column ([cteIdent.folded] :: entry.names) p.outer).Free) ∧
      ∀ c ∈ (correlatedInfo host origAlias outerAliases q inner cteIdent).outerOnlyPredicates,
        (∀ p ∈ (correlatedInfo host origAlias outerAliases q inner cteIdent).onPairs,
          isSamePred c p = false) →
        ∀ m ∈ c.mentions, ¬(m.within ([cteIdent.folded] :: entry.names)).Free := by
    simp only [JoinSeesItsTables, mentions_buildLeftJoin, List.flatMap_append,
      List.forall_mem_append, List.mem_flatMap, List.mem_map, List.mem_filter, Bool.not_eq_true',
      List.any_eq_false, Bool.not_eq_true]
    refine and_congr ⟨fun bound p member => ?_, ?_⟩ ⟨?_, ?_⟩
    · exact (onPredicate_bound_iff _ _ p).mp fun m inside =>
        bound m ⟨_, ⟨p, member, rfl⟩, inside⟩
    · rintro bound m ⟨_, ⟨p, member, rfl⟩, inside⟩
      exact (onPredicate_bound_iff _ _ p).mpr (bound p member) m inside
    · exact fun bound c member apart m inside => bound m ⟨c, ⟨member, apart⟩, inside⟩
    · rintro bound m ⟨c, ⟨member, apart⟩, inside⟩
      exact bound c member apart m inside
  rw [parts]
  simp only [mem_correlatedInfo_onPairs body, mem_outerOnly_iff body prints]
  have repeated : ∀ c ∈ whereConjuncts q,
      ((∀ p, (∃ name ∈ outerAliases, ∃ c ∈ whereConjuncts q, liftedPair c name = some p) →
        isSamePred c p = false) ↔ ∀ other ∈ outerAliases, ¬ComparesWith other c) := by
    intro c conjunct
    have compares := @repeats_pair_iff host outerAliases q inner origAlias cteIdent body c conjunct
    simp only [mem_correlatedInfo_onPairs body] at compares
    rw [← not_iff_not]
    push Not
    simpa using compares
  constructor
  · rintro ⟨pairs, only⟩ alias_ listed c conjunct
    refine ⟨fun p lifted => pairs p ⟨alias_, listed, c, conjunct, lifted⟩, fun names apart => ?_⟩
    exact only c ⟨conjunct, alias_, listed, names⟩ ((repeated c conjunct).mpr apart)
  · intro reach
    constructor
    · rintro p ⟨alias_, listed, c, conjunct, lifted⟩
      exact (reach alias_ listed c conjunct).1 p lifted
    · rintro c ⟨conjunct, alias_, listed, names⟩ apart
      exact (reach alias_ listed c conjunct).2 names ((repeated c conjunct).mp apart)

end

end PgCatalog.ScalarToCte
