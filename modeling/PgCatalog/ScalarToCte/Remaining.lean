import PgCatalog.ScalarToCte.Tables
import PgCatalog.ScalarToCte.Ungrouped

/-! What remains of a lifted subquery beside its join keys and grouping, and the tables of
the enclosing query that it still names. -/
namespace PgCatalog.ScalarToCte

open Sql

/-- A conjunct in which no outer alias is compared, and that none has to itself. -/
def stays (outerAliases : List Ident) (c : Expr) : Bool :=
  !outerAliases.any fun name => (liftedPair c name).isSome || isOuterOnly c name

def remainingSelect (outerAliases : List Ident) (sel : Select) : Select :=
  { sel with
    projection := exposeValue (subqueryPairs outerAliases sel) sel.projection
    selection := buildAnd ((conjuncts sel.selection).filter (stays outerAliases)) }

/-- A subquery with the conjuncts that stay, and its value written with the join keys. -/
def remaining (outerAliases : List Ident) (q : Query) : Query :=
  match q.body with
  | .select sel => { q with body := .select (remainingSelect outerAliases sel) }
  | _ => q

theorem stays_iff {outerAliases : List Ident} {c : Expr} :
    stays outerAliases c = true ↔
      (∀ name ∈ outerAliases, ¬ComparesWith name c) ∧ ∀ name ∈ outerAliases, ¬NamesOnly name c := by
  simp only [stays, Bool.not_eq_true', List.any_eq_false, Bool.or_eq_true, not_or,
    liftedPair_isSome_iff, isOuterOnly_iff, ← forall_and]

section
variable {host : Host} {outerAliases : List Ident} {q : Query} {inner : Select}
  {origAlias : Option Ident} {cteIdent : Ident}

/-- A lifted body is what remains, with the join keys projected and grouped. -/
theorem cleanedSelect_eq (body : q.body = .select inner) :
    cleanedSelect inner (subqueryPairs outerAliases inner) outerAliases =
      injectGroupBy { remainingSelect outerAliases inner with
        projection := (joinKeyPaths (subqueryPairs outerAliases inner)).foldl ensureProjectedColumn
          (remainingSelect outerAliases inner).projection } := by
  have kept : ∀ c ∈ whereConjuncts q,
      (!(subqueryPairs outerAliases inner).any (isSamePred c) &&
        !outerAliases.any (isOuterOnly c)) = stays outerAliases c := by
    intro c conjunct
    have repeated := @repeats_pair_iff blankHost outerAliases q inner none (.new "") body c conjunct
    rw [Bool.eq_iff_iff, stays_iff]
    simp only [Bool.and_eq_true, Bool.not_eq_true', List.any_eq_false, Bool.not_eq_true,
      isOuterOnly_iff, correlatedInfo] at repeated ⊢
    refine and_congr ?_ Iff.rfl
    have apart := not_congr repeated
    push Not at apart
    simpa using apart
  have stripped : stripCorrFilters inner (subqueryPairs outerAliases inner) outerAliases =
      { inner with
        selection := buildAnd ((conjuncts inner.selection).filter (stays outerAliases)) } := by
    simp only [whereConjuncts, selectOf, body, Option.bind_some] at kept
    obtain ⟨_, _, _, selection, _, _⟩ := inner
    cases selection with
    | none => rfl
    | some pred =>
      dsimp only [conjuncts] at kept
      simp only [stripCorrFilters, keptConjuncts, conjuncts]
      rw [List.filter_congr kept]
  simp only [cleanedSelect, stripped, remainingSelect]

end

mutual

/-- An open part of an expression mentions what the expression does. -/
theorem mentions_of_openParts {part : Expr} {m : Mention} (inside : m ∈ part.mentions) :
    ∀ e : Expr, part ∈ openParts e → m ∈ e.mentions
  | .function ⟨name, args, filter, over_, withinGroup⟩, member => by
    rw [openParts] at member
    obtain rfl | member := List.mem_cons.mp member
    · exact inside
    · split at member
      · cases member
      · simp only [Expr.mentions, Function.mentions, List.mem_append]
        exact .inl (.inl (.inl (mentions_of_openArguments inside args member)))
  | .binaryOp left _ right, member => by
    simp only [openParts, List.mem_cons, List.mem_append] at member
    obtain rfl | member | member := member
    · exact inside
    · exact List.mem_append_left _ (mentions_of_openParts inside left member)
    · exact List.mem_append_right _ (mentions_of_openParts inside right member)
  | .isDistinctFrom left right, member => by
    simp only [openParts, List.mem_cons, List.mem_append] at member
    obtain rfl | member | member := member
    · exact inside
    · exact List.mem_append_left _ (mentions_of_openParts inside left member)
    · exact List.mem_append_right _ (mentions_of_openParts inside right member)
  | .isNotDistinctFrom left right, member => by
    simp only [openParts, List.mem_cons, List.mem_append] at member
    obtain rfl | member | member := member
    · exact inside
    · exact List.mem_append_left _ (mentions_of_openParts inside left member)
    · exact List.mem_append_right _ (mentions_of_openParts inside right member)
  | .nested inner, member => by
    obtain rfl | member := List.mem_cons.mp member
    · exact inside
    · exact mentions_of_openParts inside inner member
  | .unaryOp _ inner, member => by
    obtain rfl | member := List.mem_cons.mp member
    · exact inside
    · exact mentions_of_openParts inside inner member
  | .cast _ inner _, member => by
    obtain rfl | member := List.mem_cons.mp member
    · exact inside
    · exact mentions_of_openParts inside inner member
  | .isTest _ inner, member => by
    obtain rfl | member := List.mem_cons.mp member
    · exact inside
    · exact mentions_of_openParts inside inner member
  | .case operand conditions elseResult, member => by
    simp only [openParts, List.mem_cons, List.mem_append] at member
    obtain rfl | (member | member) | member := member
    · exact inside
    · exact List.mem_append_left _ (List.mem_append_left _
        (mentions_of_openOption inside operand member))
    · exact List.mem_append_left _ (List.mem_append_right _
        (mentions_of_openCases inside conditions member))
    · exact List.mem_append_right _ (mentions_of_openOption inside elseResult member)
  | .identifier _, member => List.mem_singleton.mp member ▸ inside
  | .compoundIdentifier _, member => List.mem_singleton.mp member ▸ inside
  | .value _, member => List.mem_singleton.mp member ▸ inside
  | .anyOp _ _ _ _, member => List.mem_singleton.mp member ▸ inside
  | .compoundFieldAccess _ _, member => List.mem_singleton.mp member ▸ inside
  | .subquery _, member => List.mem_singleton.mp member ▸ inside
  | .exists _ _, member => List.mem_singleton.mp member ▸ inside
  | .inSubquery _ _ _, member => List.mem_singleton.mp member ▸ inside
  | .node _ _, member => List.mem_singleton.mp member ▸ inside

theorem mentions_of_openOption {part : Expr} {m : Mention} (inside : m ∈ part.mentions) :
    ∀ e : Option Expr, part ∈ openOption e → m ∈ mentionsOption e
  | none, member => by cases member
  | some e, member => mentions_of_openParts inside e member

theorem mentions_of_openCases {part : Expr} {m : Mention} (inside : m ∈ part.mentions) :
    ∀ cases : List CaseWhen, part ∈ openCases cases → m ∈ mentionsCases cases
  | [], member => by cases member
  | ⟨condition, result⟩ :: rest, member => by
    simp only [openCases, mentionsCases, List.mem_append] at member ⊢
    exact member.imp (·.imp (mentions_of_openParts inside condition)
      (mentions_of_openParts inside result)) (mentions_of_openCases inside rest)

theorem mentions_of_openArguments {part : Expr} {m : Mention} (inside : m ∈ part.mentions) :
    ∀ args : FunctionArguments, part ∈ openArguments args → m ∈ args.mentions
  | .none, member => by cases member
  | .subquery _, member => by cases member
  | .list _ args _, member => List.mem_append_left _ (mentions_of_openArgs inside args member)

theorem mentions_of_openArgs {part : Expr} {m : Mention} (inside : m ∈ part.mentions) :
    ∀ args : List FunctionArg, part ∈ openArgs args → m ∈ mentionsArgs args
  | [], member => by cases member
  | .unnamed (.expr e) :: rest, member => by
    simp only [openArgs, mentionsArgs, List.mem_append] at member ⊢
    exact member.imp (mentions_of_openParts inside e) (mentions_of_openArgs inside rest)
  | .unnamed (.qualifiedWildcard _) :: rest, member => by
    simp only [openArgs] at member
    exact List.mem_append_right _ (mentions_of_openArgs inside rest member)
  | .unnamed .wildcard :: rest, member => by
    simp only [openArgs] at member
    exact List.mem_append_right _ (mentions_of_openArgs inside rest member)
  | .named _ _ :: rest, member => by
    simp only [openArgs] at member
    exact List.mem_append_right _ (mentions_of_openArgs inside rest member)

end

theorem mem_mentionsItems {projection : List SelectItem} {m : Mention} :
    m ∈ mentionsItems projection ↔ ∃ item ∈ projection, m ∈ mentionsItems [item] := by
  induction projection with
  | nil => simp [mentionsItems]
  | cons item rest ih =>
    have split : mentionsItems (item :: rest) = mentionsItems [item] ++ mentionsItems rest := by
      cases item <;> simp [mentionsItems]
    rw [split, List.mem_append, ih, List.exists_mem_cons_iff]

theorem mem_mentionsList {es : List Expr} {m : Mention} :
    m ∈ mentionsList es ↔ ∃ e ∈ es, m ∈ e.mentions := by
  induction es with
  | nil => simp [mentionsList]
  | cons e rest ih => rw [mentionsList, List.mem_append, ih, List.exists_mem_cons_iff]

/-- Every key a grouping adds is a column that stands open in the projection. -/
theorem groupingKey_open {projection : List SelectItem} {c : ColumnRef}
    (key : c ∈ (collectProjection (countedExprs projection)).cols) :
    isColumn c.expr = true ∧ ∃ item ∈ projection, ∃ e, itemExpr item = some e ∧
      c.expr ∈ openParts e := by
  have listed := List.mem_map_of_mem (f := ColumnRef.expr) key
  rw [(collectProjection_finds (countedExprs projection)).2, List.mem_filter] at listed
  obtain ⟨listed, column⟩ := listed
  obtain ⟨e, counted, inside⟩ := List.mem_flatMap.mp listed
  obtain ⟨item, member, expr⟩ := List.mem_filterMap.mp (List.mem_filter.mp counted).1
  exact ⟨column, item, member, e, expr, inside⟩

theorem mentionsItems_append (first second : List SelectItem) :
    mentionsItems (first ++ second) = mentionsItems first ++ mentionsItems second := by
  induction first with
  | nil => rfl
  | cons item rest ih => cases item <;> simp [mentionsItems, ih]

/-- Projecting keys mentions them, and relations no more than before. -/
theorem mentions_ensureProjectedColumns (keys : List (List Ident)) (projection : List SelectItem) :
    (∀ m, m ∈ mentionsItems (keys.foldl ensureProjectedColumn projection) ↔
      m ∈ mentionsItems projection ∨ ∃ key ∈ keys, m = .column [] key) ∧
    relationsIn (mentionsItems (keys.foldl ensureProjectedColumn projection)) =
      relationsIn (mentionsItems projection) := by
  induction keys generalizing projection with
  | nil => simp
  | cons key rest ih =>
    obtain ⟨members, relations⟩ := ih (ensureProjectedColumn projection key)
    rw [List.foldl_cons]
    by_cases present : projection.any (projectsPath key) = true
    · rw [ensureProjectedColumn, if_pos present] at members relations ⊢
      refine ⟨fun m => ?_, relations⟩
      rw [members, List.exists_mem_cons_iff]
      refine or_congr_right' fun absent => (or_iff_right ?_).symm
      rintro rfl
      obtain ⟨item, member, projects⟩ := List.any_eq_true.mp present
      refine absent (mem_mentionsItems.mpr ⟨item, member, ?_⟩)
      rw [projectsPath.eq_def] at projects
      split at projects
      · rw [← of_decide_eq_true projects]
        exact List.mem_singleton_self _
      · cases projects
    · rw [ensureProjectedColumn, if_neg present] at members relations ⊢
      constructor
      · intro m
        rw [members, mentionsItems_append, List.mem_append, List.exists_mem_cons_iff, or_assoc]
        exact or_congr_right (or_congr_left List.mem_singleton)
      · rw [relations, mentionsItems_append, relationsIn_append]
        exact List.append_nil _

/-- The keys a grouping adds are columns of the projection. -/
theorem mem_injectGroupBy_mentions {sel : Select} {m : Mention} :
    m ∈ mentionsItems sel.projection ∨ m ∈ (injectGroupBy sel).groupBy.mentions ↔
      m ∈ mentionsItems sel.projection ∨ m ∈ sel.groupBy.mentions := by
  rw [injectGroupBy]
  split
  · rfl
  · rename_i bails
    dsimp only
    split
    · simp only [Bool.or_eq_true, not_or, Bool.not_eq_true] at bails
      have ungrouped : m ∉ sel.groupBy.mentions := by
        obtain ⟨_, _, _, _, groupBy, _⟩ := sel
        rcases groupBy with _ | ⟨_ | _⟩
        · exact List.not_mem_nil
        · exact List.not_mem_nil
        · cases bails.1
      refine ⟨fun either => .inl (either.elim id fun grouped => ?_),
        .inl ∘ (Or.resolve_right · ungrouped)⟩
      obtain ⟨_, listed, inside⟩ := mem_mentionsList.mp grouped
      obtain ⟨c, kept, rfl⟩ := List.mem_map.mp listed
      have key := (mem_foldl_pushNew.mp kept).resolve_left List.not_mem_nil
      obtain ⟨-, item, member, e, expr, isOpen⟩ := groupingKey_open key
      have mentioned := mentions_of_openParts inside e isOpen
      refine mem_mentionsItems.mpr ⟨item, member, ?_⟩
      cases item <;> cases expr <;> simpa [mentionsItems] using mentioned
    · rfl

theorem relationsIn_column {e : Expr} (column : isColumn e = true) : relationsIn e.mentions = [] := by
  cases e <;> first | rfl | cases column

theorem relationsIn_mentionsList {es : List Expr} (columns : ∀ e ∈ es, isColumn e = true) :
    relationsIn (mentionsList es) = [] := by
  induction es with
  | nil => rfl
  | cons e rest ih =>
    obtain ⟨first, later⟩ := List.forall_mem_cons.mp columns
    rw [mentionsList, relationsIn_append, relationsIn_column first, ih later, List.append_nil]

theorem relationsIn_injectGroupBy (sel : Select) :
    relationsIn (injectGroupBy sel).groupBy.mentions = relationsIn sel.groupBy.mentions := by
  rw [injectGroupBy]
  split
  · rfl
  · rename_i bails
    dsimp only
    split
    · have ungrouped : relationsIn sel.groupBy.mentions = [] := by
        simp only [Bool.or_eq_true, not_or, Bool.not_eq_true] at bails
        obtain ⟨_, _, _, _, groupBy, _⟩ := sel
        rcases groupBy with _ | ⟨_ | _⟩
        · rfl
        · rfl
        · cases bails.1
      rw [ungrouped]
      refine relationsIn_mentionsList fun e listed => ?_
      obtain ⟨c, kept, rfl⟩ := List.mem_map.mp listed
      exact (groupingKey_open ((mem_foldl_pushNew.mp kept).resolve_left List.not_mem_nil)).1
    · rfl

section
variable {keys : List (List Ident)}

theorem mem_select_mentions {distinct : Distinct} {projection projection' : List SelectItem}
    {from_ : List TableWithJoins} {selection having : Option Expr} {groupBy groupBy' : GroupByExpr}
    (more : ∀ m, m ∈ mentionsItems projection' ∨ m ∈ groupBy'.mentions ↔
      (m ∈ mentionsItems projection ∨ m ∈ groupBy.mentions) ∨ ∃ key ∈ keys, m = .column [] key)
    {m : Mention} :
    m ∈ (Select.mk distinct projection' from_ selection groupBy' having).mentions ↔
      m ∈ (Select.mk distinct projection from_ selection groupBy having).mentions ∨
        ∃ key ∈ keys, m = .column (fromNames from_) key := by
  have inside : ∀ m, m ∈ distinct.mentions ++ mentionsItems projection' ++
      mentionsOption selection ++ groupBy'.mentions ++ mentionsOption having ↔
      m ∈ distinct.mentions ++ mentionsItems projection ++ mentionsOption selection ++
        groupBy.mentions ++ mentionsOption having ∨ ∃ key ∈ keys, m = .column [] key := by
    intro m
    have more := more m
    simp only [List.mem_append]
    generalize (∃ key ∈ keys, m = Mention.column [] key) = keyed at more ⊢
    tauto
  have keyed : (∃ m' : Mention, (∃ key ∈ keys, m' = .column [] key) ∧ m'.within (fromNames from_) = m) ↔
      ∃ key ∈ keys, m = .column (fromNames from_) key := by
    constructor
    · rintro ⟨_, ⟨key, listed, rfl⟩, rfl⟩
      exact ⟨key, listed, rfl⟩
    · rintro ⟨key, listed, rfl⟩
      exact ⟨_, ⟨key, listed, rfl⟩, rfl⟩
  rw [Select.mentions, Select.mentions, List.mem_append, List.mem_append, List.mem_map, List.mem_map]
  simp only [inside, or_and_right, exists_or, keyed]
  exact or_right_comm

theorem mem_query_mentions {with_ : Option With} {body body' : SetExpr} {orderBy : List OrderByExpr}
    {limit offset : Option Expr} (names : body'.names = body.names)
    (more : ∀ m, m ∈ body'.mentions ↔
      m ∈ body.mentions ∨ ∃ key ∈ keys, m = .column body.names key) {m : Mention} :
    m ∈ (Query.mk with_ body' orderBy limit offset).mentions ↔
      m ∈ (Query.mk with_ body orderBy limit offset).mentions ∨
        ∃ key ∈ keys, m = .column body.names key := by
  have inside : ∀ m, m ∈ body'.mentions ++ (mentionsOrderBy orderBy).map (·.within body.names) ++
      mentionsOption limit ++ mentionsOption offset ↔
      m ∈ body.mentions ++ (mentionsOrderBy orderBy).map (·.within body.names) ++
        mentionsOption limit ++ mentionsOption offset ∨
        ∃ key ∈ keys, m = .column body.names key := by
    intro m
    have more := more m
    simp only [List.mem_append]
    generalize (∃ key ∈ keys, m = Mention.column body.names key) = keyed at more ⊢
    tauto
  have keyed : (∃ m' : Mention, (∃ key ∈ keys, m' = .column body.names key) ∧
      m'.underCtes (cteNames with_) = m) ↔ ∃ key ∈ keys, m = .column body.names key := by
    constructor
    · rintro ⟨_, ⟨key, listed, rfl⟩, rfl⟩
      exact ⟨key, listed, rfl⟩
    · rintro ⟨key, listed, rfl⟩
      exact ⟨_, ⟨key, listed, rfl⟩, rfl⟩
  rw [Query.mentions, Query.mentions, names, List.mem_append, List.mem_append, List.mem_map,
    List.mem_map]
  simp only [inside, or_and_right, exists_or, keyed, or_assoc]

end

section
variable {host : Host} {outerAliases : List Ident} {q : Query} {inner : Select}
  {origAlias : Option Ident} {cteIdent : Ident}

theorem cleanedSubquery_eq (body : q.body = .select inner) :
    cleanedSubquery (correlatedInfo host origAlias outerAliases q inner cteIdent) =
      qualifyPgCatalogTables { q with
        body := .select (injectGroupBy { remainingSelect outerAliases inner with
          projection := (joinKeyPaths (subqueryPairs outerAliases inner)).foldl
            ensureProjectedColumn (remainingSelect outerAliases inner).projection }) } := by
  simp only [cleanedSubquery, correlatedInfo, body, cleanedSelect_eq body]

/-- A lifted body mentions what remains of the subquery, and its join keys. -/
theorem mem_cleanedSubquery_mentions (body : q.body = .select inner) {m : Mention} :
    m ∈ (cleanedSubquery (correlatedInfo host origAlias outerAliases q inner cteIdent)).mentions ↔
      m ∈ (qualifyPgCatalogTables (remaining outerAliases q)).mentions ∨
        ∃ key, IsKey outerAliases q key ∧
          m = .column (qualifyPgCatalogTables (remaining outerAliases q)).body.names key := by
  simp only [isKey_iff host origAlias cteIdent body]
  rw [cleanedSubquery_eq body, remaining]
  simp only [body, correlatedInfo]
  obtain ⟨with_, _, orderBy, limit, offset⟩ := q
  generalize remainingSelect outerAliases inner = rest
  obtain ⟨distinct, projection, from_, selection, groupBy, having⟩ := rest
  rw [injectGroupBy_eq]
  simp only [qualifyPgCatalogTables, qualifyBody]
  refine mem_query_mentions ?_ fun m => ?_
  · rw [SetExpr.names_select, SetExpr.names_select]
  · rw [SetExpr.mentions, SetExpr.mentions, SetExpr.names_select]
    have members := (mentions_ensureProjectedColumns
      (joinKeyPaths (subqueryPairs outerAliases inner)) projection).1
    generalize List.foldl ensureProjectedColumn projection _ = wide at members ⊢
    apply mem_select_mentions
    intro m
    have grouped :=
      @mem_injectGroupBy_mentions ⟨distinct, wide, from_, selection, groupBy, having⟩ m
    dsimp only at grouped
    rw [grouped, members, or_right_comm]

theorem relationsIn_cleanedSubquery (body : q.body = .select inner) :
    relationsIn (cleanedSubquery
        (correlatedInfo host origAlias outerAliases q inner cteIdent)).mentions =
      relationsIn (qualifyPgCatalogTables (remaining outerAliases q)).mentions := by
  rw [cleanedSubquery_eq body, remaining]
  simp only [body]
  obtain ⟨with_, _, orderBy, limit, offset⟩ := q
  generalize remainingSelect outerAliases inner = rest
  obtain ⟨distinct, projection, from_, selection, groupBy, having⟩ := rest
  rw [injectGroupBy_eq]
  simp only [qualifyPgCatalogTables, qualifyBody, Query.mentions, SetExpr.mentions, Select.mentions,
    relationsIn_append, relationsIn_underCtes, relationsIn_within, relationsIn_injectGroupBy,
    (mentions_ensureProjectedColumns _ _).2]

end

/-- A mention in what remains of a subquery, or one of its join keys. -/
def Remains (outerAliases : List Ident) (q : Query) (m : Mention) : Prop :=
  let rest := qualifyPgCatalogTables (remaining outerAliases q)
  m ∈ rest.mentions ∨ ∃ key, IsKey outerAliases q key ∧ m = .column rest.body.names key

/-- A free mention in a lifted body that a table of the enclosing FROM clause would bind. -/
def ReachesOut (outer : Select) (m : Mention) : Prop :=
  m.Free ∧ ∃ name ∈ m.qualifiers, name ∈ fromNames outer.from_

/-- No name that the enclosing FROM clause binds is free in the lifted body. -/
def BodyClosed (outer : Select) (info : CorrelatedInfo) : Prop :=
  ∀ m ∈ (cleanedSubquery info).mentions, ¬ReachesOut outer m

/-- A mention the search for dangling aliases passes over: a wildcard, or a column whose
first part is no collected outer alias but such as the subquery binds somewhere too. -/
def Overlooked (outerAliases : List Ident) (q : Query) : Mention → Prop
  | .column _ path => ∀ alias_ ∈ outerAliases, path.head?.any (sameName · alias_) = true →
      ∃ own ∈ collectDefinedAliases (qualifyPgCatalogTables (remaining outerAliases q)),
        sameName own alias_ = true
  | _ => True

/-- The enclosing tables are never mentioned where the search passes over it. -/
def NothingOverlooked (outer : Select) (q : Query) : Prop :=
  ∀ m, Remains (collectOuterAliases outer.from_) q m → ReachesOut outer m →
    ¬Overlooked (collectOuterAliases outer.from_) q m

theorem firstOfSame_eq_nil {α : Type} {same : α → α → Bool} {xs : List α}
    (empty : firstOfSame same xs = []) : xs = [] := by
  cases xs with
  | nil => rfl
  | cons first rest =>
    have grows : ∀ (rest unique : List α), unique ≠ [] →
        rest.foldl (fun unique x => if unique.any (same · x) then unique else unique ++ [x]) unique ≠
          [] := by
      intro rest
      induction rest with
      | nil => exact fun _ some_ => some_
      | cons x rest ih =>
        intro unique some_
        rw [List.foldl_cons]
        refine ih _ ?_
        split
        · exact some_
        · exact List.append_ne_nil_of_left_ne_nil some_ _
    exact absurd empty (grows rest [first] (List.cons_ne_nil _ _))

section
variable {α : Type} {f : Expr → List α}

theorem visitedItems_append (first second : List SelectItem) :
    visitedItems (first ++ second) = visitedItems first ++ visitedItems second := by
  induction first with
  | nil => rfl
  | cons item rest ih => cases item <;> simp [visitedItems, ih]

theorem visited_ensureProjectedColumns (none_ : ∀ e, isColumn e = true → f e = [])
    (keys : List (List Ident)) (projection : List SelectItem) :
    (visitedItems (keys.foldl ensureProjectedColumn projection)).flatMap f =
      (visitedItems projection).flatMap f := by
  induction keys generalizing projection with
  | nil => rfl
  | cons key rest ih =>
    rw [List.foldl_cons, ih, ensureProjectedColumn]
    split
    · rfl
    · rw [visitedItems_append, List.flatMap_append]
      simp [visitedItems, Expr.visited, none_ (.compoundIdentifier key) rfl]

theorem visited_injectGroupBy (none_ : ∀ e, isColumn e = true → f e = []) (sel : Select) :
    (injectGroupBy sel).groupBy.visited.flatMap f = sel.groupBy.visited.flatMap f := by
  rw [injectGroupBy]
  split
  · rfl
  · rename_i bails
    dsimp only
    split
    · have ungrouped : sel.groupBy.visited.flatMap f = [] := by
        simp only [Bool.or_eq_true, not_or, Bool.not_eq_true] at bails
        obtain ⟨_, _, _, _, groupBy, _⟩ := sel
        rcases groupBy with _ | ⟨_ | _⟩
        · rfl
        · rfl
        · cases bails.1
      rw [ungrouped, GroupByExpr.visited]
      generalize (collectProjection (countedExprs sel.projection)).cols.foldl pushNew [] = cols
      induction cols with
      | nil => rfl
      | cons c rest ih =>
        rw [List.map_cons, visitedList, List.flatMap_append, ih, List.append_nil]
        cases c with
        | identifier id => simp [ColumnRef.expr, Expr.visited, none_ (.identifier id) rfl]
        | compound parts => simp [ColumnRef.expr, Expr.visited, none_ (.compoundIdentifier parts) rfl]
    · rfl

end

section
variable {host : Host} {outerAliases : List Ident} {q : Query} {inner : Select}
  {origAlias : Option Ident} {cteIdent : Ident}

/-- Keys and grouping bind no name. -/
theorem collectDefinedAliases_cleanedSubquery (body : q.body = .select inner) :
    collectDefinedAliases (cleanedSubquery
        (correlatedInfo host origAlias outerAliases q inner cteIdent)) =
      collectDefinedAliases (qualifyPgCatalogTables (remaining outerAliases q)) := by
  rw [cleanedSubquery_eq body, remaining]
  simp only [body]
  obtain ⟨with_, _, orderBy, limit, offset⟩ := q
  generalize remainingSelect outerAliases inner = rest
  obtain ⟨distinct, projection, from_, selection, groupBy, having⟩ := rest
  rw [injectGroupBy_eq]
  simp only [collectDefinedAliases, qualifyPgCatalogTables, qualifyBody, boundInQuery, boundInBody,
    Query.visited, SetExpr.visited, Select.visited, List.flatMap_append]
  rw [visited_ensureProjectedColumns, visited_injectGroupBy]
  all_goals
    intro e column
    cases e <;> first | rfl | cases column

theorem bodyClosed_iff {outer : Select} (body : q.body = .select inner)
    (alone : standsAlone (correlatedInfo host origAlias (collectOuterAliases outer.from_) q inner
      cteIdent) = true) :
    BodyClosed outer (correlatedInfo host origAlias (collectOuterAliases outer.from_) q inner
      cteIdent) ↔ NothingOverlooked outer q := by
  refine forall_congr' fun m => (imp_congr (mem_cleanedSubquery_mentions body) Iff.rfl).trans ?_
  refine forall_congr' fun remains => ?_
  have mentioned : m ∈ (cleanedSubquery (correlatedInfo host origAlias
      (collectOuterAliases outer.from_) q inner cteIdent)).mentions :=
    (mem_cleanedSubquery_mentions body).mpr remains
  refine ⟨fun closed reaches => absurd reaches closed, fun overlooked reaches => ?_⟩
  refine overlooked reaches ?_
  obtain ⟨⟨qualified, -⟩, -⟩ := reaches
  cases m with
  | wildcard _ _ => exact trivial
  | relation _ _ => exact trivial
  | column bound path =>
    intro alias_ listed same
    have long : 2 ≤ path.length := by
      rcases path with _ | ⟨_, _ | ⟨_, _⟩⟩
      · exact absurd rfl qualified
      · exact absurd rfl qualified
      · exact Nat.le_add_left 2 _
    have referenced : ((cleanedSubquery (correlatedInfo host origAlias
        (collectOuterAliases outer.from_) q inner cteIdent)).visited.filterMap pathRoot).any
          (sameName · alias_) = true := by
      obtain ⟨root, head, same⟩ := (Option.any_eq_true _ _).mp same
      exact List.any_eq_true.mpr ⟨root, List.mem_filterMap.mpr
        ⟨_, Query.visited_of_mention long _ ⟨bound, mentioned⟩, head⟩, same⟩
    have resolved := List.filter_eq_nil_iff.mp
      (firstOfSame_eq_nil (List.isEmpty_iff.mp alone)) alias_ listed
    rw [referenced, Bool.true_and, Bool.not_eq_true', Bool.not_eq_false,
      collectDefinedAliases_cleanedSubquery body] at resolved
    exact List.any_eq_true.mp resolved

end

end PgCatalog.ScalarToCte
