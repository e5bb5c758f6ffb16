import PgCatalog.CleanDuplicateColumns.Restore
import PgCatalog.Sql.Queries

/-! `resolve_order_by_names_to_output_positions`, and what aliasing the unnamed columns then
leaves of the names that ORDER BY sorts by. -/
namespace PgCatalog.Replace

open Sql Library CleanDuplicateColumns

def outputColumnName : SelectItem → Option String
  | .exprWithAlias _ alias_ => some alias_.value
  | .unnamedExpr (.identifier id) => some id.value
  | .unnamedExpr (.compoundIdentifier parts) => parts.getLast?.map (·.value)
  | _ => none

def isWildcard : SelectItem → Bool
  | .wildcard => true
  | .qualifiedWildcard _ => true
  | _ => false

/-- The names of a SELECT list, unless it is not one or holds a wildcard. -/
def outputNames : SetExpr → Option (List (Option String))
  | .select ⟨_, projection, _, _, _, _⟩ =>
    if projection.any isWildcard then none else some (projection.map outputColumnName)
  | _ => none

def outputPosition (names : List (Option String)) (id : Ident) : Option Nat :=
  names.findIdx? fun name => name.any (eqIgnoreAsciiCase · id.value)

/-- The position, counted from one, in place of a name. -/
def positionExpr (position : Nat) : Expr := .value (.number (toString (position + 1)) false)

/-- `SortByPosition` at one ORDER BY expression of a query with that body. -/
def sortByPosition (body : SetExpr) : Expr → Option Expr
  | .identifier id => do
    let names ← outputNames body
    let position ← outputPosition names id
    return positionExpr position
  | _ => none

def resolveOrderByNamesToOutputPositions (q : Query) : Query := q.reordered sortByPosition

theorem sortByPosition_plain (body : SetExpr) (e e' : Expr)
    (found : sortByPosition body e = some e') : e.queries = [] ∧ e'.queries = [] := by
  cases e with
  | identifier id =>
    obtain ⟨names, _, found⟩ := Option.bind_eq_some_iff.mp found
    obtain ⟨position, _, found⟩ := Option.bind_eq_some_iff.mp found
    obtain rfl := Option.some.inj found
    exact ⟨rfl, rfl⟩
  | _ => cases found

/-! ## The output columns PostgreSQL resolves a name against -/

/-- An output column: its name, what it shows where an expression tells, and whether it is a
SELECT item without an alias. -/
structure OutCol (S : Type) where
  name : String
  shows_ : Option S
  unaliased : Bool

/-- How PostgreSQL names and tells apart the columns of a SELECT list: `shows_` is the same for
expressions it takes for equal. -/
structure Naming (S : Type) where
  nameOf : Expr → String
  shows_ : Expr → S
  expand : List TableWithJoins → SelectItem → List (String × S)
  rowNames : List Expr → List String
  nameOf_identifier : ∀ id, nameOf (.identifier id) = id.folded
  nameOf_compound : ∀ parts last, parts.getLast? = some last →
    nameOf (.compoundIdentifier parts) = last.folded
  /-- A column's name does not depend on the ORDER BY of a query inside. -/
  nameOf_reordered : ∀ h e, nameOf (e.reordered h) = nameOf e
  expand_reordered : ∀ h from_ item,
    (expand (reorderedFrom h from_) item).map Prod.fst = (expand from_ item).map Prod.fst
  rowNames_reordered : ∀ h rows, rowNames (reorderedList h rows) = rowNames rows

section
variable {S : Type} (N : Naming S)

def itemColumns (from_ : List TableWithJoins) : SelectItem → List (OutCol S)
  | .unnamedExpr e => [⟨N.nameOf e, some (N.shows_ e), true⟩]
  | .exprWithAlias e alias_ => [⟨alias_.folded, some (N.shows_ e), false⟩]
  | item => (N.expand from_ item).map fun column => ⟨column.1, some column.2, false⟩

mutual

/-- The columns of a body: a set operation takes the names of its left branch. -/
def bodyColumns : SetExpr → List (OutCol S)
  | .select ⟨_, projection, from_, _, _, _⟩ => projection.flatMap (itemColumns N from_)
  | .query q => queryColumns q
  | .setOperation _ _ left _ => (bodyColumns left).map fun c => ⟨c.name, none, c.unaliased⟩
  | .values rows => (N.rowNames rows).map fun name => ⟨name, none, false⟩

def queryColumns : Query → List (OutCol S)
  | ⟨_, body, _, _, _⟩ => bodyColumns body

end

def columnNames (q : Query) : List String := (queryColumns N q).map OutCol.name

/-- Two positions that show the same. -/
def Same (cols : List (OutCol S)) (i j : Nat) : Prop :=
  i = j ∨ ∃ s, (cols[i]?.bind OutCol.shows_) = some s ∧ (cols[j]?.bind OutCol.shows_) = some s

/-- The name denotes an output column: no other column of that name shows something else. -/
def Denotes (cols : List (OutCol S)) (names : List String) (name : String) (i : Nat) : Prop :=
  names[i]? = some name ∧ ∀ j, names[j]? = some name → Same cols i j

/-- The output column an ORDER BY expression stands for, by name or by position. -/
def KeyDenotes (cols : List (OutCol S)) (names : List String) (i : Nat) : Expr → Prop
  | .identifier id => Denotes cols names id.folded i
  | .value (.number text _) => text.toNat? = some (i + 1) ∧ i < names.length
  | _ => False

/-- What is asked of the expression that takes the place of a bare name, `cols` being the
columns of the query before the two passes and `names` what they are called after them. -/
structure NameKept (cols : List (OutCol S)) (names : List String) (id : Ident) (key : Expr) :
    Prop where
  sorts : ∀ i, Denotes cols (cols.map OutCol.name) id.folded i →
    ∃ j, KeyDenotes cols names j key ∧ Same cols i j
  others : id.folded ∉ cols.map OutCol.name → key = .identifier id ∧ id.folded ∉ names
  /-- No name is left of a column that is called otherwise now. -/
  left : ∀ later, key = .identifier later → ∀ i, Denotes cols (cols.map OutCol.name) id.folded i →
    ∃ j, names[j]? = some later.folded ∧ Same cols i j

/-- What is asked of one ORDER BY item. Beyond a bare name, only the queries inside change. -/
structure ItemKept (cols : List (OutCol S)) (names : List String) (item later : OrderByExpr) :
    Prop where
  asc : later.asc = item.asc
  nullsFirst : later.nullsFirst = item.nullsFirst
  name : ∀ id, item.expr = .identifier id → NameKept cols names id later.expr
  other : (∀ id, item.expr ≠ .identifier id) → later.expr = item.expr.reordered sortByPosition

/-- What is asked of one query, before and after. -/
def QueryKept (q later : Query) : Prop :=
  List.Forall₂ (ItemKept (queryColumns N q) (columnNames N later)) q.orderBy later.orderBy

/-- ORDER BY means the same in every query of the statement, the outermost and those inside. -/
def OrderByKept (q later : Query) : Prop :=
  List.Forall₂ (QueryKept N) q.queries later.queries

end

/-! ## Which queries are aliased, and from which number on -/

mutual

def taggedBody (k : Nat) : SetExpr → List (Option Nat × Query)
  | .select s => s.queries.map (none, ·)
  | .query q => taggedQuery k q
  | .setOperation _ _ left right =>
    taggedBody k left ++ taggedBody (k + unnamedCount (bodyProjections left).flatten) right
  | .values rows => (queriesList rows).map (none, ·)

/-- The queries inside a query, each with the number its aliases start from, if it has any: the
outermost one and those that stand in parentheses for a branch of it. -/
def taggedQuery (k : Nat) : Query → List (Option Nat × Query)
  | q@⟨with_, body, orderBy, limit, offset⟩ =>
    (some k, q) :: ((queriesWith with_).map (none, ·) ++ taggedBody k body ++
      (queriesOrderBy orderBy).map (none, ·) ++ (queriesOption limit).map (none, ·) ++
        (queriesOption offset).map (none, ·))

end

theorem map_untagged (qs : List Query) : (qs.map ((none : Option Nat), ·)).map Prod.snd = qs := by
  rw [List.map_map]
  exact List.map_id qs

mutual

theorem tagged_body (k : Nat) : ∀ e : SetExpr, (taggedBody k e).map Prod.snd = e.queries
  | .select s => map_untagged s.queries
  | .query q => tagged_query k q
  | .setOperation _ _ left right => by
    rw [taggedBody, SetExpr.queries, List.map_append, tagged_body k left, tagged_body _ right]
  | .values rows => map_untagged (queriesList rows)

theorem tagged_query (k : Nat) : ∀ q : Query, (taggedQuery k q).map Prod.snd = q.queries
  | ⟨with_, body, orderBy, limit, offset⟩ => by
    simp only [taggedQuery, Query.queries, List.map_cons, List.map_append, map_untagged,
      tagged_body k body]

end

section
variable (types : TypeNames)

/-- What aliasing leaves of a query inside. -/
def aliasedAt : Option Nat × Query → Query
  | (some k, q) => (aliasColumnsInQuery types 0 ⟨k, []⟩ q).1
  | (none, q) => q

variable {types}

theorem queriesItems_aliased (k : Nat) (items : List SelectItem) :
    queriesItems (aliasedItems k items) = queriesItems items := by
  induction items generalizing k with
  | nil => rfl
  | cons item rest ih =>
    cases item with
    | unnamedExpr e => rw [aliasedItems, queriesItems, queriesItems, ih]
    | exprWithAlias e alias_ => rw [aliasedItems, queriesItems, queriesItems, ih]; simp
    | qualifiedWildcard name => rw [aliasedItems, queriesItems, queriesItems, ih]; simp
    | wildcard => rw [aliasedItems, queriesItems, queriesItems, ih]; simp

mutual

/-- The aliases depend on the counter alone. -/
theorem setExpr_counter (st st' : Aliasing) (same : st.counter = st'.counter) : ∀ e : SetExpr,
    (aliasColumnsInSetExpr types 0 st e).1 = (aliasColumnsInSetExpr types 0 st' e).1
  | .select ⟨_, _, from_, _, _, _⟩ => by
    simp only [aliasColumnsInSetExpr, if_true, aliasProjection_eq, from_unchanged, same]
  | .setOperation _ _ left right => by
    have first := setExpr_counter st st' same left
    have later : (aliasColumnsInSetExpr types 0 st left).2.counter =
        (aliasColumnsInSetExpr types 0 st' left).2.counter := by
      rw [(aliased_setExpr st left).2.2, (aliased_setExpr st' left).2.2, Aliasing.after,
        Aliasing.after, same]
    have second := setExpr_counter _ _ later right
    simp only [aliasColumnsInSetExpr, first, second]
  | .query q => by
    have inside := query_counter st st' same q
    simp only [aliasColumnsInSetExpr, inside]
  | .values _ => by simp only [aliasColumnsInSetExpr]

theorem query_counter (st st' : Aliasing) (same : st.counter = st'.counter) : ∀ q : Query,
    (aliasColumnsInQuery types 0 st q).1 = (aliasColumnsInQuery types 0 st' q).1
  | ⟨_, body, _, _, _⟩ => by
    have inside := setExpr_counter st st' same body
    simp only [aliasColumnsInQuery, with_unchanged, inside]

end

theorem map_aliasedAt_untagged (qs : List Query) :
    (qs.map (none, ·)).map (aliasedAt types) = qs := by
  rw [List.map_map]
  exact List.map_id qs

mutual

theorem queries_aliased_body (st : Aliasing) : ∀ e : SetExpr,
    (aliasColumnsInSetExpr types 0 st e).1.queries =
      (taggedBody st.counter e).map (aliasedAt types)
  | .select ⟨_, _, _, _, _, _⟩ => by
    simp only [aliasColumnsInSetExpr, if_true, aliasProjection_eq, from_unchanged,
      SetExpr.queries, Select.queries, queriesItems_aliased, taggedBody, map_aliasedAt_untagged]
  | .setOperation _ _ left right => by
    have first := queries_aliased_body st left
    have second := queries_aliased_body (aliasColumnsInSetExpr types 0 st left).2 right
    have counter : (aliasColumnsInSetExpr types 0 st left).2.counter =
        st.counter + unnamedCount (bodyProjections left).flatten := by
      rw [(aliased_setExpr st left).2.2, Aliasing.after]
    rw [counter] at second
    rw [taggedBody, List.map_append, ← first, ← second]
    rfl
  | .query q => queries_aliased st q
  | .values rows => by
    simp only [aliasColumnsInSetExpr, SetExpr.queries, taggedBody, map_aliasedAt_untagged]

/-- The queries of the aliased statement are those of the statement, each aliased from its
number on. -/
theorem queries_aliased (st : Aliasing) : ∀ q : Query,
    (aliasColumnsInQuery types 0 st q).1.queries = (taggedQuery st.counter q).map (aliasedAt types)
  | ⟨with_, body, orderBy, limit, offset⟩ => by
    have inside := queries_aliased_body st body
    have head := @query_counter types st ⟨st.counter, []⟩ rfl
      ⟨with_, body, orderBy, limit, offset⟩
    simp only [taggedQuery, List.map_cons, List.map_append, map_aliasedAt_untagged, ← inside,
      aliasedAt, ← head]
    simp only [aliasColumnsInQuery, with_unchanged, Query.queries]

end

end

/-! ## What the visitor leaves of the projections and their columns -/

section
variable {h : SetExpr → Expr → Option Expr}

theorem unnamedCount_reordered (items : List SelectItem) :
    unnamedCount (reorderedItems h items) = unnamedCount items := by
  induction items with
  | nil => rfl
  | cons item rest ih =>
    cases item with
    | unnamedExpr e =>
      rw [reorderedItems, unnamedCount, unnamedCount, List.countP_cons_of_pos rfl,
        List.countP_cons_of_pos rfl]
      exact congrArg (· + 1) ih
    | exprWithAlias e alias_ => exact ih
    | qualifiedWildcard name => exact ih
    | wildcard => exact ih

mutual

theorem bodyProjections_reordered : ∀ e : SetExpr,
    bodyProjections (e.reordered h) = (bodyProjections e).map (reorderedItems h)
  | .select ⟨_, _, _, _, _, _⟩ => rfl
  | .query q => topProjections_reordered q
  | .setOperation _ _ left right => by
    have first := bodyProjections_reordered left
    have second := bodyProjections_reordered right
    rw [SetExpr.reordered, bodyProjections, bodyProjections, List.map_append, first, second]
  | .values _ => rfl

theorem topProjections_reordered : ∀ q : Query,
    topProjections (q.reordered h) = (topProjections q).map (reorderedItems h)
  | ⟨_, body, _, _, _⟩ => bodyProjections_reordered body

end

theorem unnamed_reordered (e : SetExpr) :
    unnamedCount (bodyProjections (e.reordered h)).flatten =
      unnamedCount (bodyProjections e).flatten := by
  have each : unnamedCount ∘ reorderedItems h = unnamedCount := funext unnamedCount_reordered
  have counted : ∀ branches : List (List SelectItem),
      unnamedCount branches.flatten = (branches.map unnamedCount).sum :=
    fun branches => List.countP_flatten
  rw [counted, counted, bodyProjections_reordered, List.map_map, each]

theorem untagged_reordered {qs : List Query} :
    (qs.map (Query.reordered h)).map ((none : Option Nat), ·) =
      (qs.map ((none : Option Nat), ·)).map fun node => (node.1, node.2.reordered h) := by
  rw [List.map_map, List.map_map]
  rfl

section
variable (plain : ∀ body e e', h body e = some e' → e.queries = [] ∧ e'.queries = [])
include plain

mutual

theorem taggedBody_reordered (k : Nat) : ∀ e : SetExpr,
    taggedBody k (e.reordered h) =
      (taggedBody k e).map fun node => (node.1, node.2.reordered h)
  | .select s => by
    rw [SetExpr.reordered, taggedBody, taggedBody, s.queries_reordered plain, untagged_reordered]
  | .query q => taggedQuery_reordered k q
  | .setOperation _ _ left right => by
    have first := taggedBody_reordered k left
    have second := taggedBody_reordered (k + unnamedCount (bodyProjections left).flatten) right
    rw [SetExpr.reordered, taggedBody, taggedBody, List.map_append, first, unnamed_reordered,
      second]
  | .values rows => by
    rw [SetExpr.reordered, taggedBody, taggedBody, queriesList_reordered plain, untagged_reordered]

/-- The visitor changes neither which queries are aliased nor their numbers. -/
theorem taggedQuery_reordered (k : Nat) : ∀ q : Query,
    taggedQuery k (q.reordered h) =
      (taggedQuery k q).map fun node => (node.1, node.2.reordered h)
  | ⟨with_, body, orderBy, limit, offset⟩ => by
    have inside := taggedBody_reordered k body
    simp only [Query.reordered, taggedQuery, List.map_cons, List.map_append, inside,
      queriesWith_reordered plain, queriesKeys_reordered plain, queriesOption_reordered plain,
      untagged_reordered]

end

end

end

section
variable {S : Type} (N : Naming S)

/-- A column's name and whether it gets an alias. -/
def OutCol.label (c : OutCol S) : String × Bool := (c.name, c.unaliased)

variable {N}

theorem itemColumns_reordered {h : SetExpr → Expr → Option Expr} (from_ : List TableWithJoins)
    (items : List SelectItem) :
    ((reorderedItems h items).flatMap (itemColumns N (reorderedFrom h from_))).map OutCol.label =
      (items.flatMap (itemColumns N from_)).map OutCol.label := by
  have expanded : ∀ item : SelectItem,
      ((N.expand (reorderedFrom h from_) item).map fun column =>
        (⟨column.1, some column.2, false⟩ : OutCol S)).map OutCol.label =
      ((N.expand from_ item).map fun column =>
        (⟨column.1, some column.2, false⟩ : OutCol S)).map OutCol.label := by
    intro item
    have labels : ∀ columns : List (String × S),
        (columns.map fun column => (⟨column.1, some column.2, false⟩ : OutCol S)).map
          OutCol.label = (columns.map Prod.fst).map (·, false) := by
      intro columns
      rw [List.map_map, List.map_map]
      rfl
    rw [labels, labels, N.expand_reordered]
  induction items with
  | nil => rfl
  | cons item rest ih =>
    cases item with
    | unnamedExpr e =>
      simp only [reorderedItems, List.flatMap_cons, itemColumns, List.map_append, ih,
        List.map_cons, OutCol.label, N.nameOf_reordered]
    | exprWithAlias e alias_ =>
      simp only [reorderedItems, List.flatMap_cons, itemColumns, List.map_append, ih,
        List.map_cons, OutCol.label]
    | qualifiedWildcard name =>
      rw [reorderedItems, List.flatMap_cons, List.flatMap_cons, List.map_append, List.map_append,
        ih, itemColumns, itemColumns, expanded] <;> nofun
    | wildcard =>
      rw [reorderedItems, List.flatMap_cons, List.flatMap_cons, List.map_append, List.map_append,
        ih, itemColumns, itemColumns, expanded] <;> nofun

mutual

theorem bodyColumns_reordered {h : SetExpr → Expr → Option Expr} : ∀ e : SetExpr,
    (bodyColumns N (e.reordered h)).map OutCol.label = (bodyColumns N e).map OutCol.label
  | .select ⟨_, projection, from_, _, _, _⟩ => itemColumns_reordered from_ projection
  | .query q => queryColumns_reordered q
  | .setOperation _ _ left _ => by
    have first := bodyColumns_reordered (h := h) left
    rw [SetExpr.reordered, bodyColumns, bodyColumns, List.map_map, List.map_map]
    exact first
  | .values rows => by
    rw [SetExpr.reordered, bodyColumns, bodyColumns, N.rowNames_reordered]

theorem queryColumns_reordered {h : SetExpr → Expr → Option Expr} : ∀ q : Query,
    (queryColumns N (q.reordered h)).map OutCol.label = (queryColumns N q).map OutCol.label
  | ⟨_, body, _, _, _⟩ => bodyColumns_reordered body

end

/-- The names of columns whose unaliased ones get an alias, from `k` on. -/
def aliasedNames : Nat → List (OutCol S) → List String
  | _, [] => []
  | k, c :: rest =>
    if c.unaliased then aliasName k :: aliasedNames (k + 1) rest
    else c.name :: aliasedNames k rest

theorem aliasedNames_label {k : Nat} {cols cols' : List (OutCol S)}
    (same : cols.map OutCol.label = cols'.map OutCol.label) :
    aliasedNames k cols = aliasedNames k cols' := by
  induction cols generalizing k cols' with
  | nil => rw [List.map_eq_nil_iff.mp same.symm]
  | cons c rest ih =>
    obtain ⟨c', rest', rfl, first, later⟩ := List.map_eq_cons_iff.mp same.symm
    obtain ⟨name, unaliased⟩ := Prod.mk.inj first
    rw [aliasedNames, aliasedNames, name, unaliased, ih later.symm, ih later.symm]

theorem aliasedNames_aliased (k : Nat) (names : List (String × S)) (rest : List (OutCol S)) :
    aliasedNames k ((names.map fun column => ⟨column.1, some column.2, false⟩) ++ rest) =
      names.map Prod.fst ++ aliasedNames k rest := by
  induction names with
  | nil => rfl
  | cons column later ih =>
    rw [List.map_cons, List.cons_append, aliasedNames, if_neg Bool.false_ne_true, ih]
    rfl

theorem itemColumns_aliased (from_ : List TableWithJoins) (items : List SelectItem) (k : Nat) :
    ((aliasedItems k items).flatMap (itemColumns N from_)).map OutCol.name =
      aliasedNames k (items.flatMap (itemColumns N from_)) := by
  induction items generalizing k with
  | nil => rfl
  | cons item rest ih =>
    cases item with
    | unnamedExpr e =>
      have folded : (Ident.new (aliasName k)).folded = aliasName k := aliasName_lower k
      rw [aliasedItems, List.flatMap_cons, List.flatMap_cons, itemColumns, itemColumns,
        List.map_append, ih, List.singleton_append, aliasedNames, if_pos rfl, List.map_singleton,
        folded, List.singleton_append]
    | exprWithAlias e alias_ =>
      rw [aliasedItems, List.flatMap_cons, List.flatMap_cons, itemColumns, List.map_append, ih,
        List.singleton_append, aliasedNames, if_neg Bool.false_ne_true, List.map_singleton,
        List.singleton_append]
      simp
    | qualifiedWildcard name =>
      rw [aliasedItems, List.flatMap_cons, List.flatMap_cons, itemColumns, List.map_append, ih,
        aliasedNames_aliased, List.map_map]
      · rfl
      all_goals simp
    | wildcard =>
      rw [aliasedItems, List.flatMap_cons, List.flatMap_cons, itemColumns, List.map_append, ih,
        aliasedNames_aliased, List.map_map]
      · rfl
      all_goals simp

variable {types : TypeNames}

mutual

theorem bodyColumns_aliased (st : Aliasing) : ∀ e : SetExpr,
    (bodyColumns N (aliasColumnsInSetExpr types 0 st e).1).map OutCol.name =
      aliasedNames st.counter (bodyColumns N e)
  | .select ⟨_, projection, from_, _, _, _⟩ => by
    simp only [aliasColumnsInSetExpr, if_true, aliasProjection_eq, from_unchanged, bodyColumns,
      itemColumns_aliased]
  | .setOperation _ _ left right => by
    have first := bodyColumns_aliased st left
    have cleared : aliasedNames st.counter ((bodyColumns N left).map fun c =>
        (⟨c.name, none, c.unaliased⟩ : OutCol S)) = aliasedNames st.counter (bodyColumns N left) := by
      apply aliasedNames_label
      rw [List.map_map]
      rfl
    rw [bodyColumns, cleared, ← first, aliasColumnsInSetExpr, bodyColumns, List.map_map]
    rfl
  | .query q => queryColumns_aliased st q
  | .values rows => by
    have plain : ∀ names : List String, (names.map fun name =>
        (⟨name, none, false⟩ : OutCol S)).map OutCol.name =
          aliasedNames st.counter (names.map fun name => (⟨name, none, false⟩ : OutCol S)) := by
      intro names
      induction names with
      | nil => rfl
      | cons name rest ih =>
        rw [List.map_cons, List.map_cons, ih, aliasedNames, if_neg Bool.false_ne_true]
    simp only [aliasColumnsInSetExpr, bodyColumns, plain]

theorem queryColumns_aliased (st : Aliasing) : ∀ q : Query,
    (queryColumns N (aliasColumnsInQuery types 0 st q).1).map OutCol.name =
      aliasedNames st.counter (queryColumns N q)
  | ⟨_, body, _, _, _⟩ => bodyColumns_aliased st body

end

end

/-! ## When every ORDER BY keeps its column -/

def bodyPosition (body : SetExpr) (id : Ident) : Option Nat :=
  (outputNames body).bind fun names => outputPosition names id

section
variable {S : Type}

/-- Two columns of the name show different things. -/
def Ambiguous (cols : List (OutCol S)) (name : String) : Prop :=
  ∃ i j, (cols.map OutCol.name)[i]? = some name ∧ (cols.map OutCol.name)[j]? = some name ∧
    ¬ Same cols i j

/-- The name finds its column. Where a position takes its place, the column there is one of the
name. Where it is left, it names a column after the passes if it did before, and the same. -/
def NameFinds (body : SetExpr) (cols : List (OutCol S)) (names : List String) (id : Ident) :
    Prop :=
  Ambiguous cols id.folded ∨
    match bodyPosition body id with
    | some p => ∃ i, (cols.map OutCol.name)[i]? = some id.folded ∧ Same cols i p
    | none => (id.folded ∈ cols.map OutCol.name ↔ id.folded ∈ names) ∧
      ∀ i j, (cols.map OutCol.name)[i]? = some id.folded → names[j]? = some id.folded →
        Same cols i j

/-- What the columns of a query inside are called in the end. -/
def namesAfter : Option Nat → List (OutCol S) → List String
  | some k, cols => aliasedNames k cols
  | none, cols => cols.map OutCol.name

variable (N : Naming S) in
/-- Every bare name that some query of the statement is ordered by finds its column. -/
def NamesFind (q : Query) : Prop :=
  ∀ node ∈ taggedQuery 1 q, ∀ item ∈ node.2.orderBy, ∀ id, item.expr = .identifier id →
    NameFinds node.2.body (queryColumns N node.2) (namesAfter node.1 (queryColumns N node.2)) id

theorem Same.symm {cols : List (OutCol S)} {i j : Nat} : Same cols i j → Same cols j i
  | .inl same => .inl same.symm
  | .inr ⟨s, first, second⟩ => .inr ⟨s, second, first⟩

theorem Same.trans {cols : List (OutCol S)} {i j k : Nat} (first : Same cols i j)
    (second : Same cols j k) : Same cols i k := by
  obtain rfl | ⟨s, left, right⟩ := first
  · exact second
  obtain rfl | ⟨t, left', right'⟩ := second
  · exact .inr ⟨s, left, right⟩
  · obtain rfl := Option.some.inj (right.symm.trans left')
    exact .inr ⟨s, left, right'⟩

/-- A name that is not ambiguous denotes each of its columns. -/
theorem denotes_iff {cols : List (OutCol S)} {name : String} {i : Nat}
    (named : (cols.map OutCol.name)[i]? = some name) :
    Denotes cols (cols.map OutCol.name) name i ↔ ¬ Ambiguous cols name := by
  constructor
  · rintro ⟨_, alone⟩ ⟨j, k, first, second, apart⟩
    exact apart ((alone j first).symm.trans (alone k second))
  · intro clear
    refine ⟨named, fun j other => ?_⟩
    by_contra apart
    exact clear ⟨i, j, named, other, apart⟩

theorem aliasedNames_length (k : Nat) (cols : List (OutCol S)) :
    (aliasedNames k cols).length = cols.length := by
  induction cols generalizing k with
  | nil => rfl
  | cons c rest ih =>
    rw [aliasedNames]
    split
    · rw [List.length_cons, ih, List.length_cons]
    · rw [List.length_cons, ih, List.length_cons]

theorem namesAfter_length (tag : Option Nat) (cols : List (OutCol S)) :
    (namesAfter tag cols).length = cols.length := by
  cases tag with
  | none => exact List.length_map _
  | some k => exact aliasedNames_length k cols

theorem sortByPosition_name (body : SetExpr) (id : Ident) :
    sortByPosition body (.identifier id) = (bodyPosition body id).map positionExpr := by
  change (outputNames body).bind (fun names => (outputPosition names id).bind fun position =>
    some (positionExpr position)) = _
  unfold bodyPosition
  cases outputNames body with
  | none => rfl
  | some names =>
    rw [Option.bind_some, Option.bind_some]
    cases outputPosition names id <;> rfl

variable {N : Naming S}

variable (N) in
/-- The column of an item that is no wildcard. -/
def itemColumn : SelectItem → OutCol S
  | .unnamedExpr e => ⟨N.nameOf e, some (N.shows_ e), true⟩
  | .exprWithAlias e alias_ => ⟨alias_.folded, some (N.shows_ e), false⟩
  | _ => ⟨"", none, false⟩

/-- A list of items without a wildcard has one column each. -/
theorem bodyColumns_plain {body : SetExpr} {names : List (Option String)}
    (plain : outputNames body = some names) : ∃ projection : List SelectItem,
      names = projection.map outputColumnName ∧ bodyColumns N body = projection.map (itemColumn N) := by
  unfold outputNames at plain
  split at plain
  · next projection from_ _ _ _ =>
    split at plain
    · cases plain
    · next none_ =>
      obtain rfl := Option.some.inj plain
      refine ⟨projection, rfl, ?_⟩
      have each : ∀ item ∈ projection, itemColumns N from_ item = [itemColumn N item] := by
        intro item member
        have tame : isWildcard item = false := by
          by_contra wild
          exact none_ (List.any_eq_true.mpr ⟨item, member, eq_true_of_ne_false wild⟩)
        cases item with
        | unnamedExpr e => rfl
        | exprWithAlias e alias_ => rfl
        | qualifiedWildcard name => cases tame
        | wildcard => cases tame
      rw [bodyColumns, List.map_eq_flatMap]
      exact List.flatMap_congr each
  · cases plain

theorem folded_lower (id : Ident) : id.folded.toLower = id.value.toLower := by
  unfold Ident.folded
  split
  · rfl
  · exact toLower_toLower id.value

theorem itemColumn_called {item : SelectItem} {name : String}
    (named : outputColumnName item = some name) :
    (itemColumn N item).name.toLower = name.toLower := by
  unfold outputColumnName at named
  split at named
  · next e alias_ =>
    obtain rfl := Option.some.inj named
    exact folded_lower alias_
  · next id =>
    obtain rfl := Option.some.inj named
    rw [itemColumn, N.nameOf_identifier, folded_lower]
  · next parts =>
    obtain ⟨last, found, rfl⟩ := Option.map_eq_some_iff.mp named
    rw [itemColumn, N.nameOf_compound parts last found, folded_lower]
  · cases named

/-- The column at the position that takes the place of a name is called so but for the case. -/
theorem bodyPosition_called {body : SetExpr} {id : Ident} {p : Nat}
    (found : bodyPosition body id = some p) :
    ∃ c, (bodyColumns N body)[p]? = some c ∧ c.name.toLower = id.value.toLower := by
  obtain ⟨names, plain, found⟩ := Option.bind_eq_some_iff.mp found
  obtain ⟨projection, rfl, columns⟩ := bodyColumns_plain (N := N) plain
  obtain ⟨short, hit, _⟩ := List.findIdx?_eq_some_iff_getElem.mp found
  rw [List.length_map] at short
  rw [List.getElem_map, Option.any_eq_true] at hit
  obtain ⟨name, named, same⟩ := hit
  refine ⟨itemColumn N projection[p], ?_, ?_⟩
  · rw [columns, List.getElem?_map, List.getElem?_eq_getElem short, Option.map_some]
  · exact (itemColumn_called named).trans (of_decide_eq_true same)

theorem bodyPosition_lt {body : SetExpr} {id : Ident} {p : Nat}
    (found : bodyPosition body id = some p) : p < (bodyColumns N body).length := by
  obtain ⟨c, column, _⟩ := bodyPosition_called (N := N) found
  exact (List.getElem?_eq_some_iff.mp column).1

theorem keyDenotes_position {cols : List (OutCol S)} {names : List String} {p j : Nat}
    (inside : p < names.length) : KeyDenotes cols names j (positionExpr p) ↔ j = p := by
  have read : (toString (p + 1)).toNat? = some (p + 1) := Nat.toNat?_repr _
  rw [positionExpr, KeyDenotes, read]
  constructor
  · rintro ⟨same, _⟩
    exact (Nat.succ.inj (Option.some.inj same)).symm
  · rintro rfl
    exact ⟨rfl, inside⟩

/-- The expression in place of a bare name does what is asked of it exactly if the name finds
its column. -/
theorem nameKept_iff {body : SetExpr} {names : List String} {id : Ident}
    (long : names.length = (bodyColumns N body).length) :
    NameKept (bodyColumns N body) names id
        ((sortByPosition body (.identifier id)).getD (.identifier id)) ↔
      NameFinds body (bodyColumns N body) names id := by
  rw [sortByPosition_name, NameFinds]
  cases found : bodyPosition body id with
  | some p =>
    have inside : p < names.length := long.symm ▸ bodyPosition_lt found
    rw [Option.map_some, Option.getD_some]
    constructor
    · intro kept
      by_cases clear : Ambiguous (bodyColumns N body) id.folded
      · exact .inl clear
      · by_cases member : id.folded ∈ (bodyColumns N body).map OutCol.name
        · obtain ⟨i, named⟩ := List.mem_iff_getElem?.mp member
          obtain ⟨j, denotes, same⟩ := kept.sorts i ((denotes_iff named).mpr clear)
          obtain rfl := (keyDenotes_position inside).mp denotes
          exact .inr ⟨i, named, same⟩
        · cases (kept.others member).1
    · rintro (clash | ⟨i, named, same⟩)
      · have ⟨i, _, named, _⟩ := clash
        refine ⟨fun j denotes => ?_, fun absent => ?_, nofun⟩
        · exact absurd clash ((denotes_iff denotes.1).mp denotes)
        · exact absurd (List.mem_of_getElem? named) absent
      · refine ⟨fun j denotes => ?_, fun absent => ?_, nofun⟩
        · exact ⟨p, (keyDenotes_position inside).mpr rfl, (denotes.2 i named).trans same⟩
        · exact absurd (List.mem_of_getElem? named) absent
  | none =>
    rw [Option.map_none, Option.getD_none]
    constructor
    · intro kept
      by_cases clear : Ambiguous (bodyColumns N body) id.folded
      · exact .inl clear
      · refine .inr ⟨⟨fun member => ?_, fun later => ?_⟩, fun i j named later => ?_⟩
        · obtain ⟨i, named⟩ := List.mem_iff_getElem?.mp member
          obtain ⟨j, denotes, _⟩ := kept.sorts i ((denotes_iff named).mpr clear)
          exact List.mem_of_getElem? denotes.1
        · by_contra absent
          exact (kept.others absent).2 later
        · obtain ⟨k, denotes, same⟩ := kept.sorts i ((denotes_iff named).mpr clear)
          exact same.trans (denotes.2 j later)
    · rintro (clash | ⟨still, same⟩)
      · have ⟨i, _, named, _⟩ := clash
        refine ⟨fun j denotes => ?_, fun absent => ?_, fun later _ j denotes => ?_⟩
        · exact absurd clash ((denotes_iff denotes.1).mp denotes)
        · exact absurd (List.mem_of_getElem? named) absent
        · exact absurd clash ((denotes_iff denotes.1).mp denotes)
      · have finds : ∀ i, Denotes (bodyColumns N body) ((bodyColumns N body).map OutCol.name)
            id.folded i → ∃ j, Denotes (bodyColumns N body) names id.folded j ∧
              Same (bodyColumns N body) i j := by
          intro i denotes
          obtain ⟨j, later⟩ := List.mem_iff_getElem?.mp
            (still.mp (List.mem_of_getElem? denotes.1))
          have moved := same i j denotes.1 later
          exact ⟨j, ⟨later, fun k other => moved.symm.trans (same i k denotes.1 other)⟩, moved⟩
        refine ⟨finds, fun absent => ⟨rfl, fun later => absent (still.mpr later)⟩, ?_⟩
        intro later kept i denotes
        obtain rfl := Expr.identifier.inj kept
        obtain ⟨j, found, moved⟩ := finds i denotes
        exact ⟨j, found.1, moved⟩

theorem reorderedKeys_eq_map (h : SetExpr → Expr → Option Expr) (body : SetExpr)
    (keys : List OrderByExpr) :
    reorderedKeys h body keys = keys.map fun item =>
      ⟨(h body item.expr).getD (item.expr.reordered h), item.asc, item.nullsFirst⟩ := by
  induction keys with
  | nil => rfl
  | cons item rest ih =>
    obtain ⟨e, asc, nullsFirst⟩ := item
    rw [reorderedKeys, ih, List.map_cons]

theorem itemKept_iff {body : SetExpr} {names : List String}
    (long : names.length = (bodyColumns N body).length) (item : OrderByExpr) :
    ItemKept (bodyColumns N body) names item
        ⟨(sortByPosition body item.expr).getD (item.expr.reordered sortByPosition), item.asc,
          item.nullsFirst⟩ ↔
      ∀ id, item.expr = .identifier id → NameFinds body (bodyColumns N body) names id := by
  constructor
  · intro kept id bare
    have name := kept.name id bare
    rw [bare] at name
    exact (nameKept_iff long).mp name
  · intro finds
    refine ⟨rfl, rfl, fun id bare => ?_, fun other => ?_⟩
    · rw [bare]
      exact (nameKept_iff long).mpr (finds id bare)
    · cases bare : item.expr with
      | identifier id => exact absurd bare (other id)
      | _ => rfl

variable {types : TypeNames}

theorem columnNames_aliasedAt (h : SetExpr → Expr → Option Expr) (tag : Option Nat) (q : Query) :
    columnNames N (aliasedAt types (tag, q.reordered h)) = namesAfter tag (queryColumns N q) := by
  have labels := queryColumns_reordered (N := N) (h := h) q
  cases tag with
  | none =>
    have names := congrArg (List.map Prod.fst) labels
    rw [List.map_map, List.map_map] at names
    exact names
  | some k =>
    rw [columnNames, aliasedAt, queryColumns_aliased, namesAfter]
    exact aliasedNames_label labels

theorem orderBy_aliasedAt (tag : Option Nat) (q : Query) :
    (aliasedAt types (tag, q)).orderBy = q.orderBy := by
  obtain ⟨with_, body, orderBy, limit, offset⟩ := q
  cases tag <;> rfl

theorem orderBy_reordered (h : SetExpr → Expr → Option Expr) (q : Query) :
    (q.reordered h).orderBy = reorderedKeys h q.body q.orderBy := by
  obtain ⟨with_, body, orderBy, limit, offset⟩ := q
  rfl

theorem queryColumns_body (q : Query) : queryColumns N q = bodyColumns N q.body := by
  obtain ⟨with_, body, orderBy, limit, offset⟩ := q
  rfl

theorem queryKept_iff (tag : Option Nat) (q : Query) :
    QueryKept N q (aliasedAt types (tag, q.reordered sortByPosition)) ↔
      ∀ item ∈ q.orderBy, ∀ id, item.expr = .identifier id →
        NameFinds q.body (queryColumns N q) (namesAfter tag (queryColumns N q)) id := by
  rw [QueryKept, orderBy_aliasedAt, columnNames_aliasedAt, orderBy_reordered,
    reorderedKeys_eq_map, List.forall₂_map_right_iff, List.forall₂_same, queryColumns_body]
  apply forall₂_congr
  intro item _
  exact itemKept_iff (namesAfter_length tag _) item

variable (N types) in
/-- After the two passes every ORDER BY of the statement, in set operations and in the queries
inside too, means what it meant exactly if every bare name in it finds its column. -/
theorem order_by_kept_iff (q : Query) :
    OrderByKept N q (aliasUnnamedColumns types (resolveOrderByNamesToOutputPositions q)).1 ↔
      NamesFind N q := by
  have final : (aliasUnnamedColumns types (resolveOrderByNamesToOutputPositions q)).1.queries =
      (taggedQuery 1 q).map fun node =>
        aliasedAt types (node.1, node.2.reordered sortByPosition) := by
    have aliased := @queries_aliased types ⟨1, []⟩ (q.reordered sortByPosition)
    rw [taggedQuery_reordered sortByPosition_plain, List.map_map] at aliased
    exact aliased
  rw [OrderByKept, final, ← tagged_query 1 q, List.forall₂_map_left_iff,
    List.forall₂_map_right_iff, List.forall₂_same]
  apply forall₂_congr
  intro node _
  exact queryKept_iff node.1 node.2

end

/-- Columns go by their own names, and anything else has none to speak of. -/
def ownNames : Naming Expr where
  nameOf
    | .identifier id => id.folded
    | .compoundIdentifier parts => parts.getLast?.elim "?column?" Ident.folded
    | _ => "?column?"
  shows_ := id
  expand _ _ := []
  rowNames _ := []
  nameOf_identifier _ := rfl
  nameOf_compound parts last found := by
    change parts.getLast?.elim "?column?" Ident.folded = last.folded
    rw [found, Option.elim_some]
  nameOf_reordered h e := by cases e <;> rfl
  expand_reordered _ _ _ := rfl
  rowNames_reordered _ _ := rfl

/-- `SELECT "<column>" FROM "<table>"`. -/
def columnOf (column table : String) : SetExpr :=
  .select ⟨.no, [.unnamedExpr (.identifier ⟨column, some '"'⟩)],
    [⟨.table [.identifier ⟨table, some '"'⟩] none none, []⟩], none, .expressions [], none⟩

/-- `SELECT "a" FROM "t" UNION SELECT "b" FROM "u" ORDER BY "a"`. -/
def orderedUnion : Query :=
  ⟨none, .setOperation .union .none (columnOf "a" "t") (columnOf "b" "u"),
    [⟨.identifier ⟨"a", some '"'⟩, none, none⟩], none, none⟩

/-- The union's column is called `alias_1` then, and ORDER BY still says `a`. -/
theorem union_name_lost : ¬ ∀ (types : TypeNames) (q : Query),
    OrderByKept ownNames q
      (aliasUnnamedColumns types (resolveOrderByNamesToOutputPositions q)).1 := by
  intro always
  have kept := always ⟨fun _ => false, fun _ => ""⟩ orderedUnion
  obtain ⟨head, _⟩ := List.forall₂_cons.mp kept
  have finds := (queryKept_iff (some 1) orderedUnion).mp head _ List.mem_cons_self _ rfl
  obtain ⟨i, j, first, second, apart⟩ | ⟨still, _⟩ := finds
  · have zero : ∀ {n : Nat}, ["a"][n]? = some "a" → n = 0 := by
      intro n named
      cases n with
      | zero => rfl
      | succ n => cases named
    exact apart (.inl ((zero first).trans (zero second).symm))
  · have later : "a" ∈ ["alias_1"] := still.mp List.mem_cons_self
    exact absurd later (by decide)

end PgCatalog.Replace
