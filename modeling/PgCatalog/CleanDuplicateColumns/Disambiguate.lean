import Mathlib.Data.List.Forall2
import Std.Data.String.ToNat
import PgCatalog.Library.Occurrences
import PgCatalog.Sql.Ast

/-! `disambiguate_duplicate_columns`: the second and later columns of one name in a nested
projection are aliased by their number. -/
namespace PgCatalog.CleanDuplicateColumns

open Library Sql

/-- The name an item gives its column, of those that are told apart. -/
def projectionOutputName : SelectItem → Option String
  | .exprWithAlias _ alias_ => some alias_.value
  | .unnamedExpr (.identifier id) => some id.value
  | .unnamedExpr (.compoundIdentifier segs) => segs.getLast?.map (·.value)
  | _ => none

def numberedName (name : String) (count : Nat) : String := s!"{name}_{count}"

/-- The item under an alias, where it is an expression. -/
def renamedItem (alias_ : Ident) : SelectItem → SelectItem
  | .unnamedExpr e => .exprWithAlias e alias_
  | .exprWithAlias e _ => .exprWithAlias e alias_
  | item => item

/-- `seen` counts the columns of each name before the items. -/
def dedupItems (seen : String → Nat) : List SelectItem → List SelectItem
  | [] => []
  | item :: rest =>
    match projectionOutputName item with
    | none => item :: dedupItems seen rest
    | some name =>
      let count := seen name + 1
      (if 1 < count then renamedItem (.new (numberedName name count)) item else item) ::
        dedupItems (Function.update seen name count) rest

def dedupProjection (projection : List SelectItem) : List SelectItem :=
  dedupItems (fun _ => 0) projection

mutual

/-- Below depth 0 projections are told apart; parentheses count as a depth here. -/
def dedupInSetExpr (depth : Nat) : SetExpr → SetExpr
  | .select ⟨distinct, projection, from_, selection, groupBy, having⟩ =>
    .select ⟨distinct, if 0 < depth then dedupProjection projection else projection,
      dedupInFrom depth from_, selection, groupBy, having⟩
  | .setOperation op quantifier left right =>
    .setOperation op quantifier (dedupInSetExpr depth left) (dedupInSetExpr depth right)
  | .query q => .query (dedupInQuery (depth + 1) q)
  | .values rows => .values rows

def dedupInFrom (depth : Nat) : List TableWithJoins → List TableWithJoins
  | [] => []
  | entry :: rest => dedupInEntry depth entry :: dedupInFrom depth rest

def dedupInEntry (depth : Nat) : TableWithJoins → TableWithJoins
  | ⟨relation, joins⟩ => ⟨dedupInFactor depth relation, dedupInJoins depth joins⟩

def dedupInJoins (depth : Nat) : List Join → List Join
  | [] => []
  | ⟨relation, kind, constraint⟩ :: rest =>
    ⟨dedupInFactor depth relation, kind, constraint⟩ :: dedupInJoins depth rest

def dedupInFactor (depth : Nat) : TableFactor → TableFactor
  | .derived lateral subquery alias_ => .derived lateral (dedupInQuery (depth + 1) subquery) alias_
  | factor => factor

def dedupInQuery (depth : Nat) : Query → Query
  | ⟨with_, body, orderBy, limit, offset⟩ =>
    ⟨dedupInWith depth with_, dedupInSetExpr depth body, orderBy, limit, offset⟩

def dedupInWith (depth : Nat) : Option With → Option With
  | none => none
  | some ⟨recursive, ctes⟩ => some ⟨recursive, dedupInCtes depth ctes⟩

def dedupInCtes (depth : Nat) : List Cte → List Cte
  | [] => []
  | ⟨alias_, q⟩ :: rest => ⟨alias_, dedupInQuery (depth + 1) q⟩ :: dedupInCtes depth rest

end

def disambiguateDuplicateColumns (q : Query) : Query := dedupInQuery 0 q

/-- A projection met on the way, how deep it is nested, and the depth counted for it. -/
structure Visit where
  scope : Nat
  depth : Nat
  projection : List SelectItem

mutual

/-- What the pass visits; parentheses open no scope. -/
def visitsInSetExpr (scope depth : Nat) : SetExpr → List Visit
  | .select ⟨_, projection, from_, _, _, _⟩ =>
    ⟨scope, depth, projection⟩ :: visitsInFrom scope depth from_
  | .setOperation _ _ left right =>
    visitsInSetExpr scope depth left ++ visitsInSetExpr scope depth right
  | .query q => visitsInQuery scope (depth + 1) q
  | .values _ => []

def visitsInFrom (scope depth : Nat) : List TableWithJoins → List Visit
  | [] => []
  | entry :: rest => visitsInEntry scope depth entry ++ visitsInFrom scope depth rest

def visitsInEntry (scope depth : Nat) : TableWithJoins → List Visit
  | ⟨relation, joins⟩ => visitsInFactor scope depth relation ++ visitsInJoins scope depth joins

def visitsInJoins (scope depth : Nat) : List Join → List Visit
  | [] => []
  | ⟨relation, _, _⟩ :: rest => visitsInFactor scope depth relation ++ visitsInJoins scope depth rest

def visitsInFactor (scope depth : Nat) : TableFactor → List Visit
  | .derived _ subquery _ => visitsInQuery (scope + 1) (depth + 1) subquery
  | _ => []

def visitsInQuery (scope depth : Nat) : Query → List Visit
  | ⟨with_, body, _, _, _⟩ => visitsInSetExpr scope depth body ++ visitsInWith scope depth with_

def visitsInWith (scope depth : Nat) : Option With → List Visit
  | none => []
  | some ⟨_, ctes⟩ => visitsInCtes scope depth ctes

def visitsInCtes (scope depth : Nat) : List Cte → List Visit
  | [] => []
  | ⟨_, q⟩ :: rest => visitsInQuery (scope + 1) (depth + 1) q ++ visitsInCtes scope depth rest

end

def visits (q : Query) : List Visit := visitsInQuery 0 0 q

def outputNames (projection : List SelectItem) : List String :=
  projection.filterMap projectionOutputName

def itemExpr : SelectItem → Option Expr
  | .unnamedExpr e => some e
  | .exprWithAlias e _ => some e
  | _ => none

/-- The first item of its name, or one without a name that counts. -/
def FirstOfName (projection : List SelectItem) (i : Nat) : Prop :=
  ∀ item, projection[i]? = some item → ∀ name, projectionOutputName item = some name →
    name ∉ outputNames (projection.take i)

/-- Item by item the same expressions, and the first of each name as it was. -/
structure ItemsKept (before after : List SelectItem) : Prop where
  exprs : after.map itemExpr = before.map itemExpr
  first : ∀ i, FirstOfName before i → after[i]? = before[i]?

/-- What telling the columns apart should come to. -/
def ToldApart (before after : Visit) : Prop :=
  ItemsKept before.projection after.projection ∧
    (before.scope = 0 →
      after.projection.map projectionOutputName = before.projection.map projectionOutputName) ∧
    (0 < before.scope → (outputNames after.projection).Nodup)

def Disambiguated (q q' : Query) : Prop := List.Forall₂ ToldApart (visits q) (visits q')

theorem renamedItem_name {item : SelectItem} {name : String}
    (named : projectionOutputName item = some name) (other : String) :
    projectionOutputName (renamedItem (.new other) item) = some other := by
  cases item with
  | unnamedExpr e => rfl
  | exprWithAlias e alias_ => rfl
  | qualifiedWildcard name => cases named
  | wildcard => cases named

theorem renamedItem_expr (alias_ : Ident) (item : SelectItem) :
    itemExpr (renamedItem alias_ item) = itemExpr item := by
  cases item <;> rfl

section
variable (seen : String → Nat)

theorem dedupItems_none {item : SelectItem} (rest : List SelectItem)
    (unnamed : projectionOutputName item = none) :
    dedupItems seen (item :: rest) = item :: dedupItems seen rest := by
  rw [dedupItems, unnamed]

theorem dedupItems_some {item : SelectItem} (rest : List SelectItem) {name : String}
    (named : projectionOutputName item = some name) :
    dedupItems seen (item :: rest) =
      (if 1 < seen name + 1 then renamedItem (.new (numberedName name (seen name + 1))) item
        else item) :: dedupItems (Function.update seen name (seen name + 1)) rest := by
  rw [dedupItems, named]

theorem outputNames_dedupItems (items : List SelectItem) :
    outputNames (dedupItems seen items) =
      (occurrences seen (outputNames items)).map (labelled numberedName) := by
  unfold outputNames
  induction items generalizing seen with
  | nil => rfl
  | cons item rest ih =>
    cases named : projectionOutputName item with
    | none =>
      rw [dedupItems_none seen rest named, List.filterMap_cons_none named,
        List.filterMap_cons_none named, ih]
    | some name =>
      have label : projectionOutputName (if 1 < seen name + 1 then
          renamedItem (.new (numberedName name (seen name + 1))) item else item) =
            some (labelled numberedName (name, seen name + 1)) := by
        unfold labelled
        split
        · exact renamedItem_name named _
        · exact named
      rw [dedupItems_some seen rest named, List.filterMap_cons_some named,
        List.filterMap_cons_some label, ih, occurrences, List.map_cons]

theorem exprs_dedupItems (items : List SelectItem) :
    (dedupItems seen items).map itemExpr = items.map itemExpr := by
  induction items generalizing seen with
  | nil => rfl
  | cons item rest ih =>
    cases named : projectionOutputName item with
    | none => rw [dedupItems_none seen rest named, List.map_cons, List.map_cons, ih]
    | some name =>
      rw [dedupItems_some seen rest named, List.map_cons, List.map_cons, ih]
      refine congrArg (· :: _) ?_
      split
      · exact renamedItem_expr _ item
      · rfl

/-- An item whose name was not met before stays. -/
theorem dedupItems_getElem? {items : List SelectItem} {i : Nat} (first : FirstOfName items i)
    (unseen : ∀ item, items[i]? = some item → ∀ name, projectionOutputName item = some name →
      seen name = 0) : (dedupItems seen items)[i]? = items[i]? := by
  induction items generalizing seen i with
  | nil => rfl
  | cons item rest ih =>
    cases i with
    | zero =>
      cases named : projectionOutputName item with
      | none => rw [dedupItems_none seen rest named, List.getElem?_cons_zero,
          List.getElem?_cons_zero]
      | some name =>
        have new := unseen item rfl name named
        rw [dedupItems_some seen rest named, List.getElem?_cons_zero, List.getElem?_cons_zero,
          if_neg (by omega)]
    | succ i =>
      have later : FirstOfName rest i := by
        intro other there name named inside
        refine first other there name named ?_
        unfold outputNames at inside ⊢
        rw [List.take_succ_cons]
        exact ((List.sublist_cons_self item _).filterMap _).subset inside
      cases named : projectionOutputName item with
      | none =>
        rw [dedupItems_none seen rest named, List.getElem?_cons_succ, List.getElem?_cons_succ]
        exact ih seen later unseen
      | some name =>
        rw [dedupItems_some seen rest named, List.getElem?_cons_succ, List.getElem?_cons_succ]
        refine ih _ later fun other there otherName otherNamed => ?_
        have apart : otherName ≠ name := by
          rintro rfl
          refine first other there otherName otherNamed ?_
          unfold outputNames
          rw [List.take_succ_cons, List.filterMap_cons_some named]
          exact List.mem_cons_self
        rw [Function.update_of_ne apart]
        exact unseen other there otherName otherNamed

end

theorem dedupProjection_kept (projection : List SelectItem) :
    ItemsKept projection (dedupProjection projection) :=
  ⟨exprs_dedupItems _ projection,
    fun _ first => dedupItems_getElem? _ first fun _ _ _ _ => rfl⟩

theorem toList_numberedName (name : String) (count : Nat) :
    (numberedName name count).toList = name.toList ++ '_' :: Nat.toDigits 10 count := by
  unfold numberedName
  simp [toString]

theorem before_mark {c : Char} {xs ys rest more : List Char} (absent : c ∉ xs) (absent' : c ∉ ys)
    (same : xs ++ c :: rest = ys ++ c :: more) : xs = ys ∧ rest = more := by
  induction xs generalizing ys with
  | nil =>
    cases ys with
    | nil => exact ⟨rfl, (List.cons.inj same).2⟩
    | cons y ys => exact absurd ((List.cons.inj same).1 ▸ List.mem_cons_self) absent'
  | cons x xs ih =>
    cases ys with
    | nil => exact absurd ((List.cons.inj same).1 ▸ List.mem_cons_self) absent
    | cons y ys =>
      obtain ⟨rfl, tails⟩ := List.cons.inj same
      obtain ⟨rfl, later⟩ := ih (fun inside => absent (List.mem_cons_of_mem _ inside))
        (fun inside => absent' (List.mem_cons_of_mem _ inside)) tails
      exact ⟨rfl, later⟩

/-- The number after the last underscore tells the name and the count. -/
theorem numberedName_apart (x y : String) (i j : Nat)
    (same : numberedName x i = numberedName y j) : x = y ∧ i = j := by
  have lists := congrArg String.toList same
  rw [toList_numberedName, toList_numberedName] at lists
  have mark : ∀ n, '_' ∉ (Nat.toDigits 10 n).reverse := fun n member =>
    Nat.underscore_not_in_toDigits (List.mem_reverse.mp member)
  have turned := congrArg List.reverse lists
  simp only [List.reverse_append, List.reverse_cons, List.append_assoc, List.singleton_append]
    at turned
  obtain ⟨digits, names⟩ := before_mark (mark i) (mark j) turned
  refine ⟨String.toList_inj.mp (List.reverse_injective names), ?_⟩
  have read := congrArg (fun text => Nat.ofDigitChars 10 text 0) (List.reverse_injective digits)
  simpa using read

theorem numberedName_ne (name : String) (count : Nat) : numberedName name count ≠ name := by
  intro same
  have long := congrArg (fun text => text.toList.length) same
  rw [toList_numberedName, List.length_append, List.length_cons] at long
  omega

theorem dedupProjection_nodup_iff (projection : List SelectItem) :
    (outputNames (dedupProjection projection)).Nodup ↔
      Unlabelled numberedName (outputNames projection) := by
  unfold dedupProjection
  rw [outputNames_dedupItems]
  exact labelled_nodup_iff numberedName_apart _

/-- The names stay exactly if none occurs twice. -/
theorem dedupProjection_names_iff (projection : List SelectItem) :
    (dedupProjection projection).map projectionOutputName = projection.map projectionOutputName ↔
      (outputNames projection).Nodup := by
  constructor
  · intro same
    have names := congrArg (List.filterMap id) same
    rw [List.filterMap_map, List.filterMap_map] at names
    refine (labelled_eq_iff numberedName_ne _).mp ?_
    exact (outputNames_dedupItems (fun _ => 0) projection).symm.trans names
  · intro distinct
    refine congrArg _ (List.ext_getElem? fun i => ?_)
    refine (dedupProjection_kept projection).first i fun item there name named before => ?_
    have split := List.take_append_drop i projection
    rw [← split] at distinct
    unfold outputNames at distinct before
    rw [List.filterMap_append] at distinct
    refine (List.nodup_append.mp distinct).2.2 name before name ?_ rfl
    refine List.mem_filterMap.mpr ⟨item, ?_, named⟩
    refine List.mem_of_getElem? (i := 0) ?_
    rwa [List.getElem?_drop, Nat.add_zero]

/-- What the pass makes of a projection it meets. -/
def Visit.dedup (v : Visit) : Visit :=
  ⟨v.scope, v.depth, if 0 < v.depth then dedupProjection v.projection else v.projection⟩

mutual

theorem visits_setExpr (scope depth : Nat) : ∀ e : SetExpr,
    visitsInSetExpr scope depth (dedupInSetExpr depth e) =
      (visitsInSetExpr scope depth e).map Visit.dedup
  | .select ⟨distinct, projection, from_, selection, groupBy, having⟩ => by
    rw [dedupInSetExpr, visitsInSetExpr, visitsInSetExpr, visits_from scope depth from_]
    rfl
  | .setOperation op quantifier left right => by
    rw [dedupInSetExpr, visitsInSetExpr, visitsInSetExpr, List.map_append,
      visits_setExpr scope depth left, visits_setExpr scope depth right]
  | .query q => by
    rw [dedupInSetExpr, visitsInSetExpr, visitsInSetExpr, visits_query scope (depth + 1) q]
  | .values rows => rfl

theorem visits_from (scope depth : Nat) : ∀ entries : List TableWithJoins,
    visitsInFrom scope depth (dedupInFrom depth entries) =
      (visitsInFrom scope depth entries).map Visit.dedup
  | [] => rfl
  | entry :: rest => by
    rw [dedupInFrom, visitsInFrom, visitsInFrom, List.map_append, visits_entry scope depth entry,
      visits_from scope depth rest]

theorem visits_entry (scope depth : Nat) : ∀ entry : TableWithJoins,
    visitsInEntry scope depth (dedupInEntry depth entry) =
      (visitsInEntry scope depth entry).map Visit.dedup
  | ⟨relation, joins⟩ => by
    rw [dedupInEntry, visitsInEntry, visitsInEntry, List.map_append,
      visits_factor scope depth relation, visits_joins scope depth joins]

theorem visits_joins (scope depth : Nat) : ∀ joins : List Join,
    visitsInJoins scope depth (dedupInJoins depth joins) =
      (visitsInJoins scope depth joins).map Visit.dedup
  | [] => rfl
  | ⟨relation, kind, constraint⟩ :: rest => by
    rw [dedupInJoins, visitsInJoins, visitsInJoins, List.map_append,
      visits_factor scope depth relation, visits_joins scope depth rest]

theorem visits_factor (scope depth : Nat) : ∀ factor : TableFactor,
    visitsInFactor scope depth (dedupInFactor depth factor) =
      (visitsInFactor scope depth factor).map Visit.dedup
  | .derived lateral subquery alias_ => by
    rw [dedupInFactor, visitsInFactor, visitsInFactor,
      visits_query (scope + 1) (depth + 1) subquery]
  | .table _ _ _ | .nestedJoin _ _ | .function _ _ _ _ | .tableFunction _ _ | .unnest _ _ => rfl

theorem visits_query (scope depth : Nat) : ∀ q : Query,
    visitsInQuery scope depth (dedupInQuery depth q) =
      (visitsInQuery scope depth q).map Visit.dedup
  | ⟨with_, body, orderBy, limit, offset⟩ => by
    rw [dedupInQuery, visitsInQuery, visitsInQuery, List.map_append,
      visits_setExpr scope depth body, visits_with scope depth with_]

theorem visits_with (scope depth : Nat) : ∀ with_ : Option With,
    visitsInWith scope depth (dedupInWith depth with_) =
      (visitsInWith scope depth with_).map Visit.dedup
  | none => rfl
  | some ⟨recursive, ctes⟩ => by
    rw [dedupInWith, visitsInWith, visitsInWith, visits_ctes scope depth ctes]

theorem visits_ctes (scope depth : Nat) : ∀ ctes : List Cte,
    visitsInCtes scope depth (dedupInCtes depth ctes) =
      (visitsInCtes scope depth ctes).map Visit.dedup
  | [] => rfl
  | ⟨alias_, q⟩ :: rest => by
    rw [dedupInCtes, visitsInCtes, visitsInCtes, List.map_append,
      visits_query (scope + 1) (depth + 1) q, visits_ctes scope depth rest]

end

/-- Between two visits the depth counted grows at least as much as the nesting. -/
def Visit.Within (scope depth : Nat) (v : Visit) : Prop := v.scope + depth ≤ v.depth + scope

theorem Visit.Within.below {scope depth n : Nat} {v : Visit} (within : v.Within (scope + n) (depth + n)) :
    v.Within scope depth := by
  unfold Visit.Within at within ⊢
  omega

mutual

theorem within_setExpr (scope depth : Nat) : ∀ e : SetExpr,
    ∀ v ∈ visitsInSetExpr scope depth e, v.Within scope depth
  | .select ⟨distinct, projection, from_, selection, groupBy, having⟩ => by
    rw [visitsInSetExpr, List.forall_mem_cons]
    exact ⟨Nat.le_of_eq (Nat.add_comm scope depth), within_from scope depth from_⟩
  | .setOperation op quantifier left right => by
    rw [visitsInSetExpr, List.forall_mem_append]
    exact ⟨within_setExpr scope depth left, within_setExpr scope depth right⟩
  | .query q => by
    rw [visitsInSetExpr]
    intro v member
    have inner := within_query scope (depth + 1) q v member
    unfold Visit.Within at inner ⊢
    omega
  | .values rows => List.forall_mem_nil _

theorem within_from (scope depth : Nat) : ∀ entries : List TableWithJoins,
    ∀ v ∈ visitsInFrom scope depth entries, v.Within scope depth
  | [] => List.forall_mem_nil _
  | entry :: rest => by
    rw [visitsInFrom, List.forall_mem_append]
    exact ⟨within_entry scope depth entry, within_from scope depth rest⟩

theorem within_entry (scope depth : Nat) : ∀ entry : TableWithJoins,
    ∀ v ∈ visitsInEntry scope depth entry, v.Within scope depth
  | ⟨relation, joins⟩ => by
    rw [visitsInEntry, List.forall_mem_append]
    exact ⟨within_factor scope depth relation, within_joins scope depth joins⟩

theorem within_joins (scope depth : Nat) : ∀ joins : List Join,
    ∀ v ∈ visitsInJoins scope depth joins, v.Within scope depth
  | [] => List.forall_mem_nil _
  | ⟨relation, kind, constraint⟩ :: rest => by
    rw [visitsInJoins, List.forall_mem_append]
    exact ⟨within_factor scope depth relation, within_joins scope depth rest⟩

theorem within_factor (scope depth : Nat) : ∀ factor : TableFactor,
    ∀ v ∈ visitsInFactor scope depth factor, v.Within scope depth
  | .derived lateral subquery alias_ => by
    rw [visitsInFactor]
    exact fun v member => (within_query (scope + 1) (depth + 1) subquery v member).below
  | .table _ _ _ | .nestedJoin _ _ | .function _ _ _ _ | .tableFunction _ _ | .unnest _ _ =>
    List.forall_mem_nil _

theorem within_query (scope depth : Nat) : ∀ q : Query,
    ∀ v ∈ visitsInQuery scope depth q, v.Within scope depth
  | ⟨with_, body, orderBy, limit, offset⟩ => by
    rw [visitsInQuery, List.forall_mem_append]
    exact ⟨within_setExpr scope depth body, within_with scope depth with_⟩

theorem within_with (scope depth : Nat) : ∀ with_ : Option With,
    ∀ v ∈ visitsInWith scope depth with_, v.Within scope depth
  | none => List.forall_mem_nil _
  | some ⟨recursive, ctes⟩ => by
    rw [visitsInWith]
    exact within_ctes scope depth ctes

theorem within_ctes (scope depth : Nat) : ∀ ctes : List Cte,
    ∀ v ∈ visitsInCtes scope depth ctes, v.Within scope depth
  | [] => List.forall_mem_nil _
  | ⟨alias_, q⟩ :: rest => by
    rw [visitsInCtes, List.forall_mem_append]
    exact ⟨fun v member => (within_query (scope + 1) (depth + 1) q v member).below,
      within_ctes scope depth rest⟩

end

/-- No numbered name is a name of a nested projection, and no outermost projection in
parentheses has a name twice. -/
def Tellable (v : Visit) : Prop :=
  (0 < v.scope → Unlabelled numberedName (outputNames v.projection)) ∧
    (v.scope = 0 → 0 < v.depth → (outputNames v.projection).Nodup)

theorem toldApart_iff {v : Visit} (within : v.Within 0 0) : ToldApart v v.dedup ↔ Tellable v := by
  have kept : ItemsKept v.projection v.dedup.projection := by
    unfold Visit.dedup
    split
    · exact dedupProjection_kept v.projection
    · exact ⟨rfl, fun _ _ => rfl⟩
  unfold ToldApart Tellable
  rw [and_iff_right kept, and_comm]
  refine and_congr (forall_congr' fun nested => ?_) (forall_congr' fun outermost => ?_)
  · have deep : 0 < v.depth := by
      unfold Visit.Within at within
      omega
    unfold Visit.dedup
    rw [if_pos deep]
    exact dedupProjection_nodup_iff v.projection
  · unfold Visit.dedup
    by_cases deep : 0 < v.depth
    · rw [if_pos deep, forall_prop_of_true deep]
      exact dedupProjection_names_iff v.projection
    · rw [if_neg deep]
      exact iff_of_true rfl fun deeper => absurd deeper deep

/-- The columns are told apart exactly if no numbered name is taken in a nested projection and
the outermost ones in parentheses have no name twice. -/
theorem disambiguated_iff (q : Query) :
    Disambiguated q (disambiguateDuplicateColumns q) ↔ ∀ v ∈ visits q, Tellable v := by
  have met : visits (disambiguateDuplicateColumns q) = (visits q).map Visit.dedup :=
    visits_query 0 0 q
  unfold Disambiguated
  rw [met, List.forall₂_map_right_iff, List.forall₂_same]
  exact forall₂_congr fun v member => toldApart_iff (within_query 0 0 q v member)

/-- `SELECT d.x FROM (SELECT x, x, x_2 FROM t) d`. -/
def takenNumber : Query :=
  let column (name : String) : SelectItem := .unnamedExpr (.identifier (.new name))
  let t : TableFactor := .table [.identifier (.new "t")] none none
  let inner : Query :=
    ⟨none, .select ⟨.no, [column "x", column "x", column "x_2"], [⟨t, []⟩], none,
      .expressions [], none⟩, [], none, none⟩
  ⟨none, .select ⟨.no, [.unnamedExpr (.compoundIdentifier [.new "d", .new "x"])],
    [⟨.derived false inner (some ⟨.new "d", []⟩), []⟩], none, .expressions [], none⟩, [], none, none⟩

/-- The second `x` becomes a second `x_2`. -/
theorem number_taken : ¬Disambiguated takenNumber (disambiguateDuplicateColumns takenNumber) := by
  unfold Disambiguated
  intro told
  have nested : ToldApart
      ⟨1, 1, [.unnamedExpr (.identifier (.new "x")), .unnamedExpr (.identifier (.new "x")),
        .unnamedExpr (.identifier (.new "x_2"))]⟩
      ⟨1, 1, [.unnamedExpr (.identifier (.new "x")),
        .exprWithAlias (.identifier (.new "x")) (.new "x_2"),
        .unnamedExpr (.identifier (.new "x_2"))]⟩ :=
    (List.forall₂_cons.mp (List.forall₂_cons.mp told).2).1
  exact absurd (nested.2.2 Nat.one_pos) (by decide)

end PgCatalog.CleanDuplicateColumns
