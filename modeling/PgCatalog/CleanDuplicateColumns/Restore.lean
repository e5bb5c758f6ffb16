import Std.Data.String.ToNat
import Mathlib.Data.List.Nodup
import Mathlib.Data.List.Forall2
import PgCatalog.Library.Text
import PgCatalog.CleanDuplicateColumns.Alias

/-! Aliasing and restoring: which names come back, position by position, once the items
without a name were aliased and the aliases mapped back by name. -/
namespace PgCatalog.CleanDuplicateColumns

open Library Sql

/-- A single word: what reads as one identifier without quotes. -/
def isWord (text : String) : Bool :=
  match text.toList with
  | [] => false
  | first :: rest =>
    (first.isAlpha || first = '_' || 127 < first.toNat) &&
      rest.all fun c => c.isAlphanum || c = '_' || c = '$' || 127 < c.toNat

/-- The name read of an identifier once it is printed: without quotes the case is folded,
and what is not a word does not read as a name. -/
def readBack (id : Ident) : Option String :=
  if id.quoteStyle.isSome then some id.value
  else if isWord id.value then some id.value.toLower else none

/-- The name an item gives its column, where it gives one. -/
def outputName : SelectItem → Option (Option String)
  | .exprWithAlias _ alias_ => some (readBack alias_)
  | _ => none

mutual

/-- The projections the client sees, from the left. -/
def bodyProjections : SetExpr → List (List SelectItem)
  | .select s => [s.projection]
  | .setOperation _ _ left right => bodyProjections left ++ bodyProjections right
  | .query q => topProjections q
  | .values _ => []

def topProjections : Query → List (List SelectItem)
  | ⟨_, body, _, _, _⟩ => bodyProjections body

end

mutual

/-- The projection that names the columns of the result. -/
def bodyNaming : SetExpr → List SelectItem
  | .select s => s.projection
  | .setOperation _ _ left _ => bodyNaming left
  | .query q => namingProjection q
  | .values _ => []

def namingProjection : Query → List SelectItem
  | ⟨_, body, _, _, _⟩ => bodyNaming body

end

section
variable (types : TypeNames)

/-- The name an item ought to have: its alias, or the one recorded for it. -/
def ownName : SelectItem → Option (Option String)
  | .unnamedExpr e => some (some (recordedName types e))
  | .exprWithAlias _ alias_ => some (readBack alias_)
  | _ => none

/-- The names of an item's columns in a result. -/
def resultFields (expand : SelectItem → List String) : SelectItem → List String
  | .exprWithAlias _ alias_ => [alias_.folded]
  | item => expand item

def ownFields (expand : SelectItem → List String) : SelectItem → List String
  | .unnamedExpr e => [recordedName types e]
  | .exprWithAlias _ alias_ => [alias_.folded]
  | item => expand item

/-- The aliases given from `k` on, each with the name recorded under it. -/
def numbered : Nat → List SelectItem → List (String × String)
  | _, [] => []
  | k, .unnamedExpr e :: rest => (aliasName k, recordedName types e) :: numbered (k + 1) rest
  | k, _ :: rest => numbered k rest

def aliasedItems : Nat → List SelectItem → List SelectItem
  | _, [] => []
  | k, .unnamedExpr e :: rest =>
    .exprWithAlias e (.new (aliasName k)) :: aliasedItems (k + 1) rest
  | k, item :: rest => item :: aliasedItems k rest

def isUnnamed : SelectItem → Bool
  | .unnamedExpr _ => true
  | _ => false

def unnamedCount (items : List SelectItem) : Nat := items.countP isUnnamed

def aliasedBranches : Nat → List (List SelectItem) → List (List SelectItem)
  | _, [] => []
  | k, items :: rest => aliasedItems k items :: aliasedBranches (k + unnamedCount items) rest

variable {types}

theorem aliasProjection_eq (st : Aliasing) (items : List SelectItem) :
    aliasProjection types st items = (aliasedItems st.counter items,
      ⟨st.counter + unnamedCount items,
        (numbered types st.counter items).reverse ++ st.aliasMap⟩) := by
  induction items generalizing st with
  | nil => rfl
  | cons item rest ih =>
    cases item with
    | unnamedExpr e =>
      simp only [aliasProjection, ih, aliasedItems, numbered, unnamedCount, isUnnamed,
        List.countP_cons, List.reverse_cons, List.append_assoc, List.singleton_append, if_true]
      rw [Nat.add_assoc, Nat.add_comm 1]
    | exprWithAlias e alias_ => simp [aliasProjection, ih, aliasedItems, numbered, unnamedCount, isUnnamed]
    | qualifiedWildcard name => simp [aliasProjection, ih, aliasedItems, numbered, unnamedCount, isUnnamed]
    | wildcard => simp [aliasProjection, ih, aliasedItems, numbered, unnamedCount, isUnnamed]

mutual

/-- Below the outermost projections nothing is aliased. -/
theorem nested_setExpr (depth : Nat) (st : Aliasing) :
    ∀ e : SetExpr, aliasColumnsInSetExpr types (depth + 1) st e = (e, st)
  | .select ⟨_, _, from_, _, _, _⟩ => by
    have inside := from_unchanged (depth + 1) st from_
    simp only [aliasColumnsInSetExpr, Nat.add_one_ne_zero, if_false, inside]
  | .setOperation _ _ left right => by
    have first := nested_setExpr depth st left
    have second := nested_setExpr depth st right
    simp only [aliasColumnsInSetExpr, first, second]
  | .query q => by
    have inside := nested_query depth st q
    simp only [aliasColumnsInSetExpr, inside]
  | .values _ => by simp only [aliasColumnsInSetExpr]

theorem from_unchanged (depth : Nat) (st : Aliasing) :
    ∀ from_ : List TableWithJoins, aliasColumnsInFrom types depth st from_ = (from_, st)
  | [] => by simp only [aliasColumnsInFrom]
  | entry :: rest => by
    have first := entry_unchanged depth st entry
    have later := from_unchanged depth st rest
    simp only [aliasColumnsInFrom, first, later]

theorem entry_unchanged (depth : Nat) (st : Aliasing) :
    ∀ entry : TableWithJoins, aliasColumnsInEntry types depth st entry = (entry, st)
  | ⟨relation, joins⟩ => by
    have inside := factor_unchanged depth st relation
    simp only [aliasColumnsInEntry, inside]

theorem factor_unchanged (depth : Nat) (st : Aliasing) :
    ∀ factor : TableFactor, aliasColumnsInFactor types depth st factor = (factor, st)
  | .derived _ subquery _ => by
    have inside := nested_query depth st subquery
    simp only [aliasColumnsInFactor, inside]
  | .table _ _ _ => by simp only [aliasColumnsInFactor]
  | .nestedJoin _ _ => by simp only [aliasColumnsInFactor]
  | .function _ _ _ _ => by simp only [aliasColumnsInFactor]
  | .tableFunction _ _ => by simp only [aliasColumnsInFactor]
  | .unnest _ _ => by simp only [aliasColumnsInFactor]

theorem nested_query (depth : Nat) (st : Aliasing) :
    ∀ q : Query, aliasColumnsInQuery types (depth + 1) st q = (q, st)
  | ⟨with_, body, _, _, _⟩ => by
    have inside := nested_setExpr depth st body
    have ctes := with_unchanged (depth + 1) st with_
    simp only [aliasColumnsInQuery, inside, ctes]

theorem with_unchanged (depth : Nat) (st : Aliasing) :
    ∀ with_ : Option With, aliasColumnsInWith types depth st with_ = (with_, st)
  | none => by simp only [aliasColumnsInWith]
  | some ⟨_, ctes⟩ => by
    have inside := ctes_unchanged depth st ctes
    simp only [aliasColumnsInWith, inside]

theorem ctes_unchanged (depth : Nat) (st : Aliasing) :
    ∀ ctes : List Cte, aliasColumnsInCtes types depth st ctes = (ctes, st)
  | [] => by simp only [aliasColumnsInCtes]
  | ⟨_, q⟩ :: rest => by
    have inside := nested_query depth st q
    have later := ctes_unchanged depth st rest
    simp only [aliasColumnsInCtes, inside, later]

end

theorem unnamedCount_append (items rest : List SelectItem) :
    unnamedCount (items ++ rest) = unnamedCount items + unnamedCount rest :=
  List.countP_append

theorem numbered_append (k : Nat) (items rest : List SelectItem) :
    numbered types k (items ++ rest) =
      numbered types k items ++ numbered types (k + unnamedCount items) rest := by
  induction items generalizing k with
  | nil => rfl
  | cons item later ih =>
    cases item with
    | unnamedExpr e =>
      have count : unnamedCount (.unnamedExpr e :: later) = 1 + unnamedCount later := by
        rw [unnamedCount, List.countP_cons_of_pos rfl, unnamedCount, Nat.add_comm]
      rw [List.cons_append, numbered, numbered, ih, count, List.cons_append, Nat.add_assoc]
    | exprWithAlias e alias_ => exact ih k
    | qualifiedWildcard name => exact ih k
    | wildcard => exact ih k

theorem aliasedBranches_append (k : Nat) (branches rest : List (List SelectItem)) :
    aliasedBranches k (branches ++ rest) =
      aliasedBranches k branches ++ aliasedBranches (k + unnamedCount branches.flatten) rest := by
  induction branches generalizing k with
  | nil => rfl
  | cons items later ih =>
    rw [List.cons_append, aliasedBranches, aliasedBranches, ih, List.flatten_cons,
      unnamedCount_append, Nat.add_assoc, List.cons_append]

variable (types) in
/-- What is known of a statement's state once the given branches were aliased. -/
def Aliasing.after (st : Aliasing) (branches : List (List SelectItem)) : Aliasing :=
  ⟨st.counter + unnamedCount branches.flatten,
    (numbered types st.counter branches.flatten).reverse ++ st.aliasMap⟩

theorem Aliasing.after_append (st : Aliasing) (branches rest : List (List SelectItem)) :
    Aliasing.after types st (branches ++ rest) =
      Aliasing.after types (Aliasing.after types st branches) rest := by
  simp only [Aliasing.after, List.flatten_append, unnamedCount_append, numbered_append,
    List.reverse_append, List.append_assoc, Nat.add_assoc]

mutual

/-- The outermost projections are aliased one after the other, and nothing else is. -/
theorem aliased_setExpr (st : Aliasing) : ∀ e : SetExpr,
    bodyProjections (aliasColumnsInSetExpr types 0 st e).1 =
        aliasedBranches st.counter (bodyProjections e) ∧
      bodyNaming (aliasColumnsInSetExpr types 0 st e).1 = aliasedItems st.counter (bodyNaming e) ∧
      (aliasColumnsInSetExpr types 0 st e).2 = Aliasing.after types st (bodyProjections e)
  | .select ⟨_, projection, from_, _, _, _⟩ => by
    simp only [aliasColumnsInSetExpr, if_true, aliasProjection_eq, from_unchanged,
      bodyProjections, bodyNaming, aliasedBranches, Aliasing.after, List.flatten_cons,
      List.flatten_nil, List.append_nil, and_self]
  | .setOperation _ _ left right => by
    obtain ⟨first, naming, state⟩ := aliased_setExpr st left
    obtain ⟨second, _, later⟩ :=
      aliased_setExpr (aliasColumnsInSetExpr types 0 st left).2 right
    refine ⟨?_, naming, ?_⟩
    · change bodyProjections (aliasColumnsInSetExpr types 0 st left).1 ++
        bodyProjections (aliasColumnsInSetExpr types 0
          (aliasColumnsInSetExpr types 0 st left).2 right).1 = _
      rw [first, second, bodyProjections, aliasedBranches_append, state]
      rfl
    · change (aliasColumnsInSetExpr types 0 (aliasColumnsInSetExpr types 0 st left).2 right).2 = _
      rw [later, state, bodyProjections, Aliasing.after_append]
  | .query q => aliased_query st q
  | .values _ => ⟨rfl, rfl, rfl⟩

theorem aliased_query (st : Aliasing) : ∀ q : Query,
    topProjections (aliasColumnsInQuery types 0 st q).1 =
        aliasedBranches st.counter (topProjections q) ∧
      namingProjection (aliasColumnsInQuery types 0 st q).1 =
        aliasedItems st.counter (namingProjection q) ∧
      (aliasColumnsInQuery types 0 st q).2 = Aliasing.after types st (topProjections q)
  | ⟨with_, body, _, _, _⟩ => by
    obtain ⟨projections, naming, state⟩ := aliased_setExpr st body
    refine ⟨projections, naming, ?_⟩
    simp only [aliasColumnsInQuery, with_unchanged]
    exact state

end

mutual

theorem restored_setExpr (aliasMap : List (String × String)) : ∀ e : SetExpr,
    bodyProjections (restoreInSetExpr aliasMap e) =
      (bodyProjections e).map (·.map (restoreItem aliasMap))
  | .select ⟨_, _, _, _, _, _⟩ => rfl
  | .setOperation _ _ left right => by
    have first := restored_setExpr aliasMap left
    have second := restored_setExpr aliasMap right
    rw [restoreInSetExpr, bodyProjections, bodyProjections, List.map_append, first, second]
  | .query q => restored_query aliasMap q
  | .values _ => rfl

theorem restored_query (aliasMap : List (String × String)) : ∀ q : Query,
    topProjections (restoreAliasedColumnNames aliasMap q) =
      (topProjections q).map (·.map (restoreItem aliasMap))
  | ⟨_, body, _, _, _⟩ => restored_setExpr aliasMap body

end

theorem aliasUnnamedColumns_map (q : Query) :
    (aliasUnnamedColumns types q).2 = (numbered types 1 (topProjections q).flatten).reverse := by
  change (aliasColumnsInQuery types 0 ⟨1, []⟩ q).2.aliasMap = _
  rw [(aliased_query ⟨1, []⟩ q).2.2]
  exact List.append_nil _

theorem aliasName_injective {m n : Nat} (same : aliasName m = aliasName n) : m = n := by
  have digits : toString m = toString n := String.append_right_inj _ |>.mp same
  exact Nat.repr_injective digits

theorem numbered_bound {k : Nat} {items : List SelectItem} {pair : String × String}
    (member : pair ∈ numbered types k items) : ∃ n, k ≤ n ∧ pair.1 = aliasName n := by
  induction items generalizing k with
  | nil => cases member
  | cons item rest ih =>
    cases item with
    | unnamedExpr e =>
      obtain rfl | later := List.mem_cons.mp member
      · exact ⟨k, le_refl k, rfl⟩
      · obtain ⟨n, low, named⟩ := ih later
        exact ⟨n, Nat.le_of_succ_le low, named⟩
    | exprWithAlias e alias_ => exact ih member
    | qualifiedWildcard name => exact ih member
    | wildcard => exact ih member

/-- No alias is given twice. -/
theorem numbered_nodup (k : Nat) (items : List SelectItem) :
    ((numbered types k items).map Prod.fst).Nodup := by
  induction items generalizing k with
  | nil => exact List.nodup_nil
  | cons item rest ih =>
    cases item with
    | unnamedExpr e =>
      refine List.nodup_cons.mpr ⟨fun again => ?_, ih (k + 1)⟩
      obtain ⟨pair, later, same⟩ := List.mem_map.mp again
      obtain ⟨n, low, named⟩ := numbered_bound later
      have equal := aliasName_injective (named.symm.trans same)
      omega
    | exprWithAlias e alias_ => exact ih k
    | qualifiedWildcard name => exact ih k
    | wildcard => exact ih k

theorem aliasMap_nodup (q : Query) :
    ((aliasUnnamedColumns types q).2.map Prod.fst).Nodup := by
  rw [aliasUnnamedColumns_map, List.map_reverse, List.nodup_reverse]
  exact numbered_nodup 1 _

theorem lookup_of_nodup {pairs : List (String × String)} (distinct : (pairs.map Prod.fst).Nodup)
    {key name : String} (member : (key, name) ∈ pairs) : pairs.lookup key = some name := by
  induction pairs with
  | nil => cases member
  | cons pair rest ih =>
    obtain ⟨first, second⟩ := pair
    obtain ⟨apart, later⟩ := List.nodup_cons.mp distinct
    obtain same | inside := List.mem_cons.mp member
    · obtain ⟨rfl, rfl⟩ := Prod.mk.inj same
      exact List.lookup_cons_self
    · have ne : key ≠ first := by
        rintro rfl
        exact apart (List.mem_map.mpr ⟨_, inside, rfl⟩)
      rw [List.lookup_cons, beq_false_of_ne ne]
      exact ih later inside

theorem lookup_eq_none {pairs : List (String × String)} {key : String}
    (absent : ∀ pair ∈ pairs, key ≠ pair.1) : pairs.lookup key = none := by
  induction pairs with
  | nil => rfl
  | cons pair rest ih =>
    obtain ⟨first, second⟩ := pair
    rw [List.lookup_cons, beq_false_of_ne (absent _ List.mem_cons_self)]
    exact ih fun other member => absent other (List.mem_cons_of_mem _ member)

theorem aliasName_lower (n : Nat) : (aliasName n).toLower = aliasName n := by
  have kept : ∀ c : Char, ¬(c.val ≥ 'A'.val ∧ c.val ≤ 'Z'.val) → c.toLower = c :=
    fun c lower => dif_neg lower
  have digits : (toString n).toList.map Char.toLower = (toString n).toList := by
    refine (List.map_congr_left fun c member => ?_).trans (List.map_id _)
    have digit : c.isDigit = true := by
      refine Nat.isDigit_of_mem_toDigits (b := 10) (n := n) (by decide) (by decide) ?_
      rw [Nat.toString_eq_repr, Nat.repr, String.toList_ofList] at member
      exact member
    refine kept c fun upper => ?_
    have high : c.toNat ≤ 57 := (Char.isDigit_iff_toNat.mp digit).2
    have low : 65 ≤ c.toNat := upper.1
    omega
  have letters : "alias_".toList.map Char.toLower = "alias_".toList := by decide
  have chars : (aliasName n).toList = "alias_".toList ++ (toString n).toList :=
    String.toList_append
  rw [← String.toList_inj, toList_toLower, chars, List.map_append, letters, digits]

variable (types) in
/-- What comes of the names of a query whose unnamed items are aliased and mapped back.
`expand` are the columns of an item that has no alias, as the result names them. -/
structure NamesKept (expand : SelectItem → List String) (q : Query) : Prop where
  distinct : ((aliasUnnamedColumns types q).2.map Prod.fst).Nodup
  fresh : ∀ e alias_, .exprWithAlias e alias_ ∈ (topProjections q).flatten →
    alias_.folded ∉ (aliasUnnamedColumns types q).2.map Prod.fst
  restored : (topProjections (restoreAliasedColumnNames (aliasUnnamedColumns types q).2
      (aliasUnnamedColumns types q).1)).map (·.map outputName) =
    (topProjections q).map (·.map (ownName types))
  renamed : renameColumns (aliasUnnamedColumns types q).2
      ((namingProjection (aliasUnnamedColumns types q).1).flatMap (resultFields expand)) =
    (namingProjection q).flatMap (ownFields types expand)

variable (types) in
/-- No alias of the query, and no column of a wildcard, is one that is generated (but where
the column's own name is recorded under it), and the names recorded are words in lower case. -/
structure PlainNames (expand : SelectItem → List String) (q : Query) : Prop where
  unaliased : ∀ e alias_, .exprWithAlias e alias_ ∈ (topProjections q).flatten →
    ∀ pair ∈ numbered types 1 (topProjections q).flatten, alias_.folded ≠ pair.1
  words : ∀ e, .unnamedExpr e ∈ (topProjections q).flatten →
    isWord (recordedName types e) = true ∧
      (recordedName types e).toLower = recordedName types e
  expanded : ∀ item ∈ namingProjection q, (∀ e alias_, item ≠ .exprWithAlias e alias_) →
    isUnnamed item = false → ∀ column ∈ expand item,
      ∀ pair ∈ numbered types 1 (topProjections q).flatten, pair.1 = column → pair.2 = column

variable (types) in
/-- What restoring makes of an item of the query as it was. -/
def restoredItem : SelectItem → SelectItem
  | .unnamedExpr e => .exprWithAlias e (.new (recordedName types e))
  | item => item

section
variable {aliasMap : List (String × String)}

/-- With the aliases mapped to what was recorded and no alias of the query's own in the map,
each item has its own name again. -/
theorem restored_items {items : List SelectItem} {k : Nat}
    (hit : ∀ pair ∈ numbered types k items, aliasMap.lookup pair.1 = some pair.2)
    (miss : ∀ e alias_, .exprWithAlias e alias_ ∈ items → aliasMap.lookup alias_.value = none) :
    (aliasedItems k items).map (restoreItem aliasMap) = items.map (restoredItem types) := by
  induction items generalizing k with
  | nil => rfl
  | cons item rest ih =>
    have missLater := fun e alias_ member => miss e alias_ (List.mem_cons_of_mem _ member)
    cases item with
    | unnamedExpr e =>
      have later := ih (fun pair member => hit pair (List.mem_cons_of_mem _ member)) missLater
      have mapped : aliasMap.lookup (Ident.new (aliasName k)).value = some (recordedName types e) :=
        hit _ List.mem_cons_self
      rw [aliasedItems, List.map_cons, List.map_cons, later, restoreItem, mapped]
      rfl
    | exprWithAlias e alias_ =>
      have later := ih hit missLater
      have unmapped := miss e alias_ List.mem_cons_self
      rw [aliasedItems, List.map_cons, List.map_cons, later, restoreItem, unmapped]
      · rfl
      · exact nofun
    | qualifiedWildcard name => exact congrArg (_ :: ·) (ih hit missLater)
    | wildcard => exact congrArg (_ :: ·) (ih hit missLater)

theorem restored_branches {branches : List (List SelectItem)} {k : Nat}
    (hit : ∀ pair ∈ numbered types k branches.flatten, aliasMap.lookup pair.1 = some pair.2)
    (miss : ∀ e alias_, .exprWithAlias e alias_ ∈ branches.flatten →
      aliasMap.lookup alias_.value = none) :
    (aliasedBranches k branches).map (·.map (restoreItem aliasMap)) =
      branches.map (·.map (restoredItem types)) := by
  induction branches generalizing k with
  | nil => rfl
  | cons items rest ih =>
    rw [List.flatten_cons, numbered_append] at hit
    have first : (aliasedItems k items).map (restoreItem aliasMap) =
        items.map (restoredItem types) :=
      restored_items (fun pair member => hit pair (List.mem_append_left _ member))
        fun e alias_ member => miss e alias_ (List.mem_append_left _ member)
    have later := ih (fun pair member => hit pair (List.mem_append_right _ member))
      fun e alias_ member => miss e alias_ (List.mem_append_right _ member)
    rw [aliasedBranches, List.map_cons, List.map_cons, first, later]

variable (types) in
/-- What renaming makes of the columns of an item of the query as it was. -/
def renamedFields (aliasMap : List (String × String)) (expand : SelectItem → List String) :
    SelectItem → List String
  | .unnamedExpr e => [recordedName types e]
  | .exprWithAlias _ alias_ => [alias_.folded]
  | item => renameColumns aliasMap (expand item)

theorem renamed_items {expand : SelectItem → List String} {items : List SelectItem} {k : Nat}
    (hit : ∀ pair ∈ numbered types k items, aliasMap.lookup pair.1 = some pair.2)
    (miss : ∀ e alias_, .exprWithAlias e alias_ ∈ items → aliasMap.lookup alias_.folded = none) :
    renameColumns aliasMap ((aliasedItems k items).flatMap (resultFields expand)) =
      items.flatMap (renamedFields types aliasMap expand) := by
  induction items generalizing k with
  | nil => rfl
  | cons item rest ih =>
    have missLater := fun e alias_ member => miss e alias_ (List.mem_cons_of_mem _ member)
    unfold renameColumns at ih ⊢
    cases item with
    | unnamedExpr e =>
      have later := ih (fun pair member => hit pair (List.mem_cons_of_mem _ member)) missLater
      have mapped : aliasMap.lookup (Ident.new (aliasName k)).folded =
          some (recordedName types e) := by
        have lower : (Ident.new (aliasName k)).folded = aliasName k := aliasName_lower k
        rw [lower]
        exact hit _ List.mem_cons_self
      rw [aliasedItems, List.flatMap_cons, List.map_append, later, resultFields, List.map_singleton,
        mapped]
      rfl
    | exprWithAlias e alias_ =>
      have later := ih hit missLater
      have unmapped := miss e alias_ List.mem_cons_self
      rw [aliasedItems, List.flatMap_cons, List.map_append, later, resultFields, List.map_singleton,
        unmapped]
      · rfl
      · exact nofun
    | qualifiedWildcard name =>
      rw [aliasedItems, List.flatMap_cons, List.map_append, ih hit missLater]
      · rfl
      · exact nofun
    | wildcard =>
      rw [aliasedItems, List.flatMap_cons, List.map_append, ih hit missLater]
      · rfl
      · exact nofun

end

mutual

/-- The projection that names the result is the first of the outermost ones, if there is one. -/
theorem bodyNaming_first : ∀ e : SetExpr,
    bodyNaming e = [] ∨ ∃ rest, bodyProjections e = bodyNaming e :: rest
  | .select _ => .inr ⟨[], rfl⟩
  | .setOperation _ _ left right => by
    obtain empty | ⟨rest, first⟩ := bodyNaming_first left
    · exact .inl empty
    · exact .inr ⟨rest ++ bodyProjections right, by rw [bodyProjections, first]; rfl⟩
  | .query q => naming_first q
  | .values _ => .inl rfl

theorem naming_first : ∀ q : Query,
    namingProjection q = [] ∨ ∃ rest, topProjections q = namingProjection q :: rest
  | ⟨_, body, _, _, _⟩ => bodyNaming_first body

end

theorem naming_numbered (q : Query) :
    ∀ pair ∈ numbered types 1 (namingProjection q),
      pair ∈ numbered types 1 (topProjections q).flatten := by
  intro pair member
  obtain empty | ⟨rest, first⟩ := naming_first q
  · rw [empty] at member
    cases member
  · rw [first, List.flatten_cons, numbered_append]
    exact List.mem_append_left _ member

theorem naming_mem (q : Query) :
    ∀ item ∈ namingProjection q, item ∈ (topProjections q).flatten := by
  intro item member
  obtain empty | ⟨rest, first⟩ := naming_first q
  · rw [empty] at member
    cases member
  · rw [first, List.flatten_cons]
    exact List.mem_append_left _ member

theorem readBack_new {name : String} :
    readBack (.new name) = some name ↔ isWord name = true ∧ name.toLower = name := by
  have unquoted : readBack (.new name) = if isWord name then some name.toLower else none := rfl
  rw [unquoted]
  cases isWord name <;> simp

/-- Of the names restored only those recorded may not be the items' own. -/
theorem outputName_restored (item : SelectItem) :
    outputName (restoredItem types item) = ownName types item ↔
      ∀ e, item = .unnamedExpr e →
        isWord (recordedName types e) = true ∧
          (recordedName types e).toLower = recordedName types e := by
  cases item with
  | unnamedExpr e =>
    have both : outputName (restoredItem types (.unnamedExpr e)) = ownName types (.unnamedExpr e) ↔
        readBack (.new (recordedName types e)) = some (recordedName types e) :=
      ⟨fun same => Option.some.inj same, fun same => congrArg some same⟩
    rw [both, readBack_new]
    exact ⟨fun word other same => SelectItem.unnamedExpr.inj same ▸ word, fun word => word e rfl⟩
  | exprWithAlias e alias_ => exact iff_of_true rfl nofun
  | qualifiedWildcard name => exact iff_of_true rfl nofun
  | wildcard => exact iff_of_true rfl nofun

theorem renameColumns_self {aliasMap : List (String × String)} {fields : List String} :
    renameColumns aliasMap fields = fields ↔
      ∀ column ∈ fields, (aliasMap.lookup column).getD column = column := by
  conv_lhs => rhs; rw [← List.map_id fields]
  exact List.map_inj_left

section
variable {q : Query} {expand : SelectItem → List String}

theorem mapped_name {pair : String × String}
    (member : pair ∈ numbered types 1 (topProjections q).flatten) :
    (aliasUnnamedColumns types q).2.lookup pair.1 = some pair.2 := by
  refine lookup_of_nodup (aliasMap_nodup q) ?_
  rw [aliasUnnamedColumns_map]
  exact List.mem_reverse.mpr member

theorem unmapped_name {key : String}
    (apart : ∀ pair ∈ numbered types 1 (topProjections q).flatten, key ≠ pair.1) :
    (aliasUnnamedColumns types q).2.lookup key = none := by
  refine lookup_eq_none fun pair member => apart pair ?_
  rw [aliasUnnamedColumns_map] at member
  exact List.mem_reverse.mp member

theorem not_mem_generated {key : String} :
    key ∉ (aliasUnnamedColumns types q).2.map Prod.fst ↔
      ∀ pair ∈ numbered types 1 (topProjections q).flatten, key ≠ pair.1 := by
  rw [aliasUnnamedColumns_map, List.map_reverse, List.mem_reverse]
  constructor
  · rintro absent pair member rfl
    exact absent (List.mem_map_of_mem member)
  · intro apart inside
    obtain ⟨pair, member, rfl⟩ := List.mem_map.mp inside
    exact apart pair member rfl

/-- An alias spelled like a generated one is also folded to it. -/
theorem value_apart {alias_ : Ident}
    (apart : ∀ pair ∈ numbered types 1 (topProjections q).flatten, alias_.folded ≠ pair.1) :
    ∀ pair ∈ numbered types 1 (topProjections q).flatten, alias_.value ≠ pair.1 := by
  intro pair member same
  obtain ⟨n, _, named⟩ := numbered_bound member
  refine apart pair member ?_
  unfold Ident.folded
  split
  · exact same
  · rw [same, named, aliasName_lower]

variable (unaliased : ∀ e alias_, .exprWithAlias e alias_ ∈ (topProjections q).flatten →
  ∀ pair ∈ numbered types 1 (topProjections q).flatten, alias_.folded ≠ pair.1)

include unaliased

theorem restored_iff :
    (topProjections (restoreAliasedColumnNames (aliasUnnamedColumns types q).2
        (aliasUnnamedColumns types q).1)).map (·.map outputName) =
      (topProjections q).map (·.map (ownName types)) ↔
    ∀ e, .unnamedExpr e ∈ (topProjections q).flatten →
      isWord (recordedName types e) = true ∧
        (recordedName types e).toLower = recordedName types e := by
  have projections : topProjections (aliasUnnamedColumns types q).1 =
    aliasedBranches 1 (topProjections q) := (aliased_query ⟨1, []⟩ q).1
  have branches := restored_branches (fun pair member => mapped_name member)
    fun e alias_ member => unmapped_name (value_apart (unaliased e alias_ member))
  have items : (fun items : List SelectItem => items.map outputName) ∘
      (fun items : List SelectItem => items.map (restoredItem types)) =
      fun items : List SelectItem => items.map (outputName ∘ restoredItem types) :=
    funext fun items => List.map_map
  rw [restored_query, projections, branches, List.map_map, items, List.map_inj_left]
  constructor
  · intro same e member
    obtain ⟨branch, listed, inside⟩ := List.mem_flatten.mp member
    have each := List.map_inj_left.mp (same branch listed) _ inside
    exact (outputName_restored _).mp each e rfl
  · intro words branch listed
    refine List.map_inj_left.mpr fun item inside => (outputName_restored item).mpr ?_
    rintro e rfl
    exact words e (List.mem_flatten.mpr ⟨branch, listed, inside⟩)

theorem renamed_iff :
    renameColumns (aliasUnnamedColumns types q).2
        ((namingProjection (aliasUnnamedColumns types q).1).flatMap (resultFields expand)) =
      (namingProjection q).flatMap (ownFields types expand) ↔
    ∀ item ∈ namingProjection q, (∀ e alias_, item ≠ .exprWithAlias e alias_) →
      isUnnamed item = false → ∀ column ∈ expand item,
        ∀ pair ∈ numbered types 1 (topProjections q).flatten, pair.1 = column →
          pair.2 = column := by
  have naming : namingProjection (aliasUnnamedColumns types q).1 =
    aliasedItems 1 (namingProjection q) := (aliased_query ⟨1, []⟩ q).2.1
  have renamed := @renamed_items types (aliasUnnamedColumns types q).2 expand
    (namingProjection q) 1 (fun pair member => mapped_name (naming_numbered q pair member))
    fun e alias_ member => unmapped_name (unaliased e alias_ (naming_mem q _ member))
  have columns : ∀ column, ((aliasUnnamedColumns types q).2.lookup column).getD column = column ↔
      ∀ pair ∈ numbered types 1 (topProjections q).flatten, pair.1 = column →
        pair.2 = column := by
    intro column
    constructor
    · rintro same pair member rfl
      rwa [mapped_name member] at same
    · intro recorded
      by_cases generated : ∀ pair ∈ numbered types 1 (topProjections q).flatten, column ≠ pair.1
      · rw [unmapped_name generated]
        rfl
      · push Not at generated
        obtain ⟨pair, member, same⟩ := generated
        rw [same, mapped_name member, ← same]
        exact recorded pair member same.symm
  rw [naming, renamed, flatMap_inj_left]
  · refine forall₂_congr fun item member => ?_
    cases item with
    | unnamedExpr e => exact iff_of_true rfl fun _ unnamed => nomatch unnamed
    | exprWithAlias e alias_ => exact iff_of_true rfl fun other => absurd rfl (other e alias_)
    | qualifiedWildcard name =>
      refine renameColumns_self.trans (forall₂_congr fun column _ => columns column) |>.trans ?_
      exact ⟨fun kept _ _ => kept, fun kept => kept nofun rfl⟩
    | wildcard =>
      refine renameColumns_self.trans (forall₂_congr fun column _ => columns column) |>.trans ?_
      exact ⟨fun kept _ _ => kept, fun kept => kept nofun rfl⟩
  · intro item _
    cases item with
    | unnamedExpr e => rfl
    | exprWithAlias e alias_ => rfl
    | qualifiedWildcard name => exact List.length_map _
    | wildcard => exact List.length_map _

end

/-- Every column keeps its name through aliasing and back exactly for plain names. -/
theorem names_kept_iff (types : TypeNames) (expand : SelectItem → List String) (q : Query) :
    NamesKept types expand q ↔ PlainNames types expand q := by
  constructor
  · rintro ⟨_, fresh, restored, renamed⟩
    have unaliased := fun e alias_ member => not_mem_generated.mp (fresh e alias_ member)
    exact ⟨unaliased, (restored_iff unaliased).mp restored, (renamed_iff unaliased).mp renamed⟩
  · rintro ⟨unaliased, words, expanded⟩
    exact ⟨aliasMap_nodup q,
      fun e alias_ member => not_mem_generated.mpr (unaliased e alias_ member),
      (restored_iff unaliased).mpr words, (renamed_iff unaliased).mpr expanded⟩

end

/-- `SELECT a, b AS alias_1`: the alias given to the first column is one the query has. -/
theorem alias_taken : ¬NamesKept ⟨fun _ => true, fun _ => ""⟩ (fun _ => [])
    ⟨none, .select ⟨.no, [.unnamedExpr (.identifier (.new "a")),
      .exprWithAlias (.identifier (.new "b")) (.new "alias_1")], [], none, .expressions [], none⟩,
      [], none, none⟩ := by
  intro kept
  have lower : (Ident.new "alias_1").folded = aliasName 1 := aliasName_lower 1
  refine kept.fresh (.identifier (.new "b")) (.new "alias_1") (.tail _ (.head _)) ?_
  rw [lower]
  exact List.mem_cons_self

end PgCatalog.CleanDuplicateColumns
