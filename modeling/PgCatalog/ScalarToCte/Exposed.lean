import Mathlib.Data.List.Forall2
import PgCatalog.ScalarToCte.Scope
import PgCatalog.ScalarToCte.Ungrouped

/-! The columns of a lifted body survive the rewriting of the body itself. -/
namespace PgCatalog.ScalarToCte

open Sql

/-- What holds of every step of a traversal holds of its result, element by element. -/
theorem run_mapM_forall₂ {σ α β : Type} {R : α → β → Prop} {f : α → StateM σ β} {xs : List α}
    (each : ∀ a ∈ xs, ∀ s, R a ((f a).run s).1) (s : σ) :
    List.Forall₂ R xs ((xs.mapM f).run s).1 := by
  induction xs generalizing s with
  | nil => exact .nil
  | cons a rest ih =>
    obtain ⟨first, later⟩ := List.forall_mem_cons.mp each
    rw [List.mapM_cons]
    exact .cons (first s) (ih later _)

/-- An item whose column is named without looking into a computed expression. -/
def Settled : SelectItem → Prop
  | .unnamedExpr e => isColumn e = true
  | _ => True

/-- The second item puts out the column that the first one does. -/
def SameColumn (unspelled : SelectItem → String) (item item' : SelectItem) : Prop :=
  itemName unspelled item' = itemName unspelled item ∧ Settled item'

section
variable {unspelled : SelectItem → String}

theorem SameColumn.names {items items' : List SelectItem}
    (same : List.Forall₂ (SameColumn unspelled) items items') :
    items'.map (itemName unspelled) = items.map (itemName unspelled) ∧ ∀ item ∈ items', Settled item := by
  induction same with
  | nil => exact ⟨rfl, fun _ none_ => absurd none_ List.not_mem_nil⟩
  | cons first _ ih =>
    exact ⟨congrArg₂ List.cons first.1 ih.1, List.forall_mem_cons.mpr ⟨first.2, ih.2⟩⟩

theorem column_plain {e : Expr} (column : isColumn e = true) :
    ∀ x ∈ e.visited, isSubquery x = false := by
  intro x member
  cases e with
  | identifier _ | compoundIdentifier _ =>
    cases List.mem_singleton.mp member
    rfl
  | _ => cases column

end

section
variable (unspelled : SelectItem → String) (host : Host) (visit : Visit) (outerAliases : List Ident)

theorem rewriteItem_sameColumn {item : SelectItem} (settled : Settled item) (l : Lifting) :
    SameColumn unspelled item ((rewriteItem host visit outerAliases item).run l).1 := by
  cases item with
  | unnamedExpr e =>
    rw [rewriteItem_plain]
    · exact ⟨rfl, settled⟩
    · rintro _ ⟨⟩
      exact column_plain settled
  | exprWithAlias e alias_ => exact ⟨rfl, trivial⟩
  | qualifiedWildcard _ | wildcard => exact ⟨rfl, trivial⟩

/-- A settled item that is still a subquery has an alias, and keeps it. -/
def KeepsAlias (item : SelectItem) (info : Option CorrelatedInfo) : Prop :=
  ∀ i ∈ info, ∃ e alias_, item = .exprWithAlias e alias_ ∧ i.origAlias = some alias_

theorem analyseScalar_keepsAlias {item : SelectItem} (settled : Settled item) (s : ScalarToCte) :
    KeepsAlias item ((analyseScalar host outerAliases item).run s).1 := by
  fun_cases analyseScalar host outerAliases item with
  | case1 q => cases settled
  | case2 q alias_ =>
    intro info lifted
    refine ⟨_, alias_, rfl, ?_⟩
    cases body : q.body with
    | select inner =>
      rw [analyseSubquery_run body] at lifted
      split at lifted
      · cases lifted
      · dsimp only at lifted
        split at lifted
        · cases lifted
          rfl
        · cases lifted
    | query _ | setOperation _ _ _ _ | values _ =>
      simp only [analyseSubquery, body] at lifted
      cases lifted
  | case3 item _ _ =>
    intro info lifted
    cases lifted

theorem patchItem_sameColumn {item : SelectItem} {info : Option CorrelatedInfo}
    (settled : Settled item) (keeps : KeepsAlias item info) (l : Lifting) :
    SameColumn unspelled item ((patchItem item info).run l).1 := by
  cases info with
  | none => exact ⟨rfl, settled⟩
  | some info =>
    obtain ⟨e, alias_, rfl, orig⟩ := keeps info rfl
    rw [patchItem, orig]
    exact ⟨rfl, trivial⟩

theorem rewriteItems_columns {items : List SelectItem} (settled : ∀ item ∈ items, Settled item)
    (l : Lifting) :
    let items' := ((items.mapM (rewriteItem host visit outerAliases)).run l).1
    items'.map (itemName unspelled) = items.map (itemName unspelled) ∧ ∀ item ∈ items', Settled item :=
  SameColumn.names (run_mapM_forall₂ (fun item member =>
    rewriteItem_sameColumn unspelled host visit outerAliases (settled item member)) l)

theorem patchItems_columns {items : List SelectItem} (settled : ∀ item ∈ items, Settled item)
    (l l' : Lifting) :
    let infos := ((items.mapM fun item => stepRewriter (analyseScalar host outerAliases item)).run l).1
    let items' := (((items.zip infos).mapM fun (item, info) => patchItem item info).run l').1
    items'.map (itemName unspelled) = items.map (itemName unspelled) := by
  intro infos items'
  have keeps : List.Forall₂ KeepsAlias items infos :=
    run_mapM_forall₂ (fun item member (l : Lifting) =>
      analyseScalar_keepsAlias host outerAliases (settled item member) l.rewriter) l
  obtain ⟨same_length, paired⟩ := List.forall₂_iff_zip.mp keeps
  have patched : List.Forall₂ (fun (pair : SelectItem × Option CorrelatedInfo) item' =>
      SameColumn unspelled pair.1 item') (items.zip infos) items' :=
    run_mapM_forall₂ (fun pair member l => patchItem_sameColumn unspelled
      (settled _ (List.of_mem_zip member).1) (paired member) l) l'
  have same := (SameColumn.names (List.forall₂_map_left_iff.mpr patched)).1
  rwa [List.map_fst_zip (Nat.le_of_eq same_length)] at same

theorem visitProjection_run (sel : Select) (l : Lifting) :
    (visitProjection host visit outerAliases sel).run l =
      let (projection, l) := (sel.projection.mapM (rewriteItem host visit outerAliases)).run l
      let sel := injectGroupBy { sel with projection, from_ := l.from_ }
      let (infos, l) := (sel.projection.mapM fun item =>
        stepRewriter (analyseScalar host outerAliases item)).run l
      let (_, l) := (forIn infos.reduceOption PUnit.unit fun info _ => do
        pushCteAndJoin visit info
        return .yield PUnit.unit).run l
      let (projection, l) := ((sel.projection.zip infos).mapM fun (item, info) =>
        patchItem item info).run l
      ({ sel with projection, from_ := l.from_ }, l) := by
  rw [visitProjection]
  simp only [StateT.run_bind]
  rfl

theorem visitProjection_columns {sel : Select} (settled : ∀ item ∈ sel.projection, Settled item)
    (l : Lifting) :
    ((visitProjection host visit outerAliases sel).run l).1.projection.map (itemName unspelled) =
      sel.projection.map (itemName unspelled) := by
  obtain ⟨rewritten, settled'⟩ :=
    rewriteItems_columns unspelled host visit outerAliases settled l
  rw [← rewritten, visitProjection_run]
  dsimp only
  simp only [injectGroupBy_projection]
  exact patchItems_columns unspelled host outerAliases settled' _ _

theorem qualifiedItem_sameColumn (outer : List BoundRelation) {item : SelectItem}
    (settled : Settled item) :
    SameColumn unspelled item (mapItem (qualifyOuterColumnsInSubqueriesOf host outer) item) := by
  cases item with
  | unnamedExpr e =>
    cases e with
    | identifier _ | compoundIdentifier _ => exact ⟨rfl, rfl⟩
    | _ => cases settled
  | exprWithAlias e alias_ => exact ⟨rfl, trivial⟩
  | qualifiedWildcard _ | wildcard => exact ⟨rfl, trivial⟩

theorem qualified_columns {sel : Select} (settled : ∀ item ∈ sel.projection, Settled item) :
    let sel' := qualifyOuterColumnsInProjectionSubqueries host sel
    sel'.projection.map (itemName unspelled) = sel.projection.map (itemName unspelled) ∧
      ∀ item ∈ sel'.projection, Settled item := by
  intro sel'
  have unchanged : List.Forall₂ (SameColumn unspelled) sel.projection sel.projection :=
    List.forall₂_same.mpr fun item member => ⟨rfl, settled item member⟩
  refine SameColumn.names ?_
  simp only [sel', qualifyOuterColumnsInProjectionSubqueries]
  split
  · exact unchanged
  · exact unchanged
  · exact List.forall₂_map_right_iff.mpr (List.forall₂_same.mpr fun item member =>
      qualifiedItem_sameColumn unspelled host _ (settled item member))

theorem visitSelect_columns {sel : Select} (settled : ∀ item ∈ sel.projection, Settled item)
    (with_ : Option With) (s : ScalarToCte) :
    ((visitSelect host visit with_ sel).run s).1.2.projection.map (itemName unspelled) =
      sel.projection.map (itemName unspelled) := by
  have unvisited : ∀ item ∈ { sel with from_ := ((visitFrom visit sel.from_).run s).1 }.projection,
      Settled item := settled
  obtain ⟨qualified, settled'⟩ := qualified_columns unspelled host unvisited
  rw [visitSelect]
  simp only [StateT.run_bind]
  exact (visitProjection_columns unspelled host visit _ settled' _).trans qualified

/-- Rewriting a query leaves its output columns and their names alone. -/
theorem outputColumns_visitQuery {q : Query} {sel : Select} (body : q.body = .select sel)
    (settled : ∀ item ∈ sel.projection, Settled item) (depth : Nat) (s : ScalarToCte) :
    outputColumns unspelled ((visitQuery host depth q).run s).1 = outputColumns unspelled q := by
  cases depth with
  | zero => rfl
  | succ depth =>
    have columns := visitSelect_columns unspelled host (visitQuery host depth) settled q.with_ s
    rw [visitQuery, body, visitSetExpr]
    simp only [StateT.run_bind, outputColumns, selectOf, body]
    exact columns

theorem selectOf_eq_some {q : Query} {sel : Select} (found : selectOf q = some sel) :
    q.body = .select sel := by
  rw [selectOf] at found
  split at found
  · rename_i body
    rw [body, Option.some.inj found]
  · cases found

/-- The body of a CTE has the columns that its subquery was cleaned to have. -/
theorem outputColumns_visitBody {info : CorrelatedInfo} {sel : Select} {item : SelectItem}
    (body : info.subquery.body = .select sel) (single : sel.projection = [item]) (depth : Nat)
    (s : ScalarToCte) :
    outputColumns unspelled ((visitBody (visitQuery host depth) info).run s).1 =
      outputColumns unspelled (cleanedSubquery info) := by
  obtain ⟨cleaned, found, projected⟩ :=
    Option.map_eq_some_iff.mp (projection_cleanedSubquery body single)
  refine outputColumns_visitQuery unspelled host (selectOf_eq_some found) ?_ depth _
  rw [projected]
  intro shown member
  obtain value | key := List.mem_append.mp member
  · cases item <;> cases List.mem_singleton.mp value <;> trivial
  · obtain ⟨path, -, rfl⟩ := List.mem_map.mp key
    rfl

end

end PgCatalog.ScalarToCte
