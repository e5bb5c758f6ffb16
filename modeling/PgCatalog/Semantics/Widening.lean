import Mathlib.Data.List.Perm.Basic
import PgCatalog.Semantics.Enclosing

/-! A SELECT over rows that carry more columns behind those of another SELECT's. -/
namespace PgCatalog.Semantics

open Sql Library

theorem mapM_perm {A B : Type} {f : A → Option B} {xs ys : List A} {bs : List B}
    (same : ys.Perm xs) (all : xs.mapM f = some bs) :
    ∃ cs, ys.mapM f = some cs ∧ cs.Perm bs := by
  obtain ⟨cs, beside, perm⟩ := List.perm_comp_forall₂ same (mapM_eq_some.mp all)
  exact ⟨cs, mapM_eq_some.mpr beside, perm⟩

theorem kept_all {A : Type} {test : A → Option Bool} {rows : List A}
    (all : ∀ a ∈ rows, test a = some true) : kept test rows = some rows := by
  refine kept_eq_some.mpr ⟨fun a member => ⟨true, all a member⟩, (List.filter_eq_self.mpr ?_).symm⟩
  intro a member
  rw [all a member]
  rfl

section
variable {D : Type} (E : Engine D)

/-- A SELECT under a WITH clause, neither ordered nor cut. -/
theorem select_query (with_ : Option With) (sel : Select) (s : Scope D) :
    queryMeaning E ⟨with_, .select sel, [], none, none⟩ s =
      (withMeaning E with_ s).bind fun inner => (clauses E sel).answer E [] inner := by
  rw [queryMeaning, queryAnswer]
  apply Option.bind_congr
  intro inner _
  rw [bodyMeaning]
  change ((clauses E sel).answer E [] inner).bind _ = _
  cases (clauses E sel).answer E [] inner <;> rfl

theorem answer_columns {c : Clauses D} {order : List (OrderKey D)} {s : Scope D} {a : Table D}
    (answered : c.answer E order s = some a) :
    ∃ t, c.filtered E s = some t ∧ a.columns = (c.names t.columns).map (⟨[], ·⟩) := by
  obtain ⟨t, filtered, answered⟩ := Option.bind_eq_some_iff.mp answered
  obtain ⟨frames, _, answered⟩ := Option.bind_eq_some_iff.mp answered
  obtain ⟨outputs, _, rfl⟩ := Option.map_eq_some_iff.mp answered
  exact ⟨t, filtered, rfl⟩

theorem unordered_outputs {c : Clauses D} (distinct : c.distinct = .no) (columns : List Column)
    (r : Scope D) :
    c.outputs E [] columns r = (listRows E c r).map (List.map fun cells => ⟨cells, [], []⟩) := by
  have plain : c.onMeanings = [] := by
    rw [Clauses.onMeanings, distinct]
  have each : ∀ rows : List (List D), (rows.mapM fun cells =>
      (([] : List (OrderKey D)).mapM fun k : OrderKey D =>
        k.value (c.names columns) cells r).bind fun keys =>
          (([] : List (Meaning D)).mapM fun m : Meaning D => m.value r).map fun onKeys =>
            (⟨cells, keys, onKeys⟩ : Output D)) =
      some (rows.map fun cells => ⟨cells, [], []⟩) := by
    intro rows
    rw [mapM_eq_some, List.forall₂_map_right_iff, List.forall₂_same]
    exact fun _ _ => rfl
  rw [Clauses.outputs, listRows, plain]
  simp only [each]
  cases c.items.mapM (Item.cells r) with
  | none => rfl
  | some lists => rfl

/-- A SELECT without DISTINCT and ORDER BY has the rows of its list, frame by frame. -/
theorem unordered_answer {c : Clauses D} (distinct : c.distinct = .no) (s : Scope D) :
    (c.answer E [] s).map (·.rows) = (c.filtered E s).bind fun t => (c.frames E [] s t).bind
      fun frames => (frames.mapM fun frame => listRows E c (s.under frame)).map List.flatten := by
  rw [Clauses.answer, Option.map_bind]
  apply Option.bind_congr
  intro t _
  rw [Function.comp_apply, Option.map_bind]
  apply Option.bind_congr
  intro frames _
  have outputs : frames.mapM (fun frame => c.outputs E [] t.columns (s.under frame)) =
      (frames.mapM fun frame => listRows E c (s.under frame)).map
        (List.map (List.map fun cells => (⟨cells, [], []⟩ : Output D))) :=
    mapM_map fun frame _ => unordered_outputs E distinct _ _
  have whole : ∀ rows : List (Output D), c.deduplicated E (sorted E [] rows) = rows := by
    intro rows
    rw [Clauses.deduplicated, distinct]
    rfl
  rw [Function.comp_apply, outputs, Option.map_map, Option.map_map]
  congr 1
  funext lists
  rw [Function.comp_apply, Function.comp_apply, whole, ← List.map_flatten, List.map_map]
  exact List.map_id _

/-- One that does not group its rows either has those of its list, row by row. -/
theorem plain_answer {c : Clauses D} (distinct : c.distinct = .no) (plain : c.grouped [] = false)
    (s : Scope D) :
    (c.answer E [] s).map (·.rows) = (c.filtered E s).bind fun t =>
      (t.rows.mapM fun cells => listRows E c (s.under (.row t.columns cells))).map
        List.flatten := by
  rw [unordered_answer E distinct]
  apply Option.bind_congr
  intro t _
  rw [Clauses.frames, plain, if_neg Bool.false_ne_true, Option.bind_some, List.mapM_map]
  rfl

/-- Rows with more behind them that WHERE passes alike and the list shows alike give the same
rows. -/
theorem answer_widened {c c' : Clauses D} {s inner : Scope D} {left whole a : Table D}
    {more : List Column} {behind : List D → List D} (distinct : c.distinct = .no)
    (distinct' : c'.distinct = .no) (plain : c.grouped [] = false) (plain' : c'.grouped [] = false)
    (source : c.source s = some left) (source' : c'.source inner = some whole)
    (columns : whole.columns = left.columns ++ more)
    (rows : whole.rows.Perm (left.rows.map fun l => l ++ behind l))
    (spans : c'.filter.any (·.spans) = c.filter.any (·.spans))
    (passed : ∀ l ∈ left.rows,
      passes E c'.filter (inner.under (.row (left.columns ++ more) (l ++ behind l))) =
        passes E c.filter (s.under (.row left.columns l)))
    (listed : ∀ l ∈ left.rows,
      listRows E c' (inner.under (.row (left.columns ++ more) (l ++ behind l))) =
        listRows E c (s.under (.row left.columns l)))
    (answered : c.answer E [] s = some a) :
    ∃ b, c'.answer E [] inner = some b ∧ b.rows.Perm a.rows := by
  have read := plain_answer E distinct plain s
  rw [answered, Option.map_some] at read
  obtain ⟨t, filtered, read⟩ := Option.bind_eq_some_iff.mp read.symm
  obtain ⟨lists, shown, flat⟩ := Option.map_eq_some_iff.mp read
  obtain ⟨narrow, found, found', each, rfl⟩ := (filtered_eq_some E c).mp filtered
  obtain rfl := Option.some.inj (source.symm.trans found')
  -- WHERE keeps the same rows, with what is behind them
  have kept : c'.filtered E inner = some ⟨left.columns ++ more, whole.rows.filter fun cells =>
      passes E c'.filter (inner.under (.row (left.columns ++ more) cells)) == some true⟩ := by
    refine (filtered_eq_some E c').mpr ⟨spans.trans narrow, whole, source', ?_, ?_⟩
    · intro cells member
      obtain ⟨l, inside, rfl⟩ := List.mem_map.mp (rows.mem_iff.mp member)
      rw [columns, passed l inside]
      exact each l inside
    · rw [columns]
  have same : (whole.rows.filter fun cells =>
      passes E c'.filter (inner.under (.row (left.columns ++ more) cells)) == some true).Perm
      ((left.rows.filter fun l => passes E c.filter (s.under (.row left.columns l)) ==
        some true).map fun l => l ++ behind l) := by
    refine (rows.filter _).trans (.of_eq ?_)
    rw [List.filter_map]
    refine congrArg _ (List.filter_congr fun l inside => ?_)
    rw [Function.comp_apply, passed l inside]
  have lists' : ((left.rows.filter fun l => passes E c.filter (s.under (.row left.columns l)) ==
      some true).map fun l => l ++ behind l).mapM (fun cells =>
        listRows E c' (inner.under (.row (left.columns ++ more) cells))) = some lists := by
    rw [List.mapM_map, ← shown]
    exact mapM_congr fun l member => listed l (List.mem_filter.mp member).1
  obtain ⟨lists'', shown'', perm⟩ := mapM_perm same lists'
  have read' := plain_answer E distinct' plain' inner
  rw [kept, Option.bind_some, shown'', Option.map_some] at read'
  obtain ⟨b, answered', rows'⟩ := Option.map_eq_some_iff.mp read'
  refine ⟨b, answered', ?_⟩
  rw [rows', ← flat]
  exact perm.flatten

end

end PgCatalog.Semantics
