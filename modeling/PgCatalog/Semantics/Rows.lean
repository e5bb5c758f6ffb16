import PgCatalog.Library.Fallible
import PgCatalog.Semantics.Meaning

/-! Which clauses of a query can lose its rows. -/
namespace PgCatalog.Semantics

open Sql Library

/-- One row, cut. -/
theorem cut_single {A : Type} (limit offset : Option Nat) (a : A) :
    cut limit offset [a] = if offset.getD 0 = 0 ∧ limit ≠ some 0 then [a] else [] := by
  unfold cut
  rcases Nat.eq_zero_or_pos (offset.getD 0) with none_skipped | skipped
  · rcases limit with _ | _ | n <;> simp [none_skipped]
  · have empty : [a].drop (offset.getD 0) = [] := List.drop_eq_nil_of_le skipped
    have nonzero : offset.getD 0 ≠ 0 := Nat.pos_iff_ne_zero.mp skipped
    rcases limit with _ | n <;> simp [empty, nonzero]

theorem cut_few {A : Type} {limit offset : Option Nat} {rows : List A} (few : rows.length ≤ 1) :
    cut limit offset rows = if offset.getD 0 = 0 ∧ limit ≠ some 0 then rows else [] := by
  match rows, few with
  | [], _ => cases limit <;> simp [cut]
  | [a], _ => exact cut_single limit offset a

theorem cut_eq_nil {A : Type} {limit offset : Option Nat} (skips : offset.getD 0 = 0)
    (most : limit ≠ some 0) {rows : List A} : cut limit offset rows = [] ↔ rows = [] := by
  unfold cut
  rcases limit with _ | _ | n
  · rw [skips, List.drop_zero]
  · exact absurd rfl most
  · rw [skips, List.drop_zero, List.take_eq_nil_iff]
    simp

theorem keepFirst_eq_nil {A : Type} (same : A → A → Bool) {rows : List A} :
    Engine.keepFirst same rows = [] ↔ rows = [] := by
  cases rows with
  | nil => rfl
  | cons a rest => exact ⟨nofun, nofun⟩

theorem forall₂_eq_nil {A B : Type} {R : A → B → Prop} {xs : List A} {ys : List B}
    (beside : List.Forall₂ R xs ys) : ys = [] ↔ xs = [] := by
  cases beside with
  | nil => exact ⟨fun _ => rfl, fun _ => rfl⟩
  | cons _ _ => exact ⟨nofun, nofun⟩

section
variable {D : Type} (E : Engine D)

theorem sorted_perm (order : List (OrderKey D)) (outputs : List (Output D)) :
    (sorted E order outputs).Perm outputs := by
  unfold sorted
  split
  · exact .rfl
  · exact List.perm_insertionSort _ _

theorem sorted_eq_nil (order : List (OrderKey D)) {outputs : List (Output D)} :
    sorted E order outputs = [] ↔ outputs = [] := by
  rw [← List.length_eq_zero_iff, (sorted_perm E order outputs).length_eq, List.length_eq_zero_iff]

variable (c : Clauses D)

theorem deduplicated_eq_nil {outputs : List (Output D)} :
    c.deduplicated E outputs = [] ↔ outputs = [] := by
  unfold Clauses.deduplicated
  split
  · rfl
  · exact keepFirst_eq_nil _
  · exact keepFirst_eq_nil _

/-- Whether the select list gives a row in one frame: without set-returning calls it does. -/
def GivesRow (s : Scope D) : Prop :=
  ∃ lists, c.items.mapM (Item.cells s) = some lists ∧ E.unfold lists.flatten ≠ []

theorem outputs_eq_nil {order : List (OrderKey D)} {columns : List Column} {s : Scope D}
    {outputs : List (Output D)} (read : c.outputs E order columns s = some outputs) :
    outputs = [] ↔ ¬ GivesRow E c s := by
  obtain ⟨lists, items, read⟩ := Option.bind_eq_some_iff.mp read
  rw [forall₂_eq_nil (mapM_eq_some.mp read)]
  constructor
  · rintro empty ⟨lists', items', gives⟩
    obtain rfl := Option.some.inj (items.symm.trans items')
    exact gives empty
  · intro gives_none
    by_contra some_row
    exact gives_none ⟨lists, items, some_row⟩

/-- A SELECT has no row exactly when its list gives none in any frame. -/
theorem answer_eq_nil {order : List (OrderKey D)} {s : Scope D} {t a : Table D}
    {frames : List (Frame D)} (kept : c.filtered E s = some t)
    (framed : c.frames E order s t = some frames) (answered : c.answer E order s = some a) :
    a.rows = [] ↔ ∀ frame ∈ frames, ¬ GivesRow E c (s.under frame) := by
  rw [Clauses.answer, kept, Option.bind_some, framed, Option.bind_some] at answered
  obtain ⟨outputs, read, rfl⟩ := Option.map_eq_some_iff.mp answered
  rw [List.map_eq_nil_iff, deduplicated_eq_nil, sorted_eq_nil, List.flatten_eq_nil_iff]
  have beside := mapM_eq_some.mp read
  clear read answered framed
  induction beside with
  | nil => simp
  | cons first _ ih =>
    rw [List.forall_mem_cons, List.forall_mem_cons]
    exact and_congr (outputs_eq_nil E c first) ih

/-- The rows that pass, where every test answers. -/
theorem kept_eq_some {A : Type} {test : A → Option Bool} {rows passed : List A} :
    kept test rows = some passed ↔
      (∀ a ∈ rows, ∃ b, test a = some b) ∧ passed = rows.filter fun a => test a == some true := by
  induction rows generalizing passed with
  | nil => simp [kept, eq_comm]
  | cons a rest ih =>
    rw [kept, List.forall_mem_cons]
    constructor
    · intro all
      obtain ⟨b, first, all⟩ := Option.bind_eq_some_iff.mp all
      obtain ⟨more, later, rfl⟩ := Option.map_eq_some_iff.mp all
      obtain ⟨each, rfl⟩ := ih.mp later
      refine ⟨⟨⟨b, first⟩, each⟩, ?_⟩
      cases b <;> simp [first]
    · rintro ⟨⟨⟨b, first⟩, each⟩, rfl⟩
      rw [first, Option.bind_some, ih.mpr ⟨each, rfl⟩]
      cases b <;> simp [first]

/-- FROM and WHERE: every row has a verdict, and those that pass stay. -/
theorem filtered_eq_some {s : Scope D} {t : Table D} :
    c.filtered E s = some t ↔ c.filter.any (·.spans) = false ∧
      ∃ whole, c.source s = some whole ∧
        (∀ cells ∈ whole.rows, ∃ b,
          passes E c.filter (s.under (.row whole.columns cells)) = some b) ∧
        t = ⟨whole.columns, whole.rows.filter fun cells =>
          passes E c.filter (s.under (.row whole.columns cells)) == some true⟩ := by
  unfold Clauses.filtered
  split
  · next spans => simp [spans]
  · next plain =>
    rw [Bool.not_eq_true] at plain
    rw [and_iff_right plain]
    constructor
    · intro read
      obtain ⟨whole, found, read⟩ := Option.bind_eq_some_iff.mp read
      obtain ⟨rows, passed, rfl⟩ := Option.map_eq_some_iff.mp read
      obtain ⟨each, rfl⟩ := kept_eq_some.mp passed
      exact ⟨whole, found, each, rfl⟩
    · rintro ⟨whole, found, each, rfl⟩
      rw [found, Option.bind_some, kept_eq_some.mpr ⟨each, rfl⟩]
      rfl

theorem filtered_some {s : Scope D} {t : Table D} (read : c.filtered E s = some t) :
    ∃ whole, c.source s = some whole ∧
      (∀ cells ∈ whole.rows, ∃ b, passes E c.filter (s.under (.row whole.columns cells)) = some b) ∧
      t = ⟨whole.columns, whole.rows.filter fun cells =>
        passes E c.filter (s.under (.row whole.columns cells)) == some true⟩ :=
  ((filtered_eq_some E c).mp read).2

/-- One item with one value: a row of it, if ORDER BY can be read. -/
theorem single_outputs {e : Expr} {name : String} {m : Meaning D} {order : List (OrderKey D)}
    {columns : List Column} {r : Scope D} {v : D} (items : c.items = [.expr e name m])
    (distinct : c.distinct = .no) (value : m.value r = some v) (unfolds : E.unfold [v] = [[v]]) :
    c.outputs E order columns r =
      (order.mapM fun k : OrderKey D => k.value [name] [v] r).map fun keys =>
        [⟨[v], keys, []⟩] := by
  have cells : c.items.mapM (Item.cells r) = some [[v]] := by
    rw [items]
    apply mapM_eq_some.mpr
    refine .cons ?_ .nil
    rw [Item.cells, value]
    rfl
  have names : c.names columns = [name] := by
    rw [Clauses.names, items]
    rfl
  have plain : c.onMeanings = [] := by
    rw [Clauses.onMeanings, distinct]
  rw [Clauses.outputs, cells, Option.bind_some, List.flatten_cons, List.flatten_nil,
    List.append_nil, unfolds, List.mapM_cons, List.mapM_nil, names, plain]
  change Option.bind (Option.bind (order.mapM fun k : OrderKey D => k.value [name] [v] r)
    fun keys => some _) _ = _
  cases order.mapM fun k : OrderKey D => k.value [name] [v] r with
  | none => rfl
  | some keys => rfl

theorem exists_mapped {A B : Type} {f : A → B} {x : Option A} :
    (∃ a, x = some a) ↔ ∃ b, x.map f = some b := by
  cases x <;> simp

theorem flatten_cells {A : Type} {f : A → Option (List (Output D))} {g : A → List D}
    {xs : List A} {all : List (List (Output D))}
    (beside : List.Forall₂ (fun x out => f x = some out) xs all)
    (each : ∀ x ∈ xs, ∀ out, f x = some out → out.map (·.cells) = [g x]) :
    all.flatten.map (·.cells) = xs.map g := by
  induction beside with
  | nil => rfl
  | cons first _ ih =>
    rw [List.forall_mem_cons] at each
    rw [List.flatten_cons, List.map_append, each.1 _ first, ih each.2]
    rfl

/-- A SELECT of one item can be evaluated where ORDER BY can be read beside its values, and then
has those values, sorted. -/
theorem single_sorted {e : Expr} {name : String} {m : Meaning D} {order : List (OrderKey D)}
    {s : Scope D} {t : Table D} {frames : List (Frame D)} {v : Frame D → D}
    (items : c.items = [.expr e name m]) (distinct : c.distinct = .no)
    (kept : c.filtered E s = some t) (framed : c.frames E order s t = some frames)
    (value : ∀ frame ∈ frames, m.value (s.under frame) = some (v frame))
    (unfolds : ∀ frame ∈ frames, E.unfold [v frame] = [[v frame]]) :
    ((∃ a, c.answer E order s = some a) ↔ ∀ frame ∈ frames, ∀ k ∈ order, ∃ d,
      k.value [name] [v frame] (s.under frame) = some d) ∧
    ∀ a, c.answer E order s = some a → ∃ outputs : List (Output D),
      outputs.map (·.cells) = (frames.map fun frame => [v frame]) ∧
        a.rows = (sorted E order outputs).map (·.cells) := by
  have outputs : ∀ frame ∈ frames, c.outputs E order t.columns (s.under frame) =
      (order.mapM fun k : OrderKey D => k.value [name] [v frame] (s.under frame)).map fun keys =>
        [⟨[v frame], keys, []⟩] := fun frame member =>
    single_outputs E c items distinct (value frame member) (unfolds frame member)
  have answer : c.answer E order s =
      (frames.mapM fun frame => c.outputs E order t.columns (s.under frame)).map fun outputs =>
        ⟨(c.names t.columns).map (⟨[], ·⟩), (sorted E order outputs.flatten).map (·.cells)⟩ := by
    rw [Clauses.answer, kept, Option.bind_some, framed, Option.bind_some]
    unfold Clauses.deduplicated
    rw [distinct]
  rw [answer]
  constructor
  · rw [← exists_mapped, mapM_some_iff]
    apply forall₂_congr
    intro frame member
    rw [outputs frame member, ← exists_mapped, mapM_some_iff]
  · intro a answered
    obtain ⟨all, read, rfl⟩ := Option.map_eq_some_iff.mp answered
    have cells : all.flatten.map (·.cells) = frames.map fun frame => [v frame] :=
      flatten_cells (mapM_eq_some.mp read) fun frame member out made => by
        rw [outputs frame member] at made
        obtain ⟨keys, _, rfl⟩ := Option.map_eq_some_iff.mp made
        rfl
    exact ⟨all.flatten, cells, rfl⟩

section
variable {e : Expr} {name : String} {m : Meaning D} {order : List (OrderKey D)} {s : Scope D}
  {t : Table D} {frames : List (Frame D)} {v : Frame D → D} (items : c.items = [.expr e name m])
  (distinct : c.distinct = .no) (kept : c.filtered E s = some t)
include items distinct kept

theorem single_answer (framed : c.frames E order s t = some frames)
    (value : ∀ frame ∈ frames, m.value (s.under frame) = some (v frame))
    (unfolds : ∀ frame ∈ frames, E.unfold [v frame] = [[v frame]]) :
    ((∃ a, c.answer E order s = some a) ↔ ∀ frame ∈ frames, ∀ k ∈ order, ∃ d,
      k.value [name] [v frame] (s.under frame) = some d) ∧
    ∀ a, c.answer E order s = some a → a.rows.Perm (frames.map fun frame => [v frame]) := by
  obtain ⟨read, rows⟩ := single_sorted E c items distinct kept framed value unfolds
  refine ⟨read, fun a answered => ?_⟩
  obtain ⟨outputs, cells, same⟩ := rows a answered
  rw [same, ← cells]
  exact (sorted_perm E order outputs).map _

/-- Without ORDER BY the values come as their rows do. -/
theorem single_unordered (framed : c.frames E [] s t = some frames)
    (value : ∀ frame ∈ frames, m.value (s.under frame) = some (v frame))
    (unfolds : ∀ frame ∈ frames, E.unfold [v frame] = [[v frame]]) :
    (c.answer E [] s).map (·.rows) = some (frames.map fun frame => [v frame]) := by
  obtain ⟨read, rows⟩ := single_sorted E c items distinct kept framed value unfolds
  obtain ⟨a, answered⟩ := read.mpr fun frame _ => nofun
  obtain ⟨outputs, cells, same⟩ := rows a answered
  rw [answered, Option.map_some, same, ← cells]
  rfl

end

/-- The item of a SELECT that has rows has a value in every frame. -/
theorem answer_value {e : Expr} {name : String} {m : Meaning D} {order : List (OrderKey D)}
    {s : Scope D} {t a : Table D} {frames : List (Frame D)} (items : c.items = [.expr e name m])
    (kept : c.filtered E s = some t) (framed : c.frames E order s t = some frames)
    (answered : c.answer E order s = some a) :
    ∀ frame ∈ frames, ∃ v, m.value (s.under frame) = some v := by
  rw [Clauses.answer, kept, Option.bind_some, framed, Option.bind_some] at answered
  obtain ⟨outputs, read, _⟩ := Option.map_eq_some_iff.mp answered
  intro frame member
  obtain ⟨out, made⟩ := mapM_some_iff.mp ⟨outputs, read⟩ frame member
  obtain ⟨lists, cells, _⟩ := Option.bind_eq_some_iff.mp made
  rw [items] at cells
  cases mapM_eq_some.mp cells with
  | cons first _ =>
    obtain ⟨v, value, _⟩ := Option.map_eq_some_iff.mp first
    exact ⟨v, value⟩

/-- The rows the select list gives in one frame, before they are ordered. -/
def listRows (r : Scope D) : Option (List (List D)) :=
  (c.items.mapM (Item.cells r)).map fun lists => E.unfold lists.flatten

theorem outputs_cells {order : List (OrderKey D)} {columns : List Column} {r : Scope D}
    {outputs : List (Output D)} (given : c.outputs E order columns r = some outputs) :
    listRows E c r = some (outputs.map (·.cells)) := by
  obtain ⟨lists, cells, given⟩ := Option.bind_eq_some_iff.mp given
  rw [listRows, cells, Option.map_some]
  congr 1
  rw [← List.forall₂_eq_eq_eq, List.forall₂_map_right_iff]
  refine (mapM_eq_some.mp given).imp ?_
  intro values output made
  obtain ⟨keys, _, made⟩ := Option.bind_eq_some_iff.mp made
  obtain ⟨onKeys, _, rfl⟩ := Option.map_eq_some_iff.mp made
  rfl

/-- A SELECT without DISTINCT has the rows of its list, frame by frame, in some order. -/
theorem answer_rows {order : List (OrderKey D)} {s : Scope D} {t a : Table D}
    {frames : List (Frame D)} (distinct : c.distinct = .no) (kept : c.filtered E s = some t)
    (framed : c.frames E order s t = some frames) (answered : c.answer E order s = some a) :
    ∃ rows, frames.mapM (fun frame => listRows E c (s.under frame)) = some rows ∧
      a.rows.Perm rows.flatten := by
  rw [Clauses.answer, kept, Option.bind_some, framed, Option.bind_some] at answered
  obtain ⟨outputs, each, rfl⟩ := Option.map_eq_some_iff.mp answered
  refine ⟨outputs.map (·.map (·.cells)), mapM_eq_some.mpr ?_, ?_⟩
  · rw [List.forall₂_map_right_iff]
    exact (mapM_eq_some.mp each).imp fun frame output given => outputs_cells E c given
  · have plain : ∀ rows : List (Output D), c.deduplicated E rows = rows := by
      intro rows
      rw [Clauses.deduplicated, distinct]
    rw [plain, ← List.map_flatten]
    exact (sorted_perm E order outputs.flatten).map _

theorem ctes_frames (recursive : Bool) (ctes : List Cte) {s inner : Scope D}
    (bound : ctesMeaning E recursive ctes s = some inner) : inner.frames = s.frames := by
  induction ctes generalizing s with
  | nil => rw [← Option.some.inj bound]
  | cons cte rest ih =>
    obtain ⟨⟨name, columns⟩, q⟩ := cte
    rw [ctesMeaning] at bound
    obtain ⟨table, _, bound⟩ := Option.bind_eq_some_iff.mp bound
    have later := ih bound
    exact later

/-- A WITH clause puts names in scope and no frames. -/
theorem with_frames {with_ : Option With} {s inner : Scope D}
    (bound : withMeaning E with_ s = some inner) : inner.frames = s.frames := by
  match with_ with
  | none => rw [← Option.some.inj bound]
  | some ⟨recursive, ctes⟩ => exact ctes_frames E recursive ctes bound

/-- The frames of a SELECT without GROUP BY and HAVING. -/
theorem plain_frames (distinct : Distinct) (projection : List SelectItem)
    (from_ : List TableWithJoins) (selection : Option Expr) (order : List (OrderKey D))
    (s : Scope D) (t : Table D) :
    (clauses E ⟨distinct, projection, from_, selection, .expressions [], none⟩).frames E order s t =
      some (if (clauses E ⟨distinct, projection, from_, selection, .expressions [], none⟩).grouped
          order
        then [.group t.columns t.rows fun _ => none] else t.rows.map (.row t.columns ·)) := by
  unfold Clauses.frames
  split <;> rfl

end

end PgCatalog.Semantics
