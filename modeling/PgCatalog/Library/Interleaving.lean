import Mathlib.Data.List.Infix
import Mathlib.Data.List.Nodup

/-! Calls that share one state. Each has a read section, which makes up what to write, and a
write section; a schedule says whose section comes next. -/
namespace PgCatalog.Library.Interleaving

inductive Progress (ν : Type) where
  | waiting
  | holding (value : ν)
  | done
  | failed
  deriving DecidableEq, Repr

structure Shared (κ σ ν : Type) where
  state : σ
  progress : κ → Progress ν

/-- The two sections of a call; the read section can fail. -/
structure Sections (κ σ ν ε : Type) where
  read : κ → σ → Except ε ν
  write : ν → σ → σ

section
variable {κ σ ν ε R : Type} [DecidableEq κ] (sections : Sections κ σ ν ε)

def start (s : σ) : Shared κ σ ν := ⟨s, fun _ => .waiting⟩

/-- The next section of a call; a call that has ended does nothing. -/
def advance (s : Shared κ σ ν) (k : κ) : Shared κ σ ν :=
  match s.progress k with
  | .waiting =>
    match sections.read k s.state with
    | .ok value => ⟨s.state, Function.update s.progress k (.holding value)⟩
    | .error _ => ⟨s.state, Function.update s.progress k .failed⟩
  | .holding value => ⟨sections.write value s.state, Function.update s.progress k .done⟩
  | .done | .failed => s

def after (s : Shared κ σ ν) (schedule : List κ) : Shared κ σ ν :=
  schedule.foldl (advance sections) s

/-- The calls whose write sections a schedule runs, in that order. -/
def written : Shared κ σ ν → List κ → List κ
  | _, [] => []
  | s, k :: rest =>
    match s.progress k with
    | .holding _ => k :: written (advance sections s k) rest
    | _ => written (advance sections s k) rest

variable {sections} {s : Shared κ σ ν} {k : κ}

theorem after_append (first second : List κ) :
    after sections s (first ++ second) = after sections (after sections s first) second := by
  simp [after]

theorem written_append (first second : List κ) :
    written sections s (first ++ second) =
      written sections s first ++ written sections (after sections s first) second := by
  induction first generalizing s with
  | nil => rfl
  | cons k rest ih =>
    simp only [List.cons_append, written, ih]
    cases s.progress k <;> rfl

theorem advance_other {other : κ} (apart : other ≠ k) :
    (advance sections s k).progress other = s.progress other := by
  unfold advance
  split
  · split <;> simp [apart]
  · simp [apart]
  · rfl
  · rfl

theorem after_other {other : κ} {schedule : List κ} (apart : other ∉ schedule) :
    (after sections s schedule).progress other = s.progress other := by
  induction schedule generalizing s with
  | nil => rfl
  | cons k rest ih =>
    simp only [List.mem_cons, not_or] at apart
    change (after sections (advance sections s k) rest).progress other = _
    rw [ih apart.2, advance_other apart.1]

/-- What has its turn has begun, and never waits again. -/
theorem begun_advance (other : κ) (begun : k = other ∨ s.progress k ≠ .waiting) :
    (advance sections s other).progress k ≠ .waiting := by
  by_cases same : k = other
  · subst same
    unfold advance
    split
    · split <;> simp
    · simp
    · next ended => simp [ended]
    · next ended => simp [ended]
  · rw [advance_other same]
    exact begun.resolve_left same

theorem begun_after {schedule : List κ} (begun : s.progress k ≠ .waiting) :
    (after sections s schedule).progress k ≠ .waiting := by
  induction schedule generalizing s with
  | nil => exact begun
  | cons other rest ih => exact ih (begun_advance other (.inr begun))

/-- A call that has begun and holds nothing never writes again. -/
theorem ended_advance (other : κ) (ended : s.progress k = .done ∨ s.progress k = .failed) :
    (advance sections s other).progress k = s.progress k := by
  by_cases same : k = other
  · subst same
    unfold advance
    rcases ended with ended | ended <;> simp [ended]
  · exact advance_other same

theorem ended_after {schedule : List κ}
    (ended : s.progress k = .done ∨ s.progress k = .failed) :
    (after sections s schedule).progress k = s.progress k := by
  induction schedule generalizing s with
  | nil => rfl
  | cons other rest ih =>
    have same : (advance sections s other).progress k = _ := ended_advance other ended
    exact (ih (by rwa [same])).trans same

theorem not_written_of_ended {schedule : List κ}
    (ended : s.progress k = .done ∨ s.progress k = .failed) :
    k ∉ written sections s schedule := by
  induction schedule generalizing s with
  | nil => simp [written]
  | cons other rest ih =>
    have later := ih (s := advance sections s other) (by rwa [ended_advance other ended])
    unfold written
    split
    · next value holding =>
      simp only [List.mem_cons, not_or]
      refine ⟨?_, later⟩
      rintro rfl
      simp [holding] at ended
    · exact later

theorem advance_holding {value : ν} (holding : s.progress k = .holding value) :
    advance sections s k =
      ⟨sections.write value s.state, Function.update s.progress k .done⟩ := by
  simp [advance, holding]

theorem nodup_written (schedule : List κ) : (written sections s schedule).Nodup := by
  induction schedule generalizing s with
  | nil => simp [written]
  | cons k rest ih =>
    unfold written
    split
    · next value holding =>
      apply List.nodup_cons.mpr
      exact ⟨not_written_of_ended (by simp [advance_holding holding]), ih⟩
    · exact ih

/-- The calls that are done are those whose write section was run. -/
theorem mem_written {schedule : List κ} (fresh : s.progress k ≠ .done) :
    k ∈ written sections s schedule ↔ (after sections s schedule).progress k = .done := by
  induction schedule generalizing s with
  | nil => simpa [written, after] using fresh
  | cons other rest ih =>
    change _ ↔ (after sections (advance sections s other) rest).progress k = .done
    by_cases same : k = other
    · subst same
      cases held : s.progress k with
      | done => contradiction
      | holding value =>
        have finished : (advance sections s k).progress k = .done := by
          simp [advance_holding held]
        simp [written, held, ended_after (.inl finished), finished]
      | waiting =>
        have begun : (advance sections s k).progress k ≠ .done := by
          simp only [advance, held]
          split <;> simp
        simpa only [written, held] using ih begun
      | failed =>
        have stays : advance sections s k = s := by simp [advance, held]
        simpa only [written, held, stays] using ih fresh
    · have kept : (advance sections s other).progress k ≠ .done := by
        rwa [advance_other same]
      rw [← ih kept]
      cases held : s.progress other <;> simp [written, held, same]

theorem waiting_iff {s₀ : σ} {schedule : List κ} :
    (after sections (start s₀) schedule).progress k = .waiting ↔ k ∉ schedule := by
  constructor
  · intro waiting member
    obtain ⟨before, between, rfl⟩ := List.append_of_mem member
    rw [after_append] at waiting
    exact begun_after (begun_advance k (.inl rfl)) waiting
  · intro apart
    rw [after_other apart]
    rfl

/-- What a call holds it made up in its own read section, some time before. -/
theorem held_from_read {s₀ : σ} {schedule : List κ} {value : ν}
    (holding : (after sections (start s₀) schedule).progress k = .holding value) :
    ∃ before between, schedule = before ++ k :: between ∧ k ∉ before ∧ k ∉ between ∧
      sections.read k (after sections (start s₀) before).state = .ok value := by
  induction schedule using List.reverseRecOn with
  | nil => simp [after, start] at holding
  | append_singleton earlier last ih =>
    rw [after_append] at holding
    change (advance sections _ last).progress k = _ at holding
    by_cases same : k = last
    · subst same
      have waiting : (after sections (start s₀) earlier).progress k = .waiting := by
        unfold advance at holding
        split at holding
        · assumption
        · simp at holding
        · next ended => simp [ended] at holding
        · next ended => simp [ended] at holding
      have apart := waiting_iff.mp waiting
      refine ⟨earlier, [], by simp, apart, by simp, ?_⟩
      unfold advance at holding
      simp only [waiting] at holding
      split at holding
      · next value' read =>
        simp only [Function.update_self, Progress.holding.injEq] at holding
        rw [read, holding]
      · simp at holding
    · rw [advance_other same] at holding
      obtain ⟨before, between, rfl, first, later, read⟩ := ih holding
      refine ⟨before, between ++ [last], by simp, first, ?_, read⟩
      simp [later, same]

theorem holding_of_read {s₀ : σ} {before between : List κ} {value : ν} (first : k ∉ before)
    (later : k ∉ between)
    (read : sections.read k (after sections (start s₀) before).state = .ok value) :
    (after sections (start s₀) (before ++ k :: between)).progress k = .holding value := by
  have waiting : (after sections (start s₀) before).progress k = .waiting := waiting_iff.mpr first
  rw [after_append]
  change (after sections (advance sections _ k) between).progress k = _
  rw [after_other later]
  simp only [advance, waiting, read, Function.update_self]

/-- A read section that fails writes nothing. -/
theorem state_of_failed (failed : (advance sections s k).progress k = .failed) :
    (advance sections s k).state = s.state := by
  unfold advance at failed ⊢
  split
  · split <;> rfl
  · next value holding => simp [holding] at failed
  · rfl
  · rfl

/-- Shown through a view, the state follows the calls in the order of their write sections
exactly if each write section does there what its call does alone. -/
theorem in_write_order_iff (view : σ → R) (apply : R → κ → R) {schedule : List κ} :
    (∀ now, now <+: schedule → view (after sections s now).state =
        (written sections s now).foldl apply (view s.state)) ↔
      ∀ before k, before ++ [k] <+: schedule → ∀ value,
        (after sections s before).progress k = .holding value →
          view (sections.write value (after sections s before).state) =
            apply (view (after sections s before).state) k := by
  constructor
  · intro ordered before k here value holding
    have earlier := ordered before ((List.prefix_append before [k]).trans here)
    have now := ordered _ here
    rw [after_append, written_append, List.foldl_append, ← earlier] at now
    generalize after sections s before = m at now holding
    change view (advance sections m k).state = _ at now
    simpa only [written, holding, advance_holding holding, List.foldl_cons, List.foldl_nil]
      using now
  · intro alone now here
    induction now using List.reverseRecOn with
    | nil => rfl
    | append_singleton before k ih =>
      have earlier := ih ((List.prefix_append before [k]).trans here)
      rw [after_append, written_append, List.foldl_append, ← earlier]
      have step := alone before k here
      generalize after sections s before = m at step
      change view (advance sections m k).state = _
      cases held : m.progress k with
      | holding value =>
        simpa only [written, held, advance_holding held, List.foldl_cons, List.foldl_nil]
          using step value held
      | waiting =>
        simp only [written, held, advance]
        split <;> rfl
      | done => simp only [written, held, advance, List.foldl_nil]
      | failed => simp only [written, held, advance, List.foldl_nil]

end

end PgCatalog.Library.Interleaving
