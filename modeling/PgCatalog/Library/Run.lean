import Mathlib.Data.List.Basic

/-! Runs of a machine that answers one request at a time. The induction rules
below are about every finite request sequence, never a bounded unrolling. -/
namespace PgCatalog.Library

universe u v w x

/-- The state after a sequence of requests, each answer discarded. -/
def run {σ : Type u} {α : Type v} {β : Type w} (step : σ → α → β × σ) (s : σ) : List α → σ
  | [] => s
  | a :: rest => run step (step s a).2 rest

/-- The answers given along the same run, in order. -/
def answers {σ : Type u} {α : Type v} {β : Type w} (step : σ → α → β × σ) (s : σ) :
    List α → List β
  | [] => []
  | a :: rest => (step s a).1 :: answers step (step s a).2 rest

section
variable {σ : Type u} {τ : Type x} {α : Type v} {β : Type w}

@[simp] theorem run_nil (step : σ → α → β × σ) (s : σ) : run step s [] = s := rfl

@[simp] theorem run_cons (step : σ → α → β × σ) (s : σ) (a : α) (rest : List α) :
    run step s (a :: rest) = run step (step s a).2 rest := rfl

theorem run_append (step : σ → α → β × σ) (s : σ) (xs ys : List α) :
    run step s (xs ++ ys) = run step (run step s xs) ys := by
  induction xs generalizing s with
  | nil => rfl
  | cons a rest ih => exact ih (step s a).2

/-- What one step preserves, every run preserves. -/
theorem run_invariant (step : σ → α → β × σ) (inv : σ → Prop)
    (preserves : ∀ s a, inv s → inv (step s a).2) {s : σ} (initial : inv s) (xs : List α) :
    inv (run step s xs) := by
  induction xs generalizing s with
  | nil => exact initial
  | cons a rest ih => exact ih (preserves s a initial)

/-- Two machines in step with each other answer every sequence alike and stay
in step. -/
theorem simulation (stepS : σ → α → β × σ) (stepT : τ → α → β × τ) (R : σ → τ → Prop)
    (agrees : ∀ s t, R s t → ∀ a, (stepS s a).1 = (stepT t a).1 ∧
      R (stepS s a).2 (stepT t a).2)
    {s : σ} {t : τ} (initial : R s t) (xs : List α) :
    answers stepS s xs = answers stepT t xs ∧ R (run stepS s xs) (run stepT t xs) := by
  induction xs generalizing s t with
  | nil => exact ⟨rfl, initial⟩
  | cons a rest ih =>
    obtain ⟨same, related⟩ := agrees s t initial a
    obtain ⟨tail, final⟩ := ih related
    exact ⟨by simp only [answers, same, tail], final⟩

end

end PgCatalog.Library
