import Mathlib.Data.List.Basic

/-! Steps taken one after another in a fixed order: what one of them brings about and those after
it keep holds at the end. -/
namespace PgCatalog.Library

universe u v

/-- The state after steps in a row. -/
def chain {σ : Type u} {α : Type v} (step : α → σ → σ) (steps : List α) (s : σ) : σ :=
  steps.foldl (fun s a => step a s) s

section
variable {σ : Type u} {α : Type v} {step : α → σ → σ}

theorem chain_append (first second : List α) (s : σ) :
    chain step (first ++ second) s = chain step second (chain step first s) := List.foldl_append

theorem chain_cons (a : α) (rest : List α) (s : σ) :
    chain step (a :: rest) s = chain step rest (step a s) := rfl

theorem chain_kept {held : σ → Prop} {steps : List α}
    (keeps : ∀ a ∈ steps, ∀ s, held s → held (step a s)) {s : σ} (initial : held s) :
    held (chain step steps s) := by
  induction steps generalizing s with
  | nil => exact initial
  | cons a rest ih =>
    obtain ⟨first, later⟩ := List.forall_mem_cons.mp keeps
    exact ih later (first s initial)

/-- What a step brings about from any state, and all after it keep. -/
theorem chain_established {held : σ → Prop} {before after : List α} {a : α}
    (establishes : ∀ s, held (step a s)) (keeps : ∀ b ∈ after, ∀ s, held s → held (step b s))
    (s : σ) : held (chain step (before ++ a :: after) s) := by
  rw [chain_append, chain_cons]
  exact chain_kept keeps (establishes _)

/-- What a step brings about from what an earlier one did, with steps in between that keep it. -/
theorem chain_narrowed {first second : σ → Prop} {before between after : List α} {a b : α}
    (establishes : ∀ s, first (step a s)) (keeps : ∀ c ∈ between, ∀ s, first s → first (step c s))
    (narrows : ∀ s, first s → second (step b s))
    (later : ∀ c ∈ after, ∀ s, second s → second (step c s)) (s : σ) :
    second (chain step (before ++ a :: (between ++ b :: after)) s) := by
  rw [chain_append, chain_cons, chain_append, chain_cons]
  exact chain_kept later (narrows _ (chain_kept keeps (establishes _)))

end

end PgCatalog.Library
