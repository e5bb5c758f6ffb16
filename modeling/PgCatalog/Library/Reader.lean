import Mathlib.Data.List.Basic

/-! Reading a list step by step: every step reads an element at least, so a run over the list needs
no bound of its own. -/
namespace PgCatalog.Library

/-- `step` reads the head of a list that is not empty, in a state; the list gets shorter. -/
structure Reader (α σ τ : Type) where
  step : σ → List α → Option (List τ × σ × List α)
  shorter : ∀ {state head text found after rest},
    step state (head :: text) = some (found, after, rest) → rest.length < (head :: text).length

namespace Reader

variable {α σ τ : Type} (reader : Reader α σ τ)

def run : Nat → σ → List α → Option (List τ)
  | 0, _, _ => none
  | _ + 1, _, [] => some []
  | fuel + 1, state, head :: text =>
    (reader.step state (head :: text)).bind fun (found, after, rest) =>
      (run fuel after rest).map (found ++ ·)

/-- All that is read of a list. -/
def readAll (state : σ) (text : List α) : Option (List τ) :=
  reader.run (text.length + 1) state text

variable {reader} {state : σ} {text : List α}

theorem run_eq {fuel more : Nat} (enough : text.length < fuel) (enough' : text.length < more) :
    reader.run fuel state text = reader.run more state text := by
  induction fuel generalizing more state text with
  | zero => omega
  | succ fuel ih =>
    cases more with
    | zero => omega
    | succ more =>
      cases text with
      | nil => rfl
      | cons head text =>
        rw [run, run]
        apply Option.bind_congr
        rintro ⟨found, after, rest⟩ read
        have shorter := reader.shorter read
        have same : reader.run fuel after rest = reader.run more after rest :=
          ih (by omega) (by omega)
        simp only [same]

theorem readAll_nil : reader.readAll state [] = some [] := rfl

theorem readAll_of_ne_nil (nonempty : text ≠ []) : reader.readAll state text =
    (reader.step state text).bind fun (found, after, rest) =>
      (reader.readAll after rest).map (found ++ ·) := by
  cases text with
  | nil => contradiction
  | cons head text =>
    rw [readAll, run]
    apply Option.bind_congr
    rintro ⟨found, after, rest⟩ read
    have shorter := reader.shorter read
    have same : reader.run (head :: text).length after rest = reader.readAll after rest :=
      run_eq (by omega) (by omega)
    simp only [same]

/-- A step whose outcome is known. -/
theorem readAll_of_step {found : List τ} {after : σ} {rest : List α}
    (read : reader.step state text = some (found, after, rest)) (nonempty : text ≠ []) :
    reader.readAll state text = (reader.readAll after rest).map (found ++ ·) := by
  rw [readAll_of_ne_nil nonempty, read, Option.bind_some]

/-! Readers that have no state to keep. -/

section
variable {step : List α → Option (List τ × List α)} {found : List τ} {rest : List α}

def ignoring (step : List α → Option (List τ × List α)) (_ : Unit) (text : List α) :
    Option (List τ × Unit × List α) :=
  (step text).map fun (found, rest) => (found, (), rest)

theorem ignoring_shorter
    (shorter : ∀ {head text found rest}, step (head :: text) = some (found, rest) →
      rest.length < (head :: text).length) {state after : Unit} {head : α}
    (read : ignoring step state (head :: text) = some (found, after, rest)) :
    rest.length < (head :: text).length := by
  obtain ⟨⟨inner, left⟩, here, same⟩ := Option.map_eq_some_iff.mp read
  simp only [Prod.mk.injEq] at same
  obtain ⟨-, -, rfl⟩ := same
  exact shorter here

def stateless (step : List α → Option (List τ × List α))
    (shorter : ∀ {head text found rest}, step (head :: text) = some (found, rest) →
      rest.length < (head :: text).length) : Reader α Unit τ :=
  ⟨ignoring step, ignoring_shorter shorter⟩

variable {shorter : ∀ {head text found rest}, step (head :: text) = some (found, rest) →
  rest.length < (head :: text).length}

theorem stateless_none (nonempty : text ≠ []) (refused : step text = none) :
    (stateless step shorter).readAll () text = none := by
  rw [readAll_of_ne_nil nonempty]
  simp [stateless, ignoring, refused]

theorem stateless_step (nonempty : text ≠ []) (read : step text = some (found, rest)) :
    (stateless step shorter).readAll () text =
      ((stateless step shorter).readAll () rest).map (found ++ ·) := by
  apply readAll_of_step _ nonempty
  simp [stateless, ignoring, read]

/-- What a list is read as stands before what follows it is read as, if no step on it depends on
what follows. -/
theorem stateless_append {more : List α} {all : List τ}
    (stable : ∀ {text found rest}, text ≠ [] → step text = some (found, rest) →
      step (text ++ more) = some (found, rest ++ more))
    (read : (stateless step shorter).readAll () text = some all) :
    (stateless step shorter).readAll () (text ++ more) =
      ((stateless step shorter).readAll () more).map (all ++ ·) := by
  induction counted : text.length using Nat.strongRecOn generalizing text all with
  | ind n ih =>
    cases text with
    | nil =>
      obtain rfl := Option.some.inj read
      simp
    | cons head text =>
      have nonempty : head :: text ≠ [] := List.cons_ne_nil head text
      cases here : step (head :: text) with
      | none =>
        rw [stateless_none nonempty here] at read
        contradiction
      | some pair =>
        obtain ⟨found, rest⟩ := pair
        rw [stateless_step nonempty here] at read
        obtain ⟨others, further, rfl⟩ := Option.map_eq_some_iff.mp read
        have fewer : rest.length < n := counted ▸ shorter here
        have inner := ih rest.length fewer further rfl
        rw [stateless_step (by simp) (stable nonempty here), inner, Option.map_map]
        simp [Function.comp_def]

end
end Reader
end PgCatalog.Library
