import Mathlib.Logic.Function.Basic
import PgCatalog.Library.Run

/-! Get-or-allocate over one counter. A key seen before keeps the number it was
given; a new key takes the next `span key` consecutive numbers, and is refused,
with nothing recorded, once they no longer fit below the limit. -/
namespace PgCatalog.Library

universe u

/-- The numbers handed out so far (the first of each key's span) and the next
one to hand out. -/
structure Allocator (K : Type u) where
  recorded : K → Option Int
  next : Int

namespace Allocator
variable {K : Type u} (span : K → Int) (first limit : Int)

/-- No two spans overlap, and all of them lie between `first` and the counter. -/
structure Sound (a : Allocator K) : Prop where
  above : ∀ k o, a.recorded k = some o → first ≤ o
  below : ∀ k o, a.recorded k = some o → o + span k ≤ a.next
  apart : ∀ k l o p, a.recorded k = some o → a.recorded l = some p → k ≠ l →
    o + span k ≤ p ∨ p + span l ≤ o
  started : first ≤ a.next
  room : a.next ≤ limit

/-- Every recorded number is still recorded, and the counter has not gone back. -/
structure Extends (a b : Allocator K) : Prop where
  keeps : ∀ k o, a.recorded k = some o → b.recorded k = some o
  advances : a.next ≤ b.next

theorem Extends.refl (a : Allocator K) : Extends a a := ⟨fun _ _ h => h, Int.le_refl _⟩

theorem Extends.trans {a b c : Allocator K} (ab : Extends a b) (bc : Extends b c) :
    Extends a c :=
  ⟨fun k o h => bc.keeps k o (ab.keeps k o h), Int.le_trans ab.advances bc.advances⟩

/-- Distinct numbers for distinct keys, wherever in the two spans they lie. -/
theorem Sound.distinct {span : K → Int} {first limit : Int} {a : Allocator K}
    (sound : Sound span first limit a) {k l : K} {o p i j : Int}
    (hk : a.recorded k = some o) (hl : a.recorded l = some p) (different : k ≠ l)
    (i_low : 0 ≤ i) (i_high : i < span k) (j_low : 0 ≤ j) (j_high : j < span l) :
    o + i ≠ p + j := by
  obtain below | below := sound.apart k l o p hk hl different
  · omega
  · omega

variable [DecidableEq K]

def resolve (a : Allocator K) (k : K) : Option Int × Allocator K :=
  match a.recorded k with
  | some o => (some o, a)
  | none =>
    if a.next + span k ≤ limit then
      (some a.next, ⟨Function.update a.recorded k (some a.next), a.next + span k⟩)
    else (none, a)

variable {span first limit}

theorem resolve_recorded {a : Allocator K} {k : K} {o : Int} (seen : a.recorded k = some o) :
    resolve span limit a k = (some o, a) := by
  simp only [resolve, seen]

theorem resolve_fresh {a : Allocator K} {k : K} (unseen : a.recorded k = none)
    (fits : a.next + span k ≤ limit) :
    resolve span limit a k =
      (some a.next, ⟨Function.update a.recorded k (some a.next), a.next + span k⟩) := by
  simp only [resolve, unseen, if_pos fits]

theorem resolve_exhausted {a : Allocator K} {k : K} (unseen : a.recorded k = none)
    (full : ¬ a.next + span k ≤ limit) : resolve span limit a k = (none, a) := by
  simp only [resolve, unseen, if_neg full]

/-- Everything one resolution can do: return a record, make one, or refuse. -/
theorem resolve_cases (span : K → Int) (limit : Int) (a : Allocator K) (k : K) :
    (∃ o, a.recorded k = some o ∧ resolve span limit a k = (some o, a)) ∨
    (a.recorded k = none ∧ a.next + span k ≤ limit ∧ resolve span limit a k =
      (some a.next, ⟨Function.update a.recorded k (some a.next), a.next + span k⟩)) ∨
    (a.recorded k = none ∧ ¬ a.next + span k ≤ limit ∧ resolve span limit a k = (none, a)) := by
  cases seen : a.recorded k with
  | some o => exact .inl ⟨o, rfl, resolve_recorded seen⟩
  | none =>
    by_cases fits : a.next + span k ≤ limit
    · exact .inr (.inl ⟨rfl, fits, resolve_fresh seen fits⟩)
    · exact .inr (.inr ⟨rfl, fits, resolve_exhausted seen fits⟩)

theorem resolve_extends (positive : ∀ k, 0 < span k) (a : Allocator K) (k : K) :
    Extends a (resolve span limit a k).2 := by
  obtain ⟨o, _, eq⟩ | ⟨unseen, _, eq⟩ | ⟨_, _, eq⟩ := resolve_cases span limit a k
  · rw [eq]; exact Extends.refl a
  · rw [eq]
    refine ⟨?_, by have := positive k; simp only; omega⟩
    intro l o seen
    have other : l ≠ k := fun same => by rw [same, unseen] at seen; cases seen
    simpa only [Function.update_of_ne other] using seen
  · rw [eq]; exact Extends.refl a

/-- An answered key is recorded under the number it was answered with. -/
theorem resolve_records {a : Allocator K} {k : K} {o : Int}
    (answered : (resolve span limit a k).1 = some o) :
    (resolve span limit a k).2.recorded k = some o := by
  obtain ⟨p, seen, eq⟩ | ⟨_, _, eq⟩ | ⟨_, _, eq⟩ := resolve_cases span limit a k
  · rw [eq] at answered ⊢
    exact seen.trans answered
  · rw [eq] at answered ⊢
    simpa only [Function.update_self] using answered
  · rw [eq] at answered; cases answered

theorem resolve_sound (positive : ∀ k, 0 < span k) {a : Allocator K}
    (sound : Sound span first limit a) (k : K) :
    Sound span first limit (resolve span limit a k).2 := by
  obtain ⟨o, _, eq⟩ | ⟨unseen, fits, eq⟩ | ⟨_, _, eq⟩ := resolve_cases span limit a k
  · rw [eq]; exact sound
  · rw [eq]
    have grows := positive k
    -- a record of the new state is either an old one or the span just taken
    have old : ∀ l o, Function.update a.recorded k (some a.next) l = some o →
        (l = k ∧ o = a.next) ∨ (l ≠ k ∧ a.recorded l = some o) := by
      intro l o h
      by_cases same : l = k
      · subst same
        rw [Function.update_self] at h
        exact .inl ⟨rfl, (Option.some.inj h).symm⟩
      · rw [Function.update_of_ne same] at h
        exact .inr ⟨same, h⟩
    refine ⟨?_, ?_, ?_, ?_, fits⟩
    · intro l o h
      obtain ⟨_, rfl⟩ | ⟨_, h⟩ := old l o h
      · exact sound.started
      · exact sound.above l o h
    · intro l o h
      obtain ⟨rfl, rfl⟩ | ⟨_, h⟩ := old l o h
      · exact Int.le_refl _
      · have := sound.below l o h
        simp only
        omega
    · intro l m o p hl hm different
      obtain ⟨rfl, rfl⟩ | ⟨_, before⟩ := old l o hl
      · obtain ⟨rfl, rfl⟩ | ⟨_, before'⟩ := old m p hm
        · exact absurd rfl different
        · exact .inr (sound.below m p before')
      · obtain ⟨rfl, rfl⟩ | ⟨_, before'⟩ := old m p hm
        · exact .inl (sound.below l o before)
        · exact sound.apart l m o p before before' different
    · have := sound.started
      simp only
      omega
  · rw [eq]; exact sound

end Allocator

end PgCatalog.Library
