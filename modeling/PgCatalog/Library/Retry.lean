import Mathlib.Data.List.Nodup
import Mathlib.Data.Set.Basic
import Mathlib.Order.FixedPoints
import Mathlib.Order.CompletePartialOrder

/-! Building things that need one another: what can be built next from what is there, where
more there never hinders, and what can be built at all. -/
namespace PgCatalog.Library

variable {V : Type}

/-- What can be built from a set; more of them never hinder. -/
structure Buildability (V : Type) where
  able : Set V → V → Prop
  monotone : ∀ {C C' : Set V} {v : V}, C ⊆ C' → able C v → able C' v

namespace Buildability
variable (b : Buildability V)

/-- Each of a list can be built from those built before it. -/
def Order (built : List V) : List V → Prop
  | [] => True
  | v :: rest => b.able {x | x ∈ built} v ∧ Order (built ++ [v]) rest

/-- What one round adds to a set. -/
def round (things : List V) : Set V →o Set V where
  toFun C := {v | v ∈ things ∧ b.able C v}
  monotone' _ _ grows _ member := ⟨member.1, b.monotone grows member.2⟩

/-- All that can be built of a list, in any number of rounds. -/
def reach (things : List V) : Set V := (b.round things).lfp

variable {b}

theorem Order.mono {built more : List V} (grows : ∀ v ∈ built, v ∈ more) {order : List V}
    (holds : b.Order built order) : b.Order more order := by
  induction order generalizing built more with
  | nil => trivial
  | cons v rest ih =>
    refine ⟨b.monotone (fun x member => grows x member) holds.1, ih (fun x member => ?_) holds.2⟩
    rw [List.mem_append] at member ⊢
    exact member.imp_left (grows x)

theorem Order.append {built first second : List V} (left : b.Order built first)
    (right : b.Order (built ++ first) second) : b.Order built (first ++ second) := by
  induction first generalizing built with
  | nil => rwa [List.append_nil] at right
  | cons v rest ih =>
    refine ⟨left.1, ih left.2 ?_⟩
    rwa [List.append_assoc, List.singleton_append]

/-- What is built in some order is in reach. -/
theorem Order.reach {things built order : List V} (within : ∀ v ∈ order, v ∈ things)
    (start : ∀ v ∈ built, v ∈ b.reach things) (holds : b.Order built order) :
    ∀ v ∈ order, v ∈ b.reach things := by
  induction order generalizing built with
  | nil => intro v member; cases member
  | cons w rest ih =>
    rw [List.forall_mem_cons] at within ⊢
    have first : w ∈ b.reach things := by
      rw [Buildability.reach, ← OrderHom.map_lfp]
      exact ⟨within.1, b.monotone (fun x member => start x member) holds.1⟩
    refine ⟨first, ih within.2 (fun v member => ?_) holds.2⟩
    rcases List.mem_append.mp member with member | member
    · exact start v member
    · rwa [List.mem_singleton.mp member]

/-- Where nothing more can be built, all in reach is built. -/
theorem reach_of_stuck {things built : List V}
    (stuck : ∀ v ∈ things, v ∉ built → ¬b.able {x | x ∈ built} v) :
    ∀ v ∈ b.reach things, v ∈ built := by
  have closed : b.round things {x | x ∈ built} ≤ {x | x ∈ built} := by
    rintro v ⟨member, able⟩
    by_contra missing
    exact stuck v member missing able
  exact fun v member => OrderHom.lfp_le (b.round things) closed member

/-- Where the building got stuck, what is left is what is out of reach. -/
theorem stuck_iff {things built left : List V} (holds : b.Order [] built)
    (split : (built ++ left).Perm things) (distinct : things.Nodup)
    (stuck : ∀ v ∈ left, ¬b.able {x | x ∈ built} v) (v : V) :
    v ∈ left ↔ v ∈ things ∧ v ∉ b.reach things := by
  have apart := (List.nodup_append.mp (split.nodup_iff.mpr distinct)).2.2
  have within : ∀ v ∈ built, v ∈ things := fun v member =>
    split.mem_iff.mp (List.mem_append_left _ member)
  constructor
  · intro member
    refine ⟨split.mem_iff.mp (List.mem_append_right _ member), fun reached => ?_⟩
    refine apart v (reach_of_stuck (fun w thing missing => ?_) v reached) v member rfl
    rcases List.mem_append.mp (split.mem_iff.mpr thing) with there | rest
    · exact absurd there missing
    · exact stuck w rest
  · rintro ⟨thing, unreached⟩
    rcases List.mem_append.mp (split.mem_iff.mpr thing) with there | rest
    · exact absurd (holds.reach within (List.forall_mem_nil _) v there) unreached
    · exact rest

end Buildability

end PgCatalog.Library
