import Mathlib.Data.List.AList

/-! A map whose values are flattened into lists of parts, written out as one list of keyed
parts, and grouped again part by part. The order of the entries is the map's own and arbitrary;
two maps are the same when their lookups are. -/
namespace PgCatalog.Library

/-- Entries of distinct keys, in the order they are iterated. -/
abbrev HashMap (κ ν : Type) := AList (fun _ : κ => ν)

namespace HashMap
variable {κ ν ε : Type} [DecidableEq κ]

/-- Puts under a key what is made of what was there. -/
def alter (m : HashMap κ ν) (k : κ) (change : Option ν → ν) : HashMap κ ν :=
  m.insert k (change (m.lookup k))

/-- Takes keyed parts in, one after the other. -/
def regroup (step : Option ν → ε → ν) (m : HashMap κ ν) (parts : List (κ × ε)) : HashMap κ ν :=
  parts.foldl (fun m part => m.alter part.1 (step · part.2)) m

/-- The parts of all values, each under its value's key. -/
def parts (m : HashMap κ ν) (split : ν → List ε) : List (κ × ε) :=
  m.entries.flatMap fun entry => (split entry.2).map (entry.1, ·)

/-- The parts under one key, in order. -/
def under (k : κ) (parts : List (κ × ε)) : List ε :=
  (parts.filter fun part => part.1 = k).map (·.2)

variable {m : HashMap κ ν} {k : κ} {step : Option ν → ε → ν}

theorem mem_entries {v : ν} : m.lookup k = some v ↔ ⟨k, v⟩ ∈ m.entries :=
  AList.mem_lookup_iff

theorem lookup_alter (change : Option ν → ν) (k' : κ) :
    (m.alter k change).lookup k' =
      if k' = k then some (change (m.lookup k)) else m.lookup k' := by
  unfold alter
  split
  · next same => rw [same, AList.lookup_insert]
  · next apart => exact AList.lookup_insert_ne apart

theorem under_cons_self (part : ε) (parts : List (κ × ε)) :
    under k ((k, part) :: parts) = part :: under k parts := by
  simp [under]

theorem under_cons_ne {k' : κ} (apart : k' ≠ k) (part : ε) (parts : List (κ × ε)) :
    under k ((k', part) :: parts) = under k parts := by
  simp [under, apart]

theorem under_append (first second : List (κ × ε)) :
    under k (first ++ second) = under k first ++ under k second := by
  simp [under]

theorem under_map (k' : κ) (parts : List ε) :
    under k (parts.map (k', ·)) = if k' = k then parts else [] := by
  unfold under
  split
  · next same => simp [same, List.filter_map, Function.comp_def]
  · next apart => simp [apart]

theorem mem_parts {split : ν → List ε} {part : ε} :
    (k, part) ∈ m.parts split ↔ ∃ v, m.lookup k = some v ∧ part ∈ split v := by
  simp only [parts, List.mem_flatMap, List.mem_map, Prod.mk.injEq]
  constructor
  · rintro ⟨⟨k', v⟩, member, part, held, rfl, rfl⟩
    exact ⟨v, mem_entries.mpr member, held⟩
  · rintro ⟨v, found, held⟩
    exact ⟨⟨k, v⟩, mem_entries.mp found, part, held, rfl, rfl⟩

theorem parts_eq_nil {split : ν → List ε} :
    m.parts split = [] ↔ ∀ k v, m.lookup k = some v → split v = [] := by
  simp only [parts, List.flatMap_eq_nil_iff, List.map_eq_nil_iff, mem_entries, Sigma.forall]

/-- Parts that differ within each value differ in the map. -/
theorem parts_nodup {τ : Type} {split : ν → List ε} {key : ε → τ}
    (each : ∀ k v, m.lookup k = some v → ((split v).map key).Nodup) :
    ((m.parts split).map fun part => (part.1, key part.2)).Nodup := by
  have keyed : (m.parts split).map (fun part => (part.1, key part.2)) =
      m.entries.flatMap fun entry => ((split entry.2).map key).map (entry.1, ·) := by
    simp [parts, List.map_flatMap, Function.comp_def]
  rw [keyed, List.nodup_flatMap]
  constructor
  · intro entry member
    refine (each entry.1 entry.2 (mem_entries.mpr member)).map ?_
    exact fun one two same => (Prod.mk.inj same).2
  · refine (List.pairwise_map.mp m.nodupKeys).imp ?_
    intro one two apart part here there
    obtain ⟨_, -, rfl⟩ := List.mem_map.mp here
    obtain ⟨_, -, same⟩ := List.mem_map.mp there
    exact apart (Prod.mk.inj same).1.symm

/-- Under a key stands what its parts make of what was there. -/
theorem lookup_regroup (m : HashMap κ ν) (step : Option ν → ε → ν) (parts : List (κ × ε)) :
    (regroup step m parts).lookup k =
      (under k parts).foldl (fun v part => some (step v part)) (m.lookup k) := by
  induction parts generalizing m with
  | nil => rfl
  | cons part parts ih =>
    obtain ⟨k', part⟩ := part
    change (regroup step (m.alter k' (step · part)) parts).lookup k = _
    rw [ih, lookup_alter]
    by_cases same : k = k'
    · obtain rfl := same
      rw [if_pos rfl, under_cons_self, List.foldl_cons]
    · rw [under_cons_ne (Ne.symm same), if_neg same]

/-- The parts under a key are those of its value. -/
theorem under_parts (m : HashMap κ ν) (split : ν → List ε) (k : κ) :
    under k (m.parts split) = ((m.lookup k).map split).getD [] := by
  obtain ⟨entries, distinct⟩ := m
  change under k (entries.flatMap _) = ((List.dlookup k entries).map split).getD []
  induction entries with
  | nil => rfl
  | cons entry rest ih =>
    obtain ⟨k', v⟩ := entry
    have tail := List.nodupKeys_cons.mp distinct
    rw [List.flatMap_cons, under_append, under_map, ih tail.2]
    by_cases same : k' = k
    · obtain rfl := same
      have absent : List.dlookup k' rest = none := List.dlookup_eq_none.mpr tail.1
      rw [List.dlookup_cons_eq, absent]
      simp
    · rw [List.dlookup_cons_ne _ _ (Ne.symm same)]
      simp [same]

/-- Grouping a map's parts makes each value from its own parts again. -/
theorem lookup_regroup_parts (m : HashMap κ ν) (step : Option ν → ε → ν) (split : ν → List ε) (k : κ) :
    (regroup step ∅ (m.parts split)).lookup k =
      (m.lookup k).bind fun v => (split v).foldl (fun v part => some (step v part)) none := by
  rw [lookup_regroup, under_parts, AList.lookup_empty]
  cases m.lookup k <;> rfl

theorem foldl_some (default : ν) (step : ν → ε → ν) (parts : List ε) (v : ν) :
    parts.foldl (fun v part => some (step (v.getD default) part)) (some v) =
      some (parts.foldl step v) := by
  induction parts generalizing v with
  | nil => rfl
  | cons part rest ih => exact ih (step v part)

/-- Takes a second map in, entry by entry. -/
def absorb {μ : Type} (step : Option ν → μ → ν) (m : HashMap κ ν) (addition : HashMap κ μ) :
    HashMap κ ν :=
  addition.entries.foldl (fun m entry => m.alter entry.1 (step · entry.2)) m

theorem lookup_absorb {μ : Type} (step : Option ν → μ → ν) (addition : HashMap κ μ) (k : κ) :
    (absorb step m addition).lookup k =
      ((addition.lookup k).map (step (m.lookup k))).or (m.lookup k) := by
  have parts : addition.parts (fun v => [v]) =
      addition.entries.map fun entry => (entry.1, entry.2) := by
    simp [HashMap.parts, ← List.map_eq_flatMap]
  have same : absorb step m addition = regroup step m (addition.parts fun v => [v]) := by
    rw [parts, regroup, List.foldl_map]
    rfl
  rw [same, lookup_regroup, under_parts]
  cases addition.lookup k <;> rfl

theorem entries_ne_nil : m.entries ≠ [] ↔ ∃ k v, m.lookup k = some v := by
  constructor
  · intro some_
    obtain ⟨entry, member⟩ := List.exists_mem_of_ne_nil _ some_
    exact ⟨entry.1, entry.2, mem_entries.mpr member⟩
  · rintro ⟨k, v, found⟩
    exact List.ne_nil_of_mem (mem_entries.mp found)

theorem absorb_ne_nil {μ : Type} {step : Option ν → μ → ν} {addition : HashMap κ μ}
    (some_ : m.entries ≠ [] ∨ addition.entries ≠ []) : (absorb step m addition).entries ≠ [] := by
  simp only [entries_ne_nil] at some_ ⊢
  obtain ⟨k, v, found⟩ | ⟨k, v, found⟩ := some_
  · refine ⟨k, ((addition.lookup k).map (step (m.lookup k))).getD v, ?_⟩
    rw [lookup_absorb, found]
    cases addition.lookup k <;> rfl
  · refine ⟨k, step (m.lookup k) v, ?_⟩
    rw [lookup_absorb, found]
    rfl

/-- What stands under a key was there before, or was made from what was added. -/
theorem lookup_absorb_cases {μ : Type} {step : Option ν → μ → ν} {addition : HashMap κ μ} {v : ν}
    (found : (absorb step m addition).lookup k = some v) :
    m.lookup k = some v ∨ ∃ added, addition.lookup k = some added ∧ v = step (m.lookup k) added := by
  rw [lookup_absorb] at found
  cases there : addition.lookup k with
  | none =>
    rw [there] at found
    exact .inl found
  | some added =>
    rw [there] at found
    exact .inr ⟨added, rfl, (Option.some.inj found).symm⟩

/-- A value that starts at a default is there once a part is. -/
theorem foldl_default (default : ν) (step : ν → ε → ν) (parts : List ε) :
    parts.foldl (fun v part => some (step (v.getD default) part)) none =
      if parts = [] then none else some (parts.foldl step default) := by
  cases parts with
  | nil => rfl
  | cons part rest => exact foldl_some default step rest (step default part)

end HashMap
end PgCatalog.Library
