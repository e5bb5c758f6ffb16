import PgCatalog.Library.Regroup

/-! Values put where none stands. A loop that refuses a taken place is known by what it places:
the loops compose, and one level of a nested loop places under its own key. -/
namespace PgCatalog.Library.Placing

variable {κ ι ν σ ω ε : Type}

/-- The places differ, and nothing stands on them. -/
def Fits (board : κ → Option ν) (items : List (κ × ν)) : Prop :=
  (items.map (·.1)).Nodup ∧ ∀ item ∈ items, board item.1 = none

/-- What the items put on a place. -/
def put [DecidableEq κ] (items : List (κ × ν)) (k : κ) : Option ν :=
  (items.find? fun item => item.1 = k).map (·.2)

/-- The board with the items on it. -/
def place [DecidableEq κ] (board : κ → Option ν) (items : List (κ × ν)) : κ → Option ν :=
  fun k => (board k).or (put items k)

theorem fits_nil {board : κ → Option ν} : Fits board [] := ⟨List.nodup_nil, by simp⟩

section
variable [DecidableEq κ] {board : κ → Option ν} {first second : List (κ × ν)}

theorem put_cons (item : κ × ν) (rest : List (κ × ν)) (k : κ) :
    put (item :: rest) k = if item.1 = k then some item.2 else put rest k := by
  unfold put
  rw [List.find?_cons]
  by_cases here : item.1 = k
  · simp [here]
  · simp [here]

theorem put_append (k : κ) : put (first ++ second) k = (put first k).or (put second k) := by
  unfold put
  rw [List.find?_append]
  cases first.find? fun item => item.1 = k <;> rfl

theorem put_eq_none {items : List (κ × ν)} {k : κ} :
    put items k = none ↔ k ∉ items.map (·.1) := by
  induction items with
  | nil => simp [put]
  | cons item rest ih =>
    rw [put_cons, List.map_cons, List.mem_cons, not_or, ← ih]
    by_cases here : item.1 = k
    · simp [here]
    · simp [here, Ne.symm here]

theorem mem_of_put {items : List (κ × ν)} {k : κ} {v : ν} (found : put items k = some v) :
    (k, v) ∈ items := by
  obtain ⟨item, there, rfl⟩ := Option.map_eq_some_iff.mp found
  have same := List.find?_some there
  rw [decide_eq_true_eq] at same
  rw [← same]
  exact List.mem_of_find?_eq_some there

theorem put_of_mem {items : List (κ × ν)} (distinct : (items.map (·.1)).Nodup) {k : κ} {v : ν}
    (member : (k, v) ∈ items) : put items k = some v := by
  induction items with
  | nil => cases member
  | cons item rest ih =>
    rw [List.map_cons, List.nodup_cons] at distinct
    rw [put_cons]
    obtain rfl | inside := List.mem_cons.mp member
    · simp
    · have apart : item.1 ≠ k := by
        rintro rfl
        exact distinct.1 (List.mem_map.mpr ⟨_, inside, rfl⟩)
      rw [if_neg apart]
      exact ih distinct.2 inside

theorem place_nil : place board [] = board := by
  funext k
  simp [place, put]

theorem place_append : place board (first ++ second) = place (place board first) second := by
  funext k
  simp [place, put_append, Option.or_assoc]

theorem fits_append :
    Fits board (first ++ second) ↔ Fits board first ∧ Fits (place board first) second := by
  have free : ∀ item : κ × ν, place board first item.1 = none ↔
      board item.1 = none ∧ item.1 ∉ first.map (·.1) := by
    intro item
    rw [place, Option.or_eq_none_iff, put_eq_none]
  unfold Fits
  simp only [free, List.map_append, List.nodup_append, List.mem_append]
  constructor
  · rintro ⟨⟨one, two, apart⟩, all⟩
    refine ⟨⟨one, fun item member => all item (.inl member)⟩, two, fun item member => ?_⟩
    refine ⟨all item (.inr member), fun inside => ?_⟩
    exact apart _ inside _ (List.mem_map.mpr ⟨item, member, rfl⟩) rfl
  · rintro ⟨⟨one, before⟩, two, after⟩
    refine ⟨⟨one, two, ?_⟩, ?_⟩
    · rintro k inside _ member rfl
      obtain ⟨item, there, rfl⟩ := List.mem_map.mp member
      exact (after item there).2 inside
    · rintro item (member | member)
      · exact before item member
      · exact (after item member).1

end

/-- Values picked from a list go to different places exactly if no two of the list go to one. -/
theorem nodup_picked {α : Type} {list : List α} (distinct : list.Nodup)
    (pick : α → Option (κ × ν)) : ((list.filterMap pick).map (·.1)).Nodup ↔
      ∀ a ∈ list, ∀ b ∈ list, ∀ k v w, pick a = some (k, v) → pick b = some (k, w) → a = b := by
  unfold List.Nodup
  rw [List.pairwise_map, List.pairwise_filterMap]
  constructor
  · intro pairs a here b there k v w one two
    have symmetric : Std.Symm fun a b : α => ∀ x, pick a = some x → ∀ y, pick b = some y →
        x.1 ≠ y.1 := ⟨fun a b differ x one y two same => differ y two x one same.symm⟩
    by_contra apart
    exact pairs.forall here there apart _ one _ two rfl
  · intro same
    refine distinct.pairwise_of_forall_ne ?_
    rintro a here b there apart ⟨k, v⟩ one ⟨_, w⟩ two rfl
    exact apart (same a here b there k v w one two)

/-- A step that places the items and writes what it is to write whenever they fit, and names the
place of one of them where they do not. -/
structure Places [DecidableEq κ] (look : σ → κ → Option ν) (taken : κ → ε)
    (run : σ × List ω → Except ε (σ × List ω)) (items : List (κ × ν)) (out : List ω) : Prop where
  sound : ∀ {before after}, run before = .ok after →
    Fits (look before.1) items ∧ look after.1 = place (look before.1) items ∧
      after.2 = before.2 ++ out
  ready : ∀ before, Fits (look before.1) items → ∃ after, run before = .ok after
  refused : ∀ {before e}, run before = .error e → ∃ item ∈ items, e = taken item.1

namespace Places
variable [DecidableEq κ] {look : σ → κ → Option ν} {taken : κ → ε}

theorem ok_bind {α β : Type} {action : Except ε α} {next : α → Except ε β} {result : β} :
    (action >>= next) = .ok result ↔ ∃ value, action = .ok value ∧ next value = .ok result := by
  cases action with
  | error e => simp [bind, Except.bind]
  | ok value => simp [bind, Except.bind]

theorem error_bind {α β : Type} {action : Except ε α} {next : α → Except ε β} {e : ε} :
    (action >>= next) = .error e ↔
      action = .error e ∨ ∃ value, action = .ok value ∧ next value = .error e := by
  cases action with
  | error e => simp [bind, Except.bind]
  | ok value => simp [bind, Except.bind]

theorem nothing : Places look taken (.ok : σ × List ω → Except ε (σ × List ω)) [] [] where
  sound := by
    rintro before _ ⟨⟩
    exact ⟨fits_nil, place_nil.symm, (List.append_nil _).symm⟩
  ready := fun _ _ => ⟨_, rfl⟩
  refused := by
    rintro before e ⟨⟩

/-- One step after the other. -/
theorem andThen {run next : σ × List ω → Except ε (σ × List ω)} {items items' : List (κ × ν)}
    {out out' : List ω} (one : Places look taken run items out) (two : Places look taken next items' out') :
    Places look taken (fun s => run s >>= next) (items ++ items') (out ++ out') where
  sound := by
    intro before after ran
    obtain ⟨middle, ran, later⟩ := ok_bind.mp ran
    obtain ⟨fits, places, wrote⟩ := one.sound ran
    obtain ⟨fits', places', wrote'⟩ := two.sound later
    rw [places] at fits' places'
    exact ⟨fits_append.mpr ⟨fits, fits'⟩, by rw [places', place_append],
      by rw [wrote', wrote, List.append_assoc]⟩
  ready := by
    intro before fits
    obtain ⟨fits, fits'⟩ := fits_append.mp fits
    obtain ⟨middle, ran⟩ := one.ready before fits
    rw [← (one.sound ran).2.1] at fits'
    obtain ⟨after, later⟩ := two.ready middle fits'
    exact ⟨after, ok_bind.mpr ⟨middle, ran, later⟩⟩
  refused := by
    intro before e failed
    obtain failed | ⟨middle, -, failed⟩ := error_bind.mp failed
    · obtain ⟨item, member, same⟩ := one.refused failed
      exact ⟨item, List.mem_append_left _ member, same⟩
    · obtain ⟨item, member, same⟩ := two.refused failed
      exact ⟨item, List.mem_append_right _ member, same⟩

/-- A loop places what its rounds place. -/
theorem loop {ι : Type} {step : σ × List ω → ι → Except ε (σ × List ω)}
    {items : ι → List (κ × ν)} {out : ι → List ω} (list : List ι)
    (each : ∀ i ∈ list, Places look taken (step · i) (items i) (out i)) :
    Places look taken (fun s => list.foldlM step s) (list.flatMap items) (list.flatMap out) := by
  induction list with
  | nil => exact nothing
  | cons i rest ih =>
    have first := each i List.mem_cons_self
    have later := ih fun j member => each j (List.mem_cons_of_mem _ member)
    exact first.andThen later

end Places

/-- What stands in a map of boards: under a key of the map and a key of the board. -/
def lookWithin [DecidableEq ι] (look : σ → κ → Option ν) (m : HashMap ι σ) : ι × κ → Option ν :=
  fun place => (m.lookup place.1).bind (look · place.2)

theorem put_under [DecidableEq ι] [DecidableEq κ] (i : ι) (items : List (κ × ν)) (k : ι × κ) :
    put (items.map fun item => ((i, item.1), item.2)) k = if k.1 = i then put items k.2 else none := by
  obtain ⟨j, k⟩ := k
  by_cases same : j = i
  · subst same
    rw [if_pos rfl]
    induction items with
    | nil => rfl
    | cons item rest ih => simp [put_cons, ih]
  · rw [if_neg same, put_eq_none]
    simp [Ne.symm same]

/-- A step on one value of a map, made where it is missing. -/
theorem Places.within [DecidableEq ι] [DecidableEq κ] {look : σ → κ → Option ν} {taken : κ → ε}
    {empty : σ} (blank : ∀ k, look empty k = none) {run : σ × List ω → Except ε (σ × List ω)}
    {items : List (κ × ν)} {out : List ω} (places : Places look taken run items out) (i : ι) :
    Places (lookWithin look) (fun place => taken place.2)
      (fun s : HashMap ι σ × List ω => do
        let (value, written) ← run ((s.1.lookup i).getD empty, s.2)
        return (s.1.insert i value, written))
      (items.map fun item => ((i, item.1), item.2)) out := by
  have there : ∀ (m : HashMap ι σ) k, lookWithin look m (i, k) =
      look ((m.lookup i).getD empty) k := by
    intro m k
    simp only [lookWithin]
    cases m.lookup i with
    | none => exact (blank k).symm
    | some value => rfl
  have fits : ∀ m : HashMap ι σ,
      Fits (lookWithin look m) (items.map fun item => ((i, item.1), item.2)) ↔
        Fits (look ((m.lookup i).getD empty)) items := by
    intro m
    unfold Fits
    simp only [List.map_map, List.forall_mem_map, there]
    have injective : Function.Injective fun k : κ => (i, k) := fun k k' same => (Prod.mk.inj same).2
    have keys : items.map ((·.1) ∘ fun item : κ × ν => ((i, item.1), item.2)) =
        (items.map (·.1)).map fun k => (i, k) := by simp
    rw [keys, List.nodup_map_iff injective]
  constructor
  · rintro ⟨m, w⟩ after ran
    obtain ⟨⟨value, written⟩, inner, same⟩ := Places.ok_bind.mp ran
    obtain rfl := Except.ok.inj same
    obtain ⟨fitting, placed, wrote⟩ := places.sound inner
    refine ⟨(fits m).mpr fitting, ?_, wrote⟩
    funext ⟨j, k⟩
    by_cases here : j = i
    · subst here
      have here := there (m.insert j value) k
      rw [AList.lookup_insert] at here
      rw [here, place, put_under, if_pos rfl, there]
      exact congrFun placed k
    · rw [place, put_under, if_neg here, Option.or_none]
      simp only [lookWithin, AList.lookup_insert_ne here]
  · rintro ⟨m, w⟩ fitting
    obtain ⟨⟨value, written⟩, ran⟩ := places.ready ((m.lookup i).getD empty, w) ((fits m).mp fitting)
    exact ⟨_, Places.ok_bind.mpr ⟨_, ran, rfl⟩⟩
  · rintro before e failed
    obtain failed | ⟨after, -, failed⟩ := Places.error_bind.mp failed
    · obtain ⟨item, member, rfl⟩ := places.refused failed
      exact ⟨_, List.mem_map.mpr ⟨item, member, rfl⟩, rfl⟩
    · cases failed

end PgCatalog.Library.Placing
