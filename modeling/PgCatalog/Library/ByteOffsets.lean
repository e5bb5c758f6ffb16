import Mathlib.Data.List.Basic

/-! Text addressed by UTF-8 byte offsets: a slice exists only between offsets at which
characters start. -/
namespace PgCatalog.Library

def byteLength : List Char → Nat
  | [] => 0
  | c :: rest => c.utf8Size + byteLength rest

/-- The text from an offset on, where a character starts there. -/
def dropBytes (n : Nat) : List Char → Option (List Char)
  | [] => if n = 0 then some [] else none
  | c :: rest =>
    if n = 0 then some (c :: rest)
    else if c.utf8Size ≤ n then dropBytes (n - c.utf8Size) rest else none

/-- The text of a length, where a character ends there. -/
def takeBytes (n : Nat) : List Char → Option (List Char)
  | [] => if n = 0 then some [] else none
  | c :: rest =>
    if n = 0 then some []
    else if c.utf8Size ≤ n then (takeBytes (n - c.utf8Size) rest).map (c :: ·) else none

/-- The text between two offsets. -/
def sliceBytes (start length : Nat) (text : List Char) : Option (List Char) :=
  (dropBytes start text).bind (takeBytes length)

/-- What stands before and after the first place where a pattern stands. -/
def cutAt (pattern : List Char) : List Char → Option (List Char × List Char)
  | [] => if pattern = [] then some ([], []) else none
  | c :: rest =>
    if pattern <+: c :: rest then some ([], (c :: rest).drop pattern.length)
    else (cutAt pattern rest).map fun parts => (c :: parts.1, parts.2)

theorem dropBytes_zero (text : List Char) : dropBytes 0 text = some text := by
  cases text <;> rfl

theorem takeBytes_zero (text : List Char) : takeBytes 0 text = some [] := by
  cases text <;> rfl

theorem dropBytes_eq_some {n : Nat} {text rest : List Char} :
    dropBytes n text = some rest ↔ ∃ before, text = before ++ rest ∧ byteLength before = n := by
  induction text generalizing n with
  | nil =>
    rw [dropBytes]
    constructor
    · intro found
      split at found
      · next zero => exact ⟨[], (Option.some.inj found), zero.symm⟩
      · cases found
    · rintro ⟨before, whole, rfl⟩
      obtain ⟨rfl, rfl⟩ := List.append_eq_nil_iff.mp whole.symm
      rfl
  | cons c later ih =>
    have positive := c.utf8Size_pos
    rw [dropBytes]
    constructor
    · intro found
      split at found
      · next zero => exact ⟨[], (Option.some.inj found), zero.symm⟩
      split at found
      · next fits =>
        obtain ⟨before, rfl, long⟩ := ih.mp found
        refine ⟨c :: before, rfl, ?_⟩
        rw [byteLength, long]
        omega
      · cases found
    · rintro ⟨before, whole, rfl⟩
      cases before with
      | nil =>
        rw [byteLength, if_pos rfl]
        exact congrArg some whole
      | cons d before =>
        obtain ⟨rfl, rfl⟩ := List.cons.inj whole
        rw [byteLength, if_neg (by omega), if_pos (Nat.le_add_right _ _), Nat.add_sub_cancel_left]
        exact ih.mpr ⟨before, rfl, rfl⟩

theorem takeBytes_eq_some {n : Nat} {text taken : List Char} :
    takeBytes n text = some taken ↔ ∃ after, text = taken ++ after ∧ byteLength taken = n := by
  induction text generalizing n taken with
  | nil =>
    rw [takeBytes]
    constructor
    · intro found
      split at found
      · next zero =>
        obtain rfl := Option.some.inj found
        exact ⟨[], rfl, zero.symm⟩
      · cases found
    · rintro ⟨after, whole, rfl⟩
      obtain ⟨rfl, rfl⟩ := List.append_eq_nil_iff.mp whole.symm
      rfl
  | cons c later ih =>
    have positive := c.utf8Size_pos
    rw [takeBytes]
    constructor
    · intro found
      split at found
      · next zero =>
        obtain rfl := Option.some.inj found
        exact ⟨c :: later, rfl, zero.symm⟩
      split at found
      · next fits =>
        obtain ⟨inner, rest, rfl⟩ := Option.map_eq_some_iff.mp found
        obtain ⟨after, rfl, long⟩ := ih.mp rest
        refine ⟨after, rfl, ?_⟩
        rw [byteLength, long]
        omega
      · cases found
    · rintro ⟨after, whole, rfl⟩
      cases taken with
      | nil => rw [byteLength, if_pos rfl]
      | cons d taken =>
        obtain ⟨rfl, rfl⟩ := List.cons.inj whole
        rw [byteLength, if_neg (by omega), if_pos (Nat.le_add_right _ _),
          Nat.add_sub_cancel_left, ih.mpr ⟨after, rfl, rfl⟩, Option.map_some]

/-- A slice is what stands between texts of the right lengths. -/
theorem sliceBytes_eq_some {start length : Nat} {text slice : List Char} :
    sliceBytes start length text = some slice ↔ ∃ before after,
      text = before ++ slice ++ after ∧ byteLength before = start ∧ byteLength slice = length := by
  constructor
  · intro found
    obtain ⟨rest, dropped, taken⟩ := Option.bind_eq_some_iff.mp found
    obtain ⟨before, rfl, first⟩ := dropBytes_eq_some.mp dropped
    obtain ⟨after, rfl, second⟩ := takeBytes_eq_some.mp taken
    exact ⟨before, after, (List.append_assoc _ _ _).symm, first, second⟩
  · rintro ⟨before, after, rfl, rfl, rfl⟩
    refine Option.bind_eq_some_iff.mpr ⟨slice ++ after, ?_, takeBytes_eq_some.mpr ⟨after, rfl, rfl⟩⟩
    exact dropBytes_eq_some.mpr ⟨before, List.append_assoc _ _ _, rfl⟩

theorem byteLength_append (xs ys : List Char) :
    byteLength (xs ++ ys) = byteLength xs + byteLength ys := by
  induction xs with
  | nil => exact (Nat.zero_add _).symm
  | cons c rest ih => rw [List.cons_append, byteLength, byteLength, ih, Nat.add_assoc]

/-- What a cut leaves out is the pattern. -/
theorem cutAt_eq_some {pattern text before after : List Char}
    (found : cutAt pattern text = some (before, after)) : text = before ++ pattern ++ after := by
  induction text generalizing before with
  | nil =>
    rw [cutAt] at found
    split at found
    · next empty =>
      obtain ⟨rfl, rfl⟩ := Prod.mk.inj (Option.some.inj found)
      rw [empty]
      rfl
    · cases found
  | cons c rest ih =>
    rw [cutAt] at found
    split at found
    · next starts =>
      obtain ⟨rfl, rfl⟩ := Prod.mk.inj (Option.some.inj found)
      obtain ⟨later, whole⟩ := starts
      rw [← whole, List.drop_left, List.nil_append]
    · obtain ⟨parts, inside, same⟩ := Option.map_eq_some_iff.mp found
      obtain ⟨rfl, rfl⟩ := Prod.mk.inj same
      rw [List.cons_append, List.cons_append, ← ih inside]

end PgCatalog.Library
