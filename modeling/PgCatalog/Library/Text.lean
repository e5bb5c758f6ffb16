import Mathlib.Data.List.Basic
import Mathlib.Data.List.TakeWhile

/-! Text as lists of characters: white space, trimming, splitting at a character, and
comparison without regard to ASCII case. -/
namespace PgCatalog.Library

/-- The characters Unicode counts as white space. -/
def isWhiteSpace (c : Char) : Bool :=
  c.toNat ∈ [0x20, 0x85, 0xa0, 0x1680, 0x2028, 0x2029, 0x202f, 0x205f, 0x3000] ||
    (0x09 ≤ c.toNat && c.toNat ≤ 0x0d) || (0x2000 ≤ c.toNat && c.toNat ≤ 0x200a)

/-- Without the elements at either end that `p` holds of. -/
def trimmed {α : Type} (p : α → Bool) (xs : List α) : List α :=
  ((xs.dropWhile p).reverse.dropWhile p).reverse

def trim (text : String) : String := String.ofList (trimmed isWhiteSpace text.toList)

def trimMatches (c : Char) (text : String) : String := String.ofList (trimmed (· = c) text.toList)

def split (c : Char) (text : String) : List String := (text.toList.splitOn c).map String.ofList

def eqIgnoreAsciiCase (a b : String) : Bool := a.toLower = b.toLower

theorem toList_toLower (text : String) : text.toLower.toList = text.toList.map Char.toLower :=
  String.toList_map

theorem eqIgnoreAsciiCase_toList (a b : String) : eqIgnoreAsciiCase a b =
    decide (a.toList.map Char.toLower = b.toList.map Char.toLower) := by
  rw [eqIgnoreAsciiCase, ← toList_toLower, ← toList_toLower]
  exact decide_eq_decide.mpr String.toList_inj.symm

theorem toLower_char (c : Char) : c.toLower.toLower = c.toLower := by
  unfold Char.toLower
  split
  · next upper =>
    have low : 65 ≤ c.val.toNat := upper.1
    have high : c.val.toNat ≤ 90 := upper.2
    have moved : (c.val + 32).toNat = c.val.toNat + 32 := by
      rw [UInt32.toNat_add]
      exact Nat.mod_eq_of_lt (by change c.val.toNat + 32 < _; omega)
    apply dif_neg
    rintro ⟨_, again⟩
    have small : (c.val + 32).toNat ≤ 90 := again
    omega
  · rfl

theorem toLower_toLower (text : String) : text.toLower.toLower = text.toLower := by
  have each : Char.toLower ∘ Char.toLower = Char.toLower := funext toLower_char
  rw [← String.toList_inj, toList_toLower, toList_toLower, List.map_map, each]

section
variable {α : Type} {p : α → Bool} {xs : List α}

theorem trimmed_sublist : List.Sublist (trimmed p xs) xs := by
  have inner : List.Sublist (trimmed p xs) ((xs.dropWhile p).reverse).reverse :=
    (List.dropWhile_sublist p).reverse
  rw [List.reverse_reverse] at inner
  exact inner.trans (List.dropWhile_sublist p)

theorem trimmed_cons (first : α) (drops : p first = true) :
    trimmed p (first :: xs) = trimmed p xs := by
  rw [trimmed, List.dropWhile_cons_of_pos drops, trimmed]

theorem dropWhile_eq_self {p : α → Bool} {xs : List α} :
    xs.dropWhile p = xs ↔ ∀ x ∈ xs.head?, p x = false := by
  cases xs with
  | nil => simp
  | cons first rest =>
    rw [List.dropWhile_eq_self_iff]
    simp

/-- Nothing is trimmed off a list exactly if neither of its ends drops. -/
theorem trimmed_eq_self :
    trimmed p xs = xs ↔ (∀ x ∈ xs.head?, p x = false) ∧ ∀ x ∈ xs.getLast?, p x = false := by
  have last : xs.reverse.dropWhile p = xs.reverse ↔ ∀ x ∈ xs.getLast?, p x = false := by
    rw [dropWhile_eq_self, List.head?_reverse]
  constructor
  · intro kept
    have long : xs.length ≤ (xs.dropWhile p).length := by
      have shorter : (trimmed p xs).length ≤ (xs.dropWhile p).length := by
        rw [trimmed, List.length_reverse, ← @List.length_reverse _ (xs.dropWhile p)]
        exact (List.dropWhile_sublist p).length_le
      rw [kept] at shorter
      exact shorter
    have whole := (List.dropWhile_sublist p).eq_of_length_le long
    refine ⟨dropWhile_eq_self.mp whole, last.mp ?_⟩
    rw [trimmed, whole] at kept
    rw [← List.reverse_inj, kept, List.reverse_reverse]
  · rintro ⟨first, final⟩
    rw [trimmed, dropWhile_eq_self.mpr first, last.mpr final, List.reverse_reverse]

theorem trimmed_trimmed : trimmed p (trimmed p xs) = trimmed p xs := by
  have drops : ∀ ys : List α, ∀ x ∈ (ys.dropWhile p).head?, p x = false := by
    intro ys x first
    have begins := List.head?_dropWhile_not p ys
    rw [first] at begins
    exact begins
  refine trimmed_eq_self.mpr ⟨fun x first => ?_, fun x last => ?_⟩
  · -- What is left begins as the list without its own beginning does.
    have start : trimmed p xs <+: xs.dropWhile p := by
      rw [trimmed, ← List.reverse_suffix, List.reverse_reverse]
      exact List.dropWhile_suffix p
    obtain ⟨rest, whole⟩ := start
    refine drops xs x ?_
    rw [← whole]
    cases kept : trimmed p xs with
    | nil =>
      rw [kept] at first
      cases first
    | cons y ys =>
      rw [kept] at first
      exact first
  · rw [trimmed, List.getLast?_reverse] at last
    exact drops _ x last

end

/-- A text has at least as many bytes as characters. -/
theorem length_le_utf8ByteSize (text : String) : text.toList.length ≤ text.utf8ByteSize := by
  have chars : ∀ cs : List Char, cs.length ≤ (String.ofList cs).utf8ByteSize := by
    intro cs
    induction cs with
    | nil => exact Nat.zero_le _
    | cons c rest ih =>
      have split_ : String.ofList (c :: rest) = String.singleton c ++ String.ofList rest := by
        rw [String.singleton_eq_ofList, ← String.ofList_append]
        rfl
      have size := c.utf8Size_pos
      rw [split_, String.utf8ByteSize_append, String.utf8ByteSize_singleton, List.length_cons]
      omega
  have own := chars text.toList
  rwa [String.ofList_toList] at own

theorem trim_trim (text : String) : trim (trim text) = trim text := by
  unfold trim
  rw [String.toList_ofList, trimmed_trimmed]

theorem trim_sublist (text : String) : List.Sublist (trim text).toList text.toList := by
  rw [trim, String.toList_ofList]
  exact trimmed_sublist

theorem trimMatches_sublist (c : Char) (text : String) :
    List.Sublist (trimMatches c text).toList text.toList := by
  rw [trimMatches, String.toList_ofList]
  exact trimmed_sublist

theorem not_mem_splitOn (c : Char) (xs : List Char) : ∀ piece ∈ xs.splitOn c, c ∉ piece := by
  induction xs with
  | nil =>
    rw [List.splitOn_nil]
    simp
  | cons x rest ih =>
    rw [List.splitOn_cons_eq_if_modifyHead]
    split
    · intro piece member
      obtain rfl | later := List.mem_cons.mp member
      · exact List.not_mem_nil
      · exact ih piece later
    · rename_i other
      cases pieces : rest.splitOn c with
      | nil => exact absurd pieces (List.splitOn_ne_nil c rest)
      | cons first later =>
        rw [pieces] at ih
        intro piece member
        obtain rfl | member := List.mem_cons.mp member
        · intro inside
          obtain rfl | inside := List.mem_cons.mp inside
          · exact other (BEq.refl _)
          · exact ih first List.mem_cons_self inside
        · exact ih piece (List.mem_cons_of_mem _ member)

section
variable {α β : Type} {f : α → List β}

theorem length_flatMap_le {xs : List α} (short : ∀ x ∈ xs, (f x).length ≤ 1) :
    (xs.flatMap f).length ≤ xs.length := by
  induction xs with
  | nil => exact le_refl _
  | cons x rest ih =>
    have later := ih fun y member => short y (List.mem_cons_of_mem _ member)
    have first := short x List.mem_cons_self
    rw [List.flatMap_cons, List.length_append, List.length_cons]
    omega

/-- Where every item gives at most one and all together are those of `g`, each gives its own. -/
theorem flatMap_eq_map {g : α → β} {xs : List α} (short : ∀ x ∈ xs, (f x).length ≤ 1)
    (same : xs.flatMap f = xs.map g) : ∀ x ∈ xs, f x = [g x] := by
  induction xs with
  | nil => exact nofun
  | cons x rest ih =>
    have shortRest := fun y member => short y (List.mem_cons_of_mem _ member)
    have count := congrArg List.length same
    rw [List.flatMap_cons, List.length_append, List.map_cons, List.length_cons,
      List.length_map] at count
    have first := short x List.mem_cons_self
    have later := length_flatMap_le shortRest
    obtain ⟨y, one⟩ := List.length_eq_one_iff.mp (by omega : (f x).length = 1)
    rw [List.flatMap_cons, List.map_cons, one, List.singleton_append, List.cons.injEq] at same
    intro z member
    obtain rfl | member := List.mem_cons.mp member
    · rw [one, same.1]
    · exact ih shortRest same.2 z member

/-- Where each item gives as many, all together are the same only if each gives the same. -/
theorem flatMap_inj_left {g : α → List β} {xs : List α}
    (long : ∀ x ∈ xs, (f x).length = (g x).length) :
    xs.flatMap f = xs.flatMap g ↔ ∀ x ∈ xs, f x = g x := by
  induction xs with
  | nil => exact iff_of_true rfl nofun
  | cons x rest ih =>
    rw [List.flatMap_cons, List.flatMap_cons, List.forall_mem_cons,
      ← ih fun y member => long y (List.mem_cons_of_mem _ member)]
    exact ⟨fun same => List.append_inj same (long x List.mem_cons_self),
      fun both => by rw [both.1, both.2]⟩

end

end PgCatalog.Library
