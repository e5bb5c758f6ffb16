import Mathlib.Data.List.Basic

/-! Writing a mark twice inside marks: what is written reads back, alone and in a list. -/
namespace PgCatalog.Library

section
variable {α : Type} [DecidableEq α] {q : α} {xs ys rest others : List α}

/-- Every `q` is written twice. -/
def doubled (q : α) (xs : List α) : List α := xs.flatMap fun x => if x = q then [q, q] else [x]

theorem doubled_nil : doubled q [] = [] := rfl

theorem doubled_cons_self (q : α) (xs : List α) : doubled q (q :: xs) = q :: q :: doubled q xs := by
  rw [doubled, List.flatMap_cons, if_pos rfl]
  rfl

theorem doubled_cons_of_ne {x : α} (other : x ≠ q) : doubled q (x :: xs) = x :: doubled q xs := by
  rw [doubled, List.flatMap_cons, if_neg other]
  rfl

theorem mem_doubled {x : α} : x ∈ doubled q xs ↔ x ∈ xs := by
  rw [doubled, List.mem_flatMap]
  constructor
  · rintro ⟨y, member, inside⟩
    split at inside
    · rename_i same
      have written : x = q := by simpa using inside
      rwa [written, ← same]
    · rwa [List.mem_singleton.mp inside]
  · intro member
    refine ⟨x, member, ?_⟩
    split
    · rename_i same
      rw [same]
      exact List.mem_cons_self
    · exact List.mem_singleton_self x

/-- A closing mark is told from the doubled ones before it, so what it closes is determined. -/
theorem doubled_append_cancel (closed : rest.head? ≠ some q) (closed' : others.head? ≠ some q)
    (same : doubled q xs ++ q :: rest = doubled q ys ++ q :: others) : xs = ys ∧ rest = others := by
  induction xs generalizing ys with
  | nil =>
    cases ys with
    | nil => exact ⟨rfl, (List.cons.inj same).2⟩
    | cons y ys =>
      rw [doubled_nil, List.nil_append] at same
      by_cases mark : y = q
      · rw [mark, doubled_cons_self, List.cons_append, List.cons_append] at same
        rw [(List.cons.inj same).2] at closed
        exact absurd rfl closed
      · rw [doubled_cons_of_ne mark, List.cons_append] at same
        exact absurd (List.cons.inj same).1.symm mark
  | cons x xs ih =>
    cases ys with
    | nil =>
      rw [doubled_nil, List.nil_append] at same
      by_cases mark : x = q
      · rw [mark, doubled_cons_self, List.cons_append, List.cons_append] at same
        rw [← (List.cons.inj same).2] at closed'
        exact absurd rfl closed'
      · rw [doubled_cons_of_ne mark, List.cons_append] at same
        exact absurd (List.cons.inj same).1 mark
    | cons y ys =>
      have heads : x = y := by
        by_cases mark : x = q
        · by_cases mark' : y = q
          · rw [mark, mark']
          · rw [mark, doubled_cons_self, doubled_cons_of_ne mark'] at same
            exact absurd (List.cons.inj same).1.symm mark'
        · by_cases mark' : y = q
          · rw [mark', doubled_cons_self, doubled_cons_of_ne mark] at same
            exact absurd (List.cons.inj same).1 mark
          · rw [doubled_cons_of_ne mark, doubled_cons_of_ne mark'] at same
            exact (List.cons.inj same).1
      subst heads
      by_cases mark : x = q
      · rw [mark, doubled_cons_self, doubled_cons_self] at same
        obtain ⟨rfl, rests⟩ := ih (List.cons.inj (List.cons.inj same).2).2
        exact ⟨rfl, rests⟩
      · rw [doubled_cons_of_ne mark, doubled_cons_of_ne mark] at same
        obtain ⟨rfl, rests⟩ := ih (List.cons.inj same).2
        exact ⟨rfl, rests⟩

omit [DecidableEq α] in
theorem head_nil_ne (q : α) : ([] : List α).head? ≠ some q := nofun

theorem doubled_injective (q : α) : Function.Injective (doubled q) := fun _ _ same =>
  (doubled_append_cancel (head_nil_ne q) (head_nil_ne q) (congrArg (· ++ [q]) same)).1

theorem length_doubled_le : xs.length ≤ (doubled q xs).length := by
  induction xs with
  | nil => exact Nat.le_refl _
  | cons x rest ih =>
    by_cases mark : x = q
    · rw [mark, doubled_cons_self, List.length_cons, List.length_cons, List.length_cons]
      omega
    · rw [doubled_cons_of_ne mark, List.length_cons, List.length_cons]
      omega

theorem doubled_eq_self_iff : doubled q xs = xs ↔ q ∉ xs := by
  induction xs with
  | nil => exact iff_of_true rfl List.not_mem_nil
  | cons x rest ih =>
    by_cases mark : x = q
    · rw [mark]
      refine iff_of_false (fun same => ?_) (fun absent => absent List.mem_cons_self)
      rw [doubled_cons_self] at same
      have count := congrArg List.length same
      have longer := @length_doubled_le α _ q rest
      rw [List.length_cons, List.length_cons, List.length_cons] at count
      omega
    · rw [doubled_cons_of_ne mark, List.cons_inj_right, ih, List.mem_cons, not_or]
      exact ⟨fun absent => ⟨fun same => mark same.symm, absent⟩, fun both => both.2⟩

/-- A list of texts in marks, with a separator between them. -/
def markedList (q : α) (separator : List α) (texts : List (List α)) : List α :=
  separator.intercalate (texts.map fun xs => q :: doubled q xs ++ [q])

theorem markedList_cons_cons (separator xs ys : List α) (rest : List (List α)) :
    markedList q separator (xs :: ys :: rest) =
      q :: (doubled q xs ++ q :: (separator ++ markedList q separator (ys :: rest))) := by
  simp [markedList, List.intercalate]

theorem markedList_singleton (separator xs : List α) :
    markedList q separator [xs] = q :: (doubled q xs ++ [q]) := by
  simp [markedList, List.intercalate]

omit [DecidableEq α] in
theorem separated_head {first : α} (apart : first ≠ q) (later xs : List α) :
    ((first :: later) ++ xs).head? ≠ some q := fun head => apart (Option.some.inj head)

/-- Where the separator begins with no mark, the list determines its texts. -/
theorem markedList_inj {first : α} {later : List α} (apart : first ≠ q) :
    ∀ {texts others : List (List α)},
      markedList q (first :: later) texts = markedList q (first :: later) others → texts = others
  | [], [], _ => rfl
  | [], [xs], same => by
    rw [markedList_singleton] at same
    cases same
  | [], xs :: ys :: rest, same => by
    rw [markedList_cons_cons] at same
    cases same
  | [xs], [], same => by
    rw [markedList_singleton] at same
    cases same
  | xs :: ys :: rest, [], same => by
    rw [markedList_cons_cons] at same
    cases same
  | [xs], [ys], same => by
    rw [markedList_singleton, markedList_singleton] at same
    rw [(doubled_append_cancel (head_nil_ne q) (head_nil_ne q) (List.cons.inj same).2).1]
  | [xs], ys :: zs :: rest, same => by
    rw [markedList_singleton, markedList_cons_cons] at same
    have ends := (doubled_append_cancel (head_nil_ne q) (separated_head apart _ _)
      (List.cons.inj same).2).2
    cases ends
  | xs :: ys :: rest, [zs], same => by
    rw [markedList_singleton, markedList_cons_cons] at same
    have ends := (doubled_append_cancel (separated_head apart _ _) (head_nil_ne q)
      (List.cons.inj same).2).2
    cases ends
  | xs :: ys :: rest, xs' :: ys' :: rest', same => by
    rw [markedList_cons_cons, markedList_cons_cons] at same
    obtain ⟨rfl, ends⟩ := doubled_append_cancel (separated_head apart _ _)
      (separated_head apart _ _) (List.cons.inj same).2
    rw [markedList_inj apart (List.append_cancel_left ends)]

end

end PgCatalog.Library
