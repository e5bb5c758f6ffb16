import PgCatalog.Library.ByteOffsets

/-! Lines and columns of a text, counted in characters from one, and the byte offsets they are
at. -/
namespace PgCatalog.Library

structure Location where
  line : Nat
  column : Nat
  deriving DecidableEq, Repr

namespace Location

def start : Location := ⟨1, 1⟩

/-- The place behind a character. -/
def next (place : Location) (c : Char) : Location :=
  if c = '\n' then ⟨place.line + 1, 1⟩ else ⟨place.line, place.column + 1⟩

/-- The place behind a text. -/
def past (place : Location) (text : List Char) : Location := text.foldl next place

@[simp] theorem past_nil (place : Location) : place.past [] = place := rfl

@[simp] theorem past_cons (place : Location) (c : Char) (text : List Char) :
    place.past (c :: text) = (place.next c).past text := rfl

theorem past_append (place : Location) (xs ys : List Char) :
    place.past (xs ++ ys) = (place.past xs).past ys := List.foldl_append

/-- One place is before another in a text. -/
def Before (p q : Location) : Prop := p.line < q.line ∨ p.line = q.line ∧ p.column < q.column

theorem before_next (place : Location) (c : Char) : place.Before (place.next c) := by
  rw [next]
  split
  · exact .inl (Nat.lt_succ_self _)
  · exact .inr ⟨rfl, Nat.lt_succ_self _⟩

theorem Before.trans {p q r : Location} (one : p.Before q) (two : q.Before r) : p.Before r := by
  unfold Before at *
  omega

theorem Before.ne {p q : Location} (earlier : p.Before q) : p ≠ q := by
  rintro rfl
  unfold Before at earlier
  omega

theorem before_past (place : Location) (c : Char) (text : List Char) :
    place.Before (place.past (c :: text)) := by
  induction text generalizing place c with
  | nil => exact before_next place c
  | cons d text ih => exact (before_next place c).trans (ih (place.next c) d)

end Location

/-- The byte offset of a place, with the place and the offset the rest of a text starts at. -/
def byteOffsetFrom (wanted : Location) : Location → Nat → List Char → Option Nat
  | place, offset, [] => if place = wanted then some offset else none
  | place, offset, c :: rest =>
    if place = wanted then some offset
    else byteOffsetFrom wanted (place.next c) (offset + c.utf8Size) rest

/-- The place behind a beginning of the text is found where that beginning ends. -/
theorem byteOffsetFrom_past (place : Location) (offset : Nat) (before after : List Char) :
    byteOffsetFrom (place.past before) place offset (before ++ after) =
      some (offset + byteLength before) := by
  induction before generalizing place offset with
  | nil => cases after <;> exact if_pos rfl
  | cons c before ih =>
    rw [List.cons_append, byteOffsetFrom, if_neg (Location.before_past place c before).ne,
      Location.past_cons, ih, byteLength, Nat.add_assoc]

end PgCatalog.Library
