import PgCatalog.Library.YamlPlain

/-! Text between double quotes: its escapes, and the line breaks that are folded. -/
namespace PgCatalog.Library.Yaml

/-- A character between quotes, and whether it stands there as itself. -/
structure Piece where
  char : Char
  literal : Bool
  deriving DecidableEq

/-- The escapes of one character; those that give a code point are not read. -/
def escaped : Char → Option Char
  | '"' => some '"'
  | '\\' => some '\\'
  | '/' => some '/'
  | '0' => some (Char.ofNat 0)
  | 'a' => some (Char.ofNat 7)
  | 'b' => some (Char.ofNat 8)
  | 't' => some '\t'
  | 'n' => some '\n'
  | 'v' => some (Char.ofNat 0x0b)
  | 'f' => some (Char.ofNat 0x0c)
  | 'r' => some '\r'
  | 'e' => some (Char.ofNat 0x1b)
  | ' ' => some ' '
  | 'N' => some (Char.ofNat 0x85)
  | '_' => some (Char.ofNat 0xa0)
  | 'L' => some (Char.ofNat 0x2028)
  | 'P' => some (Char.ofNat 0x2029)
  | _ => none

/-- The characters up to the closing quote, and what follows it. -/
def pieces : List Char → Option (List Piece × List Char)
  | [] => none
  | '"' :: rest => some ([], rest)
  | '\\' :: c :: rest => do
    let char ← escaped c
    let (more, rest) ← pieces rest
    return (⟨char, false⟩ :: more, rest)
  | c :: rest => do
    let (more, rest) ← pieces rest
    return (⟨c, true⟩ :: more, rest)

def Piece.isBreak (p : Piece) : Bool := p.literal && Yaml.isBreak p.char

def Piece.isBlank (p : Piece) : Bool := p.literal && Yaml.isBlank p.char

/-- The characters that stand between quotes as themselves, line breaks apart. -/
def quotable (c : Char) : Bool := c = '\t' || ' ' ≤ c

def prepend (p : Piece) : List (List Piece) → List (List Piece)
  | [] => [[p]]
  | line :: lines => (p :: line) :: lines

/-- The lines a text is written in; a carriage return with a line feed is one break. -/
def pieceLines : List Piece → List (List Piece)
  | [] => [[]]
  | ⟨'\r', true⟩ :: ⟨'\n', true⟩ :: rest => [] :: pieceLines rest
  | p :: rest => if p.isBreak then [] :: pieceLines rest else prepend p (pieceLines rest)

def chars (line : List Piece) : List Char := line.map Piece.char

/-- One break is folded to a blank, of more all but the first are kept. -/
def foldedBreaks (breaks : Nat) : List Char :=
  if breaks ≤ 1 then [' '] else List.replicate (breaks - 1) '\n'

/-- The lines after `breaks` breaks. One with text is indented by `least` columns, and no line
keeps the blanks at its ends, but the last those at its end. -/
def foldedLines (least : Nat) (breaks : Nat) : List (List Piece) → Option (List Char)
  | [] => some []
  | line :: lines =>
    if line.all Piece.isBlank && lines ≠ [] then foldedLines least (breaks + 1) lines
    else if (line.takeWhile (· = ⟨' ', true⟩)).length < least then none
    else
      let text := line.dropWhile Piece.isBlank
      let text := if lines = [] then text else text.rdropWhile Piece.isBlank
      (foldedLines least 1 lines).map fun more => foldedBreaks breaks ++ chars text ++ more

/-- The text the pieces stand for. -/
def folded (least : Nat) (pieces : List Piece) : Option (List Char) :=
  if pieces.all fun p => !p.literal || quotable p.char || p.isBreak then
    match pieceLines pieces with
    | first :: line :: lines =>
      (foldedLines least 1 (line :: lines)).map fun more =>
        chars (first.rdropWhile Piece.isBlank) ++ more
    | lines => some (chars lines.flatten)
  else none

section
variable {ps rest line : List Piece} {p : Piece} {lines : List (List Piece)} {least breaks : Nat}
  {text : List Char}

/-- A text written a character at a time is read a character at a time. -/
theorem pieces_written {written : Char → List Char} {piece : Char → Piece}
    (each : ∀ c rest, pieces (written c ++ rest) =
      (pieces rest).map fun (more, rest) => (piece c :: more, rest))
    (text after : List Char) :
    pieces (text.flatMap written ++ '"' :: after) = some (text.map piece, after) := by
  induction text with
  | nil => rfl
  | cons c text ih =>
    rw [List.flatMap_cons, List.append_assoc, each, ih]
    rfl

theorem chars_prepend : chars (prepend p lines).flatten = p.char :: chars lines.flatten := by
  cases lines <;> rfl

theorem prepend_length (nonempty : lines ≠ []) : (prepend p lines).length = lines.length := by
  cases lines with
  | nil => contradiction
  | cons line lines => rfl

theorem pieceLines_ne_nil : pieceLines ps ≠ [] := by
  fun_cases pieceLines ps with
  | case1 => simp
  | case2 rest => simp
  | case3 p rest other ends => simp
  | case4 p rest other whole => cases lines : pieceLines rest <;> simp [prepend]

theorem quotable_isBreak {c : Char} (printed : quotable c = true) : isBreak c = false := by
  rw [isBreak, Bool.or_eq_false_iff, decide_eq_false_iff_not, decide_eq_false_iff_not]
  constructor <;> (rintro rfl; revert printed; decide)

/-- Text without breaks is one line. -/
theorem pieceLines_whole (whole : ∀ p ∈ ps, p.isBreak = false) : pieceLines ps = [ps] := by
  fun_induction pieceLines ps with
  | case1 => rfl
  | case2 rest ih =>
    have ends := whole _ List.mem_cons_self
    contradiction
  | case3 p rest other ends ih => simp [whole p List.mem_cons_self] at ends
  | case4 p rest other single ih =>
    rw [ih fun q member => whole q (.tail _ member)]
    rfl

theorem folded_quotable (printed : ∀ p ∈ ps, quotable p.char = true) :
    folded least ps = some (chars ps) := by
  have whole : ∀ p ∈ ps, p.isBreak = false := by
    intro p member
    simp [Piece.isBreak, quotable_isBreak (printed p member)]
  have admitted : (ps.all fun p => !p.literal || quotable p.char || p.isBreak) = true := by
    rw [List.all_eq_true]
    intro p member
    simp [printed p member]
  rw [folded, admitted, pieceLines_whole whole]
  simp

/-- The line breaks in a text. -/
def breaksIn (text : List Char) : Nat := text.countP isBreak

theorem breaksIn_append (text more : List Char) :
    breaksIn (text ++ more) = breaksIn text + breaksIn more := List.countP_append

theorem pieceLines_length : (pieceLines ps).length ≤ breaksIn (chars ps) + 1 := by
  fun_induction pieceLines ps with
  | case1 => simp
  | case2 rest ih =>
    have counted : breaksIn (chars (⟨'\r', true⟩ :: ⟨'\n', true⟩ :: rest)) =
        breaksIn (chars rest) + 2 := by
      simp [breaksIn, chars, isBreak]
    simp only [List.length_cons, counted]
    omega
  | case3 p rest other ends ih =>
    have ending : isBreak p.char = true := (Bool.and_eq_true_iff.mp ends).2
    have counted : breaksIn (chars (p :: rest)) = breaksIn (chars rest) + 1 := by
      simp [breaksIn, chars, ending]
    simp only [List.length_cons, counted]
    omega
  | case4 p rest other whole ih =>
    have counted : breaksIn (chars rest) ≤ breaksIn (chars (p :: rest)) := by
      simp [breaksIn, chars, List.countP_cons]
    rw [prepend_length pieceLines_ne_nil]
    omega

theorem pieceLines_length_of_break (member : p ∈ ps) (ends : p.isBreak = true) :
    2 ≤ (pieceLines ps).length := by
  have further : ∀ rest, 2 ≤ ([] :: pieceLines rest).length := by
    intro rest
    have := List.length_pos_of_ne_nil (@pieceLines_ne_nil rest)
    rw [List.length_cons]
    omega
  fun_induction pieceLines ps with
  | case1 => contradiction
  | case2 rest => exact further rest
  | case3 q rest => exact further rest
  | case4 q rest other whole ih =>
    rw [prepend_length pieceLines_ne_nil]
    rcases List.mem_cons.mp member with rfl | member
    · contradiction
    · exact ih member

theorem mem_prepend (inside : line ∈ prepend p lines) :
    ∀ q ∈ line, q = p ∨ ∃ other ∈ lines, q ∈ other := by
  cases lines with
  | nil =>
    obtain rfl := List.mem_singleton.mp inside
    intro q member
    exact .inl (List.mem_singleton.mp member)
  | cons first lines =>
    intro q member
    rcases List.mem_cons.mp inside with rfl | inside
    · rcases List.mem_cons.mp member with rfl | member
      · exact .inl rfl
      · exact .inr ⟨first, List.mem_cons_self, member⟩
    · exact .inr ⟨line, .tail _ inside, member⟩

theorem mem_pieceLines (inside : line ∈ pieceLines ps) (member : p ∈ line) :
    p ∈ ps ∧ p.isBreak = false := by
  fun_induction pieceLines ps generalizing line with
  | case1 =>
    obtain rfl := List.mem_singleton.mp inside
    contradiction
  | case2 rest ih =>
    rcases List.mem_cons.mp inside with rfl | inside
    · contradiction
    · obtain ⟨found, whole⟩ := ih inside member
      exact ⟨.tail _ (.tail _ found), whole⟩
  | case3 q rest other ends ih =>
    rcases List.mem_cons.mp inside with rfl | inside
    · contradiction
    · obtain ⟨found, whole⟩ := ih inside member
      exact ⟨.tail _ found, whole⟩
  | case4 q rest other whole ih =>
    rcases mem_prepend inside p member with rfl | ⟨more, further, member⟩
    · exact ⟨List.mem_cons_self, by simpa using whole⟩
    · obtain ⟨found, single⟩ := ih further member
      exact ⟨.tail _ found, single⟩

theorem breaksIn_sublist {part : List Piece} (sub : part.Sublist line)
    (none_ : breaksIn (chars line) = 0) : breaksIn (chars part) = 0 := by
  have fewer : breaksIn (chars part) ≤ breaksIn (chars line) := (sub.map Piece.char).countP_le
  omega

theorem breaksIn_foldedBreaks (some_ : 1 ≤ breaks) :
    breaksIn (foldedBreaks breaks) + 1 ≤ breaks := by
  unfold foldedBreaks
  split
  · exact some_
  · have counted : breaksIn (List.replicate (breaks - 1) '\n') ≤ breaks - 1 := by
      have := @List.countP_le_length _ isBreak (List.replicate (breaks - 1) '\n')
      rwa [List.length_replicate] at this
    omega

/-- Folding loses a break at least. -/
theorem foldedLines_breaks (some_ : 1 ≤ breaks) (nonempty : lines ≠ [])
    (none_ : ∀ line ∈ lines, breaksIn (chars line) = 0)
    (read : foldedLines least breaks lines = some text) :
    breaksIn text + 2 ≤ breaks + lines.length := by
  induction lines generalizing breaks text with
  | nil => contradiction
  | cons line lines ih =>
    have others : ∀ line ∈ lines, breaksIn (chars line) = 0 := fun other member =>
      none_ other (.tail _ member)
    rw [foldedLines] at read
    split at read
    · rename_i blank
      have further : lines ≠ [] := by simpa using (Bool.and_eq_true_iff.mp blank).2
      have counted := ih (by omega) further others read
      simp only [List.length_cons]
      omega
    · split at read
      · contradiction
      · obtain ⟨more, continued, rfl⟩ := Option.map_eq_some_iff.mp read
        have here : breaksIn (chars (if lines = [] then line.dropWhile Piece.isBlank
            else (line.dropWhile Piece.isBlank).rdropWhile Piece.isBlank)) = 0 := by
          apply breaksIn_sublist _ (none_ line List.mem_cons_self)
          split
          · exact List.dropWhile_sublist _
          · exact (List.rdropWhile_prefix ..).sublist.trans (List.dropWhile_sublist _)
        have folds := breaksIn_foldedBreaks some_
        simp only [breaksIn_append, here, List.length_cons]
        by_cases last : lines = []
        · subst last
          obtain rfl := Option.some.inj continued
          simp only [List.length_nil]
          have none_ : breaksIn [] = 0 := rfl
          omega
        · have counted := ih (by omega) last others continued
          omega

theorem breaksIn_line (escapes : ∀ p ∈ ps, p.literal = false → quotable p.char = true)
    (inside : line ∈ pieceLines ps) : breaksIn (chars line) = 0 := by
  rw [breaksIn, List.countP_eq_zero]
  intro c member
  obtain ⟨p, here, rfl⟩ := List.mem_map.mp member
  obtain ⟨found, whole⟩ := mem_pieceLines inside here
  cases written : p.literal with
  | true => simpa [Piece.isBreak, written] using whole
  | false => simp [quotable_isBreak (escapes p found written)]

/-- Text with a line break in it is another text where it is read. -/
theorem folded_break (escapes : ∀ p ∈ ps, p.literal = false → quotable p.char = true)
    (member : p ∈ ps) (ends : p.isBreak = true) : folded least ps ≠ some (chars ps) := by
  intro read
  have several := pieceLines_length_of_break member ends
  have counted := @pieceLines_length ps
  have none_ : ∀ line ∈ pieceLines ps, breaksIn (chars line) = 0 := fun line inside =>
    breaksIn_line escapes inside
  rcases parted : pieceLines ps with _ | ⟨first, _ | ⟨line, lines⟩⟩
  · simp [parted] at several
  · simp [parted] at several
  · rw [parted] at several counted none_
    simp only [folded, parted, Option.ite_none_right_eq_some] at read
    obtain ⟨more, continued, same⟩ := Option.map_eq_some_iff.mp read.2
    have fewer := foldedLines_breaks (Nat.le_refl 1) (by simp)
      (fun line inside => none_ line (.tail _ inside)) continued
    have first_ : breaksIn (chars (first.rdropWhile Piece.isBlank)) = 0 :=
      breaksIn_sublist (List.rdropWhile_prefix ..).sublist (none_ first List.mem_cons_self)
    rw [← same, breaksIn_append, first_] at counted
    simp only [List.length_cons] at counted fewer
    omega

/-- Exactly the text whose characters may stand between quotes as themselves reads back. -/
theorem folded_eq_iff (escapes : ∀ p ∈ ps, p.literal = false → quotable p.char = true) :
    folded least ps = some (chars ps) ↔ ∀ p ∈ ps, quotable p.char = true := by
  constructor
  · intro read p member
    have admitted : (ps.all fun p => !p.literal || quotable p.char || p.isBreak) = true := by
      by_contra refused
      rw [folded, if_neg refused] at read
      contradiction
    have here := List.all_eq_true.mp admitted p member
    simp only [Bool.or_eq_true, Bool.not_eq_true'] at here
    rcases here with (escape | printed) | ends
    · exact escapes p member escape
    · exact printed
    · exact absurd read (folded_break escapes member ends)
  · exact folded_quotable

end
end PgCatalog.Library.Yaml
