import Mathlib.Data.List.Forall2
import PgCatalog.Library.Text

/-! PostgreSQL's text form of arrays, as `array_in` reads it: elements, bare or quoted, between
braces that nest, with a delimiter between them. -/
namespace PgCatalog.Library

/-- `scanner_isspace`. -/
def isScannerSpace (c : Char) : Bool := c.toNat = 32 || (9 ≤ c.toNat && c.toNat ≤ 13)

/-- The delimiter of an element type: no blank, brace, quote or backslash. -/
structure Delimiter where
  char : Char
  plain : char ∉ ['\x7b', '\x7d', '"', '\\']
  solid : isScannerSpace char = false

namespace ArrayText

/-- An element: its text, or none of the bare word NULL. -/
abbrev Item := Option (List Char)

/-- What is known of the braces open, the innermost first, with the elements counted in each. -/
structure Parse where
  counts : List Nat
  ndim : Nat
  dims : Nat → Option Nat
  frozen : Bool
  expectDelim : Bool
  items : List Item

def MAXDIM : Nat := 6

def Parse.levelStart (p : Parse) : Option Parse :=
  if p.expectDelim || MAXDIM ≤ p.counts.length then none
  else if p.ndim < p.counts.length + 1 then
    if p.frozen then none
    else some { p with counts := 0 :: p.counts, ndim := p.counts.length + 1 }
  else some { p with counts := 0 :: p.counts }

/-- A sub-array counts as an element of the one around it. -/
def countOne : List Nat → List Nat
  | [] => []
  | count :: outer => (count + 1) :: outer

def Parse.levelEnd (p : Parse) : Option Parse :=
  match p.counts with
  | [] => none
  | count :: outer =>
    if 0 < count && !p.expectDelim then none
    else
      match p.dims outer.length with
      | none => some { p with
          counts := countOne outer
          dims := Function.update p.dims outer.length (some count)
          expectDelim := true }
      | some length =>
        if count = length then some { p with counts := countOne outer, expectDelim := true }
        else none

def Parse.delimiter (p : Parse) : Option Parse :=
  if p.expectDelim then some { p with expectDelim := false } else none

def Parse.element (p : Parse) (item : Item) : Option Parse :=
  if p.expectDelim || p.counts.length ≠ p.ndim then none
  else some { p with
    counts := countOne p.counts
    frozen := true
    expectDelim := true
    items := p.items ++ [item] }

/-- Where in a token the reader is. Of a bare element the blanks that may end it are kept apart. -/
inductive Mode where
  | between
  | quoted (read : List Char)
  | quotedEscape (read : List Char)
  | closing (read : List Char)
  | bare (kept blanks : List Char) (escaped : Bool)
  | bareEscape (kept : List Char)
  deriving DecidableEq, Repr

def bareItem (text : List Char) (escaped : Bool) : Item :=
  if !escaped && text.map Char.toLower = ['n', 'u', 'l', 'l'] then none else some text

section
variable (d : Delimiter)

def isMark (c : Char) : Bool := c = '\x7b' || c = '\x7d' || c = d.char

def Parse.mark (p : Parse) (c : Char) : Option Parse :=
  if c = '\x7b' then p.levelStart else if c = '\x7d' then p.levelEnd else p.delimiter

/-- One character read. -/
def step : Mode → Char → Parse → Option (Mode × Parse)
  | .between, c, p =>
    if isMark d c then (p.mark c).map (.between, ·)
    else if c = '"' then some (.quoted [], p)
    else if isScannerSpace c then some (.between, p)
    else if c = '\\' then some (.bareEscape [], p)
    else some (.bare [c] [] false, p)
  | .quoted read, c, p =>
    if c = '\\' then some (.quotedEscape read, p)
    else if c = '"' then some (.closing read, p)
    else some (.quoted (read ++ [c]), p)
  | .quotedEscape read, c, p => some (.quoted (read ++ [c]), p)
  | .closing read, c, p =>
    if isMark d c then ((p.element (some read)).bind (·.mark c)).map (.between, ·)
    else if isScannerSpace c then some (.closing read, p)
    else none
  | .bare kept blanks escaped, c, p =>
    if c = '\x7b' || c = '"' then none
    else if c = '\\' then some (.bareEscape (kept ++ blanks), p)
    else if isMark d c then ((p.element (bareItem kept escaped)).bind (·.mark c)).map (.between, ·)
    else if isScannerSpace c then some (.bare kept (blanks ++ [c]) escaped, p)
    else some (.bare (kept ++ blanks ++ [c]) [] escaped, p)
  | .bareEscape kept, c, p => some (.bare (kept ++ [c]) [] true, p)

/-- The reading up to the brace that closes the first; only blanks may follow it. -/
def scan : Mode → Parse → List Char → Option Parse
  | _, _, [] => none
  | mode, p, c :: rest =>
    (step d mode c p).bind fun (mode, p) =>
      if p.counts = [] then if rest.all isScannerSpace then some p else none
      else scan mode p rest

def Parse.start : Parse := ⟨[], 0, fun _ => none, false, false, []⟩

/-- The lengths of the dimensions and the elements; an array without elements has none. -/
def Parse.result (p : Parse) : List Nat × List Item :=
  if p.items = [] then ([], [])
  else ((List.range p.ndim).map fun i => (p.dims i).getD 0, p.items)

/-- `array_in` of a text without dimension information. -/
def arrayIn (text : List Char) : Option (List Nat × List Item) :=
  match text.dropWhile isScannerSpace with
  | '\x7b' :: rest => (Parse.start.levelStart.bind fun p => scan d .between p rest).map (·.result)
  | _ => none

end

def comma : Delimiter := ⟨',', by decide, by decide⟩

example : arrayIn comma "\x7ba, \"b,\\\"c\",NULL\x7d".toList =
    some ([3], [some ['a'], some ['b', ',', '"', 'c'], none]) := by decide

/-! ## What is read without escapes -/

section
variable (d : Delimiter)

/-- A bare element: neither end is blank, and no character means something else. -/
structure Bare (text : List Char) : Prop where
  some_ : text ≠ []
  first : ∀ c ∈ text.head?, isScannerSpace c = false
  last : ∀ c ∈ text.getLast?, isScannerSpace c = false
  plain : ∀ c ∈ text, isMark d c = false ∧ c ≠ '"' ∧ c ≠ '\\'

def Blank (text : List Char) : Prop := ∀ c ∈ text, isScannerSpace c = true

/-- The text within quotes, without escapes. -/
def Literal (text : List Char) : Prop := ∀ c ∈ text, c ≠ '"' ∧ c ≠ '\\'

/-- The text of an element without escapes, between blanks, and what it stands for. -/
inductive Plain : List Char → Item → Prop
  | bare {before text after : List Char} (opens : Blank before) (word : Bare d text)
      (closes : Blank after) : Plain (before ++ text ++ after) (bareItem text false)
  | quoted {before text after : List Char} (opens : Blank before) (literal : Literal text)
      (closes : Blank after) : Plain (before ++ '"' :: (text ++ '"' :: after)) (some text)

/-- The text of an element; a backslash in it is not part of what it stands for. -/
inductive Spelled : List Char → Item → Prop
  | plain {raw : List Char} {item : Item} (spelled : Plain d raw item) : Spelled raw item
  | escaped {raw text : List Char} (fewer : text.count '\\' < raw.count '\\') :
      Spelled raw (some text)

/-- The elements before the last with their delimiters. -/
def delimited (raws : List (List Char)) : List Char := raws.flatMap (· ++ [d.char])

/-- The reading within one pair of braces, where the next is an element. -/
def flat (items : List Item) : Parse := ⟨[items.length], 1, fun _ => none, !items.isEmpty, false, items⟩

/-- The reading of one pair of braces once they are closed. -/
def closed (items : List Item) : Parse :=
  ⟨[], 1, Function.update (fun _ => none) 0 (some items.length), !items.isEmpty, true, items⟩

end

section
variable {d : Delimiter} {p : Parse} {c : Char} {mode mode' : Mode} {text rest : List Char}

theorem not_mark_of_space (space : isScannerSpace c = true) :
    isMark d c = false ∧ c ≠ '"' ∧ c ≠ '\\' := by
  have delim : c ≠ d.char := by
    rintro rfl
    exact Bool.false_ne_true (d.solid.symm.trans space)
  have other : ∀ x ∈ ['\x7b', '\x7d', '"', '\\'], c ≠ x := by
    rintro x member rfl
    revert member space
    simp only [List.mem_cons, List.not_mem_nil, or_false]
    rintro space (rfl | rfl | rfl | rfl) <;> exact absurd space (by decide)
  refine ⟨?_, other _ (by simp), other _ (by simp)⟩
  simp [isMark, delim, other '\x7b' (by simp), other '\x7d' (by simp)]

theorem mark_cases (mark : isMark d c = true) : c = '\x7b' ∨ c = '\x7d' ∨ c = d.char := by
  simpa [isMark, or_assoc] using mark

theorem not_special_of_mark (mark : isMark d c = true) :
    c ≠ '"' ∧ c ≠ '\\' ∧ isScannerSpace c = false := by
  have plain := d.plain
  simp only [List.mem_cons, List.not_mem_nil, or_false, not_or] at plain
  obtain rfl | rfl | rfl := mark_cases mark
  · decide
  · decide
  · exact ⟨plain.2.2.1, plain.2.2.2, d.solid⟩

/-- A character after which the reading of the braces stands as before. -/
theorem scan_same (same : step d mode c p = some (mode', p)) (opened : p.counts ≠ []) :
    scan d mode p (c :: rest) = scan d mode' p rest := by
  rw [scan, same, Option.bind_some]
  simp [opened]

theorem scan_blanks (blank : Blank text) (opened : p.counts ≠ []) :
    scan d .between p (text ++ rest) = scan d .between p rest := by
  induction text with
  | nil => rfl
  | cons c text ih =>
    obtain ⟨space, later⟩ := List.forall_mem_cons.mp blank
    obtain ⟨mark, quote, -⟩ := not_mark_of_space (d := d) space
    rw [List.cons_append, scan_same (by simp [step, mark, quote, space]; rfl) opened, ih later]

theorem scan_bare_blanks {kept blanks : List Char} {escaped : Bool} (blank : Blank text)
    (opened : p.counts ≠ []) : scan d (.bare kept blanks escaped) p (text ++ rest) =
      scan d (.bare kept (blanks ++ text) escaped) p rest := by
  induction text generalizing blanks with
  | nil => rw [List.nil_append, List.append_nil]
  | cons c text ih =>
    obtain ⟨space, later⟩ := List.forall_mem_cons.mp blank
    obtain ⟨mark, quote, slash⟩ := not_mark_of_space (d := d) space
    have brace : c ≠ '\x7b' := by
      rintro rfl
      exact absurd space (by decide)
    rw [List.cons_append, scan_same (by simp [step, brace, mark, quote, slash, space]; rfl) opened,
      ih later, List.append_assoc, List.singleton_append]

/-- A word whose last character is not blank is kept with the blanks before it. -/
theorem scan_bare_word {kept blanks : List Char} (some_ : text ≠ [])
    (last : ∀ c ∈ text.getLast?, isScannerSpace c = false)
    (plain : ∀ c ∈ text, isMark d c = false ∧ c ≠ '"' ∧ c ≠ '\\') (opened : p.counts ≠ []) :
    scan d (.bare kept blanks false) p (text ++ rest) =
      scan d (.bare (kept ++ blanks ++ text) [] false) p rest := by
  induction text generalizing kept blanks with
  | nil => exact absurd rfl some_
  | cons c text ih =>
    obtain ⟨⟨mark, quote, slash⟩, later⟩ := List.forall_mem_cons.mp plain
    have brace : c ≠ '\x7b' := by
      rintro rfl
      exact absurd mark (by simp [isMark])
    cases text with
    | nil =>
      have solid : isScannerSpace c = false := last c rfl
      exact scan_same (by simp [step, brace, mark, quote, slash, solid]) opened
    | cons next text =>
      have ends : ∀ c ∈ (next :: text).getLast?, isScannerSpace c = false := by
        rwa [List.getLast?_cons_cons] at last
      cases solid : isScannerSpace c with
      | true =>
        rw [List.cons_append, scan_same (by simp [step, brace, mark, quote, slash, solid]; rfl) opened,
          ih (List.cons_ne_nil _ _) ends later]
        simp
      | false =>
        rw [List.cons_append, scan_same (by simp [step, brace, mark, quote, slash, solid]; rfl) opened,
          ih (List.cons_ne_nil _ _) ends later]
        simp

theorem scan_quoted {read : List Char} (literal : Literal text) (opened : p.counts ≠ []) :
    scan d (.quoted read) p (text ++ rest) = scan d (.quoted (read ++ text)) p rest := by
  induction text generalizing read with
  | nil => rw [List.nil_append, List.append_nil]
  | cons c text ih =>
    obtain ⟨⟨quote, slash⟩, later⟩ := List.forall_mem_cons.mp literal
    rw [List.cons_append, scan_same (by simp [step, quote, slash]; rfl) opened, ih later,
      List.append_assoc, List.singleton_append]

theorem scan_closing {read : List Char} (blank : Blank text) (opened : p.counts ≠ []) :
    scan d (.closing read) p (text ++ rest) = scan d (.closing read) p rest := by
  induction text with
  | nil => rfl
  | cons c text ih =>
    obtain ⟨space, later⟩ := List.forall_mem_cons.mp blank
    have mark := (not_mark_of_space (d := d) space).1
    rw [List.cons_append, scan_same (by simp [step, mark, space]; rfl) opened, ih later]

variable (d) in
/-- The reading goes on, or ends with the first brace closed. -/
def next (p : Parse) (rest : List Char) : Option Parse :=
  if p.counts = [] then if rest.all isScannerSpace then some p else none
  else scan d .between p rest

/-- An element without escapes is read as what it stands for, up to the mark behind it. -/
theorem scan_plain {raw : List Char} {item : Item} (spelled : Plain d raw item)
    (mark : isMark d c = true) (brace : c ≠ '\x7b') (opened : p.counts ≠ []) :
    scan d .between p (raw ++ c :: rest) =
      ((p.element item).bind (·.mark c)).bind fun p => next d p rest := by
  obtain ⟨quote, slash, -⟩ := not_special_of_mark mark
  cases spelled with
  | @bare before text after opens word closes =>
    rw [List.append_assoc, List.append_assoc, scan_blanks opens opened]
    obtain ⟨some_, first, last, plain⟩ := word
    cases text with
    | nil => exact absurd rfl some_
    | cons x text =>
      have solid : isScannerSpace x = false := first x rfl
      obtain ⟨⟨xMark, xQuote, xSlash⟩, later⟩ := List.forall_mem_cons.mp plain
      have begins : step d .between x p = some (.bare [x] [] false, p) := by
        simp [step, xMark, xQuote, xSlash, solid]
      have whole : scan d (.bare [x] [] false) p (text ++ (after ++ c :: rest)) =
          scan d (.bare (x :: text) [] false) p (after ++ c :: rest) := by
        cases text with
        | nil => rfl
        | cons y text =>
          rw [List.getLast?_cons_cons] at last
          rw [scan_bare_word (List.cons_ne_nil _ _) last later opened]
          rfl
      rw [List.cons_append, scan_same begins opened, whole, scan_bare_blanks closes opened, scan]
      simp only [step, brace, quote, slash, mark, decide_false, Bool.or_self, Bool.false_eq_true,
        if_false, if_true]
      cases (p.element (bareItem (x :: text) false)).bind (·.mark c) <;> rfl
  | @quoted before text after opens literal closes =>
    have begins : step d .between '"' p = some (.quoted [], p) := by
      have plain := d.plain
      simp only [List.mem_cons, List.not_mem_nil, or_false, not_or] at plain
      simp [step, isMark, Ne.symm plain.2.2.1]
    have ends : step d (.quoted text) '"' p = some (.closing text, p) := by simp [step]
    rw [List.append_assoc, scan_blanks opens opened, List.cons_append, scan_same begins opened,
      List.append_assoc, scan_quoted literal opened, List.nil_append, List.cons_append,
      scan_same ends opened, scan_closing closes opened, scan]
    simp only [step, mark, if_true]
    cases (p.element (some text)).bind (·.mark c) <;> rfl

end

/-! ## One pair of braces -/

section
variable {d : Delimiter} {items : List Item} {item : Item} {p : Parse}

theorem flat_opened : (flat items).counts ≠ [] := List.cons_ne_nil _ _

theorem closed_ended : (closed items).counts = [] := rfl

@[simp] theorem flat_element : (flat items).element item = some { flat (items ++ [item]) with
    expectDelim := true } := by
  simp [Parse.element, flat, countOne]

theorem flat_delimiter : ((flat items).element item).bind (·.mark d.char) =
    some (flat (items ++ [item])) := by
  have plain := d.plain
  simp only [List.mem_cons, List.not_mem_nil, or_false, not_or] at plain
  rw [flat_element, Option.bind_some, Parse.mark, if_neg plain.1, if_neg plain.2.1]
  rfl

theorem flat_end : ((flat items).element item).bind (·.mark '\x7d') =
    some (closed (items ++ [item])) := by
  rw [flat_element, Option.bind_some]
  simp [Parse.mark, Parse.levelEnd, flat, closed, countOne]

/-- Elements with their delimiters are read one after the other. -/
theorem scan_delimited {raws : List (List Char)} {added : List Item}
    (spelled : List.Forall₂ (Plain d) raws added) {items : List Item} {rest : List Char} :
    scan d .between (flat items) (delimited d raws ++ rest) =
      scan d .between (flat (items ++ added)) rest := by
  induction spelled generalizing items with
  | nil => rw [List.append_nil]; rfl
  | @cons raw item raws added first _ ih =>
    have plain := d.plain
    simp only [List.mem_cons, List.not_mem_nil, or_false, not_or] at plain
    have mark : isMark d d.char = true := by simp [isMark]
    have rest_eq : delimited d (raw :: raws) ++ rest =
        raw ++ d.char :: (delimited d raws ++ rest) := by
      simp [delimited]
    rw [rest_eq, scan_plain first mark plain.1 flat_opened, flat_delimiter,
      Option.bind_some, next, if_neg flat_opened, ih, List.append_assoc, List.singleton_append]

theorem closed_result : (closed (items ++ [item])).result =
    ([(items ++ [item]).length], items ++ [item]) := by
  simp [Parse.result, closed]

/-- Elements without escapes between braces are an array of one dimension. -/
theorem arrayIn_plain {raws : List (List Char)} {last : List Char}
    (spelled : List.Forall₂ (Plain d) raws items) (final : Plain d last item) :
    arrayIn d ('\x7b' :: (delimited d raws ++ last ++ ['\x7d'])) =
      some ([(items ++ [item]).length], items ++ [item]) := by
  have opened : Parse.start.levelStart = some (flat []) := rfl
  have mark : isMark d '\x7d' = true := by simp [isMark]
  have begins : ('\x7b' :: (delimited d raws ++ last ++ ['\x7d'])).dropWhile isScannerSpace =
      '\x7b' :: (delimited d raws ++ last ++ ['\x7d']) :=
    List.dropWhile_cons_of_neg (by decide)
  rw [arrayIn, begins]
  change (Parse.start.levelStart.bind fun p =>
    scan d .between p (delimited d raws ++ last ++ ['\x7d'])).map (·.result) = _
  rw [opened, Option.bind_some, List.append_assoc, scan_delimited spelled, List.nil_append,
    scan_plain final mark (by decide) flat_opened, flat_end, Option.bind_some, next,
    if_pos closed_ended, List.all_nil, if_pos rfl, Option.map_some, closed_result]

end

/-! ## What an array of one dimension was read from -/

section
variable (d : Delimiter)

/-- What has been read of the token in hand. -/
def Mode.read : Mode → List Char
  | .between => []
  | .quoted read => read
  | .quotedEscape read => read
  | .closing read => read
  | .bare kept blanks _ => kept ++ blanks
  | .bareEscape kept => kept

/-- The text of a token so far, when it has no escapes. -/
def PlainBegun : Mode → List Char → Prop
  | .between, seen => Blank seen
  | .quoted read, seen => ∃ before, seen = before ++ '"' :: read ∧ Blank before ∧ Literal read
  | .closing read, seen => ∃ before after, seen = before ++ '"' :: (read ++ '"' :: after) ∧
      Blank before ∧ Literal read ∧ Blank after
  | .bare kept blanks false, seen => ∃ before, seen = before ++ kept ++ blanks ∧
      Blank before ∧ Bare d kept ∧ Blank blanks
  | _, _ => False

/-- The text of a token so far, when it has some. -/
def EscapeBegun : Mode → List Char → Prop
  | .between, _ => False
  | .bare _ _ false, _ => False
  | mode, seen => mode.read.count '\\' < seen.count '\\'

def Begun (mode : Mode) (seen : List Char) : Prop := PlainBegun d mode seen ∨ EscapeBegun mode seen

end

section
variable {d : Delimiter} {mode mode' : Mode} {c : Char} {p p' r : Parse} {seen : List Char}
  {items : List Item}

theorem Blank.append {a b : List Char} (first : Blank a) (second : Blank b) : Blank (a ++ b) :=
  List.forall_mem_append.mpr ⟨first, second⟩

theorem Blank.singleton (space : isScannerSpace c = true) : Blank [c] :=
  List.forall_mem_singleton.mpr space

theorem bare_singleton (mark : isMark d c = false) (quote : c ≠ '"') (slash : c ≠ '\\')
    (solid : isScannerSpace c = false) : Bare d [c] where
  some_ := List.cons_ne_nil _ _
  first := by simpa using solid
  last := by simpa using solid
  plain := by simpa using ⟨mark, quote, slash⟩

theorem Bare.extend {text blanks : List Char} (word : Bare d text) (blank : Blank blanks)
    (mark : isMark d c = false) (quote : c ≠ '"') (slash : c ≠ '\\')
    (solid : isScannerSpace c = false) : Bare d (text ++ blanks ++ [c]) where
  some_ := by simp
  first := by
    cases text with
    | nil => exact absurd rfl word.some_
    | cons x text => exact word.first
  last := by simpa using solid
  plain := by
    intro x member
    simp only [List.mem_append, List.mem_singleton] at member
    obtain (inText | inBlanks) | rfl := member
    · exact word.plain x inText
    · exact not_mark_of_space (blank x inBlanks)
    · exact ⟨mark, quote, slash⟩

theorem fewer_append {read : List Char} (fewer : read.count '\\' < seen.count '\\') :
    read.count '\\' < (seen ++ [c]).count '\\' := by
  rw [List.count_append]
  omega

theorem fewer_both {read : List Char} (fewer : read.count '\\' < seen.count '\\') :
    (read ++ [c]).count '\\' < (seen ++ [c]).count '\\' := by
  rw [List.count_append, List.count_append]
  omega

/-- What a character does to the token in hand: it goes on, it ends with a mark behind it, or
there was none and the character is a mark. -/
inductive Advance (d : Delimiter) (seen : List Char) (c : Char) (p : Parse) :
    Mode → Mode → Parse → Prop
  | within {mode mode' : Mode} (begun : Begun d mode' (seen ++ [c])) : Advance d seen c p mode mode' p
  | item {mode : Mode} {item : Item} {p' : Parse} (spelled : Spelled d seen item)
      (mark : isMark d c = true) (marked : (p.element item).bind (·.mark c) = some p') :
      Advance d seen c p mode .between p'
  | marked {p' : Parse} (mark : isMark d c = true) (marked : p.mark c = some p') :
      Advance d seen c p .between .between p'

theorem step_between (blank : Blank seen) (taken : step d .between c p = some (mode', p')) :
    Advance d seen c p .between mode' p' := by
  simp only [step] at taken
  split at taken
  · next mark =>
    obtain ⟨q, marked, same⟩ := Option.map_eq_some_iff.mp taken
    obtain ⟨rfl, rfl⟩ := Prod.mk.inj same
    exact .marked mark marked
  split at taken
  · next quote =>
    obtain ⟨rfl, rfl⟩ := Prod.mk.inj (Option.some.inj taken)
    subst quote
    exact .within (.inl ⟨seen, rfl, blank, List.forall_mem_nil _⟩)
  split at taken
  · next space =>
    obtain ⟨rfl, rfl⟩ := Prod.mk.inj (Option.some.inj taken)
    exact .within (.inl (Blank.append blank (Blank.singleton space)))
  split at taken
  · next slash =>
    obtain ⟨rfl, rfl⟩ := Prod.mk.inj (Option.some.inj taken)
    subst slash
    exact .within (.inr (by simp [EscapeBegun, Mode.read]))
  · next mark quote solid slash =>
    obtain ⟨rfl, rfl⟩ := Prod.mk.inj (Option.some.inj taken)
    have word := bare_singleton (by simpa using mark) quote slash (by simpa using solid)
    exact .within (.inl ⟨seen, by simp, blank, word, List.forall_mem_nil _⟩)

theorem step_quoted {read : List Char} (begun : Begun d (.quoted read) seen)
    (taken : step d (.quoted read) c p = some (mode', p')) :
    Advance d seen c p (.quoted read) mode' p' := by
  simp only [step] at taken
  split at taken
  · next slash =>
    obtain ⟨rfl, rfl⟩ := Prod.mk.inj (Option.some.inj taken)
    subst slash
    refine .within (.inr ?_)
    obtain ⟨before, rfl, -, -⟩ | fewer := begun
    · simp [EscapeBegun, Mode.read]
      omega
    · exact fewer_append fewer
  split at taken
  · next quote =>
    obtain ⟨rfl, rfl⟩ := Prod.mk.inj (Option.some.inj taken)
    subst quote
    refine .within ?_
    obtain ⟨before, rfl, blank, literal⟩ | fewer := begun
    · exact .inl ⟨before, [], by simp, blank, literal, List.forall_mem_nil _⟩
    · exact .inr (fewer_append fewer)
  · next slash quote =>
    obtain ⟨rfl, rfl⟩ := Prod.mk.inj (Option.some.inj taken)
    refine .within ?_
    obtain ⟨before, rfl, blank, literal⟩ | fewer := begun
    · have longer := List.forall_mem_append.mpr
        ⟨literal, List.forall_mem_singleton.mpr ⟨quote, slash⟩⟩
      exact .inl ⟨before, by simp, blank, longer⟩
    · exact .inr (fewer_both fewer)

theorem step_closing {read : List Char} (begun : Begun d (.closing read) seen)
    (taken : step d (.closing read) c p = some (mode', p')) :
    Advance d seen c p (.closing read) mode' p' := by
  simp only [step] at taken
  split at taken
  · next mark =>
    obtain ⟨q, marked, same⟩ := Option.map_eq_some_iff.mp taken
    obtain ⟨rfl, rfl⟩ := Prod.mk.inj same
    refine .item ?_ mark marked
    obtain ⟨before, after, rfl, opens, literal, closes⟩ | fewer := begun
    · exact .plain (.quoted opens literal closes)
    · exact .escaped fewer
  split at taken
  · next space =>
    obtain ⟨rfl, rfl⟩ := Prod.mk.inj (Option.some.inj taken)
    refine .within ?_
    obtain ⟨before, after, rfl, opens, literal, closes⟩ | fewer := begun
    · have longer := Blank.append closes (Blank.singleton space)
      exact .inl ⟨before, after ++ [c], by simp, opens, literal, longer⟩
    · exact .inr (fewer_append fewer)
  · cases taken

/-- A bare element without escapes goes on, is kept, or meets its first backslash. -/
theorem step_bare {kept blanks : List Char} (begun : PlainBegun d (.bare kept blanks false) seen)
    (taken : step d (.bare kept blanks false) c p = some (mode', p')) :
    Advance d seen c p (.bare kept blanks false) mode' p' := by
  obtain ⟨before, rfl, opens, word, closes⟩ := begun
  simp only [step] at taken
  split at taken
  · cases taken
  next brace =>
  simp only [Bool.or_eq_true, decide_eq_true_eq, not_or] at brace
  split at taken
  · next slash =>
    obtain ⟨rfl, rfl⟩ := Prod.mk.inj (Option.some.inj taken)
    subst slash
    refine .within (.inr ?_)
    simp [EscapeBegun, Mode.read]
    omega
  split at taken
  · next mark =>
    obtain ⟨q, marked, same⟩ := Option.map_eq_some_iff.mp taken
    obtain ⟨rfl, rfl⟩ := Prod.mk.inj same
    exact .item (.plain (.bare opens word closes)) mark marked
  split at taken
  · next space =>
    obtain ⟨rfl, rfl⟩ := Prod.mk.inj (Option.some.inj taken)
    have longer := Blank.append closes (Blank.singleton space)
    exact .within (.inl ⟨before, by simp, opens, word, longer⟩)
  · next slash mark solid =>
    obtain ⟨rfl, rfl⟩ := Prod.mk.inj (Option.some.inj taken)
    have longer := word.extend closes (by simpa using mark) brace.2 slash (by simpa using solid)
    exact .within (.inl ⟨before, by simp, opens, longer, List.forall_mem_nil _⟩)

theorem step_escaped {kept blanks : List Char}
    (fewer : (kept ++ blanks).count '\\' < seen.count '\\')
    (taken : step d (.bare kept blanks true) c p = some (mode', p')) :
    Advance d seen c p (.bare kept blanks true) mode' p' := by
  simp only [step] at taken
  split at taken
  · cases taken
  split at taken
  · obtain ⟨rfl, rfl⟩ := Prod.mk.inj (Option.some.inj taken)
    exact .within (.inr (fewer_append fewer))
  split at taken
  · next mark =>
    obtain ⟨q, marked, same⟩ := Option.map_eq_some_iff.mp taken
    obtain ⟨rfl, rfl⟩ := Prod.mk.inj same
    refine .item (.escaped ?_) mark marked
    rw [List.count_append] at fewer
    omega
  split at taken
  · obtain ⟨rfl, rfl⟩ := Prod.mk.inj (Option.some.inj taken)
    have both := fewer_both (c := c) fewer
    rw [List.append_assoc] at both
    exact .within (.inr both)
  · obtain ⟨rfl, rfl⟩ := Prod.mk.inj (Option.some.inj taken)
    have both := fewer_both (c := c) fewer
    refine .within (.inr ?_)
    simpa only [EscapeBegun, Mode.read, List.append_nil] using both

theorem step_begun (begun : Begun d mode seen) (taken : step d mode c p = some (mode', p')) :
    Advance d seen c p mode mode' p' := by
  cases mode with
  | between =>
    obtain blank | none_ := begun
    · exact step_between blank taken
    · exact none_.elim
  | quoted read => exact step_quoted begun taken
  | quotedEscape read =>
    obtain ⟨rfl, rfl⟩ := Prod.mk.inj (Option.some.inj taken)
    obtain none_ | fewer := begun
    · exact none_.elim
    · exact .within (.inr (fewer_both fewer))
  | closing read => exact step_closing begun taken
  | bare kept blanks escaped =>
    cases escaped with
    | false =>
      obtain plain | none_ := begun
      · exact step_bare plain taken
      · exact none_.elim
    | true =>
      obtain none_ | fewer := begun
      · exact none_.elim
      · exact step_escaped fewer taken
  | bareEscape kept =>
    obtain ⟨rfl, rfl⟩ := Prod.mk.inj (Option.some.inj taken)
    obtain none_ | fewer := begun
    · exact none_.elim
    · refine .within (.inr ?_)
      simpa only [EscapeBegun, Mode.read, List.append_nil] using fewer_both fewer

/-! The number of dimensions never falls, and a second level of braces is one more. -/

theorem mark_ndim (marked : p.mark c = some p') : p.ndim ≤ p'.ndim := by
  unfold Parse.mark at marked
  split at marked
  · unfold Parse.levelStart at marked
    split at marked
    · cases marked
    split at marked
    · split at marked
      · cases marked
      · next deeper _ =>
        obtain rfl := Option.some.inj marked
        exact deeper.le
    · obtain rfl := Option.some.inj marked
      exact le_refl _
  split at marked
  · unfold Parse.levelEnd at marked
    split at marked
    · cases marked
    split at marked
    · cases marked
    split at marked
    · obtain rfl := Option.some.inj marked
      exact le_refl _
    split at marked
    · obtain rfl := Option.some.inj marked
      exact le_refl _
    · cases marked
  · unfold Parse.delimiter at marked
    split at marked
    · obtain rfl := Option.some.inj marked
      exact le_refl _
    · cases marked

theorem element_ndim {item : Item} (counted : p.element item = some p') : p'.ndim = p.ndim := by
  unfold Parse.element at counted
  split at counted
  · cases counted
  · obtain rfl := Option.some.inj counted
    rfl

/-- A step leaves the braces alone, or reads a mark, an element before it or not. -/
theorem step_parse (taken : step d mode c p = some (mode', p')) :
    p' = p ∨ p.mark c = some p' ∨ ∃ item, (p.element item).bind (·.mark c) = some p' := by
  have unchanged : ∀ m, some (m, p) = some (mode', p') → p' = p := by
    rintro m ⟨⟩
    rfl
  have marked : ∀ o : Option Parse, o.map (Mode.between, ·) = some (mode', p') → o = some p' := by
    intro o mapped
    obtain ⟨q, rfl, same⟩ := Option.map_eq_some_iff.mp mapped
    exact congrArg some (Prod.mk.inj same).2
  cases mode <;> simp only [step] at taken <;> repeat' split at taken
  all_goals first
    | exact .inl (unchanged _ taken)
    | exact .inr (.inl (marked _ taken))
    | exact .inr (.inr ⟨_, marked _ taken⟩)
    | cases taken

theorem step_ndim (taken : step d mode c p = some (mode', p')) : p.ndim ≤ p'.ndim := by
  obtain rfl | marked | ⟨item, counted⟩ := step_parse taken
  · exact le_refl _
  · exact mark_ndim marked
  · obtain ⟨q, counted, marked⟩ := Option.bind_eq_some_iff.mp counted
    rw [← element_ndim counted]
    exact mark_ndim marked

theorem scan_ndim {text : List Char} (scanned : scan d mode p text = some r) : p.ndim ≤ r.ndim := by
  induction text generalizing mode p with
  | nil => cases scanned
  | cons c rest ih =>
    obtain ⟨⟨mode', p'⟩, taken, later⟩ := Option.bind_eq_some_iff.mp scanned
    refine le_trans (step_ndim taken) ?_
    dsimp only at later
    split at later
    · split at later
      · obtain rfl := Option.some.inj later
        exact le_refl _
      · cases later
    · exact ih later

/-- Between the braces a mark with no element before it opens a second level, or closes braces
with nothing in them. -/
theorem flat_mark (marked : (flat items).mark c = some p') :
    p'.ndim = 2 ∧ p'.counts ≠ [] ∨ p'.items = [] ∧ p'.counts = [] := by
  unfold Parse.mark at marked
  split at marked
  · left
    cases items with
    | nil =>
      obtain rfl := Option.some.inj marked
      exact ⟨rfl, List.cons_ne_nil _ _⟩
    | cons item items => cases marked
  split at marked
  · right
    cases items with
    | nil =>
      obtain rfl := Option.some.inj marked
      exact ⟨rfl, rfl⟩
    | cons item items => cases marked
  · cases marked

theorem not_brace_of_marked {item : Item}
    (marked : ((flat items).element item).bind (·.mark c) = some p') : c ≠ '\x7b' := by
  rintro rfl
  rw [flat_element, Option.bind_some] at marked
  cases marked

theorem begun_nil : Begun d .between [] := .inl (List.forall_mem_nil _)

/-- A reading within one pair of braces: it finds none in them but for the last, or no elements,
and else reads the elements that the text spells. -/
theorem scan_spelled {text : List Char} {raws : List (List Char)}
    (spelled : List.Forall₂ (Spelled d) raws items) (begun : Begun d mode seen)
    (scanned : scan d mode (flat items) text = some r) :
    2 ≤ r.ndim ∨ r.items = [] ∨ ∃ raws' last after,
      delimited d raws ++ (seen ++ text) = delimited d raws' ++ (last ++ '\x7d' :: after) ∧
        Blank after ∧ List.Forall₂ (Spelled d) (raws' ++ [last]) r.items := by
  induction text generalizing mode items seen raws with
  | nil => cases scanned
  | cons c rest ih =>
    obtain ⟨⟨mode', p'⟩, taken, later⟩ := Option.bind_eq_some_iff.mp scanned
    dsimp only at later
    cases step_begun begun taken with
    | within begun =>
      rw [if_neg flat_opened] at later
      have found := ih spelled begun later
      rwa [List.append_assoc, List.singleton_append] at found
    | @item _ item _ word mark marked =>
      have longer : List.Forall₂ (Spelled d) (raws ++ [seen]) (items ++ [item]) :=
        List.rel_append spelled (.cons word .nil)
      obtain rfl | rfl | rfl := mark_cases mark
      · exact absurd rfl (not_brace_of_marked marked)
      · obtain rfl := Option.some.inj (flat_end.symm.trans marked)
        rw [if_pos closed_ended] at later
        split at later
        · next blank =>
          obtain rfl := Option.some.inj later
          exact .inr (.inr ⟨raws, seen, rest, rfl, List.all_eq_true.mp blank, longer⟩)
        · cases later
      · obtain rfl := Option.some.inj (flat_delimiter.symm.trans marked)
        rw [if_neg flat_opened] at later
        have found := ih longer begun_nil later
        simpa [delimited] using found
    | marked _ marked =>
      obtain ⟨two, opened⟩ | ⟨empty, closed_⟩ := flat_mark marked
      · rw [if_neg opened] at later
        exact .inl (two.symm.le.trans (scan_ndim later))
      · rw [if_pos closed_] at later
        split at later
        · obtain rfl := Option.some.inj later
          exact .inr (.inl empty)
        · cases later

/-- An array of one dimension was read from the elements between its braces. -/
theorem spelled_of_arrayIn {inside : List Char} {n : Nat} {items : List Item}
    (read : arrayIn d ('\x7b' :: (inside ++ ['\x7d'])) = some ([n], items)) :
    ∃ raws last, inside = delimited d raws ++ last ∧
      List.Forall₂ (Spelled d) (raws ++ [last]) items := by
  have begins : ('\x7b' :: (inside ++ ['\x7d'])).dropWhile isScannerSpace =
      '\x7b' :: (inside ++ ['\x7d']) := List.dropWhile_cons_of_neg (by decide)
  rw [arrayIn, begins] at read
  change (scan d .between (flat []) (inside ++ ['\x7d'])).map (·.result) = _ at read
  obtain ⟨r, scanned, result⟩ := Option.map_eq_some_iff.mp read
  unfold Parse.result at result
  split at result
  · cases result
  next some_ =>
  obtain ⟨dims, rfl⟩ := Prod.mk.inj result
  have one : r.ndim = 1 := by
    have lengths := congrArg List.length dims
    simpa using lengths
  obtain two | none_ | ⟨raws, last, after, text, blank, spelled⟩ :=
    scan_spelled .nil begun_nil scanned
  · omega
  · exact absurd none_ some_
  · -- The text ends with the brace that closes the first.
    refine ⟨raws, last, ?_, spelled⟩
    rw [List.nil_append] at text
    change inside ++ ['\x7d'] = _ at text
    obtain rfl | ⟨front, c, rfl⟩ := List.eq_nil_or_concat after
    · rw [← List.append_assoc] at text
      exact List.append_cancel_right text
    · have whole : inside ++ ['\x7d'] =
          delimited d raws ++ (last ++ '\x7d' :: front) ++ [c] := by
        rw [text]
        simp
      obtain rfl := List.singleton_inj.mp (List.append_inj_right' whole rfl)
      have space := blank '\x7d' (by simp)
      exact absurd space (by decide)

end

end ArrayText

end PgCatalog.Library
