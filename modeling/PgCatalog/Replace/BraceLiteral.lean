import PgCatalog.Library.ArrayText
import PgCatalog.Library.Fallible
import PgCatalog.Sql.Literals

/-! `rewrite_brace_array_literal`: the array a literal in braces is rewritten to, and the one
that PostgreSQL reads in it. -/
namespace PgCatalog.Replace

open Sql Library Library.ArrayText

/-- A string in braces. -/
def isBraced (s : String) : Bool := s.toList.head? = some '\x7b' && s.toList.getLast? = some '\x7d'

/-- `inside`: the string without its first and last character. -/
def insideBraces (s : String) : List Char := s.toList.tail.dropLast

def cleanedPiece (piece : String) : String := trim (trimMatches '"' piece)

def braceItems (s : String) : List Expr :=
  (split ',' (String.ofList (insideBraces s))).map fun piece =>
    .value (.singleQuotedString (cleanedPiece piece))

/-- What the visitor leaves of one expression. -/
def braceToArray : Expr → Expr
  | .value (.singleQuotedString s) =>
    if isBraced s then .node .array (braceItems s) else .value (.singleQuotedString s)
  | e => e

def isBraceLiteral : Expr → Bool
  | .value (.singleQuotedString s) => isBraced s
  | _ => false

/-- The statements rewritten; none where no literal is, and the text is handed on as it came. -/
def rewriteBraceArrayLiteral (statements : List Statement) : Option (List Statement) :=
  if statements.any fun statement => statement.visited.any isBraceLiteral then
    some (statements.map (·.replaced braceToArray))
  else none

/-! ## What a literal is read as -/

/-- How PostgreSQL reads a literal in its place. -/
inductive Reading where
  | array (delim : Delimiter)
  | text
  | other

def literalText : Sql.Value → Option String
  | .singleQuotedString s => some s
  | .escapedStringLiteral s => some s
  | .dollarQuotedString s _ => some s
  | .nationalStringLiteral s => some s
  | _ => none

def arrayElement : Expr → Option Item
  | .value (.singleQuotedString s) => some (some s.toList)
  | .value .null => some none
  | _ => none

/-- The elements of an ARRAY of literals. -/
def arrayElements : Expr → Option (List Item)
  | .node .array es => es.mapM arrayElement
  | _ => none

/-- The dimensions of an ARRAY with these elements. -/
def shapeOf (items : List Item) : List Nat := if items = [] then [] else [items.length]

/-- A literal in braces becomes the array that PostgreSQL reads in it, and stays where it is
read as text. -/
def ReadRight (v : Sql.Value) : Reading → Prop
  | .array d => ∀ s dims items, literalText v = some s → isBraced s = true →
      arrayIn d s.toList = some (dims, items) →
        arrayElements (braceToArray (.value v)) = some items ∧ dims = shapeOf items
  | .text => ∀ s, literalText v = some s → isBraced s = true →
      braceToArray (.value v) = .value v
  | .other => True

/-- Neither end is white space, of ASCII or not. -/
def Tight (text : List Char) : Prop :=
  (∀ c ∈ text.head?, isWhiteSpace c = false) ∧ ∀ c ∈ text.getLast?, isWhiteSpace c = false

/-- A piece between two commas that the split understands: a bare word other than NULL, or
a quoted text without escapes and with no blank around the quotes, neither with white space at
its ends; or an empty quoted text with no blank before it or none behind. -/
inductive SimplePiece (d : Delimiter) : List Char → Prop
  | bare {before text after : List Char} (opens : Blank before) (word : Bare d text)
      (closes : Blank after) (filled : text.map Char.toLower ≠ ['n', 'u', 'l', 'l'])
      (tight : Tight text) : SimplePiece d (before ++ text ++ after)
  | quoted {text : List Char} (literal : Literal text) (tight : Tight text) :
      SimplePiece d ('"' :: (text ++ ['"']))
  | empty {before after : List Char} (opens : Blank before) (closes : Blank after)
      (beside : before = [] ∨ after = []) : SimplePiece d (before ++ '"' :: '"' :: after)

/-- Every piece is simple, and commas delimit the elements if there are any. -/
structure SimpleInside (d : Delimiter) (inside : List Char) : Prop where
  pieces : ∀ piece ∈ inside.splitOn ',', SimplePiece d piece
  commas : d.char = ',' ∨ ',' ∉ inside

/-- A literal read as an array is malformed for PostgreSQL, or an ordinary string of simple
pieces; one that is read as text is no ordinary string in braces. -/
def SplitSuffices (v : Sql.Value) : Reading → Prop
  | .array d => ∀ s, literalText v = some s → isBraced s = true →
      arrayIn d s.toList = none ∨ v = .singleQuotedString s ∧ SimpleInside d (insideBraces s)
  | .text => ∀ s, v = .singleQuotedString s → isBraced s = false
  | .other => True

/-! ## Pieces -/

section
variable {α : Type} {p : α → Bool} {xs pre post : List α}

theorem trimmed_append_left (drops : ∀ x ∈ pre, p x = true) :
    trimmed p (pre ++ xs) = trimmed p xs := by
  induction pre with
  | nil => rfl
  | cons x pre ih =>
    obtain ⟨first, later⟩ := List.forall_mem_cons.mp drops
    rw [List.cons_append, trimmed_cons x first, ih later]

theorem dropWhile_of_all (drops : ∀ x ∈ pre, p x = true) (xs : List α) :
    (pre ++ xs).dropWhile p = xs.dropWhile p := by
  induction pre with
  | nil => rfl
  | cons x pre ih =>
    obtain ⟨first, later⟩ := List.forall_mem_cons.mp drops
    rw [List.cons_append, List.dropWhile_cons_of_pos first, ih later]

theorem trimmed_append_right (drops : ∀ x ∈ post, p x = true) :
    trimmed p (xs ++ post) = trimmed p xs := by
  have gone : post.dropWhile p = [] := by
    have all := dropWhile_of_all drops []
    rwa [List.append_nil] at all
  have backward : ∀ ys, ((ys ++ post).reverse).dropWhile p = ys.reverse.dropWhile p := by
    intro ys
    rw [List.reverse_append]
    exact dropWhile_of_all (fun x member => drops x (List.mem_reverse.mp member)) _
  unfold trimmed
  rw [List.dropWhile_append]
  split
  · next none_ =>
    rw [gone, List.isEmpty_iff.mp none_]
  · rw [backward]

/-- What is not dropped is kept, wherever it stands. -/
theorem mem_trimmed {x : α} (member : x ∈ xs) (keeps : p x = false) : x ∈ trimmed p xs := by
  have kept : ∀ ys : List α, x ∈ ys → x ∈ ys.dropWhile p := by
    intro ys inside
    rw [← List.takeWhile_append_dropWhile (p := p) (l := ys)] at inside
    refine (List.mem_append.mp inside).resolve_left fun dropped => ?_
    have drops := List.mem_takeWhile_imp dropped
    rw [keeps] at drops
    exact Bool.false_ne_true drops
  exact List.mem_reverse.mpr (kept _ (List.mem_reverse.mpr (kept _ member)))

theorem count_trimmed [DecidableEq α] {x : α} (keeps : p x = false) :
    (trimmed p xs).count x = xs.count x := by
  have kept : ∀ ys : List α, (ys.dropWhile p).count x = ys.count x := by
    intro ys
    have parts := congrArg (List.count x) (List.takeWhile_append_dropWhile (p := p) (l := ys))
    rw [List.count_append] at parts
    have none_ : (ys.takeWhile p).count x = 0 := by
      refine List.count_eq_zero.mpr fun dropped => ?_
      have drops := List.mem_takeWhile_imp dropped
      rw [keeps] at drops
      exact Bool.false_ne_true drops
    omega
  rw [trimmed, List.count_reverse, kept, List.count_reverse, kept]

theorem trimmed_of_none (keeps : ∀ x ∈ xs, p x = false) : trimmed p xs = xs :=
  trimmed_eq_self.mpr ⟨fun x first => keeps x (List.mem_of_mem_head? first),
    fun x last => keeps x (List.mem_of_mem_getLast? last)⟩

end

/-- What is made of a piece, as its characters. -/
def cleaned (piece : List Char) : List Char := trimmed isWhiteSpace (trimmed (· = '"') piece)

section
variable {d : Delimiter} {text before after raw : List Char} {item : Item}

theorem white_of_space {c : Char} (space : isScannerSpace c = true) : isWhiteSpace c = true := by
  simp only [isScannerSpace, Bool.or_eq_true, Bool.and_eq_true, decide_eq_true_eq] at space
  simp only [isWhiteSpace, Bool.or_eq_true, Bool.and_eq_true, decide_eq_true_eq]
  obtain blank | range := space
  · left
    left
    rw [blank]
    decide
  · exact .inl (.inr range)

theorem white_of_blank (blank : Blank text) : ∀ c ∈ text, isWhiteSpace c = true :=
  fun c member => white_of_space (blank c member)

theorem quote_free_of_blank (blank : Blank text) : ∀ c ∈ text, decide (c = '"') = false :=
  fun c member => decide_eq_false (not_mark_of_space (d := comma) (blank c member)).2.1

theorem quote_free_of_literal (literal : Literal text) : ∀ c ∈ text, decide (c = '"') = false :=
  fun c member => decide_eq_false (literal c member).1

theorem quote_free_of_bare (word : Bare d text) : ∀ c ∈ text, decide (c = '"') = false :=
  fun c member => decide_eq_false (word.plain c member).2.1

theorem cleaned_bare (opens : Blank before) (word : Bare d text) (closes : Blank after) :
    cleaned (before ++ text ++ after) = trimmed isWhiteSpace text := by
  have quotes : trimmed (· = '"') (before ++ text ++ after) = before ++ text ++ after := by
    refine trimmed_of_none fun c member => ?_
    simp only [List.mem_append] at member
    obtain (inBefore | inText) | inAfter := member
    · exact quote_free_of_blank opens c inBefore
    · exact quote_free_of_bare word c inText
    · exact quote_free_of_blank closes c inAfter
  rw [cleaned, quotes, trimmed_append_right (white_of_blank closes),
    trimmed_append_left (white_of_blank opens)]

theorem tight_iff : trimmed isWhiteSpace text = text ↔ Tight text := trimmed_eq_self

/-- A quote that is left within is left in the end, and no literal text has one. -/
theorem cleaned_ne (literal : Literal text)
    (left : '"' ∈ trimmed (· = '"') raw) : cleaned raw ≠ text := by
  rintro rfl
  have kept : '"' ∈ cleaned raw := mem_trimmed left (by decide)
  exact (literal _ kept).1 rfl

theorem cleaned_blank (blank : Blank text) : trimmed isWhiteSpace text = [] := by
  have nothing : trimmed isWhiteSpace (text ++ []) = [] := trimmed_append_left (white_of_blank blank)
  rwa [List.append_nil] at nothing

/-- With a blank before the quotes and none behind, only the last quotes go. -/
theorem cleaned_blank_before (some_ : before ≠ []) (opens : Blank before)
    (literal : Literal text) : cleaned (before ++ '"' :: (text ++ ['"'])) = text ↔ text = [] := by
  have quotes : ∀ c ∈ ['"'], decide (c = '"') = true := by simp
  have shorter : trimmed (· = '"') (before ++ '"' :: (text ++ ['"'])) =
      trimmed (· = '"') (before ++ '"' :: text) := by
    rw [← List.cons_append, ← List.append_assoc, trimmed_append_right quotes]
  constructor
  · intro kept
    by_contra filled
    refine cleaned_ne literal ?_ kept
    rw [shorter, trimmed_eq_self.mpr]
    · simp
    refine ⟨fun c first => ?_, fun c last => ?_⟩
    · rw [List.head?_append_of_ne_nil _ some_] at first
      exact quote_free_of_blank opens c (List.mem_of_mem_head? first)
    · rw [List.getLast?_append_of_ne_nil _ (List.cons_ne_nil _ _),
        List.getLast?_cons_of_ne_nil filled] at last
      exact quote_free_of_literal literal c (List.mem_of_mem_getLast? last)
  · rintro rfl
    rw [cleaned, shorter, trimmed_append_right quotes,
      trimmed_of_none (quote_free_of_blank opens), cleaned_blank opens]

/-- With a blank behind the quotes and none before, only the first quotes go. -/
theorem cleaned_blank_after (some_ : after ≠ []) (literal : Literal text)
    (closes : Blank after) : cleaned ('"' :: (text ++ '"' :: after)) = text ↔ text = [] := by
  have quotes : ∀ c ∈ ['"'], decide (c = '"') = true := by simp
  have shorter : ∀ xs, trimmed (· = '"') ('"' :: xs) = trimmed (· = '"') xs :=
    fun xs => trimmed_cons '"' rfl
  constructor
  · intro kept
    by_contra filled
    refine cleaned_ne literal ?_ kept
    rw [shorter, trimmed_eq_self.mpr]
    · simp
    refine ⟨fun c first => ?_, fun c last => ?_⟩
    · rw [List.head?_append_of_ne_nil _ filled] at first
      exact quote_free_of_literal literal c (List.mem_of_mem_head? first)
    · rw [List.getLast?_append_of_ne_nil _ (List.cons_ne_nil _ _),
        List.getLast?_cons_of_ne_nil some_] at last
      exact quote_free_of_blank closes c (List.mem_of_mem_getLast? last)
  · rintro rfl
    rw [List.nil_append, cleaned, shorter, shorter,
      trimmed_of_none (quote_free_of_blank closes), cleaned_blank closes]

/-- Between blanks the quotes stay. -/
theorem cleaned_blanks (first : before ≠ []) (last : after ≠ []) (opens : Blank before)
    (literal : Literal text) (closes : Blank after) :
    cleaned (before ++ '"' :: (text ++ '"' :: after)) ≠ text := by
  refine cleaned_ne literal ?_
  rw [trimmed_eq_self.mpr]
  · simp
  refine ⟨fun c head => ?_, fun c end_ => ?_⟩
  · rw [List.head?_append_of_ne_nil _ first] at head
    exact quote_free_of_blank opens c (List.mem_of_mem_head? head)
  · rw [← List.cons_append, ← List.append_assoc,
      List.getLast?_append_of_ne_nil _ (List.cons_ne_nil _ _),
      List.getLast?_cons_of_ne_nil last] at end_
    exact quote_free_of_blank closes c (List.mem_of_mem_getLast? end_)

theorem cleaned_quotes (literal : Literal text) :
    cleaned ('"' :: (text ++ ['"'])) = text ↔ Tight text := by
  have quotes : ∀ c ∈ ['"'], decide (c = '"') = true := by simp
  rw [cleaned, trimmed_cons '"' rfl, trimmed_append_right quotes,
    trimmed_of_none (quote_free_of_literal literal), tight_iff]

/-- An element without escapes is what the code makes of it exactly when it is simple. -/
theorem plain_iff_simple : Plain d raw (some (cleaned raw)) ↔ SimplePiece d raw := by
  constructor
  · intro spelled
    generalize same : some (cleaned raw) = item at spelled
    cases spelled with
    | @bare before text after opens word closes =>
      rw [cleaned_bare opens word closes, bareItem] at same
      split at same
      · cases same
      next filled =>
      simp only [Bool.not_false, Bool.true_and, decide_eq_true_eq] at filled
      exact .bare opens word closes filled (tight_iff.mp (Option.some.inj same))
    | @quoted before text after opens literal closes =>
      have kept := Option.some.inj same
      obtain rfl | first := Decidable.em (before = []) <;>
        obtain rfl | last := Decidable.em (after = [])
      · exact .quoted literal ((cleaned_quotes literal).mp kept)
      · obtain rfl := (cleaned_blank_after last literal closes).mp kept
        exact .empty opens closes (.inl rfl)
      · obtain rfl := (cleaned_blank_before first opens literal).mp kept
        exact .empty opens closes (.inr rfl)
      · exact absurd kept (cleaned_blanks first last opens literal closes)
  · intro simple
    cases simple with
    | @bare before text after opens word closes filled tight =>
      have item : bareItem text false = some text := by simp [bareItem, filled]
      rw [cleaned_bare opens word closes, tight_iff.mpr tight, ← item]
      exact .bare opens word closes
    | @quoted text literal tight =>
      rw [(cleaned_quotes literal).mpr tight]
      have nothing : Blank [] := List.forall_mem_nil _
      exact .quoted nothing literal nothing
    | @empty before after opens closes beside =>
      have literal : Literal [] := List.forall_mem_nil _
      have kept : cleaned (before ++ '"' :: '"' :: after) = [] := by
        obtain rfl | rfl := beside
        · obtain rfl | last := Decidable.em (after = [])
          · exact (cleaned_quotes literal).mpr (by simp [Tight])
          · exact (cleaned_blank_after last literal closes).mpr rfl
        · obtain rfl | first := Decidable.em (before = [])
          · exact (cleaned_quotes literal).mpr (by simp [Tight])
          · exact (cleaned_blank_before first opens literal).mpr rfl
      rw [kept]
      exact .quoted opens literal closes

end

/-! ## The whole text -/

section
variable {d : Delimiter} {raws : List (List Char)} {last inside : List Char} {items : List Item}

theorem delimited_intercalate (raws : List (List Char)) (last : List Char) :
    delimited d raws ++ last = [d.char].intercalate (raws ++ [last]) := by
  induction raws with
  | nil => simp [delimited]
  | cons raw raws ih =>
    have some_ : raws ++ [last] ≠ [] := by simp
    rw [List.cons_append, List.intercalate_cons_of_ne_nil some_, ← ih]
    simp [delimited]

theorem splitOn_delimited (free : ∀ raw ∈ raws ++ [last], d.char ∉ raw) :
    (delimited d raws ++ last).splitOn d.char = raws ++ [last] := by
  rw [delimited_intercalate]
  exact List.splitOn_intercalate d.char free (by simp)

theorem exists_delimited (d : Delimiter) (inside : List Char) : ∃ raws last,
    inside.splitOn d.char = raws ++ [last] ∧ inside = delimited d raws ++ last := by
  obtain none_ | ⟨raws, last, pieces⟩ := List.eq_nil_or_concat (inside.splitOn d.char)
  · exact absurd none_ (List.splitOn_ne_nil _ _)
  · rw [List.concat_eq_append] at pieces
    refine ⟨raws, last, pieces, ?_⟩
    rw [delimited_intercalate, ← pieces, List.intercalate_splitOn]

theorem splitOn_of_free {c : Char} (free : c ∉ inside) : inside.splitOn c = [inside] := by
  have pieces : ∀ piece ∈ [inside], c ∉ piece := by simpa using free
  have single := List.splitOn_intercalate c pieces (by simp)
  simpa using single

theorem mem_of_mem_delimited {c : Char} (other : c ≠ d.char)
    (member : c ∈ delimited d raws ++ last) : ∃ raw ∈ raws ++ [last], c ∈ raw := by
  obtain before | inLast := List.mem_append.mp member
  · obtain ⟨raw, inRaws, inside_⟩ := List.mem_flatMap.mp before
    simp only [List.mem_append, List.mem_singleton, other, or_false] at inside_
    exact ⟨raw, List.mem_append_left _ inRaws, inside_⟩
  · exact ⟨last, by simp, inLast⟩

theorem char_ne_slash : d.char ≠ '\\' := fun same => d.plain (by simp [same])

theorem count_delimited :
    (delimited d raws ++ last).count '\\' = (raws ++ [last]).flatten.count '\\' := by
  induction raws with
  | nil => simp [delimited]
  | cons raw raws ih =>
    have delim : [d.char].count '\\' = 0 := by simp [char_ne_slash]
    have head : delimited d (raw :: raws) = raw ++ [d.char] ++ delimited d raws := rfl
    rw [head, List.cons_append, List.flatten_cons]
    simp only [List.count_append, delim] at ih ⊢
    omega

theorem count_cleaned (raw : List Char) : (cleaned raw).count '\\' = raw.count '\\' := by
  rw [cleaned, count_trimmed (by decide), count_trimmed (by decide)]

/-- Cutting at the delimiter and cleaning the pieces loses no backslash. -/
theorem count_pieces (d : Delimiter) (inside : List Char) :
    ((inside.splitOn d.char).map cleaned).flatten.count '\\' = inside.count '\\' := by
  obtain ⟨raws, last, pieces, whole⟩ := exists_delimited d inside
  have cleaning : ∀ raws : List (List Char),
      (raws.map cleaned).flatten.count '\\' = raws.flatten.count '\\' := by
    intro raws
    rw [List.count_flatten, List.count_flatten, List.map_map]
    exact congrArg List.sum (List.map_congr_left fun raw _ => count_cleaned raw)
  rw [cleaning, pieces, whole, count_delimited]

theorem plain_parts {raw text : List Char} (spelled : Plain d raw (some text)) :
    ∃ before after, Blank before ∧ Blank after ∧
      (raw = before ++ text ++ after ∨ raw = before ++ '"' :: (text ++ '"' :: after)) := by
  generalize same : some text = item at spelled
  cases spelled with
  | @bare before word after opens plain closes =>
    unfold bareItem at same
    split at same
    · cases same
    · obtain rfl := Option.some.inj same
      exact ⟨before, after, opens, closes, .inl rfl⟩
  | @quoted before literal after opens plain closes =>
    obtain rfl := Option.some.inj same
    exact ⟨before, after, opens, closes, .inr rfl⟩

theorem spelled_count {raw text : List Char} (spelled : Spelled d raw (some text)) :
    text.count '\\' ≤ raw.count '\\' ∧
      (text.count '\\' = raw.count '\\' → Plain d raw (some text)) := by
  cases spelled with
  | plain spelled =>
    refine ⟨?_, fun _ => spelled⟩
    obtain ⟨before, after, -, -, rfl | rfl⟩ := plain_parts spelled <;>
      simp only [List.count_append, List.count_cons] <;> omega
  | escaped fewer => exact ⟨by omega, by omega⟩

/-- Where no backslash is lost, no element has an escape. -/
theorem plain_of_count {raws texts : List (List Char)}
    (spelled : List.Forall₂ (Spelled d) raws (texts.map some)) :
    texts.flatten.count '\\' ≤ raws.flatten.count '\\' ∧
      (texts.flatten.count '\\' = raws.flatten.count '\\' →
        List.Forall₂ (Plain d) raws (texts.map some)) := by
  induction texts generalizing raws with
  | nil =>
    obtain rfl := List.forall₂_nil_right_iff.mp spelled
    exact ⟨le_refl _, fun _ => .nil⟩
  | cons text texts ih =>
    rw [List.map_cons] at spelled
    obtain ⟨raw, raws, first, later, rfl⟩ := List.forall₂_cons_right_iff.mp spelled
    obtain ⟨bound, plain⟩ := spelled_count first
    obtain ⟨bounds, plains⟩ := ih later
    simp only [List.flatten_cons, List.count_append]
    refine ⟨by omega, fun same => ?_⟩
    exact .cons (plain (by omega)) (plains (by omega))

theorem comma_free_of_plain {raw text : List Char} (spelled : Plain d raw (some text))
    (free : ',' ∉ text) : ',' ∉ raw := by
  have blanks : ∀ {before : List Char}, Blank before → ',' ∉ before := by
    intro before blank member
    exact absurd (blank ',' member) (by decide)
  obtain ⟨before, after, opens, closes, rfl | rfl⟩ := plain_parts spelled <;>
    simp [blanks opens, blanks closes, free]

theorem comma_free_cleaned {raw : List Char} (free : ',' ∉ raw) : ',' ∉ cleaned raw :=
  fun member => free (trimmed_sublist.subset (trimmed_sublist.subset member))

/-- What PostgreSQL reads between the braces is what the split at commas makes of it exactly
when every piece is simple. -/
theorem split_right_iff {dims : List Nat} (inside : List Char)
    (read : arrayIn d ('\x7b' :: (inside ++ ['\x7d'])) = some (dims, items)) :
    ((inside.splitOn ',').map cleaned).map some = items ∧ dims = shapeOf items ↔
      SimpleInside d inside := by
  constructor
  · rintro ⟨rfl, rfl⟩
    have some_ : ((inside.splitOn ',').map cleaned).map some ≠ [] := by
      simp [List.splitOn_ne_nil]
    rw [shapeOf, if_neg some_] at read
    obtain ⟨raws, last, whole, spelled⟩ := spelled_of_arrayIn read
    have counts : ((inside.splitOn ',').map cleaned).flatten.count '\\' =
        (raws ++ [last]).flatten.count '\\' := by
      rw [← count_delimited (d := d), ← whole]
      exact count_pieces comma inside
    have plain := (plain_of_count spelled).2 counts
    -- No piece has a comma in it, so no element has.
    have free : ∀ raw ∈ raws ++ [last], ',' ∉ raw := by
      intro raw member
      obtain ⟨item, made, spelling⟩ := forall₂_mem plain member
      obtain ⟨text, piece, rfl⟩ := List.mem_map.mp made
      obtain ⟨raw', inPieces, rfl⟩ := List.mem_map.mp piece
      exact comma_free_of_plain spelling (comma_free_cleaned (not_mem_splitOn _ _ _ inPieces))
    have commas : d.char = ',' ∨ ',' ∉ inside := by
      refine or_iff_not_imp_left.mpr fun other member => ?_
      rw [whole] at member
      obtain ⟨raw, inRaws, inside_⟩ := mem_of_mem_delimited (Ne.symm other) member
      exact free raw inRaws inside_
    have cut : inside.splitOn ',' = raws ++ [last] := by
      obtain same | none_ := commas
      · rw [whole, ← same]
        exact splitOn_delimited fun raw member => same ▸ free raw member
      · have one : inside.splitOn ',' = [inside] := splitOn_of_free none_
        rw [one] at spelled
        have lengths := spelled.length_eq
        obtain rfl : raws = [] := List.eq_nil_of_length_eq_zero (by simpa using lengths)
        rw [one, whole]
        rfl
    refine ⟨fun piece member => plain_iff_simple.mp ?_, commas⟩
    rw [cut, List.map_map, List.forall₂_map_right_iff, List.forall₂_same] at plain
    exact plain piece (cut ▸ member)
  · intro simple
    obtain ⟨raws, last, cut, whole⟩ : ∃ raws last,
        inside.splitOn ',' = raws ++ [last] ∧ inside = delimited d raws ++ last := by
      obtain same | none_ := simple.commas
      · rw [← same]
        exact exists_delimited d inside
      · exact ⟨[], inside, splitOn_of_free none_, rfl⟩
    have plain : ∀ raw ∈ raws ++ [last], Plain d raw (some (cleaned raw)) :=
      fun raw member => plain_iff_simple.mpr (simple.pieces raw (cut ▸ member))
    have front : List.Forall₂ (Plain d) raws (raws.map (some ∘ cleaned)) := by
      rw [List.forall₂_map_right_iff, List.forall₂_same]
      exact fun raw member => plain raw (List.mem_append_left _ member)
    rw [whole, arrayIn_plain front (plain last (by simp))] at read
    obtain ⟨rfl, rfl⟩ := Prod.mk.inj (Option.some.inj read)
    rw [cut, shapeOf, if_neg (by simp)]
    simp

end

/-! ## Literals and statements -/

section
variable {v : Sql.Value} {s : String}

theorem toList_of_braced (braced : isBraced s = true) :
    s.toList = '\x7b' :: (insideBraces s ++ ['\x7d']) := by
  simp only [isBraced, Bool.and_eq_true, decide_eq_true_eq] at braced
  obtain ⟨first, last⟩ := braced
  unfold insideBraces
  generalize s.toList = text at first last
  cases text with
  | nil => cases first
  | cons c rest =>
    obtain rfl := Option.some.inj first
    obtain rfl | ⟨front, e, rfl⟩ := List.eq_nil_or_concat rest
    · cases last
    · rw [List.concat_eq_append] at last ⊢
      rw [← List.cons_append, List.getLast?_append_of_ne_nil _ (List.cons_ne_nil _ _)] at last
      obtain rfl := Option.some.inj last
      simp

theorem arrayElements_braceItems (s : String) : arrayElements (.node .array (braceItems s)) =
    some (((insideBraces s).splitOn ',').map cleaned |>.map some) := by
  have pieces : braceItems s = ((insideBraces s).splitOn ',').map fun piece =>
      .value (.singleQuotedString (cleanedPiece (String.ofList piece))) := by
    rw [braceItems, split, String.toList_ofList, List.map_map]
    rfl
  rw [arrayElements, pieces, List.mapM_map, List.map_map]
  refine mapM_eq_some.mpr ?_
  rw [List.forall₂_map_right_iff, List.forall₂_same]
  intro piece _
  simp [arrayElement, cleanedPiece, cleaned, trim, trimMatches]

/-- A literal is read right in its place exactly when the split suffices there. -/
theorem readRight_iff (v : Sql.Value) (reading : Reading) :
    ReadRight v reading ↔ SplitSuffices v reading := by
  cases reading with
  | other => exact Iff.rfl
  | text =>
    constructor
    · rintro kept s rfl
      by_contra braced
      rw [Bool.not_eq_false] at braced
      have same := kept s rfl braced
      rw [braceToArray, if_pos braced] at same
      cases same
    · intro suffices_ s _ braced
      cases v with
      | singleQuotedString t =>
        rw [braceToArray, suffices_ t rfl]
        rfl
      | _ => rfl
  | array d =>
    refine forall_congr' fun s => ?_
    constructor
    · intro right text braced
      refine or_iff_not_imp_left.mpr fun some_ => ?_
      obtain ⟨⟨dims, items⟩, read⟩ := Option.ne_none_iff_exists'.mp some_
      obtain ⟨elements, shape⟩ := right dims items text braced read
      cases v with
      | singleQuotedString t =>
        obtain rfl := Option.some.inj text
        refine ⟨rfl, ?_⟩
        rw [braceToArray, if_pos braced, arrayElements_braceItems] at elements
        rw [toList_of_braced braced] at read
        exact (split_right_iff _ read).mp ⟨Option.some.inj elements, shape⟩
      | _ => cases elements
    · intro suffices_ dims items text braced read
      obtain none_ | ⟨rfl, simple⟩ := suffices_ text braced
      · rw [none_] at read
        cases read
      · rw [toList_of_braced braced] at read
        obtain ⟨elements, shape⟩ := (split_right_iff _ read).mpr simple
        rw [braceToArray, if_pos braced, arrayElements_braceItems, elements]
        exact ⟨rfl, shape⟩

end

/-- What is handed on: the statements as they came where none has a literal in braces. -/
def handedOn (statements : List Statement) : List Statement :=
  (rewriteBraceArrayLiteral statements).getD statements

def statementLiterals (statements : List Statement) : List Sql.Value :=
  literals (statements.flatMap (·.visited))

theorem braceToArray_keeps (e : Expr) (other : e.literal = none) : braceToArray e = e := by
  cases e with
  | value v => cases other
  | _ => rfl

theorem becomes_of_not_brace {v : Sql.Value} (other : isBraceLiteral (.value v) = false) :
    becomes braceToArray v = [v] := by
  cases v with
  | singleQuotedString s =>
    rw [isBraceLiteral] at other
    rw [becomes, braceToArray, other]
    rfl
  | _ => rfl

theorem literals_map_replaced (statements : List Statement) :
    literals ((statements.map (·.replaced braceToArray)).flatMap (·.visited)) =
      (literals (statements.flatMap (·.visited))).flatMap (becomes braceToArray) := by
  induction statements with
  | nil => rfl
  | cons statement rest ih =>
    simp only [List.map_cons, List.flatMap_cons, literals_append, List.flatMap_append,
      statement.literals_replaced braceToArray_keeps, ih]

/-- Every literal is left, or the ones of its array stand in its place; nothing else changes. -/
theorem literals_handedOn (statements : List Statement) :
    statementLiterals (handedOn statements) =
      (statementLiterals statements).flatMap (becomes braceToArray) := by
  unfold handedOn rewriteBraceArrayLiteral statementLiterals
  split
  · exact literals_map_replaced statements
  · next none_ =>
    rw [Option.getD_none]
    refine (List.flatMap_singleton' _).symm.trans (List.flatMap_congr fun v member => ?_)
    refine (becomes_of_not_brace ?_).symm
    obtain ⟨e, visited, literal⟩ := List.mem_filterMap.mp member
    obtain ⟨statement, listed, inside⟩ := List.mem_flatMap.mp visited
    cases e with
    | value v' =>
      obtain rfl := Option.some.inj literal
      by_contra brace
      rw [Bool.not_eq_false] at brace
      have met : statement.visited.any isBraceLiteral = true :=
        List.any_eq_true.mpr ⟨_, inside, brace⟩
      exact none_ (List.any_eq_true.mpr ⟨statement, listed, met⟩)
    | _ => cases literal

/-- `SELECT CAST('{}' AS text[])`. -/
def emptyArrayLiteral : Statement :=
  .query ⟨none, .select ⟨.no, [.unnamedExpr (.cast .cast
    (.value (.singleQuotedString "\x7b\x7d"))
    (.array (.named [.identifier (Ident.new "text")] [])))], [], none, .expressions [], none⟩,
    [], none, none⟩

end PgCatalog.Replace
