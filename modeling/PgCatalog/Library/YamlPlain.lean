import Mathlib.Data.List.DropRight
import Mathlib.Data.List.TakeWhile

/-! Trees of scalars, sequences and mappings, and the scalars a block document writes without
quotes: which number or word a plain text is, and how far it goes. -/
namespace PgCatalog.Library.Yaml

def dropSign : List Char → List Char
  | '-' :: rest => rest
  | '+' :: rest => rest
  | text => text

def isExponent : List Char → Bool
  | [] => true
  | c :: rest => (c = 'e' || c = 'E') && dropSign rest ≠ [] && (dropSign rest).all Char.isDigit

def isFraction : List Char → Bool
  | '.' :: rest => isExponent (rest.dropWhile Char.isDigit)
  | rest => isExponent rest

def isUnsigned : List Char → Bool
  | '.' :: c :: rest => c.isDigit && isExponent (rest.dropWhile Char.isDigit)
  | c :: rest => c.isDigit && isFraction (rest.dropWhile Char.isDigit)
  | [] => false

/-- The integers and floats written in decimal. -/
def isDecimal (text : List Char) : Bool := isUnsigned (dropSign text)

/-- The numbers written otherwise. -/
def isOtherNumber (text : List Char) : Bool :=
  (match text with
    | '0' :: 'o' :: c :: rest => (c :: rest).all fun d => '0' ≤ d && d ≤ '7'
    | '0' :: 'x' :: c :: rest => (c :: rest).all fun d =>
        d.isDigit || ('a' ≤ d && d ≤ 'f') || ('A' ≤ d && d ≤ 'F')
    | _ => false) ||
  dropSign text ∈ [".inf".toList, ".Inf".toList, ".INF".toList] ||
  text ∈ [".nan".toList, ".NaN".toList, ".NAN".toList]

/-- A number as it is written. -/
structure Decimal where
  text : List Char
  decimal : isDecimal text = true
  deriving DecidableEq

/-- The tree a document stands for. -/
inductive Node where
  | null
  | bool (b : Bool)
  | number (n : Decimal)
  | string (s : String)
  | array (items : List Node)
  | object (pairs : List (String × Node))

/-- What a plain text stands for; the tree has no place for numbers not written in decimal. -/
def resolvePlain (text : List Char) : Option Node :=
  if number : isDecimal text = true then some (.number ⟨text, number⟩)
  else if isOtherNumber text then none
  else if text ∈ ["null".toList, "Null".toList, "NULL".toList, "~".toList] then some .null
  else if text ∈ ["true".toList, "True".toList, "TRUE".toList] then some (.bool true)
  else if text ∈ ["false".toList, "False".toList, "FALSE".toList] then some (.bool false)
  else some (.string (String.ofList text))

def isBreak (c : Char) : Bool := c = '\n' || c = '\r'

def isBlank (c : Char) : Bool := c = ' ' || c = '\t'

/-- Whether a blank, a line break or the end comes next. -/
def blankNext : List Char → Bool
  | [] => true
  | c :: _ => isBlank c || isBreak c

/-- The characters that open a comment or a scalar of another style. -/
def indicators : List Char := ",[]\x7b\x7d#&*!|>'\"%@".toList ++ [Char.ofNat 0x60]

def startsPlain : List Char → Bool
  | [] => false
  | c :: rest =>
    if c ∈ ['-', '?', ':'] then !blankNext rest
    else !isBlank c && !isBreak c && c ∉ indicators

/-- The characters of plain text; a byte order mark is none. -/
def printable (c : Char) : Bool :=
  c = '\t' || (0x20 ≤ c.toNat && c.toNat ≤ 0x7e) || c.toNat = 0x85 ||
    (0xa0 ≤ c.toNat && c.toNat ≤ 0xfffd && c.toNat ≠ 0xfeff) || 0x10000 ≤ c.toNat

/-- The text before a colon with a blank behind it, a comment or the end of the line, and what
follows. -/
def plainSpan : List Char → List Char × List Char
  | [] => ([], [])
  | c :: rest =>
    if isBreak c || (c = ':' && blankNext rest) || (isBlank c && rest.head? = some '#') then
      ([], c :: rest)
    else (c :: (plainSpan rest).1, (plainSpan rest).2)

/-- The plain text at the head, without the blanks behind it, and what follows. -/
def plainText (text : List Char) : Option (List Char × List Char) :=
  let plain := (plainSpan text).1.rdropWhile isBlank
  if startsPlain text && plain.all printable then some (plain, (plainSpan text).2) else none

section
variable {text rest : List Char} {c : Char}

def inNumber (c : Char) : Bool := c.isDigit || c ∈ ['+', '-', '.', 'e', 'E']

theorem inNumber_of_digit (digit : c.isDigit = true) : inNumber c = true := by
  simp [inNumber, digit]

theorem inNumber_of_dropWhile (after : (text.dropWhile Char.isDigit).all inNumber = true) :
    text.all inNumber = true := by
  induction text with
  | nil => rfl
  | cons c text ih =>
    by_cases digit : c.isDigit = true
    · rw [List.dropWhile_cons_of_pos digit] at after
      simp [inNumber_of_digit digit, ih after]
    · rwa [List.dropWhile_cons_of_neg digit] at after

theorem inNumber_of_dropSign (after : (dropSign text).all inNumber = true) :
    text.all inNumber = true := by
  unfold dropSign at after
  split at after
  · simp only [List.all_cons, after, Bool.and_true]
    rfl
  · simp only [List.all_cons, after, Bool.and_true]
    rfl
  · exact after

theorem isExponent_inNumber (exponent : isExponent text = true) : text.all inNumber = true := by
  cases text with
  | nil => rfl
  | cons c rest =>
    simp only [isExponent, Bool.and_eq_true, Bool.or_eq_true, decide_eq_true_eq] at exponent
    obtain ⟨⟨mark, -⟩, digits⟩ := exponent
    have sign : rest.all inNumber = true := by
      apply inNumber_of_dropSign
      rw [List.all_eq_true] at digits ⊢
      exact fun d member => inNumber_of_digit (digits d member)
    rcases mark with rfl | rfl <;> simp [sign, inNumber]

theorem isFraction_inNumber (fraction : isFraction text = true) : text.all inNumber = true := by
  unfold isFraction at fraction
  split at fraction
  · simp only [List.all_cons, inNumber_of_dropWhile (isExponent_inNumber fraction), Bool.and_true]
    rfl
  · exact isExponent_inNumber fraction

theorem isUnsigned_inNumber (number : isUnsigned text = true) : text.all inNumber = true := by
  unfold isUnsigned at number
  split at number
  · obtain ⟨digit, exponent⟩ := Bool.and_eq_true_iff.mp number
    have after := inNumber_of_dropWhile (isExponent_inNumber exponent)
    simp only [List.all_cons, inNumber_of_digit digit, after, Bool.and_true]
    rfl
  · obtain ⟨digit, fraction⟩ := Bool.and_eq_true_iff.mp number
    have after := inNumber_of_dropWhile (isFraction_inNumber fraction)
    simp [inNumber_of_digit digit, after]
  · rfl

theorem isDecimal_inNumber (decimal : isDecimal text = true) : text.all inNumber = true :=
  inNumber_of_dropSign (isUnsigned_inNumber decimal)

/-- A character that plain text has no rule of its own for. -/
def inWord (c : Char) : Bool := !isBreak c && !isBlank c && c ≠ ':' && printable c

theorem inWord_iff : inWord c = true ↔
    isBreak c = false ∧ isBlank c = false ∧ c ≠ ':' ∧ printable c = true := by
  simp [inWord, and_assoc]

theorem inNumber_inWord (member : inNumber c = true) : inWord c = true := by
  simp only [inNumber, Char.isDigit, Bool.or_eq_true, Bool.and_eq_true, decide_eq_true_eq,
    List.mem_cons, List.not_mem_nil, or_false] at member
  rcases member with ⟨low, high⟩ | rfl | rfl | rfl | rfl | rfl
  · have low : 48 ≤ c.toNat := low
    have high : c.toNat ≤ 57 := high
    have other : ∀ d : Char, d.toNat < 48 ∨ 57 < d.toNat → c ≠ d := by
      rintro d apart rfl
      omega
    rw [inWord_iff]
    simp only [isBreak, isBlank, printable, other '\n' (by decide), other '\r' (by decide),
      other ' ' (by decide), other '\t' (by decide)]
    refine ⟨by simp, by simp, other ':' (by decide), ?_⟩
    simp only [Bool.or_eq_true, Bool.and_eq_true, decide_eq_true_eq]
    omega
  all_goals decide

theorem isDecimal_inWord (decimal : isDecimal text = true) : text.all inWord = true := by
  rw [List.all_eq_true]
  intro c member
  exact inNumber_inWord (List.all_eq_true.mp (isDecimal_inNumber decimal) c member)

/-- How a number starts behind its sign. -/
def opensNumber (c : Char) : Bool := c.isDigit || c = '.'

theorem isUnsigned_start (number : isUnsigned text = true) :
    ∃ c rest, text = c :: rest ∧ opensNumber c = true := by
  unfold isUnsigned at number
  split at number
  · exact ⟨_, _, rfl, rfl⟩
  · exact ⟨_, _, rfl, by simp [opensNumber, (Bool.and_eq_true_iff.mp number).1]⟩
  · contradiction

theorem not_mem_of_opensNumber {cs : List Char} (start : opensNumber c = true)
    (others : cs.all (fun d => !opensNumber d) = true) : c ∉ cs := by
  intro member
  have other := List.all_eq_true.mp others c member
  simp [start] at other

theorem start_apart (start : opensNumber c = true) :
    c ∉ ['-', '?', ':'] ∧ c ∉ indicators ∧ isBlank c = false ∧ isBreak c = false := by
  refine ⟨not_mem_of_opensNumber start (by decide), not_mem_of_opensNumber start (by decide),
    ?_, ?_⟩
  · rw [isBlank, Bool.or_eq_false_iff, decide_eq_false_iff_not, decide_eq_false_iff_not]
    constructor <;> (rintro rfl; revert start; decide)
  · rw [isBreak, Bool.or_eq_false_iff, decide_eq_false_iff_not, decide_eq_false_iff_not]
    constructor <;> (rintro rfl; revert start; decide)

theorem startsPlain_of_start (start : opensNumber c = true) :
    startsPlain (c :: rest) = true := by
  obtain ⟨sign, other, blank, ending⟩ := start_apart start
  simp [startsPlain, sign, other, blank, ending]

theorem isDecimal_startsPlain (decimal : isDecimal text = true) :
    startsPlain (text ++ rest) = true := by
  obtain ⟨c, digits, after, start⟩ := isUnsigned_start decimal
  unfold dropSign at after
  split at after
  · obtain ⟨-, -, blank, ending⟩ := start_apart start
    simp [after, startsPlain, blankNext, blank, ending]
  · rfl
  · rw [after]
    exact startsPlain_of_start start

/-- No colon, comment or line break ends the text early. -/
def keepsPlain : List Char → Bool
  | [] => true
  | c :: rest =>
    !isBreak c && !(c = ':' && rest ≠ [] && blankNext rest) &&
      !(isBlank c && rest.head? = some '#') && keepsPlain rest

theorem blankNext_append (nonempty : text ≠ []) :
    blankNext (text ++ rest) = blankNext text := by
  cases text with
  | nil => contradiction
  | cons c text => rfl

theorem plainSpan_append (keeps : keepsPlain text = true) (stops : plainSpan rest = ([], rest))
    (comment : rest.head? ≠ some '#')
    (colon : text.getLast? = some ':' → blankNext rest = false) :
    plainSpan (text ++ rest) = (text, rest) := by
  induction text with
  | nil => exact stops
  | cons c text ih =>
    simp only [keepsPlain, Bool.and_eq_true, Bool.not_eq_true', Bool.and_eq_false_iff,
      decide_eq_false_iff_not, not_not] at keeps
    obtain ⟨⟨⟨whole, apart⟩, plain⟩, keeps⟩ := keeps
    have here : (isBreak c || (c = ':' && blankNext (text ++ rest)) ||
        (isBlank c && (text ++ rest).head? = some '#')) = false := by
      by_cases last : text = []
      · subst last
        have opens : (decide (c = ':') && blankNext rest) = false := by
          by_cases mark : c = ':'
          · simp [colon (by simp [mark])]
          · simp [mark]
        simp [whole, opens, comment]
      · have opens : (decide (c = ':') && blankNext (text ++ rest)) = false := by
          rw [blankNext_append last]
          rcases apart with (other | empty) | more
          · simp [other]
          · exact absurd empty last
          · simp [more]
        have opens' : (isBlank c && decide ((text ++ rest).head? = some '#')) = false := by
          rw [List.head?_append_of_ne_nil _ last]
          rcases plain with more | other
          · simp [more]
          · simp [other]
        rw [whole, opens, opens']
        rfl
    have rest_ : plainSpan (text ++ rest) = (text, rest) := by
      by_cases last : text = []
      · subst last
        exact stops
      · apply ih keeps
        rwa [List.getLast?_cons_of_ne_nil last] at colon
    rw [List.cons_append, plainSpan, here, rest_]
    rfl

theorem plainText_append (starts : startsPlain (text ++ rest) = true)
    (print : text.all printable = true) (whole : text.rdropWhile isBlank = text)
    (span : plainSpan (text ++ rest) = (text, rest)) :
    plainText (text ++ rest) = some (text, rest) := by
  simp [plainText, span, whole, starts, print]

/-- Text of such characters, as numbers and the words for null and the truth values are. -/
theorem plainText_word (starts : startsPlain (text ++ rest) = true)
    (word : text.all inWord = true) (ends : rest = [] ∨ ∃ more, rest = '\n' :: more) :
    plainText (text ++ rest) = some (text, rest) := by
  have each : ∀ c ∈ text, isBreak c = false ∧ isBlank c = false ∧ c ≠ ':' ∧ printable c = true :=
    fun c member => inWord_iff.mp (List.all_eq_true.mp word c member)
  have keeps : keepsPlain text = true := by
    clear starts ends word
    induction text with
    | nil => rfl
    | cons c text ih =>
      obtain ⟨whole, blank, colon, -⟩ := each c List.mem_cons_self
      simp [keepsPlain, whole, blank, colon, ih fun d member => each d (.tail _ member)]
  apply plainText_append starts
  · exact List.all_eq_true.mpr fun c member => (each c member).2.2.2
  · rw [List.rdropWhile_eq_self_iff]
    intro nonempty
    simp [(each _ (List.getLast_mem nonempty)).2.1]
  · apply plainSpan_append keeps
    · rcases ends with rfl | ⟨more, rfl⟩ <;> rfl
    · rcases ends with rfl | ⟨more, rfl⟩ <;> simp
    · intro last
      exact absurd rfl (each ':' (List.mem_of_getLast? last)).2.2.1

theorem resolvePlain_decimal (n : Decimal) : resolvePlain n.text = some (.number n) := by
  simp [resolvePlain, n.decimal]

/-- A text that a block document can have as a key without quotes. -/
structure PlainKey (key : List Char) : Prop where
  starts : startsPlain (key ++ [':']) = true
  keeps : keepsPlain key = true
  prints : key.all printable = true
  whole : key.rdropWhile isBlank = key
  string : resolvePlain key = some (.string (String.ofList key))
  short : key.length ≤ 1024

theorem startsPlain_key (plain : PlainKey text) (rest : List Char) :
    startsPlain (text ++ ':' :: rest) = true := by
  have starts := plain.starts
  cases text with
  | nil => contradiction
  | cons c text =>
    cases text with
    | nil => exact starts
    | cons d text => exact starts

theorem plainText_key (plain : PlainKey text) :
    plainText (text ++ ':' :: ' ' :: rest) = some (text, ':' :: ' ' :: rest) :=
  plainText_append (startsPlain_key plain _) plain.prints plain.whole
    (plainSpan_append plain.keeps rfl (by simp) fun _ => rfl)

end
end PgCatalog.Library.Yaml
