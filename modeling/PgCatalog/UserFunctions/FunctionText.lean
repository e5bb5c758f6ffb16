import PgCatalog.UserFunctions.CreateFunctionParts

/-! The lexemes of the statement that is printed for a function. -/
namespace PgCatalog.UserFunctions.CreateFunction

open Library

section
variable {c : Char} {more : List Char} {text : String} {tokens : List Lexeme}
  {texts : List String} {typeNames : TypeNamesByOid}

/-- The lexemes of a text that has any. -/
def tokensOf (text : String) : List Lexeme := (lexemes text.toList).getD []

def Written (text : String) : Prop := lexemes text.toList = some (tokensOf text)

theorem written_of_lexemes (read : lexemes text.toList = some tokens) : tokensOf text = tokens := by
  simp [tokensOf, read]

theorem written_isSome (read : (lexemes text.toList).isSome = true) : Written text := by
  obtain ⟨tokens, here⟩ := Option.isSome_iff_exists.mp read
  rw [Written, written_of_lexemes here, here]

theorem isNameSpace_of_blank (blank : c = ' ' ∨ c = '\n') :
    isNameSpace c = true ∧ parts c = true := by
  rcases blank with rfl | rfl <;> decide

/-- A text before a blank. -/
theorem lexemes_blank (blank : c = ' ' ∨ c = '\n') (read : lexemes text.toList = some tokens)
    (more : List Char) :
    lexemes (text.toList ++ c :: more) = (lexemes more).map (tokens ++ ·) := by
  obtain ⟨space, ends⟩ := isNameSpace_of_blank blank
  rw [lexemes_append ends read, lexemes_space space]

/-- What `f` puts before the lexemes of anything that follows. -/
def Reads (text : List Char) (f : List Lexeme → List Lexeme) : Prop :=
  ∀ more, lexemes (text ++ more) = (lexemes more).map f

theorem Reads.append {text text' : List Char} {f g : List Lexeme → List Lexeme}
    (first : Reads text f) (second : Reads text' g) : Reads (text ++ text') (f ∘ g) := by
  intro more
  rw [List.append_assoc, first, second, Option.map_map]

theorem reads_nil : Reads [] id := by
  intro more
  simp

/-- A text that ends with a blank. -/
theorem reads_constant (front : String) (blank : c = ' ' ∨ c = '\n')
    (same : text = front ++ String.singleton c) (read : lexemes front.toList = some tokens) :
    Reads text.toList (tokens ++ ·) := by
  intro more
  subst same
  rw [String.toList_append, String.toList_singleton, List.append_assoc, List.singleton_append,
    lexemes_blank blank read]

theorem lexemes_name {name : String} (unquoted : Unquoted name) :
    lexemes name.toList = some [.word name] := by
  have read := lexemes_word unquoted (by decide : isIdentCont ' ' = false) []
  have space : lexemes [' '] = some [] := rfl
  rw [space] at read
  obtain ⟨⟨start, cont⟩, lower, -⟩ := unquoted
  cases text : name.toList with
  | nil => simp [text] at start
  | cons d text' =>
    rw [text] at start cont lower
    have first : isIdentStart d = true := start
    have all : ∀ x ∈ d :: text', isIdentCont x = true := fun x member => (cont x member).1
    have same : String.ofList (d :: text') = name := by rw [← text, String.ofList_toList]
    have here : lexeme (d :: text') = some ([.word name], []) := by
      rw [lexeme, if_neg (by simp [not_nameSpace_of_start first]), if_pos first,
        List.takeWhile_eq_self_iff.mpr all, List.dropWhile_eq_nil_iff.mpr all, lower, same]
    rw [lexemes_step here, lexemes_nil]
    rfl

/-! ## Parameters -/

def printedMode : Option String → ParameterMode
  | some "o" => .output
  | some "b" => .inputOutput
  | some "v" => .variadic
  | _ => .input

def printedName (name : Option String) : Option String := name.filter (· ≠ "")

def argumentTokens (typeNames : TypeNamesByOid) (a : Argument) : List Lexeme :=
  modeTokens (printedMode a.mode) ++ nameTokens (printedName a.name) ++
    tokensOf (typeName typeNames a.typeOid)

theorem reads_mode (mode : Option String) :
    Reads (modeWord mode).toList (modeTokens (printedMode mode) ++ ·) := by
  unfold modeWord printedMode
  split
  · exact reads_constant "OUT" (.inl rfl) (by decide) (by rfl)
  · exact reads_constant "INOUT" (.inl rfl) (by decide) (by rfl)
  · exact reads_constant "VARIADIC" (.inl rfl) (by decide) (by rfl)
  · intro more
    simp [modeTokens]

theorem reads_argumentName {name : Option String}
    (named : ∀ text ∈ printedName name, ParameterName text) :
    Reads (nameWord name).toList (nameTokens (printedName name) ++ ·) := by
  cases name with
  | none => exact reads_nil
  | some text =>
    by_cases empty : text = ""
    · subst empty
      have none_ : printedName (some "") = none := by decide
      rw [none_]
      exact reads_nil
    · have here := (named text (by simp [printedName, empty])).unquoted
      have kept : printedName (some text) = some text := by simp [printedName, empty]
      have word : nameWord (some text) = text ++ String.singleton ' ' := by
        rw [nameWord, if_neg empty]
        rfl
      rw [word, kept]
      exact reads_constant text (.inl rfl) rfl (lexemes_name here)

theorem lexemes_argument {a : Argument} (named : ∀ text ∈ printedName a.name, ParameterName text)
    (type : Written (typeName typeNames a.typeOid)) :
    lexemes (renderedArgument typeNames a).toList = some (argumentTokens typeNames a) := by
  rw [renderedArgument, String.toList_append, String.toList_append, List.append_assoc,
    reads_mode, reads_argumentName named, type]
  simp [argumentTokens]

/-- The argument list before its closing parenthesis. -/
theorem lexemes_arguments {arguments : List Argument}
    (named : ∀ a ∈ arguments, ∀ text ∈ printedName a.name, ParameterName text)
    (typed : ∀ a ∈ arguments, Written (typeName typeNames a.typeOid)) (more : List Char) :
    lexemes
      ((", ".intercalate (arguments.map (renderedArgument typeNames))).toList ++ ')' :: more) =
      (lexemes more).map fun tokens =>
        commaTokens (arguments.map (argumentTokens typeNames)) ++ .sym ')' :: tokens := by
  induction arguments with
  | nil =>
    rw [List.map_nil, String.intercalate_nil, String.toList_empty, List.nil_append,
      lexemes_sym (by decide)]
    rfl
  | cons a arguments ih =>
    have here := lexemes_argument (named a List.mem_cons_self) (typed a List.mem_cons_self)
    have others := ih (fun b member => named b (.tail _ member))
      (fun b member => typed b (.tail _ member))
    cases arguments with
    | nil =>
      rw [List.map_singleton, String.intercalate_singleton, lexemes_append (by decide) here,
        lexemes_sym (by decide), Option.map_map]
      rfl
    | cons b arguments =>
      have blank : isNameSpace ' ' = true := by decide
      rw [List.map_cons, List.map_cons, String.intercalate_cons_cons, ← List.map_cons,
        String.toList_append, String.toList_append]
      have comma : ", ".toList = [',', ' '] := by decide
      rw [comma, List.append_assoc, List.append_assoc, List.cons_append,
        lexemes_append (by decide) here, lexemes_sym (by decide), List.singleton_append,
        lexemes_space blank, others, Option.map_map, Option.map_map]
      apply congrFun (congrArg Option.map _)
      funext tokens
      simp [commaTokens]

/-! ## Flags -/

/-- The text of an option. -/
def Flag (text : String) (item_ : Item) : Prop := Written text ∧ IsItem (tokensOf text) item_

theorem flag_of_lexemes {item_ : Item} (read : lexemes text.toList = some tokens)
    (isItem : IsItem tokens item_) : Flag text item_ := by
  have same := written_of_lexemes read
  refine ⟨?_, ?_⟩
  · rw [Written, same, read]
  · rw [same]
    exact isItem

theorem Flag.nonempty {item_ : Item} (flag : Flag text item_) : text ≠ "" := by
  rintro rfl
  exact flag.2.nonempty rfl

theorem lexemes_flags (written : ∀ text ∈ texts, Written text) (nonempty : texts ≠ [])
    (more : List Char) : lexemes ((" ".intercalate texts).toList ++ '\n' :: more) =
      (lexemes more).map ((texts.map tokensOf).flatten ++ ·) := by
  induction texts with
  | nil => contradiction
  | cons text texts ih =>
    have here := written text List.mem_cons_self
    cases texts with
    | nil =>
      rw [String.intercalate_singleton, lexemes_blank (.inr rfl) here]
      simp
    | cons next texts =>
      have others := ih (fun text member => written text (.tail _ member)) (by simp)
      have space : " ".toList = [' '] := by decide
      rw [String.intercalate_cons_cons, String.toList_append, String.toList_append, space,
        List.append_assoc, List.append_assoc, List.singleton_append,
        lexemes_blank (.inl rfl) here, others, Option.map_map]
      simp [Function.comp_def]

/-! ## Numbers -/

theorem digit_facts (digit : c.isDigit = true) :
    isNameSpace c = false ∧ isIdentStart c = false ∧ c ≠ '"' ∧ c ≠ '-' := by
  have range := digit
  rw [Char.isDigit, Bool.and_eq_true, decide_eq_true_eq, decide_eq_true_eq] at range
  have low : 48 ≤ c.toNat := range.1
  have high : c.toNat ≤ 57 := range.2
  refine ⟨?_, ?_, ?_, ?_⟩
  · by_contra space
    simp only [Bool.not_eq_false, isNameSpace, Bool.or_eq_true, decide_eq_true_eq] at space
    rcases space with ((((rfl | rfl) | rfl) | rfl) | tab) | feed
    · contradiction
    · contradiction
    · contradiction
    · contradiction
    · omega
    · omega
  · by_contra start
    have large := start_large (Bool.not_eq_false _ ▸ start)
    omega
  · rintro rfl
    contradiction
  · rintro rfl
    contradiction

theorem numeral_digits {whole : List Char} (digits : ∀ x ∈ whole, x.isDigit = true) :
    numeral whole = some (.number whole [], []) := by
  rw [numeral_eq, List.takeWhile_eq_self_iff.mpr digits, List.dropWhile_eq_nil_iff.mpr digits]
  rfl

theorem numeral_point {whole fraction : List Char} (digits : ∀ x ∈ whole, x.isDigit = true)
    (digits' : ∀ x ∈ fraction, x.isDigit = true) :
    numeral (whole ++ '.' :: fraction) = some (.number whole fraction, []) := by
  obtain ⟨taken, left⟩ := @takeWhile_of_all '.' whole fraction _ digits (by decide)
  rw [numeral_eq, taken, left, fractionOf, List.takeWhile_eq_self_iff.mpr digits',
    List.dropWhile_eq_nil_iff.mpr digits']
  rfl

theorem lexemes_numeral {number : Lexeme} (digit : c.isDigit = true)
    (read : numeral (c :: more) = some (number, [])) : lexemes (c :: more) = some [number] := by
  obtain ⟨space, start, quote, -⟩ := digit_facts digit
  have here : lexeme (c :: more) = some ([number], []) := by
    rw [lexeme, if_neg (by simp [space]), if_neg (by simp [start]), if_neg quote,
      if_pos digit, read]
    rfl
  rw [lexemes_step here, lexemes_nil]
  rfl

theorem lexemes_minus (digit : c.isDigit = true) :
    lexemes ('-' :: c :: more) = (lexemes (c :: more)).map (.sym '-' :: ·) := by
  have other := (digit_facts digit).2.2.2
  have here : lexeme ('-' :: c :: more) = some ([.sym '-'], c :: more) := by
    have admitted : refused '-' (c :: more) = false := by simp [refused, other]
    rw [lexeme, if_neg (by decide), if_neg (by decide), if_neg (by decide), if_neg (by decide),
      if_neg (by decide), admitted, if_neg Bool.false_ne_true]
  rw [lexemes_step here]
  rfl

/-- A finite number, as it is printed. -/
theorem lexemes_number (n : Decimal) : lexemes (trimmedNumber (.finite n)).toList =
    some (numberTokens n.negative n.whole n.fraction) := by
  have digits := List.all_eq_true.mp n.wholeDigits
  have digits' := List.all_eq_true.mp n.fractionDigits
  have unsigned : ∃ text, (String.ofList n.whole ++
      if n.fraction = [] then "" else "." ++ String.ofList n.fraction).toList = text ∧
      (∃ d more, text = d :: more ∧ d.isDigit = true) ∧
      lexemes text = some [.number n.whole n.fraction] := by
    refine ⟨_, rfl, ?_⟩
    cases whole : n.whole with
    | nil => exact absurd whole n.nonempty
    | cons d rest =>
      rw [whole] at digits
      have digit := digits d List.mem_cons_self
      by_cases empty : n.fraction = []
      · rw [if_pos empty, empty]
        have read := numeral_digits digits
        simp only [String.append_empty, String.toList_ofList]
        exact ⟨⟨d, rest, rfl, digit⟩, lexemes_numeral digit read⟩
      · rw [if_neg empty]
        have read := numeral_point digits digits'
        have point : ".".toList = ['.'] := by decide
        simp only [String.toList_append, String.toList_ofList, point, List.singleton_append]
        exact ⟨⟨d, rest ++ '.' :: n.fraction, rfl, digit⟩, lexemes_numeral digit read⟩
  obtain ⟨text, same, ⟨d, more, rfl, digit⟩, read⟩ := unsigned
  rw [trimmedNumber, String.append_assoc, String.toList_append, same]
  cases n.negative with
  | false => exact read
  | true =>
    have sign : (if true = true then "-" else "").toList = ['-'] := by decide
    rw [sign, List.singleton_append, lexemes_minus digit, read]
    rfl

end
end PgCatalog.UserFunctions.CreateFunction
