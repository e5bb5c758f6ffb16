import PgCatalog.UserFunctions.CreateFunction

/-! The lexemes of a text written piece by piece. -/
namespace PgCatalog.UserFunctions.CreateFunction

open Library

section
variable {c : Char} {text rest more : List Char} {found : List Lexeme} {name : String}

/-- The characters that end any lexeme before them. -/
def parts (c : Char) : Bool := c = ' ' || c = '\n' || c = ',' || c = '(' || c = ')'

structure Apart (c : Char) : Prop where
  cont : isIdentCont c = false
  tag : isTagCont c = false
  start : isIdentStart c = false
  digit : c.isDigit = false
  mark : c ∉ ['"', '.', '-', '*', '$']

theorem apart_of_parts (here : parts c = true) : Apart c := by
  simp only [parts, Bool.or_eq_true, decide_eq_true_eq] at here
  rcases here with (((rfl | rfl) | rfl) | rfl) | rfl
  all_goals exact ⟨by decide, by decide, by decide, by decide, by decide⟩

theorem takeWhile_append_stop {p : Char → Bool} (stop : p c = false) (text : List Char) :
    (text ++ c :: more).takeWhile p = text.takeWhile p := by
  induction text with
  | nil => simp [stop]
  | cons d text ih => simp [List.takeWhile_cons, ih]

theorem dropWhile_append_stop {p : Char → Bool} (stop : p c = false) (text : List Char) :
    (text ++ c :: more).dropWhile p = text.dropWhile p ++ c :: more := by
  induction text with
  | nil => simp [stop]
  | cons d text ih =>
    by_cases here : p d = true
    · simp [here, ih]
    · simp [here]

theorem quotedName_append {quoted : List Char} (apart : Apart c)
    (read : quotedName text = some (quoted, rest)) :
    quotedName (text ++ c :: more) = some (quoted, rest ++ c :: more) := by
  fun_induction quotedName text generalizing quoted rest with
  | case1 => contradiction
  | case2 text ih =>
    obtain ⟨⟨inner, after⟩, within, same⟩ := Option.map_eq_some_iff.mp read
    obtain ⟨rfl, rfl⟩ := Prod.mk.inj same
    simp [quotedName, ih within]
  | case3 text other =>
    obtain ⟨rfl, rfl⟩ := Prod.mk.inj (Option.some.inj read)
    cases text with
    | nil =>
      have mark : c ≠ '"' := fun same => apart.mark (by simp [same])
      simp [quotedName, mark]
    | cons d text =>
      have mark : d ≠ '"' := fun same => other text (by rw [same])
      simp [quotedName, mark]
  | case4 => contradiction
  | case5 d text _ mark nul ih =>
    obtain ⟨⟨inner, after⟩, within, same⟩ := Option.map_eq_some_iff.mp read
    obtain ⟨rfl, rfl⟩ := Prod.mk.inj same
    have mark : d ≠ '"' := fun same => mark same
    simp [quotedName, mark, nul, ih within]

/-- The fraction behind the digits of a whole number, and what follows it. -/
def fractionOf : List Char → List Char × List Char
  | '.' :: rest => (rest.takeWhile Char.isDigit, rest.dropWhile Char.isDigit)
  | rest => ([], rest)

theorem numeral_eq (text : List Char) : numeral text =
    if (fractionOf (text.dropWhile Char.isDigit)).2.head?.any fun c => isIdentStart c || c = '.'
    then none
    else some (.number (text.takeWhile Char.isDigit) (fractionOf (text.dropWhile Char.isDigit)).1,
      (fractionOf (text.dropWhile Char.isDigit)).2) := rfl

theorem fractionOf_append (apart : Apart c) (text : List Char) : fractionOf (text ++ c :: more) =
    ((fractionOf text).1, (fractionOf text).2 ++ c :: more) := by
  have point : c ≠ '.' := fun same => apart.mark (by simp [same])
  cases text with
  | nil =>
    rw [List.nil_append]
    unfold fractionOf
    split
    · rename_i same
      exact absurd (List.cons.inj same).1 point
    · rfl
  | cons d text =>
    by_cases dot : d = '.'
    · subst dot
      simp [fractionOf, takeWhile_append_stop apart.digit, dropWhile_append_stop apart.digit]
    · have plain : ∀ text, fractionOf (d :: text) = ([], d :: text) := by
        intro text
        unfold fractionOf
        split
        · rename_i same
          exact absurd (List.cons.inj same).1 dot
        · rfl
      rw [List.cons_append, plain, plain]
      rfl

theorem numeral_append {number : Lexeme} (apart : Apart c)
    (read : numeral text = some (number, rest)) :
    numeral (text ++ c :: more) = some (number, rest ++ c :: more) := by
  have point : c ≠ '.' := fun same => apart.mark (by simp [same])
  rw [numeral_eq, Option.ite_none_left_eq_some] at read
  obtain ⟨junk, same⟩ := read
  obtain ⟨rfl, rfl⟩ := Prod.mk.inj (Option.some.inj same)
  rw [numeral_eq, takeWhile_append_stop apart.digit, dropWhile_append_stop apart.digit,
    fractionOf_append apart, if_neg]
  cases left : (fractionOf (text.dropWhile Char.isDigit)).2 with
  | nil => simp [apart.start, point]
  | cons d after =>
    rw [left] at junk
    exact junk

theorem dollarTag_append {tag : List Char} (apart : Apart c)
    (read : dollarTag text = some (tag, rest)) :
    dollarTag (text ++ c :: more) = some (tag, rest ++ c :: more) := by
  simp only [dollarTag, Option.ite_none_right_eq_some] at read ⊢
  obtain ⟨head, read⟩ := read
  rw [takeWhile_append_stop apart.tag, dropWhile_append_stop apart.tag]
  cases text with
  | nil => contradiction
  | cons d text =>
    refine ⟨head, ?_⟩
    split at read
    · rename_i left
      obtain ⟨rfl, rfl⟩ := Prod.mk.inj (Option.some.inj read)
      rw [left]
      rfl
    · contradiction

theorem dollarString_append {string : Lexeme} (apart : Apart c)
    (read : dollarString text = some (string, rest)) :
    dollarString (text ++ c :: more) = some (string, rest ++ c :: more) := by
  obtain ⟨⟨tag, after⟩, tagged, read⟩ := Option.bind_eq_some_iff.mp read
  obtain ⟨⟨body, left⟩, closed, read⟩ := Option.bind_eq_some_iff.mp read
  obtain ⟨nul, same⟩ := Option.ite_none_right_eq_some.mp read
  obtain ⟨rfl, rfl⟩ := Prod.mk.inj (Option.some.inj same)
  simp only [dollarString, dollarTag_append apart tagged, Option.bind_some, upTo_append closed]
  rw [if_pos nul]

theorem refused_append (apart : Apart c) (d : Char) :
    refused d (text ++ c :: more) = refused d text := by
  cases text with
  | nil =>
    have minus : c ≠ '-' := fun same => apart.mark (by simp [same])
    have star : c ≠ '*' := fun same => apart.mark (by simp [same])
    simp [refused, minus, star, apart.digit]
  | cons e text => rfl

theorem lexeme_append (ends : parts c = true) (nonempty : text ≠ [])
    (read : lexeme text = some (found, rest)) :
    lexeme (text ++ c :: more) = some (found, rest ++ c :: more) := by
  have apart := apart_of_parts ends
  cases text with
  | nil => contradiction
  | cons d text =>
    rw [lexeme] at read
    rw [List.cons_append, lexeme]
    split at read
    · rename_i space
      obtain ⟨rfl, rfl⟩ := Prod.mk.inj (Option.some.inj read)
      rw [if_pos space]
    rename_i space
    rw [if_neg space]
    split at read
    · rename_i start
      obtain ⟨rfl, rfl⟩ := Prod.mk.inj (Option.some.inj read)
      rw [if_pos start, ← List.cons_append, takeWhile_append_stop apart.cont,
        dropWhile_append_stop apart.cont]
    rename_i start
    rw [if_neg start]
    split at read
    · rename_i quote
      obtain ⟨⟨quoted, left⟩, here, read⟩ := Option.bind_eq_some_iff.mp read
      obtain ⟨named, same⟩ := Option.ite_none_left_eq_some.mp read
      obtain ⟨rfl, rfl⟩ := Prod.mk.inj (Option.some.inj same)
      rw [if_pos quote, quotedName_append apart here]
      exact if_neg named
    rename_i quote
    rw [if_neg quote]
    split at read
    · rename_i digit
      obtain ⟨⟨number, left⟩, here, same⟩ := Option.map_eq_some_iff.mp read
      obtain ⟨rfl, rfl⟩ := Prod.mk.inj same
      rw [if_pos digit, ← List.cons_append, numeral_append apart here]
      rfl
    rename_i digit
    rw [if_neg digit]
    split at read
    · rename_i dollar
      obtain ⟨⟨string, left⟩, here, same⟩ := Option.map_eq_some_iff.mp read
      obtain ⟨rfl, rfl⟩ := Prod.mk.inj same
      rw [if_pos dollar, dollarString_append apart here]
      rfl
    · rename_i dollar
      obtain ⟨admitted, same⟩ := Option.ite_none_left_eq_some.mp read
      obtain ⟨rfl, rfl⟩ := Prod.mk.inj (Option.some.inj same)
      rw [if_neg dollar, refused_append apart, if_neg admitted]

/-- A piece is read before a character that ends any lexeme. -/
theorem lexemes_append (ends : parts c = true) (read : lexemes text = some found)
    (more : List Char) : lexemes (text ++ c :: more) = (lexemes (c :: more)).map (found ++ ·) :=
  Reader.stateless_append (fun nonempty here => lexeme_append ends nonempty here) read

/-! Reading a piece at a time. -/

theorem lexemes_nil : lexemes [] = some [] := rfl

theorem lexemes_step (read : lexeme (c :: text) = some (found, rest)) :
    lexemes (c :: text) = (lexemes rest).map (found ++ ·) :=
  Reader.stateless_step (List.cons_ne_nil c text) read

theorem lexemes_space (space : isNameSpace c = true) : lexemes (c :: text) = lexemes text := by
  rw [lexemes_step (by rw [lexeme, if_pos space])]
  simp

theorem lexemes_sym (mark : c ∈ ['(', ')', ',']) :
    lexemes (c :: text) = (lexemes text).map (.sym c :: ·) := by
  have read : lexeme (c :: text) = some ([.sym c], text) := by
    simp only [List.mem_cons, List.not_mem_nil, or_false] at mark
    rcases mark with rfl | rfl | rfl <;> rfl
  rw [lexemes_step read]
  rfl

/-- A name that is written without quotes as it is kept. -/
structure Unquoted (name : String) : Prop where
  word : WordText name.toList
  lower : name.toList.map Char.toLower = name.toList
  short : keptName name = name

theorem takeWhile_of_all {p : Char → Bool} (all : ∀ x ∈ text, p x = true) (stop : p c = false) :
    (text ++ c :: more).takeWhile p = text ∧ (text ++ c :: more).dropWhile p = c :: more := by
  constructor
  · rw [takeWhile_append_stop stop]
    exact List.takeWhile_eq_self_iff.mpr all
  · rw [dropWhile_append_stop stop, List.dropWhile_eq_nil_iff.mpr all]
    rfl

theorem lexemes_word (unquoted : Unquoted name) (ends : isIdentCont c = false)
    (more : List Char) : lexemes (name.toList ++ c :: more) =
      (lexemes (c :: more)).map (.word name :: ·) := by
  obtain ⟨⟨start, cont⟩, lower, -⟩ := unquoted
  cases text : name.toList with
  | nil => simp [text] at start
  | cons d text' =>
    rw [text] at start cont lower
    have first : isIdentStart d = true := start
    obtain ⟨taken, left⟩ := @takeWhile_of_all c (d :: text') more _
      (fun x member => (cont x member).1) ends
    have same : String.ofList (d :: text') = name := by rw [← text, String.ofList_toList]
    have read : lexeme (d :: text' ++ c :: more) = some ([.word name], c :: more) := by
      rw [List.cons_append] at taken left ⊢
      rw [lexeme, if_neg (by simp [not_nameSpace_of_start first]), if_pos first, taken, left, lower,
        same]
    rw [List.cons_append] at read ⊢
    rw [lexemes_step read]
    rfl

/-- A dot before a name. -/
theorem lexemes_dot (unquoted : Unquoted name) (more : List Char) :
    lexemes ('.' :: (name.toList ++ more)) =
      (lexemes (name.toList ++ more)).map (.sym '.' :: ·) := by
  have start := unquoted.word.start
  cases text : name.toList with
  | nil => simp [text] at start
  | cons d text' =>
    rw [text] at start
    have first : isIdentStart d = true := start
    have large := start_large first
    have digit : d.isDigit = false := by
      by_contra digit
      rw [Bool.not_eq_false, Char.isDigit, Bool.and_eq_true, decide_eq_true_eq,
        decide_eq_true_eq] at digit
      have high : d.toNat ≤ 57 := digit.2
      omega
    have admitted : refused '.' (d :: text' ++ more) = false := by simp [refused, digit]
    have read : lexeme ('.' :: (d :: text' ++ more)) = some ([.sym '.'], d :: text' ++ more) := by
      rw [lexeme, if_neg (by decide), if_neg (by decide), if_neg (by decide), if_neg (by decide),
        if_neg (by decide), admitted, if_neg Bool.false_ne_true]
    rw [lexemes_step read]
    rfl

end
end PgCatalog.UserFunctions.CreateFunction
