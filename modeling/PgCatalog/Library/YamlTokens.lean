import PgCatalog.Library.Reader
import PgCatalog.Library.YamlQuoted

/-! The block style read character by character: dashes and keys with their columns, and scalars.
Comments, single quotes, block scalars, anchors, tags, flow collections with anything in them and
scalars on a line of their own are refused. -/
namespace PgCatalog.Library.Yaml

inductive Token where
  | entry (column : Nat)
  | key (column : Nat) (text : String)
  | scalar (node : Node)

/-- Where a text is read: before a line, after a dash or a key's colon that stand in a column, or
after a scalar, which ends its line. -/
inductive Place where
  | fresh
  | dash (column : Nat)
  | colon (column : Nat)
  | done

/-- A key and what follows its colon. It is a string on one line, of at most 1024 characters. -/
def keyText : List Char → Option (List Char × List Char)
  | '"' :: text => do
    let (quoted, rest) ← pieces text
    match rest.dropWhile isBlank with
    | ':' :: after =>
      if blankNext after && (quoted.all fun p => !p.literal || quotable p.char) &&
          text.length - rest.length < 1024 then some (chars quoted, after) else none
    | _ => none
  | text => do
    let (plain, rest) ← plainText text
    match rest, resolvePlain plain with
    | ':' :: after, some (.string _) => if plain.length ≤ 1024 then some (plain, after) else none
    | _, _ => none

/-- A scalar whose lines are indented by `least` columns, and what follows it. -/
def scalar (least : Nat) : List Char → Option (Node × List Char)
  | '"' :: text => do
    let (quoted, rest) ← pieces text
    let text ← folded least quoted
    return (.string (String.ofList text), rest)
  | '[' :: ']' :: rest => some (.array [], rest)
  | '\x7b' :: '\x7d' :: rest => some (.object [], rest)
  | text => do
    let (plain, rest) ← plainText text
    let node ← resolvePlain plain
    return (node, rest)

def entryToken (column : Nat) : List Char → Option (Token × Place × List Char)
  | '-' :: rest => if blankNext rest then some (.entry column, .dash column, rest) else none
  | _ => none

def keyToken (column : Nat) (text : List Char) : Option (Token × Place × List Char) :=
  (keyText text).map fun (key, rest) => (.key column (String.ofList key), .colon column, rest)

def scalarToken (least : Nat) (text : List Char) : Option (Token × Place × List Char) :=
  (scalar least text).map fun (node, rest) => (.scalar node, .done, rest)

/-- Three dashes or three dots at the start of a line part a stream into documents. -/
def marksDocument (text : List Char) : Bool :=
  (text.take 3 = "---".toList || text.take 3 = "...".toList) && blankNext (text.drop 3)

/-- The token at a place, the place after it and what follows. -/
def token (place : Place) (column : Nat) (text : List Char) : Option (Token × Place × List Char) :=
  match place with
  | .fresh =>
    if column = 0 && marksDocument text then none
    else (entryToken column text).or (keyToken column text)
  | .dash above =>
    (entryToken column text).or ((keyToken column text).or (scalarToken (above + 1) text))
  | .colon above => scalarToken (above + 1) text
  | .done => none

/-- The column of what stands `blanks` blanks after a place. -/
def Place.column (blanks : Nat) : Place → Nat
  | .dash above => above + 1 + blanks
  | _ => blanks

def scanStep (place : Place) (text : List Char) : Option (List Token × Place × List Char) :=
  match text.dropWhile (· = ' ') with
  | [] => some ([], place, [])
  | c :: rest =>
    if isBreak c then some ([], .fresh, rest)
    else
      (token place (place.column (text.takeWhile (· = ' ')).length) (c :: rest)).map
        fun (token, place, rest) => ([token], place, rest)

section
variable {text rest key : List Char} {place after : Place} {column least : Nat} {found : Token}
  {node : Node} {c : Char}

theorem pieces_shorter {ps : List Piece} (read : pieces text = some (ps, rest)) :
    rest.length < text.length := by
  fun_induction pieces text generalizing ps rest with
  | case1 => contradiction
  | case2 after =>
    obtain ⟨-, rfl⟩ := Prod.mk.inj (Option.some.inj read)
    simp
  | case3 c after ih =>
    simp only [Option.bind_eq_bind, Option.bind_eq_some_iff] at read
    obtain ⟨d, -, ⟨more, left⟩, here, same⟩ := read
    obtain ⟨-, rfl⟩ := Prod.mk.inj (Option.some.inj same)
    have := ih here
    simp only [List.length_cons]
    omega
  | case4 c after _ _ ih =>
    simp only [Option.bind_eq_bind, Option.bind_eq_some_iff] at read
    obtain ⟨⟨more, left⟩, here, same⟩ := read
    obtain ⟨-, rfl⟩ := Prod.mk.inj (Option.some.inj same)
    have := ih here
    simp only [List.length_cons]
    omega

theorem plainSpan_length : (plainSpan text).2.length ≤ text.length := by
  fun_induction plainSpan text with
  | case1 => simp
  | case2 c rest stops => simp
  | case3 c rest goes ih =>
    simp only [List.length_cons]
    omega

theorem plainText_shorter (read : plainText text = some (key, rest)) :
    rest.length < text.length := by
  simp only [plainText, Option.ite_none_right_eq_some, Option.some.injEq, Prod.mk.injEq,
    Bool.and_eq_true] at read
  obtain ⟨⟨starts, -⟩, -, rfl⟩ := read
  cases text with
  | nil => contradiction
  | cons c text =>
    have goes : (isBreak c || (c = ':' && blankNext text) ||
        (isBlank c && text.head? = some '#')) = false := by
      rw [startsPlain] at starts
      split at starts
      · rename_i sign
        have next : blankNext text = false := Bool.not_eq_true' _ ▸ starts
        simp only [List.mem_cons, List.not_mem_nil, or_false] at sign
        rcases sign with rfl | rfl | rfl <;> simp [next, isBreak, isBlank]
      · rename_i other
        simp only [Bool.and_eq_true, Bool.not_eq_true'] at starts
        have colon : c ≠ ':' := fun same => other (by simp [same])
        simp [starts.1.1, starts.1.2, colon]
    rw [plainSpan, goes]
    have := @plainSpan_length text
    simp only [Bool.false_eq_true, if_false, List.length_cons]
    omega

theorem keyText_shorter (read : keyText text = some (key, rest)) : rest.length < text.length := by
  unfold keyText at read
  split at read
  · rename_i text
    simp only [Option.bind_eq_bind, Option.bind_eq_some_iff] at read
    obtain ⟨⟨quoted, left⟩, here, read⟩ := read
    have shorter := pieces_shorter here
    have blanks := (List.dropWhile_sublist isBlank (l := left)).length_le
    split at read
    · rename_i after colon
      rw [colon] at blanks
      obtain ⟨-, same⟩ := Option.ite_none_right_eq_some.mp read
      obtain ⟨-, rfl⟩ := Prod.mk.inj (Option.some.inj same)
      simp only [List.length_cons] at blanks ⊢
      omega
    · contradiction
  · simp only [Option.bind_eq_bind, Option.bind_eq_some_iff] at read
    obtain ⟨⟨plain, left⟩, here, read⟩ := read
    have shorter := plainText_shorter here
    split at read
    · rename_i colon _
      obtain ⟨-, same⟩ := Option.ite_none_right_eq_some.mp read
      obtain ⟨-, rfl⟩ := Prod.mk.inj (Option.some.inj same)
      obtain rfl : left = _ := colon
      simp only [List.length_cons] at shorter
      omega
    · contradiction

theorem scalar_shorter (read : scalar least text = some (node, rest)) :
    rest.length < text.length := by
  unfold scalar at read
  split at read
  · simp only [Option.bind_eq_bind, Option.bind_eq_some_iff] at read
    obtain ⟨⟨quoted, left⟩, here, _, _, same⟩ := read
    obtain ⟨-, rfl⟩ := Prod.mk.inj (Option.some.inj same)
    have := pieces_shorter here
    simp only [List.length_cons]
    omega
  · obtain ⟨-, rfl⟩ := Prod.mk.inj (Option.some.inj read)
    simp only [List.length_cons]
    omega
  · obtain ⟨-, rfl⟩ := Prod.mk.inj (Option.some.inj read)
    simp only [List.length_cons]
    omega
  · simp only [Option.bind_eq_bind, Option.bind_eq_some_iff] at read
    obtain ⟨⟨plain, left⟩, here, _, _, same⟩ := read
    obtain ⟨-, rfl⟩ := Prod.mk.inj (Option.some.inj same)
    exact plainText_shorter here

theorem entryToken_shorter (read : entryToken column text = some (found, after, rest)) :
    rest.length < text.length := by
  unfold entryToken at read
  split at read
  · obtain ⟨-, same⟩ := Option.ite_none_right_eq_some.mp read
    simp only [Option.some.injEq, Prod.mk.injEq] at same
    obtain ⟨-, -, rfl⟩ := same
    simp
  · contradiction

theorem keyToken_shorter (read : keyToken column text = some (found, after, rest)) :
    rest.length < text.length := by
  obtain ⟨⟨key, left⟩, here, same⟩ := Option.map_eq_some_iff.mp read
  simp only [Prod.mk.injEq] at same
  obtain ⟨-, -, rfl⟩ := same
  exact keyText_shorter here

theorem scalarToken_shorter (read : scalarToken least text = some (found, after, rest)) :
    rest.length < text.length := by
  obtain ⟨⟨node, left⟩, here, same⟩ := Option.map_eq_some_iff.mp read
  simp only [Prod.mk.injEq] at same
  obtain ⟨-, -, rfl⟩ := same
  exact scalar_shorter here

theorem token_shorter (read : token place column text = some (found, after, rest)) :
    rest.length < text.length := by
  cases place with
  | fresh =>
    simp only [token, Option.ite_none_left_eq_some, Option.or_eq_some_iff] at read
    rcases read.2 with entry | ⟨-, key⟩
    · exact entryToken_shorter entry
    · exact keyToken_shorter key
  | dash above =>
    simp only [token, Option.or_eq_some_iff] at read
    rcases read with entry | ⟨-, key | ⟨-, scalar⟩⟩
    · exact entryToken_shorter entry
    · exact keyToken_shorter key
    · exact scalarToken_shorter scalar
  | colon above => exact scalarToken_shorter read
  | done => contradiction

/-- Skipping the blanks of a line leaves no more than there was. -/
theorem blanks_length (text : List Char) :
    (text.dropWhile (· = ' ')).length ≤ text.length := (List.dropWhile_sublist _).length_le

theorem scanStep_shorter {found : List Token}
    (read : scanStep place (c :: text) = some (found, after, rest)) :
    rest.length < (c :: text).length := by
  have fewer := blanks_length (c :: text)
  unfold scanStep at read
  split at read
  · simp only [Option.some.injEq, Prod.mk.injEq] at read
    obtain ⟨-, -, rfl⟩ := read
    simp
  · rename_i left
    rw [left] at fewer
    split at read
    · simp only [Option.some.injEq, Prod.mk.injEq] at read
      obtain ⟨-, -, rfl⟩ := read
      simp only [List.length_cons] at fewer ⊢
      omega
    · obtain ⟨⟨one, place, more⟩, here, same⟩ := Option.map_eq_some_iff.mp read
      simp only [Prod.mk.injEq] at same
      obtain ⟨-, -, rfl⟩ := same
      have shorter := token_shorter here
      omega

def scanner : Reader Char Place Token := ⟨scanStep, scanStep_shorter⟩

/-- The tokens of a text, read from a place on. -/
def tokens (place : Place) (text : List Char) : Option (List Token) := scanner.readAll place text

theorem nonempty_of_line (line : text.dropWhile (· = ' ') = c :: rest) : text ≠ [] := by
  rintro rfl
  contradiction

theorem tokens_break (line : text.dropWhile (· = ' ') = c :: rest) (ends : isBreak c = true) :
    tokens place text = tokens .fresh rest := by
  have step : scanner.step place text = some ([], .fresh, rest) := by
    simp only [scanner, scanStep, line, ends, if_true]
  rw [tokens, Reader.readAll_of_step step (nonempty_of_line line)]
  simp only [List.nil_append, Option.map_id']
  rfl

theorem tokens_token (line : text.dropWhile (· = ' ') = c :: rest) (whole : isBreak c = false) :
    tokens place text =
      (token place (place.column (text.takeWhile (· = ' ')).length) (c :: rest)).bind
        fun (token, place, rest) => (tokens place rest).map (token :: ·) := by
  have step : scanner.step place text =
      (token place (place.column (text.takeWhile (· = ' ')).length) (c :: rest)).map
        fun (token, place, rest) => ([token], place, rest) := by
    simp only [scanner, scanStep, line, whole, Bool.false_eq_true, if_false]
  rw [tokens, Reader.readAll_of_ne_nil (nonempty_of_line line), step, Option.bind_map]
  rfl

/-! Reading a line: blanks of indentation, a dash or a key with a blank behind it, and a scalar. -/

theorem dropWhile_blanks (other : c ≠ ' ') (column : Nat) (rest : List Char) :
    (List.replicate column ' ' ++ c :: rest).dropWhile (· = ' ') = c :: rest := by
  rw [List.dropWhile_append_of_pos (by simp), List.dropWhile_cons_of_neg (by simpa using other)]

theorem takeWhile_blanks (other : c ≠ ' ') (column : Nat) (rest : List Char) :
    ((List.replicate column ' ' ++ c :: rest).takeWhile (· = ' ')).length = column := by
  rw [List.takeWhile_append_of_pos (by simp), List.takeWhile_cons_of_neg (by simpa using other)]
  simp

theorem tokens_line (blanks : Nat) (rest : List Char) :
    tokens place (List.replicate blanks ' ' ++ '\n' :: rest) = tokens .fresh rest :=
  tokens_break (dropWhile_blanks (by decide) blanks rest) rfl

theorem marksDocument_dash (rest : List Char) : marksDocument ('-' :: ' ' :: rest) = false := by
  simp [marksDocument]

theorem tokens_entry (column : Nat) (rest : List Char) :
    tokens .fresh (List.replicate column ' ' ++ '-' :: ' ' :: rest) =
      (tokens (.dash column) (' ' :: rest)).map (.entry column :: ·) := by
  rw [tokens_token (dropWhile_blanks (by decide) column _) rfl, takeWhile_blanks (by decide)]
  simp only [Place.column, token, marksDocument_dash]
  simp [entryToken, blankNext, isBlank]

theorem startsPlain_apart (starts : startsPlain (c :: rest) = true) :
    c ≠ ' ' ∧ isBreak c = false ∧ c ∉ ['"', '[', '\x7b'] ∧ (c = '-' → blankNext rest = false) := by
  rw [startsPlain] at starts
  split at starts
  · rename_i sign
    have next : blankNext rest = false := Bool.not_eq_true' _ ▸ starts
    simp only [List.mem_cons, List.not_mem_nil, or_false] at sign
    rcases sign with rfl | rfl | rfl
    all_goals exact ⟨by decide, rfl, by decide, fun _ => next⟩
  · rename_i other
    simp only [Bool.and_eq_true, Bool.not_eq_true', decide_eq_true_eq] at starts
    obtain ⟨⟨blank, whole⟩, indicator⟩ := starts
    refine ⟨?_, whole, fun opens => ?_, fun dash => ?_⟩
    · rintro rfl
      contradiction
    · simp only [List.mem_cons, List.not_mem_nil, or_false] at opens
      rcases opens with rfl | rfl | rfl <;> exact indicator (by decide)
    · exact absurd (by simp [dash]) other

theorem entryToken_plain (starts : startsPlain text = true) : entryToken column text = none := by
  unfold entryToken
  split
  · rename_i rest
    simp [(startsPlain_apart starts).2.2.2 rfl]
  · rfl

theorem keyText_of_plainText (starts : startsPlain text = true) :
    keyText text = (plainText text).bind fun (plain, rest) =>
      match rest, resolvePlain plain with
      | ':' :: after, some (.string _) => if plain.length ≤ 1024 then some (plain, after) else none
      | _, _ => none := by
  unfold keyText
  split
  · exact absurd (by simp) (startsPlain_apart starts).2.2.1
  · rfl

theorem scalar_of_plainText (starts : startsPlain text = true) :
    scalar least text = (plainText text).bind fun (plain, rest) =>
      (resolvePlain plain).map fun node => (node, rest) := by
  unfold scalar
  split
  · exact absurd (by simp) (startsPlain_apart starts).2.2.1
  · exact absurd (by simp) (startsPlain_apart starts).2.2.1
  · exact absurd (by simp) (startsPlain_apart starts).2.2.1
  · simp only [Option.bind_eq_bind, Option.map_eq_bind]
    rfl

theorem keyText_plain (plain : PlainKey key) (rest : List Char) :
    keyText (key ++ ':' :: ' ' :: rest) = some (key, ' ' :: rest) := by
  rw [keyText_of_plainText (startsPlain_key plain _), plainText_key plain]
  simp [plain.string, plain.short]

theorem tokens_key (plain : PlainKey key) (indented : column ≠ 0) (rest : List Char) :
    tokens .fresh (List.replicate column ' ' ++ (key ++ ':' :: ' ' :: rest)) =
      (tokens (.colon column) (' ' :: rest)).map (.key column (String.ofList key) :: ·) := by
  have starts := startsPlain_key plain (' ' :: rest)
  have read := keyText_plain plain rest
  generalize key ++ ':' :: ' ' :: rest = text at starts read
  cases text with
  | nil => contradiction
  | cons c more =>
    obtain ⟨blank, whole, -⟩ := startsPlain_apart starts
    rw [tokens_token (dropWhile_blanks blank column _) whole, takeWhile_blanks blank]
    simp [Place.column, token, indented, entryToken_plain starts, keyToken, read]

/-- A key on the line of a dash. -/
theorem tokens_compactKey (plain : PlainKey key) (rest : List Char) :
    tokens (.dash column) (' ' :: (key ++ ':' :: ' ' :: rest)) =
      (tokens (.colon (column + 2)) (' ' :: rest)).map
        (.key (column + 2) (String.ofList key) :: ·) := by
  have starts := startsPlain_key plain (' ' :: rest)
  have read := keyText_plain plain rest
  generalize key ++ ':' :: ' ' :: rest = text at starts read
  cases text with
  | nil => contradiction
  | cons c more =>
    obtain ⟨blank, whole, -⟩ := startsPlain_apart starts
    have line := @dropWhile_blanks c blank 1 more
    have column_ := @takeWhile_blanks c blank 1 more
    rw [List.replicate_one, List.singleton_append] at line column_
    rw [tokens_token line whole, column_]
    simp [Place.column, token, entryToken_plain starts, keyToken, read]

/-- The column of the dash or the colon a scalar stands behind. -/
def Place.Behind (column : Nat) (place : Place) : Prop :=
  place = .dash column ∨ place = .colon column

theorem tokens_scalar (behind : place.Behind column) (blank : c ≠ ' ') (whole : isBreak c = false)
    (entry : ∀ column, entryToken column (c :: rest) = none) (key : keyText (c :: rest) = none) :
    tokens place (' ' :: c :: rest) = (scalar (column + 1) (c :: rest)).bind
      fun (node, rest) => (tokens .done rest).map (.scalar node :: ·) := by
  have line := @dropWhile_blanks c blank 1 rest
  rw [List.replicate_one, List.singleton_append] at line
  rw [tokens_token line whole]
  rcases behind with rfl | rfl
  · simp only [token, entry, keyToken, key, scalarToken, Option.none_or, Option.map_none]
    cases scalar (column + 1) (c :: rest) <;> rfl
  · simp only [token, scalarToken]
    cases scalar (column + 1) (c :: rest) <;> rfl

def EndsLine (rest : List Char) : Prop := rest = [] ∨ ∃ more, rest = '\n' :: more

/-- A word for null or a truth value, or a number. -/
theorem tokens_word (behind : place.Behind column) (starts : startsPlain (text ++ rest) = true)
    (word : text.all inWord = true)
    (resolved : resolvePlain text = some node) (ends : EndsLine rest) :
    tokens place (' ' :: (text ++ rest)) = (tokens .done rest).map (.scalar node :: ·) := by
  have read := plainText_word starts word ends
  have none_ : keyText (text ++ rest) = none := by
    rw [keyText_of_plainText starts, read]
    rcases ends with rfl | ⟨more, rfl⟩ <;> rfl
  have whole_ := @scalar_of_plainText _ (column + 1) starts
  rw [read] at whole_
  generalize text ++ rest = line at starts none_ whole_
  cases line with
  | nil => contradiction
  | cons c more =>
    obtain ⟨blank, whole, -⟩ := startsPlain_apart starts
    rw [tokens_scalar behind blank whole (fun _ => entryToken_plain starts) none_, whole_]
    simp [resolved]

theorem tokens_emptyArray (behind : place.Behind column) (rest : List Char) :
    tokens place (' ' :: '[' :: ']' :: rest) = (tokens .done rest).map (.scalar (.array []) :: ·) :=
  tokens_scalar behind (by decide) rfl (fun _ => rfl) rfl

theorem tokens_emptyObject (behind : place.Behind column) (rest : List Char) :
    tokens place (' ' :: '\x7b' :: '\x7d' :: rest) =
      (tokens .done rest).map (.scalar (.object []) :: ·) :=
  tokens_scalar behind (by decide) rfl (fun _ => rfl) rfl

theorem tokens_quoted {quoted : List Piece} (behind : place.Behind column)
    (read : pieces text = some (quoted, rest)) (ends : EndsLine rest) :
    tokens place (' ' :: '"' :: text) = (folded (column + 1) quoted).bind fun text =>
      (tokens .done rest).map (.scalar (.string (String.ofList text)) :: ·) := by
  have none_ : keyText ('"' :: text) = none := by
    simp only [keyText, read]
    rcases ends with rfl | ⟨more, rfl⟩ <;> rfl
  rw [tokens_scalar behind (by decide) rfl (fun _ => rfl) none_]
  simp only [scalar, read, Option.bind_eq_bind, Option.bind_some]
  cases folded (column + 1) quoted <;> rfl

end
end PgCatalog.Library.Yaml
