import PgCatalog.UserFunctions.CreateFunctionText

/-! Types, parameters and options read from their lexemes, whatever follows them. -/
namespace PgCatalog.UserFunctions.CreateFunction

open Library

section
variable {tokens rest left : List Lexeme} {first second : Lexeme} {type : Typename} {w : String}
  {names : List String}

/-- What ends a type: a comma, a closing parenthesis or the language. -/
def EndsType (rest : List Lexeme) : Prop :=
  ∃ token more, rest = token :: more ∧ token ∈ [.sym ',', .sym ')', .word "language"]

theorem afterWords_append {words : List String} (here : afterWords words tokens = some left)
    (rest : List Lexeme) : afterWords words (tokens ++ rest) = some (left ++ rest) := by
  fun_induction afterWords words tokens with
  | case1 tokens =>
    obtain rfl := Option.some.inj here
    rfl
  | case2 words text tokens ih => simpa [afterWords] using ih here
  | case3 => contradiction
  | case4 => contradiction

theorem afterWords_append_none {words : List String} (here : afterWords words tokens = none)
    (ends : EndsType rest) (none_ : "language" ∉ words) :
    afterWords words (tokens ++ rest) = none := by
  obtain ⟨token, more, rfl, member⟩ := ends
  fun_induction afterWords words tokens with
  | case1 => contradiction
  | case2 words text tokens ih =>
    simpa [afterWords] using ih here fun member => none_ (.tail _ member)
  | case3 word words text tokens other => simp [afterWords, other]
  | case4 word words tokens other =>
    cases tokens with
    | nil =>
      simp only [List.mem_cons, List.not_mem_nil, or_false] at member
      rcases member with rfl | rfl | rfl
      · rfl
      · rfl
      · have different : "language" ≠ word := fun same => none_ (by simp [same])
        simp [afterWords, different]
    | cons token tokens =>
      cases token with
      | word text => exact absurd rfl (other text tokens)
      | quoted text => rfl
      | number whole fraction => rfl
      | string text => rfl
      | sym c => rfl

theorem findWords_append (table : List (List String × String)) (ends : EndsType rest)
    (none_ : ∀ entry ∈ table, "language" ∉ entry.1) :
    (table.findSome? fun (words, name) => (afterWords words (tokens ++ rest)).map fun left =>
      (["pg_catalog", name], left)) =
    (table.findSome? fun (words, name) => (afterWords words tokens).map fun left =>
      (["pg_catalog", name], left)).map fun (names, left) => (names, left ++ rest) := by
  induction table with
  | nil => rfl
  | cons entry table ih =>
    obtain ⟨words, name⟩ := entry
    have more := ih fun entry member => none_ entry (.tail _ member)
    rw [List.findSome?_cons, List.findSome?_cons]
    cases here : afterWords words tokens with
    | none =>
      have absent := afterWords_append_none here ends (none_ (words, name) List.mem_cons_self)
      simp only [absent, here, Option.map_none]
      exact more
    | some left => simp only [afterWords_append here, here, Option.map_some]

theorem keywordTypes_language : (keywordTypes.all fun entry => "language" ∉ entry.1) = true := by
  decide

theorem keywordType_append (ends : EndsType rest) : keywordType (tokens ++ rest) =
    (keywordType tokens).map fun (names, left) => (names, left ++ rest) := by
  apply findWords_append _ ends
  intro entry member
  simpa using List.all_eq_true.mp keywordTypes_language entry member

theorem EndsType.not_sym (ends : EndsType rest) {c : Char} (other : c ∉ [',', ')']) (more) :
    rest ≠ .sym c :: more := by
  obtain ⟨token, after, rfl, member⟩ := ends
  intro same
  rw [(List.cons.inj same).1] at member
  simp only [List.mem_cons, Lexeme.sym.injEq, reduceCtorEq, List.not_mem_nil, or_false] at member
  exact other (by simpa using member)

theorem arrayBounds_append {dimensions : Nat} (ends : EndsType rest)
    (whole : arrayBounds tokens = (dimensions, [])) :
    arrayBounds (tokens ++ rest) = (dimensions, rest) := by
  fun_induction arrayBounds tokens generalizing dimensions with
  | case1 tokens ih =>
    obtain ⟨rfl, none_⟩ := Prod.mk.inj whole
    have inner := @ih (arrayBounds tokens).1 (by rw [← none_])
    simp [arrayBounds, inner]
  | case2 tokens other =>
    obtain ⟨rfl, rfl⟩ := Prod.mk.inj whole
    rw [List.nil_append]
    unfold arrayBounds
    split
    · rename_i more
      exact absurd rfl (ends.not_sym (by decide) _)
    · rfl

theorem attrs_append {dimensions : Nat} (ends : EndsType rest)
    (whole : arrayBounds (attrs tokens).2 = (dimensions, [])) :
    attrs (tokens ++ rest) = ((attrs tokens).1, (attrs tokens).2 ++ rest) := by
  fun_induction attrs tokens with
  | case1 name tokens label here ih => simp [attrs, here, ih whole]
  | case2 name tokens here => simp [arrayBounds] at whole
  | case3 tokens other =>
    cases tokens with
    | nil =>
      rw [List.nil_append]
      unfold attrs
      split
      · exact absurd rfl (ends.not_sym (by decide) _)
      · rfl
    | cons token tokens =>
      by_cases dot : token = .sym '.'
      · subst dot
        simp [arrayBounds] at whole
      · rw [List.cons_append]
        unfold attrs
        split
        · rename_i same
          exact absurd (List.cons.inj same).1 dot
        · rfl

/-- A type that is read alone is read before what ends it. -/
theorem plainTypename_append (ends : EndsType rest)
    (read : plainTypename tokens = some (type, [])) :
    plainTypename (tokens ++ rest) = some (type, rest) := by
  obtain ⟨⟨names, left⟩, named, same⟩ := Option.map_eq_some_iff.mp read
  obtain ⟨rfl, bounds⟩ := Prod.mk.inj same
  have whole : arrayBounds left = ((arrayBounds left).1, []) := by rw [← bounds]
  have arrays := arrayBounds_append ends whole
  rw [plainTypename, keywordType_append ends]
  cases words : keywordType tokens with
  | some pair =>
    rw [words] at named
    obtain rfl := Option.some.inj named
    simp [arrays]
  | none =>
    rw [words, Option.none_or] at named
    cases tokens with
    | nil => contradiction
    | cons first tokens =>
      obtain ⟨name, label, same⟩ := Option.map_eq_some_iff.mp named
      obtain ⟨rfl, rfl⟩ := Prod.mk.inj same
      simp [genericType, label, attrs_append ends whole, arrays]

/-- The words that no type starts with, besides those that stand for no type at all. -/
def noType : List String := ["in", "out", "inout", "variadic", "setof", "table", "precision"]

/-- Whether a type of key words starts so that it is not read as a name and a type. -/
def startsSafely : List String → Bool
  | [] => false
  | [w] => w ∉ noType
  | w :: w' :: _ => w ∉ noType && ((w = "double" && w' = "precision") || w ∈ colNameKeywords)

theorem keywordTypes_safe : (keywordTypes.all fun entry => startsSafely entry.1) = true := by
  decide

/-- What the lexemes of a type start with. -/
structure TypeStart (tokens : List Lexeme) (first : Lexeme) (more : List Lexeme) : Prop where
  tokens_eq : tokens = first :: more
  isName : isName first = true
  isType : ∀ w ∈ noType, first ≠ .word w
  notNamed : ∀ second left, more = second :: left → CreateFunction.isName second = true →
    (first = .word "double" ∧ second = .word "precision") ∨ typeFunctionName first = none

theorem afterWords_cons {word : String} {words : List String}
    (here : afterWords (word :: words) tokens = some left) :
    ∃ more, tokens = .word word :: more ∧ afterWords words more = some left := by
  cases tokens with
  | nil => contradiction
  | cons token tokens =>
    cases token with
    | word text =>
      obtain ⟨rfl, same⟩ := Option.ite_none_right_eq_some.mp here
      exact ⟨tokens, rfl, same⟩
    | quoted text => contradiction
    | number whole fraction => contradiction
    | string text => contradiction
    | sym c => contradiction

theorem arrayBounds_name {dimensions : Nat} (name : isName first = true) :
    arrayBounds (first :: tokens) ≠ (dimensions, []) := by
  cases first with
  | word text => simp [arrayBounds]
  | quoted text => simp [arrayBounds]
  | number whole fraction => contradiction
  | string text => contradiction
  | sym c => contradiction

theorem typeFunctionName_isName {name : String} (here : typeFunctionName first = some name) :
    isName first = true := by
  cases first with
  | word text => rfl
  | quoted text => rfl
  | number whole fraction => contradiction
  | string text => contradiction
  | sym c => contradiction

theorem noType_keywords :
    (noType.all fun w => w ∈ reservedKeywords || w ∈ colNameKeywords) = true := by
  decide

theorem attrs_name (name : isName first = true) :
    attrs (first :: tokens) = ([], first :: tokens) := by
  cases first with
  | word text => rfl
  | quoted text => rfl
  | number whole fraction => contradiction
  | string text => contradiction
  | sym c => contradiction

theorem typeStart_keyword {words : List String} {dimensions : Nat}
    (safe : startsSafely words = true) (here : afterWords words tokens = some left)
    (whole : arrayBounds left = (dimensions, [])) : ∃ first more, TypeStart tokens first more := by
  cases words with
  | nil => contradiction
  | cons w words =>
    obtain ⟨more, rfl, further⟩ := afterWords_cons here
    cases words with
    | nil =>
      obtain rfl := Option.some.inj further
      have other : w ∉ noType := by simpa [startsSafely] using safe
      refine ⟨_, _, rfl, rfl, ?_, ?_⟩
      · rintro v member same
        exact other (Lexeme.word.inj same ▸ member)
      · rintro second after rfl name
        exact absurd whole (arrayBounds_name name)
    | cons w' words =>
      obtain ⟨after, rfl, -⟩ := afterWords_cons further
      simp only [startsSafely, Bool.and_eq_true, Bool.or_eq_true, decide_eq_true_eq] at safe
      obtain ⟨other, known⟩ := safe
      refine ⟨_, _, rfl, rfl, ?_, ?_⟩
      · rintro v member same
        exact other (Lexeme.word.inj same ▸ member)
      · intro second after' same _
        obtain ⟨rfl, -⟩ := List.cons.inj same
        rcases known with ⟨rfl, rfl⟩ | column
        · exact .inl ⟨rfl, rfl⟩
        · exact .inr (by simp [typeFunctionName, column])

theorem typeStart_generic {dimensions : Nat} (here : genericType tokens = some (names, left))
    (whole : arrayBounds left = (dimensions, [])) : ∃ first more, TypeStart tokens first more := by
  cases tokens with
  | nil => contradiction
  | cons first tokens =>
    obtain ⟨name, named, same⟩ := Option.map_eq_some_iff.mp here
    obtain ⟨-, rfl⟩ := Prod.mk.inj same
    refine ⟨_, _, rfl, typeFunctionName_isName named, ?_, ?_⟩
    · rintro w member rfl
      have keyword := List.all_eq_true.mp noType_keywords w member
      rw [typeFunctionName, if_pos keyword] at named
      contradiction
    · rintro second after rfl name
      rw [attrs_name name] at whole
      exact absurd whole (arrayBounds_name name)

theorem typeStart (read : plainTypename tokens = some (type, [])) :
    ∃ first more, TypeStart tokens first more := by
  obtain ⟨⟨names, left⟩, named, same⟩ := Option.map_eq_some_iff.mp read
  obtain ⟨-, bounds⟩ := Prod.mk.inj same
  have whole : arrayBounds left = ((arrayBounds left).1, []) := by rw [← bounds]
  rcases Option.or_eq_some_iff.mp named with keyword | ⟨-, generic⟩
  · obtain ⟨entry, member, here⟩ := List.exists_of_findSome?_eq_some keyword
    obtain ⟨after, words, same⟩ := Option.map_eq_some_iff.mp here
    obtain ⟨-, rfl⟩ := Prod.mk.inj same
    exact typeStart_keyword (List.all_eq_true.mp keywordTypes_safe entry member) words whole
  · exact typeStart_generic generic whole

theorem typename_of_start {more : List Lexeme} (start : TypeStart tokens first more) :
    typename (tokens ++ rest) = plainTypename (tokens ++ rest) := by
  obtain ⟨rfl, -, isType, -⟩ := start
  rw [List.cons_append]
  unfold typename
  split
  · rename_i same
    exact absurd (List.cons.inj same).1 (isType "setof" (by decide))
  · rfl

theorem argClass_none (isType : ∀ w ∈ noType, first ≠ .word w) :
    argClass (first :: tokens) = none := by
  unfold argClass
  split
  · rename_i same
    exact absurd (List.cons.inj same).1 (isType "in" (by decide))
  · rename_i same
    exact absurd (List.cons.inj same).1 (isType "in" (by decide))
  · rename_i same
    exact absurd (List.cons.inj same).1 (isType "out" (by decide))
  · rename_i same
    exact absurd (List.cons.inj same).1 (isType "inout" (by decide))
  · rename_i same
    exact absurd (List.cons.inj same).1 (isType "variadic" (by decide))
  · rfl

theorem argClass_of_start {more : List Lexeme} (start : TypeStart tokens first more) :
    argClass (tokens ++ rest) = none := by
  rw [start.tokens_eq]
  exact argClass_none start.isType

/-- The mark behind a parameter. -/
def EndsArgument (rest : List Lexeme) : Prop :=
  ∃ c more, rest = .sym c :: more ∧ c ∈ [',', ')']

theorem EndsArgument.endsType (ends : EndsArgument rest) : EndsType rest := by
  obtain ⟨c, more, rfl, member⟩ := ends
  refine ⟨.sym c, more, rfl, ?_⟩
  simp only [List.mem_cons, List.not_mem_nil, or_false] at member
  rcases member with rfl | rfl <;> simp

theorem paramName_of_start {more : List Lexeme} (start : TypeStart tokens first more)
    (ends : EndsArgument rest) : paramName (tokens ++ rest) = none := by
  obtain ⟨rfl, -, -, notNamed⟩ := start
  cases more with
  | nil =>
    obtain ⟨c, more, rfl, -⟩ := ends
    rfl
  | cons second more =>
    rw [List.cons_append, List.cons_append, paramName]
    split
    · rename_i named
      obtain ⟨name, other⟩ := Bool.and_eq_true_iff.mp named
      rcases notNamed second more rfl name with ⟨rfl, rfl⟩ | none_
      · contradiction
      · rw [none_]
        rfl
    · rfl

/-- A parameter's name that is read as one. -/
structure ParameterName (name : String) : Prop where
  unquoted : Unquoted name
  reserved : name ∉ reservedKeywords
  column : name ∉ colNameKeywords

theorem typeFunctionName_word {name : String} (named : ParameterName name) :
    typeFunctionName (.word name) = some name := by
  simp [typeFunctionName, named.reserved, named.column, named.unquoted.short]

theorem paramName_named {name : String} {more : List Lexeme} (named : ParameterName name)
    (start : TypeStart tokens first more) :
    paramName (.word name :: (tokens ++ rest)) = some (name, tokens ++ rest) := by
  obtain ⟨rfl, isName, isType, -⟩ := start
  have other : first ≠ .word "precision" := isType "precision" (by decide)
  rw [List.cons_append, paramName, typeFunctionName_word named]
  simp [isName, other]

theorem argClass_name {name : String} (named : ParameterName name) :
    argClass (.word name :: tokens) = none := by
  apply argClass_none
  intro w member same
  obtain rfl := Lexeme.word.inj same
  have known := List.all_eq_true.mp noType_keywords name member
  simp [named.reserved, named.column] at known

/-! ## Parameters -/

/-- The keyword of a mode, as a lexeme before the name. -/
def modeTokens : ParameterMode → List Lexeme
  | .output => [.word "out"]
  | .inputOutput => [.word "inout"]
  | .variadic => [.word "variadic"]
  | _ => []

def nameTokens : Option String → List Lexeme
  | some name => [.word name]
  | none => []

theorem paramType_read {mode : Option ParameterMode} {name : Option String}
    (read : plainTypename tokens = some (type, [])) (ends : EndsArgument rest) :
    paramType mode name (tokens ++ rest) = some (⟨mode.getD .input, name, type⟩, rest) := by
  obtain ⟨first, more, start⟩ := typeStart read
  rw [paramType, typename_of_start start, plainTypename_append ends.endsType read]
  rfl

/-- A parameter is read as what its lexemes were made from. -/
theorem funcArg_read {mode : ParameterMode} {name : Option String} (written : mode ≠ .table)
    (named : ∀ text ∈ name, ParameterName text) (read : plainTypename tokens = some (type, []))
    (ends : EndsArgument rest) :
    funcArg (modeTokens mode ++ nameTokens name ++ tokens ++ rest) =
      some (⟨mode, name, type⟩, rest) := by
  obtain ⟨first, more, start⟩ := typeStart read
  have bare := @argClass_of_start _ rest _ _ start
  have unnamed := paramName_of_start start ends
  cases name with
  | none =>
    cases mode with
    | table => contradiction
    | input =>
      simp [modeTokens, nameTokens, funcArg, bare, unnamed, paramType_read read ends]
    | output | inputOutput | variadic =>
      simp [modeTokens, nameTokens, funcArg, argClass, unnamed, paramType_read read ends]
  | some text =>
    have name_ := named text rfl
    have namedFirst := @paramName_named _ rest _ _ _ name_ start
    cases mode with
    | table => contradiction
    | input =>
      simp [modeTokens, nameTokens, funcArg, argClass_name name_, bare, namedFirst,
        paramType_read read ends]
    | output | inputOutput | variadic =>
      simp [modeTokens, nameTokens, funcArg, argClass, namedFirst, paramType_read read ends]

def commaTokens : List (List Lexeme) → List Lexeme
  | [] => []
  | [tokens] => tokens
  | tokens :: more => tokens ++ .sym ',' :: commaTokens more

theorem commaList_read {α : Type} {part : List Lexeme → Option (α × List Lexeme)}
    {parts : List (List Lexeme × α)} {fuel : Nat} (nonempty : parts ≠ [])
    (each : ∀ p ∈ parts, ∀ rest, EndsArgument rest → part (p.1 ++ rest) = some (p.2, rest))
    (enough : parts.length ≤ fuel) :
    commaList part fuel (commaTokens (parts.map Prod.fst) ++ .sym ')' :: rest) =
      some (parts.map Prod.snd, rest) := by
  induction parts generalizing fuel with
  | nil => contradiction
  | cons p parts ih =>
    cases fuel with
    | zero => contradiction
    | succ fuel =>
      have here := each p List.mem_cons_self
      cases parts with
      | nil =>
        have read := here (.sym ')' :: rest) ⟨')', rest, rfl, by simp⟩
        simp [commaTokens, commaList, read]
      | cons q parts =>
        have more := @ih fuel (by simp) (fun r member => each r (.tail _ member))
          (Nat.le_of_succ_le_succ enough)
        have read := here
          (.sym ',' :: (commaTokens ((q :: parts).map Prod.fst) ++ .sym ')' :: rest))
          ⟨',', _, rfl, by simp⟩
        simp only [List.map_cons] at more read
        simp [commaTokens, commaList, read, more]

/-! ## Options -/

/-- No symbol follows. -/
def Continues (rest : List Lexeme) : Prop := ∀ c more, rest ≠ .sym c :: more

/-- The lexemes are one option. -/
structure IsItem (tokens : List Lexeme) (item_ : Item) : Prop where
  nonempty : tokens ≠ []
  continues : Continues tokens
  read : ∀ rest, Continues rest → item (tokens ++ rest) = some (item_, rest)

theorem items_nil : items [] = some [] := rfl

theorem items_cons {item_ : Item} (nonempty : tokens ≠ []) (continues : Continues tokens)
    (read : item tokens = some (item_, rest)) : items tokens = (items rest).map (item_ :: ·) := by
  have step : itemStep tokens = some ([item_], rest) := by
    unfold itemStep
    split
    · exact absurd rfl (continues ';' [])
    · rw [read]
      rfl
  rw [items, Reader.stateless_step nonempty step]
  rfl

theorem Continues.append (continues : Continues tokens) (nonempty : tokens ≠ []) :
    Continues (tokens ++ rest) := by
  cases tokens with
  | nil => contradiction
  | cons first tokens =>
    intro c more same
    exact continues c tokens (by rw [(List.cons.inj same).1])

theorem items_flatten {groups : List (List Lexeme)} {items_ : List Item}
    (each : List.Forall₂ IsItem groups items_) (continues : Continues rest) :
    items (groups.flatten ++ rest) = (items rest).map (items_ ++ ·) := by
  induction each with
  | nil => simp
  | @cons group item_ groups items_ here each ih =>
    have further : Continues (groups.flatten ++ rest) := by
      cases each with
      | nil => exact continues
      | @cons next _ _ _ isItem _ =>
        rw [List.flatten_cons, List.append_assoc]
        exact isItem.continues.append isItem.nonempty
    rw [List.flatten_cons, List.append_assoc,
      items_cons (by simp [here.nonempty]) (here.continues.append here.nonempty)
        (here.read _ further), ih, Option.map_map]
    simp [Function.comp_def]

theorem isItem_word {item_ : Item} (w : String)
    (read : ∀ rest, item (.word w :: rest) = some (item_, rest)) : IsItem [.word w] item_ :=
  ⟨by simp, by simp [Continues], fun rest _ => read rest⟩

theorem isItem_words {item_ : Item} (w w' : String)
    (read : ∀ rest, item (.word w :: .word w' :: rest) = some (item_, rest)) :
    IsItem [.word w, .word w'] item_ :=
  ⟨by simp, by simp [Continues], fun rest _ => read rest⟩

theorem isItem_parallel {w : String} (column : colId (.word w) = some w) :
    IsItem [.word "parallel", .word w] (.parallel w) :=
  isItem_words _ _ fun rest => by simp [item, column]

theorem isItem_language {w : String} (unquoted : Unquoted w) (free : w ∉ reservedKeywords) :
    IsItem [.word "language", .word w] (.language w) :=
  isItem_words _ _ fun rest => by simp [item, nonReservedWord, free, unquoted.short]

theorem isItem_support {w : String} (unquoted : Unquoted w) (free : ¬ NotColId w) :
    IsItem [.word "support", .word w] (.support [w]) := by
  refine ⟨by simp, by simp [Continues], fun rest continues => ?_⟩
  have none_ : attrs rest = ([], rest) := by
    unfold attrs
    split
    · exact absurd rfl (continues '.' _)
    · rfl
  simp [item, anyName, colId, free, unquoted.short, none_]

/-- The lexemes of a number with its sign. -/
def numberTokens (negative : Bool) (whole fraction : List Char) : List Lexeme :=
  if negative then [.sym '-', .number whole fraction] else [.number whole fraction]

theorem numericOnly_read (n : Decimal) (rest : List Lexeme) :
    numericOnly (numberTokens n.negative n.whole n.fraction ++ rest) = some (n.value, rest) := by
  unfold numberTokens Decimal.value
  split <;> rfl

theorem isItem_cost (n : Decimal) :
    IsItem (.word "cost" :: numberTokens n.negative n.whole n.fraction) (.cost n.value) :=
  ⟨by simp, by simp [Continues], fun rest _ => by simp [item, numericOnly_read]⟩

theorem isItem_rows (n : Decimal) :
    IsItem (.word "rows" :: numberTokens n.negative n.whole n.fraction) (.rows n.value) :=
  ⟨by simp, by simp [Continues], fun rest _ => by simp [item, numericOnly_read]⟩

end
end PgCatalog.UserFunctions.CreateFunction
