import PgCatalog.UserFunctions.FunctionText

/-! The lexemes of the statement that is printed for a row whose names and types can be read. -/
namespace PgCatalog.UserFunctions.CreateFunction

open Library

def wholeType (tokens : List Lexeme) : Option Typename :=
  match plainTypename tokens with
  | some (type, []) => some type
  | _ => none

/-- The type that a text names. -/
def typeOf (text : String) : Option Typename := (lexemes text.toList).bind wholeType

/-- Every name and type of the row is read as it stands, and its numbers are numbers. -/
structure Readable (typeNames : TypeNamesByOid) (row : FunctionRow) : Prop where
  schema : Unquoted row.schema ∧ ¬ NotColId row.schema
  name : Unquoted row.name
  language : Unquoted row.language ∧ row.language ∉ reservedKeywords
  support : row.support ≠ "-" → row.support ≠ "" → Unquoted row.support ∧ ¬ NotColId row.support
  names : ∀ a ∈ row.arguments, ∀ text ∈ printedName a.name, ParameterName text
  types : ∀ a ∈ row.arguments, (typeOf (typeName typeNames a.typeOid)).isSome = true
  result : (typeOf (typeName typeNames row.rettypeOid)).isSome = true
  cost : row.cost.value?.isSome = true
  rows : row.resultRows.value?.isSome = true

section
variable {typeNames : TypeNamesByOid} {row : FunctionRow} {text : String} {type : Typename}
  {tokens : List Lexeme} {options : List Item}

/-! ## Types and parameters -/

theorem typeOf_eq_some (named : typeOf text = some type) :
    Written text ∧ plainTypename (tokensOf text) = some (type, []) := by
  obtain ⟨tokens, read, whole⟩ := Option.bind_eq_some_iff.mp named
  rw [Written, written_of_lexemes read]
  refine ⟨read, ?_⟩
  unfold wholeType at whole
  split at whole
  · rename_i here
    rw [here, Option.some.inj whole]
  · contradiction

/-- The parameter that is read for an argument. -/
def parameterOf (typeNames : TypeNamesByOid) (a : Argument) : Parameter :=
  ⟨printedMode a.mode, printedName a.name,
    (typeOf (typeName typeNames a.typeOid)).getD ⟨false, [], 0⟩⟩

theorem printedMode_ne_table (mode : Option String) : printedMode mode ≠ .table := by
  unfold printedMode
  split <;> simp

theorem funcArg_printed {a : Argument} (named : ∀ text ∈ printedName a.name, ParameterName text)
    (typed : (typeOf (typeName typeNames a.typeOid)).isSome = true) (rest : List Lexeme)
    (ends : EndsArgument rest) :
    funcArg (argumentTokens typeNames a ++ rest) = some (parameterOf typeNames a, rest) := by
  obtain ⟨type, here⟩ := Option.isSome_iff_exists.mp typed
  rw [parameterOf, here]
  exact funcArg_read (printedMode_ne_table a.mode) named (typeOf_eq_some here).2 ends

theorem funcArg_sym (c : Char) (rest : List Lexeme) : funcArg (.sym c :: rest) = none := by
  have unnamed : paramName (.sym c :: rest) = none := by
    cases rest with
    | nil => rfl
    | cons next rest => simp [paramName, typeFunctionName]
  have none_ : keywordType (.sym c :: rest) = none := by
    simp [keywordType, keywordTypes, afterWords]
  simp [funcArg, argClass, unnamed, paramType, typename, plainTypename, none_, genericType,
    typeFunctionName]

theorem commaTokens_length (groups : List (List Lexeme)) :
    groups.length ≤ (commaTokens groups).length + 1 := by
  fun_induction commaTokens groups with
  | case1 => simp
  | case2 tokens => simp
  | case3 tokens more nonempty ih =>
    simp only [List.length_cons, List.length_append]
    omega

/-- The parameters are read as what was printed for the arguments. -/
theorem funcArgs_printed {arguments : List Argument}
    (named : ∀ a ∈ arguments, ∀ text ∈ printedName a.name, ParameterName text)
    (typed : ∀ a ∈ arguments, (typeOf (typeName typeNames a.typeOid)).isSome = true)
    (rest : List Lexeme) :
    funcArgs (commaTokens (arguments.map (argumentTokens typeNames)) ++ .sym ')' :: rest) =
      some (arguments.map (parameterOf typeNames), rest) := by
  by_cases nonempty : arguments = []
  · subst nonempty
    rfl
  have each : ∀ p ∈ arguments.map (fun a => (argumentTokens typeNames a, parameterOf typeNames a)),
      ∀ rest, EndsArgument rest → funcArg (p.1 ++ rest) = some (p.2, rest) := by
    intro p member
    obtain ⟨a, here, rfl⟩ := List.mem_map.mp member
    exact funcArg_printed (named a here) (typed a here)
  have count := commaTokens_length (arguments.map (argumentTokens typeNames))
  have read := @commaList_read rest _ funcArg _
    (commaTokens (arguments.map (argumentTokens typeNames)) ++ .sym ')' :: rest).length
    (by simp [nonempty]) each (by
      simp only [List.length_map, List.length_append, List.length_cons] at count ⊢
      omega)
  simp only [List.map_map, Function.comp_def] at read
  unfold funcArgs
  split
  · -- no argument is printed as a parenthesis
    rename_i closed
    rw [closed, List.length_cons, commaList, funcArg_sym] at read
    contradiction
  · exact read

/-! ## Flags -/

def flagItems (row : FunctionRow) : List Item :=
  (if row.kind = "w" then [Item.window] else []) ++
  (if row.volatility = "i" then [Item.volatility "i"]
    else if row.volatility = "s" then [Item.volatility "s"] else []) ++
  (if row.parallel = "s" then [Item.parallel "safe"]
    else if row.parallel = "r" then [Item.parallel "restricted"] else []) ++
  (if row.isStrict then [Item.strict true] else []) ++
  (if row.isLeakproof then [Item.leakproof true] else []) ++
  (if row.securityDefiner then [Item.security true] else []) ++
  (if row.support ≠ "-" && row.support ≠ "" then [Item.support [row.support]] else []) ++
  (if row.cost.apartFrom row.defaultCost then [Item.cost (row.cost.value?.getD 0)] else []) ++
  (if row.returnsSet && row.resultRows.apartFrom 1000 then
    [Item.rows (row.resultRows.value?.getD 0)] else [])

theorem flags_ite {condition : Prop} [Decidable condition] {texts more : List String}
    {items_ others : List Item} (yes : condition → List.Forall₂ Flag texts items_)
    (no : ¬ condition → List.Forall₂ Flag more others) :
    List.Forall₂ Flag (if condition then texts else more)
      (if condition then items_ else others) := by
  by_cases here : condition
  · rw [if_pos here, if_pos here]
    exact yes here
  · rw [if_neg here, if_neg here]
    exact no here

theorem flags_single {item_ : Item} (flag : Flag text item_) :
    List.Forall₂ Flag [text] [item_] := .cons flag .nil

theorem flags_none {condition : Prop} : ¬ condition → List.Forall₂ Flag [] [] := fun _ => .nil

theorem lexemes_after {word : String} (front : String) {lower : String}
    (same : word = front ++ String.singleton ' ')
    (read : lexemes front.toList = some [.word lower])
    (written : lexemes text.toList = some tokens) :
    lexemes (word ++ text).toList = some (.word lower :: tokens) := by
  rw [String.toList_append, reads_constant front (.inl rfl) same read, written]
  rfl

theorem flag_support {name : String} (unquoted : Unquoted name) (free : ¬ NotColId name) :
    Flag ("SUPPORT " ++ name) (.support [name]) := by
  have keyword : lexemes "SUPPORT".toList = some [.word "support"] := by rfl
  have read := lexemes_after "SUPPORT" (by decide : "SUPPORT " = _) keyword (lexemes_name unquoted)
  exact flag_of_lexemes read (isItem_support unquoted free)

theorem flag_cost {value : Float64} (finite : value.value?.isSome = true) :
    Flag ("COST " ++ trimmedNumber value) (.cost (value.value?.getD 0)) := by
  have keyword : lexemes "COST".toList = some [.word "cost"] := by rfl
  cases value with
  | finite n =>
    have read := lexemes_after "COST" (by decide : "COST " = _) keyword (lexemes_number n)
    exact flag_of_lexemes read (isItem_cost n)
  | infinite negative => contradiction
  | nan => contradiction

theorem flag_rows {value : Float64} (finite : value.value?.isSome = true) :
    Flag ("ROWS " ++ trimmedNumber value) (.rows (value.value?.getD 0)) := by
  have keyword : lexemes "ROWS".toList = some [.word "rows"] := by rfl
  cases value with
  | finite n =>
    have read := lexemes_after "ROWS" (by decide : "ROWS " = _) keyword (lexemes_number n)
    exact flag_of_lexemes read (isItem_rows n)
  | infinite negative => contradiction
  | nan => contradiction

theorem written_of_flags {texts : List String} {items_ : List Item}
    (flags : List.Forall₂ Flag texts items_) : ∀ text ∈ texts, Written text := by
  induction flags with
  | nil => simp
  | cons flag _ ih =>
    intro text member
    rcases List.mem_cons.mp member with rfl | member
    · exact flag.1
    · exact ih text member

theorem nonempty_of_flags {texts : List String} {items_ : List Item}
    (flags : List.Forall₂ Flag texts items_) : ∀ text ∈ texts, text ≠ "" := by
  induction flags with
  | nil => simp
  | cons flag _ ih =>
    intro text member
    rcases List.mem_cons.mp member with rfl | member
    · exact flag.nonempty
    · exact ih text member

theorem isItems_of_flags {texts : List String} {items_ : List Item}
    (flags : List.Forall₂ Flag texts items_) :
    List.Forall₂ IsItem (texts.map tokensOf) items_ := by
  induction flags with
  | nil => exact .nil
  | cons flag _ ih => exact .cons flag.2 ih

theorem flags_printed (readable : Readable typeNames row) :
    List.Forall₂ Flag row.flagList (flagItems row) := by
  have window : Flag "WINDOW" .window :=
    flag_of_lexemes (by rfl) (isItem_word "window" fun _ => rfl)
  have immutable : Flag "IMMUTABLE" (.volatility "i") :=
    flag_of_lexemes (by rfl) (isItem_word "immutable" fun _ => rfl)
  have stable : Flag "STABLE" (.volatility "s") :=
    flag_of_lexemes (by rfl) (isItem_word "stable" fun _ => rfl)
  have safe : Flag "PARALLEL SAFE" (.parallel "safe") :=
    flag_of_lexemes (by rfl) (isItem_parallel (by decide))
  have restricted : Flag "PARALLEL RESTRICTED" (.parallel "restricted") :=
    flag_of_lexemes (by rfl) (isItem_parallel (by decide))
  have strict : Flag "STRICT" (.strict true) :=
    flag_of_lexemes (by rfl) (isItem_word "strict" fun _ => rfl)
  have leakproof : Flag "LEAKPROOF" (.leakproof true) :=
    flag_of_lexemes (by rfl) (isItem_word "leakproof" fun _ => rfl)
  have security : Flag "SECURITY DEFINER" (.security true) :=
    flag_of_lexemes (by rfl) (isItem_words "security" "definer" fun _ => rfl)
  unfold FunctionRow.flagList flagItems
  refine List.rel_append (List.rel_append (List.rel_append (List.rel_append (List.rel_append
    (List.rel_append (List.rel_append (List.rel_append ?_ ?_) ?_) ?_) ?_) ?_) ?_) ?_) ?_
  · exact flags_ite (fun _ => flags_single window) flags_none
  · exact flags_ite (fun _ => flags_single immutable)
      fun _ => flags_ite (fun _ => flags_single stable) flags_none
  · exact flags_ite (fun _ => flags_single safe)
      fun _ => flags_ite (fun _ => flags_single restricted) flags_none
  · exact flags_ite (fun _ => flags_single strict) flags_none
  · exact flags_ite (fun _ => flags_single leakproof) flags_none
  · exact flags_ite (fun _ => flags_single security) flags_none
  · apply flags_ite _ flags_none
    intro printed
    simp only [ne_eq, Bool.and_eq_true, decide_eq_true_eq] at printed
    obtain ⟨unquoted, free⟩ := readable.support printed.1 printed.2
    exact flags_single (flag_support unquoted free)
  · exact flags_ite (fun _ => flags_single (flag_cost readable.cost)) flags_none
  · exact flags_ite (fun _ => flags_single (flag_rows readable.rows)) flags_none

/-! ## The statement -/

def setofTokens (row : FunctionRow) : List Lexeme := if row.returnsSet then [.word "setof"] else []

/-- The lexemes of the statement in front of its body. -/
def frontTokens (typeNames : TypeNamesByOid) (row : FunctionRow) (rest : List Lexeme) :
    List Lexeme :=
  .word "create" :: .word "or" :: .word "replace" :: .word "function" :: .word row.schema ::
    .sym '.' :: .word row.name :: .sym '(' ::
    (commaTokens (row.arguments.map (argumentTokens typeNames)) ++ .sym ')' :: .word "returns" ::
      (setofTokens row ++ (tokensOf (typeName typeNames row.rettypeOid) ++ .word "language" ::
        .word row.language :: ((row.flagList.map tokensOf).flatten ++ rest))))

/-- The text of the statement from its body on. -/
def bodyText (row : FunctionRow) : List Char :=
  "AS $function$".toList ++ (row.source.toList ++ "$function$\n".toList)

theorem reads_setof (row : FunctionRow) :
    Reads (if row.returnsSet then "SETOF " else "").toList (setofTokens row ++ ·) := by
  unfold setofTokens
  cases row.returnsSet with
  | false => exact reads_nil
  | true => exact reads_constant "SETOF" (.inl rfl) (by decide) (by rfl)

theorem renderedFlags_empty (readable : Readable typeNames row) :
    row.renderedFlags = "" ↔ row.flagList = [] := by
  have nonempty := nonempty_of_flags (flags_printed readable)
  unfold FunctionRow.renderedFlags
  cases flags : row.flagList with
  | nil => simp
  | cons text texts =>
    have here := nonempty text (by simp [flags])
    cases texts with
    | nil => simp [here]
    | cons next texts => simp [String.intercalate_cons_cons]

theorem reads_flagsLine (readable : Readable typeNames row) :
    Reads (if row.renderedFlags = "" then "" else " " ++ row.renderedFlags ++ "\n").toList
      ((row.flagList.map tokensOf).flatten ++ ·) := by
  by_cases empty : row.flagList = []
  · rw [if_pos ((renderedFlags_empty readable).mpr empty), empty]
    exact reads_nil
  · intro more
    have written := written_of_flags (flags_printed readable)
    have blank : isNameSpace ' ' = true := by decide
    have opening : " ".toList = [' '] := by decide
    have closing : "\n".toList = ['\n'] := by decide
    rw [if_neg (empty ∘ (renderedFlags_empty readable).mp), String.toList_append,
      String.toList_append, opening, closing, List.append_assoc, List.append_assoc,
      List.singleton_append, List.singleton_append, lexemes_space blank, FunctionRow.renderedFlags,
      lexemes_flags written empty]

theorem reads_function (readable : Readable typeNames row) :
    Reads (row.schema.toList ++ (".".toList ++ (row.name.toList ++ "(".toList)))
      (.word row.schema :: .sym '.' :: .word row.name :: .sym '(' :: ·) := by
  intro more
  have point : ".".toList = ['.'] := by decide
  have paren : "(".toList = ['('] := by decide
  rw [point, paren, List.append_assoc, List.append_assoc, List.append_assoc, List.singleton_append,
    List.singleton_append, lexemes_word readable.schema.1 (by decide), lexemes_dot readable.name,
    lexemes_word readable.name (by decide), lexemes_sym (by decide), Option.map_map,
    Option.map_map, Option.map_map]
  rfl

theorem reads_arguments (readable : Readable typeNames row) :
    Reads ((row.renderedArgumentList typeNames).toList ++ ")\n RETURNS ".toList)
      (commaTokens (row.arguments.map (argumentTokens typeNames)) ++ .sym ')' ::
        .word "returns" :: ·) := by
  intro more
  have typed : ∀ a ∈ row.arguments, Written (typeName typeNames a.typeOid) := by
    intro a member
    obtain ⟨type, here⟩ := Option.isSome_iff_exists.mp (readable.types a member)
    exact (typeOf_eq_some here).1
  have closing : ")\n RETURNS ".toList = ')' :: "\n RETURNS ".toList := by decide
  have returns : Reads "\n RETURNS ".toList ([.word "returns"] ++ ·) :=
    reads_constant "\n RETURNS" (.inl rfl) (by decide) (by rfl)
  rw [closing, List.append_assoc, List.cons_append, FunctionRow.renderedArgumentList,
    lexemes_arguments readable.names typed, returns, Option.map_map]
  rfl

theorem reads_result (readable : Readable typeNames row) :
    Reads ((typeName typeNames row.rettypeOid).toList ++ "\n LANGUAGE ".toList)
      (tokensOf (typeName typeNames row.rettypeOid) ++ .word "language" :: ·) := by
  intro more
  obtain ⟨type, here⟩ := Option.isSome_iff_exists.mp readable.result
  have language : "\n LANGUAGE ".toList = '\n' :: " LANGUAGE ".toList := by decide
  have keyword : Reads " LANGUAGE ".toList ([.word "language"] ++ ·) :=
    reads_constant " LANGUAGE" (.inl rfl) (by decide) (by rfl)
  rw [language, List.append_assoc, List.cons_append,
    lexemes_blank (.inr rfl) (typeOf_eq_some here).1, keyword, Option.map_map]
  rfl

theorem lexemes_statement (readable : Readable typeNames row) :
    lexemes (row.statement typeNames).toList =
      (lexemes (bodyText row)).map (frontTokens typeNames row) := by
  have opening : Reads "CREATE OR REPLACE FUNCTION ".toList
      ([.word "create", .word "or", .word "replace", .word "function"] ++ ·) :=
    reads_constant "CREATE OR REPLACE FUNCTION" (.inl rfl) (by decide) (by rfl)
  have language : Reads (row.language.toList ++ "\n".toList) ([.word row.language] ++ ·) := by
    intro more
    have line : "\n".toList = ['\n'] := by decide
    rw [line, List.append_assoc, List.singleton_append,
      lexemes_blank (.inr rfl) (lexemes_name readable.language.1)]
  have all := opening.append ((reads_function readable).append ((reads_arguments readable).append
    ((reads_setof row).append ((reads_result readable).append
      (language.append (reads_flagsLine readable)))))) (bodyText row)
  unfold bodyText at all ⊢
  unfold FunctionRow.statement
  simp only [String.toList_append, List.append_assoc] at all ⊢
  rw [all]
  apply congrFun (congrArg Option.map _)
  funext tokens
  simp [frontTokens]

end
end PgCatalog.UserFunctions.CreateFunction
