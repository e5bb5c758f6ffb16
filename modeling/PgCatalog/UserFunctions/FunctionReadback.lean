import PgCatalog.UserFunctions.FunctionStatement

/-! What PostgreSQL makes of a printed statement, beside the row it was printed from. -/
namespace PgCatalog.UserFunctions.CreateFunction

open Library

/-! ## What a statement stands for -/

def modeCode : ParameterMode → String
  | .input => "i"
  | .output => "o"
  | .inputOutput => "b"
  | .variadic => "v"
  | .table => "t"

def parallelCode : String → Option String
  | "safe" => some "s"
  | "restricted" => some "r"
  | "unsafe" => some "u"
  | _ => none

def as? : Item → Option (List String)
  | .as texts => some texts
  | _ => none

def language? : Item → Option String
  | .language name => some name
  | _ => none

def window? : Item → Option String
  | .window => some "w"
  | _ => none

def volatility? : Item → Option String
  | .volatility code => some code
  | _ => none

def strict? : Item → Option Bool
  | .strict strict => some strict
  | _ => none

def security? : Item → Option Bool
  | .security definer => some definer
  | _ => none

def leakproof? : Item → Option Bool
  | .leakproof leakproof => some leakproof
  | _ => none

def cost? : Item → Option Rat
  | .cost value => some value
  | _ => none

def rows? : Item → Option Rat
  | .rows value => some value
  | _ => none

def support? : Item → Option (List String)
  | .support name => some name
  | _ => none

def parallel? : Item → Option String
  | .parallel name => some name
  | _ => none

/-- The option that is given, if it is given once at most. -/
def given {β : Type} (pick : Item → Option β) (absent : β) (options : List Item) : Option β :=
  match options.filterMap pick with
  | [] => some absent
  | [value] => some value
  | _ => none

namespace CreateFunctionStmt

def kind (s : CreateFunctionStmt) : Option String :=
  if s.isProcedure then some "p" else given window? "f" s.options

/-- The parameters, and behind them the columns of a table that is returned. -/
def arguments (s : CreateFunctionStmt) : List Parameter :=
  s.parameters ++
    match s.returns with
    | .table columns => columns
    | _ => []

def result (s : CreateFunctionStmt) : Option Typename :=
  match s.returns with
  | .nothing => none
  | .type type => some type
  | .table [column] => some { column.type with setof := true }
  | .table _ => some ⟨true, ["record"], 0⟩

end CreateFunctionStmt

structure DenotesArgument (typeNames : TypeNamesByOid) (a : Argument) (p : Parameter) :
    Prop where
  mode : modeCode p.mode = a.mode.getD "i"
  name : p.name.getD "" = a.name.getD ""
  type : typeOf (typeName typeNames a.typeOid) = some p.type

/-- The rows of a function that has none given. -/
def defaultRows (row : FunctionRow) : Rat := if row.returnsSet then 1000 else 0

def supportNames (row : FunctionRow) : List (List String) :=
  if row.support ≠ "-" && row.support ≠ "" then [[row.support]] else []

/-- The statement makes the function of the row. -/
structure Denotes (typeNames : TypeNamesByOid) (row : FunctionRow) (s : CreateFunctionStmt) :
    Prop where
  kind : s.kind = some row.kind
  name : s.funcname = [row.schema, row.name]
  arguments : List.Forall₂ (DenotesArgument typeNames) row.arguments s.arguments
  result : row.kind ≠ "p" → s.result = (typeOf (typeName typeNames row.rettypeOid)).map fun type =>
    { type with setof := row.returnsSet }
  language : s.options.filterMap language? = [row.language]
  body : s.options.filterMap as? = [[row.source]]
  volatility : given volatility? "v" s.options = some row.volatility
  parallel : (given parallel? "unsafe" s.options).bind parallelCode = some row.parallel
  strict : given strict? false s.options = some row.isStrict
  leakproof : given leakproof? false s.options = some row.isLeakproof
  security : given security? false s.options = some row.securityDefiner
  support : s.options.filterMap support? = supportNames row
  cost : ∃ value, row.cost.value? = some value ∧
    given cost? row.defaultCost s.options = some value
  rows : ∃ value, row.resultRows.value? = some value ∧
    given rows? (defaultRows row) s.options = some value

/-! ## The rows that are printed as they are -/

/-- Nothing of the row is lost where it is printed. -/
structure Kept (row : FunctionRow) : Prop where
  kind : row.kind ∈ ["f", "w"]
  modes : ∀ a ∈ row.arguments, a.mode.getD "i" ∈ ["i", "o", "b", "v"]
  volatility : row.volatility ∈ ["i", "s", "v"]
  parallel : row.parallel ∈ ["s", "r", "u"]
  cost : row.cost.apartFrom row.defaultCost = true ∨ row.cost.value? = some row.defaultCost
  rows : (row.returnsSet && row.resultRows.apartFrom 1000) = true ∨
    row.resultRows.value? = some (defaultRows row)
  body : Unmarked "$function$".toList row.source.toList
  nul : NulFree row.source.toList

section
variable {typeNames : TypeNamesByOid} {row : FunctionRow} {text : String} {type : Typename}
  {tokens : List Lexeme} {options : List Item}

/-! ## The body -/

theorem dollarTag_function (more : List Char) :
    dollarTag ("function".toList ++ '$' :: more) = some ("function".toList, more) := by
  have all : ∀ x ∈ "function".toList, isTagCont x = true :=
    List.all_eq_true.mp (by decide : "function".toList.all isTagCont = true)
  obtain ⟨taken, left⟩ := @takeWhile_of_all '$' "function".toList more _ all (by decide)
  have head : ("function".toList ++ '$' :: more).head?.all (fun c => isIdentStart c || c = '$') =
      true := by
    have same : "function".toList = 'f' :: "unction".toList := by decide
    rw [same]
    rfl
  rw [dollarTag, if_pos head, left, taken]
  rfl

/-- A text between dollars is the string up to the first mark. -/
theorem lexeme_dollar {more first after : List Char}
    (read : upTo "$function$".toList more = some (first, after)) :
    lexeme ('$' :: ("function".toList ++ '$' :: more)) =
      if NulFree first then some ([.string (String.ofList first)], after) else none := by
  have mark : '$' :: "function".toList ++ ['$'] = "$function$".toList := by decide
  have string : dollarString ("function".toList ++ '$' :: more) =
      if NulFree first then some (.string (String.ofList first), after) else none := by
    simp only [dollarString, dollarTag_function, Option.bind_some, mark, read]
  rw [lexeme, if_neg (by decide), if_neg (by decide), if_neg (by decide), if_neg (by decide),
    if_pos rfl, string]
  split <;> rfl

/-- The body ends with the first mark behind it. -/
theorem lexemes_body {first after : List Char}
    (read : upTo "$function$".toList (row.source.toList ++ "$function$".toList ++ ['\n']) =
      some (first, after)) :
    lexemes (bodyText row) = if NulFree first then
      (lexemes after).map (.word "as" :: .string (String.ofList first) :: ·) else none := by
  have keyword : Reads "AS ".toList ([.word "as"] ++ ·) :=
    reads_constant "AS" (.inl rfl) (by decide) (by rfl)
  have opening : "AS $function$".toList = "AS ".toList ++ '$' :: ("function".toList ++ ['$']) := by
    decide
  have closing : "$function$\n".toList = "$function$".toList ++ ['\n'] := by decide
  rw [List.append_assoc] at read
  have here := lexeme_dollar read
  have shape : bodyText row = "AS ".toList ++ '$' :: ("function".toList ++
      '$' :: (row.source.toList ++ ("$function$".toList ++ ['\n']))) := by
    have pieces := congrArg₂ (· ++ ·) opening (congrArg (row.source.toList ++ ·) closing)
    simp only [List.append_assoc, List.cons_append, List.nil_append] at pieces
    exact pieces
  rw [shape, keyword]
  by_cases nul : NulFree first
  · rw [if_pos nul] at here ⊢
    rw [lexemes_step here, Option.map_map]
    rfl
  · rw [if_neg nul] at here ⊢
    have none_ := @Reader.stateless_none _ _ _ _ lexeme_shorter (List.cons_ne_nil _ _) here
    rw [lexemes, none_]
    rfl

theorem asItem_string (body : String) (tokens : List Lexeme) : ∃ texts rest,
    asItem (.string body :: tokens) = some (.as texts, rest) ∧ texts.head? = some body ∧
      (tokens = [] → texts = [body] ∧ rest = []) := by
  unfold asItem
  split
  · rename_i same
    obtain ⟨here, rfl⟩ := List.cons.inj same
    obtain rfl := Lexeme.string.inj here
    exact ⟨_, _, rfl, rfl, by simp⟩
  · rename_i same
    obtain ⟨here, rfl⟩ := List.cons.inj same
    obtain rfl := Lexeme.string.inj here
    exact ⟨_, _, rfl, rfl, fun none_ => ⟨rfl, none_⟩⟩
  · rename_i other
    exact absurd rfl (other body tokens)

theorem items_as (body : String) (tokens : List Lexeme) : ∃ texts rest,
    items (.word "as" :: .string body :: tokens) = (items rest).map (.as texts :: ·) ∧
      texts.head? = some body ∧ (tokens = [] → texts = [body] ∧ rest = []) := by
  obtain ⟨texts, rest, read, head, alone⟩ := asItem_string body tokens
  have item_ : item (.word "as" :: .string body :: tokens) = some (.as texts, rest) := read
  exact ⟨texts, rest, items_cons (by simp) (by simp [Continues]) item_, head, alone⟩

/-! ## The statement that is read -/

def resultOf (typeNames : TypeNamesByOid) (row : FunctionRow) : Typename :=
  { (typeOf (typeName typeNames row.rettypeOid)).getD ⟨false, [], 0⟩ with setof := row.returnsSet }

def stmtOf (typeNames : TypeNamesByOid) (row : FunctionRow) (others : List Item) :
    CreateFunctionStmt :=
  ⟨false, true, [row.schema, row.name], row.arguments.map (parameterOf typeNames),
    .type (resultOf typeNames row), .language row.language :: flagItems row ++ others⟩

theorem plainTypename_setof {left : List Lexeme} (read : plainTypename tokens = some (type, left)) :
    type.setof = false := by
  obtain ⟨⟨names, after⟩, -, same⟩ := Option.map_eq_some_iff.mp read
  obtain ⟨rfl, -⟩ := Prod.mk.inj same
  rfl

theorem funcReturn_printed (readable : Readable typeNames row) (rest : List Lexeme) :
    funcReturn (.word "returns" :: (setofTokens row ++
      (tokensOf (typeName typeNames row.rettypeOid) ++ .word "language" :: rest))) =
      some (.type (resultOf typeNames row), .word "language" :: rest) := by
  obtain ⟨type, here⟩ := Option.isSome_iff_exists.mp readable.result
  obtain ⟨-, read⟩ := typeOf_eq_some here
  obtain ⟨first, more, start⟩ := typeStart read
  have ends : EndsType (.word "language" :: rest) := ⟨_, _, rfl, by simp⟩
  have plain := plainTypename_append ends read
  have alone := plainTypename_setof read
  rw [resultOf, here]
  unfold setofTokens
  cases returnsSet : row.returnsSet with
  | true => simp [funcReturn, typename, plain]
  | false =>
    have typed := @typename_of_start _ (.word "language" :: rest) _ _ start
    have noTable := start.isType "table" (by decide)
    have same : { type with setof := false } = type := by rw [← alone]
    have whole := start.tokens_eq
    rw [plain] at typed
    rw [whole] at typed ⊢
    rw [if_neg Bool.false_ne_true, List.nil_append, List.cons_append]
    rw [List.cons_append] at typed
    simp [funcReturn, typed, noTable, same]

/-- What stands in front of the body is read as it was printed. -/
theorem createFunctionStmt_front (readable : Readable typeNames row) {rest : List Lexeme}
    (continues : Continues rest) : createFunctionStmt (frontTokens typeNames row rest) =
      (items rest).map (stmtOf typeNames row) := by
  have language := isItem_language readable.language.1 readable.language.2
  have flags := isItems_of_flags (flags_printed readable)
  have options := items_flatten (.cons language flags) continues
  have label : colLabel (.word row.name) = some row.name := by
    simp [colLabel, readable.name.short]
  have column : colId (.word row.schema) = some row.schema := by
    simp [colId, readable.schema.2, readable.schema.1.short]
  have name : ∀ rest,
      funcName (.word row.schema :: .sym '.' :: .word row.name :: .sym '(' :: rest) =
      some ([row.schema, row.name], rest) := by
    intro rest
    simp [funcName, anyName, attrs, label, column]
  have arguments := @funcArgs_printed typeNames row.arguments readable.names readable.types
  have result := funcReturn_printed readable
  rw [List.flatten_cons, List.append_assoc] at options
  simp only [List.cons_append, List.nil_append] at options
  simp only [frontTokens, createFunctionStmt, orReplace, name, arguments, result, options,
    Option.bind_eq_bind, Option.bind_some, Option.pure_def]
  cases items rest <;> rfl

/-! ## The options -/

theorem filterMap_ite {α β : Type} {condition : Prop} [Decidable condition] (pick : α → Option β)
    (xs ys : List α) : (if condition then xs else ys).filterMap pick =
      if condition then xs.filterMap pick else ys.filterMap pick := by
  split <;> rfl

section
variable (row)

/-- The flags of a row, each as it is picked. -/
theorem flagItems_filterMap {β : Type} (pick : Item → Option β) : (flagItems row).filterMap pick =
    (if row.kind = "w" then [Item.window].filterMap pick else []) ++
    (if row.volatility = "i" then [Item.volatility "i"].filterMap pick
      else if row.volatility = "s" then [Item.volatility "s"].filterMap pick else []) ++
    (if row.parallel = "s" then [Item.parallel "safe"].filterMap pick
      else if row.parallel = "r" then [Item.parallel "restricted"].filterMap pick else []) ++
    (if row.isStrict then [Item.strict true].filterMap pick else []) ++
    (if row.isLeakproof then [Item.leakproof true].filterMap pick else []) ++
    (if row.securityDefiner then [Item.security true].filterMap pick else []) ++
    (if row.support ≠ "-" && row.support ≠ "" then [Item.support [row.support]].filterMap pick
      else []) ++
    (if row.cost.apartFrom row.defaultCost then
      [Item.cost (row.cost.value?.getD 0)].filterMap pick else []) ++
    (if row.returnsSet && row.resultRows.apartFrom 1000 then
      [Item.rows (row.resultRows.value?.getD 0)].filterMap pick else []) := by
  simp only [flagItems, List.filterMap_append, filterMap_ite, List.filterMap_nil]

theorem flagItems_as : (flagItems row).filterMap as? = [] := by
  simp [flagItems_filterMap, List.filterMap_cons, as?]

theorem flagItems_language : (flagItems row).filterMap language? = [] := by
  simp [flagItems_filterMap, List.filterMap_cons, language?]

theorem flagItems_window :
    (flagItems row).filterMap window? = if row.kind = "w" then ["w"] else [] := by
  simp [flagItems_filterMap, List.filterMap_cons, window?]

theorem flagItems_volatility : (flagItems row).filterMap volatility? =
    if row.volatility = "i" then ["i"] else if row.volatility = "s" then ["s"] else [] := by
  simp [flagItems_filterMap, List.filterMap_cons, volatility?]

theorem flagItems_parallel : (flagItems row).filterMap parallel? =
    if row.parallel = "s" then ["safe"] else if row.parallel = "r" then ["restricted"] else [] := by
  simp [flagItems_filterMap, List.filterMap_cons, parallel?]

theorem flagItems_strict :
    (flagItems row).filterMap strict? = if row.isStrict then [true] else [] := by
  simp [flagItems_filterMap, List.filterMap_cons, strict?]

theorem flagItems_leakproof :
    (flagItems row).filterMap leakproof? = if row.isLeakproof then [true] else [] := by
  simp [flagItems_filterMap, List.filterMap_cons, leakproof?]

theorem flagItems_security :
    (flagItems row).filterMap security? = if row.securityDefiner then [true] else [] := by
  simp [flagItems_filterMap, List.filterMap_cons, security?]

theorem flagItems_support : (flagItems row).filterMap support? = supportNames row := by
  simp [flagItems_filterMap, List.filterMap_cons, support?, supportNames]

theorem flagItems_cost : (flagItems row).filterMap cost? =
    if row.cost.apartFrom row.defaultCost then [row.cost.value?.getD 0] else [] := by
  simp [flagItems_filterMap, List.filterMap_cons, cost?]

theorem flagItems_rows : (flagItems row).filterMap rows? =
    if row.returnsSet && row.resultRows.apartFrom 1000 then [row.resultRows.value?.getD 0]
    else [] := by
  simp [flagItems_filterMap, List.filterMap_cons, rows?]

end

/-- The options of the statement with the body of the row. -/
def optionsOf (row : FunctionRow) : List Item :=
  .language row.language :: flagItems row ++ [.as [row.source]]

theorem optionsOf_filterMap {β : Type} {pick : Item → Option β}
    (language : pick (.language row.language) = none) (body : pick (.as [row.source]) = none) :
    (optionsOf row).filterMap pick = (flagItems row).filterMap pick := by
  simp [optionsOf, language, body]

theorem given_single {β : Type} {pick : Item → Option β} {absent value : β}
    {condition : Prop} [Decidable condition]
    (picked : options.filterMap pick = if condition then [value] else []) :
    given pick absent options = some (if condition then value else absent) := by
  rw [given, picked]
  split_ifs <;> rfl

theorem given_either {β : Type} {pick : Item → Option β} {absent value value' : β}
    {condition condition' : Prop} [Decidable condition] [Decidable condition']
    (picked : options.filterMap pick =
      if condition then [value] else if condition' then [value'] else []) :
    given pick absent options =
      some (if condition then value else if condition' then value' else absent) := by
  rw [given, picked]
  split_ifs <;> rfl

/-- A number is read back if it is written, or if it is the number of an absent option. -/
theorem given_number {pick : Item → Option Rat} {value : Float64} {absent : Rat} {written : Bool}
    (finite : value.value?.isSome = true)
    (picked : options.filterMap pick = if written then [value.value?.getD 0] else []) :
    (∃ number, value.value? = some number ∧ given pick absent options = some number) ↔
      written = true ∨ value.value? = some absent := by
  obtain ⟨number, same⟩ := Option.isSome_iff_exists.mp finite
  rw [given_single picked, same]
  cases written with
  | true => simp
  | false => simp [eq_comm]

theorem kind_iff (typeNames : TypeNamesByOid) :
    (stmtOf typeNames row [.as [row.source]]).kind = some row.kind ↔ row.kind ∈ ["f", "w"] := by
  have picked : (optionsOf row).filterMap window? = if row.kind = "w" then ["w"] else [] := by
    rw [optionsOf_filterMap rfl rfl, flagItems_window]
  have kind : (stmtOf typeNames row [.as [row.source]]).kind =
    given window? "f" (optionsOf row) := rfl
  rw [kind, given_single picked]
  by_cases window : row.kind = "w"
  · simp [window]
  · simp [window, eq_comm]

theorem volatility_iff :
    given volatility? "v" (optionsOf row) = some row.volatility ↔
      row.volatility ∈ ["i", "s", "v"] := by
  rw [given_either ((optionsOf_filterMap rfl rfl).trans (flagItems_volatility row))]
  by_cases immutable : row.volatility = "i"
  · simp [immutable]
  by_cases stable : row.volatility = "s"
  · simp [stable]
  · simp [immutable, stable, eq_comm]

theorem parallel_iff : (given parallel? "unsafe" (optionsOf row)).bind parallelCode =
    some row.parallel ↔ row.parallel ∈ ["s", "r", "u"] := by
  rw [given_either ((optionsOf_filterMap rfl rfl).trans (flagItems_parallel row))]
  by_cases safe : row.parallel = "s"
  · simp [safe, parallelCode]
  by_cases restricted : row.parallel = "r"
  · simp [restricted, parallelCode]
  · simp [safe, restricted, parallelCode, eq_comm]

theorem given_flag {pick : Item → Option Bool} {flag : Bool}
    (picked : options.filterMap pick = if flag then [true] else []) :
    given pick false options = some flag := by
  rw [given_single picked]
  cases flag <;> rfl

/-! ## The arguments -/

theorem mode_iff (mode : Option String) :
    modeCode (printedMode mode) = mode.getD "i" ↔ mode.getD "i" ∈ ["i", "o", "b", "v"] := by
  unfold printedMode
  split
  · simp [modeCode]
  · simp [modeCode]
  · simp [modeCode]
  · rename_i output inputOutput variadic
    cases mode with
    | none => simp [modeCode]
    | some mode =>
      have output : mode ≠ "o" := fun same => output (by rw [same])
      have inputOutput : mode ≠ "b" := fun same => inputOutput (by rw [same])
      have variadic : mode ≠ "v" := fun same => variadic (by rw [same])
      simp [modeCode, output, inputOutput, variadic, eq_comm]

theorem printedName_getD (name : Option String) : (printedName name).getD "" = name.getD "" := by
  cases name with
  | none => rfl
  | some text =>
    by_cases empty : text = ""
    · simp [printedName, Option.filter, empty]
    · simp [printedName, Option.filter, empty]

theorem denotesArgument_iff {a : Argument}
    (typed : (typeOf (typeName typeNames a.typeOid)).isSome = true) :
    DenotesArgument typeNames a (parameterOf typeNames a) ↔
      a.mode.getD "i" ∈ ["i", "o", "b", "v"] := by
  obtain ⟨type, here⟩ := Option.isSome_iff_exists.mp typed
  rw [← mode_iff]
  constructor
  · exact fun denotes => denotes.mode
  · intro mode
    exact ⟨mode, printedName_getD a.name, by simp [parameterOf, here]⟩

theorem arguments_iff {arguments : List Argument}
    (typed : ∀ a ∈ arguments, (typeOf (typeName typeNames a.typeOid)).isSome = true) :
    List.Forall₂ (DenotesArgument typeNames) arguments (arguments.map (parameterOf typeNames)) ↔
      ∀ a ∈ arguments, a.mode.getD "i" ∈ ["i", "o", "b", "v"] := by
  rw [List.forall₂_map_right_iff, List.forall₂_same]
  constructor
  · exact fun all a member => (denotesArgument_iff (typed a member)).mp (all a member)
  · exact fun all a member => (denotesArgument_iff (typed a member)).mpr (all a member)

/-! ## The whole -/

theorem denotes_iff (readable : Readable typeNames row) :
    Denotes typeNames row (stmtOf typeNames row [.as [row.source]]) ↔
      row.kind ∈ ["f", "w"] ∧ (∀ a ∈ row.arguments, a.mode.getD "i" ∈ ["i", "o", "b", "v"]) ∧
      row.volatility ∈ ["i", "s", "v"] ∧ row.parallel ∈ ["s", "r", "u"] ∧
      (row.cost.apartFrom row.defaultCost = true ∨ row.cost.value? = some row.defaultCost) ∧
      ((row.returnsSet && row.resultRows.apartFrom 1000) = true ∨
        row.resultRows.value? = some (defaultRows row)) := by
  have options : (stmtOf typeNames row [.as [row.source]]).options = optionsOf row := rfl
  have arguments : (stmtOf typeNames row [.as [row.source]]).arguments =
    row.arguments.map (parameterOf typeNames) := List.append_nil _
  have cost := @given_number _ _ _ row.defaultCost _ readable.cost
    ((optionsOf_filterMap rfl rfl).trans (flagItems_cost row))
  have rows := @given_number _ _ _ (defaultRows row) _ readable.rows
    ((optionsOf_filterMap rfl rfl).trans (flagItems_rows row))
  rw [← kind_iff typeNames, ← arguments_iff readable.types, ← volatility_iff, ← parallel_iff,
    ← cost, ← rows, ← arguments]
  constructor
  · intro denotes
    exact ⟨denotes.kind, denotes.arguments, denotes.volatility, denotes.parallel, denotes.cost,
      denotes.rows⟩
  · rintro ⟨kind, arguments, volatility, parallel, cost, rows⟩
    obtain ⟨type, here⟩ := Option.isSome_iff_exists.mp readable.result
    constructor
    case kind => exact kind
    case name => rfl
    case arguments => exact arguments
    case result =>
      intro _
      rw [here]
      simp [CreateFunctionStmt.result, stmtOf, resultOf, here]
    case language => simp [options, optionsOf, language?, flagItems_language]
    case body => simp [options, optionsOf, List.filterMap_cons, as?, flagItems_as]
    case volatility => exact volatility
    case parallel => exact parallel
    case strict => exact given_flag ((optionsOf_filterMap rfl rfl).trans (flagItems_strict row))
    case leakproof =>
      exact given_flag ((optionsOf_filterMap rfl rfl).trans (flagItems_leakproof row))
    case security => exact given_flag ((optionsOf_filterMap rfl rfl).trans (flagItems_security row))
    case support => exact (optionsOf_filterMap rfl rfl).trans (flagItems_support row)
    case cost => exact cost
    case rows => exact rows

/-- A statement with the body of the row is read exactly if the body is closed by the mark behind
it. -/
theorem parse_iff (readable : Readable typeNames row) {s : CreateFunctionStmt} :
    parseCreateFunction (row.statement typeNames) = some s ∧
      s.options.filterMap as? = [[row.source]] ↔
    (Unmarked "$function$".toList row.source.toList ∧ NulFree row.source.toList) ∧
      s = stmtOf typeNames row [.as [row.source]] := by
  obtain ⟨first, after, read⟩ := upTo_marked "$function$".toList row.source.toList ['\n']
  have body := lexemes_body read
  have unmarked := @upTo_eq_body_iff _ _ "$function$".toList row.source.toList ['\n']
  have blank : lexemes ['\n'] = some [] := by rfl
  rw [parseCreateFunction, lexemes_statement readable, body]
  constructor
  · rintro ⟨parsed, same⟩
    by_cases nul : NulFree first
    · rw [if_pos nul, Option.map_map] at parsed
      obtain ⟨tokens, here, parsed⟩ := Option.bind_eq_some_iff.mp parsed
      obtain ⟨others, further, rfl⟩ := Option.map_eq_some_iff.mp here
      rw [Function.comp_apply, createFunctionStmt_front readable (by simp [Continues])] at parsed
      obtain ⟨options, opened, rfl⟩ := Option.map_eq_some_iff.mp parsed
      obtain ⟨texts, left, as_, head, alone⟩ := items_as (String.ofList first) others
      rw [as_] at opened
      obtain ⟨more, ended, rfl⟩ := Option.map_eq_some_iff.mp opened
      have bodies : texts :: more.filterMap as? = [[row.source]] := by
        simpa [stmtOf, List.filterMap_cons, as?, language?, flagItems_as] using same
      obtain ⟨rfl, -⟩ := List.cons.inj bodies
      have whole : first = row.source.toList := by
        rw [Option.some.inj head, String.toList_ofList]
      subst whole
      -- the mark that was found is the one that was printed
      have parts := upTo_eq_some read
      rw [List.append_cancel_left_eq] at parts
      subst parts
      obtain rfl := Option.some.inj (blank.symm.trans further)
      obtain ⟨-, rfl⟩ := alone rfl
      obtain rfl := Option.some.inj (items_nil.symm.trans ended)
      exact ⟨⟨unmarked.mp read, nul⟩, rfl⟩
    · rw [if_neg nul] at parsed
      contradiction
  · rintro ⟨⟨closed, nul⟩, rfl⟩
    obtain ⟨rfl, rfl⟩ := Prod.mk.inj (Option.some.inj ((unmarked.mpr closed).symm.trans read))
    obtain ⟨texts, left, as_, head, alone⟩ := items_as row.source []
    obtain ⟨rfl, rfl⟩ := alone rfl
    rw [if_pos nul, blank, String.ofList_toList]
    constructor
    · rw [Option.map_some, Option.map_some, Option.bind_some,
        createFunctionStmt_front readable (by simp [Continues]), as_, items_nil]
      rfl
    · simp [stmtOf, List.filterMap_cons, as?, flagItems_as]

/-- A printed statement denotes its function exactly if nothing of the row is lost. -/
theorem render_denotes_iff (readable : Readable typeNames row)
    (rendered : row.render typeNames = .definition text) :
    (∃ s, parseCreateFunction text = some s ∧ Denotes typeNames row s) ↔ Kept row := by
  have same : row.statement typeNames = text := by
    unfold FunctionRow.render at rendered
    split_ifs at rendered
    exact DefinitionOutcome.definition.inj rendered
  subst same
  constructor
  · rintro ⟨s, parsed, denotes⟩
    obtain ⟨⟨closed, nul⟩, rfl⟩ := (parse_iff readable).mp ⟨parsed, denotes.body⟩
    obtain ⟨kind, modes, volatility, parallel, cost, rows⟩ := (denotes_iff readable).mp denotes
    exact ⟨kind, modes, volatility, parallel, cost, rows, closed, nul⟩
  · intro kept
    have parsed := (parse_iff readable).mpr ⟨⟨kept.body, kept.nul⟩, rfl⟩
    refine ⟨_, parsed.1, (denotes_iff readable).mpr ?_⟩
    exact ⟨kept.kind, kept.modes, kept.volatility, kept.parallel, kept.cost, kept.rows⟩

end

/-! ## A row that is read back -/

def oneDecimal : Decimal := ⟨false, ['1'], [], by decide, by decide, by decide⟩

def zeroDecimal : Decimal := ⟨false, ['0'], [], by decide, by decide, by decide⟩

/-- `pg_catalog.strpos` -/
def strposRow : FunctionRow where
  name := "strpos"
  schema := "pg_catalog"
  language := "internal"
  kind := "f"
  volatility := "i"
  parallel := "s"
  isStrict := true
  isLeakproof := false
  securityDefiner := false
  returnsSet := false
  rettypeOid := 23
  argumentTypeOids := [25, 25]
  allArgumentTypeOids := []
  argumentModes := []
  argumentNames := ["string", "substring_"]
  cost := .finite oneDecimal
  resultRows := .finite zeroDecimal
  support := "-"
  source := "textpos"

def strposTypes : TypeNamesByOid := fun oid =>
  if oid = 23 then some "integer" else if oid = 25 then some "text" else none

theorem strpos_arguments : strposRow.arguments = [⟨none, some "string", 25⟩,
    ⟨none, some "substring_", 25⟩] := rfl

theorem strpos_readable : Readable strposTypes strposRow := by
  constructor
  case schema => exact ⟨⟨by decide, by decide, by decide⟩, by decide⟩
  case name => exact ⟨by decide, by decide, by decide⟩
  case language => exact ⟨⟨by decide, by decide, by decide⟩, by decide⟩
  case support => exact fun other => absurd rfl other
  case names =>
    intro a member text named
    rw [strpos_arguments] at member
    simp only [List.mem_cons, List.not_mem_nil, or_false] at member
    rcases member with rfl | rfl
    · obtain rfl : "string" = text := by simpa [printedName, Option.filter] using named
      exact ⟨⟨by decide, by decide, by decide⟩, by decide, by decide⟩
    · obtain rfl : "substring_" = text := by simpa [printedName, Option.filter] using named
      exact ⟨⟨by decide, by decide, by decide⟩, by decide, by decide⟩
  case types =>
    intro a member
    rw [strpos_arguments] at member
    simp only [List.mem_cons, List.not_mem_nil, or_false] at member
    rcases member with rfl | rfl <;> rfl
  case result => rfl
  case cost => rfl
  case rows => rfl

theorem strpos_kept : Kept strposRow := by
  constructor
  case kind => decide
  case modes =>
    intro a member
    rw [strpos_arguments] at member
    simp only [List.mem_cons, List.not_mem_nil, or_false] at member
    rcases member with rfl | rfl <;> decide
  case volatility => decide
  case parallel => decide
  case cost =>
    have one : natValue ['1'] = 1 := by decide
    exact .inr (by simp [strposRow, Float64.value?, Decimal.value, decimalValue, fractionValue,
      oneDecimal, one, FunctionRow.defaultCost])
  case rows =>
    have zero : natValue ['0'] = 0 := by decide
    exact .inr (by simp [strposRow, Float64.value?, Decimal.value, decimalValue, fractionValue,
      zeroDecimal, zero, defaultRows])
  case body =>
    have read : upTo "$function$".toList ("textpos".toList ++ "$function$".toList ++ []) =
      some ("textpos".toList, []) := by decide
    exact upTo_eq_body_iff.mp read
  case nul => decide

theorem strpos_read_back : ∃ s, parseCreateFunction (strposRow.statement strposTypes) = some s ∧
    Denotes strposTypes strposRow s :=
  (render_denotes_iff strpos_readable rfl).mpr strpos_kept

end PgCatalog.UserFunctions.CreateFunction
