import PgCatalog.Library.FirstMark
import PgCatalog.Library.Reader
import PgCatalog.UserFunctions.FunctionDefinition
import PgCatalog.UserFunctions.IndexDefinition

/-! `CREATE FUNCTION` as PostgreSQL reads it, into its raw statement. Single-quoted strings,
comments, type modifiers, defaults and bodies that are no strings are refused. -/
namespace PgCatalog.UserFunctions.CreateFunction

open Library

/-! ## Lexemes -/

inductive Lexeme where
  | word (text : String)
  | quoted (text : String)
  | number (whole fraction : List Char)
  | string (text : String)
  | sym (c : Char)
  deriving DecidableEq

/-- A quoted name after its opening quote, and what follows it. No text has a NUL. -/
def quotedName : List Char → Option (List Char × List Char)
  | [] => none
  | '"' :: '"' :: rest => (quotedName rest).map fun (name, rest) => ('"' :: name, rest)
  | '"' :: rest => some ([], rest)
  | c :: rest =>
    if c.toNat = 0 then none else (quotedName rest).map fun (name, rest) => (c :: name, rest)

def isTagCont (c : Char) : Bool := isIdentStart c || c.isDigit

/-- The tag of a dollar quote after its first dollar, and what follows the second. -/
def dollarTag (text : List Char) : Option (List Char × List Char) :=
  if text.head?.all fun c => isIdentStart c || c = '$' then
    match text.dropWhile isTagCont with
    | '$' :: rest => some (text.takeWhile isTagCont, rest)
    | _ => none
  else none

def dollarString (text : List Char) : Option (Lexeme × List Char) :=
  (dollarTag text).bind fun (tag, rest) =>
    (upTo ('$' :: tag ++ ['$']) rest).bind fun (body, rest) =>
      if NulFree body then some (.string (String.ofList body), rest) else none

/-- A number, behind which no letter may stand. -/
def numeral (text : List Char) : Option (Lexeme × List Char) :=
  let whole := text.takeWhile Char.isDigit
  let (fraction, rest) :=
    match text.dropWhile Char.isDigit with
    | '.' :: rest => (rest.takeWhile Char.isDigit, rest.dropWhile Char.isDigit)
    | rest => ([], rest)
  if rest.head?.any fun c => isIdentStart c || c = '.' then none
  else some (.number whole fraction, rest)

/-- A character that opens something else than a symbol. -/
def refused (c : Char) (rest : List Char) : Bool :=
  c.toNat = 0 || c = '\'' || (c = '-' && rest.head? = some '-') ||
    (c = '/' && rest.head? = some '*') ||
    (c = '.' && rest.head?.any Char.isDigit)

def lexeme : List Char → Option (List Lexeme × List Char)
  | [] => none
  | c :: rest =>
    if isNameSpace c then some ([], rest)
    else if isIdentStart c then
      some ([.word (String.ofList (((c :: rest).takeWhile isIdentCont).map Char.toLower))],
        (c :: rest).dropWhile isIdentCont)
    else if c = '"' then
      (quotedName rest).bind fun (name, rest) =>
        if name = [] then none else some ([.quoted (String.ofList name)], rest)
    else if c.isDigit then (numeral (c :: rest)).map fun (number, rest) => ([number], rest)
    else if c = '$' then (dollarString rest).map fun (string, rest) => ([string], rest)
    else if refused c rest then none
    else some ([.sym c], rest)

/-! ## Names and types -/

/-- The key words that name a column or a type but no function. -/
def colNameKeywords : List String :=
  ["between", "bigint", "bit", "boolean", "char", "character", "coalesce", "dec", "decimal",
    "exists", "extract", "float", "greatest", "grouping", "inout", "int", "integer", "interval",
    "json", "json_array", "json_arrayagg", "json_exists", "json_object", "json_objectagg",
    "json_query", "json_scalar", "json_serialize", "json_table", "json_value", "least",
    "merge_action", "national", "nchar", "none", "normalize", "nullif", "numeric", "out",
    "overlay", "position", "precision", "real", "row", "setof", "smallint", "substring", "time",
    "timestamp", "treat", "trim", "values", "varchar", "xmlattributes", "xmlconcat", "xmlelement",
    "xmlexists", "xmlforest", "xmlnamespaces", "xmlparse", "xmlpi", "xmlroot", "xmlserialize",
    "xmltable"]

/-- A name as it is kept, of 63 bytes at most. -/
def keptName (name : String) : String := kept name.toList

def colId : Lexeme → Option String
  | .word text => if NotColId text then none else some (keptName text)
  | .quoted text => some (keptName text)
  | _ => none

def colLabel : Lexeme → Option String
  | .word text => some (keptName text)
  | .quoted text => some (keptName text)
  | _ => none

/-- The name of a parameter, a function or a type. -/
def typeFunctionName : Lexeme → Option String
  | .word text =>
    if text ∈ reservedKeywords || text ∈ colNameKeywords then none else some (keptName text)
  | .quoted text => some (keptName text)
  | _ => none

def nonReservedWord : Lexeme → Option String
  | .word text => if text ∈ reservedKeywords then none else some (keptName text)
  | .quoted text => some (keptName text)
  | .string text => some text
  | _ => none

/-- The names behind dots. -/
def attrs : List Lexeme → List String × List Lexeme
  | .sym '.' :: name :: rest =>
    match colLabel name with
    | some label => (label :: (attrs rest).1, (attrs rest).2)
    | none => ([], .sym '.' :: name :: rest)
  | rest => ([], rest)

def anyName : List Lexeme → Option (List String × List Lexeme)
  | [] => none
  | first :: rest => (colId first).map fun name => (name :: (attrs rest).1, (attrs rest).2)

structure Typename where
  setof : Bool
  names : List String
  dimensions : Nat
  deriving DecidableEq

/-- The types that key words name, the longer ones first. -/
def keywordTypes : List (List String × String) :=
  [(["double", "precision"], "float8"), (["bit", "varying"], "varbit"),
    (["character", "varying"], "varchar"), (["char", "varying"], "varchar"),
    (["timestamp", "with", "time", "zone"], "timestamptz"),
    (["timestamp", "without", "time", "zone"], "timestamp"),
    (["time", "with", "time", "zone"], "timetz"), (["time", "without", "time", "zone"], "time"),
    (["int"], "int4"), (["integer"], "int4"), (["smallint"], "int2"), (["bigint"], "int8"),
    (["real"], "float4"), (["float"], "float8"), (["decimal"], "numeric"), (["dec"], "numeric"),
    (["numeric"], "numeric"), (["boolean"], "bool"), (["bit"], "bit"), (["character"], "bpchar"),
    (["char"], "bpchar"), (["varchar"], "varchar"), (["timestamp"], "timestamp"),
    (["time"], "time"), (["interval"], "interval"), (["json"], "json")]

/-- What follows the words. -/
def afterWords : List String → List Lexeme → Option (List Lexeme)
  | [], rest => some rest
  | word :: words, .word text :: rest => if text = word then afterWords words rest else none
  | _ :: _, _ => none

def keywordType (tokens : List Lexeme) : Option (List String × List Lexeme) :=
  keywordTypes.findSome? fun (words, name) =>
    (afterWords words tokens).map fun rest => (["pg_catalog", name], rest)

def genericType : List Lexeme → Option (List String × List Lexeme)
  | [] => none
  | first :: rest =>
    (typeFunctionName first).map fun name => (name :: (attrs rest).1, (attrs rest).2)

def arrayBounds : List Lexeme → Nat × List Lexeme
  | .sym '[' :: .sym ']' :: rest => ((arrayBounds rest).1 + 1, (arrayBounds rest).2)
  | rest => (0, rest)

def plainTypename (tokens : List Lexeme) : Option (Typename × List Lexeme) :=
  ((keywordType tokens).or (genericType tokens)).map fun (names, rest) =>
    (⟨false, names, (arrayBounds rest).1⟩, (arrayBounds rest).2)

def typename : List Lexeme → Option (Typename × List Lexeme)
  | .word "setof" :: rest =>
    (plainTypename rest).map fun (type, rest) => ({ type with setof := true }, rest)
  | tokens => plainTypename tokens

/-! ## Parameters -/

inductive ParameterMode where
  | input
  | output
  | inputOutput
  | variadic
  | table
  deriving DecidableEq

structure Parameter where
  mode : ParameterMode
  name : Option String
  type : Typename
  deriving DecidableEq

def argClass : List Lexeme → Option (ParameterMode × List Lexeme)
  | .word "in" :: .word "out" :: rest => some (.inputOutput, rest)
  | .word "in" :: rest => some (.input, rest)
  | .word "out" :: rest => some (.output, rest)
  | .word "inout" :: rest => some (.inputOutput, rest)
  | .word "variadic" :: rest => some (.variadic, rest)
  | _ => none

def isName : Lexeme → Bool
  | .word _ => true
  | .quoted _ => true
  | _ => false

/-- A parameter's name, if what follows it can only be its mode or its type. -/
def paramName : List Lexeme → Option (String × List Lexeme)
  | name :: next :: rest =>
    if isName next && !(name = .word "double" && next = .word "precision") then
      (typeFunctionName name).map fun name => (name, next :: rest)
    else none
  | _ => none

/-- The type, after the name and the mode read so far. -/
def paramType (mode : Option ParameterMode) (name : Option String) (tokens : List Lexeme) :
    Option (Parameter × List Lexeme) :=
  (typename tokens).map fun (type, rest) => (⟨mode.getD .input, name, type⟩, rest)

def funcArg (tokens : List Lexeme) : Option (Parameter × List Lexeme) :=
  match argClass tokens with
  | some (mode, tokens) =>
    match paramName tokens with
    | some (name, tokens) => paramType (some mode) (some name) tokens
    | none => paramType (some mode) none tokens
  | none =>
    match paramName tokens with
    | some (name, tokens) =>
      match argClass tokens with
      | some (mode, tokens) => paramType (some mode) (some name) tokens
      | none => paramType none (some name) tokens
    | none => paramType none none tokens

def tableColumn : List Lexeme → Option (Parameter × List Lexeme)
  | [] => none
  | name :: tokens => (typeFunctionName name).bind fun name =>
    paramType (some .table) (some name) tokens

/-- One or more parts with commas between them, and the parenthesis behind them. -/
def commaList {α : Type} (part : List Lexeme → Option (α × List Lexeme)) :
    Nat → List Lexeme → Option (List α × List Lexeme)
  | 0, _ => none
  | fuel + 1, tokens =>
    (part tokens).bind fun (first, rest) =>
      match rest with
      | .sym ',' :: rest =>
        (commaList part fuel rest).map fun (others, rest) => (first :: others, rest)
      | .sym ')' :: rest => some ([first], rest)
      | _ => none

/-- The parameters after the opening parenthesis. -/
def funcArgs : List Lexeme → Option (List Parameter × List Lexeme)
  | .sym ')' :: rest => some ([], rest)
  | tokens => commaList funcArg tokens.length tokens

/-! ## Options -/

inductive Item where
  | as (texts : List String)
  | language (name : String)
  | window
  | volatility (code : String)
  | strict (strict : Bool)
  | security (definer : Bool)
  | leakproof (leakproof : Bool)
  | cost (value : Rat)
  | rows (value : Rat)
  | support (name : List String)
  | parallel (name : String)
  deriving DecidableEq

def numericOnly : List Lexeme → Option (Rat × List Lexeme)
  | .number whole fraction :: rest => some (decimalValue whole fraction, rest)
  | .sym '+' :: .number whole fraction :: rest => some (decimalValue whole fraction, rest)
  | .sym '-' :: .number whole fraction :: rest => some (-decimalValue whole fraction, rest)
  | _ => none

def asItem : List Lexeme → Option (Item × List Lexeme)
  | .string object :: .sym ',' :: .string link :: rest => some (.as [object, link], rest)
  | .string body :: rest => some (.as [body], rest)
  | _ => none

/-- One option of a function. -/
def item : List Lexeme → Option (Item × List Lexeme)
  | .word "as" :: rest => asItem rest
  | .word "language" :: name :: rest =>
    (nonReservedWord name).map fun name => (.language name, rest)
  | .word "window" :: rest => some (.window, rest)
  | .word "immutable" :: rest => some (.volatility "i", rest)
  | .word "stable" :: rest => some (.volatility "s", rest)
  | .word "volatile" :: rest => some (.volatility "v", rest)
  | .word "strict" :: rest => some (.strict true, rest)
  | .word "called" :: .word "on" :: .word "null" :: .word "input" :: rest =>
    some (.strict false, rest)
  | .word "returns" :: .word "null" :: .word "on" :: .word "null" :: .word "input" :: rest =>
    some (.strict true, rest)
  | .word "security" :: .word "definer" :: rest => some (.security true, rest)
  | .word "security" :: .word "invoker" :: rest => some (.security false, rest)
  | .word "external" :: .word "security" :: .word "definer" :: rest => some (.security true, rest)
  | .word "external" :: .word "security" :: .word "invoker" :: rest => some (.security false, rest)
  | .word "leakproof" :: rest => some (.leakproof true, rest)
  | .word "not" :: .word "leakproof" :: rest => some (.leakproof false, rest)
  | .word "cost" :: rest => (numericOnly rest).map fun (value, rest) => (.cost value, rest)
  | .word "rows" :: rest => (numericOnly rest).map fun (value, rest) => (.rows value, rest)
  | .word "support" :: rest => (anyName rest).map fun (name, rest) => (.support name, rest)
  | .word "parallel" :: name :: rest => (colId name).map fun name => (.parallel name, rest)
  | _ => none

/-- An option, or the semicolon that ends the statement. -/
def itemStep : List Lexeme → Option (List Item × List Lexeme)
  | [.sym ';'] => some ([], [])
  | tokens => (item tokens).map fun (item, rest) => ([item], rest)

/-! ## The statement -/

inductive Returns where
  | nothing
  | type (type : Typename)
  | table (columns : List Parameter)
  deriving DecidableEq

structure CreateFunctionStmt where
  isProcedure : Bool
  replace : Bool
  funcname : List String
  parameters : List Parameter
  returns : Returns
  options : List Item
  deriving DecidableEq

/-- The name of the function, and what follows the opening parenthesis. -/
def funcName : List Lexeme → Option (List String × List Lexeme)
  | name :: .sym '(' :: rest => (typeFunctionName name).map fun name => ([name], rest)
  | tokens => (anyName tokens).bind fun (names, rest) =>
    match rest with
    | .sym '(' :: rest => some (names, rest)
    | _ => none

def funcReturn : List Lexeme → Option (Returns × List Lexeme)
  | .word "returns" :: .word "table" :: .sym '(' :: rest =>
    (commaList tableColumn rest.length rest).map fun (columns, rest) => (.table columns, rest)
  | .word "returns" :: rest => (typename rest).map fun (type, rest) => (.type type, rest)
  | rest => some (.nothing, rest)

/-! ## Every step reads something -/

section
variable {c : Char} {text rest body : List Char} {tokens left : List Lexeme} {found : Lexeme}
  {read : List Lexeme}

theorem dropWhile_length (p : Char → Bool) (text : List Char) :
    (text.dropWhile p).length ≤ text.length := (List.dropWhile_sublist p).length_le

theorem quotedName_shorter {name : List Char} (here : quotedName text = some (name, rest)) :
    rest.length < text.length := by
  fun_induction quotedName text generalizing name rest with
  | case1 => contradiction
  | case2 text ih =>
    obtain ⟨⟨inner, after⟩, within, same⟩ := Option.map_eq_some_iff.mp here
    obtain ⟨-, rfl⟩ := Prod.mk.inj same
    have := ih within
    simp only [List.length_cons]
    omega
  | case3 text =>
    obtain ⟨-, rfl⟩ := Prod.mk.inj (Option.some.inj here)
    simp
  | case4 => contradiction
  | case5 c text _ _ _ ih =>
    obtain ⟨⟨inner, after⟩, within, same⟩ := Option.map_eq_some_iff.mp here
    obtain ⟨-, rfl⟩ := Prod.mk.inj same
    have := ih within
    simp only [List.length_cons]
    omega

theorem dollarTag_length {tag : List Char} (here : dollarTag text = some (tag, rest)) :
    rest.length ≤ text.length := by
  have fewer := dropWhile_length isTagCont text
  rw [dollarTag, Option.ite_none_right_eq_some] at here
  replace here := here.2
  split at here
  · rename_i left
    obtain ⟨-, rfl⟩ := Prod.mk.inj (Option.some.inj here)
    rw [left, List.length_cons] at fewer
    omega
  · contradiction

theorem dollarString_length (here : dollarString text = some (found, rest)) :
    rest.length ≤ text.length := by
  obtain ⟨⟨tag, after⟩, tagged, here⟩ := Option.bind_eq_some_iff.mp here
  obtain ⟨⟨body, left⟩, closed, here⟩ := Option.bind_eq_some_iff.mp here
  obtain ⟨-, same⟩ := Option.ite_none_right_eq_some.mp here
  obtain ⟨-, rfl⟩ := Prod.mk.inj (Option.some.inj same)
  have parts := congrArg List.length (upTo_eq_some closed)
  have fewer := dollarTag_length tagged
  simp only [List.length_append] at parts
  omega

theorem numeral_shorter (digit : c.isDigit = true)
    (here : numeral (c :: text) = some (found, rest)) : rest.length < (c :: text).length := by
  have fewer := dropWhile_length Char.isDigit text
  simp only [numeral, List.dropWhile_cons_of_pos digit, Option.ite_none_left_eq_some,
    Option.some.injEq, Prod.mk.injEq] at here
  obtain ⟨-, -, rfl⟩ := here
  split
  · rename_i after left
    have fewer' := dropWhile_length Char.isDigit after
    rw [left, List.length_cons] at fewer
    simp only [List.length_cons]
    omega
  · simp only [List.length_cons]
    omega

theorem lexeme_shorter (here : lexeme (c :: text) = some (read, rest)) :
    rest.length < (c :: text).length := by
  rw [lexeme] at here
  split at here
  · obtain ⟨-, rfl⟩ := Prod.mk.inj (Option.some.inj here)
    simp
  split at here
  · rename_i start
    have cont : isIdentCont c = true := by simp [isIdentCont, start]
    obtain ⟨-, rfl⟩ := Prod.mk.inj (Option.some.inj here)
    have fewer := dropWhile_length isIdentCont text
    rw [List.dropWhile_cons_of_pos cont, List.length_cons]
    omega
  split at here
  · obtain ⟨⟨name, left⟩, quoted, here⟩ := Option.bind_eq_some_iff.mp here
    obtain ⟨-, same⟩ := Option.ite_none_left_eq_some.mp here
    obtain ⟨-, rfl⟩ := Prod.mk.inj (Option.some.inj same)
    have := quotedName_shorter quoted
    rw [List.length_cons]
    omega
  split at here
  · rename_i digit
    obtain ⟨⟨number, left⟩, numbered, same⟩ := Option.map_eq_some_iff.mp here
    obtain ⟨-, rfl⟩ := Prod.mk.inj same
    exact numeral_shorter digit numbered
  split at here
  · obtain ⟨⟨string, left⟩, dollars, same⟩ := Option.map_eq_some_iff.mp here
    obtain ⟨-, rfl⟩ := Prod.mk.inj same
    have := dollarString_length dollars
    rw [List.length_cons]
    omega
  · obtain ⟨-, same⟩ := Option.ite_none_left_eq_some.mp here
    obtain ⟨-, rfl⟩ := Prod.mk.inj (Option.some.inj same)
    simp

theorem attrs_length (tokens : List Lexeme) : (attrs tokens).2.length ≤ tokens.length := by
  fun_induction attrs tokens with
  | case1 name rest label here ih =>
    simp only [List.length_cons]
    omega
  | case2 => exact Nat.le_refl _
  | case3 => exact Nat.le_refl _

theorem anyName_length {names : List String} (here : anyName tokens = some (names, left)) :
    left.length < tokens.length := by
  cases tokens with
  | nil => contradiction
  | cons first tokens =>
    obtain ⟨name, -, same⟩ := Option.map_eq_some_iff.mp here
    obtain ⟨-, rfl⟩ := Prod.mk.inj same
    have := attrs_length tokens
    rw [List.length_cons]
    omega

theorem numericOnly_length {value : Rat} (here : numericOnly tokens = some (value, left)) :
    left.length < tokens.length := by
  unfold numericOnly at here
  split at here
  all_goals
    first
    | contradiction
    | obtain ⟨-, rfl⟩ := Prod.mk.inj (Option.some.inj here)
      simp only [List.length_cons]
      omega

theorem asItem_length {as_ : Item} (here : asItem tokens = some (as_, left)) :
    left.length < tokens.length := by
  unfold asItem at here
  split at here
  all_goals
    first
    | contradiction
    | obtain ⟨-, rfl⟩ := Prod.mk.inj (Option.some.inj here)
      simp only [List.length_cons]
      omega

theorem item_shorter {item_ : Item} (here : item tokens = some (item_, left)) :
    left.length < tokens.length := by
  unfold item at here
  split at here
  case h_1 =>
    have := asItem_length here
    rw [List.length_cons]
    omega
  case h_2 =>
    obtain ⟨name, -, same⟩ := Option.map_eq_some_iff.mp here
    obtain ⟨-, rfl⟩ := Prod.mk.inj same
    simp only [List.length_cons]
    omega
  case h_16 =>
    obtain ⟨⟨value, after⟩, read, same⟩ := Option.map_eq_some_iff.mp here
    obtain ⟨-, rfl⟩ := Prod.mk.inj same
    have := numericOnly_length read
    rw [List.length_cons]
    omega
  case h_17 =>
    obtain ⟨⟨value, after⟩, read, same⟩ := Option.map_eq_some_iff.mp here
    obtain ⟨-, rfl⟩ := Prod.mk.inj same
    have := numericOnly_length read
    rw [List.length_cons]
    omega
  case h_18 =>
    obtain ⟨⟨names, after⟩, read, same⟩ := Option.map_eq_some_iff.mp here
    obtain ⟨-, rfl⟩ := Prod.mk.inj same
    have := anyName_length read
    rw [List.length_cons]
    omega
  case h_19 =>
    obtain ⟨name, -, same⟩ := Option.map_eq_some_iff.mp here
    obtain ⟨-, rfl⟩ := Prod.mk.inj same
    simp only [List.length_cons]
    omega
  case h_20 => contradiction
  all_goals
    obtain ⟨-, rfl⟩ := Prod.mk.inj (Option.some.inj here)
    simp only [List.length_cons]
    omega

theorem itemStep_shorter {items : List Item}
    (here : itemStep (found :: tokens) = some (items, left)) :
    left.length < (found :: tokens).length := by
  unfold itemStep at here
  split at here
  · obtain ⟨-, rfl⟩ := Prod.mk.inj (Option.some.inj here)
    simp
  · obtain ⟨⟨one, after⟩, read, same⟩ := Option.map_eq_some_iff.mp here
    obtain ⟨-, rfl⟩ := Prod.mk.inj same
    exact item_shorter read

end

def lexemes (text : List Char) : Option (List Lexeme) :=
  (Reader.stateless lexeme lexeme_shorter).readAll () text

def items (tokens : List Lexeme) : Option (List Item) :=
  (Reader.stateless itemStep itemStep_shorter).readAll () tokens

def orReplace : List Lexeme → Bool × List Lexeme
  | .word "or" :: .word "replace" :: rest => (true, rest)
  | rest => (false, rest)

def createFunctionStmt : List Lexeme → Option CreateFunctionStmt
  | .word "create" :: rest =>
    match orReplace rest with
    | (replace, .word "function" :: rest) => do
      let (name, rest) ← funcName rest
      let (parameters, rest) ← funcArgs rest
      let (returns, rest) ← funcReturn rest
      let options ← items rest
      return ⟨false, replace, name, parameters, returns, options⟩
    | (replace, .word "procedure" :: rest) => do
      let (name, rest) ← funcName rest
      let (parameters, rest) ← funcArgs rest
      let options ← items rest
      return ⟨true, replace, name, parameters, .nothing, options⟩
    | _ => none
  | _ => none

def parseCreateFunction (text : String) : Option CreateFunctionStmt :=
  (lexemes text.toList).bind createFunctionStmt

end PgCatalog.UserFunctions.CreateFunction
