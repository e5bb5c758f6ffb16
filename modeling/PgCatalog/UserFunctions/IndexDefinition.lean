import PgCatalog.Library.ByteOffsets
import PgCatalog.UserFunctions.CatalogNames

/-! `CREATE INDEX` as `pg_get_indexdef` writes it, and the statement PostgreSQL reads in it. -/
namespace PgCatalog.UserFunctions

open Library

def isPlainStart (c : Char) : Bool := ('a' ≤ c && c ≤ 'z') || c = '_'

def isPlainRest (c : Char) : Bool := isPlainStart c || ('0' ≤ c && c ≤ '9')

/-- Whether a name is written without quotes. -/
def isPlain (ident : String) : Bool :=
  match ident.toList with
  | [] => false
  | first :: rest => isPlainStart first && (first :: rest).all isPlainRest

def quoteIdentifierIfNeeded (ident : String) : String :=
  if isPlain ident then ident
  else String.ofList ('"' :: doubled '"' ident.toList ++ ['"'])

def renderCreateIndexStatement (isUnique : Bool) (indexName schemaName tableName : String)
    (accessMethod : String) (columns : List String) : String :=
  "CREATE " ++ (if isUnique then "UNIQUE " else "") ++ "INDEX " ++ quoteIdentifierIfNeeded indexName
    ++ " ON " ++ quoteIdentifierIfNeeded schemaName ++ "." ++ quoteIdentifierIfNeeded tableName
    ++ " USING " ++ accessMethod
    ++ " (" ++ ", ".intercalate (columns.map quoteIdentifierIfNeeded) ++ ")"

/-! ## The text as PostgreSQL scans it

Words, quoted names and single characters; of these texts nothing else is made. -/

inductive Token where
  | word (text : List Char)
  | quoted (text : List Char)
  | sym (c : Char)
  deriving DecidableEq

/-- Letters, the underscore and everything beyond ASCII start a word. -/
def isIdentStart (c : Char) : Bool := c.isAlpha || c = '_' || 0x80 ≤ c.toNat

def isIdentCont (c : Char) : Bool := isIdentStart c || c.isDigit || c = '$'

inductive Scanning where
  | between
  | word (text : List Char)
  | quoted (text : List Char)
  | closing (text : List Char)
  deriving DecidableEq

/-- What a character outside of words and quotes starts. -/
def opened (c : Char) : List Token × Scanning :=
  if isNameSpace c then ([], .between)
  else if isIdentStart c then ([], .word [c.toLower])
  else if c = '"' then ([], .quoted [])
  else ([.sym c], .between)

/-- A delimited name has a character at least. -/
def delimited (text : List Char) : Option Token := if text = [] then none else some (.quoted text)

def scanStep : Scanning → Char → Option (List Token × Scanning)
  | .between, c => some (opened c)
  | .word text, c =>
    if isIdentCont c then some ([], .word (text ++ [c.toLower]))
    else some (.word text :: (opened c).1, (opened c).2)
  | .quoted text, c => some ([], if c = '"' then .closing text else .quoted (text ++ [c]))
  | .closing text, c =>
    if c = '"' then some ([], .quoted (text ++ ['"']))
    else (delimited text).map fun token => (token :: (opened c).1, (opened c).2)

def scanEnd : Scanning → Option (List Token)
  | .between => some []
  | .word text => some [.word text]
  | .quoted _ => none
  | .closing text => (delimited text).map ([·])

/-- The tokens of a text, which ends at a NUL. -/
def scan : Scanning → List Char → Option (List Token)
  | state, [] => scanEnd state
  | state, c :: rest =>
    if c.toNat = 0 then scanEnd state
    else (scanStep state c).bind fun (tokens, next) => (scan next rest).map (tokens ++ ·)

/-! ## The grammar -/

def reservedKeywords : List String :=
  ["all", "analyse", "analyze", "and", "any", "array", "as", "asc", "asymmetric", "both", "case",
    "cast", "check", "collate", "column", "constraint", "create", "current_catalog", "current_date",
    "current_role", "current_time", "current_timestamp", "current_user", "default", "deferrable",
    "desc", "distinct", "do", "else", "end", "except", "false", "fetch", "for", "foreign", "from",
    "grant", "group", "having", "in", "initially", "intersect", "into", "lateral", "leading", "limit",
    "localtime", "localtimestamp", "not", "null", "offset", "on", "only", "or", "order", "placing",
    "primary", "references", "returning", "select", "session_user", "some", "symmetric",
    "system_user", "table", "then", "to", "trailing", "true", "union", "unique", "user", "using",
    "variadic", "when", "where", "window", "with"]

def typeFuncNameKeywords : List String :=
  ["authorization", "binary", "collation", "concurrently", "cross", "current_schema", "freeze",
    "full", "ilike", "inner", "is", "isnull", "join", "left", "like", "natural", "notnull", "outer",
    "overlaps", "right", "similar", "tablesample", "verbose"]

/-- The functions that are called without parentheses. -/
def bareFunctions : List String :=
  ["current_catalog", "current_date", "current_role", "current_schema", "current_time",
    "current_timestamp", "current_user", "localtime", "localtimestamp", "session_user",
    "system_user", "user"]

/-- A word that cannot name a column without quotes. -/
def NotColId (name : String) : Prop := name ∈ reservedKeywords ∨ name ∈ typeFuncNameKeywords

instance (name : String) : Decidable (NotColId name) := inferInstanceAs (Decidable (_ ∨ _))

/-- A name as it is kept, of 63 bytes at most. -/
def kept (text : List Char) : String := String.ofList (clipped MAX_NAME_BYTES text)

def colId : Token → Option String
  | .word text => if NotColId (String.ofList text) then none else some (kept text)
  | .quoted text => some (kept text)
  | .sym _ => none

def colLabel : Token → Option String
  | .word text => some (kept text)
  | .quoted text => some (kept text)
  | .sym _ => none

def keyword (text : String) : Token := .word text.toList

inductive Key where
  | column (name : String)
  | expression (function : String)
  deriving DecidableEq

structure IndexStmt where
  unique : Bool
  name : Option String
  schema : Option String
  table : String
  accessMethod : String
  keys : List Key
  deriving DecidableEq

/-- An indexed name, or one of the functions that look like one. -/
def indexElem : Token → Option Key
  | .word text =>
    if String.ofList text ∈ bareFunctions then some (.expression (String.ofList text))
    else (colId (.word text)).map .column
  | token => (colId token).map .column

/-- The elements up to the closing parenthesis, which ends the statement. -/
def indexParams : List Token → Option (List Key)
  | token :: .sym ',' :: rest => do
    let key ← indexElem token
    let keys ← indexParams rest
    return key :: keys
  | [token, .sym ')'] => (indexElem token).map ([·])
  | _ => none

def optKeyword (text : String) : List Token → Bool × List Token
  | token :: rest => if token = keyword text then (true, rest) else (false, token :: rest)
  | [] => (false, [])

def expectKeyword (text : String) : List Token → Option (List Token)
  | token :: rest => if token = keyword text then some rest else none
  | [] => none

/-- The index's name, which can be left out. -/
def optSingleName : List Token → Option (Option String × List Token)
  | [] => none
  | token :: rest =>
    if token = keyword "on" then some (none, token :: rest)
    else match token :: rest with
      | first :: second :: third :: name :: rest' =>
        if [first, second, third] = ["if", "not", "exists"].map keyword then
          (colId name).map fun name => (some name, rest')
        else (colId token).map fun name => (some name, rest)
      | _ => (colId token).map fun name => (some name, rest)

/-- A table, with its schema or without. -/
def qualifiedName : List Token → Option ((Option String × String) × List Token)
  | first :: .sym '.' :: second :: rest => do
    let schema ← colId first
    let table ← colLabel second
    return ((some schema, table), rest)
  | first :: rest => (colId first).map fun table => ((none, table), rest)
  | [] => none

def accessMethodClause : List Token → Option (String × List Token)
  | tokens =>
    match optKeyword "using" tokens with
    | (true, method :: rest) => (colId method).map (·, rest)
    | (true, []) => none
    | (false, rest) => some ("btree", rest)

/-- The statement from `ON` on. -/
def indexStmtOn (unique : Bool) (name : Option String) (tokens : List Token) : Option IndexStmt := do
  let tokens ← expectKeyword "on" tokens
  let ((schema, table), tokens) ← qualifiedName (optKeyword "only" tokens).2
  let (accessMethod, tokens) ← accessMethodClause tokens
  match tokens with
  | .sym '(' :: tokens => (indexParams tokens).map (⟨unique, name, schema, table, accessMethod, ·⟩)
  | _ => none

def indexStmt (tokens : List Token) : Option IndexStmt := do
  let tokens ← expectKeyword "create" tokens
  let (unique, tokens) := optKeyword "unique" tokens
  let tokens ← expectKeyword "index" tokens
  let (name, tokens) ← optSingleName (optKeyword "concurrently" tokens).2
  indexStmtOn unique name tokens

def parseCreateIndex (text : String) : Option IndexStmt := (scan .between text.toList).bind indexStmt

/-! ## Scanning what was rendered -/

section
variable {c : Char} {text rest : List Char} {name : String}

/-- A character that ends a word and a quoted name. -/
structure Ends (c : Char) : Prop where
  inText : c.toNat ≠ 0
  notCont : isIdentCont c = false
  notQuote : c ≠ '"'

theorem scan_cons (state : Scanning) (nul : c.toNat ≠ 0) : scan state (c :: rest) =
    (scanStep state c).bind fun (tokens, next) => (scan next rest).map (tokens ++ ·) := by
  rw [scan, if_neg nul]

/-- A word ends where its characters do, and the rest is scanned from there. -/
theorem scan_word_end (ends : Ends c) : scan (.word text) (c :: rest) =
    (scan .between (c :: rest)).map (.word text :: ·) := by
  rw [scan_cons _ ends.inText, scan_cons _ ends.inText]
  simp [scanStep, ends.notCont, Option.map_map, Function.comp_def]

theorem scan_word_rest {read : List Char} (cont : ∀ x ∈ text, isIdentCont x = true ∧ x.toNat ≠ 0) :
    scan (.word read) (text ++ rest) = scan (.word (read ++ text.map Char.toLower)) rest := by
  induction text generalizing read with
  | nil => simp
  | cons x text ih =>
    have first := cont x List.mem_cons_self
    rw [List.cons_append, scan_cons _ first.2]
    simp only [scanStep, first.1, if_true, Option.bind_some, List.nil_append, Option.map_id']
    rw [ih fun y member => cont y (List.mem_cons_of_mem _ member)]
    simp

/-- The characters a word is made of, the first of which starts one. -/
structure WordText (text : List Char) : Prop where
  start : text.head?.any isIdentStart = true
  cont : ∀ x ∈ text, isIdentCont x = true ∧ x.toNat ≠ 0

theorem start_large (start : isIdentStart c = true) : 65 ≤ c.toNat := by
  have letter : c.isAlpha =
      (decide (c.val ≥ 'A'.val ∧ c.val ≤ 'Z'.val) || (c.val ≥ 'a'.val && c.val ≤ 'z'.val)) := rfl
  simp only [isIdentStart, letter, Bool.or_eq_true, Bool.and_eq_true, decide_eq_true_eq, ge_iff_le, UInt32.le_iff_toNat_le] at start
  obtain ((h | h) | rfl) | h := start
  · exact h.1
  · exact le_trans (by decide) h.1
  · decide
  · exact le_trans (by decide) h

theorem not_nameSpace_of_start (start : isIdentStart c = true) : isNameSpace c = false := by
  have large := start_large start
  by_contra space
  simp only [Bool.not_eq_false, isNameSpace, Bool.or_eq_true, decide_eq_true_eq] at space
  obtain ((((rfl | rfl) | rfl) | rfl) | h) | h := space
  · exact absurd large (by decide)
  · exact absurd large (by decide)
  · exact absurd large (by decide)
  · exact absurd large (by decide)
  · omega
  · omega

theorem scan_word (word : WordText text) (ends : Ends c) : scan .between (text ++ c :: rest) =
    (scan .between (c :: rest)).map (.word (text.map Char.toLower) :: ·) := by
  obtain ⟨start, cont⟩ := word
  cases text with
  | nil => cases start
  | cons x text =>
    have first := cont x List.mem_cons_self
    simp only [List.head?_cons, Option.any_some] at start
    have opens : scanStep .between x = some ([], .word [x.toLower]) := by
      simp [scanStep, opened, not_nameSpace_of_start start, start]
    rw [List.cons_append, scan_cons _ first.2, opens, Option.bind_some]
    simp only [List.nil_append, Option.map_id']
    rw [scan_word_rest fun y member => cont y (List.mem_cons_of_mem _ member), scan_word_end ends]
    rfl

theorem scan_quoted_end (ends : Ends c) : scan (.closing text) (c :: rest) =
    (delimited text).bind fun token => (scan .between (c :: rest)).map (token :: ·) := by
  rw [scan_cons _ ends.inText, scan_cons _ ends.inText]
  simp only [scanStep, ends.notQuote, if_false]
  cases delimited text <;> simp [Option.map_map, Function.comp_def]

def NulFree (text : List Char) : Prop := ∀ x ∈ text, x.toNat ≠ 0

instance (text : List Char) : Decidable (NulFree text) := List.decidableBAll _ _

/-- Doubled quotes are read back up to the closing one; a NUL ends the text before it. -/
theorem scan_quoted_rest {read : List Char} (ends : Ends c) :
    scan (.quoted read) (doubled '"' text ++ '"' :: c :: rest) =
      if NulFree text then
        (delimited (read ++ text)).bind fun token => (scan .between (c :: rest)).map (token :: ·)
      else none := by
  induction text generalizing read with
  | nil =>
    rw [doubled_nil, List.nil_append, scan_cons _ (by decide)]
    simp [NulFree, scanStep, scan_quoted_end ends]
  | cons x text ih =>
    by_cases mark : x = '"'
    · subst mark
      rw [doubled_cons_self, List.cons_append, List.cons_append, scan_cons _ (by decide)]
      simp only [scanStep, if_true, Option.bind_some, List.nil_append, Option.map_id']
      rw [scan_cons _ (by decide)]
      simp only [scanStep, if_true, Option.bind_some, List.nil_append, Option.map_id']
      rw [ih]
      simp [NulFree]
    · rw [doubled_cons_of_ne mark, List.cons_append]
      by_cases nul : x.toNat = 0
      · simp [NulFree, scan, nul, scanEnd]
      · rw [scan_cons _ nul]
        simp only [scanStep, mark, if_false, Option.bind_some, List.nil_append, Option.map_id']
        rw [ih]
        simp [NulFree, nul]

theorem plainStart_range (plain : isPlainStart c = true) :
    97 ≤ c.toNat ∧ c.toNat ≤ 122 ∨ c.toNat = 95 := by
  simp only [isPlainStart, Bool.or_eq_true, Bool.and_eq_true, decide_eq_true_eq] at plain
  obtain ⟨low, high⟩ | rfl := plain
  · exact .inl ⟨low, high⟩
  · exact .inr rfl

theorem isIdentStart_of_plain (plain : isPlainStart c = true) : isIdentStart c = true := by
  obtain ⟨low, high⟩ | here := plainStart_range plain
  · have lower : (decide (c.val ≥ 'a'.val) && decide (c.val ≤ 'z'.val)) = true := by
      simp only [Bool.and_eq_true, decide_eq_true_eq, ge_iff_le]
      exact ⟨low, high⟩
    have letter : c.isAlpha = true := Bool.or_eq_true _ _ |>.mpr (.inr lower)
    simp [isIdentStart, letter]
  · have underscore : c = '_' := Char.toNat_inj.mp here
    simp [isIdentStart, underscore]

theorem plainRest_range (plain : isPlainRest c = true) :
    (97 ≤ c.toNat ∧ c.toNat ≤ 122 ∨ c.toNat = 95) ∨ 48 ≤ c.toNat ∧ c.toNat ≤ 57 := by
  simp only [isPlainRest, Bool.or_eq_true, Bool.and_eq_true, decide_eq_true_eq] at plain
  exact plain.imp plainStart_range id

theorem isIdentCont_of_plain (plain : isPlainRest c = true) :
    isIdentCont c = true ∧ c.toNat ≠ 0 := by
  have range := plainRest_range plain
  refine ⟨?_, by omega⟩
  simp only [isPlainRest, Bool.or_eq_true, Bool.and_eq_true, decide_eq_true_eq] at plain
  obtain start | ⟨low, high⟩ := plain
  · simp [isIdentCont, isIdentStart_of_plain start]
  · have digit : c.isDigit = true := by
      simp only [Char.isDigit, Bool.and_eq_true, decide_eq_true_eq, ge_iff_le]
      exact ⟨low, high⟩
    simp [isIdentCont, digit]

theorem toLower_of_plain (plain : isPlainRest c = true) : c.toLower = c := by
  have range := plainRest_range plain
  unfold Char.toLower
  rw [dif_neg]
  rintro ⟨low, high⟩
  have low : 65 ≤ c.toNat := low
  have high : c.toNat ≤ 90 := high
  omega

theorem isPlain_iff : isPlain name = true ↔
    name.toList.head?.any isPlainStart = true ∧ ∀ x ∈ name.toList, isPlainRest x = true := by
  unfold isPlain
  cases name.toList with
  | nil => simp
  | cons first text => simp

theorem wordText_of_plain (plain : isPlain name = true) : WordText name.toList := by
  obtain ⟨start, all⟩ := isPlain_iff.mp plain
  refine ⟨?_, fun x member => isIdentCont_of_plain (all x member)⟩
  cases here : name.toList.head? with
  | none => rw [here] at start; cases start
  | some x =>
    rw [here] at start
    exact isIdentStart_of_plain start

theorem lower_of_plain (plain : isPlain name = true) : name.toList.map Char.toLower = name.toList := by
  have same : ∀ x ∈ name.toList, x.toLower = id x := fun x member =>
    toLower_of_plain ((isPlain_iff.mp plain).2 x member)
  rw [List.map_congr_left same, List.map_id]

/-- What a rendered name is scanned as. -/
def nameToken (name : String) : Option Token :=
  if isPlain name then some (.word name.toList)
  else if NulFree name.toList then delimited name.toList
  else none

/-- A rendered name is one token wherever a word and a quoted name end. -/
theorem scan_name (name : String) (ends : Ends c) :
    scan .between ((quoteIdentifierIfNeeded name).toList ++ c :: rest) =
      (nameToken name).bind fun token => (scan .between (c :: rest)).map (token :: ·) := by
  unfold quoteIdentifierIfNeeded nameToken
  split
  · next plain =>
    rw [scan_word (wordText_of_plain plain) ends, lower_of_plain plain, Option.bind_some]
  · have opens : scanStep .between '"' = some ([], .quoted []) := by decide
    rw [String.toList_ofList, List.append_assoc, List.cons_append, scan_cons _ (by decide), opens,
      Option.bind_some]
    simp only [List.nil_append, Option.map_id', List.singleton_append]
    rw [scan_quoted_rest ends]
    split <;> simp

theorem scan_blank : scan .between (' ' :: rest) = scan .between rest := by
  have opens : scanStep .between ' ' = some ([], .between) := by decide
  rw [scan_cons _ (by decide), opens, Option.bind_some]
  simp

theorem scan_sym (mark : c ∈ ['(', ')', ',', '.']) :
    scan .between (c :: rest) = (scan .between rest).map (.sym c :: ·) := by
  have opens : c.toNat ≠ 0 ∧ scanStep .between c = some ([.sym c], .between) := by
    simp only [List.mem_cons, List.not_mem_nil, or_false] at mark
    obtain rfl | rfl | rfl | rfl := mark <;> decide
  rw [scan_cons _ opens.1, opens.2, Option.bind_some]
  rfl

theorem ends_blank : Ends ' ' := ⟨by decide, by decide, by decide⟩
theorem ends_dot : Ends '.' := ⟨by decide, by decide, by decide⟩
theorem ends_comma : Ends ',' := ⟨by decide, by decide, by decide⟩
theorem ends_paren : Ends ')' := ⟨by decide, by decide, by decide⟩

/-- The tokens of the columns and the parenthesis after them. -/
def columnTokens : List String → Option (List Token)
  | [] => some [.sym ')']
  | [column] => (nameToken column).map fun token => [token, .sym ')']
  | column :: next :: columns =>
    (nameToken column).bind fun token =>
      (columnTokens (next :: columns)).map (token :: .sym ',' :: ·)

theorem scan_columns (columns : List String) :
    scan .between ((", ".intercalate (columns.map quoteIdentifierIfNeeded)).toList ++ [')']) =
      columnTokens columns := by
  have closed : scan .between [')'] = some [.sym ')'] := by decide
  induction columns with
  | nil => exact closed
  | cons column columns ih =>
    cases columns with
    | nil =>
      rw [List.map_singleton, String.intercalate_singleton, scan_name _ ends_paren, closed,
        columnTokens]
      cases nameToken column <;> rfl
    | cons next columns =>
      rw [List.map_cons, List.map_cons, String.intercalate_cons_cons, ← List.map_cons]
      simp only [String.toList_append, List.append_assoc]
      change scan .between ((quoteIdentifierIfNeeded column).toList ++ ',' :: ' ' ::
        ((", ".intercalate ((next :: columns).map quoteIdentifierIfNeeded)).toList ++ [')'])) = _
      rw [scan_name _ ends_comma, scan_sym (by decide), scan_blank, ih]
      generalize later : columnTokens (next :: columns) = tokens
      rw [columnTokens, later]
      cases nameToken column <;> simp [Option.map_map, Function.comp_def]

instance (text : List Char) : Decidable (WordText text) :=
  decidable_of_iff (text.head?.any isIdentStart = true ∧
    text.all (fun x => isIdentCont x && x.toNat != 0) = true)
    ⟨fun h => ⟨h.1, by simpa using h.2⟩, fun h => ⟨h.1, by simpa using h.2⟩⟩

/-- A word, a blank and what follows. -/
def wordThen (word : String) (rest : List Char) : List Char := word.toList ++ ' ' :: rest

/-- A rendered name, the character that ends it and what follows. -/
def nameThen (name : String) (c : Char) (rest : List Char) : List Char :=
  (quoteIdentifierIfNeeded name).toList ++ c :: rest

theorem scan_keyword (upper lower : String) (word : WordText upper.toList)
    (same : upper.toList.map Char.toLower = lower.toList) :
    scan .between (wordThen upper rest) = (scan .between rest).map (keyword lower :: ·) := by
  rw [wordThen, scan_word word ends_blank, scan_blank, same]
  rfl

/-- An access method: its name is printed as it is and read as it is. -/
structure AccessMethod where
  name : String
  word : WordText name.toList
  lower : name.toList.map Char.toLower = name.toList
  free : ¬ NotColId name
  short : byteLength name.toList ≤ MAX_NAME_BYTES

/-- The statement's tokens around those of its names. -/
def renderedTokens (isUnique : Bool) (index schema table : Token) (accessMethod : String)
    (columns : List Token) : List Token :=
  keyword "create" :: ((if isUnique then [keyword "unique"] else []) ++ keyword "index" :: index ::
    keyword "on" :: schema :: .sym '.' :: table :: keyword "using" :: keyword accessMethod ::
    .sym '(' :: columns)

theorem render_toList (isUnique : Bool) (indexName schemaName tableName accessMethod : String)
    (columns : List String) :
    (renderCreateIndexStatement isUnique indexName schemaName tableName accessMethod columns).toList =
      wordThen "CREATE" ((if isUnique then wordThen "UNIQUE" else id)
        (wordThen "INDEX" (nameThen indexName ' ' (wordThen "ON" (nameThen schemaName '.'
          (nameThen tableName ' ' (wordThen "USING" (wordThen accessMethod
            ('(' :: ((", ".intercalate (columns.map quoteIdentifierIfNeeded)).toList ++
              [')'])))))))))) := by
  unfold renderCreateIndexStatement wordThen nameThen
  have create : "CREATE ".toList = "CREATE".toList ++ [' '] := by decide
  have unique : "UNIQUE ".toList = "UNIQUE".toList ++ [' '] := by decide
  have index : "INDEX ".toList = "INDEX".toList ++ [' '] := by decide
  have on : " ON ".toList = ' ' :: ("ON".toList ++ [' ']) := by decide
  have using_ : " USING ".toList = ' ' :: ("USING".toList ++ [' ']) := by decide
  have dot : ".".toList = ['.'] := by decide
  have opening : " (".toList = [' ', '('] := by decide
  have closing : ")".toList = [')'] := by decide
  have empty : "".toList = [] := by decide
  cases isUnique
  · simp only [String.toList_append, List.append_assoc, create, index, on, using_, dot, opening,
      closing, empty, List.cons_append, List.nil_append, Bool.false_eq_true, if_false, id]
  · simp only [String.toList_append, List.append_assoc, create, unique, index, on, using_, dot,
      opening, closing, List.cons_append, List.nil_append, if_true]

/-- The rendered text is scanned as the statement's tokens, if every name is a token. -/
theorem scan_render (isUnique : Bool) (indexName schemaName tableName : String)
    (accessMethod : AccessMethod) (columns : List String) :
    scan .between (renderCreateIndexStatement isUnique indexName schemaName tableName
      accessMethod.name columns).toList =
      (nameToken indexName).bind fun index => (nameToken schemaName).bind fun schema =>
        (nameToken tableName).bind fun table => (columnTokens columns).map fun columns =>
          renderedTokens isUnique index schema table accessMethod.name columns := by
  rw [render_toList, scan_keyword "CREATE" "create" (by decide) (by decide)]
  have after : ∀ rest, scan .between ((if isUnique then wordThen "UNIQUE" else id) rest) =
      (scan .between rest).map ((if isUnique then [keyword "unique"] else []) ++ ·) := by
    intro rest
    cases isUnique
    · simp
    · exact scan_keyword "UNIQUE" "unique" (by decide) (by decide)
  rw [after, scan_keyword "INDEX" "index" (by decide) (by decide), nameThen,
    scan_name _ ends_blank, scan_blank]
  cases nameToken indexName with
  | none => rfl
  | some index =>
    rw [Option.bind_some, Option.bind_some, scan_keyword "ON" "on" (by decide) (by decide), nameThen,
      scan_name _ ends_dot, scan_sym (by decide)]
    cases nameToken schemaName with
    | none => rfl
    | some schema =>
      rw [Option.bind_some, Option.bind_some, nameThen, scan_name _ ends_blank, scan_blank]
      cases nameToken tableName with
      | none => rfl
      | some table =>
        rw [Option.bind_some, Option.bind_some,
          scan_keyword "USING" "using" (by decide) (by decide),
          scan_keyword _ _ accessMethod.word accessMethod.lower, scan_sym (by decide), scan_columns]
        cases columnTokens columns <;> rfl

/-! ## Reading what was scanned -/

theorem clipped_eq_self_iff (bytes : ℕ) (text : List Char) :
    clipped bytes text = text ↔ byteLength text ≤ bytes := by
  induction text generalizing bytes with
  | nil => simp [clipped, byteLength]
  | cons c text ih =>
    rw [clipped, byteLength]
    split
    · next fits =>
      rw [List.cons_inj_right, ih]
      omega
    · next large => exact iff_of_false (by simp) (by omega)

theorem kept_eq_iff (name : String) :
    kept name.toList = name ↔ byteLength name.toList ≤ MAX_NAME_BYTES := by
  rw [kept, ← String.toList_inj, String.toList_ofList, clipped_eq_self_iff]

/-- A name that PostgreSQL can read at all: not empty, without a NUL, of 63 bytes at most. -/
structure Readable (name : String) : Prop where
  some_ : name ≠ ""
  text : ∀ x ∈ name.toList, x.toNat ≠ 0
  short : byteLength name.toList ≤ MAX_NAME_BYTES

theorem keywords_plain (name : String) (taken : NotColId name) : isPlain name = true := by
  have all : ∀ word ∈ reservedKeywords ++ typeFuncNameKeywords, isPlain word = true := by decide
  exact all name (List.mem_append.mpr taken)

theorem bareFunctions_taken : ∀ word ∈ bareFunctions, NotColId word := by decide

theorem delimited_eq_some {token : Token} :
    delimited text = some token ↔ text ≠ [] ∧ token = .quoted text := by
  unfold delimited
  split <;> simp_all [eq_comm]

theorem plain_ne_nil (plain : isPlain name = true) : name.toList ≠ [] := by
  intro none_
  simp [isPlain, none_] at plain

theorem plain_no_nul (plain : isPlain name = true) : ∀ x ∈ name.toList, x.toNat ≠ 0 :=
  fun x member => ((wordText_of_plain plain).cont x member).2

/-- A name is a token exactly if it has characters and no NUL. -/
theorem nameToken_some {token : Token} : nameToken name = some token ↔
    (name ≠ "" ∧ ∀ x ∈ name.toList, x.toNat ≠ 0) ∧
      token = if isPlain name then .word name.toList else .quoted name.toList := by
  have empty : name.toList ≠ [] ↔ name ≠ "" := not_congr String.toList_eq_nil_iff
  unfold nameToken
  by_cases plain : isPlain name = true
  · rw [if_pos plain, if_pos plain]
    constructor
    · intro h
      exact ⟨⟨empty.mp (plain_ne_nil plain), plain_no_nul plain⟩, (Option.some.inj h).symm⟩
    · rintro ⟨-, rfl⟩
      rfl
  · rw [if_neg plain, if_neg plain]
    split
    · next text =>
      rw [delimited_eq_some, empty]
      exact ⟨fun h => ⟨⟨h.1, text⟩, h.2⟩, fun h => ⟨h.1.1, h.2⟩⟩
    · next nul => exact iff_of_false (by simp) fun h => nul h.1.2

/-- A name is read back as a name exactly if it is readable and no keyword. -/
theorem colId_name : ((nameToken name).bind colId = some name) ↔
    Readable name ∧ ¬ NotColId name := by
  rw [Option.bind_eq_some_iff]
  simp only [nameToken_some]
  constructor
  · rintro ⟨token, ⟨⟨some_, text⟩, rfl⟩, read⟩
    split at read
    · simp only [colId, String.ofList_toList] at read
      split at read
      · cases read
      · next free => exact ⟨⟨some_, text, (kept_eq_iff name).mp (Option.some.inj read)⟩, free⟩
    · next quoted =>
      refine ⟨⟨some_, text, (kept_eq_iff name).mp (Option.some.inj read)⟩, fun taken => ?_⟩
      exact quoted (keywords_plain name taken)
  · rintro ⟨readable, free⟩
    refine ⟨_, ⟨⟨readable.some_, readable.text⟩, rfl⟩, ?_⟩
    have whole := (kept_eq_iff name).mpr readable.short
    split <;> simp [colId, free, whole]

theorem colLabel_name : ((nameToken name).bind colLabel = some name) ↔ Readable name := by
  rw [Option.bind_eq_some_iff]
  simp only [nameToken_some]
  constructor
  · rintro ⟨token, ⟨⟨some_, text⟩, rfl⟩, read⟩
    refine ⟨some_, text, (kept_eq_iff name).mp ?_⟩
    split at read <;> exact Option.some.inj read
  · intro readable
    refine ⟨_, ⟨⟨readable.some_, readable.text⟩, rfl⟩, ?_⟩
    have whole := (kept_eq_iff name).mpr readable.short
    split <;> simp [colLabel, whole]

/-- A column is read back as a key exactly if its name is. -/
theorem indexElem_name : ((nameToken name).bind indexElem = some (.column name)) ↔
    Readable name ∧ ¬ NotColId name := by
  rw [← colId_name]
  cases scanned : nameToken name with
  | none => simp
  | some token =>
    obtain ⟨-, rfl⟩ := nameToken_some.mp scanned
    rw [Option.bind_some, Option.bind_some]
    split
    · by_cases bare : name ∈ bareFunctions
      · simp [indexElem, colId, bare, bareFunctions_taken name bare]
      · simp [indexElem, bare, Option.map_eq_some_iff]
    · simp [indexElem, Option.map_eq_some_iff]

/-- The columns' tokens are read key by key; there must be one. -/
theorem indexParams_columns (columns : List String) :
    (columnTokens columns).bind indexParams =
      if columns = [] then none else columns.mapM fun column => (nameToken column).bind indexElem := by
  induction columns with
  | nil => rfl
  | cons column columns ih =>
    rw [if_neg (List.cons_ne_nil _ _), List.mapM_cons]
    cases columns with
    | nil =>
      rw [columnTokens]
      cases nameToken column with
      | none => rfl
      | some token => cases read : indexElem token <;> simp [indexParams, read]
    | cons next columns =>
      rw [if_neg (List.cons_ne_nil _ _)] at ih
      rw [columnTokens, ← ih]
      cases nameToken column with
      | none => rfl
      | some token =>
        cases columnTokens (next :: columns) with
        | none => simp
        | some tokens => simp [indexParams]

theorem mapM_eq_map_iff {α β : Type} {f : α → Option β} {g : α → β} {xs : List α} :
    xs.mapM f = some (xs.map g) ↔ ∀ x ∈ xs, f x = some (g x) := by
  induction xs with
  | nil => simp
  | cons x xs ih => simp [List.mapM_cons, Option.bind_eq_some_iff, ih]

theorem length_of_mapM {α β : Type} {f : α → Option β} {xs : List α} {ys : List β}
    (all : xs.mapM f = some ys) : ys.length = xs.length := by
  induction xs generalizing ys with
  | nil =>
    obtain rfl := Option.some.inj all
    rfl
  | cons x xs ih =>
    simp only [List.mapM_cons, Option.bind_eq_bind, Option.bind_eq_some_iff] at all
    obtain ⟨y, -, zs, rest, same⟩ := all
    obtain rfl := Option.some.inj same
    simp [ih rest]

/-- The keys are the first columns exactly if all columns are keys and are read back. -/
theorem keys_iff (columns : List String) (keyCount : ℕ) :
    (columnTokens columns).bind indexParams = some ((columns.take keyCount).map .column) ↔
      columns ≠ [] ∧ columns.length ≤ keyCount ∧ ∀ c ∈ columns, Readable c ∧ ¬ NotColId c := by
  rw [indexParams_columns]
  split
  · next none_ => simp [none_]
  · next some_ =>
    constructor
    · intro read
      have count := length_of_mapM read
      rw [List.length_map, List.length_take] at count
      have all : columns.length ≤ keyCount := by omega
      rw [List.take_of_length_le all] at read
      exact ⟨some_, all, fun c member => indexElem_name.mp (mapM_eq_map_iff.mp read c member)⟩
    · rintro ⟨-, all, each⟩
      rw [List.take_of_length_le all]
      exact mapM_eq_map_iff.mpr fun c member => indexElem_name.mpr (each c member)

theorem keyword_inj {a b : String} : keyword a = keyword b ↔ a = b := by
  rw [keyword, keyword, Token.word.injEq, String.toList_inj]

theorem colId_keyword {word : String} (taken : NotColId word) : colId (keyword word) = none := by
  simp [colId, keyword, taken]

/-- What is read of the index's name, its tokens being those of a rendered statement. -/
theorem optSingleName_rendered {index schema : Token} {tokens : List Token} :
    optSingleName (index :: keyword "on" :: schema :: tokens) =
      if index = keyword "on" then some (none, index :: keyword "on" :: schema :: tokens)
      else (colId index).map fun name => (some name, keyword "on" :: schema :: tokens) := by
  unfold optSingleName
  dsimp only
  split
  · rfl
  · cases tokens with
    | nil => rfl
    | cons third tokens =>
      have other : [index, keyword "on", schema] ≠ ["if", "not", "exists"].map keyword := by
        simp [keyword_inj]
      dsimp only
      rw [if_neg other]

theorem name_of_indexStmtOn {unique : Bool} {name : Option String} {tokens : List Token}
    {stmt : IndexStmt} (read : indexStmtOn unique name tokens = some stmt) : stmt.name = name := by
  simp only [indexStmtOn, Option.bind_eq_bind, Option.bind_eq_some_iff] at read
  obtain ⟨_, _, ⟨⟨_, _⟩, _⟩, _, ⟨_, _⟩, _, read⟩ := read
  split at read
  · obtain ⟨keys, -, rfl⟩ := Option.map_eq_some_iff.mp read
    rfl
  · cases read

theorem accessMethodClause_rendered (accessMethod : AccessMethod) (tokens : List Token) :
    accessMethodClause (keyword "using" :: keyword accessMethod.name :: tokens) =
      some (accessMethod.name, tokens) := by
  have whole := (kept_eq_iff accessMethod.name).mpr accessMethod.short
  simp [accessMethodClause, optKeyword, colId, keyword, accessMethod.free, whole]

theorem qualifiedName_sym (tokens : List Token) : qualifiedName (.sym '.' :: tokens) = none := by
  unfold qualifiedName
  split
  · next same =>
    obtain ⟨rfl, -⟩ := List.cons.inj same
    rfl
  · next same =>
    obtain ⟨rfl, -⟩ := List.cons.inj same
    rfl
  · rfl

/-- From `ON` on, the table's name, the method and the keys are read off their tokens. -/
theorem indexStmtOn_rendered {unique : Bool} {name : Option String} {schema table : Token}
    {accessMethod : AccessMethod} {columns : List Token} {schemaName tableName : String}
    {keys : List Key} :
    indexStmtOn unique name (keyword "on" :: schema :: .sym '.' :: table :: keyword "using" ::
        keyword accessMethod.name :: .sym '(' :: columns) =
      some ⟨unique, name, some schemaName, tableName, accessMethod.name, keys⟩ ↔
      colId schema = some schemaName ∧ colLabel table = some tableName ∧
        indexParams columns = some keys := by
  have on : ∀ tokens, expectKeyword "on" (keyword "on" :: tokens) = some tokens := by
    simp [expectKeyword]
  rw [indexStmtOn, on]
  by_cases only : schema = keyword "only"
  · subst only
    have refused : colId (keyword "only") = none := colId_keyword (by decide)
    simp [optKeyword, qualifiedName_sym, refused]
  · simp only [optKeyword, only, if_false, qualifiedName, Option.bind_eq_bind, Option.bind_some]
    cases colId schema with
    | none => simp
    | some first =>
      cases colLabel table with
      | none => simp
      | some second =>
        simp only [Option.bind_some, accessMethodClause_rendered, Option.pure_def]
        cases indexParams columns with
        | none => simp
        | some read => simp

/-- A rendered statement is read as the names, the method and the keys its tokens are. -/
theorem indexStmt_rendered {isUnique : Bool} {index schema table : Token}
    {accessMethod : AccessMethod} {columns : List Token} {indexName schemaName tableName : String}
    {keys : List Key} :
    indexStmt (renderedTokens isUnique index schema table accessMethod.name columns) =
      some ⟨isUnique, some indexName, some schemaName, tableName, accessMethod.name, keys⟩ ↔
      colId index = some indexName ∧ colId schema = some schemaName ∧
        colLabel table = some tableName ∧ indexParams columns = some keys := by
  have unnamed : ∀ tokens, indexStmtOn isUnique none tokens ≠
      some ⟨isUnique, some indexName, some schemaName, tableName, accessMethod.name, keys⟩ := by
    intro tokens read
    cases name_of_indexStmtOn read
  have started : ∀ tokens, indexStmt (keyword "create" ::
      ((if isUnique then [keyword "unique"] else []) ++ keyword "index" :: tokens)) =
        (optSingleName (optKeyword "concurrently" tokens).2).bind fun (name, tokens) =>
          indexStmtOn isUnique name tokens := by
    intro tokens
    cases isUnique <;> simp [indexStmt, expectKeyword, optKeyword, keyword_inj]
  rw [renderedTokens, started]
  by_cases concurrently : index = keyword "concurrently"
  · subst concurrently
    have refused : colId (keyword "concurrently") = none := colId_keyword (by decide)
    simp [optKeyword, optSingleName, refused, unnamed]
  · simp only [optKeyword, concurrently, if_false, optSingleName_rendered]
    by_cases on : index = keyword "on"
    · subst on
      have refused : colId (keyword "on") = none := colId_keyword (by decide)
      simp [refused, unnamed]
    · rw [if_neg on]
      cases colId index with
      | none => simp
      | some name =>
        rw [Option.map_some, Option.bind_some, Option.some_inj]
        by_cases same : name = indexName
        · subst same
          simp [indexStmtOn_rendered]
        · refine iff_of_false (fun read => ?_) fun h => same h.1
          exact same (Option.some.inj (name_of_indexStmtOn read)).symm

end

/-- The text is a statement for the index: its names, its method, and for keys the first columns. -/
def Denotes (isUnique : Bool) (indexName schemaName tableName : String)
    (accessMethod : AccessMethod) (columns : List String) (keyCount : ℕ) : Prop :=
  parseCreateIndex (renderCreateIndexStatement isUnique indexName schemaName tableName
    accessMethod.name columns) =
    some ⟨isUnique, some indexName, some schemaName, tableName, accessMethod.name,
      (columns.take keyCount).map .column⟩

/-- What the text does not get wrong: unreadable names, keywords where only a name that is none
may stand, columns that are no keys, and no column at all. -/
structure Spellable (indexName schemaName tableName : String) (columns : List String)
    (keyCount : ℕ) : Prop where
  index : Readable indexName ∧ ¬ NotColId indexName
  schema : Readable schemaName ∧ ¬ NotColId schemaName
  table : Readable tableName
  keys : columns ≠ [] ∧ columns.length ≤ keyCount ∧ ∀ c ∈ columns, Readable c ∧ ¬ NotColId c

/-- The rendered text denotes its index exactly if everything in it can be spelled that way. -/
theorem denotes_iff (isUnique : Bool) (indexName schemaName tableName : String)
    (accessMethod : AccessMethod) (columns : List String) (keyCount : ℕ) :
    Denotes isUnique indexName schemaName tableName accessMethod columns keyCount ↔
      Spellable indexName schemaName tableName columns keyCount := by
  rw [Denotes, parseCreateIndex, scan_render]
  simp only [Option.bind_eq_some_iff, Option.map_eq_some_iff]
  constructor
  · rintro ⟨_, ⟨index, scanned, schema, scanned', table, scanned'', tokens, columns', rfl⟩, read⟩
    obtain ⟨named, named', named'', keys⟩ := indexStmt_rendered.mp read
    refine ⟨colId_name.mp ?_, colId_name.mp ?_, colLabel_name.mp ?_, (keys_iff _ _).mp ?_⟩
    · rw [scanned, Option.bind_some, named]
    · rw [scanned', Option.bind_some, named']
    · rw [scanned'', Option.bind_some, named'']
    · rw [columns', Option.bind_some, keys]
  · rintro ⟨index, schema, table, keys⟩
    obtain ⟨first, scanned, named⟩ := Option.bind_eq_some_iff.mp (colId_name.mpr index)
    obtain ⟨second, scanned', named'⟩ := Option.bind_eq_some_iff.mp (colId_name.mpr schema)
    obtain ⟨third, scanned'', named''⟩ := Option.bind_eq_some_iff.mp (colLabel_name.mpr table)
    obtain ⟨tokens, columns', keys'⟩ := Option.bind_eq_some_iff.mp ((keys_iff _ _).mpr keys)
    exact ⟨_, ⟨first, scanned, second, scanned', third, scanned'', tokens, columns', rfl⟩,
      indexStmt_rendered.mpr ⟨named, named', named'', keys'⟩⟩

example : parseCreateIndex "CREATE INDEX \"MyIdx\" ON public.\"My Table\" USING btree (\"Col\"\"1\", id)"
    = some ⟨false, some "MyIdx", some "public", "My Table", "btree", [.column "Col\"1", .column "id"]⟩ := by
  decide +kernel

end PgCatalog.UserFunctions
