import PgCatalog.UserFunctions.IndexDefinition

/-! `format(formatstr, ...)`: the specifiers the code knows, what their parts read as, and
PostgreSQL's own reading of the format string. -/
namespace PgCatalog.UserFunctions

open Library

inductive Conversion where
  | string
  | identifier
  | literal
  deriving DecidableEq, Repr

/-- The text of one conversion; an argument is none where it is NULL or missing. -/
def Conversion.text : Conversion → Option (List Char) → List Char
  | .string, v => v.getD []
  | .identifier, v => '"' :: doubled '"' (v.getD []) ++ ['"']
  | .literal, none => "NULL".toList
  | .literal, some s => '\'' :: doubled '\'' s ++ ['\'']

/-- The loop, with the next argument. -/
def renderFrom (args : List (Option (List Char))) (nextArg : Nat) : List Char → List Char
  | [] => []
  | '%' :: [] => ['%']
  | '%' :: '%' :: rest => '%' :: renderFrom args nextArg rest
  | '%' :: 's' :: rest =>
    Conversion.string.text args[nextArg]?.join ++ renderFrom args (nextArg + 1) rest
  | '%' :: 'I' :: rest =>
    Conversion.identifier.text args[nextArg]?.join ++ renderFrom args (nextArg + 1) rest
  | '%' :: 'L' :: rest =>
    Conversion.literal.text args[nextArg]?.join ++ renderFrom args (nextArg + 1) rest
  -- An unknown specifier stays as it is.
  | '%' :: other :: rest => '%' :: other :: renderFrom args nextArg rest
  | c :: rest => c :: renderFrom args nextArg rest

def renderFormatString (fmt : String) (args : List (Option String)) : String :=
  String.ofList (renderFrom (args.map (·.map String.toList)) 0 fmt.toList)

/-! ## The format string taken apart -/

inductive Directive where
  | copied (c : Char)
  | percent
  | conversion (kind : Conversion)
  | unknown (c : Char)
  | trailing
  deriving DecidableEq

def conversionOf (c : Char) : Option Conversion :=
  if c = 's' then some .string else if c = 'I' then some .identifier
  else if c = 'L' then some .literal else none

def directiveAfter (c : Char) : Directive :=
  if c = '%' then .percent
  else match conversionOf c with
    | some kind => .conversion kind
    | none => .unknown c

def directives : List Char → List Directive
  | [] => []
  | c :: rest =>
    if c ≠ '%' then .copied c :: directives rest
    else match rest with
      | [] => [.trailing]
      | c :: rest => directiveAfter c :: directives rest

/-- The characters of the format string that a directive is. -/
def Directive.source : Directive → List Char
  | .copied c => [c]
  | .percent => ['%', '%']
  | .conversion .string => ['%', 's']
  | .conversion .identifier => ['%', 'I']
  | .conversion .literal => ['%', 'L']
  | .unknown c => ['%', c]
  | .trailing => ['%']

/-- A part of the result. -/
inductive Piece where
  | copied (text : List Char)
  | converted (kind : Conversion) (arg : Option (List Char))
  deriving DecidableEq

def Piece.text : Piece → List Char
  | .copied text => text
  | .converted kind arg => kind.text arg

/-- Each conversion takes the next argument. -/
def assigned : List Directive → List (Option (List Char)) → List Piece
  | [], _ => []
  | .conversion kind :: rest, args => .converted kind args.head?.join :: assigned rest args.tail
  | .copied c :: rest, args => .copied [c] :: assigned rest args
  | .percent :: rest, args => .copied ['%'] :: assigned rest args
  | .unknown c :: rest, args => .copied ['%', c] :: assigned rest args
  | .trailing :: rest, args => .copied ['%'] :: assigned rest args

def pieces (fmt : String) (args : List (Option String)) : List Piece :=
  assigned (directives fmt.toList) (args.map (·.map String.toList))

def Piece.argument : Piece → Option (Option (List Char))
  | .copied _ => none
  | .converted _ arg => some arg

/-! ## String constants -/

/-- The rest of a string constant after its opening quote, where a backslash is a character. -/
def readQuoted : List Char → Option (List Char)
  | [] => none
  | '\'' :: [] => some []
  | '\'' :: '\'' :: rest => (readQuoted rest).map ('\'' :: ·)
  | '\'' :: _ => none
  | c :: rest => if c.toNat = 0 then none else (readQuoted rest).map (c :: ·)

/-- The value of a text that is one string constant. -/
def readLiteral : List Char → Option (List Char)
  | '\'' :: rest => readQuoted rest
  | _ => none

/-! ## PostgreSQL's `format` -/

/-- What is between the percent sign and the type of a specifier. -/
structure FormatSpec where
  argpos : Option Nat
  /-- An indirect width, from the argument at a position or from the next. -/
  widthpos : Option (Option Nat)
  minus : Bool
  width : Nat
  deriving DecidableEq

/-- Decimal digits; an error where the text ends within them or the number is too large. -/
def parseDigits (n : Nat) (found : Bool) : List Char → Option (Option Nat × List Char)
  | [] => none
  | c :: rest =>
    if c.isDigit then
      if 10 * n + (c.toNat - 48) < 2 ^ 31 then parseDigits (10 * n + (c.toNat - 48)) true rest
      else none
    else some (if found then some n else none, c :: rest)

def parseFlags (minus : Bool) : List Char → Option (Bool × List Char)
  | [] => none
  | c :: rest => if c = '-' then parseFlags true rest else some (minus, c :: rest)

/-- Flags and width. -/
def parseWidth (argpos : Option Nat) (cs : List Char) : Option (FormatSpec × List Char) := do
  let (minus, cs) ← parseFlags false cs
  if cs.head? = some '*' then
    let (n, cs) ← parseDigits 0 false cs.tail
    match n with
    | none => return (⟨argpos, some none, minus, 0⟩, cs)
    | some n =>
      if cs.head? ≠ some '$' || n = 0 || cs.tail = [] then none
      else return (⟨argpos, some (some n), minus, 0⟩, cs.tail)
  else
    let (n, cs) ← parseDigits 0 false cs
    return (⟨argpos, none, minus, n.getD 0⟩, cs)

/-- `text_format_parse_format`: what comes before the type, and the text from the type on. -/
def parseFormat (cs : List Char) : Option (FormatSpec × List Char) := do
  let (n, afterDigits) ← parseDigits 0 false cs
  match n with
  | none => parseWidth none cs
  | some n =>
    if afterDigits.head? ≠ some '$' then return (⟨none, none, false, n⟩, afterDigits)
    else if n = 0 then none
    else parseWidth (some n) afterDigits.tail

/-- A part of what PostgreSQL writes: a character, or a conversion padded to a width. -/
inductive Output where
  | copied (c : Char)
  | converted (kind : Conversion) (arg : Option (List Char)) (minus : Bool) (width : Int)
  deriving DecidableEq

/-- The width and the next argument; how a width is read off an argument is a parameter. -/
def indirectWidth (widthOf : List Char → Option Int) (args : List (Option (List Char)))
    (arg : Nat) (spec : FormatSpec) : Option (Int × Nat) :=
  match spec.widthpos with
  | none => some (spec.width, arg)
  | some pos => do
    let here := (pos.map (· - 1)).getD arg
    let value ← args[here]?
    let width ← value.elim (some 0) widthOf
    -- The smallest integer has no absolute value.
    if width ≤ -2147483648 then none else return (width, here + 1)

/-- `text_format` from a position of the format string on, where it raises no error. -/
inductive PgWrites (widthOf : List Char → Option Int) (args : List (Option (List Char))) :
    Nat → List Char → List Output → Prop where
  | done {arg : Nat} : PgWrites widthOf args arg [] []
  | copied {arg : Nat} {c : Char} {cs : List Char} {out : List Output} (other : c ≠ '%')
      (rest : PgWrites widthOf args arg cs out) :
      PgWrites widthOf args arg (c :: cs) (.copied c :: out)
  | percent {arg : Nat} {cs : List Char} {out : List Output}
      (rest : PgWrites widthOf args arg cs out) :
      PgWrites widthOf args arg ('%' :: '%' :: cs) (.copied '%' :: out)
  | conversion {arg next here : Nat} {c : Char} {cs after : List Char} {out : List Output}
      {spec : FormatSpec} {kind : Conversion} {width : Int} {value : Option (List Char)}
      (other : cs.head? ≠ some '%')
      (parsed : parseFormat cs = some (spec, c :: after))
      (known : conversionOf c = some kind)
      (wide : indirectWidth widthOf args arg spec = some (width, next))
      (position : here = (spec.argpos.map (· - 1)).getD next)
      (argument : args[here]? = some value)
      (named : kind = .identifier → value ≠ none)
      (rest : PgWrites widthOf args (here + 1) after out) :
      PgWrites widthOf args arg ('%' :: cs) (.converted kind value spec.minus width :: out)

/-- The value of a text that is one name. -/
def readIdentifier (text : List Char) : Option String :=
  match scan .between text with
  | some [token] => colId token
  | _ => none

/-- What a conversion's text has to read as. -/
def Conversion.Names : Conversion → Option (List Char) → List Char → Prop
  | .string, v, text => text = v.getD []
  | .identifier, v, text => readIdentifier text = v.map String.ofList
  | .literal, none, text => text = "NULL".toList
  | .literal, some v, text => readLiteral text = some v

def padded (minus : Bool) (width : Int) (text : List Char) : List Char :=
  if minus ∨ width < 0 then text ++ List.replicate (width.natAbs - text.length) ' '
  else List.replicate (width.natAbs - text.length) ' ' ++ text

def Output.Spelled : Output → List Char → Prop
  | .copied c, text => text = [c]
  | .converted kind v minus width, text =>
    ∃ bare, kind.Names v bare ∧ text = padded minus width bare

/-- A text that has a part for each of PostgreSQL's, which reads as that one does. -/
def Spelled (out : List Output) (text : List Char) : Prop :=
  ∃ parts : List (List Char), text = parts.flatten ∧ List.Forall₂ Output.Spelled out parts

/-! ## What the result is -/

/-- What a directive of the format string becomes. -/
inductive Directive.Gives : Directive → Piece → Prop where
  | copied (c : Char) : Gives (.copied c) (.copied [c])
  | percent : Gives .percent (.copied ['%'])
  | conversion (kind : Conversion) (arg : Option (List Char)) :
      Gives (.conversion kind) (.converted kind arg)
  | unknown (c : Char) : Gives (.unknown c) (.copied ['%', c])
  | trailing : Gives .trailing (.copied ['%'])

/-- The result consists of the format string's parts in order, the conversions with the
arguments in order. -/
structure Composed (fmt : String) (args : List (Option String)) : Prop where
  text : (renderFormatString fmt args).toList = (pieces fmt args).flatMap Piece.text
  source : (directives fmt.toList).flatMap Directive.source = fmt.toList
  parts : List.Forall₂ Directive.Gives (directives fmt.toList) (pieces fmt args)
  arguments : ∀ (i : Nat) (value : Option (List Char)),
    ((pieces fmt args).filterMap Piece.argument)[i]? = some value →
      value = args[i]?.join.map String.toList

/-- Every conversion reads as its argument, and where PostgreSQL writes a text, so does it. -/
structure FormatRight (widthOf : List Char → Option Int) (fmt : String)
    (args : List (Option String)) : Prop extends Composed fmt args where
  literals : ∀ v, .converted .literal v ∈ pieces fmt args →
    Conversion.literal.Names v (Conversion.literal.text v)
  identifiers : ∀ name, .converted .identifier (some name) ∈ pieces fmt args →
    Conversion.identifier.Names (some name) (Conversion.identifier.text (some name))
  postgres : ∀ out, PgWrites widthOf (args.map (·.map String.toList)) 0 fmt.toList out →
    Spelled out (renderFormatString fmt args).toList

/-- A percent sign before a position, a flag or a width. -/
def Directive.Extended : Directive → Prop
  | .unknown c => c.isDigit = true ∨ c = '-' ∨ c = '*'
  | _ => False

/-- A part as PostgreSQL writes it without padding. -/
def Piece.outputs : Piece → List Output
  | .copied text => text.map .copied
  | .converted kind arg => [.converted kind arg false 0]

/-- Every conversion of a text, and of a name that can be one, reads as its argument; a format
string without positions, flags and widths that PostgreSQL accepts gets the parts it writes. -/
structure FormatSound (widthOf : List Char → Option Int) (fmt : String)
    (args : List (Option String)) : Prop extends Composed fmt args where
  null : Conversion.literal.Names none (Conversion.literal.text none)
  literals : ∀ v, .converted .literal (some v) ∈ pieces fmt args →
    (Conversion.literal.Names (some v) (Conversion.literal.text (some v)) ↔ NulFree v)
  identifiers : ∀ name, .converted .identifier (some name) ∈ pieces fmt args →
    (Conversion.identifier.Names (some name) (Conversion.identifier.text (some name)) ↔
      Readable (String.ofList name))
  postgres : (∀ d ∈ directives fmt.toList, ¬ d.Extended) →
    ∀ out, PgWrites widthOf (args.map (·.map String.toList)) 0 fmt.toList out →
      out = (pieces fmt args).flatMap Piece.outputs

/-! ## The parts of the result -/

theorem directives_copied {c : Char} (other : c ≠ '%') (rest : List Char) :
    directives (c :: rest) = .copied c :: directives rest := by
  cases rest <;> simp [directives, other]

theorem directives_mark (c : Char) (rest : List Char) :
    directives ('%' :: c :: rest) = directiveAfter c :: directives rest := by
  simp [directives]

theorem directiveAfter_source (c : Char) : (directiveAfter c).source = ['%', c] := by
  unfold directiveAfter
  by_cases mark : c = '%'
  · simp [mark, Directive.source]
  · rw [if_neg mark, conversionOf]
    by_cases string : c = 's'
    · simp [string, Directive.source]
    · by_cases name : c = 'I'
      · simp [name, Directive.source]
      · by_cases literal : c = 'L' <;> simp [string, name, literal, Directive.source]

theorem directives_source (cs : List Char) : (directives cs).flatMap Directive.source = cs := by
  fun_induction directives cs with
  | case1 => rfl
  | case2 c rest other ih => simp [Directive.source, ih]
  | case3 c mark => simp_all [Directive.source]
  | case4 c mark c' rest ih => simp_all [directiveAfter_source]

theorem assigned_gives (ds : List Directive) (args : List (Option (List Char))) :
    List.Forall₂ Directive.Gives ds (assigned ds args) := by
  induction ds generalizing args with
  | nil => exact .nil
  | cons d ds ih => cases d <;> exact .cons (by constructor) (ih _)

theorem assigned_arguments {ds : List Directive} {args : List (Option (List Char))} {i : Nat}
    {value : Option (List Char)}
    (here : ((assigned ds args).filterMap Piece.argument)[i]? = some value) :
    value = args[i]?.join := by
  induction ds generalizing args i with
  | nil => simp [assigned] at here
  | cons d ds ih =>
    cases d with
    | conversion kind =>
      cases i with
      | zero => simp_all [assigned, Piece.argument, List.head?_eq_getElem?]
      | succ i =>
        have later : value = args.tail[i]?.join :=
          ih (by simpa [assigned, Piece.argument] using here)
        simpa using later
    | _ => exact ih (by simpa only [assigned, List.filterMap_cons, Piece.argument] using here)

theorem renderFrom_eq (args : List (Option (List Char))) (nextArg : Nat) (cs : List Char) :
    renderFrom args nextArg cs =
      (assigned (directives cs) (args.drop nextArg)).flatMap Piece.text := by
  fun_induction renderFrom args nextArg cs with
  | case1 nextArg => rfl
  | case2 nextArg => rfl
  | case3 nextArg rest ih => simp [directives_mark, directiveAfter, assigned, Piece.text, ih]
  | case4 nextArg rest ih =>
    simp [directives_mark, directiveAfter, conversionOf, assigned, Piece.text, ih]
  | case5 nextArg rest ih =>
    simp [directives_mark, directiveAfter, conversionOf, assigned, Piece.text, ih]
  | case6 nextArg rest ih =>
    simp [directives_mark, directiveAfter, conversionOf, assigned, Piece.text, ih]
  | case7 nextArg other rest notMark notString notName notLiteral ih =>
    have unknown : directiveAfter other = .unknown other := by
      simp_all [directiveAfter, conversionOf]
    simp [directives_mark, unknown, assigned, Piece.text, ih]
  | case8 nextArg c rest h1 h2 h3 h4 h5 h6 ih =>
    have plain : c ≠ '%' := by
      rintro rfl
      cases rest <;> simp_all
    simp [directives_copied plain, assigned, Piece.text, ih]

theorem composed (fmt : String) (args : List (Option String)) : Composed fmt args where
  text := by simp [renderFormatString, renderFrom_eq, pieces]
  source := directives_source _
  parts := assigned_gives _ _
  arguments i value here := by
    rw [assigned_arguments here, List.getElem?_map]
    cases args[i]? <;> rfl

/-! ## What the conversions read as -/

theorem nulFree_cons {c : Char} {s : List Char} :
    NulFree (c :: s) ↔ c.toNat ≠ 0 ∧ NulFree s := List.forall_mem_cons

theorem readQuoted_doubled (s : List Char) :
    readQuoted (doubled '\'' s ++ ['\'']) = if NulFree s then some s else none := by
  induction s with
  | nil => simp [doubled_nil, readQuoted, NulFree]
  | cons c s ih =>
    by_cases mark : c = '\''
    · subst mark
      rw [doubled_cons_self, List.cons_append, List.cons_append, readQuoted, ih]
      by_cases free : NulFree s <;> simp [nulFree_cons, free]
    · rw [doubled_cons_of_ne mark, List.cons_append]
      by_cases nul : c.toNat = 0
      · simp [readQuoted, mark, nul, nulFree_cons]
      · by_cases free : NulFree s <;> simp [readQuoted, mark, nul, ih, nulFree_cons, free]

theorem literal_names (v : List Char) :
    Conversion.literal.Names (some v) (Conversion.literal.text (some v)) ↔ NulFree v := by
  simp [Conversion.Names, Conversion.text, readLiteral, readQuoted_doubled]

/-- A blank after a text ends what the end of the text ends. -/
theorem scan_append_blank (state : Scanning) (text : List Char) :
    scan state (text ++ [' ']) = scan state text := by
  induction text generalizing state with
  | nil =>
    have blank : opened ' ' = ([], .between) := by decide
    have apart : isIdentCont ' ' = false := by decide
    cases state with
    | closing read => cases here : delimited read <;> simp [scan, scanStep, scanEnd, blank, here]
    | _ => simp [scan, scanStep, scanEnd, blank, apart]
  | cons c text ih => simp [scan, ih]

theorem scan_delimited (name : List Char) :
    scan .between ('"' :: doubled '"' name ++ ['"']) =
      if NulFree name then (delimited name).map ([·]) else none := by
  have opens : scanStep .between '"' = some ([], .quoted []) := by decide
  have closed : scan .between [' '] = some [] := by decide
  rw [← scan_append_blank, List.append_assoc, List.cons_append, scan_cons _ (by decide), opens,
    Option.bind_some]
  simp only [List.nil_append, Option.map_id', List.singleton_append]
  rw [scan_quoted_rest ends_blank, closed, List.nil_append]
  cases delimited name <;> rfl

theorem identifier_names (name : List Char) :
    Conversion.identifier.Names (some name) (Conversion.identifier.text (some name)) ↔
      Readable (String.ofList name) := by
  have whole := kept_eq_iff (String.ofList name)
  rw [String.toList_ofList] at whole
  have readable : Readable (String.ofList name) ↔
      (name ≠ [] ∧ NulFree name) ∧ kept name = String.ofList name := by
    rw [whole]
    constructor
    · rintro ⟨some_, text, short⟩
      exact ⟨⟨by simpa using some_, by simpa [NulFree] using text⟩, by simpa using short⟩
    · rintro ⟨⟨some_, text⟩, short⟩
      exact ⟨by simpa using some_, by simpa [NulFree] using text, by simpa using short⟩
  simp only [Conversion.Names, Conversion.text, Option.getD_some, Option.map_some, readIdentifier,
    scan_delimited, readable]
  by_cases free : NulFree name
  · by_cases empty : name = []
    · simp [empty, delimited]
    · simp [free, empty, delimited, colId]
  · simp [free]

/-! ## Where PostgreSQL writes a text -/

theorem parseFormat_plain {c : Char} (plain : ¬ (c.isDigit = true ∨ c = '-' ∨ c = '*'))
    (cs : List Char) : parseFormat (c :: cs) = some (⟨none, none, false, 0⟩, c :: cs) := by
  simp only [not_or] at plain
  simp [parseFormat, parseWidth, parseDigits, parseFlags, plain]

theorem conversionOf_extended {c : Char} (extended : c.isDigit = true ∨ c = '-' ∨ c = '*') :
    conversionOf c = none := by
  have other : ¬ (c = 's' ∨ c = 'I' ∨ c = 'L') := by
    rintro (rfl | rfl | rfl) <;> exact absurd extended (by decide)
  simp only [not_or] at other
  simp [conversionOf, other]

theorem written_plain {widthOf : List Char → Option Int} {args : List (Option (List Char))}
    {arg : Nat} {cs : List Char} {out : List Output} (writes : PgWrites widthOf args arg cs out)
    (plain : ∀ d ∈ directives cs, ¬ d.Extended) :
    out = (assigned (directives cs) (args.drop arg)).flatMap Piece.outputs := by
  induction writes with
  | done => rfl
  | copied other rest ih =>
    simp_all [directives_copied, assigned, Piece.outputs]
  | percent rest ih =>
    simp_all [directives_mark, directiveAfter, assigned, Piece.outputs]
  | conversion other parsed known wide position argument named rest ih =>
    next arg nextArg here c cs after out spec kind width value =>
    cases cs with
    | nil => simp [parseFormat, parseDigits] at parsed
    | cons c' cs =>
      rw [directives_mark] at plain ⊢
      have mark : c' ≠ '%' := by simpa using other
      have bare : ¬ (c'.isDigit = true ∨ c' = '-' ∨ c' = '*') := by
        intro extended
        have unknown : directiveAfter c' = .unknown c' := by
          rw [directiveAfter, if_neg mark, conversionOf_extended extended]
        exact plain (.unknown c') (by simp [unknown]) extended
      rw [parseFormat_plain bare] at parsed
      cases parsed
      have here : directiveAfter c = .conversion kind := by simp [directiveAfter, mark, known]
      obtain ⟨rfl, rfl⟩ : 0 = width ∧ arg = nextArg := by simpa [indirectWidth] using wide
      rw [here, assigned, ih fun d member => plain d (List.mem_cons_of_mem _ member)]
      obtain rfl : _ = arg := position
      simp [Piece.outputs, argument]

/-- The text consists of the format string's parts and reads as its arguments, and is what
PostgreSQL writes where the format string has neither positions nor flags nor widths. -/
theorem format_sound (widthOf : List Char → Option Int) (fmt : String)
    (args : List (Option String)) : FormatSound widthOf fmt args where
  toComposed := composed fmt args
  null := rfl
  literals v _ := literal_names v
  identifiers name _ := identifier_names name
  postgres plain _ writes := written_plain writes plain

/-- A specifier with a position stays as it is, where PostgreSQL writes its argument. -/
theorem positional_stays : ¬ FormatRight (fun _ => none) "%1$s" [some "a"] := by
  intro right
  have parsed : parseFormat ['1', '$', 's'] = some (⟨some 1, none, false, 0⟩, ['s']) := by decide
  have writes : PgWrites (fun _ => none) [some ['a']] 0 "%1$s".toList
      [.converted .string (some ['a']) false 0] :=
    .conversion (by decide) parsed (by decide) rfl rfl rfl (by simp) .done
  obtain ⟨parts, text, spelled⟩ := right.postgres _ writes
  obtain ⟨part, rest, ⟨bare, rfl, rfl⟩, later, rfl⟩ := List.forall₂_cons_left_iff.mp spelled
  obtain rfl := List.forall₂_nil_left_iff.mp later
  exact absurd text (by decide)

example : renderFormatString "CHECK %I = %L -- 5%% %d" [some "a\"b", some "it's"] =
    "CHECK \"a\"\"b\" = 'it''s' -- 5% %d" := by decide

end PgCatalog.UserFunctions
