import PgCatalog.CleanDuplicateColumns.Alias
import PgCatalog.Library.ByteOffsets
import PgCatalog.Library.Text
import PgCatalog.Semantics.Grouping
import PgCatalog.Semantics.Naturals
import PgCatalog.Sql.Statement

/-! `rewrite_group_by_for_any`: the columns it reads out of the printed projection, and when
grouping by them as well changes nothing. -/
namespace PgCatalog.Replace

open Sql Library Semantics CleanDuplicateColumns

/-- How expressions print, and letter case beyond ASCII. -/
structure Printing where
  display : Expr → String
  uppercase : Char → List Char
  lowercase : String → String

section
variable (P : Printing)

def Printing.upper (c : Char) : List Char :=
  if c.toNat < 128 then [c.toUpper] else P.uppercase c

/-- `rendered`: the printed expression without its spaces. -/
def Printing.rendered (e : Expr) : List Char := (P.display e).toList.filter (· ≠ ' ')

def anyCall : List Char := ['A', 'N', 'Y', '(']

/-- Where the argument of the first `ANY(` starts in the upper-cased text and how long it is
there, in bytes. -/
def anyArgument (e : Expr) : Option (Nat × Nat) := do
  let (before, after) ← cutAt anyCall ((P.rendered e).flatMap P.upper)
  let (inside, _) ← cutAt [')'] after
  return (byteLength before + 4, byteLength inside)

/-- An array literal or a quoted string. -/
def isLiteralArgument (argument : List Char) : Bool :=
  "ARRAY[".toList.isPrefixOf (argument.flatMap P.upper) || argument.head? = some '\x7b' ||
    argument.head? = some '\''

/-- `None` on the outside where the slice panics. -/
def extractAnyColumnName (e : Expr) : Option (Option String) :=
  match anyArgument P e with
  | none => some none
  | some (start, length) =>
    (sliceBytes start length (P.rendered e)).map fun argument =>
      if isLiteralArgument P argument then none else some (String.ofList argument)

def newKey (name : String) : Expr :=
  if name.toList.contains '.' then .compoundIdentifier ((split '.' name).map Ident.new)
  else .identifier (Ident.new name)

def selectedExpr : SelectItem → Option Expr
  | .unnamedExpr e => some e
  | .exprWithAlias e _ => some e
  | _ => none

/-- The keys pushed for a projection, `seen` being the lower-case texts of those there are. -/
def newKeys (seen : List String) : List SelectItem → Option (List Expr)
  | [] => some []
  | item :: rest =>
    match selectedExpr item with
    | none => newKeys seen rest
    | some e =>
      match extractAnyColumnName P e with
      | none => none
      | some none => newKeys seen rest
      | some (some name) =>
        if P.lowercase name ∈ seen then newKeys seen rest
        else (newKeys (P.lowercase name :: seen) rest).map fun more => newKey name :: more

/-- The lower-case texts of the keys a query is grouped by. -/
def seenKeys (keys : List Expr) : List String := keys.map fun e => P.lowercase (P.display e)

def groupByForAny : Query → Option Query
  | ⟨with_, .select ⟨distinct, projection, from_, selection, .expressions (key :: keys), having⟩,
      orderBy, limit, offset⟩ =>
    (newKeys P (seenKeys P (key :: keys)) projection).map fun more =>
      ⟨with_, .select ⟨distinct, projection, from_, selection,
        .expressions (key :: keys ++ more), having⟩, orderBy, limit, offset⟩
  | q => some q

/-- The statements rewritten, unless a slice panics. -/
def rewriteGroupByForAny (statements : List Statement) : Option (List Statement) :=
  statements.mapM fun
    | .query q => (groupByForAny P q).map .query
    | statement => some statement

end

/-! ## What a projection compares with ANY -/

section
variable (aggregate : ObjectName → Bool)

mutual

/-- The expressions inside one that belong to its SELECT and stand in no aggregate call. -/
def outside : Expr → List Expr
  | e@(.identifier _) => [e]
  | e@(.compoundIdentifier _) => [e]
  | e@(.value _) => [e]
  | e@(.binaryOp left _ right) => e :: (outside left ++ outside right)
  | e@(.unaryOp _ inner) => e :: outside inner
  | e@(.nested inner) => e :: outside inner
  | e@(.cast _ inner _) => e :: outside inner
  | e@(.case operand conditions elseResult) =>
    e :: (outsideOption operand ++ outsideCases conditions ++ outsideOption elseResult)
  | e@(.anyOp left _ right _) => e :: (outside left ++ outside right)
  | e@(.isTest _ inner) => e :: outside inner
  | e@(.isDistinctFrom left right) => e :: (outside left ++ outside right)
  | e@(.isNotDistinctFrom left right) => e :: (outside left ++ outside right)
  | e@(.function ⟨name, args, filter, over_, withinGroup⟩) =>
    e :: if over_.isNone && aggregate name then []
      else outsideArguments args ++ outsideOption filter ++ outsideWindow over_ ++
        outsideOrderBy withinGroup
  | e@(.compoundFieldAccess root chain) => e :: (outside root ++ outsideAccess chain)
  | e@(.subquery _) => [e]
  | e@(.exists _ _) => [e]
  | e@(.inSubquery inner _ _) => e :: outside inner
  | e@(.node _ children) => e :: outsideList children

def outsideOption : Option Expr → List Expr
  | none => []
  | some e => outside e

def outsideList : List Expr → List Expr
  | [] => []
  | e :: rest => outside e ++ outsideList rest

def outsideCases : List CaseWhen → List Expr
  | [] => []
  | ⟨condition, result⟩ :: rest =>
    outside condition ++ outside result ++ outsideCases rest

def outsideAccess : List AccessExpr → List Expr
  | [] => []
  | .dot e :: rest => outside e ++ outsideAccess rest
  | .subscript index :: rest => outside index ++ outsideAccess rest
  | .slice lower upper :: rest => outsideOption lower ++ outsideOption upper ++ outsideAccess rest

def outsideArguments : FunctionArguments → List Expr
  | .none => []
  | .subquery _ => []
  | .list _ args orderBy => outsideArgs args ++ outsideOrderBy orderBy

def outsideArgs : List FunctionArg → List Expr
  | [] => []
  | .unnamed arg :: rest => outsideArg arg ++ outsideArgs rest
  | .named _ arg :: rest => outsideArg arg ++ outsideArgs rest

def outsideArg : FunctionArgExpr → List Expr
  | .expr e => outside e
  | .qualifiedWildcard _ => []
  | .wildcard => []

def outsideWindow : Option WindowType → List Expr
  | none => []
  | some (.spec partitionBy orderBy) => outsideList partitionBy ++ outsideOrderBy orderBy
  | some (.named _) => []

def outsideOrderBy : List OrderByExpr → List Expr
  | [] => []
  | ⟨e, _, _⟩ :: rest => outside e ++ outsideOrderBy rest

end

def isColumn : Expr → Bool
  | .identifier _ => true
  | .compoundIdentifier _ => true
  | _ => false

/-- The column that an expression compares by `= ANY(column)`. -/
def comparedColumn : Expr → Option Expr
  | .anyOp _ .eq right false => if isColumn right then some right else none
  | _ => none

/-- The column arguments of the `= ANY(column)` comparisons in a projection, outside any
aggregate call. -/
def comparedColumns (projection : List SelectItem) : List Expr :=
  projection.flatMap fun item =>
    match selectedExpr item with
    | none => []
    | some e => (outside aggregate e).filterMap comparedColumn

/-- The columns of a projection that stand in no aggregate call. -/
def plainColumns (projection : List SelectItem) : List Expr :=
  projection.flatMap fun item =>
    match selectedExpr item with
    | none => []
    | some e => (outside aggregate e).filter isColumn

end

/-- How a column prints. -/
def columnText : Expr → Option String
  | .identifier id => some (displayIdent id)
  | .compoundIdentifier parts => some (".".intercalate (parts.map displayIdent))
  | _ => none

section
variable {aggregate : ObjectName → Bool}

mutual

/-- What stands in an expression outside aggregate calls stands so in what it is part of. -/
theorem outside_trans : ∀ (e : Expr) {x y : Expr}, x ∈ outside aggregate e →
    y ∈ outside aggregate x → y ∈ outside aggregate e
  | .identifier _, _, _, first, second
  | .compoundIdentifier _, _, _, first, second
  | .value _, _, _, first, second
  | .subquery _, _, _, first, second
  | .exists _ _, _, _, first, second => by
    obtain rfl := List.mem_singleton.mp first
    exact second
  | .binaryOp left _ right, _, _, first, second
  | .anyOp left _ right _, _, _, first, second
  | .isDistinctFrom left right, _, _, first, second
  | .isNotDistinctFrom left right, _, _, first, second => by
    obtain rfl | inside := List.mem_cons.mp first
    · exact second
    · obtain inside | inside := List.mem_append.mp inside
      · exact List.mem_cons_of_mem _ (List.mem_append_left _ (outside_trans left inside second))
      · exact List.mem_cons_of_mem _ (List.mem_append_right _ (outside_trans right inside second))
  | .unaryOp _ inner, _, _, first, second
  | .nested inner, _, _, first, second
  | .cast _ inner _, _, _, first, second
  | .isTest _ inner, _, _, first, second
  | .inSubquery inner _ _, _, _, first, second => by
    obtain rfl | inside := List.mem_cons.mp first
    · exact second
    · exact List.mem_cons_of_mem _ (outside_trans inner inside second)
  | .case operand conditions elseResult, _, _, first, second => by
    obtain rfl | inside := List.mem_cons.mp first
    · exact second
    · simp only [outside, List.mem_cons, List.mem_append] at inside ⊢
      obtain (inside | inside) | inside := inside
      · exact .inr (.inl (.inl (outsideOption_trans operand inside second)))
      · exact .inr (.inl (.inr (outsideCases_trans conditions inside second)))
      · exact .inr (.inr (outsideOption_trans elseResult inside second))
  | .function ⟨name, args, filter, over_, withinGroup⟩, _, _, first, second => by
    obtain rfl | inside := List.mem_cons.mp first
    · exact second
    · simp only [outside]
      split at inside
      · cases inside
      · next plain =>
        rw [if_neg plain]
        simp only [List.mem_cons, List.mem_append] at inside ⊢
        obtain ((inside | inside) | inside) | inside := inside
        · exact .inr (.inl (.inl (.inl (outsideArguments_trans args inside second))))
        · exact .inr (.inl (.inl (.inr (outsideOption_trans filter inside second))))
        · exact .inr (.inl (.inr (outsideWindow_trans over_ inside second)))
        · exact .inr (.inr (outsideOrderBy_trans withinGroup inside second))
  | .compoundFieldAccess root chain, _, _, first, second => by
    obtain rfl | inside := List.mem_cons.mp first
    · exact second
    · obtain inside | inside := List.mem_append.mp inside
      · exact List.mem_cons_of_mem _ (List.mem_append_left _ (outside_trans root inside second))
      · exact List.mem_cons_of_mem _
          (List.mem_append_right _ (outsideAccess_trans chain inside second))
  | .node _ children, _, _, first, second => by
    obtain rfl | inside := List.mem_cons.mp first
    · exact second
    · exact List.mem_cons_of_mem _ (outsideList_trans children inside second)

theorem outsideOption_trans : ∀ (e : Option Expr) {x y : Expr}, x ∈ outsideOption aggregate e →
    y ∈ outside aggregate x → y ∈ outsideOption aggregate e
  | none, _, _, first, _ => nomatch first
  | some e, _, _, first, second => outside_trans e first second

theorem outsideList_trans : ∀ (es : List Expr) {x y : Expr}, x ∈ outsideList aggregate es →
    y ∈ outside aggregate x → y ∈ outsideList aggregate es
  | [], _, _, first, _ => nomatch first
  | e :: rest, _, _, first, second => by
    obtain inside | inside := List.mem_append.mp first
    · exact List.mem_append_left _ (outside_trans e inside second)
    · exact List.mem_append_right _ (outsideList_trans rest inside second)

theorem outsideCases_trans : ∀ (cases : List CaseWhen) {x y : Expr},
    x ∈ outsideCases aggregate cases → y ∈ outside aggregate x → y ∈ outsideCases aggregate cases
  | [], _, _, first, _ => nomatch first
  | ⟨condition, result⟩ :: rest, _, _, first, second => by
    simp only [outsideCases, List.mem_append] at first ⊢
    obtain (inside | inside) | inside := first
    · exact .inl (.inl (outside_trans condition inside second))
    · exact .inl (.inr (outside_trans result inside second))
    · exact .inr (outsideCases_trans rest inside second)

theorem outsideAccess_trans : ∀ (chain : List AccessExpr) {x y : Expr},
    x ∈ outsideAccess aggregate chain → y ∈ outside aggregate x →
      y ∈ outsideAccess aggregate chain
  | [], _, _, first, _ => nomatch first
  | .dot e :: rest, _, _, first, second
  | .subscript e :: rest, _, _, first, second => by
    obtain inside | inside := List.mem_append.mp first
    · exact List.mem_append_left _ (outside_trans e inside second)
    · exact List.mem_append_right _ (outsideAccess_trans rest inside second)
  | .slice lower upper :: rest, _, _, first, second => by
    simp only [outsideAccess, List.mem_append] at first ⊢
    obtain (inside | inside) | inside := first
    · exact .inl (.inl (outsideOption_trans lower inside second))
    · exact .inl (.inr (outsideOption_trans upper inside second))
    · exact .inr (outsideAccess_trans rest inside second)

theorem outsideArguments_trans : ∀ (args : FunctionArguments) {x y : Expr},
    x ∈ outsideArguments aggregate args → y ∈ outside aggregate x →
      y ∈ outsideArguments aggregate args
  | .none, _, _, first, _ => nomatch first
  | .subquery _, _, _, first, _ => nomatch first
  | .list _ args orderBy, _, _, first, second => by
    obtain inside | inside := List.mem_append.mp first
    · exact List.mem_append_left _ (outsideArgs_trans args inside second)
    · exact List.mem_append_right _ (outsideOrderBy_trans orderBy inside second)

theorem outsideArgs_trans : ∀ (args : List FunctionArg) {x y : Expr},
    x ∈ outsideArgs aggregate args → y ∈ outside aggregate x → y ∈ outsideArgs aggregate args
  | [], _, _, first, _ => nomatch first
  | .unnamed arg :: rest, _, _, first, second
  | .named _ arg :: rest, _, _, first, second => by
    obtain inside | inside := List.mem_append.mp first
    · exact List.mem_append_left _ (outsideArg_trans arg inside second)
    · exact List.mem_append_right _ (outsideArgs_trans rest inside second)

theorem outsideArg_trans : ∀ (arg : FunctionArgExpr) {x y : Expr},
    x ∈ outsideArg aggregate arg → y ∈ outside aggregate x → y ∈ outsideArg aggregate arg
  | .expr e, _, _, first, second => outside_trans e first second
  | .qualifiedWildcard _, _, _, first, _ => nomatch first
  | .wildcard, _, _, first, _ => nomatch first

theorem outsideWindow_trans : ∀ (over_ : Option WindowType) {x y : Expr},
    x ∈ outsideWindow aggregate over_ → y ∈ outside aggregate x →
      y ∈ outsideWindow aggregate over_
  | none, _, _, first, _ => nomatch first
  | some (.spec partitionBy orderBy), _, _, first, second => by
    obtain inside | inside := List.mem_append.mp first
    · exact List.mem_append_left _ (outsideList_trans partitionBy inside second)
    · exact List.mem_append_right _ (outsideOrderBy_trans orderBy inside second)
  | some (.named _), _, _, first, _ => nomatch first

theorem outsideOrderBy_trans : ∀ (keys : List OrderByExpr) {x y : Expr},
    x ∈ outsideOrderBy aggregate keys → y ∈ outside aggregate x →
      y ∈ outsideOrderBy aggregate keys
  | [], _, _, first, _ => nomatch first
  | ⟨e, _, _⟩ :: rest, _, _, first, second => by
    obtain inside | inside := List.mem_append.mp first
    · exact List.mem_append_left _ (outside_trans e inside second)
    · exact List.mem_append_right _ (outsideOrderBy_trans rest inside second)

end

theorem outside_self (e : Expr) : e ∈ outside aggregate e := by
  cases e with
  | function f =>
    obtain ⟨name, args, filter, over_, withinGroup⟩ := f
    exact List.mem_cons_self
  | _ => exact List.mem_cons_self

/-- A column compared outside aggregate calls stands there itself. -/
theorem compared_plain {projection : List SelectItem} {c : Expr}
    (compared : c ∈ comparedColumns aggregate projection) :
    c ∈ plainColumns aggregate projection := by
  obtain ⟨item, member, inside⟩ := List.mem_flatMap.mp compared
  refine List.mem_flatMap.mpr ⟨item, member, ?_⟩
  cases found : selectedExpr item with
  | none =>
    rw [found] at inside
    cases inside
  | some e =>
    rw [found] at inside
    obtain ⟨x, outer, shape⟩ := List.mem_filterMap.mp inside
    unfold comparedColumn at shape
    split at shape
    · next left right =>
      split at shape
      · next column =>
        obtain rfl := Option.some.inj shape
        refine List.mem_filter.mpr ⟨outside_trans e outer ?_, column⟩
        exact List.mem_cons_of_mem _ (List.mem_append_right _ (outside_self right))
      · cases shape
    · cases shape

end

/-! ## What is asked of the rewrite, and when it is met -/

/-- A query grouped by a list of expressions. -/
def isGrouped : Query → Bool
  | ⟨_, .select ⟨_, _, _, _, .expressions (_ :: _), _⟩, _, _, _⟩ => true
  | _ => false

/-- The query grouped by more keys. -/
def withKeys (more : List Expr) : Query → Query
  | ⟨with_, .select ⟨distinct, projection, from_, selection, .expressions keys, having⟩, orderBy,
      limit, offset⟩ =>
    ⟨with_, .select ⟨distinct, projection, from_, selection, .expressions (keys ++ more), having⟩,
      orderBy, limit, offset⟩
  | q => q

def projectionOf : Query → List SelectItem
  | ⟨_, .select ⟨_, projection, _, _, _, _⟩, _, _, _⟩ => projection
  | _ => []

section
variable {D : Type} (E : Engine D)

/-- Whether a column is one of FROM. -/
def inFrom (columns : List Column) : Expr → Bool
  | .identifier id => columns.any (·.answers [id.folded])
  | .compoundIdentifier parts => columns.any (·.answers (folded parts))
  | _ => false

/-- Valid grouping: every column of the projection outside the aggregate calls is a column of
FROM, and one of the keys. -/
def ValidGrouping (s : Scope D) (q : Query) : Prop :=
  ∀ sel, q.body = .select sel → ∀ inner t keys, withMeaning E q.with_ s = some inner →
    (clauses E sel).filtered E inner = some t →
    (clauses E sel).groupKeys t.columns = some keys →
    ∀ c ∈ plainColumns E.aggregates sel.projection, inFrom t.columns c = true ∧
      IsKey E inner t keys (c, exprMeaning E c)

end

section
variable (P : Printing) (aggregate : ObjectName → Bool)

/-- What is asked of a query: without GROUP BY it is left alone, what is pushed prints as
columns it compares by `= ANY` outside aggregate calls, and if it was valid its rows stay. -/
structure GroupingKept (q later : Query) : Prop where
  ungrouped : isGrouped q = false → later = q
  pushed : ∃ more columns, later = withKeys more q ∧
    List.Forall₂ (fun key c => columnText key = columnText c) more columns ∧
    (∀ c ∈ columns, c ∈ comparedColumns aggregate (projectionOf q)) ∧
    ∀ (D : Type) (E : Engine D), E.aggregates = aggregate → LawfulKeys E → ∀ s,
      ValidGrouping E s q → queryMeaning E (withKeys columns q) s = queryMeaning E q s

/-- What is asked of one statement. -/
def StatementKept : Statement → Statement → Prop
  | .query q, later => ∃ q', later = .query q' ∧ GroupingKept aggregate q q'
  | statement, later => later = statement

/-- The rewrite returns, and does to every statement what is asked of it. -/
def RewriteHarmless (statements : List Statement) : Prop :=
  ∃ out, rewriteGroupByForAny P statements = some out ∧
    List.Forall₂ (StatementKept aggregate) statements out

/-- The argument read out of a select item, unless it is a literal. -/
def ArgumentOf (item : SelectItem) (name : String) : Prop :=
  ∃ e start length argument, selectedExpr item = some e ∧ anyArgument P e = some (start, length) ∧
    sliceBytes start length (P.rendered e) = some argument ∧
    isLiteralArgument P argument = false ∧ name = String.ofList argument

/-- A lower-case text is one of the keys', or of an earlier item's argument. -/
def Taken (seen : List String) (before : List SelectItem) (text : String) : Prop :=
  text ∈ seen ∨ ∃ earlier ∈ before, ∃ name, ArgumentOf P earlier name ∧ P.lowercase name = text

/-- The argument of an item can be sliced, and is a literal, taken already, or the text of a
column compared outside aggregate calls. -/
def ArgumentFits (projection : List SelectItem) (seen : List String) (before : List SelectItem)
    (item : SelectItem) : Prop :=
  ∀ e start length, selectedExpr item = some e → anyArgument P e = some (start, length) →
    ∃ argument, sliceBytes start length (P.rendered e) = some argument ∧
      (isLiteralArgument P argument = true ∨
        Taken P seen before (P.lowercase (String.ofList argument)) ∨
        ∃ c ∈ comparedColumns aggregate projection,
          columnText c = some (String.ofList argument))

/-- Every select item of a grouped query has a fitting argument, if any. -/
def ArgumentsFit : Query → Prop
  | ⟨_, .select ⟨_, projection, _, _, .expressions (key :: keys), _⟩, _, _, _⟩ =>
    ∀ before item after, projection = before ++ item :: after →
      ArgumentFits P aggregate projection (seenKeys P (key :: keys)) before item
  | _ => True

end

theorem split_joined (c : Char) (text : String) :
    (String.singleton c).intercalate (split c text) = text := by
  have chars : (split c text).map String.toList = text.toList.splitOn c := by
    rw [split, List.map_map]
    exact (List.map_congr_left fun part _ => String.toList_ofList).trans (List.map_id _)
  rw [← String.toList_inj, String.toList_intercalate, chars, String.toList_singleton]
  exact List.intercalate_splitOn c

/-- What is pushed prints as the argument. -/
theorem newKey_text (name : String) : columnText (newKey name) = some name := by
  unfold newKey
  split
  · have parts : ((split '.' name).map Ident.new).map displayIdent = split '.' name := by
      rw [List.map_map]
      exact (List.map_congr_left fun part _ => rfl).trans (List.map_id _)
    rw [columnText, parts]
    exact congrArg some (split_joined '.' name)
  · rfl

section
variable {P : Printing} {aggregate : ObjectName → Bool} {projection : List SelectItem}
  {seen seen' : List String} {item : SelectItem}

theorem forall_split_cons {A : Type} {fits : List A → A → Prop} {a : A} {rest : List A} :
    (∀ before x after, a :: rest = before ++ x :: after → fits before x) ↔
      fits [] a ∧ ∀ before x after, rest = before ++ x :: after → fits (a :: before) x := by
  constructor
  · intro all
    exact ⟨all [] a rest rfl, fun before x after split => all (a :: before) x after (by rw [split]; rfl)⟩
  · rintro ⟨first, later⟩ before x after split
    cases before with
    | nil =>
      obtain ⟨rfl, _⟩ := List.cons.inj split
      exact first
    | cons b before =>
      obtain ⟨rfl, inside⟩ := List.cons.inj split
      exact later before x after inside

theorem fits_of_taken (same : ∀ before text, Taken P seen (item :: before) text ↔
      Taken P seen' before text) (before : List SelectItem) (x : SelectItem) :
    ArgumentFits P aggregate projection seen (item :: before) x ↔
      ArgumentFits P aggregate projection seen' before x := by
  unfold ArgumentFits
  simp only [same]

theorem taken_cons (before : List SelectItem) (text : String) :
    Taken P seen (item :: before) text ↔
      (∃ name, ArgumentOf P item name ∧ P.lowercase name = text) ∨ Taken P seen before text := by
  unfold Taken
  rw [List.exists_mem_cons_iff]
  exact or_left_comm

/-- An item without an argument of its own takes nothing. -/
theorem taken_skip (none_ : ∀ name, ArgumentOf P item name → P.lowercase name ∈ seen)
    (before : List SelectItem) (text : String) :
    Taken P seen (item :: before) text ↔ Taken P seen before text := by
  rw [taken_cons]
  constructor
  · rintro (⟨name, argument, rfl⟩ | taken)
    · exact .inl (none_ name argument)
    · exact taken
  · exact .inr

theorem taken_push {name : String} (only : ∀ other, ArgumentOf P item other ↔ other = name)
    (before : List SelectItem) (text : String) :
    Taken P seen (item :: before) text ↔ Taken P (P.lowercase name :: seen) before text := by
  rw [taken_cons]
  constructor
  · rintro (⟨other, argument, rfl⟩ | taken | earlier)
    · obtain rfl := (only other).mp argument
      exact .inl List.mem_cons_self
    · exact .inl (List.mem_cons_of_mem _ taken)
    · exact .inr earlier
  · rintro (taken | earlier)
    · obtain rfl | taken := List.mem_cons.mp taken
      · exact .inl ⟨name, (only name).mpr rfl, rfl⟩
      · exact .inr (.inl taken)
    · exact .inr (.inr earlier)

/-- The keys pushed are texts of columns compared outside aggregate calls. -/
def PushedFit (P : Printing) (aggregate : ObjectName → Bool) (projection : List SelectItem)
    (seen : List String) (items : List SelectItem) : Prop :=
  ∃ more, newKeys P seen items = some more ∧
    ∀ key ∈ more, ∃ c ∈ comparedColumns aggregate projection, columnText key = columnText c

theorem pushedFit_skip {rest : List SelectItem}
    (skips : newKeys P seen (item :: rest) = newKeys P seen rest) :
    PushedFit P aggregate projection seen (item :: rest) ↔
      PushedFit P aggregate projection seen rest := by
  unfold PushedFit
  rw [skips]

theorem pushedFit_push {name : String} {rest : List SelectItem}
    (pushes : newKeys P seen (item :: rest) =
      (newKeys P (P.lowercase name :: seen) rest).map fun more => newKey name :: more) :
    PushedFit P aggregate projection seen (item :: rest) ↔
      (∃ c ∈ comparedColumns aggregate projection, columnText c = some name) ∧
        PushedFit P aggregate projection (P.lowercase name :: seen) rest := by
  unfold PushedFit
  rw [pushes]
  constructor
  · rintro ⟨more, made, each⟩
    obtain ⟨later, found, rfl⟩ := Option.map_eq_some_iff.mp made
    obtain ⟨⟨c, member, same⟩, rest⟩ := List.forall_mem_cons.mp each
    rw [newKey_text] at same
    exact ⟨⟨c, member, same.symm⟩, later, found, rest⟩
  · rintro ⟨⟨c, member, same⟩, later, found, rest⟩
    refine ⟨newKey name :: later, by rw [found]; rfl, List.forall_mem_cons.mpr ⟨?_, rest⟩⟩
    exact ⟨c, member, by rw [newKey_text, same]⟩

theorem argumentOf_iff {name : String} : ArgumentOf P item name ↔
    ∃ e, selectedExpr item = some e ∧ extractAnyColumnName P e = some (some name) := by
  constructor
  · rintro ⟨e, start, length, argument, found, placed, cut, plain, rfl⟩
    refine ⟨e, found, ?_⟩
    rw [extractAnyColumnName, placed]
    simp only [cut, Option.map_some, plain, Bool.false_eq_true, if_false]
  · rintro ⟨e, found, extracted⟩
    unfold extractAnyColumnName at extracted
    split at extracted
    · cases extracted
    · next start length placed =>
      obtain ⟨argument, cut, named⟩ := Option.map_eq_some_iff.mp extracted
      split at named
      · cases named
      · next plain =>
        exact ⟨e, start, length, argument, found, placed, cut, eq_false_of_ne_true plain,
          (Option.some.inj named).symm⟩

/-- An argument fits exactly if the extraction does not panic and a name it gives is taken or
that of a column compared outside aggregate calls. -/
theorem argumentFits_iff {before : List SelectItem} :
    ArgumentFits P aggregate projection seen before item ↔
      ∀ e, selectedExpr item = some e → ∃ found, extractAnyColumnName P e = some found ∧
        ∀ name, found = some name → Taken P seen before (P.lowercase name) ∨
          ∃ c ∈ comparedColumns aggregate projection, columnText c = some name := by
  apply forall_congr'
  intro e
  cases placed : anyArgument P e with
  | none =>
    have extracted : extractAnyColumnName P e = some none := by
      rw [extractAnyColumnName, placed]
    rw [extracted]
    exact ⟨fun _ _ => ⟨none, rfl, nofun⟩, fun _ _ _ _ => nofun⟩
  | some place =>
    obtain ⟨start, length⟩ := place
    have extracted : extractAnyColumnName P e = (sliceBytes start length (P.rendered e)).map
        fun argument => if isLiteralArgument P argument then none
          else some (String.ofList argument) := by
      rw [extractAnyColumnName, placed]
    rw [extracted]
    constructor
    · intro fits found
      obtain ⟨argument, cut, holds⟩ := fits start length found rfl
      refine ⟨_, by rw [cut, Option.map_some], fun name named => ?_⟩
      split at named
      · cases named
      · next plain =>
        obtain rfl := Option.some.inj named
        exact holds.resolve_left plain
    · intro fits start' length' found place
      obtain ⟨rfl, rfl⟩ := Prod.mk.inj (Option.some.inj place)
      obtain ⟨_, made, holds⟩ := fits found
      obtain ⟨argument, cut, rfl⟩ := Option.map_eq_some_iff.mp made
      refine ⟨argument, cut, ?_⟩
      by_cases literal : isLiteralArgument P argument = true
      · exact .inl literal
      · exact .inr (holds _ (if_neg literal))

theorem taken_nil (text : String) : Taken P seen [] text ↔ text ∈ seen := by
  refine ⟨?_, .inl⟩
  rintro (taken | ⟨_, none_, _⟩)
  · exact taken
  · cases none_

/-- Keys are pushed without a panic and all fit exactly if every item's argument fits. -/
theorem pushedFit_iff (items : List SelectItem) :
    PushedFit P aggregate projection seen items ↔
      ∀ before item after, items = before ++ item :: after →
        ArgumentFits P aggregate projection seen before item := by
  induction items generalizing seen with
  | nil =>
    refine ⟨fun _ before item after split => ?_, fun _ => ⟨[], rfl, nofun⟩⟩
    cases before <;> cases split
  | cons item rest ih =>
    rw [forall_split_cons]
    -- an item that takes nothing is passed over
    have passed (skips : newKeys P seen (item :: rest) = newKeys P seen rest)
        (none_ : ∀ name, ArgumentOf P item name → P.lowercase name ∈ seen)
        (fits : ArgumentFits P aggregate projection seen [] item) :
        PushedFit P aggregate projection seen (item :: rest) ↔
          ArgumentFits P aggregate projection seen [] item ∧ ∀ before x after,
            rest = before ++ x :: after →
              ArgumentFits P aggregate projection seen (item :: before) x := by
      simp only [fits_of_taken (taken_skip none_)]
      rw [pushedFit_skip skips, ih, and_iff_right fits]
    cases chosen : selectedExpr item with
    | none =>
      refine passed (by rw [newKeys, chosen]) (fun name argument => ?_) ?_
      · obtain ⟨e, found, _⟩ := argumentOf_iff.mp argument
        cases chosen.symm.trans found
      · rw [argumentFits_iff, chosen]
        nofun
    | some e =>
      have fits : ArgumentFits P aggregate projection seen [] item ↔ ∃ found,
          extractAnyColumnName P e = some found ∧ ∀ name, found = some name →
            P.lowercase name ∈ seen ∨
              ∃ c ∈ comparedColumns aggregate projection, columnText c = some name := by
        rw [argumentFits_iff, chosen]
        simp only [Option.some.injEq, forall_eq', taken_nil]
      have reads : ∀ name, ArgumentOf P item name ↔
          extractAnyColumnName P e = some (some name) := by
        intro name
        rw [argumentOf_iff, chosen]
        simp only [Option.some.injEq, exists_eq_left']
      cases extracted : extractAnyColumnName P e with
      | none =>
        constructor
        · rintro ⟨more, made, _⟩
          simp only [newKeys, chosen, extracted] at made
          cases made
        · rintro ⟨holds, _⟩
          obtain ⟨found, made, _⟩ := fits.mp holds
          cases extracted.symm.trans made
      | some found =>
        cases found with
        | none =>
          refine passed (by simp only [newKeys, chosen, extracted]) (fun name argument => ?_) ?_
          · cases extracted.symm.trans ((reads name).mp argument)
          · exact fits.mpr ⟨none, extracted, nofun⟩
        | some name =>
          have only : ∀ other, ArgumentOf P item other ↔ other = name := by
            intro other
            rw [reads, extracted, Option.some.injEq, Option.some.injEq, eq_comm]
          have one : ArgumentFits P aggregate projection seen [] item ↔ P.lowercase name ∈ seen ∨
              ∃ c ∈ comparedColumns aggregate projection, columnText c = some name := by
            rw [fits, extracted]
            simp only [Option.some.injEq, exists_eq_left', forall_eq']
          by_cases taken : P.lowercase name ∈ seen
          · refine passed (by simp only [newKeys, chosen, extracted, if_pos taken])
              (fun other argument => ?_) ?_
            · rw [(only other).mp argument]
              exact taken
            · exact one.mpr (.inl taken)
          · have pushes : newKeys P seen (item :: rest) =
                (newKeys P (P.lowercase name :: seen) rest).map fun more => newKey name :: more := by
              simp only [newKeys, chosen, extracted, if_neg taken]
            rw [pushedFit_push pushes, ih, one, or_iff_right taken]
            simp only [fits_of_taken (taken_push only)]

end

section
variable {D : Type} {E : Engine D}

theorem keyList_eq_map (exprs : List Expr) :
    keyList E exprs = exprs.map fun e => (e, exprMeaning E e) := by
  induction exprs with
  | nil => rfl
  | cons e rest ih => rw [keyList, ih, List.map_cons]

/-- A column of FROM is a key as it stands. -/
theorem keyOf_column {c : Clauses D} {columns : List Column} {e : Expr}
    (known : inFrom columns e = true) :
    c.keyOf columns (e, exprMeaning E e) = some (e, exprMeaning E e) := by
  cases e with
  | identifier id =>
    have answers : columns.any (·.answers [id.folded]) = true := known
    simp only [Clauses.keyOf, answers, if_true]
  | compoundIdentifier parts => rfl
  | _ => cases known

variable {distinct : Distinct} {projection : List SelectItem} {from_ : List TableWithJoins}
  {selection having : Option Expr} {key : Expr} {keys columns : List Expr}

theorem groups_columns (lawful : LawfulKeys E) {s : Scope D} {t : Table D}
    (valid : ∀ found, (clauses E ⟨distinct, projection, from_, selection,
        .expressions (key :: keys), having⟩).groupKeys t.columns = some found →
      ∀ c ∈ columns, inFrom t.columns c = true ∧ IsKey E s t found (c, exprMeaning E c)) :
    (clauses E ⟨distinct, projection, from_, selection, .expressions (key :: keys ++ columns),
        having⟩).groups E s t =
      (clauses E ⟨distinct, projection, from_, selection, .expressions (key :: keys),
        having⟩).groups E s t := by
  set before := clauses E ⟨distinct, projection, from_, selection, .expressions (key :: keys),
    having⟩
  set after := clauses E ⟨distinct, projection, from_, selection,
    .expressions (key :: keys ++ columns), having⟩
  have split : after.groupKeys t.columns = (before.groupKeys t.columns).bind fun found =>
      (columns.mapM fun c => before.keyOf t.columns (c, exprMeaning E c)).bind fun more =>
        some (found ++ more) := by
    change ((keyList E (key :: keys ++ columns)).mapM (before.keyOf t.columns)) =
      ((keyList E (key :: keys)).mapM (before.keyOf t.columns)).bind _
    rw [keyList_eq_map, keyList_eq_map, List.map_append, List.mapM_append]
    refine Option.bind_congr fun found _ => ?_
    rw [List.mapM_map]
    rfl
  cases found : before.groupKeys t.columns with
  | none =>
    rw [found] at split
    rw [Clauses.groups, split, Clauses.groups, found]
    rfl
  | some first =>
    have known := valid first found
    have more : (columns.mapM fun c => before.keyOf t.columns (c, exprMeaning E c)) =
        some (columns.map fun c => (c, exprMeaning E c)) := by
      apply mapM_eq_some.mpr
      rw [List.forall₂_map_right_iff, List.forall₂_same]
      exact fun c member => keyOf_column (known c member).1
    rw [found, more, Option.bind_some, Option.bind_some] at split
    have nonempty : first ≠ [] := by
      rintro rfl
      have beside : List.Forall₂ (fun key value => before.keyOf t.columns key = some value)
        (keyList E (key :: keys)) [] := mapM_eq_some.mp found
      cases beside
    rw [groups_eq E after split (by simp [nonempty]), groups_eq E before found nonempty]
    apply groupsBy_again lawful
    rw [List.forall_mem_map]
    exact fun c member => (known c member).2

/-- Grouping a valid query by columns that its projection compares changes none of its rows. -/
theorem queryMeaning_withKeys (lawful : LawfulKeys E) {with_ : Option With}
    {orderBy : List OrderByExpr} {limit offset : Option Expr} {s : Scope D}
    (compared : ∀ c ∈ columns, c ∈ comparedColumns E.aggregates projection)
    (valid : ValidGrouping E s ⟨with_, .select ⟨distinct, projection, from_, selection,
      .expressions (key :: keys), having⟩, orderBy, limit, offset⟩) :
    queryMeaning E ⟨with_, .select ⟨distinct, projection, from_, selection,
        .expressions (key :: keys ++ columns), having⟩, orderBy, limit, offset⟩ s =
      queryMeaning E ⟨with_, .select ⟨distinct, projection, from_, selection,
        .expressions (key :: keys), having⟩, orderBy, limit, offset⟩ s := by
  rw [queryMeaning, queryMeaning, queryAnswer, queryAnswer]
  refine Option.bind_congr fun inner bound => ?_
  refine congrArg (Option.bind · _) ?_
  change Option.bind _ _ = Option.bind _ _
  refine Option.bind_congr fun t kept => ?_
  have groups := @groups_columns D E distinct projection from_ selection having key keys columns
    lawful inner t fun found made c member =>
      valid _ rfl inner t found bound kept made c (compared_plain (compared c member))
  have grouped : ∀ more, (clauses E ⟨distinct, projection, from_, selection,
      .expressions (key :: more), having⟩).grouped (orderMeanings E orderBy) = true := fun _ => rfl
  have frames : (clauses E ⟨distinct, projection, from_, selection,
      .expressions (key :: keys ++ columns), having⟩).frames E (orderMeanings E orderBy) inner t =
      (clauses E ⟨distinct, projection, from_, selection, .expressions (key :: keys),
        having⟩).frames E (orderMeanings E orderBy) inner t := by
    rw [Clauses.frames, Clauses.frames, List.cons_append, if_pos (grouped _), if_pos (grouped _),
      ← List.cons_append, groups]
    rfl
  rw [frames]
  rfl

end

section
variable (P : Printing) (aggregate : ObjectName → Bool)

theorem columns_of_keys {columns more : List Expr}
    (each : ∀ key ∈ more, ∃ c ∈ columns, columnText key = columnText c) :
    ∃ chosen, List.Forall₂ (fun key c => columnText key = columnText c) more chosen ∧
      ∀ c ∈ chosen, c ∈ columns := by
  induction more with
  | nil => exact ⟨[], .nil, nofun⟩
  | cons key rest ih =>
    obtain ⟨⟨c, member, same⟩, later⟩ := List.forall_mem_cons.mp each
    obtain ⟨chosen, beside, inside⟩ := ih later
    exact ⟨c :: chosen, .cons same beside, List.forall_mem_cons.mpr ⟨member, inside⟩⟩

/-- What comes of a query that is not grouped by a list. -/
theorem kept_unchanged {q : Query} (none_ : q = withKeys [] q) : GroupingKept aggregate q q :=
  ⟨fun _ => rfl, [], [], none_, .nil, nofun, fun D E _ _ s _ => by rw [← none_]⟩

theorem query_kept_iff (q : Query) :
    (∃ later, groupByForAny P q = some later ∧ GroupingKept aggregate q later) ↔
      ArgumentsFit P aggregate q := by
  obtain ⟨with_, body, orderBy, limit, offset⟩ := q
  cases body with
  | query inner => exact ⟨fun _ => trivial, fun _ => ⟨_, rfl, kept_unchanged aggregate rfl⟩⟩
  | setOperation op quantifier left right =>
    exact ⟨fun _ => trivial, fun _ => ⟨_, rfl, kept_unchanged aggregate rfl⟩⟩
  | values rows => exact ⟨fun _ => trivial, fun _ => ⟨_, rfl, kept_unchanged aggregate rfl⟩⟩
  | select sel =>
    obtain ⟨distinct, projection, from_, selection, groupBy, having⟩ := sel
    cases groupBy with
    | all => exact ⟨fun _ => trivial, fun _ => ⟨_, rfl, kept_unchanged aggregate rfl⟩⟩
    | expressions keys =>
      cases keys with
      | nil => exact ⟨fun _ => trivial, fun _ => ⟨_, rfl, kept_unchanged aggregate rfl⟩⟩
      | cons key keys =>
        change _ ↔ ∀ before item after, projection = before ++ item :: after → _
        rw [← pushedFit_iff projection]
        constructor
        · rintro ⟨later, made, kept⟩
          obtain ⟨more, found, rfl⟩ := Option.map_eq_some_iff.mp made
          obtain ⟨more', columns, same, beside, compared, _⟩ := kept.pushed
          have lists : key :: keys ++ more = key :: keys ++ more' := by
            injection same with _ body
            injection body with select
            injection select with _ _ _ _ groupBy
            injection groupBy
          obtain rfl := List.append_cancel_left lists
          refine ⟨more, found, fun pushed member => ?_⟩
          obtain ⟨c, inside, text⟩ := forall₂_mem beside member
          exact ⟨c, compared c inside, text⟩
        · rintro ⟨more, found, each⟩
          obtain ⟨columns, beside, compared⟩ := columns_of_keys each
          refine ⟨withKeys more _, by rw [groupByForAny, found]; rfl, nofun, more, columns, rfl,
            beside, compared, ?_⟩
          rintro D E rfl lawful s valid
          exact queryMeaning_withKeys lawful compared valid

end

def boolOr : ObjectName := [.identifier (Ident.new "bool_or")]

def columnB : Expr := .identifier (Ident.new "b")

/-- `<literal> = ANY(b)`. -/
def inB (literal : String) : Expr := .anyOp (.value (.singleQuotedString literal)) .eq columnB false

/-- `bool_or('x' = ANY(b))`. -/
def anyInside : Expr :=
  .function ⟨boolOr, .list false [.unnamed (.expr (inB "x"))] [], none, none, []⟩

/-- The printing of these expressions, and the one character of theirs that is not ASCII. -/
def sampleDisplay : Expr → String
  | .identifier id => displayIdent id
  | .anyOp (.value (.singleQuotedString literal)) _ _ _ => "'" ++ literal ++ "' = ANY(b)"
  | .function _ => "bool_or('x' = ANY(b))"
  | _ => ""

def samplePrinting : Printing where
  display := sampleDisplay
  uppercase c := if c = 'ŉ' then ['ʼ', 'N'] else [c]
  lowercase := id

/-- `SELECT a, <e> FROM t GROUP BY a`. -/
def groupedByA (e : Expr) : Query :=
  ⟨none, .select ⟨.no, [.unnamedExpr (.identifier (Ident.new "a")), .unnamedExpr e],
    [⟨.table [.identifier (Ident.new "t")] none none, []⟩], none,
    .expressions [.identifier (Ident.new "a")], none⟩, [], none, none⟩

/-- A slice past the end of the text. -/
example : (rewriteGroupByForAny samplePrinting [.query (groupedByA (inB "ŉŉŉŉ"))]).isNone = true := by
  decide

end PgCatalog.Replace
