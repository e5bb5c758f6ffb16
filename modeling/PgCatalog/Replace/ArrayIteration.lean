import PgCatalog.Library.Text
import PgCatalog.Semantics.Joins
import PgCatalog.Semantics.Naturals
import PgCatalog.Sql.Visit

/-! `rewrite_array_index_iteration_to_any_comparison`: a walk over an array's indexes in FROM
against one membership test, row by row. -/
namespace PgCatalog.Replace

open Sql Library Semantics

def withoutCasts : Expr → Expr
  | .cast _ inner _ => withoutCasts inner
  | .nested inner => withoutCasts inner
  | e => e

def objectNameEndsWith (name : ObjectName) (base : String) : Bool :=
  (lastIdent name).any fun id => eqIgnoreAsciiCase id.value base

/-- The array in `array_upper(<array>, 1)` or `array_length(<array>, 1)`, without casts. -/
def boundedArray (upper : Expr) : Option Expr :=
  match withoutCasts upper with
  | .function ⟨name, .list _ [.unnamed (.expr array), .unnamed (.expr dimension)] _, _, _, _⟩ =>
    if objectNameEndsWith name "array_upper" || objectNameEndsWith name "array_length" then
      match withoutCasts dimension with
      | .value (.number text _) => if text = "1" then some (withoutCasts array) else none
      | _ => none
    else none
  | _ => none

def seriesAliasAndIndexedArray : TableFactor → Option (Ident × Expr)
  | .table name (some alias_) (some args) =>
    if !objectNameEndsWith name "generate_series" || !alias_.columns.isEmpty then none
    else
      match args with
      | [_, .unnamed (.expr upper)] => (boundedArray upper).map fun array => (alias_.name, array)
      | _ => none
  | _ => none

def isSubscriptBy (alias_ : Ident) : Expr → Bool
  | .compoundFieldAccess _ [.subscript (.identifier id)] => eqIgnoreAsciiCase id.value alias_.value
  | _ => false

/-- The value that an expression compares with a subscript, where it is such a comparison. -/
def comparedValue (alias_ : Ident) : Expr → Option Expr
  | .binaryOp left .eq right =>
    if isSubscriptBy alias_ right then some left
    else if isSubscriptBy alias_ left then some right
    else none
  | _ => none

def indexComparisonToAny (alias_ : Ident) (array e : Expr) : Expr :=
  match comparedValue alias_ e with
  | some value => .anyOp value .eq array false
  | none => e

def namesIdentifier (alias_ : Ident) : Expr → Bool
  | .identifier id => eqIgnoreAsciiCase id.value alias_.value
  | .compoundIdentifier parts =>
    parts.head?.any fun part => eqIgnoreAsciiCase part.value alias_.value
  | _ => false

def selectReferencesIdentifier (s : Select) (alias_ : Ident) : Bool :=
  s.visited.any (namesIdentifier alias_)

/-- FROM around its first entry that is a series, with the alias and the array of that. -/
def seriesEntry : List TableWithJoins →
    Option (List TableWithJoins × TableFactor × Ident × Expr × List TableWithJoins)
  | [] => none
  | ⟨relation, joins⟩ :: rest =>
    match joins.isEmpty, seriesAliasAndIndexedArray relation with
    | true, some (alias_, array) => some ([], relation, alias_, array, rest)
    | _, _ => (seriesEntry rest).map fun found =>
      (⟨relation, joins⟩ :: found.1, found.2)

/-- `rewrite_select`: the SELECT in its new form, where it is rewritten. -/
def iterationToMembership : Select → Option Select
  | ⟨distinct, projection, from_, selection, groupBy, having⟩ => do
    let (before, _, alias_, array, after) ← seriesEntry from_
    if from_.length < 2 then none
    else
      let where_ ← selection
      let candidate : Select := ⟨distinct, projection, before ++ after,
        some (where_.replaced (indexComparisonToAny alias_ array)), groupBy, having⟩
      if !where_.visited.any fun e => (comparedValue alias_ e).isSome then none
      else if selectReferencesIdentifier candidate alias_ then none
      else some candidate

/-- The column a series is in sight as: the alias names both it and its one column. -/
def seriesColumn (alias_ : Ident) : Column := ⟨[alias_.folded], alias_.folded⟩

section
variable {D : Type} (E : Engine D)

/-- What a comma join brings of a series: beside each row of the other FROM entries, which are
`rest` without it, one row for every value the series has there, in column `k`. -/
structure CommaJoin (s : Scope D) (before after : List TableWithJoins) (relation : TableFactor)
    (alias_ : Ident) (rest : Table D) (k : Nat) (series : List D → List D) : Prop where
  others : E.source s (before ++ after) = some rest
  place : k ≤ rest.columns.length
  joined : ∃ rows, E.source s (before ++ ⟨relation, []⟩ :: after) =
    some ⟨rest.columns.insertIdx k (seriesColumn alias_), rows⟩ ∧
    rows.Perm (rest.rows.flatMap fun r => (series r).map (r.insertIdx k ·))

/-- The new SELECT gives its list the rows of the old one, without the series, and as many of
each; and the list has the same columns. -/
def SameRows (s : Scope D) (sel sel' : Select) (k : Nat) : Prop :=
  ∀ kept, (clauses E sel).filtered E s = some kept →
    ∃ kept', (clauses E sel').filtered E s = some kept' ∧
      (kept.rows.map (·.eraseIdx k)).Perm kept'.rows ∧
      (clauses E sel).names kept.columns = (clauses E sel').names kept'.columns

/-- At how many values of the series beside a row WHERE is true. -/
def timesTrue (s : Scope D) (selection : Option Expr) (columns : List Column) (k : Nat)
    (series : List D → List D) (r : List D) : Nat :=
  (series r).countP fun d =>
    passes E (optionMeaning E selection) (s.under (.row columns (r.insertIdx k d))) == some true

/-- When membership stands for the walk: beside each row of the other entries the membership
test is true and WHERE true at just one index, or it is not and WHERE true at none; and the
select list does not show the index. -/
def WalkIsMembership (s : Scope D) (sel : Select) (membership : Expr) (alias_ : Ident)
    (rest : Table D) (k : Nat) (series : List D → List D) : Prop :=
  (exprMeaning E membership).spans = false ∧
    (∀ r ∈ rest.rows, ∃ b,
      passes E (some (exprMeaning E membership)) (s.under (.row rest.columns r)) = some b ∧
        timesTrue E s sel.selection (rest.columns.insertIdx k (seriesColumn alias_)) k series r =
          if b then 1 else 0) ∧
    ∀ item ∈ sel.projection, showsColumn (seriesColumn alias_) item = false

end

section
variable {D : Type} {E : Engine D} {alias_ : Ident} {k : Nat}

/-- Rows walked and rows tested are the same exactly if every row is walked as often as it
is tested for: once or never. -/
theorem walked_iff {rows : List (List D)} (passing : List D → D → Bool)
    (tested : List D → Bool) (series : List D → List D) :
    ((rows.flatMap fun r => ((series r).filter (passing r)).map fun _ => r).Perm
        (rows.filter tested)) ↔
      ∀ r ∈ rows, (series r).countP (passing r) = if tested r then 1 else 0 := by
  have once : rows.filter tested =
      rows.flatMap fun r => (if tested r then [()] else []).map fun _ => r := by
    induction rows with
    | nil => rfl
    | cons r rest ih =>
      rw [List.filter_cons, List.flatMap_cons, ih]
      cases tested r <;> rfl
  have walked : (rows.flatMap fun r => ((series r).filter (passing r)).map fun _ => r) =
      rows.flatMap fun r => (((series r).filter (passing r)).map fun _ => ()).map fun _ => r := by
    simp only [List.map_map, Function.comp_def]
  have apart : ∀ a ∈ rows, ∀ a' ∈ rows, ∀ _ _ : Unit, a = a' → a = a' ∧ () = () :=
    fun _ _ _ _ _ _ same => ⟨same, rfl⟩
  rw [once, walked, flatMap_perm_iff apart]
  apply forall₂_congr
  intro r _
  have units : ∀ xs ys : List Unit, xs.Perm ys ↔ xs.length = ys.length := fun xs ys =>
    ⟨List.Perm.length_eq, fun same => by rw [List.length_injective same]⟩
  rw [units, List.length_map, ← List.countP_eq_length_filter]
  cases tested r <;> rfl

variable {s : Scope D} {before after : List TableWithJoins} {relation : TableFactor}
  {rest : Table D} {series : List D → List D}

/-- The rows of a walk that pass WHERE, without the series: each as often as WHERE is true. -/
theorem walk_rows {sel : Select} {kept : Table D} (from_ : sel.from_ = before ++ ⟨relation, []⟩ :: after)
    (join : CommaJoin E s before after relation alias_ rest k series)
    (evaluated : (clauses E sel).filtered E s = some kept) :
    kept.columns = rest.columns.insertIdx k (seriesColumn alias_) ∧
      (kept.rows.map (·.eraseIdx k)).Perm (rest.rows.flatMap fun r =>
        ((series r).filter fun d => passes E (optionMeaning E sel.selection)
          (s.under (.row (rest.columns.insertIdx k (seriesColumn alias_)) (r.insertIdx k d))) ==
            some true).map fun _ => r) := by
  obtain ⟨distinct, projection, entries, selection, groupBy, having⟩ := sel
  dsimp only at from_
  subst from_
  obtain ⟨rows, joined, multiplied⟩ := join.joined
  obtain ⟨whole, found, _, rfl⟩ := filtered_some E _ evaluated
  obtain rfl := Option.some.inj (joined.symm.trans found)
  refine ⟨rfl, ((multiplied.filter _).map _).trans (.of_eq ?_)⟩
  rw [List.filter_flatMap, List.map_flatMap]
  apply List.flatMap_congr
  intro r _
  rw [List.filter_map, List.map_map]
  apply List.map_congr_left
  intro d _
  exact List.eraseIdx_insertIdx_self d

end

theorem seriesEntry_from {entries : List TableWithJoins}
    {found : List TableWithJoins × TableFactor × Ident × Expr × List TableWithJoins}
    (entry : seriesEntry entries = some found) :
    entries = found.1 ++ ⟨found.2.1, []⟩ :: found.2.2.2.2 := by
  induction entries generalizing found with
  | nil => cases entry
  | cons first rest ih =>
    obtain ⟨relation, joins⟩ := first
    unfold seriesEntry at entry
    split at entry
    · next alone _ =>
      obtain rfl := Option.some.inj entry
      rw [List.isEmpty_iff.mp alone]
      rfl
    · obtain ⟨later, further, rfl⟩ := Option.map_eq_some_iff.mp entry
      rw [ih further]
      rfl

/-- What a rewritten SELECT has become. -/
theorem rewritten_eq {distinct : Distinct} {projection : List SelectItem}
    {entries : List TableWithJoins} {selection : Option Expr} {groupBy : GroupByExpr}
    {having : Option Expr} {sel' : Select} {before after : List TableWithJoins}
    {relation : TableFactor} {alias_ : Ident} {array where_ : Expr}
    (entry : seriesEntry entries = some (before, relation, alias_, array, after))
    (selected : selection = some where_)
    (rewritten : iterationToMembership ⟨distinct, projection, entries, selection, groupBy, having⟩ =
      some sel') :
    sel' = ⟨distinct, projection, before ++ after,
      some (where_.replaced (indexComparisonToAny alias_ array)), groupBy, having⟩ := by
  simp only [iterationToMembership, entry, selected, Option.bind_eq_bind, Option.bind_some] at rewritten
  split at rewritten
  · cases rewritten
  · split at rewritten
    · cases rewritten
    · split at rewritten
      · cases rewritten
      · exact (Option.some.inj rewritten).symm

/-- Beside a row where a conjunct of its own decides about the rest, a walk that compares as its
other conjunct is true as often as the value is met in the series. -/
theorem timesTrue_both {D : Type} (E : Engine D) {s : Scope D} {columns : List Column} {k : Nat}
    {series : List D → List D} {r : List D} {others compared : Expr} {t : Truth} {met : D → Truth}
    (rest : ∀ d ∈ series r, (exprMeaning E others).value
      (s.under (.row columns (r.insertIdx k d))) = some (E.ofTruth t))
    (each : ∀ d ∈ series r, (exprMeaning E compared).value
      (s.under (.row columns (r.insertIdx k d))) = some (E.ofTruth (met d))) :
    timesTrue E s (some (.binaryOp others .and compared)) columns k series r =
      if t = some true then (series r).countP fun d => met d = some true else 0 := by
  have verdict : ∀ d ∈ series r, passes E (optionMeaning E (some (.binaryOp others .and compared)))
      (s.under (.row columns (r.insertIdx k d))) = some (t.both (met d) == some true) := by
    intro d member
    have value : (exprMeaning E (.binaryOp others .and compared)).value
        (s.under (.row columns (r.insertIdx k d))) = some (E.ofTruth (t.both (met d))) := by
      change E.operator (.binary .and) [(exprMeaning E others).value _,
        (exprMeaning E compared).value _] = _
      rw [rest d member, each d member, E.both_truths]
    change (Option.bind _ E.truth).map _ = _
    rw [value, Option.bind_some, E.truth_ofTruth]
    rfl
  unfold timesTrue
  split
  · next true_ =>
    apply List.countP_congr
    intro d member
    rw [verdict d member, true_]
    cases met d with
    | none => decide
    | some b => cases b <;> decide
  · next not_true =>
    apply List.countP_eq_zero.mpr
    intro d member
    rw [verdict d member]
    intro holds
    apply not_true
    have both : t.both (met d) = some true := by simpa using holds
    exact (Truth.both_eq_true.mp both).1

def quotedIdent (name : String) : Ident := ⟨name, some '"'⟩

def quotedTable (name : String) : TableWithJoins :=
  ⟨.table [.identifier (quotedIdent name)] none none, []⟩

/-- `generate_series(1, array_upper("arr", 1)) "s"`. -/
def indexSeries : TableFactor :=
  .table [.identifier (quotedIdent "generate_series")] (some ⟨quotedIdent "s", []⟩) (some [
    .unnamed (.expr (.value (.number "1" false))),
    .unnamed (.expr (.function ⟨[.identifier (quotedIdent "array_upper")],
      .list false [.unnamed (.expr (.identifier (quotedIdent "arr"))),
        .unnamed (.expr (.value (.number "1" false)))] [], none, none, []⟩))])

/-- `SELECT "a" FROM "t", generate_series(..) "s" WHERE "a" = "arr"["s"]`. -/
def arrayWalk : Select :=
  ⟨.no, [.unnamedExpr (.identifier (quotedIdent "a"))], [quotedTable "t", ⟨indexSeries, []⟩],
    some (.binaryOp (.identifier (quotedIdent "a")) .eq
      (.compoundFieldAccess (.identifier (quotedIdent "arr"))
        [.subscript (.identifier (quotedIdent "s"))])), .expressions [], none⟩

/-- `SELECT "a" FROM "t" WHERE "a" = ANY("arr")`. -/
def arrayTest : Select :=
  ⟨.no, [.unnamedExpr (.identifier (quotedIdent "a"))], [quotedTable "t"],
    some (.anyOp (.identifier (quotedIdent "a")) .eq (.identifier (quotedIdent "arr")) false),
    .expressions [], none⟩

def arrayColumns : List Column := [⟨["t"], "a"⟩, ⟨["t"], "arr"⟩]

/-- The natural numbers with one array, of 7 and 7, which `"arr"` of `"t"` is in the row where
`"a"` is 7. -/
def twoSevens : Engine Semantics.Cell where
  ofTruth := naturals.ofTruth
  truth := naturals.truth
  number := naturals.number
  operator
    | .access [.subscript], [some _, some (.number i)] =>
      some (if i = 1 ∨ i = 2 then .number 7 else .truth none)
    | .anyOp .eq, [some d, some _] => Semantics.Cell.compare .eq d (.number 7)
    | shape, operands => naturals.operator shape operands
  aggregates := naturals.aggregates
  aggregate := naturals.aggregate
  window := naturals.window
  unfold := naturals.unfold
  sameRow := naturals.sameRow
  sameExpr := naturals.sameExpr
  before := naturals.before
  bound := naturals.bound
  arrayOf := naturals.arrayOf
  source _ from_ :=
    if from_.length = 1 then some ⟨arrayColumns, [[.number 7, .number 0]]⟩
    else some ⟨arrayColumns ++ [⟨["s"], "s"⟩],
      [[.number 7, .number 0, .number 1], [.number 7, .number 0, .number 2]]⟩
  nameOf := naturals.nameOf
  combine := naturals.combine
  values := naturals.values
  fixpoint := naturals.fixpoint
  truth_ofTruth := naturals.truth_ofTruth
  ofTruth_truth := naturals.ofTruth_truth
  literal_zero := naturals.literal_zero
  literal_one := naturals.literal_one
  both_truths := naturals.both_truths
  both_short := naturals.both_short
  compared := naturals.compared
  null_compared := naturals.null_compared
  number_gt := naturals.number_gt
  number_eq := naturals.number_eq
  counts := naturals.counts
  count_rows := naturals.count_rows
  unfold_number := naturals.unfold_number
  unfold_truth := naturals.unfold_truth

theorem walk_series : seriesAliasAndIndexedArray indexSeries =
    some (quotedIdent "s", .identifier (quotedIdent "arr")) := by
  simp [seriesAliasAndIndexedArray, indexSeries, objectNameEndsWith, lastIdent, quotedIdent,
    eqIgnoreAsciiCase, boundedArray, withoutCasts, ObjectNamePart.asIdent]

theorem walk_entry : seriesEntry arrayWalk.from_ = some ([quotedTable "t"], indexSeries,
    quotedIdent "s", .identifier (quotedIdent "arr"), []) := by
  have plain : seriesAliasAndIndexedArray (.table [.identifier (quotedIdent "t")] none none) =
      none := rfl
  simp only [arrayWalk, quotedTable, seriesEntry, List.isEmpty_nil, plain, walk_series,
    Option.map_some]

theorem series_unnamed : selectReferencesIdentifier arrayTest (quotedIdent "s") = false := by
  have visited : arrayTest.visited = [.identifier (quotedIdent "a"),
      .anyOp (.identifier (quotedIdent "a")) .eq (.identifier (quotedIdent "arr")) false,
      .identifier (quotedIdent "a"), .identifier (quotedIdent "arr")] := rfl
  have value : eqIgnoreAsciiCase "a" "s" = false := by
    rw [eqIgnoreAsciiCase_toList]
    decide
  have array : eqIgnoreAsciiCase "arr" "s" = false := by
    rw [eqIgnoreAsciiCase_toList]
    decide
  simp only [selectReferencesIdentifier, visited, List.any_cons, List.any_nil, namesIdentifier,
    quotedIdent, value, array, Bool.or_self]

theorem walk_rewritten : iterationToMembership arrayWalk = some arrayTest := by
  have entry := walk_entry
  have unnamed := series_unnamed
  have itself : eqIgnoreAsciiCase "s" "s" = true := by simp [eqIgnoreAsciiCase]
  simp only [arrayWalk, arrayTest, quotedIdent] at entry unnamed
  simp [iterationToMembership, arrayWalk, entry, arrayTest, comparedValue, isSubscriptBy,
    indexComparisonToAny, quotedIdent, Expr.replaced, Expr.visited, visitedAccess, replacedAccess,
    itself, unnamed]

theorem walk_joins : CommaJoin twoSevens ⟨fun _ => none, []⟩ [quotedTable "t"] [] indexSeries
    (quotedIdent "s") ⟨arrayColumns, [[.number 7, .number 0]]⟩ 2 fun _ => [.number 1, .number 2] where
  others := rfl
  place := Nat.le_refl 2
  joined := ⟨_, rfl, .refl _⟩

theorem walk_evaluated : (clauses twoSevens arrayWalk).filtered twoSevens ⟨fun _ => none, []⟩ =
    some ⟨arrayColumns ++ [⟨["s"], "s"⟩],
      [[.number 7, .number 0, .number 1], [.number 7, .number 0, .number 2]]⟩ := by
  rfl

end PgCatalog.Replace
