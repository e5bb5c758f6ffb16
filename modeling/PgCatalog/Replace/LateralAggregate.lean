import PgCatalog.Replace.ExistsToCount
import PgCatalog.Semantics.Grouping
import PgCatalog.Semantics.Joins
import PgCatalog.Library.Text

/-! `decorrelate_lateral_aggregate_join`: a LATERAL aggregate joined ON true against a grouped
join on its key. -/
namespace PgCatalog.Replace

open Sql Library Semantics

/-- The name a plain table is referred to by: its alias, else its own. -/
def plainTableQualifier : TableFactor → Option String
  | .table _ (some alias_) none => some alias_.name.value
  | .table name none none => (lastIdent name).map (·.value)
  | _ => none

/-- The table qualifier of a two-part reference. -/
def compoundReferenceQualifier : Expr → Option String
  | .compoundIdentifier [qualifier, _] => some qualifier.value
  | _ => none

def triggeringAggregates : List String := ["sum", "count", "avg", "min", "max", "array_agg"]

def expressionComputesAggregate : Expr → Bool
  | .function ⟨name, _, _, _, _⟩ =>
    triggeringAggregates.contains (((lastIdent name).map (·.value.toLower)).getD "")
  | .cast _ inner _ => expressionComputesAggregate inner
  | .nested inner => expressionComputesAggregate inner
  | .unaryOp _ inner => expressionComputesAggregate inner
  | .binaryOp left _ right => expressionComputesAggregate left || expressionComputesAggregate right
  | _ => false

def itemComputesAggregate : SelectItem → Bool
  | .unnamedExpr e => expressionComputesAggregate e
  | .exprWithAlias e _ => expressionComputesAggregate e
  | _ => false

/-- An inner or a left join ON the literal true. -/
def isJoinedOnLiteralTrue : JoinKind → JoinConstraint → Bool
  | .inner, .on (.value (.boolean true)) => true
  | .left, .on (.value (.boolean true)) => true
  | .leftOuter, .on (.value (.boolean true)) => true
  | _, _ => false

/-- The inner key and the outer side of `inner = outer`, in either order. -/
def keyAndOuter (qualifier : String) : Expr → Option (Expr × Expr)
  | .binaryOp left .eq right =>
    match compoundReferenceQualifier left == some qualifier,
        compoundReferenceQualifier right == some qualifier with
    | true, false => some (left, right)
    | false, true => some (right, left)
    | _, _ => none
  | _ => none

def keyAlias (counter : Nat) : Ident := Ident.new ("__decorr_key_" ++ toString counter)

/-- The subquery grouped by its key, which leads its select list. -/
def groupedByKey (counter : Nat) (key : Expr) (distinct : Distinct) (projection : List SelectItem)
    (relation : TableFactor) (having : Option Expr) : Select :=
  ⟨distinct, .exprWithAlias key (keyAlias counter) :: projection, [⟨relation, []⟩], none,
    .expressions [key], having⟩

/-- `<alias>.<key> = <outer>`. -/
def onKey (counter : Nat) (alias_ : TableAlias) (outer : Expr) : Expr :=
  .binaryOp (.compoundIdentifier [Ident.new alias_.name.value, keyAlias counter]) .eq outer

/-- The join in its new form, where it is rewritten. -/
def decorrelateLateralAggregateJoin (counter : Nat) : Join → Option Join
  | ⟨.derived true ⟨none, .select ⟨distinct, projection, [⟨relation, []⟩], some selection,
      .expressions [], having⟩, orderBy, limit, offset⟩ (some alias_), kind, constraint⟩ =>
    if isJoinedOnLiteralTrue kind constraint then
      (plainTableQualifier relation).bind fun qualifier =>
        (keyAndOuter qualifier selection).bind fun (key, outer) =>
          if projection.any itemComputesAggregate then
            some ⟨.derived false ⟨none,
              .select (groupedByKey counter key distinct projection relation having),
              orderBy, limit, offset⟩ (some alias_), kind, .on (onKey counter alias_ outer)⟩
          else none
    else none
  | _ => none

/-- A LATERAL aggregate over one table, joined ON true. -/
structure LateralAggregate where
  distinct : Distinct
  projection : List SelectItem
  relation : TableFactor
  selection : Expr
  having : Option Expr
  orderBy : List OrderByExpr
  limit : Option Expr
  offset : Option Expr
  alias_ : TableAlias
  kind : JoinKind
  key : Expr
  outer : Expr

namespace LateralAggregate
variable (j : LateralAggregate)

def select : Select :=
  ⟨j.distinct, j.projection, [⟨j.relation, []⟩], some j.selection, .expressions [], j.having⟩

def query : Query := ⟨none, .select j.select, j.orderBy, j.limit, j.offset⟩

def join : Join :=
  ⟨.derived true j.query (some j.alias_), j.kind, .on (.value (.boolean true))⟩

def grouped (counter : Nat) : Select :=
  groupedByKey counter j.key j.distinct j.projection j.relation j.having

def groupedQuery (counter : Nat) : Query :=
  ⟨none, .select (j.grouped counter), j.orderBy, j.limit, j.offset⟩

def newJoin (counter : Nat) : Join :=
  ⟨.derived false (j.groupedQuery counter) (some j.alias_), j.kind,
    .on (onKey counter j.alias_ j.outer)⟩

end LateralAggregate

theorem keyAndOuter_eq_some {qualifier : String} {selection key outer : Expr}
    (found : keyAndOuter qualifier selection = some (key, outer)) :
    (selection = .binaryOp key .eq outer ∨ selection = .binaryOp outer .eq key) ∧
      compoundReferenceQualifier key = some qualifier := by
  unfold keyAndOuter at found
  split at found
  · next left right =>
    split at found
    · next first _ =>
      obtain ⟨rfl, rfl⟩ := Prod.mk.inj (Option.some.inj found)
      exact ⟨.inl rfl, beq_iff_eq.mp first⟩
    · next _ second =>
      obtain ⟨rfl, rfl⟩ := Prod.mk.inj (Option.some.inj found)
      exact ⟨.inr rfl, beq_iff_eq.mp second⟩
    · cases found
  · cases found

/-- A rewritten join is a LATERAL aggregate over a table on one equality, and becomes the join
with the grouped one. -/
theorem rewritten_shape {counter : Nat} {join join' : Join}
    (rewritten : decorrelateLateralAggregateJoin counter join = some join') :
    ∃ j : LateralAggregate, join = j.join ∧ join' = j.newJoin counter ∧
      (j.selection = .binaryOp j.key .eq j.outer ∨ j.selection = .binaryOp j.outer .eq j.key) ∧
      (∃ name alias_, j.relation = .table name alias_ none) ∧
      ∃ parts, j.key = .compoundIdentifier parts := by
  unfold decorrelateLateralAggregateJoin at rewritten
  split at rewritten
  · next distinct projection relation selection having orderBy limit offset alias_ kind constraint =>
    split at rewritten
    · next literal =>
      obtain ⟨qualifier, plain, rewritten⟩ := Option.bind_eq_some_iff.mp rewritten
      obtain ⟨⟨key, outer⟩, found, rewritten⟩ := Option.bind_eq_some_iff.mp rewritten
      obtain ⟨equality, reference⟩ := keyAndOuter_eq_some found
      have true_ : constraint = .on (.value (.boolean true)) := by
        unfold isJoinedOnLiteralTrue at literal
        split at literal
        · rfl
        · rfl
        · rfl
        · cases literal
      dsimp only at rewritten
      split at rewritten
      · refine ⟨⟨distinct, projection, relation, selection, having, orderBy, limit, offset, alias_,
          kind, key, outer⟩, by rw [true_]; rfl, (Option.some.inj rewritten).symm, equality, ?_, ?_⟩
        · unfold plainTableQualifier at plain
          split at plain
          · exact ⟨_, _, rfl⟩
          · exact ⟨_, _, rfl⟩
          · cases plain
        · unfold compoundReferenceQualifier at reference
          split at reference
          · exact ⟨_, rfl⟩
          · cases reference
      · cases rewritten
    · cases rewritten
  · cases rewritten

section
variable {D : Type} (E : Engine D)

/-- The truth value of an equality, and whether it is true. -/
def verdict (a b : D) : Option Truth := (E.operator (.binary .eq) [some a, some b]).bind E.truth

def equals (a b : D) : Bool := verdict E a b == some (some true)

/-- What the rewrite relies on the engine for: `true` is true, equality is symmetric and groups
as GROUP BY does, a table's rows are the same wherever it is read, and a stored value is one
value in a select list. -/
structure JoinPromises : Prop where
  literal_true : E.operator (.value (.boolean true)) [] = some (E.ofTruth (some true))
  equal_symm : ∀ a b, verdict E a b = verdict E b a
  same_symm : ∀ a b, E.sameRow [a] [b] = E.sameRow [b] [a]
  same_key : ∀ a b c, equals E b c = true → E.sameRow [a] [b] = equals E a c
  same_name : ∀ parts, E.sameExpr (.compoundIdentifier parts) (.compoundIdentifier parts) = true
  table : ∀ (s : Scope D) frame name alias_,
    E.source (s.under frame) [⟨.table name alias_ none, []⟩] =
      E.source s [⟨.table name alias_ none, []⟩]
  stored : ∀ s from_ t, E.source s from_ = some t → ∀ cells ∈ t.rows, ∀ k ∈ cells, ∀ more,
    E.unfold (k :: more) = (E.unfold more).map (k :: ·)

variable (s : Scope D) (left : Table D) (j : LateralAggregate) (counter : Nat)

/-- The rows of the table that a left row is equal to by the key. -/
def matched (t : Table D) (keyValue outerValue : List D → D) (l : List D) : List (List D) :=
  t.rows.filter fun cells => equals E (keyValue cells) (outerValue l)

/-- When the grouped join is the LATERAL one wherever a left row has a match: the subquery has no
DISTINCT, LIMIT or OFFSET and does aggregate its rows, the derived table has no column list, its
name and the key's mean the new key column and nothing else, the key is a column of the table,
and the outer side reads only the left row, the select list and HAVING never that. -/
structure Decorrelatable (t : Table D) (keyValue outerValue : List D → D) : Prop where
  distinct : j.distinct = .no
  limit : j.limit = none
  offset : j.offset = none
  alias_ : j.alias_.columns = []
  aggregates : (clauses E j.select).grouped (orderMeanings E j.orderBy) = true
  table : E.source s [⟨j.relation, []⟩] = some t
  key : ∀ parts, j.key = .compoundIdentifier parts →
    ∃ i, t.columns.findIdxs (·.answers (folded parts)) = [i] ∧
      ∀ cells ∈ t.rows, cells[i]? = some (keyValue cells)
  named : (left.columns ++ derivedColumns E j.alias_ (j.grouped counter)).findIdxs
    (·.answers (folded [Ident.new j.alias_.name.value, keyAlias counter])) = [left.columns.length]
  wide : ∀ l ∈ left.rows, l.length = left.columns.length
  outer_inside : ∀ l ∈ left.rows, ∀ cells ∈ t.rows,
    (exprMeaning E j.outer).value ((s.under (.row left.columns l)).under (.row t.columns cells)) =
      some (outerValue l)
  outer_on : ∀ l ∈ left.rows, ∀ d,
    (exprMeaning E j.outer).value (s.under (.row
      (left.columns ++ derivedColumns E j.alias_ (j.grouped counter)) (l ++ d))) =
      some (outerValue l)
  list : ∀ l ∈ left.rows, matched E t keyValue outerValue l ≠ [] → ∀ v,
    passes E (clauses E j.select).having (s.under (.group t.columns
        (matched E t keyValue outerValue l) (Semantics.keyValue E [(j.key, exprMeaning E j.key)] [v]))) =
      passes E (clauses E j.select).having ((s.under (.row left.columns l)).under
        (.group t.columns (matched E t keyValue outerValue l) fun _ => none)) ∧
    listRows E (clauses E j.select) (s.under (.group t.columns
        (matched E t keyValue outerValue l) (Semantics.keyValue E [(j.key, exprMeaning E j.key)] [v]))) =
      listRows E (clauses E j.select) ((s.under (.row left.columns l)).under
        (.group t.columns (matched E t keyValue outerValue l) fun _ => none))

/-- The joined rows are the same with the key column taken off, and as many of each; and so are
the columns, and those that an enclosing select list shows of them. -/
def SameJoin (projection : List SelectItem) : Prop :=
  ∀ whole, joinMeaning E s left j.join = some whole →
    ∃ whole', joinMeaning E s left (j.newJoin counter) = some whole' ∧
      whole.columns = whole'.columns.eraseIdx left.columns.length ∧
      whole.rows.Perm (whole'.rows.map (·.eraseIdx left.columns.length)) ∧
      (projection.map (itemMeaning E)).flatMap (Item.names whole'.columns) =
        (projection.map (itemMeaning E)).flatMap (Item.names whole.columns)

def keyColumn : Column := ⟨[j.alias_.name.folded], (keyAlias counter).folded⟩

/-- Every group of the table can be read; beside a left row without a match the subquery has no
row, or one of NULLs in a LEFT join; and no wildcard shows the key. -/
def UnmatchedAgree (t : Table D) (keyValue outerValue : List D → D)
    (projection : List SelectItem) : Prop :=
  (∃ g, queryMeaning E (j.groupedQuery counter) s = some g) ∧
    (∀ l ∈ left.rows, matched E t keyValue outerValue l = [] →
      ∀ a, queryMeaning E j.query (s.under (.row left.columns l)) = some a →
        a.rows = [] ∨ keepsUnmatched j.kind = true ∧
          a.rows = [List.replicate (derivedColumns E j.alias_ j.select).length E.null]) ∧
    ∀ item ∈ projection, showsColumn (keyColumn j counter) item = false

variable {E s left j counter} {t : Table D} {keyValue outerValue : List D → D}

/-- WHERE of the subquery in a row of the table, beside a left row. -/
theorem where_passes (promises : JoinPromises E)
    (plain : Decorrelatable E s left j counter t keyValue outerValue)
    (equality : j.selection = .binaryOp j.key .eq j.outer ∨
      j.selection = .binaryOp j.outer .eq j.key)
    (named : ∃ parts, j.key = .compoundIdentifier parts) {l cells : List D} (beside : l ∈ left.rows)
    (row : cells ∈ t.rows) :
    passes E (clauses E j.select).filter
        ((s.under (.row left.columns l)).under (.row t.columns cells)) =
      (verdict E (keyValue cells) (outerValue l)).map (· == some true) := by
  obtain ⟨parts, key⟩ := named
  have inner : (exprMeaning E j.key).value
      ((s.under (.row left.columns l)).under (.row t.columns cells)) = some (keyValue cells) := by
    obtain ⟨i, only, cell⟩ := plain.key parts key
    rw [key]
    change lookup _ (folded parts) (.row t.columns cells :: _) = _
    rw [lookup, only]
    exact cell cells row
  have outer := plain.outer_inside l beside cells row
  have value : (exprMeaning E j.selection).value
      ((s.under (.row left.columns l)).under (.row t.columns cells)) =
        E.operator (.binary .eq) [some (keyValue cells), some (outerValue l)] ∨
      (exprMeaning E j.selection).value
      ((s.under (.row left.columns l)).under (.row t.columns cells)) =
        E.operator (.binary .eq) [some (outerValue l), some (keyValue cells)] := by
    rw [← inner, ← outer]
    obtain written | written := equality
    · rw [written]
      exact .inl rfl
    · rw [written]
      exact .inr rfl
  change (((exprMeaning E j.selection).value _).bind E.truth).map (· == some true) = _
  obtain straight | flipped := value
  · rw [straight]
    rfl
  · rw [flipped]
    exact congrArg _ (promises.equal_symm _ _)

/-- A query without WITH, LIMIT and OFFSET has the rows of its SELECT. -/
theorem select_answer {sel : Select} {orderBy : List OrderByExpr} {r : Scope D} {a : Table D}
    (answered : queryMeaning E ⟨none, .select sel, orderBy, none, none⟩ r = some a) :
    ∃ b, (clauses E sel).answer E (orderMeanings E orderBy) r = some b ∧ a.rows = b.rows := by
  rw [queryMeaning, queryAnswer] at answered
  obtain ⟨inner, bound, answered⟩ := Option.bind_eq_some_iff.mp answered
  obtain rfl := Option.some.inj bound
  obtain ⟨b, selected, answered⟩ := Option.bind_eq_some_iff.mp answered
  obtain ⟨most, limited, answered⟩ := Option.bind_eq_some_iff.mp answered
  obtain ⟨skipped, started, rfl⟩ := Option.map_eq_some_iff.mp answered
  obtain rfl := Option.some.inj limited
  obtain rfl := Option.some.inj started
  rw [bodyMeaning] at selected
  exact ⟨b, selected, List.drop_zero⟩

/-- What the subquery has beside a left row: the rows of its list over the matched rows, if
HAVING passes them. -/
theorem lateral_rows (promises : JoinPromises E)
    (plain : Decorrelatable E s left j counter t keyValue outerValue)
    (equality : j.selection = .binaryOp j.key .eq j.outer ∨
      j.selection = .binaryOp j.outer .eq j.key)
    (named : ∃ parts, j.key = .compoundIdentifier parts)
    (plainTable : ∃ name alias_, j.relation = .table name alias_ none)
    {l : List D} (beside : l ∈ left.rows) {a : Table D}
    (answered : queryMeaning E j.query (s.under (.row left.columns l)) = some a) :
    (∀ cells ∈ t.rows, ∃ truth, verdict E (keyValue cells) (outerValue l) = some truth) ∧
    ∃ b, passes E (clauses E j.select).having ((s.under (.row left.columns l)).under
        (.group t.columns (matched E t keyValue outerValue l) fun _ => none)) = some b ∧
      if b then ∃ rows, listRows E (clauses E j.select) ((s.under (.row left.columns l)).under
        (.group t.columns (matched E t keyValue outerValue l) fun _ => none)) = some rows ∧
          a.rows.Perm rows
      else a.rows = [] := by
  rw [LateralAggregate.query, plain.limit, plain.offset] at answered
  obtain ⟨b, selected, rows⟩ := select_answer answered
  have passing : ∀ cells ∈ t.rows, _ := fun cells row =>
    where_passes promises plain equality named beside row
  -- WHERE keeps the matched rows
  have source : (clauses E j.select).source (s.under (.row left.columns l)) = some t := by
    obtain ⟨name, alias_, table⟩ := plainTable
    have same := promises.table s (.row left.columns l) name alias_
    rw [← table, plain.table] at same
    exact same
  obtain ⟨kept, filtered, _⟩ := Option.bind_eq_some_iff.mp selected
  have keeps := filtered
  obtain ⟨whole, found, each, rfl⟩ := filtered_some E _ filtered
  obtain rfl := Option.some.inj (source.symm.trans found)
  have valued : ∀ cells ∈ t.rows, ∃ truth,
      verdict E (keyValue cells) (outerValue l) = some truth := by
    intro cells row
    obtain ⟨b, read⟩ := each cells row
    rw [passing cells row] at read
    obtain ⟨truth, found, _⟩ := Option.map_eq_some_iff.mp read
    exact ⟨truth, found⟩
  have matches_ : (t.rows.filter fun cells => passes E (clauses E j.select).filter
      ((s.under (.row left.columns l)).under (.row t.columns cells)) == some true) =
        matched E t keyValue outerValue l := by
    apply List.filter_congr
    intro cells row
    obtain ⟨truth, read⟩ := valued cells row
    rw [passing cells row, equals, read, Option.map_some, Option.some_beq_some, Option.some_beq_some,
      beq_true]
  rw [matches_] at keeps
  refine ⟨valued, ?_⟩
  -- its one group is all of them
  have framed : ∀ frames, (clauses E j.select).frames E (orderMeanings E j.orderBy)
      (s.under (.row left.columns l)) ⟨t.columns, matched E t keyValue outerValue l⟩ = some frames →
      ∃ b, passes E (clauses E j.select).having ((s.under (.row left.columns l)).under
        (.group t.columns (matched E t keyValue outerValue l) fun _ => none)) = some b ∧
        frames = if b then [.group t.columns (matched E t keyValue outerValue l) fun _ => none]
          else [] := by
    intro frames framed
    rw [Clauses.frames, if_pos plain.aggregates] at framed
    change (passes E (clauses E j.select).having _).bind _ = some frames at framed
    obtain ⟨b, read, framed⟩ := Option.bind_eq_some_iff.mp framed
    exact ⟨b, read, (Option.some.inj framed).symm⟩
  have answered := selected
  rw [Clauses.answer, keeps, Option.bind_some] at answered
  obtain ⟨frames, framing, _⟩ := Option.bind_eq_some_iff.mp answered
  obtain ⟨passed, read, rfl⟩ := framed frames framing
  have all : (clauses E j.select).distinct = .no := by
    change distinctMeaning E j.distinct = .no
    rw [plain.distinct]
    rfl
  obtain ⟨lists, listed, perm⟩ := answer_rows E _ all keeps framing selected
  refine ⟨passed, read, ?_⟩
  cases passed with
  | false =>
    obtain rfl := Option.some.inj listed
    rw [rows]
    exact perm.eq_nil
  | true =>
    rw [if_pos rfl] at listed
    cases mapM_eq_some.mp listed with
    | cons first rest =>
      cases rest
      rw [List.flatten_cons, List.flatten_nil, List.append_nil] at perm
      exact ⟨_, first, rows ▸ perm⟩

/-- The keys of the groups, and the group of one. -/
abbrev groupKeys (E : Engine D) (t : Table D) (keyValue : List D → D) : List D :=
  Engine.keepFirst (fun a b => E.sameRow [a] [b]) (t.rows.map keyValue)

abbrev groupOf (E : Engine D) (j : LateralAggregate) (t : Table D) (keyValue : List D → D) (v : D) :
    Frame D :=
  .group t.columns (t.rows.filter fun cells => E.sameRow [v] [keyValue cells])
    (Semantics.keyValue E [(j.key, exprMeaning E j.key)] [v])

/-- The grouped SELECT reads its list once for each key whose group passes HAVING. -/
theorem grouped_frames (plain : Decorrelatable E s left j counter t keyValue outerValue)
    (named : ∃ parts, j.key = .compoundIdentifier parts) {frames : List (Frame D)}
    (framed : (clauses E (j.grouped counter)).frames E (orderMeanings E j.orderBy) s t =
      some frames) :
    (∀ v ∈ groupKeys E t keyValue, ∃ b, passes E (clauses E j.select).having
        (s.under (groupOf E j t keyValue v)) = some b) ∧
      frames = ((groupKeys E t keyValue).filter fun v => passes E (clauses E j.select).having
        (s.under (groupOf E j t keyValue v)) == some true).map (groupOf E j t keyValue) := by
  obtain ⟨parts, key⟩ := named
  obtain ⟨i, only, cell⟩ := plain.key parts key
  have keys : (clauses E (j.grouped counter)).groupKeys t.columns =
      some [(j.key, exprMeaning E j.key)] := by
    change List.mapM _ [(j.key, exprMeaning E j.key)] = _
    rw [key]
    rfl
  have valued : t.rows.mapM (fun cells =>
      (keyValues [(j.key, exprMeaning E j.key)] s t.columns cells).map fun values =>
        (values, cells)) = some (t.rows.map fun cells => ([keyValue cells], cells)) := by
    rw [mapM_eq_some, List.forall₂_map_right_iff, List.forall₂_same]
    intro cells row
    have value : (exprMeaning E j.key).value (s.under (.row t.columns cells)) =
        some (keyValue cells) := by
      rw [key]
      change lookup _ (folded parts) (.row t.columns cells :: _) = _
      rw [lookup, only]
      exact cell cells row
    rw [keyValues, List.mapM_cons, value]
    rfl
  have groups : (clauses E (j.grouped counter)).groups E s t =
      some ((groupKeys E t keyValue).map (groupOf E j t keyValue)) := by
    rw [groups_eq E _ keys (List.cons_ne_nil _ _), groupsBy, valued, Option.map_some, List.map_map]
    have kinds : Engine.keepFirst E.sameRow (t.rows.map (Prod.fst ∘ fun cells =>
        ([keyValue cells], cells))) = (groupKeys E t keyValue).map ([·]) := by
      have listed := @keepFirst_map D (List D) (fun a b => E.sameRow [a] [b]) E.sameRow
        (fun v => [v]) (t.rows.map keyValue) fun _ _ _ _ => rfl
      rw [groupKeys, ← listed, List.map_map]
      rfl
    rw [kinds, List.map_map]
    congr 1
    apply List.map_congr_left
    intro v _
    rw [Function.comp_apply, groupOf, List.filter_map, List.map_map]
    congr 1
    exact List.map_id _
  have grouped : (clauses E (j.grouped counter)).grouped (orderMeanings E j.orderBy) = true := rfl
  rw [Clauses.frames, if_pos grouped, groups, Option.bind_some] at framed
  obtain ⟨each, rfl⟩ := kept_eq_some.mp framed
  rw [List.forall_mem_map] at each
  exact ⟨each, List.filter_map ..⟩

/-- In the group of a key the grouped list has the rows of the list, each led by the key. -/
theorem grouped_list (promises : JoinPromises E)
    (plain : Decorrelatable E s left j counter t keyValue outerValue)
    (named : ∃ parts, j.key = .compoundIdentifier parts) {v : D}
    (member : v ∈ groupKeys E t keyValue) :
    listRows E (clauses E (j.grouped counter)) (s.under (groupOf E j t keyValue v)) =
      (listRows E (clauses E j.select) (s.under (groupOf E j t keyValue v))).map
        (·.map (v :: ·)) := by
  obtain ⟨parts, key⟩ := named
  obtain ⟨i, only, cell⟩ := plain.key parts key
  obtain ⟨cells, row, rfl⟩ := List.mem_map.mp (keepFirst_sub member)
  have lead : (exprMeaning E j.key).value (s.under (groupOf E j t keyValue (keyValue cells))) =
      some (keyValue cells) := by
    have same : E.sameExpr j.key j.key = true := by
      rw [key]
      exact promises.same_name parts
    have found : Semantics.keyValue E [(j.key, exprMeaning E j.key)] [keyValue cells] j.key =
        some (keyValue cells) := by
      simp [Semantics.keyValue, same]
    have meaning : exprMeaning E j.key = column j.key (folded parts) := by
      rw [key]
      rfl
    nth_rewrite 1 [meaning]
    change Option.or (Semantics.keyValue E [(j.key, exprMeaning E j.key)] [keyValue cells] j.key) _ =
      _
    rw [found]
    rfl
  have one := promises.stored s _ t plain.table cells row (keyValue cells)
    (List.mem_of_getElem? (cell cells row))
  have items : (clauses E (j.grouped counter)).items =
      .expr j.key (keyAlias counter).folded (exprMeaning E j.key) :: (clauses E j.select).items := rfl
  rw [listRows, items, List.mapM_cons, Item.cells, lead, listRows]
  cases (clauses E j.select).items.mapM
      (Item.cells (s.under (groupOf E j t keyValue (keyValue cells)))) with
  | none => rfl
  | some lists => exact congrArg some (one lists.flatten)

/-- The rows of the grouped query: those of each key whose group passes HAVING. -/
theorem grouped_rows (promises : JoinPromises E)
    (plain : Decorrelatable E s left j counter t keyValue outerValue)
    (named : ∃ parts, j.key = .compoundIdentifier parts) {g : Table D}
    (answered : queryMeaning E (j.groupedQuery counter) s = some g) :
    (∀ v ∈ groupKeys E t keyValue, ∃ b, passes E (clauses E j.select).having
        (s.under (groupOf E j t keyValue v)) = some b) ∧
      ∃ rows : D → List (List D),
        (∀ v ∈ groupKeys E t keyValue, passes E (clauses E j.select).having
            (s.under (groupOf E j t keyValue v)) = some true →
          listRows E (clauses E j.select) (s.under (groupOf E j t keyValue v)) = some (rows v)) ∧
        g.rows.Perm (((groupKeys E t keyValue).filter fun v =>
          passes E (clauses E j.select).having (s.under (groupOf E j t keyValue v)) ==
            some true).flatMap fun v => (rows v).map (v :: ·)) := by
  rw [LateralAggregate.groupedQuery, plain.limit, plain.offset] at answered
  obtain ⟨b, selected, same⟩ := select_answer answered
  have whole : (clauses E (j.grouped counter)).filtered E s = some t := by
    refine (filtered_eq_some E _).mpr ⟨rfl, t, plain.table, fun _ _ => ⟨true, rfl⟩, ?_⟩
    have all : (t.rows.filter fun cells => passes E (clauses E (j.grouped counter)).filter
        (s.under (.row t.columns cells)) == some true) = t.rows :=
      List.filter_eq_self.mpr fun _ _ => rfl
    rw [all]
  have distinct : (clauses E (j.grouped counter)).distinct = .no := by
    change distinctMeaning E j.distinct = .no
    rw [plain.distinct]
    rfl
  have framing := selected
  rw [Clauses.answer, whole, Option.bind_some] at framing
  obtain ⟨frames, framed, _⟩ := Option.bind_eq_some_iff.mp framing
  obtain ⟨each, rfl⟩ := grouped_frames plain named framed
  obtain ⟨lists, listed, perm⟩ := answer_rows E _ distinct whole framed selected
  let rows : D → List (List D) := fun v =>
    (listRows E (clauses E j.select) (s.under (groupOf E j t keyValue v))).getD []
  have read : ∀ v ∈ groupKeys E t keyValue, passes E (clauses E j.select).having
      (s.under (groupOf E j t keyValue v)) = some true →
      listRows E (clauses E j.select) (s.under (groupOf E j t keyValue v)) = some (rows v) := by
    intro v member passed
    have inside : groupOf E j t keyValue v ∈ ((groupKeys E t keyValue).filter fun v =>
        passes E (clauses E j.select).having (s.under (groupOf E j t keyValue v)) ==
          some true).map (groupOf E j t keyValue) :=
      List.mem_map_of_mem (List.mem_filter.mpr ⟨member, beq_iff_eq.mpr passed⟩)
    obtain ⟨more, read⟩ := mapM_some_iff.mp ⟨lists, listed⟩ _ inside
    rw [grouped_list promises plain named member] at read
    obtain ⟨given, found, _⟩ := Option.map_eq_some_iff.mp read
    dsimp only [rows]
    rw [found]
    rfl
  refine ⟨each, rows, read, ?_⟩
  have all : lists = ((groupKeys E t keyValue).filter fun v => passes E (clauses E j.select).having
      (s.under (groupOf E j t keyValue v)) == some true).map fun v => (rows v).map (v :: ·) := by
    rw [List.mapM_map] at listed
    refine Option.some.inj (listed.symm.trans ?_)
    rw [mapM_eq_some, List.forall₂_map_right_iff, List.forall₂_same]
    intro v member
    obtain ⟨key, passed⟩ := List.mem_filter.mp member
    rw [Function.comp_apply, grouped_list promises plain named key,
      read v key (beq_iff_eq.mp passed)]
    rfl
  rw [same]
  refine perm.trans (.of_eq ?_)
  rw [all, List.flatMap_def]

/-- ON of the grouped join, beside a row of the group of a key. -/
theorem on_passes (plain : Decorrelatable E s left j counter t keyValue outerValue) {l : List D}
    (beside : l ∈ left.rows) (v : D) (d : List D) :
    passes E (some (exprMeaning E (onKey counter j.alias_ j.outer))) (s.under (.row
        (left.columns ++ derivedColumns E j.alias_ (j.grouped counter)) (l ++ v :: d))) =
      (verdict E v (outerValue l)).map (· == some true) := by
  have key : (exprMeaning E (.compoundIdentifier
      [Ident.new j.alias_.name.value, keyAlias counter])).value (s.under (.row
        (left.columns ++ derivedColumns E j.alias_ (j.grouped counter)) (l ++ v :: d))) =
      some v := by
    change lookup _ (folded _) (.row _ (l ++ v :: d) :: _) = _
    rw [lookup, plain.named, ← plain.wide l beside]
    change (l ++ v :: d)[l.length]? = some v
    rw [List.getElem?_append_right (Nat.le_refl _), Nat.sub_self]
    rfl
  have outer := plain.outer_on l beside (v :: d)
  change Option.map _ (Option.bind (E.operator (.binary .eq) [(exprMeaning E _).value _,
    (exprMeaning E _).value _]) E.truth) = _
  rw [key, outer]
  rfl

/-- The one key, if any, whose group a left row meets. -/
theorem met_keys (promises : JoinPromises E) {l : List D} :
    (groupKeys E t keyValue).filter (fun v => equals E v (outerValue l)) =
      ((matched E t keyValue outerValue l).map keyValue).take 1 := by
  rw [groupKeys, keepFirst_class fun a _ b _ same => promises.same_key a b (outerValue l) same,
    List.filter_map]
  rfl

/-- The group of a key that a left row is equal to is what it matches. -/
theorem met_group (promises : JoinPromises E) {l : List D} {v : D}
    (same : equals E v (outerValue l) = true) :
    groupOf E j t keyValue v = .group t.columns (matched E t keyValue outerValue l)
      (Semantics.keyValue E [(j.key, exprMeaning E j.key)] [v]) := by
  rw [groupOf, matched]
  congr 1
  apply List.filter_congr
  intro cells _
  rw [promises.same_symm, promises.same_key _ _ _ same]

/-- Beside a left row the grouped join has what the subquery has there, led by the key, if the
row matches any; else nothing. -/
theorem met_rows (promises : JoinPromises E)
    (plain : Decorrelatable E s left j counter t keyValue outerValue)
    (equality : j.selection = .binaryOp j.key .eq j.outer ∨
      j.selection = .binaryOp j.outer .eq j.key)
    (named : ∃ parts, j.key = .compoundIdentifier parts)
    (plainTable : ∃ name alias_, j.relation = .table name alias_ none)
    {l : List D} (beside : l ∈ left.rows) {a g : Table D}
    (answered : queryMeaning E j.query (s.under (.row left.columns l)) = some a)
    (grouped : queryMeaning E (j.groupedQuery counter) s = some g) :
    ∃ met, kept (fun d => passes E (some (exprMeaning E (onKey counter j.alias_ j.outer)))
        (s.under (.row (left.columns ++ derivedColumns E j.alias_ (j.grouped counter))
          (l ++ d)))) g.rows = some met ∧
      (met.map List.tail).Perm
        (if matched E t keyValue outerValue l = [] then [] else a.rows) := by
  obtain ⟨valued, b, read, lateral⟩ :=
    lateral_rows promises plain equality named plainTable beside answered
  obtain ⟨each, rows, listed, perm⟩ := grouped_rows promises plain named grouped
  have keyed : ∀ v ∈ groupKeys E t keyValue,
      ∃ truth, verdict E v (outerValue l) = some truth := by
    intro v member
    obtain ⟨cells, row, rfl⟩ := List.mem_map.mp (keepFirst_sub member)
    exact valued cells row
  have led : ∀ d ∈ g.rows, ∃ v ∈ groupKeys E t keyValue, ∃ d', d = v :: d' := by
    intro d member
    obtain ⟨v, key, inside⟩ := List.mem_flatMap.mp (perm.mem_iff.mp member)
    obtain ⟨d', _, rfl⟩ := List.mem_map.mp inside
    exact ⟨v, (List.mem_filter.mp key).1, d', rfl⟩
  refine ⟨_, kept_eq_some.mpr ⟨?_, rfl⟩, ?_⟩
  · intro d member
    obtain ⟨v, key, d', rfl⟩ := led d member
    obtain ⟨truth, found⟩ := keyed v key
    exact ⟨truth == some true, by rw [on_passes plain beside, found]; rfl⟩
  refine ((perm.filter _).map _).trans ?_
  rw [filter_flatMap_origin (q := fun v => equals E v (outerValue l)), List.filter_comm,
    met_keys promises]
  · cases met : matched E t keyValue outerValue l with
    | nil => exact .refl _
    | cons cells rest =>
      -- the one key that is met, and its group
      have some_ : matched E t keyValue outerValue l ≠ [] := by
        rw [met]
        exact List.cons_ne_nil _ _
      have inside : cells ∈ matched E t keyValue outerValue l := by
        rw [met]
        exact List.mem_cons_self
      have same : equals E (keyValue cells) (outerValue l) = true := (List.mem_filter.mp inside).2
      have key : keyValue cells ∈ groupKeys E t keyValue := by
        have first : keyValue cells ∈ (groupKeys E t keyValue).filter
            fun v => equals E v (outerValue l) := by
          rw [met_keys promises, met]
          exact List.mem_cons_self
        exact (List.mem_filter.mp first).1
      obtain ⟨having, list⟩ := plain.list l beside some_ (keyValue cells)
      rw [← met_group promises same] at having list
      rw [read] at having
      rw [if_neg (List.cons_ne_nil _ _), List.map_cons, List.take_succ_cons, List.take_zero,
        List.filter_cons, having, List.filter_nil]
      cases b with
      | false =>
        rw [if_neg Bool.false_ne_true] at lateral
        rw [lateral]
        exact .refl _
      | true =>
        rw [if_pos rfl] at lateral
        obtain ⟨given, found, perm⟩ := lateral
        rw [listed _ key having, found] at list
        rw [if_pos (beq_self_eq_true _), List.flatMap_cons, List.flatMap_nil, List.append_nil,
          List.map_map, Option.some.inj list]
        have tails : List.tail ∘ (keyValue cells :: ·) = id := rfl
        rw [tails, List.map_id]
        exact perm.symm
  · intro v key d member
    obtain ⟨d', _, rfl⟩ := List.mem_map.mp member
    obtain ⟨truth, found⟩ := keyed v (List.mem_filter.mp key).1
    rw [on_passes plain beside, equals, found]
    cases truth with
    | none => rfl
    | some b => cases b <;> rfl

theorem derived_columns (plain : j.alias_.columns = []) :
    derivedColumns E j.alias_ (j.grouped counter) =
      keyColumn j counter :: derivedColumns E j.alias_ j.select := by
  unfold derivedColumns renamed
  rw [plain]
  change List.mapIdx _ ((_ :: _ : List String).map _) = _
  rw [List.map_cons, List.mapIdx_cons]
  rfl

/-- The LATERAL join, row by row of its left side. -/
theorem lateral_join (promises : JoinPromises E) {whole : Table D}
    (evaluated : joinMeaning E s left j.join = some whole) :
    ∃ a : List D → Table D,
      (∀ l ∈ left.rows, queryMeaning E j.query (s.under (.row left.columns l)) = some (a l)) ∧
      whole = ⟨left.columns ++ derivedColumns E j.alias_ j.select, left.rows.flatMap fun l =>
        (padded E (keepsUnmatched j.kind) (derivedColumns E j.alias_ j.select).length
          (a l).rows).map (l ++ ·)⟩ := by
  obtain ⟨lists, joined, rfl⟩ := Option.map_eq_some_iff.mp evaluated
  rw [if_pos rfl] at joined
  have each : ∀ l ∈ left.rows, ∃ a, queryMeaning E j.query (s.under (.row left.columns l)) =
      some a := by
    intro l beside
    obtain ⟨list, made⟩ := mapM_some_iff.mp ⟨lists, joined⟩ l beside
    obtain ⟨a, answered, _⟩ := Option.bind_eq_some_iff.mp made
    exact ⟨a, answered⟩
  have inhabited : Nonempty (Table D) := ⟨⟨[], []⟩⟩
  choose! a answered using each
  refine ⟨a, answered, ?_⟩
  have all : lists = left.rows.map fun l => (padded E (keepsUnmatched j.kind)
      (derivedColumns E j.alias_ j.select).length (a l).rows).map (l ++ ·) := by
    refine Option.some.inj (joined.symm.trans ?_)
    rw [mapM_eq_some, List.forall₂_map_right_iff, List.forall₂_same]
    intro l beside
    have every : kept (fun d => passes E (some (exprMeaning E (.value (.boolean true))))
        (s.under (.row (left.columns ++ derivedColumns E j.alias_ j.select) (l ++ d))))
        (a l).rows = some (a l).rows := by
      have true_ : ∀ d, passes E (some (exprMeaning E (.value (.boolean true))))
          (s.under (.row (left.columns ++ derivedColumns E j.alias_ j.select) (l ++ d))) =
            some true := by
        intro d
        change Option.map _ (Option.bind (E.operator (.value (.boolean true)) []) E.truth) = _
        rw [promises.literal_true, Option.bind_some, E.truth_ofTruth]
        rfl
      refine kept_eq_some.mpr ⟨fun d _ => ⟨true, true_ d⟩, (List.filter_eq_self.mpr ?_).symm⟩
      intro d _
      rw [true_ d]
      rfl
    change Option.bind (queryMeaning E j.query _) _ = _
    rw [answered l beside, Option.bind_some, besideRow, every]
    rfl
  rw [all, List.flatMap_def]

theorem eraseIdx_length {A : Type} (xs ys : List A) :
    (xs ++ ys).eraseIdx xs.length = xs ++ ys.tail := by
  rw [List.eraseIdx_append_of_length_le (Nat.le_refl _), Nat.sub_self, List.eraseIdx_zero]

/-- The grouped join, where its groups can be read: beside each left row what the subquery has
there if the row matches, else nothing. -/
theorem grouped_join (promises : JoinPromises E)
    (plain : Decorrelatable E s left j counter t keyValue outerValue)
    (equality : j.selection = .binaryOp j.key .eq j.outer ∨
      j.selection = .binaryOp j.outer .eq j.key)
    (named : ∃ parts, j.key = .compoundIdentifier parts)
    (plainTable : ∃ name alias_, j.relation = .table name alias_ none) {a : List D → Table D}
    {g : Table D} (answered : ∀ l ∈ left.rows,
      queryMeaning E j.query (s.under (.row left.columns l)) = some (a l))
    (grouped : queryMeaning E (j.groupedQuery counter) s = some g) :
    ∃ (whole' : Table D) (met : List D → List (List D)), joinMeaning E s left (j.newJoin counter) = some whole' ∧
      whole'.columns = left.columns ++ keyColumn j counter :: derivedColumns E j.alias_ j.select ∧
      (whole'.rows.map (·.eraseIdx left.columns.length)) = left.rows.flatMap (fun l =>
        (padded E (keepsUnmatched j.kind) (derivedColumns E j.alias_ j.select).length
          (met l)).map (l ++ ·)) ∧
      ∀ l ∈ left.rows, (met l).Perm
        (if matched E t keyValue outerValue l = [] then [] else (a l).rows) := by
  have each := fun l beside => met_rows promises plain equality named plainTable beside
    (answered l beside) grouped
  choose! met keeps perm using each
  refine ⟨⟨left.columns ++ derivedColumns E j.alias_ (j.grouped counter), left.rows.flatMap fun l =>
    (padded E (keepsUnmatched j.kind) (derivedColumns E j.alias_ (j.grouped counter)).length
      (met l)).map (l ++ ·)⟩, fun l => (met l).map List.tail, ?_, ?_, ?_, perm⟩
  · change (Option.bind (queryMeaning E (j.groupedQuery counter) s) _).map _ = _
    rw [grouped, Option.bind_some]
    have all : left.rows.mapM (fun l => besideRow E s j.kind left.columns
        (derivedColumns E j.alias_ (j.grouped counter)) (onKey counter j.alias_ j.outer) l g.rows) =
        some (left.rows.map fun l => (padded E (keepsUnmatched j.kind)
          (derivedColumns E j.alias_ (j.grouped counter)).length (met l)).map (l ++ ·)) := by
      rw [mapM_eq_some, List.forall₂_map_right_iff, List.forall₂_same]
      intro l beside
      rw [besideRow, keeps l beside]
      rfl
    change Option.map _ (left.rows.mapM fun l => besideRow E s j.kind left.columns
      (derivedColumns E j.alias_ (j.grouped counter)) (onKey counter j.alias_ j.outer) l g.rows) = _
    rw [all, List.flatMap_def]
    rfl
  · rw [derived_columns plain.alias_]
  · rw [List.map_flatMap]
    apply List.flatMap_congr
    intro l beside
    have taken : (fun cells : List D => cells.eraseIdx left.columns.length) ∘ (l ++ ·) =
        (l ++ ·) ∘ List.tail := by
      funext d
      rw [Function.comp_apply, ← plain.wide l beside, eraseIdx_length]
      rfl
    rw [List.map_map, taken, ← List.map_map, derived_columns plain.alias_, List.length_cons,
      padded_tail]

end

/-- A LATERAL aggregate that the rewrite accepts, and its equality. -/
theorem rewritten_parts {j : LateralAggregate} {counter : Nat}
    (rewritten : decorrelateLateralAggregateJoin counter j.join = some (j.newJoin counter)) :
    (j.selection = .binaryOp j.key .eq j.outer ∨ j.selection = .binaryOp j.outer .eq j.key) ∧
      (∃ name alias_, j.relation = .table name alias_ none) ∧
      ∃ parts, j.key = .compoundIdentifier parts := by
  obtain ⟨other, old, new, equality, table, named⟩ := rewritten_shape rewritten
  have same : other = j := by
    obtain ⟨distinct, projection, relation, selection, having, orderBy, limit, offset, alias_, kind,
      key, outer⟩ := j
    obtain ⟨distinct', projection', relation', selection', having', orderBy', limit', offset',
      alias_', kind', key', outer'⟩ := other
    simp only [LateralAggregate.join, LateralAggregate.query, LateralAggregate.select,
      LateralAggregate.newJoin, LateralAggregate.groupedQuery, LateralAggregate.grouped,
      groupedByKey, onKey, Join.mk.injEq, TableFactor.derived.injEq, Query.mk.injEq,
      SetExpr.select.injEq, Select.mk.injEq, List.cons.injEq, SelectItem.exprWithAlias.injEq,
      JoinConstraint.on.injEq, Expr.binaryOp.injEq, TableWithJoins.mk.injEq, Option.some.injEq]
      at old new
    simp_all
  rw [same] at equality table named
  exact ⟨equality, table, named⟩

theorem insertIdx_length {A : Type} (xs ys : List A) (a : A) :
    (xs ++ ys).insertIdx xs.length a = xs ++ a :: ys := by
  induction xs with
  | nil => rfl
  | cons x rest ih => exact congrArg (x :: ·) ih

theorem naturals_equals (a b : Semantics.Cell) :
    equals naturals a b = decide (a = b ∧ a ≠ .truth none) := by
  rcases a with (_ | _ | _) | m <;> rcases b with (_ | _ | _) | n <;>
    first | rfl | simp [equals, verdict, naturals, Semantics.Cell.operator, Semantics.Cell.compare, Semantics.Cell.order]

theorem naturals_promises : JoinPromises naturals where
  literal_true := rfl
  equal_symm a b := by
    rcases a with (_ | _ | _) | m <;> rcases b with (_ | _ | _) | n <;>
      first | rfl | simp [verdict, naturals, Semantics.Cell.operator, Semantics.Cell.compare, Semantics.Cell.order, eq_comm]
  same_symm a b := by
    change decide ([a] = [b]) = decide ([b] = [a])
    exact decide_eq_decide.mpr eq_comm
  same_key a b c same := by
    change decide ([a] = [b]) = _
    rw [naturals_equals] at same ⊢
    obtain ⟨rfl, null⟩ := of_decide_eq_true same
    apply decide_eq_decide.mpr
    constructor
    · intro heads
      obtain rfl : a = b := List.head_eq_of_cons_eq heads
      exact ⟨rfl, null⟩
    · rintro ⟨rfl, _⟩
      rfl
  same_name parts := decide_eq_true rfl
  table _ _ _ _ := rfl
  stored _ _ _ _ _ _ _ _ _ := rfl

/-- `JOIN LATERAL (SELECT count(*) AS "n" FROM "u" WHERE "u"."k" = "t"."k") a ON true`. -/
def countLateral : LateralAggregate where
  distinct := .no
  projection := [.exprWithAlias countCall ⟨"n", some '"'⟩]
  relation := .table [.identifier ⟨"u", some '"'⟩] none none
  selection := .binaryOp (.compoundIdentifier [⟨"u", some '"'⟩, ⟨"k", some '"'⟩]) .eq
    (.compoundIdentifier [⟨"t", some '"'⟩, ⟨"k", some '"'⟩])
  having := none
  orderBy := []
  limit := none
  offset := none
  alias_ := ⟨Ident.new "a", []⟩
  kind := .inner
  key := .compoundIdentifier [⟨"u", some '"'⟩, ⟨"k", some '"'⟩]
  outer := .compoundIdentifier [⟨"t", some '"'⟩, ⟨"k", some '"'⟩]

/-- A scope where `"u"` is empty, and one row of `"t"`. -/
def emptyU : Scope Semantics.Cell :=
  ⟨fun name => if name = [.identifier ⟨"u", some '"'⟩] then some ⟨[⟨["u"], "k"⟩], []⟩ else none, []⟩

def oneT : Table Semantics.Cell := ⟨[⟨["t"], "k"⟩], [[.number 1]]⟩

theorem count_rewritten :
    decorrelateLateralAggregateJoin 0 countLateral.join = some (countLateral.newJoin 0) := by
  have lower : "count".toLower = "count" := by
    rw [← String.toList_inj, toList_toLower]
    decide
  simp [countLateral, LateralAggregate.join, LateralAggregate.query, LateralAggregate.select,
    LateralAggregate.newJoin, LateralAggregate.groupedQuery, LateralAggregate.grouped,
    decorrelateLateralAggregateJoin, isJoinedOnLiteralTrue, plainTableQualifier, lastIdent,
    ObjectNamePart.asIdent, keyAndOuter, compoundReferenceQualifier, itemComputesAggregate,
    expressionComputesAggregate, countCall, Ident.new, lower, triggeringAggregates]

theorem count_evaluated : ∃ columns, joinMeaning naturals emptyU oneT countLateral.join =
    some ⟨columns, [[.number 1, .number 0]]⟩ := ⟨_, rfl⟩

theorem key_apart {name : String} (other : name.toList.head? ≠ some '_') :
    (keyAlias 0).folded ≠ name := by
  rintro rfl
  apply other
  have unquoted : ∀ value, (Ident.new value).folded = value.toLower := fun _ => rfl
  have mark : "__decorr_key_".toList.head? = some '_' := rfl
  rw [keyAlias, unquoted, toList_toLower, String.toList_append, List.map_append,
    List.head?_append, List.head?_map, mark]
  rfl

theorem count_columns : oneT.columns ++ derivedColumns naturals countLateral.alias_
    (countLateral.grouped 0) =
      [⟨["t"], "k"⟩, keyColumn countLateral 0, ⟨[(Ident.new "a").folded], "n"⟩] := by
  rw [derived_columns rfl]
  rfl

theorem count_named : (oneT.columns ++ derivedColumns naturals countLateral.alias_
      (countLateral.grouped 0)).findIdxs (·.answers
        (folded [Ident.new countLateral.alias_.name.value, keyAlias 0])) =
    [oneT.columns.length] := by
  rw [count_columns]
  have table : (keyAlias 0).folded ≠ "k" := key_apart (by decide)
  have item : (keyAlias 0).folded ≠ "n" := key_apart (by decide)
  simp [List.findIdxs_cons, Column.answers, folded, countLateral, keyColumn, table, item, oneT]
  exact List.suffix_refl _

theorem count_plain : Decorrelatable naturals emptyU oneT countLateral 0 ⟨[⟨["u"], "k"⟩], []⟩
    (fun _ => .number 0) (fun _ => .number 1) where
  distinct := rfl
  limit := rfl
  offset := rfl
  alias_ := rfl
  aggregates := rfl
  table := rfl
  key parts same := by
    cases same
    exact ⟨0, rfl, nofun⟩
  named := count_named
  wide l member := by
    cases List.mem_singleton.mp member
    rfl
  outer_inside l _ cells row := nomatch row
  outer_on l member d := by
    cases List.mem_singleton.mp member
    have key : "k" ≠ (keyAlias 0).folded := (key_apart (by decide)).symm
    change lookup _ ["t", "k"] [.row _ _] = _
    rw [count_columns, lookup]
    simp [List.findIdxs_cons, Column.answers, keyColumn, key]
  list l member some_ := absurd rfl some_

end PgCatalog.Replace
