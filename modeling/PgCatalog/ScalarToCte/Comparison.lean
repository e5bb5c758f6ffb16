import PgCatalog.Library.Datum
import PgCatalog.ScalarToCte.Correlation

/-! Which lifted comparisons mean in the join condition what they meant in the subquery:
each is read on an outer row and on the CTE row that carries the inner row's keys. -/
namespace PgCatalog.ScalarToCte

open Sql Library

def comparison : BinaryOperator → Option Comparison
  | .eq => some .eq
  | .notEq => some .notEq
  | .lt => some .lt
  | .ltEq => some .ltEq
  | .gt => some .gt
  | .gtEq => some .gtEq
  | _ => none

/-- The columns of one row, by folded path. -/
abbrev PathRow (α : Type) := List String → Datum α

def foldedPath (path : List Ident) : List String := path.map (·.folded)

section
variable {α : Type} [LinearOrder α]

/-- The truth of a comparison of columns, where both columns are found. -/
def truth (read : List Ident → Option (Datum α)) : Expr → Option (Option Bool)
  | .binaryOp left op right => do
    let c ← comparison op
    return Datum.compare c (← read (exprToColumnPath left)) (← read (exprToColumnPath right))
  | .anyOp left .eq right _ => do
    return Datum.anyEq (← read (exprToColumnPath left)) (← read (exprToColumnPath right))
  | _ => none

end

section
variable {α : Type}

/-- Columns as the subquery reads them: those under the outer alias are the outer row's. -/
def readWritten (outerAlias : Ident) (outerRow innerRow : PathRow α) (path : List Ident) :
    Option (Datum α) :=
  if path = [] then none
  else if path.head? = some outerAlias then some (outerRow (foldedPath path))
  else some (innerRow (foldedPath path))

/-- The name a projected column path is exposed under. -/
def exposedName (path : List Ident) : String := (path.getLast?.map (·.folded)).getD ""

/-- The columns of the lifted subquery: its value under the name the item has there (`col`
where it has none of its own), then its join keys. -/
def cteRow (pairs : List CorrelatedPredicate) (valueName : String) (innerRow : PathRow α)
    (value : Datum α) : List (String × Datum α) :=
  (valueName, value) :: (joinKeyPaths pairs).map fun path => (exposedName path, innerRow (foldedPath path))

/-- The one column of a name, where exactly one has it. -/
def soleColumn (row : List (String × Datum α)) (name : String) : Option (Datum α) :=
  match row.filter (·.1 = name) with
  | [found] => some found.2
  | _ => none

/-- Columns as the join condition reads them: the CTE's own, by one name after its alias,
and the outer row's. Two relations of one name make either unreadable. -/
def readOn (cte outerAlias : Ident) (outerRow : PathRow α) (row : List (String × Datum α)) :
    List Ident → Option (Datum α)
  | [] => none
  | head :: rest =>
    if head.folded = cte.folded then
      if outerAlias.folded = cte.folded then none
      else
        match rest with
        | [column] => soleColumn row column.folded
        | _ => none
    else some (outerRow (foldedPath (head :: rest)))

end

/-- The sides a comparison may have: the outer column on the left, unless the operator
reads alike both ways; the outer column as the array of an `ANY`. -/
def KeepsSides (outerAlias : Ident) : Expr → Prop
  | .binaryOp left op _ =>
    op = .eq ∨ op = .notEq ∨ (exprToColumnPath left).head? = some outerAlias
  | .anyOp _ _ right _ => (exprToColumnPath right).head? = some outerAlias
  | _ => True

/-- The key of a lifted comparison is the one column of its name that the CTE exposes. -/
def KeyResolves (cte outerAlias : Ident) (pairs : List CorrelatedPredicate) (valueName : String)
    (inner : List Ident) : Prop :=
  outerAlias.folded ≠ cte.folded ∧ inner.length ≤ 2 ∧ exposedName inner ≠ valueName ∧
    ∀ q ∈ pairs, exposedName q.inner = exposedName inner → q.inner = inner

/-- A duplicate-free list filtered by a name is one element exactly when no other has it. -/
theorem filter_name_eq_singleton {β : Type} [DecidableEq β] {name : β → String} {keys : List β}
    (nodup : keys.Nodup) {k : β} (member : k ∈ keys) :
    (∃ found, keys.filter (name · = name k) = [found]) ↔ ∀ q ∈ keys, name q = name k → q = k := by
  have here : k ∈ keys.filter (name · = name k) := List.mem_filter.mpr ⟨member, decide_eq_true rfl⟩
  constructor
  · rintro ⟨found, single⟩ q listed same
    have there : q ∈ keys.filter (name · = name k) :=
      List.mem_filter.mpr ⟨listed, decide_eq_true same⟩
    rw [single, List.mem_singleton] at here there
    exact there.trans here.symm
  · intro unique
    refine ⟨k, List.perm_singleton.mp ?_⟩
    rw [List.perm_ext_iff_of_nodup (nodup.filter _) (List.nodup_singleton k)]
    intro q
    rw [List.mem_singleton]
    constructor
    · intro filtered
      obtain ⟨listed, same⟩ := List.mem_filter.mp filtered
      exact unique q listed (of_decide_eq_true same)
    · rintro rfl
      exact here

section
variable {α : Type}

/-- A key column is found in the CTE row exactly when it is the only one of its name. -/
theorem soleColumn_key {pairs : List CorrelatedPredicate} {p : CorrelatedPredicate}
    (member : p ∈ pairs) (valueName : String) (innerRow : PathRow α) (value : Datum α) :
    soleColumn (cteRow pairs valueName innerRow value) (exposedName p.inner) =
      some (innerRow (foldedPath p.inner)) ∧ exposedName p.inner ≠ valueName ∧
        (∀ q ∈ pairs, exposedName q.inner = exposedName p.inner → q.inner = p.inner) ∨
    soleColumn (cteRow pairs valueName innerRow value) (exposedName p.inner) = none ∧
      ¬(exposedName p.inner ≠ valueName ∧
        ∀ q ∈ pairs, exposedName q.inner = exposedName p.inner → q.inner = p.inner) := by
  have key : p.inner ∈ joinKeyPaths pairs := mem_joinKeyPaths.mpr ⟨p, member, rfl⟩
  have unique_iff : (∀ q ∈ pairs, exposedName q.inner = exposedName p.inner → q.inner = p.inner) ↔
      ∃ found, (joinKeyPaths pairs).filter (exposedName · = exposedName p.inner) = [found] := by
    rw [filter_name_eq_singleton (nodup_joinKeyPaths pairs) key]
    constructor
    · rintro unique _ listed same
      obtain ⟨q, here, rfl⟩ := mem_joinKeyPaths.mp listed
      exact unique q here same
    · exact fun unique q here => unique q.inner (mem_joinKeyPaths.mpr ⟨q, here, rfl⟩)
  have filtered : p.inner ∈ (joinKeyPaths pairs).filter (exposedName · = exposedName p.inner) :=
    List.mem_filter.mpr ⟨key, decide_eq_true rfl⟩
  simp only [soleColumn, cteRow, List.filter_cons, List.filter_map, Function.comp_def]
  by_cases reserved : valueName = exposedName p.inner
  · refine .inr ⟨?_, fun both => both.1 reserved.symm⟩
    rw [if_pos (decide_eq_true reserved)]
    cases rest : (joinKeyPaths pairs).filter (exposedName · = exposedName p.inner) with
    | nil => rw [rest] at filtered; cases filtered
    | cons first more => rfl
  · rw [if_neg (by simpa using reserved)]
    by_cases single : ∃ found,
        (joinKeyPaths pairs).filter (exposedName · = exposedName p.inner) = [found]
    · refine .inl ⟨?_, fun same => reserved same.symm, unique_iff.mpr single⟩
      obtain ⟨found, eq⟩ := single
      rw [eq, List.mem_singleton] at filtered
      rw [eq, ← filtered]
      rfl
    · refine .inr ⟨?_, fun both => single (unique_iff.mp both.2)⟩
      rcases eq : (joinKeyPaths pairs).filter (exposedName · = exposedName p.inner) with
        _ | ⟨first, _ | ⟨second, more⟩⟩
      · rfl
      · exact absurd ⟨first, eq⟩ single
      · rfl

theorem readOn_key {cte outerAlias : Ident} {pairs : List CorrelatedPredicate}
    {p : CorrelatedPredicate} (member : p ∈ pairs) (nonempty : p.inner ≠ [])
    (valueName : String) (outerRow innerRow : PathRow α) (value : Datum α) :
    readOn cte outerAlias outerRow (cteRow pairs valueName innerRow value)
        (exprToColumnPath (qualifyWithCteAlias cte p.inner)) =
      some (innerRow (foldedPath p.inner)) ∧ KeyResolves cte outerAlias pairs valueName p.inner ∨
    readOn cte outerAlias outerRow (cteRow pairs valueName innerRow value)
        (exprToColumnPath (qualifyWithCteAlias cte p.inner)) = none ∧
      ¬KeyResolves cte outerAlias pairs valueName p.inner := by
  have named := soleColumn_key member valueName innerRow value
  have short : ∀ column : Ident, exposedName p.inner = column.folded → p.inner.length ≤ 2 →
      readOn cte outerAlias outerRow (cteRow pairs valueName innerRow value) [cte, column] =
        some (innerRow (foldedPath p.inner)) ∧ KeyResolves cte outerAlias pairs valueName p.inner ∨
      readOn cte outerAlias outerRow (cteRow pairs valueName innerRow value) [cte, column] = none ∧
        ¬KeyResolves cte outerAlias pairs valueName p.inner := by
    intro column exposed length
    simp only [readOn, if_true]
    by_cases clash : outerAlias.folded = cte.folded
    · exact .inr ⟨if_pos clash, fun resolves => resolves.1 clash⟩
    · rw [if_neg clash, ← exposed]
      obtain ⟨found, unique⟩ | ⟨missing, shared⟩ := named
      · exact .inl ⟨found, clash, length, unique⟩
      · exact .inr ⟨missing, fun resolves => shared resolves.2.2⟩
  rcases inner : p.inner with _ | ⟨first, _ | ⟨second, _ | ⟨third, rest⟩⟩⟩
  · exact absurd inner nonempty
  · simpa only [inner, qualifyWithCteAlias, exprToColumnPath] using
      short first (by rw [inner]; rfl) (by rw [inner]; exact Nat.le_succ 1)
  · simpa only [inner, qualifyWithCteAlias, exprToColumnPath] using
      short second (by rw [inner]; rfl) (by rw [inner]; exact Nat.le_refl 2)
  · refine .inr ⟨?_, fun resolves => absurd resolves.2.1 (by simp)⟩
    simp only [qualifyWithCteAlias, exprToColumnPath, readOn, if_true, ite_self]

theorem readOn_outer {cte outerAlias : Ident} (pairs : List CorrelatedPredicate)
    {p : CorrelatedPredicate} (root : p.outer.head? = some outerAlias)
    (apart : outerAlias.folded ≠ cte.folded) (valueName : String)
    (outerRow innerRow : PathRow α) (value : Datum α) :
    readOn cte outerAlias outerRow (cteRow pairs valueName innerRow value) p.outer =
      some (outerRow (foldedPath p.outer)) := by
  cases outer : p.outer with
  | nil => rw [outer] at root; cases root
  | cons head rest =>
    rw [outer] at root
    obtain rfl := Option.some.inj root
    simp only [readOn, if_neg apart]

theorem readWritten_outer {outerAlias : Ident} {path : List Ident}
    (root : path.head? = some outerAlias) (outerRow innerRow : PathRow α) :
    readWritten outerAlias outerRow innerRow path = some (outerRow (foldedPath path)) := by
  have nonempty : path ≠ [] := by
    rintro rfl
    cases root
  rw [readWritten, if_neg nonempty, if_pos root]

theorem readWritten_inner {outerAlias : Ident} {path : List Ident} (nonempty : path ≠ [])
    (root : path.head? ≠ some outerAlias) (outerRow innerRow : PathRow α) :
    readWritten outerAlias outerRow innerRow path = some (innerRow (foldedPath path)) := by
  rw [readWritten, if_neg nonempty, if_neg root]

end

/-- The conjuncts of a join's ON clause. -/
def onConjuncts (join : Join) : List Expr :=
  match join.constraint with
  | .on e => splitAnd e
  | _ => []

/-- The ON clause is the lifted comparisons and the outer-only predicates that repeat none. -/
theorem onConjuncts_buildLeftJoin (cte : Ident) (pairs : List CorrelatedPredicate)
    (outerOnly : List Expr) {e : Expr}
    (member : e ∈ pairs.map (onPredicate cte) ++
      outerOnly.filter fun pred => !pairs.any (isSamePred pred)) :
    ∀ c ∈ splitAnd e, c ∈ onConjuncts (buildLeftJoin cte pairs outerOnly) := by
  intro c inside
  rw [buildLeftJoin]
  cases parts : pairs.map (onPredicate cte) ++
      outerOnly.filter fun pred => !pairs.any (isSamePred pred) with
  | nil => rw [parts] at member; cases member
  | cons first rest =>
    simp only [buildAnd, onConjuncts, splitAnd_chain]
    exact List.mem_flatMap.mpr ⟨e, parts ▸ member, inside⟩

theorem comparison_of_isComparison {op : BinaryOperator} (compares : isComparison op = true) :
    ∃ c, comparison op = some c ∧ (c.flip = c ↔ op = .eq ∨ op = .notEq) := by
  cases op <;> first | exact ⟨_, rfl, by decide⟩ | cases compares

section
variable {α : Type} [LinearOrder α]

theorem truth_binaryOp {read : List Ident → Option (Datum α)} {left right : Expr}
    {op : BinaryOperator} {c : Comparison} {x y : Datum α} (compares : comparison op = some c)
    (first : read (exprToColumnPath left) = some x)
    (second : read (exprToColumnPath right) = some y) :
    truth read (.binaryOp left op right) = some (Datum.compare c x y) := by
  simp only [truth, compares, first, second, Option.bind_eq_bind, Option.bind_some]
  rfl

theorem truth_anyOp {read : List Ident → Option (Datum α)} {left right : Expr} {isSome : Bool}
    {x y : Datum α} (first : read (exprToColumnPath left) = some x)
    (second : read (exprToColumnPath right) = some y) :
    truth read (.anyOp left .eq right isSome) = some (Datum.anyEq x y) := by
  simp only [truth, first, second, Option.bind_eq_bind, Option.bind_some]
  rfl

/-- A predicate with an unreadable key has no truth value at all. -/
theorem truth_onPredicate_none {read : List Ident → Option (Datum α)} {cte : Ident}
    {p : CorrelatedPredicate} (missing : read (exprToColumnPath (qualifyWithCteAlias cte p.inner)) =
      none) : truth read (onPredicate cte p) = none := by
  rw [onPredicate]
  split
  · cases p.op <;> simp only [truth, missing, Option.bind_eq_bind, Option.bind_none]
  · simp only [truth, missing, Option.bind_eq_bind, Option.bind_none, Option.bind_fun_none]

/-- A lifted comparison read where both its columns are found: as written, and as emitted. -/
theorem truth_lifted {c : Expr} {outerAlias : Ident} {p : CorrelatedPredicate}
    (lifted : liftedPair c outerAlias = some p) {read : List Ident → Option (Datum α)}
    {x y : Datum α} (outer : read p.outer = some x) (inner : read p.inner = some y) :
    (p.isAny = true ∧ (KeepsSides outerAlias c ∧ truth read c = some (Datum.anyEq y x) ∨
      ¬KeepsSides outerAlias c ∧ truth read c = some (Datum.anyEq x y))) ∨
    (p.isAny = false ∧ ∃ op, comparison p.op = some op ∧
      (KeepsSides outerAlias c ∧ truth read c = some (Datum.compare op x y) ∨
        ¬KeepsSides outerAlias c ∧ op.flip ≠ op ∧ truth read c = some (Datum.compare op y x))) := by
  obtain ⟨left, right, outer_root, inner_root, -, sides, kind⟩ := liftedPair_cases lifted
  obtain ⟨any, -, isSome, rfl⟩ | ⟨any, compares, rfl⟩ := kind
  · refine .inl ⟨any, ?_⟩
    obtain ⟨is_left, is_right⟩ | ⟨is_right, is_left⟩ := sides
    · rw [is_left] at outer
      rw [is_right] at inner inner_root
      exact .inr ⟨inner_root, truth_anyOp outer inner⟩
    · rw [is_right] at outer outer_root
      rw [is_left] at inner
      exact .inl ⟨outer_root, truth_anyOp inner outer⟩
  · obtain ⟨op, compared, symmetric⟩ := comparison_of_isComparison compares
    refine .inr ⟨any, op, compared, ?_⟩
    obtain ⟨is_left, is_right⟩ | ⟨is_right, is_left⟩ := sides
    · rw [is_left] at outer outer_root
      rw [is_right] at inner
      exact .inl ⟨.inr (.inr outer_root), truth_binaryOp compared outer inner⟩
    · rw [is_right] at outer
      rw [is_left] at inner inner_root
      have written := truth_binaryOp compared inner outer
      by_cases flips : op.flip = op
      · rw [Datum.compare_flip, flips] at written
        exact .inl ⟨(symmetric.mp flips).imp_right .inl, written⟩
      · refine .inr ⟨?_, flips, written⟩
        rintro (equal | unequal | left_outer)
        · exact flips (symmetric.mpr (.inl equal))
        · exact flips (symmetric.mpr (.inr unequal))
        · exact inner_root left_outer

theorem truth_onPredicate {cte : Ident} {p : CorrelatedPredicate}
    {read : List Ident → Option (Datum α)} {x y : Datum α} (outer : read p.outer = some x)
    (key : read (exprToColumnPath (qualifyWithCteAlias cte p.inner)) = some y) :
    (p.isAny = true → p.op = .eq → truth read (onPredicate cte p) = some (Datum.anyEq y x)) ∧
    (p.isAny = false → ∀ op, comparison p.op = some op →
      truth read (onPredicate cte p) = some (Datum.compare op x y)) := by
  constructor
  · intro any equal
    rw [onPredicate, if_pos any, equal]
    exact truth_anyOp key outer
  · intro any op compared
    rw [onPredicate, if_neg (by rw [any]; exact Bool.false_ne_true)]
    exact truth_binaryOp compared outer key

end

theorem liftedPair_isAny {c : Expr} {outerAlias : Ident} {p : CorrelatedPredicate}
    (lifted : liftedPair c outerAlias = some p) (any : p.isAny = true) : p.op = .eq := by
  obtain ⟨_, _, _, _, _, _, ⟨_, equal, _⟩ | ⟨plain, _⟩⟩ := liftedPair_cases lifted
  · exact equal
  · rw [any] at plain
    cases plain

theorem onPredicate_ne_and {c : Expr} {outerAlias : Ident} {p : CorrelatedPredicate}
    (lifted : liftedPair c outerAlias = some p) (cte : Ident) (left right : Expr) :
    onPredicate cte p ≠ .binaryOp left .and right := by
  intro same
  obtain ⟨_, _, _, _, _, _, ⟨any, _⟩ | ⟨any, compares, _⟩⟩ := liftedPair_cases lifted
  · simp only [onPredicate, any, if_true, reduceCtorEq] at same
  · simp only [onPredicate, any, Bool.false_eq_true, if_false, Expr.binaryOp.injEq] at same
    rw [same.2.1] at compares
    cases compares

section
variable {α : Type} [LinearOrder α] [Nontrivial α]

/-- A lifted comparison means in the join condition what it meant in the subquery, on
every pair of rows, exactly when it keeps its sides and its key resolves. -/
theorem lifted_comparison_keeps_meaning_iff {outerAliases : List Ident} {outerAlias : Ident}
    {pred c : Expr} {p : CorrelatedPredicate} (bound : outerAlias ∈ outerAliases)
    (conjunct : c ∈ splitAnd pred) (lifted : liftedPair c outerAlias = some p) (cte : Ident)
    (valueName : String) (outerOnly : List Expr) :
    onPredicate cte p ∈
        onConjuncts (buildLeftJoin cte (correlatedPairs outerAliases pred) outerOnly) ∧
      ((∀ (outerRow innerRow : PathRow α) (value : Datum α),
          truth (readOn cte outerAlias outerRow
            (cteRow (correlatedPairs outerAliases pred) valueName innerRow value)) (onPredicate cte p) =
          truth (readWritten outerAlias outerRow innerRow) c) ↔
        KeepsSides outerAlias c ∧
          KeyResolves cte outerAlias (correlatedPairs outerAliases pred) valueName p.inner) := by
  have member : p ∈ correlatedPairs outerAliases pred :=
    mem_correlatedPairs.mpr ⟨outerAlias, bound, c, conjunct, lifted⟩
  generalize correlatedPairs outerAliases pred = pairs at member ⊢
  obtain ⟨left, right, outer_root, inner_root, nonempty, -⟩ := liftedPair_cases lifted
  have written := fun outerRow innerRow : PathRow α =>
    truth_lifted lifted (readWritten_outer outer_root outerRow innerRow)
      (readWritten_inner nonempty inner_root outerRow innerRow)
  constructor
  · refine onConjuncts_buildLeftJoin cte pairs outerOnly
      (List.mem_append_left _ (List.mem_map.mpr ⟨p, member, rfl⟩)) _ ?_
    rw [splitAnd_other (onPredicate_ne_and lifted cte)]
    exact List.mem_singleton_self _
  by_cases resolves : KeyResolves cte outerAlias pairs valueName p.inner
  · have emitted := fun (outerRow innerRow : PathRow α) value =>
      truth_onPredicate (readOn_outer pairs outer_root resolves.1 valueName outerRow innerRow
        value)
        ((readOn_key member nonempty valueName outerRow innerRow value).resolve_right
          fun missing => missing.2 resolves).1
    constructor
    · intro same
      refine ⟨?_, resolves⟩
      by_contra swapped
      -- rows of two different values tell the swapped comparison from the emitted one
      cases any : p.isAny with
      | true =>
        obtain ⟨a, -⟩ := exists_pair_ne α
        obtain ⟨x, y, different⟩ := Datum.anyEq_swap_ne a
        have at_rows := same (fun _ => y) (fun _ => x) .null
        rw [(emitted _ _ _).1 any (liftedPair_isAny lifted any)] at at_rows
        obtain ⟨-, ⟨kept, -⟩ | ⟨-, read⟩⟩ | ⟨plain, -⟩ := written (fun _ => y) (fun _ => x)
        · exact swapped kept
        · rw [read] at at_rows
          exact different (Option.some.inj at_rows)
        · rw [any] at plain
          cases plain
      | false =>
        obtain ⟨any', -⟩ | ⟨-, op, compared, ⟨kept, -⟩ | ⟨-, strict, -⟩⟩ :=
          written (fun _ => .null) (fun _ => .null)
        · rw [any] at any'
          cases any'
        · exact swapped kept
        · obtain ⟨x, y, different⟩ := Datum.compare_flip_ne (α := α) strict
          have at_rows := same (fun _ => x) (fun _ => y) .null
          rw [(emitted _ _ _).2 any op compared] at at_rows
          obtain ⟨any', -⟩ | ⟨-, op', compared', ⟨kept, -⟩ | ⟨-, -, read⟩⟩ :=
            written (fun _ => x) (fun _ => y)
          · rw [any] at any'
            cases any'
          · exact swapped kept
          · rw [read, Option.some.inj (compared'.symm.trans compared)] at at_rows
            exact different (Option.some.inj at_rows)
    · rintro ⟨keeps, -⟩ outerRow innerRow value
      obtain ⟨any, ⟨-, read⟩ | ⟨swapped, -⟩⟩ | ⟨any, op, compared, ⟨-, read⟩ | ⟨swapped, -⟩⟩ :=
        written outerRow innerRow
      · rw [read, (emitted _ _ _).1 any (liftedPair_isAny lifted any)]
      · exact absurd keeps swapped
      · rw [read, (emitted _ _ _).2 any op compared]
      · exact absurd keeps swapped
  · refine iff_of_false (fun same => ?_) (fun both => resolves both.2)
    have row : PathRow α := fun _ => .null
    have unreadable := (readOn_key member nonempty valueName row row .null).resolve_left
      fun found => resolves found.2
    have at_rows := same row row .null
    rw [truth_onPredicate_none unreadable.1] at at_rows
    obtain ⟨-, ⟨-, read⟩ | ⟨-, read⟩⟩ | ⟨-, _, -, ⟨-, read⟩ | ⟨-, -, read⟩⟩ := written row row
    all_goals
      rw [read] at at_rows
      cases at_rows

end

/-- `a2.id op a1.id`, with the inner column on the left. -/
def innerFirst (op : BinaryOperator) : Expr :=
  .binaryOp (.compoundIdentifier [.new "a2", .new "id"]) op
    (.compoundIdentifier [.new "a1", .new "id"])

def innerFirstPair (op : BinaryOperator) : CorrelatedPredicate :=
  ⟨[.new "a1", .new "id"], [.new "a2", .new "id"], op, false⟩

theorem equality_keeps_meaning :
    (Ident.new "a1" ∈ [Ident.new "a1"] ∧ innerFirst .eq ∈ splitAnd (innerFirst .eq) ∧
      liftedPair (innerFirst .eq) (.new "a1") = some (innerFirstPair .eq)) ∧
    ((∀ (outerRow innerRow : PathRow ℕ) (value : Datum ℕ),
        truth (readOn (.new "__cte1") (.new "a1") outerRow
          (cteRow (correlatedPairs [.new "a1"] (innerFirst .eq)) "col" innerRow value))
          (onPredicate (.new "__cte1") (innerFirstPair .eq)) =
        truth (readWritten (.new "a1") outerRow innerRow) (innerFirst .eq)) ↔
      KeepsSides (.new "a1") (innerFirst .eq) ∧
        KeyResolves (.new "__cte1") (.new "a1") (correlatedPairs [.new "a1"] (innerFirst .eq))
          "col" (innerFirstPair .eq).inner) :=
  have bound : Ident.new "a1" ∈ [Ident.new "a1"] := List.mem_singleton_self _
  have conjunct : innerFirst .eq ∈ splitAnd (innerFirst .eq) := List.mem_singleton_self _
  have lifted : liftedPair (innerFirst .eq) (.new "a1") = some (innerFirstPair .eq) := by decide
  ⟨⟨bound, conjunct, lifted⟩,
    (lifted_comparison_keeps_meaning_iff bound conjunct lifted (.new "__cte1") "col" []).2⟩

/-- `a2.id < a1.id` is emitted as `a1.id < __cte1.id`: on 2 outside and 1 inside the one
is true and the other false. -/
theorem inner_first_less_than_reversed :
    truth (readWritten (.new "a1") (fun _ => .scalar 2) (fun _ => .scalar 1)) (innerFirst .lt) =
      some (some true) ∧
    correlatedPairs [.new "a1"] (innerFirst .lt) = [innerFirstPair .lt] ∧
    truth (readOn (.new "__cte1") (.new "a1") (fun _ => .scalar 2)
        (cteRow (correlatedPairs [.new "a1"] (innerFirst .lt)) "col" (fun _ => .scalar 1) .null))
        (onPredicate (.new "__cte1") (innerFirstPair .lt)) =
      some (some false) := by
  decide +kernel

end PgCatalog.ScalarToCte
