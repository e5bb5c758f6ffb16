import Mathlib.Data.List.Nodup
import PgCatalog.Sql.Visit

/-! How the rewriter finds the comparisons that tie a scalar subquery to the query around
it, and the join condition it writes for them. -/
namespace PgCatalog.ScalarToCte

open Sql

mutual

/-- The compound column paths the walk of an expression reaches. -/
def collectPaths : Expr → List (List Ident)
  | .compoundIdentifier p => [p]
  | .binaryOp left _ right => collectPaths left ++ collectPaths right
  | .unaryOp _ expr => collectPaths expr
  | .nested expr => collectPaths expr
  | .cast _ expr _ => collectPaths expr
  | .case operand conditions elseResult =>
    collectPathsOption operand ++ collectPathsCases conditions ++ collectPathsOption elseResult
  | _ => []

def collectPathsOption : Option Expr → List (List Ident)
  | none => []
  | some e => collectPaths e

def collectPathsCases : List CaseWhen → List (List Ident)
  | [] => []
  | ⟨condition, result⟩ :: rest =>
    collectPaths condition ++ collectPaths result ++ collectPathsCases rest

end

/-- Some reached path starts with the outer alias, and none starts with another name. -/
def isOuterOnly (e : Expr) (outer : Ident) : Bool :=
  (collectPaths e).any (·.head? = some outer) && (collectPaths e).all (·.head? = some outer)

/-- One correlated comparison, `t1.x <> t2.y`. -/
structure CorrelatedPredicate where
  outer : List Ident
  inner : List Ident
  op : BinaryOperator
  isAny : Bool
  deriving DecidableEq, Repr

def exprToColumnPath : Expr → List Ident
  | .compoundIdentifier p => p
  | .identifier id => [id]
  | _ => []

/-- Appended unless it is there already. -/
def pushNew {α : Type} [DecidableEq α] (out : List α) (a : α) : List α :=
  if a ∈ out then out else out ++ [a]

def isComparison : BinaryOperator → Bool
  | .eq | .notEq | .lt | .ltEq | .gt | .gtEq => true
  | _ => false

/-- The candidate a comparison of two columns makes: exactly one side starts with the
outer alias, and the operator is kept as written whichever side that is. -/
def correlatedPair (left right : Expr) (outerAlias : Ident) (op : BinaryOperator) (isAny : Bool) :
    Option CorrelatedPredicate :=
  let leftPath := exprToColumnPath left
  let rightPath := exprToColumnPath right
  match leftPath.head?, rightPath.head? with
  | some leftRoot, some rightRoot =>
    if leftRoot = outerAlias ∧ rightRoot ≠ outerAlias then
      some { outer := leftPath, inner := rightPath, op, isAny }
    else if rightRoot = outerAlias ∧ leftRoot ≠ outerAlias then
      some { outer := rightPath, inner := leftPath, op, isAny }
    else none
  | _, _ => none

/-- What one conjunct is lifted as, if it is a comparison of the two sides. -/
def liftedPair (conjunct : Expr) (outerAlias : Ident) : Option CorrelatedPredicate :=
  match conjunct with
  | .anyOp left .eq right _ => correlatedPair left right outerAlias .eq true
  | .binaryOp left op right =>
    if isComparison op then correlatedPair left right outerAlias op false else none
  | _ => none

def collectCorrPreds (predicate : Expr) (outerAlias : Ident) (out : List CorrelatedPredicate) :
    List CorrelatedPredicate :=
  match predicate with
  | .binaryOp left .and right =>
    collectCorrPreds right outerAlias (collectCorrPreds left outerAlias out)
  | other =>
    match liftedPair other outerAlias with
    | some cand => pushNew out cand
    | none => out

/-- The lifted comparisons of a WHERE clause, alias by alias and each once. -/
def correlatedPairs (outerAliases : List Ident) (pred : Expr) : List CorrelatedPredicate :=
  (outerAliases.foldl (fun out alias_ => collectCorrPreds pred alias_ out) []).foldl pushNew []

/-- The inner columns the join needs, each once. -/
def joinKeyPaths (pairs : List CorrelatedPredicate) : List (List Ident) :=
  (pairs.map (·.inner)).foldl pushNew []

def splitAnd : Expr → List Expr
  | .binaryOp left .and right => splitAnd left ++ splitAnd right
  | other => [other]

/-- An AND chain nested to the left, as `build_and` and the join builder make it. -/
def buildAnd : List Expr → Option Expr
  | [] => none
  | first :: rest => some (rest.foldl (fun chain e => .binaryOp chain .and e) first)

/-- Whether a conjunct is one that was lifted; the two operand orders count as one. -/
def isSamePred (e : Expr) (p : CorrelatedPredicate) : Bool :=
  match e with
  | .binaryOp left op right =>
    op = p.op && ((exprToColumnPath left = p.outer && exprToColumnPath right = p.inner) ||
      (exprToColumnPath right = p.outer && exprToColumnPath left = p.inner))
  | .anyOp left .eq right _ =>
    p.isAny && ((exprToColumnPath left = p.inner && exprToColumnPath right = p.outer) ||
      (exprToColumnPath right = p.inner && exprToColumnPath left = p.outer))
  | _ => false

/-- A key column as the CTE exposes it: the alias takes the place of the first part, and
a bare column goes after it. -/
def qualifyWithCteAlias (cte : Ident) : List Ident → Expr
  | [] => .compoundIdentifier [cte]
  | [column] => .compoundIdentifier [cte, column]
  | _ :: rest => .compoundIdentifier (cte :: rest)

/-- The comparison the join condition makes of a lifted pair. -/
def onPredicate (cte : Ident) (p : CorrelatedPredicate) : Expr :=
  if p.isAny then
    .anyOp (qualifyWithCteAlias cte p.inner) p.op (.compoundIdentifier p.outer) false
  else
    .binaryOp (.compoundIdentifier p.outer) p.op (qualifyWithCteAlias cte p.inner)

/-- A table factor that names one relation and nothing else. -/
def plainTable (name : Ident) : TableFactor := .table [.identifier name] none none

def buildLeftJoin (cte : Ident) (pairs : List CorrelatedPredicate) (outerOnly : List Expr) : Join :=
  let outerOnlyFiltered := outerOnly.filter fun pred => !pairs.any (isSamePred pred)
  match buildAnd (pairs.map (onPredicate cte) ++ outerOnlyFiltered) with
  | some on => ⟨plainTable cte, .leftOuter, .on on⟩
  | none => ⟨plainTable cte, .left, .on (.value (.boolean true))⟩

section
variable {α : Type} [DecidableEq α]

theorem mem_pushNew {out : List α} {a b : α} : b ∈ pushNew out a ↔ b ∈ out ∨ b = a := by
  rw [pushNew]
  split
  · rename_i present
    exact ⟨.inl, fun h => h.elim id (· ▸ present)⟩
  · rw [List.mem_append, List.mem_singleton]

theorem mem_foldl_pushNew {xs out : List α} {b : α} :
    b ∈ xs.foldl pushNew out ↔ b ∈ out ∨ b ∈ xs := by
  induction xs generalizing out with
  | nil => simp only [List.foldl_nil, List.not_mem_nil, or_false]
  | cons a rest ih => simp only [List.foldl_cons, ih, mem_pushNew, List.mem_cons, or_assoc]

theorem nodup_pushNew {out : List α} (nodup : out.Nodup) (a : α) : (pushNew out a).Nodup := by
  rw [pushNew]
  split
  · exact nodup
  · rename_i absent
    refine List.nodup_append.mpr ⟨nodup, List.nodup_singleton a, ?_⟩
    intro b member c single
    rw [List.mem_singleton.mp single]
    exact fun same => absent (same ▸ member)

theorem nodup_foldl_pushNew (xs : List α) {out : List α} (nodup : out.Nodup) :
    (xs.foldl pushNew out).Nodup := by
  induction xs generalizing out with
  | nil => exact nodup
  | cons a rest ih => exact ih (nodup_pushNew nodup a)

end

theorem nodup_joinKeyPaths (pairs : List CorrelatedPredicate) : (joinKeyPaths pairs).Nodup :=
  nodup_foldl_pushNew _ List.nodup_nil

theorem mem_joinKeyPaths {pairs : List CorrelatedPredicate} {path : List Ident} :
    path ∈ joinKeyPaths pairs ↔ ∃ p ∈ pairs, p.inner = path := by
  simp only [joinKeyPaths, mem_foldl_pushNew, List.not_mem_nil, false_or, List.mem_map]

theorem splitAnd_other {e : Expr} (other : ∀ left right, e ≠ .binaryOp left .and right) :
    splitAnd e = [e] := by
  rw [splitAnd.eq_def]
  split
  · exact absurd rfl (other _ _)
  · rfl

theorem splitAnd_chain (first : Expr) (rest : List Expr) :
    splitAnd (rest.foldl (fun chain e => .binaryOp chain .and e) first) =
      (first :: rest).flatMap splitAnd := by
  induction rest generalizing first with
  | nil => simp only [List.foldl_nil, List.flatMap_cons, List.flatMap_nil, List.append_nil]
  | cons second rest ih =>
    rw [List.foldl_cons, ih, List.flatMap_cons, List.flatMap_cons, List.flatMap_cons, splitAnd,
      List.append_assoc]

theorem splitAnd_conjunct {pred c : Expr} (conjunct : c ∈ splitAnd pred) : splitAnd c = [c] := by
  fun_induction splitAnd pred with
  | case1 left right first second =>
    exact (List.mem_append.mp conjunct).elim first second
  | case2 other isOther =>
    rw [List.mem_singleton] at conjunct
    rw [conjunct, splitAnd_other isOther]

/-- The conjuncts of a WHERE clause that may be missing. -/
def conjuncts : Option Expr → List Expr
  | some pred => splitAnd pred
  | none => []

/-- Conjuncts survive being put together again. -/
theorem conjuncts_buildAnd {parts : List Expr} (apart : ∀ e ∈ parts, splitAnd e = [e]) :
    conjuncts (buildAnd parts) = parts := by
  cases parts with
  | nil => rfl
  | cons first rest =>
    rw [buildAnd, conjuncts, splitAnd_chain]
    calc (first :: rest).flatMap splitAnd = (first :: rest).flatMap fun e => [e] :=
          List.flatMap_congr apart
      _ = first :: rest := List.flatMap_singleton' _

/-- The search of a WHERE clause finds what its conjuncts are lifted as, and nothing else. -/
theorem mem_collectCorrPreds (pred : Expr) (outerAlias : Ident) (out : List CorrelatedPredicate)
    (p : CorrelatedPredicate) :
    p ∈ collectCorrPreds pred outerAlias out ↔
      p ∈ out ∨ ∃ c ∈ splitAnd pred, liftedPair c outerAlias = some p := by
  fun_induction collectCorrPreds pred outerAlias out with
  | case1 out left right first second =>
    simp only [first, second, splitAnd, List.mem_append, or_and_right, exists_or, or_assoc]
  | case2 out other isOther cand found =>
    simp only [splitAnd_other isOther, mem_pushNew, List.mem_singleton, exists_eq_left, found,
      Option.some.injEq]
    exact or_congr_right eq_comm
  | case3 out other isOther nothing =>
    simp only [splitAnd_other isOther, List.mem_singleton, exists_eq_left, nothing, reduceCtorEq,
      or_false]

/-- The pairs of a subquery are what its conjuncts are lifted as, for any outer alias. -/
theorem mem_correlatedPairs {outerAliases : List Ident} {pred : Expr} {p : CorrelatedPredicate} :
    p ∈ correlatedPairs outerAliases pred ↔
      ∃ alias_ ∈ outerAliases, ∃ c ∈ splitAnd pred, liftedPair c alias_ = some p := by
  have all : ∀ (aliases : List Ident) (out : List CorrelatedPredicate),
      p ∈ aliases.foldl (fun out alias_ => collectCorrPreds pred alias_ out) out ↔
        p ∈ out ∨ ∃ alias_ ∈ aliases, ∃ c ∈ splitAnd pred, liftedPair c alias_ = some p := by
    intro aliases
    induction aliases with
    | nil => simp only [List.foldl_nil, List.not_mem_nil, false_and, exists_false, or_false,
        implies_true]
    | cons first rest ih =>
      intro out
      simp only [List.foldl_cons, ih, mem_collectCorrPreds, List.mem_cons, exists_eq_or_imp,
        or_assoc]
  simp only [correlatedPairs, mem_foldl_pushNew, List.not_mem_nil, false_or, all]

/-- Everything a lifted conjunct is: a comparison with the outer alias at the head of
exactly one of its two columns. -/
theorem liftedPair_cases {c : Expr} {outerAlias : Ident} {p : CorrelatedPredicate}
    (lifted : liftedPair c outerAlias = some p) :
    ∃ left right, p.outer.head? = some outerAlias ∧ p.inner.head? ≠ some outerAlias ∧
      p.inner ≠ [] ∧
      ((p.outer = exprToColumnPath left ∧ p.inner = exprToColumnPath right) ∨
        (p.outer = exprToColumnPath right ∧ p.inner = exprToColumnPath left)) ∧
      ((p.isAny = true ∧ p.op = .eq ∧ ∃ isSome, c = .anyOp left .eq right isSome) ∨
        (p.isAny = false ∧ isComparison p.op = true ∧ c = .binaryOp left p.op right)) := by
  have pair : ∀ {left right : Expr} {op : BinaryOperator} {isAny : Bool},
      correlatedPair left right outerAlias op isAny = some p →
      p.op = op ∧ p.isAny = isAny ∧ p.outer.head? = some outerAlias ∧
        p.inner.head? ≠ some outerAlias ∧ p.inner ≠ [] ∧
        ((p.outer = exprToColumnPath left ∧ p.inner = exprToColumnPath right) ∨
          (p.outer = exprToColumnPath right ∧ p.inner = exprToColumnPath left)) := by
    intro left right op isAny made
    simp only [correlatedPair] at made
    split at made
    · rename_i leftRoot rightRoot first second
      have nonempty : ∀ {path : List Ident} {root : Ident}, path.head? = some root → path ≠ [] := by
        rintro path root head rfl
        cases head
      split at made
      · rename_i sides
        cases made
        exact ⟨rfl, rfl, sides.1 ▸ first, fun same => sides.2 (Option.some.inj (second ▸ same)),
          nonempty second, .inl ⟨rfl, rfl⟩⟩
      · split at made
        · rename_i sides
          cases made
          exact ⟨rfl, rfl, sides.1 ▸ second, fun same => sides.2 (Option.some.inj (first ▸ same)),
            nonempty first, .inr ⟨rfl, rfl⟩⟩
        · cases made
    · cases made
  rw [liftedPair.eq_def] at lifted
  split at lifted
  · rename_i left right isSome
    obtain ⟨op, any, outer, inner, nonempty, sides⟩ := pair lifted
    exact ⟨left, right, outer, inner, nonempty, sides, .inl ⟨any, op, isSome, rfl⟩⟩
  · rename_i left op right
    split at lifted
    · rename_i compares
      obtain ⟨rfl, any, outer, inner, nonempty, sides⟩ := pair lifted
      exact ⟨left, right, outer, inner, nonempty, sides, .inr ⟨any, compares, rfl⟩⟩
    · cases lifted
  · cases lifted

end PgCatalog.ScalarToCte
