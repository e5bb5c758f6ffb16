import PgCatalog.Sql.Visit

/-! The walk several rewriters make by hand: down operators, casts, parentheses, CASE and
the listed arguments of functions, acting on the columns and subqueries it ends at. -/
namespace PgCatalog.Sql

section
variable {m : Type → Type} [Monad m]

mutual

def Expr.walked (leaf : Expr → m Expr) : Expr → m Expr
  | .identifier id => leaf (.identifier id)
  | .compoundIdentifier parts => leaf (.compoundIdentifier parts)
  | .subquery q => leaf (.subquery q)
  | .binaryOp left op right => do
    let left ← left.walked leaf
    let right ← right.walked leaf
    return .binaryOp left op right
  | .nested inner => return .nested (← inner.walked leaf)
  | .unaryOp op inner => return .unaryOp op (← inner.walked leaf)
  | .cast kind inner dataType => return .cast kind (← inner.walked leaf) dataType
  | .case operand conditions elseResult => do
    let operand ← walkedOption leaf operand
    let conditions ← walkedCases leaf conditions
    let elseResult ← walkedOption leaf elseResult
    return .case operand conditions elseResult
  | .function ⟨name, .list distinct args orderBy, filter, over_, withinGroup⟩ => do
    let args ← walkedArgs leaf args
    return .function ⟨name, .list distinct args orderBy, filter, over_, withinGroup⟩
  | e => return e

def walkedOption (leaf : Expr → m Expr) : Option Expr → m (Option Expr)
  | none => return none
  | some e => return some (← e.walked leaf)

def walkedCases (leaf : Expr → m Expr) : List CaseWhen → m (List CaseWhen)
  | [] => return []
  | ⟨condition, result⟩ :: rest => do
    let condition ← condition.walked leaf
    let result ← result.walked leaf
    return ⟨condition, result⟩ :: (← walkedCases leaf rest)

def walkedArgs (leaf : Expr → m Expr) : List FunctionArg → m (List FunctionArg)
  | [] => return []
  | .unnamed (.expr e) :: rest => do
    let e ← e.walked leaf
    return .unnamed (.expr e) :: (← walkedArgs leaf rest)
  | .named name (.expr e) :: rest => do
    let e ← e.walked leaf
    return .named name (.expr e) :: (← walkedArgs leaf rest)
  | arg :: rest => return arg :: (← walkedArgs leaf rest)

end

end

theorem mapM_eq_pure {m : Type → Type} [Monad m] [LawfulMonad m] {α β : Type} {f : α → m β}
    {g : α → β} {xs : List α} (same : ∀ a ∈ xs, f a = pure (g a)) :
    xs.mapM f = pure (xs.map g) := by
  induction xs with
  | nil => rfl
  | cons a rest ih =>
    obtain ⟨first, later⟩ := List.forall_mem_cons.mp same
    rw [List.mapM_cons, first, pure_bind, ih later, pure_bind, List.map_cons]

def isSubquery : Expr → Bool
  | .subquery _ => true
  | _ => false

/-- A leaf action that leaves columns as they are. -/
def ActsOnSubqueries {m : Type → Type} [Monad m] (leaf : Expr → m Expr) : Prop :=
  ∀ e, isSubquery e = false → leaf e = pure e

section
variable {m : Type → Type} [Monad m] [LawfulMonad m] {leaf : Expr → m Expr}

mutual

/-- A walk that changes no leaf it meets leaves an expression as it is. -/
theorem Expr.walked_fixed : ∀ e : Expr,
    (∀ x ∈ e.visited, leaf x = pure x) → e.walked leaf = pure e
  | .identifier _, fixed => fixed _ List.mem_cons_self
  | .compoundIdentifier _, fixed => fixed _ List.mem_cons_self
  | .subquery _, fixed => fixed _ List.mem_cons_self
  | .binaryOp left op right, fixed => by
    simp only [Expr.visited, List.mem_cons, List.mem_append] at fixed
    rw [Expr.walked, left.walked_fixed fun x h => fixed x (.inr (.inl h)),
      right.walked_fixed fun x h => fixed x (.inr (.inr h)), pure_bind, pure_bind]
  | .nested inner, fixed => by
    rw [Expr.walked, inner.walked_fixed fun x h => fixed x (List.mem_cons_of_mem _ h), pure_bind]
  | .unaryOp op inner, fixed => by
    rw [Expr.walked, inner.walked_fixed fun x h => fixed x (List.mem_cons_of_mem _ h), pure_bind]
  | .cast kind inner dataType, fixed => by
    rw [Expr.walked, inner.walked_fixed fun x h => fixed x (List.mem_cons_of_mem _ h), pure_bind]
  | .case operand conditions elseResult, fixed => by
    simp only [Expr.visited, List.mem_cons, List.mem_append] at fixed
    rw [Expr.walked, walkedOption_fixed operand fun x h => fixed x (.inr (.inl (.inl h))),
      walkedCases_fixed conditions fun x h => fixed x (.inr (.inl (.inr h))),
      walkedOption_fixed elseResult fun x h => fixed x (.inr (.inr h)), pure_bind, pure_bind,
      pure_bind]
  | .function ⟨_, .list _ args _, _, _, _⟩, fixed => by
    simp only [Expr.visited, Function.visited, FunctionArguments.visited, List.mem_cons,
      List.mem_append] at fixed
    rw [Expr.walked, walkedArgs_fixed args fun x h => fixed x (.inr (.inl (.inl (.inl (.inl h))))),
      pure_bind]
  | .function ⟨_, .none, _, _, _⟩, _ => rfl
  | .function ⟨_, .subquery _, _, _, _⟩, _ => rfl
  | .value _, _ => rfl
  | .anyOp _ _ _ _, _ => rfl
  | .isTest _ _, _ => rfl
  | .isDistinctFrom _ _, _ => rfl
  | .isNotDistinctFrom _ _, _ => rfl
  | .compoundFieldAccess _ _, _ => rfl
  | .exists _ _, _ => rfl
  | .inSubquery _ _ _, _ => rfl
  | .node _ _, _ => rfl

theorem walkedOption_fixed : ∀ e : Option Expr,
    (∀ x ∈ visitedOption e, leaf x = pure x) → walkedOption leaf e = pure e
  | none, _ => rfl
  | some e, fixed => by rw [walkedOption, e.walked_fixed fixed, pure_bind]

theorem walkedCases_fixed : ∀ cases : List CaseWhen,
    (∀ x ∈ visitedCases cases, leaf x = pure x) → walkedCases leaf cases = pure cases
  | [], _ => rfl
  | ⟨condition, result⟩ :: rest, fixed => by
    simp only [visitedCases, List.mem_append] at fixed
    rw [walkedCases, condition.walked_fixed fun x h => fixed x (.inl (.inl h)),
      result.walked_fixed fun x h => fixed x (.inl (.inr h)),
      walkedCases_fixed rest fun x h => fixed x (.inr h), pure_bind, pure_bind, pure_bind]

theorem walkedArgs_fixed : ∀ args : List FunctionArg,
    (∀ x ∈ visitedArgs args, leaf x = pure x) → walkedArgs leaf args = pure args
  | [], _ => rfl
  | .unnamed (.expr e) :: rest, fixed => by
    simp only [visitedArgs, FunctionArgExpr.visited, List.mem_append] at fixed
    rw [walkedArgs, e.walked_fixed fun x h => fixed x (.inl h),
      walkedArgs_fixed rest fun x h => fixed x (.inr h), pure_bind, pure_bind]
  | .named name (.expr e) :: rest, fixed => by
    simp only [visitedArgs, FunctionArgExpr.visited, List.mem_append] at fixed
    rw [walkedArgs, e.walked_fixed fun x h => fixed x (.inl h),
      walkedArgs_fixed rest fun x h => fixed x (.inr h), pure_bind, pure_bind]
  | .unnamed (.qualifiedWildcard _) :: rest, fixed => by
    simp only [walkedArgs, walkedArgs_fixed rest fixed, pure_bind]
  | .unnamed .wildcard :: rest, fixed => by
    simp only [walkedArgs, walkedArgs_fixed rest fixed, pure_bind]
  | .named _ (.qualifiedWildcard _) :: rest, fixed => by
    simp only [walkedArgs, walkedArgs_fixed rest fixed, pure_bind]
  | .named _ .wildcard :: rest, fixed => by
    simp only [walkedArgs, walkedArgs_fixed rest fixed, pure_bind]

end

/-- A walk that only acts on subqueries leaves an expression without any as it is. -/
theorem Expr.walked_plain (plain : ActsOnSubqueries leaf) (e : Expr)
    (none_ : ∀ x ∈ e.visited, isSubquery x = false) : e.walked leaf = pure e :=
  e.walked_fixed fun x met => plain x (none_ x met)

end

end PgCatalog.Sql
