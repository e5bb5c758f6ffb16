import PgCatalog.Sql.Literals

/-! Rules for visitors that put an expression in the place of each, innermost first: what holds
in the tree they leave, and when they leave a tree as it is. -/
namespace PgCatalog.Sql

/-- The expression with what is inside it replaced. -/
def Expr.rebuilt (f : Expr → Expr) : Expr → Expr
  | .identifier id => .identifier id
  | .compoundIdentifier parts => .compoundIdentifier parts
  | .value v => .value v
  | .binaryOp left op right => .binaryOp (left.replaced f) op (right.replaced f)
  | .unaryOp op inner => .unaryOp op (inner.replaced f)
  | .nested inner => .nested (inner.replaced f)
  | .cast kind inner dataType => .cast kind (inner.replaced f) dataType
  | .case operand conditions elseResult =>
    .case (replacedOption f operand) (replacedCases f conditions) (replacedOption f elseResult)
  | .anyOp left op right isSome => .anyOp (left.replaced f) op (right.replaced f) isSome
  | .isTest test inner => .isTest test (inner.replaced f)
  | .isDistinctFrom left right => .isDistinctFrom (left.replaced f) (right.replaced f)
  | .isNotDistinctFrom left right => .isNotDistinctFrom (left.replaced f) (right.replaced f)
  | .function call => .function (call.replaced f)
  | .compoundFieldAccess root chain =>
    .compoundFieldAccess (root.replaced f) (replacedAccess f chain)
  | .subquery q => .subquery (q.replaced f)
  | .exists q negated => .exists (q.replaced f) negated
  | .inSubquery inner q negated => .inSubquery (inner.replaced f) (q.replaced f) negated
  | .node form children => .node form (replacedList f children)

theorem Expr.replaced_eq (f : Expr → Expr) (e : Expr) : e.replaced f = f (e.rebuilt f) := by
  cases e <;> rfl

/-- The expressions inside an expression. -/
def Expr.within (e : Expr) : List Expr := e.visited.tail

theorem Expr.visited_eq (e : Expr) : e.visited = e :: e.within := by
  cases e <;> rfl

section
variable {f : Expr → Expr}

mutual

/-- A visitor that changes nothing it meets leaves a tree as it is. -/
theorem Expr.replaced_fixed : ∀ x : Expr, (∀ y ∈ x.visited, f y = y) → x.replaced f = x
  | .identifier _ => fun fixed => fixed _ List.mem_cons_self
  | .compoundIdentifier _ => fun fixed => fixed _ List.mem_cons_self
  | .value _ => fun fixed => fixed _ List.mem_cons_self
  | .binaryOp left _ right => by
    intro fixed
    rw [Expr.visited, List.forall_mem_cons] at fixed
    simp only [List.forall_mem_append] at fixed
    rw [Expr.replaced, left.replaced_fixed fixed.2.1, right.replaced_fixed fixed.2.2, fixed.1]
  | .unaryOp _ inner => by
    intro fixed
    rw [Expr.visited, List.forall_mem_cons] at fixed
    rw [Expr.replaced, inner.replaced_fixed fixed.2, fixed.1]
  | .nested inner => by
    intro fixed
    rw [Expr.visited, List.forall_mem_cons] at fixed
    rw [Expr.replaced, inner.replaced_fixed fixed.2, fixed.1]
  | .cast _ inner _ => by
    intro fixed
    rw [Expr.visited, List.forall_mem_cons] at fixed
    rw [Expr.replaced, inner.replaced_fixed fixed.2, fixed.1]
  | .case operand conditions elseResult => by
    intro fixed
    rw [Expr.visited, List.forall_mem_cons] at fixed
    simp only [List.forall_mem_append] at fixed
    rw [Expr.replaced, fixedOption operand fixed.2.1.1, fixedCases conditions fixed.2.1.2,
      fixedOption elseResult fixed.2.2, fixed.1]
  | .anyOp left _ right _ => by
    intro fixed
    rw [Expr.visited, List.forall_mem_cons] at fixed
    simp only [List.forall_mem_append] at fixed
    rw [Expr.replaced, left.replaced_fixed fixed.2.1, right.replaced_fixed fixed.2.2, fixed.1]
  | .isTest _ inner => by
    intro fixed
    rw [Expr.visited, List.forall_mem_cons] at fixed
    rw [Expr.replaced, inner.replaced_fixed fixed.2, fixed.1]
  | .isDistinctFrom left right => by
    intro fixed
    rw [Expr.visited, List.forall_mem_cons] at fixed
    simp only [List.forall_mem_append] at fixed
    rw [Expr.replaced, left.replaced_fixed fixed.2.1, right.replaced_fixed fixed.2.2, fixed.1]
  | .isNotDistinctFrom left right => by
    intro fixed
    rw [Expr.visited, List.forall_mem_cons] at fixed
    simp only [List.forall_mem_append] at fixed
    rw [Expr.replaced, left.replaced_fixed fixed.2.1, right.replaced_fixed fixed.2.2, fixed.1]
  | .function call => by
    intro fixed
    rw [Expr.visited, List.forall_mem_cons] at fixed
    rw [Expr.replaced, call.replaced_fixed fixed.2, fixed.1]
  | .compoundFieldAccess root chain => by
    intro fixed
    rw [Expr.visited, List.forall_mem_cons] at fixed
    simp only [List.forall_mem_append] at fixed
    rw [Expr.replaced, root.replaced_fixed fixed.2.1, fixedAccess chain fixed.2.2, fixed.1]
  | .subquery q => by
    intro fixed
    rw [Expr.visited, List.forall_mem_cons] at fixed
    rw [Expr.replaced, q.replaced_fixed fixed.2, fixed.1]
  | .exists q _ => by
    intro fixed
    rw [Expr.visited, List.forall_mem_cons] at fixed
    rw [Expr.replaced, q.replaced_fixed fixed.2, fixed.1]
  | .inSubquery inner q _ => by
    intro fixed
    rw [Expr.visited, List.forall_mem_cons] at fixed
    simp only [List.forall_mem_append] at fixed
    rw [Expr.replaced, inner.replaced_fixed fixed.2.1, q.replaced_fixed fixed.2.2, fixed.1]
  | .node _ children => by
    intro fixed
    rw [Expr.visited, List.forall_mem_cons] at fixed
    rw [Expr.replaced, fixedList children fixed.2, fixed.1]

theorem fixedOption : ∀ x : Option Expr, (∀ y ∈ visitedOption x, f y = y) → replacedOption f x = x
  | none => fun _ => rfl
  | some e => by
    intro fixed
    rw [replacedOption, e.replaced_fixed fixed]

theorem fixedList : ∀ x : List Expr, (∀ y ∈ visitedList x, f y = y) → replacedList f x = x
  | [] => fun _ => rfl
  | e :: rest => by
    intro fixed
    simp only [visitedList, List.forall_mem_append] at fixed
    rw [replacedList, e.replaced_fixed fixed.1, fixedList rest fixed.2]

theorem fixedCases : ∀ x : List CaseWhen, (∀ y ∈ visitedCases x, f y = y) → replacedCases f x = x
  | [] => fun _ => rfl
  | ⟨condition, result⟩ :: rest => by
    intro fixed
    simp only [visitedCases, List.forall_mem_append] at fixed
    rw [replacedCases, condition.replaced_fixed fixed.1.1, result.replaced_fixed fixed.1.2,
      fixedCases rest fixed.2]

theorem fixedAccess : ∀ x : List AccessExpr,
    (∀ y ∈ visitedAccess x, f y = y) → replacedAccess f x = x
  | [] => fun _ => rfl
  | .dot e :: rest => by
    intro fixed
    simp only [visitedAccess, List.forall_mem_append] at fixed
    rw [replacedAccess, e.replaced_fixed fixed.1, fixedAccess rest fixed.2]
  | .subscript index :: rest => by
    intro fixed
    simp only [visitedAccess, List.forall_mem_append] at fixed
    rw [replacedAccess, index.replaced_fixed fixed.1, fixedAccess rest fixed.2]
  | .slice lower upper :: rest => by
    intro fixed
    simp only [visitedAccess, List.forall_mem_append] at fixed
    rw [replacedAccess, fixedOption lower fixed.1.1, fixedOption upper fixed.1.2,
      fixedAccess rest fixed.2]

theorem Function.replaced_fixed : ∀ x : Function, (∀ y ∈ x.visited, f y = y) → x.replaced f = x
  | ⟨_, args, filter, over_, withinGroup⟩ => by
    intro fixed
    simp only [Function.visited, List.forall_mem_append] at fixed
    rw [Function.replaced, args.replaced_fixed fixed.1.1.1, fixedOption filter fixed.1.1.2,
      fixedWindow over_ fixed.1.2, fixedOrderBy withinGroup fixed.2]

theorem FunctionArguments.replaced_fixed : ∀ x : FunctionArguments,
    (∀ y ∈ x.visited, f y = y) → x.replaced f = x
  | .none => fun _ => rfl
  | .subquery q => by
    intro fixed
    rw [FunctionArguments.replaced, q.replaced_fixed fixed]
  | .list _ args orderBy => by
    intro fixed
    simp only [FunctionArguments.visited, List.forall_mem_append] at fixed
    rw [FunctionArguments.replaced, fixedArgs args fixed.1, fixedOrderBy orderBy fixed.2]

theorem fixedArgs : ∀ x : List FunctionArg, (∀ y ∈ visitedArgs x, f y = y) → replacedArgs f x = x
  | [] => fun _ => rfl
  | .unnamed arg :: rest => by
    intro fixed
    simp only [visitedArgs, List.forall_mem_append] at fixed
    rw [replacedArgs, arg.replaced_fixed fixed.1, fixedArgs rest fixed.2]
  | .named _ arg :: rest => by
    intro fixed
    simp only [visitedArgs, List.forall_mem_append] at fixed
    rw [replacedArgs, arg.replaced_fixed fixed.1, fixedArgs rest fixed.2]

theorem FunctionArgExpr.replaced_fixed : ∀ x : FunctionArgExpr,
    (∀ y ∈ x.visited, f y = y) → x.replaced f = x
  | .expr e => by
    intro fixed
    rw [FunctionArgExpr.replaced, e.replaced_fixed fixed]
  | .qualifiedWildcard _ => fun _ => rfl
  | .wildcard => fun _ => rfl

theorem fixedWindow : ∀ x : Option WindowType,
    (∀ y ∈ visitedWindow x, f y = y) → replacedWindow f x = x
  | none => fun _ => rfl
  | some (.spec partitionBy orderBy) => by
    intro fixed
    simp only [visitedWindow, List.forall_mem_append] at fixed
    rw [replacedWindow, fixedList partitionBy fixed.1, fixedOrderBy orderBy fixed.2]
  | some (.named _) => fun _ => rfl

theorem fixedOrderBy : ∀ x : List OrderByExpr,
    (∀ y ∈ visitedOrderBy x, f y = y) → replacedOrderBy f x = x
  | [] => fun _ => rfl
  | ⟨e, _, _⟩ :: rest => by
    intro fixed
    simp only [visitedOrderBy, List.forall_mem_append] at fixed
    rw [replacedOrderBy, e.replaced_fixed fixed.1, fixedOrderBy rest fixed.2]

theorem Query.replaced_fixed : ∀ x : Query, (∀ y ∈ x.visited, f y = y) → x.replaced f = x
  | ⟨with_, body, orderBy, limit, offset⟩ => by
    intro fixed
    simp only [Query.visited, List.forall_mem_append] at fixed
    rw [Query.replaced, fixedWith with_ fixed.1.1.1.1, body.replaced_fixed fixed.1.1.1.2,
      fixedOrderBy orderBy fixed.1.1.2, fixedOption limit fixed.1.2, fixedOption offset fixed.2]

theorem fixedWith : ∀ x : Option With, (∀ y ∈ visitedWith x, f y = y) → replacedWith f x = x
  | none => fun _ => rfl
  | some ⟨_, ctes⟩ => by
    intro fixed
    rw [replacedWith, fixedCtes ctes fixed]

theorem fixedCtes : ∀ x : List Cte, (∀ y ∈ visitedCtes x, f y = y) → replacedCtes f x = x
  | [] => fun _ => rfl
  | ⟨_, q⟩ :: rest => by
    intro fixed
    simp only [visitedCtes, List.forall_mem_append] at fixed
    rw [replacedCtes, q.replaced_fixed fixed.1, fixedCtes rest fixed.2]

theorem SetExpr.replaced_fixed : ∀ x : SetExpr, (∀ y ∈ x.visited, f y = y) → x.replaced f = x
  | .select s => by
    intro fixed
    rw [SetExpr.replaced, s.replaced_fixed fixed]
  | .query q => by
    intro fixed
    rw [SetExpr.replaced, q.replaced_fixed fixed]
  | .setOperation _ _ left right => by
    intro fixed
    simp only [SetExpr.visited, List.forall_mem_append] at fixed
    rw [SetExpr.replaced, left.replaced_fixed fixed.1, right.replaced_fixed fixed.2]
  | .values rows => by
    intro fixed
    rw [SetExpr.replaced, fixedList rows fixed]

theorem Select.replaced_fixed : ∀ x : Select, (∀ y ∈ x.visited, f y = y) → x.replaced f = x
  | ⟨distinct, projection, from_, selection, groupBy, having⟩ => by
    intro fixed
    simp only [Select.visited, List.forall_mem_append] at fixed
    rw [Select.replaced, distinct.replaced_fixed fixed.1.1.1.1.1,
      fixedItems projection fixed.1.1.1.1.2, fixedFrom from_ fixed.1.1.1.2,
      fixedOption selection fixed.1.1.2, groupBy.replaced_fixed fixed.1.2,
      fixedOption having fixed.2]

theorem Distinct.replaced_fixed : ∀ x : Distinct, (∀ y ∈ x.visited, f y = y) → x.replaced f = x
  | .no => fun _ => rfl
  | .rows => fun _ => rfl
  | .on exprs => by
    intro fixed
    rw [Distinct.replaced, fixedList exprs fixed]

theorem fixedItems : ∀ x : List SelectItem, (∀ y ∈ visitedItems x, f y = y) → replacedItems f x = x
  | [] => fun _ => rfl
  | .unnamedExpr e :: rest => by
    intro fixed
    simp only [visitedItems, List.forall_mem_append] at fixed
    rw [replacedItems, e.replaced_fixed fixed.1, fixedItems rest fixed.2]
  | .exprWithAlias e _ :: rest => by
    intro fixed
    simp only [visitedItems, List.forall_mem_append] at fixed
    rw [replacedItems, e.replaced_fixed fixed.1, fixedItems rest fixed.2]
  | .qualifiedWildcard _ :: rest => by
    intro fixed
    rw [replacedItems, fixedItems rest fixed]
  | .wildcard :: rest => by
    intro fixed
    rw [replacedItems, fixedItems rest fixed]

theorem GroupByExpr.replaced_fixed : ∀ x : GroupByExpr,
    (∀ y ∈ x.visited, f y = y) → x.replaced f = x
  | .all => fun _ => rfl
  | .expressions exprs => by
    intro fixed
    rw [GroupByExpr.replaced, fixedList exprs fixed]

theorem fixedFrom : ∀ x : List TableWithJoins, (∀ y ∈ visitedFrom x, f y = y) → replacedFrom f x = x
  | [] => fun _ => rfl
  | entry :: rest => by
    intro fixed
    simp only [visitedFrom, List.forall_mem_append] at fixed
    rw [replacedFrom, entry.replaced_fixed fixed.1, fixedFrom rest fixed.2]

theorem TableWithJoins.replaced_fixed : ∀ x : TableWithJoins,
    (∀ y ∈ x.visited, f y = y) → x.replaced f = x
  | ⟨relation, joins⟩ => by
    intro fixed
    simp only [TableWithJoins.visited, List.forall_mem_append] at fixed
    rw [TableWithJoins.replaced, relation.replaced_fixed fixed.1, fixedJoins joins fixed.2]

theorem fixedJoins : ∀ x : List Join, (∀ y ∈ visitedJoins x, f y = y) → replacedJoins f x = x
  | [] => fun _ => rfl
  | ⟨relation, _, constraint⟩ :: rest => by
    intro fixed
    simp only [visitedJoins, List.forall_mem_append] at fixed
    rw [replacedJoins, relation.replaced_fixed fixed.1.1, constraint.replaced_fixed fixed.1.2,
      fixedJoins rest fixed.2]

theorem JoinConstraint.replaced_fixed : ∀ x : JoinConstraint,
    (∀ y ∈ x.visited, f y = y) → x.replaced f = x
  | .on e => by
    intro fixed
    rw [JoinConstraint.replaced, e.replaced_fixed fixed]
  | .using _ => fun _ => rfl
  | .natural => fun _ => rfl
  | .none => fun _ => rfl

theorem TableFactor.replaced_fixed : ∀ x : TableFactor,
    (∀ y ∈ x.visited, f y = y) → x.replaced f = x
  | .table _ _ none => fun _ => rfl
  | .table _ _ (some args) => by
    intro fixed
    rw [TableFactor.replaced, fixedArgs args fixed]
  | .derived _ q _ => by
    intro fixed
    rw [TableFactor.replaced, q.replaced_fixed fixed]
  | .nestedJoin entry _ => by
    intro fixed
    rw [TableFactor.replaced, entry.replaced_fixed fixed]
  | .function _ _ args _ => by
    intro fixed
    rw [TableFactor.replaced, fixedArgs args fixed]
  | .tableFunction e _ => by
    intro fixed
    rw [TableFactor.replaced, e.replaced_fixed fixed]
  | .unnest _ exprs => by
    intro fixed
    rw [TableFactor.replaced, fixedList exprs fixed]

end

theorem SetStatement.replaced_fixed (s : SetStatement)
    (fixed : ∀ y ∈ visitedList s.exprs, f y = y) : s.replaced f = s := by
  cases s with
  | singleAssignment _ _ values => rw [SetStatement.replaced, fixedList values fixed]
  | setTimeZone _ value =>
    rw [SetStatement.replaced, value.replaced_fixed]
    simpa [SetStatement.exprs, visitedList] using fixed
  | other exprs => rw [SetStatement.replaced, fixedList exprs fixed]

theorem Statement.replaced_fixed (s : Statement) (fixed : ∀ y ∈ s.visited, f y = y) :
    s.replaced f = s := by
  cases s with
  | query q => rw [Statement.replaced, q.replaced_fixed fixed]
  | set s => rw [Statement.replaced, s.replaced_fixed fixed]
  | other relations queries exprs =>
    simp only [Statement.visited, List.forall_mem_append, List.mem_flatMap] at fixed
    have kept : queries.map (·.replaced f) = queries := by
      refine List.map_congr_left (fun q isOne => ?_) |>.trans (List.map_id queries)
      exact q.replaced_fixed fun y inside => fixed.1 y ⟨q, isOne, inside⟩
    rw [Statement.replaced, kept, fixedList exprs fixed.2]

end

section
variable {f : Expr → Expr} {P Q : Expr → Prop} (each : ∀ e, P e →
  (∀ y ∈ (e.rebuilt f).within, Q y) → ∀ y ∈ (f (e.rebuilt f)).visited, Q y)
include each
set_option linter.unusedSectionVars false

mutual

/-- What a visitor makes of each expression, given what it made of those inside, holds of all
that it leaves. -/
theorem Expr.visited_replaced : ∀ x : Expr,
    (∀ y ∈ x.visited, P y) → ∀ y ∈ (x.replaced f).visited, Q y
  | .identifier _ => by
    intro held
    rw [Expr.visited, List.forall_mem_cons] at held
    refine each _ held.1 ?_
    simp [Expr.within, Expr.rebuilt, Expr.visited]
  | .compoundIdentifier _ => by
    intro held
    rw [Expr.visited, List.forall_mem_cons] at held
    refine each _ held.1 ?_
    simp [Expr.within, Expr.rebuilt, Expr.visited]
  | .value _ => by
    intro held
    rw [Expr.visited, List.forall_mem_cons] at held
    refine each _ held.1 ?_
    simp [Expr.within, Expr.rebuilt, Expr.visited]
  | .binaryOp left _ right => by
    intro held
    rw [Expr.visited, List.forall_mem_cons] at held
    simp only [List.forall_mem_append] at held
    refine each _ held.1 ?_
    rw [Expr.within, Expr.rebuilt, Expr.visited, List.tail_cons]
    simp only [List.forall_mem_append]
    exact ⟨left.visited_replaced held.2.1, right.visited_replaced held.2.2⟩
  | .unaryOp _ inner => by
    intro held
    rw [Expr.visited, List.forall_mem_cons] at held
    refine each _ held.1 ?_
    rw [Expr.within, Expr.rebuilt, Expr.visited, List.tail_cons]
    exact inner.visited_replaced held.2
  | .nested inner => by
    intro held
    rw [Expr.visited, List.forall_mem_cons] at held
    refine each _ held.1 ?_
    rw [Expr.within, Expr.rebuilt, Expr.visited, List.tail_cons]
    exact inner.visited_replaced held.2
  | .cast _ inner _ => by
    intro held
    rw [Expr.visited, List.forall_mem_cons] at held
    refine each _ held.1 ?_
    rw [Expr.within, Expr.rebuilt, Expr.visited, List.tail_cons]
    exact inner.visited_replaced held.2
  | .case operand conditions elseResult => by
    intro held
    rw [Expr.visited, List.forall_mem_cons] at held
    simp only [List.forall_mem_append] at held
    refine each _ held.1 ?_
    rw [Expr.within, Expr.rebuilt, Expr.visited, List.tail_cons]
    simp only [List.forall_mem_append]
    exact ⟨⟨heldOption operand held.2.1.1, heldCases conditions held.2.1.2⟩,
      heldOption elseResult held.2.2⟩
  | .anyOp left _ right _ => by
    intro held
    rw [Expr.visited, List.forall_mem_cons] at held
    simp only [List.forall_mem_append] at held
    refine each _ held.1 ?_
    rw [Expr.within, Expr.rebuilt, Expr.visited, List.tail_cons]
    simp only [List.forall_mem_append]
    exact ⟨left.visited_replaced held.2.1, right.visited_replaced held.2.2⟩
  | .isTest _ inner => by
    intro held
    rw [Expr.visited, List.forall_mem_cons] at held
    refine each _ held.1 ?_
    rw [Expr.within, Expr.rebuilt, Expr.visited, List.tail_cons]
    exact inner.visited_replaced held.2
  | .isDistinctFrom left right => by
    intro held
    rw [Expr.visited, List.forall_mem_cons] at held
    simp only [List.forall_mem_append] at held
    refine each _ held.1 ?_
    rw [Expr.within, Expr.rebuilt, Expr.visited, List.tail_cons]
    simp only [List.forall_mem_append]
    exact ⟨left.visited_replaced held.2.1, right.visited_replaced held.2.2⟩
  | .isNotDistinctFrom left right => by
    intro held
    rw [Expr.visited, List.forall_mem_cons] at held
    simp only [List.forall_mem_append] at held
    refine each _ held.1 ?_
    rw [Expr.within, Expr.rebuilt, Expr.visited, List.tail_cons]
    simp only [List.forall_mem_append]
    exact ⟨left.visited_replaced held.2.1, right.visited_replaced held.2.2⟩
  | .function call => by
    intro held
    rw [Expr.visited, List.forall_mem_cons] at held
    refine each _ held.1 ?_
    rw [Expr.within, Expr.rebuilt, Expr.visited, List.tail_cons]
    exact call.visited_replaced held.2
  | .compoundFieldAccess root chain => by
    intro held
    rw [Expr.visited, List.forall_mem_cons] at held
    simp only [List.forall_mem_append] at held
    refine each _ held.1 ?_
    rw [Expr.within, Expr.rebuilt, Expr.visited, List.tail_cons]
    simp only [List.forall_mem_append]
    exact ⟨root.visited_replaced held.2.1, heldAccess chain held.2.2⟩
  | .subquery q => by
    intro held
    rw [Expr.visited, List.forall_mem_cons] at held
    refine each _ held.1 ?_
    rw [Expr.within, Expr.rebuilt, Expr.visited, List.tail_cons]
    exact q.visited_replaced held.2
  | .exists q _ => by
    intro held
    rw [Expr.visited, List.forall_mem_cons] at held
    refine each _ held.1 ?_
    rw [Expr.within, Expr.rebuilt, Expr.visited, List.tail_cons]
    exact q.visited_replaced held.2
  | .inSubquery inner q _ => by
    intro held
    rw [Expr.visited, List.forall_mem_cons] at held
    simp only [List.forall_mem_append] at held
    refine each _ held.1 ?_
    rw [Expr.within, Expr.rebuilt, Expr.visited, List.tail_cons]
    simp only [List.forall_mem_append]
    exact ⟨inner.visited_replaced held.2.1, q.visited_replaced held.2.2⟩
  | .node _ children => by
    intro held
    rw [Expr.visited, List.forall_mem_cons] at held
    refine each _ held.1 ?_
    rw [Expr.within, Expr.rebuilt, Expr.visited, List.tail_cons]
    exact heldList children held.2

theorem heldOption : ∀ x : Option Expr,
    (∀ y ∈ visitedOption x, P y) → ∀ y ∈ visitedOption (replacedOption f x), Q y
  | none => by simp [replacedOption, visitedOption]
  | some e => e.visited_replaced

theorem heldList : ∀ x : List Expr,
    (∀ y ∈ visitedList x, P y) → ∀ y ∈ visitedList (replacedList f x), Q y
  | [] => by simp [replacedList, visitedList]
  | e :: rest => by
    intro held
    simp only [visitedList, List.forall_mem_append] at held
    simp only [replacedList, visitedList, List.forall_mem_append]
    exact ⟨e.visited_replaced held.1, heldList rest held.2⟩

theorem heldCases : ∀ x : List CaseWhen,
    (∀ y ∈ visitedCases x, P y) → ∀ y ∈ visitedCases (replacedCases f x), Q y
  | [] => by simp [replacedCases, visitedCases]
  | ⟨condition, result⟩ :: rest => by
    intro held
    simp only [visitedCases, List.forall_mem_append] at held
    simp only [replacedCases, visitedCases, List.forall_mem_append]
    exact ⟨⟨condition.visited_replaced held.1.1, result.visited_replaced held.1.2⟩, heldCases
      rest held.2⟩

theorem heldAccess : ∀ x : List AccessExpr,
    (∀ y ∈ visitedAccess x, P y) → ∀ y ∈ visitedAccess (replacedAccess f x), Q y
  | [] => by simp [replacedAccess, visitedAccess]
  | .dot e :: rest => by
    intro held
    simp only [visitedAccess, List.forall_mem_append] at held
    simp only [replacedAccess, visitedAccess, List.forall_mem_append]
    exact ⟨e.visited_replaced held.1, heldAccess rest held.2⟩
  | .subscript index :: rest => by
    intro held
    simp only [visitedAccess, List.forall_mem_append] at held
    simp only [replacedAccess, visitedAccess, List.forall_mem_append]
    exact ⟨index.visited_replaced held.1, heldAccess rest held.2⟩
  | .slice lower upper :: rest => by
    intro held
    simp only [visitedAccess, List.forall_mem_append] at held
    simp only [replacedAccess, visitedAccess, List.forall_mem_append]
    exact ⟨⟨heldOption lower held.1.1, heldOption upper held.1.2⟩, heldAccess rest held.2⟩

theorem Function.visited_replaced : ∀ x : Function,
    (∀ y ∈ x.visited, P y) → ∀ y ∈ (x.replaced f).visited, Q y
  | ⟨_, args, filter, over_, withinGroup⟩ => by
    intro held
    simp only [Function.visited, List.forall_mem_append] at held
    simp only [Function.replaced, Function.visited, List.forall_mem_append]
    exact ⟨⟨⟨args.visited_replaced held.1.1.1, heldOption filter held.1.1.2⟩, heldWindow over_
      held.1.2⟩, heldOrderBy withinGroup held.2⟩

theorem FunctionArguments.visited_replaced : ∀ x : FunctionArguments,
    (∀ y ∈ x.visited, P y) → ∀ y ∈ (x.replaced f).visited, Q y
  | .none => by simp [FunctionArguments.replaced, FunctionArguments.visited]
  | .subquery q => q.visited_replaced
  | .list _ args orderBy => by
    intro held
    simp only [FunctionArguments.visited, List.forall_mem_append] at held
    simp only [FunctionArguments.replaced, FunctionArguments.visited, List.forall_mem_append]
    exact ⟨heldArgs args held.1, heldOrderBy orderBy held.2⟩

theorem heldArgs : ∀ x : List FunctionArg,
    (∀ y ∈ visitedArgs x, P y) → ∀ y ∈ visitedArgs (replacedArgs f x), Q y
  | [] => by simp [replacedArgs, visitedArgs]
  | .unnamed arg :: rest => by
    intro held
    simp only [visitedArgs, List.forall_mem_append] at held
    simp only [replacedArgs, visitedArgs, List.forall_mem_append]
    exact ⟨arg.visited_replaced held.1, heldArgs rest held.2⟩
  | .named _ arg :: rest => by
    intro held
    simp only [visitedArgs, List.forall_mem_append] at held
    simp only [replacedArgs, visitedArgs, List.forall_mem_append]
    exact ⟨arg.visited_replaced held.1, heldArgs rest held.2⟩

theorem FunctionArgExpr.visited_replaced : ∀ x : FunctionArgExpr,
    (∀ y ∈ x.visited, P y) → ∀ y ∈ (x.replaced f).visited, Q y
  | .expr e => e.visited_replaced
  | .qualifiedWildcard _ => by simp [FunctionArgExpr.replaced, FunctionArgExpr.visited]
  | .wildcard => by simp [FunctionArgExpr.replaced, FunctionArgExpr.visited]

theorem heldWindow : ∀ x : Option WindowType,
    (∀ y ∈ visitedWindow x, P y) → ∀ y ∈ visitedWindow (replacedWindow f x), Q y
  | none => by simp [replacedWindow, visitedWindow]
  | some (.spec partitionBy orderBy) => by
    intro held
    simp only [visitedWindow, List.forall_mem_append] at held
    simp only [replacedWindow, visitedWindow, List.forall_mem_append]
    exact ⟨heldList partitionBy held.1, heldOrderBy orderBy held.2⟩
  | some (.named _) => by simp [replacedWindow, visitedWindow]

theorem heldOrderBy : ∀ x : List OrderByExpr,
    (∀ y ∈ visitedOrderBy x, P y) → ∀ y ∈ visitedOrderBy (replacedOrderBy f x), Q y
  | [] => by simp [replacedOrderBy, visitedOrderBy]
  | ⟨e, _, _⟩ :: rest => by
    intro held
    simp only [visitedOrderBy, List.forall_mem_append] at held
    simp only [replacedOrderBy, visitedOrderBy, List.forall_mem_append]
    exact ⟨e.visited_replaced held.1, heldOrderBy rest held.2⟩

theorem Query.visited_replaced : ∀ x : Query,
    (∀ y ∈ x.visited, P y) → ∀ y ∈ (x.replaced f).visited, Q y
  | ⟨with_, body, orderBy, limit, offset⟩ => by
    intro held
    simp only [Query.visited, List.forall_mem_append] at held
    simp only [Query.replaced, Query.visited, List.forall_mem_append]
    exact ⟨⟨⟨⟨heldWith with_ held.1.1.1.1, body.visited_replaced held.1.1.1.2⟩, heldOrderBy
      orderBy held.1.1.2⟩, heldOption limit held.1.2⟩, heldOption offset held.2⟩

theorem heldWith : ∀ x : Option With,
    (∀ y ∈ visitedWith x, P y) → ∀ y ∈ visitedWith (replacedWith f x), Q y
  | none => by simp [replacedWith, visitedWith]
  | some ⟨_, ctes⟩ => heldCtes ctes

theorem heldCtes : ∀ x : List Cte,
    (∀ y ∈ visitedCtes x, P y) → ∀ y ∈ visitedCtes (replacedCtes f x), Q y
  | [] => by simp [replacedCtes, visitedCtes]
  | ⟨_, q⟩ :: rest => by
    intro held
    simp only [visitedCtes, List.forall_mem_append] at held
    simp only [replacedCtes, visitedCtes, List.forall_mem_append]
    exact ⟨q.visited_replaced held.1, heldCtes rest held.2⟩

theorem SetExpr.visited_replaced : ∀ x : SetExpr,
    (∀ y ∈ x.visited, P y) → ∀ y ∈ (x.replaced f).visited, Q y
  | .select s => s.visited_replaced
  | .query q => q.visited_replaced
  | .setOperation _ _ left right => by
    intro held
    simp only [SetExpr.visited, List.forall_mem_append] at held
    simp only [SetExpr.replaced, SetExpr.visited, List.forall_mem_append]
    exact ⟨left.visited_replaced held.1, right.visited_replaced held.2⟩
  | .values rows => heldList rows

theorem Select.visited_replaced : ∀ x : Select,
    (∀ y ∈ x.visited, P y) → ∀ y ∈ (x.replaced f).visited, Q y
  | ⟨distinct, projection, from_, selection, groupBy, having⟩ => by
    intro held
    simp only [Select.visited, List.forall_mem_append] at held
    simp only [Select.replaced, Select.visited, List.forall_mem_append]
    exact ⟨⟨⟨⟨⟨distinct.visited_replaced held.1.1.1.1.1, heldItems projection held.1.1.1.1.2⟩,
      heldFrom from_ held.1.1.1.2⟩, heldOption selection held.1.1.2⟩, groupBy.visited_replaced
      held.1.2⟩, heldOption having held.2⟩

theorem Distinct.visited_replaced : ∀ x : Distinct,
    (∀ y ∈ x.visited, P y) → ∀ y ∈ (x.replaced f).visited, Q y
  | .no => by simp [Distinct.replaced, Distinct.visited]
  | .rows => by simp [Distinct.replaced, Distinct.visited]
  | .on exprs => heldList exprs

theorem heldItems : ∀ x : List SelectItem,
    (∀ y ∈ visitedItems x, P y) → ∀ y ∈ visitedItems (replacedItems f x), Q y
  | [] => by simp [replacedItems, visitedItems]
  | .unnamedExpr e :: rest => by
    intro held
    simp only [visitedItems, List.forall_mem_append] at held
    simp only [replacedItems, visitedItems, List.forall_mem_append]
    exact ⟨e.visited_replaced held.1, heldItems rest held.2⟩
  | .exprWithAlias e _ :: rest => by
    intro held
    simp only [visitedItems, List.forall_mem_append] at held
    simp only [replacedItems, visitedItems, List.forall_mem_append]
    exact ⟨e.visited_replaced held.1, heldItems rest held.2⟩
  | .qualifiedWildcard _ :: rest => heldItems rest
  | .wildcard :: rest => heldItems rest

theorem GroupByExpr.visited_replaced : ∀ x : GroupByExpr,
    (∀ y ∈ x.visited, P y) → ∀ y ∈ (x.replaced f).visited, Q y
  | .all => by simp [GroupByExpr.replaced, GroupByExpr.visited]
  | .expressions exprs => heldList exprs

theorem heldFrom : ∀ x : List TableWithJoins,
    (∀ y ∈ visitedFrom x, P y) → ∀ y ∈ visitedFrom (replacedFrom f x), Q y
  | [] => by simp [replacedFrom, visitedFrom]
  | entry :: rest => by
    intro held
    simp only [visitedFrom, List.forall_mem_append] at held
    simp only [replacedFrom, visitedFrom, List.forall_mem_append]
    exact ⟨entry.visited_replaced held.1, heldFrom rest held.2⟩

theorem TableWithJoins.visited_replaced : ∀ x : TableWithJoins,
    (∀ y ∈ x.visited, P y) → ∀ y ∈ (x.replaced f).visited, Q y
  | ⟨relation, joins⟩ => by
    intro held
    simp only [TableWithJoins.visited, List.forall_mem_append] at held
    simp only [TableWithJoins.replaced, TableWithJoins.visited, List.forall_mem_append]
    exact ⟨relation.visited_replaced held.1, heldJoins joins held.2⟩

theorem heldJoins : ∀ x : List Join,
    (∀ y ∈ visitedJoins x, P y) → ∀ y ∈ visitedJoins (replacedJoins f x), Q y
  | [] => by simp [replacedJoins, visitedJoins]
  | ⟨relation, _, constraint⟩ :: rest => by
    intro held
    simp only [visitedJoins, List.forall_mem_append] at held
    simp only [replacedJoins, visitedJoins, List.forall_mem_append]
    exact ⟨⟨relation.visited_replaced held.1.1, constraint.visited_replaced held.1.2⟩, heldJoins
      rest held.2⟩

theorem JoinConstraint.visited_replaced : ∀ x : JoinConstraint,
    (∀ y ∈ x.visited, P y) → ∀ y ∈ (x.replaced f).visited, Q y
  | .on e => e.visited_replaced
  | .using _ => by simp [JoinConstraint.replaced, JoinConstraint.visited]
  | .natural => by simp [JoinConstraint.replaced, JoinConstraint.visited]
  | .none => by simp [JoinConstraint.replaced, JoinConstraint.visited]

theorem TableFactor.visited_replaced : ∀ x : TableFactor,
    (∀ y ∈ x.visited, P y) → ∀ y ∈ (x.replaced f).visited, Q y
  | .table _ _ none => by simp [TableFactor.replaced, TableFactor.visited]
  | .table _ _ (some args) => heldArgs args
  | .derived _ q _ => q.visited_replaced
  | .nestedJoin entry _ => entry.visited_replaced
  | .function _ _ args _ => heldArgs args
  | .tableFunction e _ => e.visited_replaced
  | .unnest _ exprs => heldList exprs

end

theorem SetStatement.visited_replaced (s : SetStatement)
    (held : ∀ y ∈ visitedList s.exprs, P y) : ∀ y ∈ visitedList (s.replaced f).exprs, Q y := by
  cases s with
  | singleAssignment _ _ values => exact heldList each values held
  | setTimeZone _ value =>
    intro y found
    refine heldList each [value] held y ?_
    rw [replacedList, replacedList]
    exact found
  | other exprs => exact heldList each exprs held

theorem Statement.visited_replaced (s : Statement) (held : ∀ y ∈ s.visited, P y) :
    ∀ y ∈ (s.replaced f).visited, Q y := by
  cases s with
  | query q => exact q.visited_replaced each held
  | set s => exact s.visited_replaced each held
  | other relations queries exprs =>
    simp only [Statement.visited, List.forall_mem_append, List.mem_flatMap] at held
    simp only [Statement.replaced, Statement.visited, List.forall_mem_append, List.mem_flatMap,
      List.mem_map]
    refine ⟨?_, heldList each exprs held.2⟩
    rintro y ⟨_, ⟨q, isOne, rfl⟩, found⟩
    exact q.visited_replaced each (fun z inside => held.1 z ⟨q, isOne, inside⟩) y found

end

end PgCatalog.Sql
