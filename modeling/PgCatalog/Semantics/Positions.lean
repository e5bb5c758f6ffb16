import PgCatalog.Semantics.Rows

/-! An expression at a position of an enclosing query: two expressions that agree in every
row of its FROM clause can be exchanged. -/
namespace PgCatalog.Semantics

open Sql Library

/-- A place inside an expression, with what stands around it. -/
inductive Position where
  | here
  | binaryLeft (inner : Position) (op : BinaryOperator) (right : Expr)
  | binaryRight (left : Expr) (op : BinaryOperator) (inner : Position)
  | unary (op : UnaryOperator) (inner : Position)
  | nested (inner : Position)
  | cast (kind : CastKind) (inner : Position) (dataType : Sql.DataType)
  | caseOperand (inner : Position) (conditions : List CaseWhen) (elseResult : Option Expr)
  | caseCondition (operand : Option Expr) (before : List CaseWhen) (inner : Position)
    (result : Expr) (after : List CaseWhen) (elseResult : Option Expr)
  | caseResult (operand : Option Expr) (before : List CaseWhen) (condition : Expr)
    (inner : Position) (after : List CaseWhen) (elseResult : Option Expr)
  | caseElse (operand : Option Expr) (conditions : List CaseWhen) (inner : Position)
  | anyLeft (inner : Position) (op : BinaryOperator) (right : Expr) (isSome : Bool)
  | anyRight (left : Expr) (op : BinaryOperator) (inner : Position) (isSome : Bool)
  | isTest (test : IsTest) (inner : Position)
  | isDistinctFromLeft (inner : Position) (right : Expr)
  | isDistinctFromRight (left : Expr) (inner : Position)
  | isNotDistinctFromLeft (inner : Position) (right : Expr)
  | isNotDistinctFromRight (left : Expr) (inner : Position)
  | argument (name : ObjectName) (distinct : Bool) (before : List FunctionArg)
    (argName : Option Ident) (inner : Position) (after : List FunctionArg)
    (orderBy : List OrderByExpr) (filter : Option Expr) (over_ : Option WindowType)
    (withinGroup : List OrderByExpr)
  | fieldOf (inner : Position) (chain : List AccessExpr)
  | inLeft (inner : Position) (q : Query) (negated : Bool)
  | inTuple (before : List Expr) (inner : Position) (after : List Expr) (q : Query)
    (negated : Bool)
  | child (form : NodeForm) (before : List Expr) (inner : Position) (after : List Expr)

namespace Position

/-- An argument under the name it is passed by. -/
def passed (argName : Option Ident) (e : Expr) : FunctionArg :=
  match argName with
  | none => .unnamed (.expr e)
  | some name => .named name (.expr e)

def plug (x : Expr) : Position → Expr
  | here => x
  | binaryLeft inner op right => .binaryOp (inner.plug x) op right
  | binaryRight left op inner => .binaryOp left op (inner.plug x)
  | unary op inner => .unaryOp op (inner.plug x)
  | nested inner => .nested (inner.plug x)
  | cast kind inner dataType => .cast kind (inner.plug x) dataType
  | caseOperand inner conditions elseResult => .case (some (inner.plug x)) conditions elseResult
  | caseCondition operand before inner result after elseResult =>
    .case operand (before ++ ⟨inner.plug x, result⟩ :: after) elseResult
  | caseResult operand before condition inner after elseResult =>
    .case operand (before ++ ⟨condition, inner.plug x⟩ :: after) elseResult
  | caseElse operand conditions inner => .case operand conditions (some (inner.plug x))
  | anyLeft inner op right isSome => .anyOp (inner.plug x) op right isSome
  | anyRight left op inner isSome => .anyOp left op (inner.plug x) isSome
  | isTest test inner => .isTest test (inner.plug x)
  | isDistinctFromLeft inner right => .isDistinctFrom (inner.plug x) right
  | isDistinctFromRight left inner => .isDistinctFrom left (inner.plug x)
  | isNotDistinctFromLeft inner right => .isNotDistinctFrom (inner.plug x) right
  | isNotDistinctFromRight left inner => .isNotDistinctFrom left (inner.plug x)
  | argument name distinct before argName inner after orderBy filter over_ withinGroup =>
    .function ⟨name, .list distinct (before ++ passed argName (inner.plug x) :: after) orderBy,
      filter, over_, withinGroup⟩
  | fieldOf inner chain => .compoundFieldAccess (inner.plug x) chain
  | inLeft inner q negated => .inSubquery (.nested (inner.plug x)) q negated
  | inTuple before inner after q negated =>
    .inSubquery (.node .tuple (before ++ inner.plug x :: after)) q negated
  | child form before inner after => .node form (before ++ inner.plug x :: after)

end Position

section
variable {D : Type} (E : Engine D)

/-- The scope of a row: a SELECT's own row is its innermost frame. -/
def IsRow (r : Scope D) : Prop :=
  ∃ (s : Scope D) (columns : List Column) (cells : List D), r = s.under (.row columns cells)

/-- Two meanings that cannot be told apart in some scopes. -/
structure SameIn (R : Scope D → Prop) (m n : Meaning D) : Prop where
  value : ∀ r, R r → m.value r = n.value r
  aggregates : m.aggregates = n.aggregates
  windows : m.windows = n.windows

section
variable {R : Scope D → Prop}

theorem SameIn.refl (m : Meaning D) : SameIn R m m := ⟨fun _ _ => rfl, rfl, rfl⟩

theorem sameIn_refl : ∀ ms : List (Meaning D), List.Forall₂ (SameIn R) ms ms
  | [] => .nil
  | m :: rest => .cons (.refl m) (sameIn_refl rest)

theorem sameIn_around (before after : List (Meaning D)) {m n : Meaning D}
    (same : SameIn R m n) :
    List.Forall₂ (SameIn R) (before ++ m :: after) (before ++ n :: after) :=
  List.rel_append (sameIn_refl before) (.cons same (sameIn_refl after))

variable {ms ns : List (Meaning D)} (same : List.Forall₂ (SameIn R) ms ns)
include same

theorem sameIn_values {r : Scope D} (within : R r) :
    ms.map (·.value r) = ns.map (·.value r) := by
  induction same with
  | nil => rfl
  | cons first _ ih => rw [List.map_cons, List.map_cons, first.value r within, ih]

theorem sameIn_mapM {r : Scope D} (within : R r) :
    (ms.mapM fun m : Meaning D => m.value r) = ns.mapM fun n : Meaning D => n.value r := by
  induction same with
  | nil => rfl
  | cons first _ ih => rw [List.mapM_cons, List.mapM_cons, first.value r within, ih]

theorem sameIn_aggregates : ms.any (·.aggregates) = ns.any (·.aggregates) := by
  induction same with
  | nil => rfl
  | cons first _ ih => rw [List.any_cons, List.any_cons, first.aggregates, ih]

theorem sameIn_windows : ms.any (·.windows) = ns.any (·.windows) := by
  induction same with
  | nil => rfl
  | cons first _ ih => rw [List.any_cons, List.any_cons, first.windows, ih]

end

section
variable {R : Scope D → Prop} (rows : ∀ r, R r → IsRow r) {e f : Expr} {ms ns : List (Meaning D)}
include rows

theorem operation_same (shape : Shape) (same : List.Forall₂ (SameIn R) ms ns) :
    SameIn R (operation E e shape ms) (operation E f shape ns) where
  value r within := by
    obtain ⟨s, columns, cells, rfl⟩ := rows r within
    exact congrArg (E.operator shape) (sameIn_values same within)
  aggregates := sameIn_aggregates same
  windows := sameIn_windows same

theorem call_same (shape : CallShape) (same : List.Forall₂ (SameIn R) ms ns) :
    SameIn R (call E e shape ms) (call E f shape ns) := by
  unfold call
  split
  · refine ⟨fun r within => ?_, sameIn_aggregates same, rfl⟩
    obtain ⟨s, columns, cells, rfl⟩ := rows r within
    exact congrArg (E.window shape _) (sameIn_values same within)
  split
  · refine ⟨fun r within => ?_, rfl, sameIn_windows same⟩
    obtain ⟨s, columns, cells, rfl⟩ := rows r within
    rfl
  · exact operation_same E rows _ same

theorem inSubquery_same (answer : Answer D) (negated : Bool)
    (same : List.Forall₂ (SameIn R) ms ns) :
    SameIn R (inSubquery E e ms answer negated) (inSubquery E f ns answer negated) where
  value r within := by
    obtain ⟨s, columns, cells, rfl⟩ := rows r within
    exact congrArg (Option.bind · _) (sameIn_mapM same within)
  aggregates := sameIn_aggregates same
  windows := sameIn_windows same

end

theorem exprMeanings_append (before after : List Expr) :
    exprMeanings E (before ++ after) = exprMeanings E before ++ exprMeanings E after := by
  induction before with
  | nil => rfl
  | cons e rest ih =>
    rw [List.cons_append, exprMeanings, exprMeanings, ih]
    rfl

theorem caseMeanings_append (before after : List CaseWhen) :
    caseMeanings E (before ++ after) = caseMeanings E before ++ caseMeanings E after := by
  induction before with
  | nil => rfl
  | cons branch rest ih =>
    obtain ⟨condition, result⟩ := branch
    rw [List.cons_append, caseMeanings, caseMeanings, ih]
    rfl

theorem argMeanings_append (before after : List FunctionArg) :
    argMeanings E (before ++ after) = argMeanings E before ++ argMeanings E after := by
  induction before with
  | nil => rfl
  | cons arg rest ih =>
    rcases arg with arg | ⟨name, arg⟩
    all_goals
      rw [List.cons_append, argMeanings, argMeanings, ih]
      exact (List.append_assoc _ _ _).symm

/-- Where two expressions agree, so does what stands around them. -/
theorem plug_same {R : Scope D → Prop} (rows : ∀ r, R r → IsRow r) {x y : Expr}
    (same : SameIn R (exprMeaning E x) (exprMeaning E y)) :
    ∀ p : Position, SameIn R (exprMeaning E (p.plug x)) (exprMeaning E (p.plug y))
  | .here => same
  | .nested inner => plug_same rows same inner
  | .binaryLeft inner op right =>
    operation_same E rows (.binary op) (.cons (plug_same rows same inner) (sameIn_refl _))
  | .binaryRight left op inner =>
    operation_same E rows (.binary op) (.cons (.refl _) (.cons (plug_same rows same inner) .nil))
  | .unary op inner => operation_same E rows (.unary op) (.cons (plug_same rows same inner) .nil)
  | .cast kind inner dataType =>
    operation_same E rows (.cast kind dataType) (.cons (plug_same rows same inner) .nil)
  | .caseOperand inner conditions elseResult =>
    operation_same E rows _ (.cons (plug_same rows same inner) (sameIn_refl _))
  | .caseCondition operand before inner result after elseResult => by
    rw [Position.plug, Position.plug, exprMeaning, exprMeaning, List.length_append,
      List.length_append, caseMeanings_append, caseMeanings_append]
    exact operation_same E rows _ (List.rel_append (List.rel_append (sameIn_refl _)
      (sameIn_around _ _ (plug_same rows same inner))) (sameIn_refl _))
  | .caseResult operand before condition inner after elseResult => by
    rw [Position.plug, Position.plug, exprMeaning, exprMeaning, List.length_append,
      List.length_append, caseMeanings_append, caseMeanings_append]
    exact operation_same E rows _ (List.rel_append (List.rel_append (sameIn_refl _)
      (List.rel_append (sameIn_refl _) (.cons (.refl _)
        (.cons (plug_same rows same inner) (sameIn_refl _))))) (sameIn_refl _))
  | .caseElse operand conditions inner =>
    operation_same E rows _ (List.rel_append (sameIn_refl _) (.cons (plug_same rows same inner) .nil))
  | .anyLeft inner op right _ =>
    operation_same E rows (.anyOp op) (.cons (plug_same rows same inner) (sameIn_refl _))
  | .anyRight left op inner _ =>
    operation_same E rows (.anyOp op) (.cons (.refl _) (.cons (plug_same rows same inner) .nil))
  | .isTest test inner => operation_same E rows (.isTest test) (.cons (plug_same rows same inner) .nil)
  | .isDistinctFromLeft inner right =>
    operation_same E rows .isDistinctFrom (.cons (plug_same rows same inner) (sameIn_refl _))
  | .isDistinctFromRight left inner =>
    operation_same E rows .isDistinctFrom (.cons (.refl _) (.cons (plug_same rows same inner) .nil))
  | .isNotDistinctFromLeft inner right =>
    operation_same E rows .isNotDistinctFrom (.cons (plug_same rows same inner) (sameIn_refl _))
  | .isNotDistinctFromRight left inner =>
    operation_same E rows .isNotDistinctFrom (.cons (.refl _) (.cons (plug_same rows same inner) .nil))
  | .argument name distinct before argName inner after orderBy filter over_ withinGroup => by
    have shapes : ∀ z, argShape (Position.passed argName z) = .expr argName := by
      intro z
      cases argName <;> rfl
    have meanings : ∀ z, argMeanings E (before ++ Position.passed argName z :: after) =
        argMeanings E before ++ exprMeaning E z :: argMeanings E after := by
      intro z
      rw [argMeanings_append]
      cases argName <;> rfl
    simp only [Position.plug, exprMeaning, callShape, argsShape, argumentMeanings,
      List.map_append, List.map_cons, shapes, meanings]
    exact call_same E rows _ (List.rel_append (List.rel_append (List.rel_append (List.rel_append
      (sameIn_around _ _ (plug_same rows same inner)) (sameIn_refl _)) (sameIn_refl _))
        (sameIn_refl _)) (sameIn_refl _))
  | .fieldOf inner chain =>
    operation_same E rows (.access (chain.map accessShape))
      (.cons (plug_same rows same inner) (sameIn_refl _))
  | .inLeft inner q negated =>
    inSubquery_same E rows (queryMeaning E q) negated (.cons (plug_same rows same inner) .nil)
  | .inTuple before inner after q negated => by
    rw [Position.plug, Position.plug, exprMeaning, exprMeaning, exprMeanings_append,
      exprMeanings_append]
    exact inSubquery_same E rows _ _ (sameIn_around _ _ (plug_same rows same inner))
  | .child form before inner after => by
    rw [Position.plug, Position.plug, exprMeaning, exprMeaning, exprMeanings_append,
      exprMeanings_append]
    exact operation_same E rows _ (sameIn_around _ _ (plug_same rows same inner))

end

end PgCatalog.Semantics
