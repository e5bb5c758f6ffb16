import PgCatalog.Semantics.Positions
import PgCatalog.Sql.Visit

/-! What an expression reads of its scope: without subqueries and windows, the columns it names
and nothing else. -/
namespace PgCatalog.Semantics

open Sql Library

/-- Whether an expression looks at one row only: it is neither a subquery nor over a window. -/
def isRowwise : Expr → Bool
  | .subquery _ | .exists _ _ | .inSubquery _ _ _ => false
  | .function ⟨_, .subquery _, _, _, _⟩ => false
  | .function ⟨_, _, _, over_, _⟩ => over_.isNone
  | _ => true

/-- The parts a column reference is looked up by. -/
def reference : Expr → Option (List String)
  | .identifier id => some [id.folded]
  | .compoundIdentifier parts => some (folded parts)
  | _ => none

section
variable {D : Type}

/-- Two scopes in which the same columns are found, by expressions that look at nothing else. -/
def ReadAlike (r r' : Scope D) (exprs : List Expr) : Prop :=
  ∀ x ∈ exprs, isRowwise x = true ∧ ∀ parts, reference x = some parts →
    lookup x parts r.frames = lookup x parts r'.frames

variable {r r' : Scope D}

theorem readAlike_cons {x : Expr} {exprs : List Expr} :
    ReadAlike r r' (x :: exprs) ↔ ReadAlike r r' [x] ∧ ReadAlike r r' exprs := by
  rw [ReadAlike, List.forall_mem_cons, ReadAlike, List.forall_mem_singleton]
  rfl

theorem readAlike_append {exprs more : List Expr} :
    ReadAlike r r' (exprs ++ more) ↔ ReadAlike r r' exprs ∧ ReadAlike r r' more :=
  List.forall_mem_append

variable (E : Engine D)

theorem operation_value (e : Expr) (shape : Shape) (operands : List (Meaning D)) (row : IsRow r) :
    (operation E e shape operands).value r = E.operator shape (operands.map (·.value r)) := by
  obtain ⟨_, _, _, rfl⟩ := row
  rfl

theorem column_value (e : Expr) (parts : List String) (row : IsRow r) :
    (column e parts : Meaning D).value r = lookup e parts r.frames := by
  obtain ⟨_, _, _, rfl⟩ := row
  rfl

/-- In the scope of a row a call is its function's, and an aggregate has no value. -/
theorem call_value (e : Expr) (shape : CallShape) (operands : List (Meaning D))
    (plain : shape.over_ = none) (row : IsRow r) :
    (call E e shape operands).value r =
      if E.aggregates shape.name then none
      else E.operator (.call shape) (operands.map (·.value r)) := by
  have over_ : shape.over_.isSome = false := by
    rw [plain]
    rfl
  obtain ⟨_, _, _, rfl⟩ := row
  rw [call, over_, if_neg Bool.false_ne_true]
  split
  · rfl
  · rfl

/-- The operands of a call, in the order it is given them. -/
def operandMeanings (f : Function) : List (Meaning D) :=
  argumentMeanings E f.args ++ optionMeanings E f.filter ++ windowMeanings E f.over_ ++
    (orderMeanings E f.withinGroup).map (·.meaning)

theorem function_meaning (f : Function) :
    exprMeaning E (.function f) = call E (.function f) (callShape f) (operandMeanings E f) := by
  obtain ⟨_, _, _, _, _⟩ := f
  rw [exprMeaning]
  rfl

theorem rowwise_call {f : Function} (rowwise : isRowwise (.function f) = true) :
    (callShape f).over_ = none := by
  obtain ⟨_, args, _, over_, _⟩ := f
  obtain rfl : over_ = none := by
    cases args <;> first | exact Option.isNone_iff_eq_none.mp rowwise | cases rowwise
  rfl

/-- The values of some expressions in two scopes. -/
def ValuedAlike (r r' : Scope D) (meanings : List (Meaning D)) : Prop :=
  meanings.map (·.value r) = meanings.map (·.value r')

theorem valuedAlike_cons {m : Meaning D} {meanings : List (Meaning D)}
    (first : m.value r = m.value r') (later : ValuedAlike r r' meanings) :
    ValuedAlike r r' (m :: meanings) := by
  rw [ValuedAlike, List.map_cons, List.map_cons, first, later]

theorem valuedAlike_append {meanings more : List (Meaning D)} (first : ValuedAlike r r' meanings)
    (second : ValuedAlike r r' more) : ValuedAlike r r' (meanings ++ more) := by
  rw [ValuedAlike, List.map_append, List.map_append, first, second]

variable (row : IsRow r) (row' : IsRow r')
include row row'

theorem operation_alike (e : Expr) (shape : Shape) {operands : List (Meaning D)}
    (alike : ValuedAlike r r' operands) :
    (operation E e shape operands).value r = (operation E e shape operands).value r' := by
  rw [operation_value E e shape operands row, operation_value E e shape operands row', alike]

theorem call_alike (e : Expr) (shape : CallShape) {operands : List (Meaning D)}
    (plain : shape.over_ = none) (alike : ValuedAlike r r' operands) :
    (call E e shape operands).value r = (call E e shape operands).value r' := by
  rw [call_value E e shape operands plain row, call_value E e shape operands plain row', alike]

set_option linter.unusedSectionVars false in
mutual

/-- An expression that finds the same columns in two rows has the same value in them. -/
theorem expr_alike : ∀ e : Expr, ReadAlike r r' e.visited →
    (exprMeaning E e).value r = (exprMeaning E e).value r'
  | .identifier id, alike => by
    rw [exprMeaning, column_value _ _ row, column_value _ _ row']
    exact (alike _ List.mem_cons_self).2 _ rfl
  | .compoundIdentifier parts, alike => by
    rw [exprMeaning, column_value _ _ row, column_value _ _ row']
    exact (alike _ List.mem_cons_self).2 _ rfl
  | .value v, _ => by
    rw [exprMeaning]
    exact operation_alike E row row' _ _ rfl
  | .binaryOp left op right, alike => by
    obtain ⟨_, alike⟩ := readAlike_cons.mp alike
    obtain ⟨first, second⟩ := readAlike_append.mp alike
    rw [exprMeaning]
    apply operation_alike E row row'
    exact valuedAlike_cons (expr_alike left first) (valuedAlike_cons (expr_alike right second) rfl)
  | .unaryOp op inner, alike => by
    obtain ⟨_, alike⟩ := readAlike_cons.mp alike
    rw [exprMeaning]
    exact operation_alike E row row' _ _ (valuedAlike_cons (expr_alike inner alike) rfl)
  | .nested inner, alike => by
    obtain ⟨_, alike⟩ := readAlike_cons.mp alike
    rw [exprMeaning]
    exact expr_alike inner alike
  | .cast kind inner dataType, alike => by
    obtain ⟨_, alike⟩ := readAlike_cons.mp alike
    rw [exprMeaning]
    exact operation_alike E row row' _ _ (valuedAlike_cons (expr_alike inner alike) rfl)
  | .case operand conditions elseResult, alike => by
    obtain ⟨_, alike⟩ := readAlike_cons.mp alike
    obtain ⟨alike, last⟩ := readAlike_append.mp alike
    obtain ⟨first, cases_⟩ := readAlike_append.mp alike
    rw [exprMeaning]
    apply operation_alike E row row'
    exact valuedAlike_append (valuedAlike_append (option_alike operand first)
      (cases_alike conditions cases_)) (option_alike elseResult last)
  | .anyOp left op right isSome, alike => by
    obtain ⟨_, alike⟩ := readAlike_cons.mp alike
    obtain ⟨first, second⟩ := readAlike_append.mp alike
    rw [exprMeaning]
    apply operation_alike E row row'
    exact valuedAlike_cons (expr_alike left first) (valuedAlike_cons (expr_alike right second) rfl)
  | .isTest test inner, alike => by
    obtain ⟨_, alike⟩ := readAlike_cons.mp alike
    rw [exprMeaning]
    exact operation_alike E row row' _ _ (valuedAlike_cons (expr_alike inner alike) rfl)
  | .isDistinctFrom left right, alike => by
    obtain ⟨_, alike⟩ := readAlike_cons.mp alike
    obtain ⟨first, second⟩ := readAlike_append.mp alike
    rw [exprMeaning]
    apply operation_alike E row row'
    exact valuedAlike_cons (expr_alike left first) (valuedAlike_cons (expr_alike right second) rfl)
  | .isNotDistinctFrom left right, alike => by
    obtain ⟨_, alike⟩ := readAlike_cons.mp alike
    obtain ⟨first, second⟩ := readAlike_append.mp alike
    rw [exprMeaning]
    apply operation_alike E row row'
    exact valuedAlike_cons (expr_alike left first) (valuedAlike_cons (expr_alike right second) rfl)
  | .function f, alike => by
    obtain ⟨itself, alike⟩ := readAlike_cons.mp alike
    have rowwise := (itself _ List.mem_cons_self).1
    rw [function_meaning]
    exact call_alike E row row' _ _ (rowwise_call rowwise) (operands_alike f rowwise alike)
  | .compoundFieldAccess root chain, alike => by
    obtain ⟨_, alike⟩ := readAlike_cons.mp alike
    obtain ⟨first, later⟩ := readAlike_append.mp alike
    rw [exprMeaning]
    apply operation_alike E row row'
    exact valuedAlike_cons (expr_alike root first) (access_alike chain later)
  | .subquery _, alike => nomatch (alike _ List.mem_cons_self).1
  | .exists _ _, alike => nomatch (alike _ List.mem_cons_self).1
  | .inSubquery _ _ _, alike => nomatch (alike _ List.mem_cons_self).1
  | .node form children, alike => by
    obtain ⟨_, alike⟩ := readAlike_cons.mp alike
    rw [exprMeaning]
    exact operation_alike E row row' _ _ (list_alike children alike)

theorem operands_alike : ∀ f : Function, isRowwise (.function f) = true →
    ReadAlike r r' f.visited → ValuedAlike r r' (operandMeanings E f)
  | ⟨_, args, filter, over_, withinGroup⟩, rowwise, alike => by
    obtain ⟨alike, within⟩ := readAlike_append.mp alike
    obtain ⟨alike, _⟩ := readAlike_append.mp alike
    obtain ⟨arguments, filtered⟩ := readAlike_append.mp alike
    obtain rfl : over_ = none := by
      cases args <;> first | exact Option.isNone_iff_eq_none.mp rowwise | cases rowwise
    refine valuedAlike_append (valuedAlike_append (valuedAlike_append
      (arguments_alike args ?_ arguments) (option_alike filter filtered)) rfl)
      (orders_alike withinGroup within)
    rintro q rfl
    cases rowwise

theorem option_alike : ∀ e : Option Expr, ReadAlike r r' (visitedOption e) →
    ValuedAlike r r' (optionMeanings E e)
  | none, _ => rfl
  | some e, alike => by
    rw [optionMeanings]
    exact valuedAlike_cons (expr_alike e alike) rfl

theorem list_alike : ∀ exprs : List Expr, ReadAlike r r' (visitedList exprs) →
    ValuedAlike r r' (exprMeanings E exprs)
  | [], _ => rfl
  | e :: rest, alike => by
    obtain ⟨first, later⟩ := readAlike_append.mp alike
    rw [exprMeanings]
    exact valuedAlike_cons (expr_alike e first) (list_alike rest later)

theorem cases_alike : ∀ conditions : List CaseWhen, ReadAlike r r' (visitedCases conditions) →
    ValuedAlike r r' (caseMeanings E conditions)
  | [], _ => rfl
  | ⟨condition, result⟩ :: rest, alike => by
    obtain ⟨alike, later⟩ := readAlike_append.mp alike
    obtain ⟨first, second⟩ := readAlike_append.mp alike
    rw [caseMeanings]
    exact valuedAlike_cons (expr_alike condition first)
      (valuedAlike_cons (expr_alike result second) (cases_alike rest later))

theorem access_alike : ∀ chain : List AccessExpr, ReadAlike r r' (visitedAccess chain) →
    ValuedAlike r r' (accessMeanings E chain)
  | [], _ => rfl
  | .dot e :: rest, alike => by
    obtain ⟨first, later⟩ := readAlike_append.mp alike
    rw [accessMeanings]
    exact valuedAlike_cons (expr_alike e first) (access_alike rest later)
  | .subscript index :: rest, alike => by
    obtain ⟨first, later⟩ := readAlike_append.mp alike
    rw [accessMeanings]
    exact valuedAlike_cons (expr_alike index first) (access_alike rest later)
  | .slice lower upper :: rest, alike => by
    obtain ⟨alike, later⟩ := readAlike_append.mp alike
    obtain ⟨first, second⟩ := readAlike_append.mp alike
    rw [accessMeanings]
    exact valuedAlike_append (valuedAlike_append (option_alike lower first)
      (option_alike upper second)) (access_alike rest later)

theorem arguments_alike : ∀ args : FunctionArguments, (∀ q, args ≠ .subquery q) →
    ReadAlike r r' args.visited → ValuedAlike r r' (argumentMeanings E args)
  | .none, _, _ => rfl
  | .subquery q, plain, _ => absurd rfl (plain q)
  | .list _ args orderBy, _, alike => by
    obtain ⟨first, later⟩ := readAlike_append.mp alike
    rw [argumentMeanings]
    exact valuedAlike_append (args_alike args first) (orders_alike orderBy later)

theorem args_alike : ∀ args : List FunctionArg, ReadAlike r r' (visitedArgs args) →
    ValuedAlike r r' (argMeanings E args)
  | [], _ => rfl
  | .unnamed arg :: rest, alike => by
    obtain ⟨first, later⟩ := readAlike_append.mp alike
    rw [argMeanings]
    exact valuedAlike_append (arg_alike arg first) (args_alike rest later)
  | .named _ arg :: rest, alike => by
    obtain ⟨first, later⟩ := readAlike_append.mp alike
    rw [argMeanings]
    exact valuedAlike_append (arg_alike arg first) (args_alike rest later)

theorem arg_alike : ∀ arg : FunctionArgExpr, ReadAlike r r' arg.visited →
    ValuedAlike r r' (argMeaning E arg)
  | .expr e, alike => by
    rw [argMeaning]
    exact valuedAlike_cons (expr_alike e alike) rfl
  | .qualifiedWildcard _, _ => rfl
  | .wildcard, _ => rfl

theorem orders_alike : ∀ orderBy : List OrderByExpr, ReadAlike r r' (visitedOrderBy orderBy) →
    ValuedAlike r r' ((orderMeanings E orderBy).map (·.meaning))
  | [], _ => rfl
  | ⟨e, _, _⟩ :: rest, alike => by
    obtain ⟨first, later⟩ := readAlike_append.mp alike
    rw [orderMeanings]
    exact valuedAlike_cons (expr_alike e first) (orders_alike rest later)

end

end

section
variable {D : Type} {e : Expr} {parts : List String} {columns more : List Column}
  {cells others : List D} {outer : List (Frame D)}

theorem findIdxs_apart (none_ : ∀ c ∈ more, c.answers parts = false) :
    (columns ++ more).findIdxs (·.answers parts) = columns.findIdxs (·.answers parts) := by
  have nothing : more.findIdxs (·.answers parts) (0 + columns.length) = [] :=
    List.findIdxs_eq_nil_iff.mpr none_
  rw [List.findIdxs_append, nothing, List.append_nil]

/-- Columns behind a row's own that do not answer a reference leave what it finds. -/
theorem lookup_apart (wide : cells.length = columns.length)
    (none_ : ∀ c ∈ more, c.answers parts = false) :
    lookup e parts (.row (columns ++ more) (cells ++ others) :: outer) =
      lookup e parts (.row columns cells :: outer) := by
  rw [lookup, lookup, findIdxs_apart none_]
  split
  · rfl
  · next i only =>
    have inside : i < columns.length := by
      have member : i ∈ columns.findIdxs (·.answers parts) := by
        rw [only]
        exact List.mem_cons_self
      have bound := List.lt_add_of_mem_findIdxs i member
      omega
    rw [List.getElem?_append_left (by omega)]
  · rfl

/-- Columns in front that do not answer a reference are passed over. -/
theorem lookup_behind (wide : cells.length = columns.length)
    (none_ : ∀ c ∈ columns, c.answers parts = false) :
    lookup e parts (.row (columns ++ more) (cells ++ others) :: outer) =
      lookup e parts (.row more others :: outer) := by
  have nothing : columns.findIdxs (·.answers parts) = [] := List.findIdxs_eq_nil_iff.mpr none_
  have moved : (columns ++ more).findIdxs (·.answers parts) =
      (more.findIdxs (·.answers parts)).map (· + columns.length) := by
    rw [List.findIdxs_append, nothing, List.nil_append, Nat.zero_add, List.findIdxs_start]
  rw [lookup, lookup, moved]
  generalize more.findIdxs (·.answers parts) = found
  rcases found with _ | ⟨i, _ | ⟨j, rest⟩⟩
  · rfl
  · change (cells ++ others)[i + columns.length]? = others[i]?
    rw [List.getElem?_append_right (by omega), wide, Nat.add_sub_cancel]
  · rfl

/-- The one column that a row has. -/
theorem lookup_single {c : Column} {v : D} (answers : c.answers parts = true) :
    lookup e parts (.row [c] [v] :: outer) = some v := by
  rw [lookup, List.findIdxs_cons, if_pos answers]
  rfl

/-- A reference that one column answers and no other. -/
def IsColumn (columns : List Column) (parts : List String) : Prop :=
  ∃ i, columns.findIdxs (·.answers parts) = [i]

/-- The value of a column in a row. -/
def cellOf (E : Engine D) (columns : List Column) (parts : List String) (cells : List D) : D :=
  ((columns.findIdxs (·.answers parts)).head?.bind (cells[·]?)).getD E.null

theorem isColumn_answers (only : IsColumn columns parts) :
    ∃ c ∈ columns, c.answers parts = true := by
  obtain ⟨i, only⟩ := only
  by_contra none_
  have nothing : columns.findIdxs (·.answers parts) = [] := by
    refine List.findIdxs_eq_nil_iff.mpr fun c member => ?_
    rw [← Bool.not_eq_true]
    exact fun answers => none_ ⟨c, member, answers⟩
  rw [nothing] at only
  cases only

/-- A reference that a row answers does not look further. -/
theorem lookup_inside {outer' : List (Frame D)} (only : IsColumn columns parts) :
    lookup e parts (.row columns cells :: outer) =
      lookup e parts (.row columns cells :: outer') := by
  obtain ⟨i, only⟩ := only
  rw [lookup, lookup, only]

/-- A column that alone answers a reference is what it finds. -/
theorem lookup_cell (E : Engine D) (only : IsColumn columns parts)
    (wide : cells.length = columns.length) :
    lookup e parts (.row columns cells :: outer) = some (cellOf E columns parts cells) := by
  obtain ⟨i, only⟩ := only
  have inside : i < cells.length := by
    have member : i ∈ columns.findIdxs (·.answers parts) := by
      rw [only]
      exact List.mem_cons_self
    have bound := List.lt_add_of_mem_findIdxs i member
    omega
  rw [lookup, cellOf, only]
  change cells[i]? = some (cells[i]?.getD E.null)
  rw [List.getElem?_eq_getElem inside]
  rfl

/-- An expression that no column behind a row answers has its value there. -/
theorem expr_apart (E : Engine D) {s s' : Scope D} (frames : s'.frames = s.frames)
    (wide : cells.length = columns.length)
    (reads : ∀ x ∈ e.visited, isRowwise x = true ∧ ∀ parts, reference x = some parts →
      ∀ c ∈ more, c.answers parts = false) :
    (exprMeaning E e).value (s'.under (.row (columns ++ more) (cells ++ others))) =
      (exprMeaning E e).value (s.under (.row columns cells)) := by
  refine expr_alike E ⟨s', _, _, rfl⟩ ⟨s, _, _, rfl⟩ e fun x member => ?_
  obtain ⟨rowwise, apart⟩ := reads x member
  refine ⟨rowwise, fun parts named => ?_⟩
  change lookup x parts (.row _ _ :: s'.frames) = lookup x parts (.row columns cells :: s.frames)
  rw [frames, lookup_apart wide (apart parts named)]

end

end PgCatalog.Semantics
