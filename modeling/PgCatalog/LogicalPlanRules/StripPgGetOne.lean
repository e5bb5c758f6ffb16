import Mathlib.Data.List.Basic

/-! `StripPgGetOne`: the optimizer rule that takes `pg_get_one` off the top of each expression
of a plan, and when that takes off all of them. -/
namespace PgCatalog.LogicalPlanRules

section
variable (κ : Type)

mutual

/-- Expressions: calls of scalar functions, and every other kind with what it holds. -/
inductive Expr where
  | scalarFunction (name : String) (args : List Expr)
  | node (kind : κ) (children : List Expr) (subqueries : List LogicalPlan)

/-- A node of a plan. `naming`: its own columns are called after its expressions, as those of a
projection are. -/
inductive LogicalPlan where
  | node (naming : Bool) (schema : List String) (exprs : List Expr) (inputs : List LogicalPlan)

end

end

variable {κ : Type}

def LogicalPlan.naming : LogicalPlan κ → Bool
  | .node naming _ _ _ => naming

def LogicalPlan.schema : LogicalPlan κ → List String
  | .node _ schema _ _ => schema

def LogicalPlan.exprs : LogicalPlan κ → List (Expr κ)
  | .node _ _ exprs _ => exprs

/-- `pg_get_one` of one argument. -/
def marker (e : Expr κ) : Expr κ := .scalarFunction "pg_get_one" [e]

/-- The closure handed to `map_expressions`. -/
def strip : Expr κ → Expr κ
  | .scalarFunction name [arg] =>
    if name = "pg_get_one" then arg else .scalarFunction name [arg]
  | e => e

/-! ## The rule over a plan -/

mutual

/-- `rewrite_with_subqueries` from the bottom up: the plans inside a node's expressions, then its
inputs, then the expressions themselves. -/
def LogicalPlan.rewritten : LogicalPlan κ → LogicalPlan κ
  | .node naming schema exprs inputs =>
    .node naming schema ((subqueriesRewritten exprs).map strip) (plansRewritten inputs)

def plansRewritten : List (LogicalPlan κ) → List (LogicalPlan κ)
  | [] => []
  | plan :: rest => plan.rewritten :: plansRewritten rest

/-- `map_subqueries`. -/
def Expr.subqueriesRewritten : Expr κ → Expr κ
  | .scalarFunction name args => .scalarFunction name (subqueriesRewritten args)
  | .node kind children subqueries =>
    .node kind (subqueriesRewritten children) (plansRewritten subqueries)

def subqueriesRewritten : List (Expr κ) → List (Expr κ)
  | [] => []
  | e :: rest => e.subqueriesRewritten :: subqueriesRewritten rest

end

/-! ## What the rule promises -/

mutual

/-- The plan without a marker in any expression, and otherwise the same. -/
def LogicalPlan.unmarked : LogicalPlan κ → LogicalPlan κ
  | .node naming schema exprs inputs =>
    .node naming schema (unmarkedList exprs) (plansUnmarked inputs)

def plansUnmarked : List (LogicalPlan κ) → List (LogicalPlan κ)
  | [] => []
  | plan :: rest => plan.unmarked :: plansUnmarked rest

def Expr.unmarked : Expr κ → Expr κ
  | .scalarFunction name [arg] =>
    if name = "pg_get_one" then arg.unmarked else .scalarFunction name [arg.unmarked]
  | .scalarFunction name args => .scalarFunction name (unmarkedList args)
  | .node kind children subqueries =>
    .node kind (unmarkedList children) (plansUnmarked subqueries)

def unmarkedList : List (Expr κ) → List (Expr κ)
  | [] => []
  | e :: rest => e.unmarked :: unmarkedList rest

end

mutual

/-- No marker at any depth of the expression itself. -/
def Expr.markerFree : Expr κ → Bool
  | .scalarFunction name args => !(name = "pg_get_one" && args.length = 1) && allMarkerFree args
  | .node _ children _ => allMarkerFree children

def allMarkerFree : List (Expr κ) → Bool
  | [] => true
  | e :: rest => e.markerFree && allMarkerFree rest

end

mutual

/-- The plan and every plan inside it, those of subqueries included. -/
def LogicalPlan.nodes : LogicalPlan κ → List (LogicalPlan κ)
  | .node naming schema exprs inputs =>
    .node naming schema exprs inputs :: (nodesInside exprs ++ plansNodes inputs)

def plansNodes : List (LogicalPlan κ) → List (LogicalPlan κ)
  | [] => []
  | plan :: rest => plan.nodes ++ plansNodes rest

def Expr.nodesInside : Expr κ → List (LogicalPlan κ)
  | .scalarFunction _ args => nodesInside args
  | .node _ children subqueries => nodesInside children ++ plansNodes subqueries

def nodesInside : List (Expr κ) → List (LogicalPlan κ)
  | [] => []
  | e :: rest => e.nodesInside ++ nodesInside rest

end

section
variable (nameOf : κ → List String → String)

mutual

/-- `schema_name`: the column name an expression gives. -/
def Expr.schemaName : Expr κ → String
  | .scalarFunction name args => name ++ "(" ++ ",".intercalate (schemaNames args) ++ ")"
  | .node kind children _ => nameOf kind (schemaNames children)

def schemaNames : List (Expr κ) → List String
  | [] => []
  | e :: rest => e.schemaName :: schemaNames rest

end

/-- A node's columns: its schema, and where its expressions name them, their names. -/
def LogicalPlan.outputNames (plan : LogicalPlan κ) : List String × List String :=
  (plan.schema, if plan.naming then schemaNames nameOf plan.exprs else [])

/-- Every marker is gone and nothing else, and no node's columns are called otherwise. -/
structure StrippedRight (plan : LogicalPlan κ) : Prop where
  exprs : plan.rewritten = plan.unmarked
  names : plan.rewritten.nodes.map (·.outputNames nameOf) = plan.nodes.map (·.outputNames nameOf)

end

/-- Marker-free, or one marker on top of what is. -/
def Strippable (e : Expr κ) : Prop :=
  e.markerFree = true ∨ ∃ arg, e = marker arg ∧ arg.markerFree = true

def NodeStrippable (plan : LogicalPlan κ) : Prop := ∀ e ∈ plan.exprs, Strippable e

/-! ## Markers -/

@[simp] theorem length_unmarkedList (es : List (Expr κ)) :
    (unmarkedList es).length = es.length := by
  induction es with
  | nil => rfl
  | cons e rest ih => rw [unmarkedList, List.length_cons, ih, List.length_cons]

theorem unmarked_call {name : String} {args : List (Expr κ)}
    (other : ¬(name = "pg_get_one" ∧ args.length = 1)) :
    (Expr.scalarFunction name args).unmarked = .scalarFunction name (unmarkedList args) := by
  cases args with
  | nil => rfl
  | cons arg rest =>
    cases rest with
    | nil =>
      rw [Expr.unmarked, if_neg fun same => other ⟨same, rfl⟩]
      rfl
    | cons arg' rest => rfl

theorem markerFree_call {name : String} {args : List (Expr κ)} :
    (Expr.scalarFunction name args).markerFree = true ↔
      ¬(name = "pg_get_one" ∧ args.length = 1) ∧ allMarkerFree args = true := by
  rw [Expr.markerFree, Bool.and_eq_true, Bool.not_eq_true', Bool.and_eq_false_iff,
    decide_eq_false_iff_not, decide_eq_false_iff_not, not_and_or]

theorem not_markerFree_marker (arg : Expr κ) : (marker arg).markerFree ≠ true :=
  fun free => (markerFree_call.mp free).1 ⟨rfl, rfl⟩

mutual

theorem Expr.unmarked_markerFree : ∀ e : Expr κ, e.unmarked.markerFree = true
  | .scalarFunction name [arg] => by
    rw [Expr.unmarked]
    split
    · exact arg.unmarked_markerFree
    · next other =>
      refine markerFree_call.mpr ⟨fun both => other both.1, ?_⟩
      rw [allMarkerFree, arg.unmarked_markerFree]
      rfl
  | .scalarFunction name [] => by
    rw [unmarked_call (by simp)]
    exact markerFree_call.mpr ⟨by simp [unmarkedList], rfl⟩
  | .scalarFunction name (arg :: arg' :: rest) => by
    rw [unmarked_call (by simp)]
    exact markerFree_call.mpr ⟨by simp, allMarkerFree_unmarked (arg :: arg' :: rest)⟩
  | .node kind children subqueries => allMarkerFree_unmarked children

theorem allMarkerFree_unmarked : ∀ es : List (Expr κ), allMarkerFree (unmarkedList es) = true
  | [] => rfl
  | e :: rest => by
    rw [unmarkedList, allMarkerFree, e.unmarked_markerFree, allMarkerFree_unmarked rest]
    rfl

end

/-! ## The rule and the promise -/

theorem strip_call {name : String} {args : List (Expr κ)}
    (other : ¬(name = "pg_get_one" ∧ args.length = 1)) :
    strip (.scalarFunction name args) = .scalarFunction name args := by
  cases args with
  | nil => rfl
  | cons arg rest =>
    cases rest with
    | nil => exact if_neg fun same => other ⟨same, rfl⟩
    | cons arg' rest => rfl

theorem length_subqueriesRewritten (es : List (Expr κ)) :
    (subqueriesRewritten es).length = es.length := by
  induction es with
  | nil => rfl
  | cons e rest ih => rw [subqueriesRewritten, List.length_cons, ih, List.length_cons]

theorem strippable_iff {e : Expr κ} (other : ∀ arg, e ≠ marker arg) :
    Strippable e ↔ e.markerFree = true := by
  refine ⟨fun strippable => ?_, .inl⟩
  obtain free | ⟨arg, same, -⟩ := strippable
  · exact free
  · exact absurd same (other arg)

/-- A call that is no marker keeps the promise as its arguments do; `P` is what the plans inside
owe. -/
theorem call_iff {name : String} {args : List (Expr κ)} {P : Prop}
    (other : ¬(name = "pg_get_one" ∧ args.length = 1))
    (inside : subqueriesRewritten args = unmarkedList args ↔ allMarkerFree args = true ∧ P) :
    (Expr.scalarFunction name args).subqueriesRewritten = (Expr.scalarFunction name args).unmarked ↔
      (Expr.scalarFunction name args).markerFree = true ∧ P := by
  rw [unmarked_call other, markerFree_call, Expr.subqueriesRewritten, Expr.scalarFunction.injEq]
  simp [other, inside]

/-- A call that is no marker is left as it is. -/
theorem strip_call_iff {name : String} {args : List (Expr κ)} {P : Prop}
    (other : ¬(name = "pg_get_one" ∧ args.length = 1))
    (inside : subqueriesRewritten args = unmarkedList args ↔ allMarkerFree args = true ∧ P) :
    strip (Expr.scalarFunction name args).subqueriesRewritten =
        (Expr.scalarFunction name args).unmarked ↔
      Strippable (Expr.scalarFunction name args) ∧ P := by
  have unlike : ∀ arg, Expr.scalarFunction name args ≠ marker arg := by
    rintro arg same
    obtain ⟨rfl, rfl⟩ := Expr.scalarFunction.inj same
    exact other ⟨rfl, rfl⟩
  have still : ¬(name = "pg_get_one" ∧ (subqueriesRewritten args).length = 1) := by
    rwa [length_subqueriesRewritten]
  rw [strippable_iff unlike, Expr.subqueriesRewritten, strip_call still, ← Expr.subqueriesRewritten]
  exact call_iff other inside

mutual

theorem LogicalPlan.rewritten_iff : ∀ plan : LogicalPlan κ,
    plan.rewritten = plan.unmarked ↔ ∀ n ∈ plan.nodes, NodeStrippable n
  | .node naming schema exprs inputs => by
    have top : NodeStrippable (.node naming schema exprs inputs) ↔ ∀ e ∈ exprs, Strippable e :=
      Iff.rfl
    rw [LogicalPlan.rewritten, LogicalPlan.unmarked, LogicalPlan.nodes, List.forall_mem_cons,
      List.forall_mem_append, ← plansRewritten_iff inputs, ← and_assoc, top, ← stripped_iff exprs]
    simp

theorem plansRewritten_iff : ∀ plans : List (LogicalPlan κ),
    plansRewritten plans = plansUnmarked plans ↔ ∀ n ∈ plansNodes plans, NodeStrippable n
  | [] => by simp [plansRewritten, plansUnmarked, plansNodes]
  | plan :: rest => by
    rw [plansRewritten, plansUnmarked, plansNodes, List.cons.injEq, List.forall_mem_append,
      plan.rewritten_iff, plansRewritten_iff rest]

theorem Expr.subqueries_iff : ∀ e : Expr κ,
    e.subqueriesRewritten = e.unmarked ↔
      e.markerFree = true ∧ ∀ n ∈ e.nodesInside, NodeStrippable n
  | .scalarFunction name args => by
    by_cases call : name = "pg_get_one" ∧ args.length = 1
    · have marked : (Expr.scalarFunction name args).markerFree ≠ true :=
        fun free => (markerFree_call.mp free).1 call
      refine ⟨fun same => ?_, fun free => absurd free.1 marked⟩
      -- The promise has no marker, and the rule left this one.
      have free := (Expr.scalarFunction name args).unmarked_markerFree
      rw [← same, Expr.subqueriesRewritten, markerFree_call, length_subqueriesRewritten] at free
      exact absurd call free.1
    · exact call_iff call (subqueriesList_iff args)
  | .node kind children subqueries => by
    rw [Expr.subqueriesRewritten, Expr.unmarked, Expr.markerFree, Expr.nodesInside,
      Expr.node.injEq, List.forall_mem_append, subqueriesList_iff children,
      plansRewritten_iff subqueries]
    simp [and_assoc]

theorem subqueriesList_iff : ∀ es : List (Expr κ),
    subqueriesRewritten es = unmarkedList es ↔
      allMarkerFree es = true ∧ ∀ n ∈ nodesInside es, NodeStrippable n
  | [] => by simp [subqueriesRewritten, unmarkedList, allMarkerFree, nodesInside]
  | e :: rest => by
    rw [subqueriesRewritten, unmarkedList, allMarkerFree, nodesInside, List.cons.injEq,
      List.forall_mem_append, e.subqueries_iff, subqueriesList_iff rest, Bool.and_eq_true]
    exact and_and_and_comm

theorem Expr.strip_iff : ∀ e : Expr κ,
    strip e.subqueriesRewritten = e.unmarked ↔
      Strippable e ∧ ∀ n ∈ e.nodesInside, NodeStrippable n
  | .scalarFunction name [arg] => by
    by_cases same : name = "pg_get_one"
    · subst same
      have strippable : Strippable (marker arg) ↔ arg.markerFree = true := by
        refine ⟨fun either => ?_, fun free => .inr ⟨arg, rfl, free⟩⟩
        obtain free | ⟨arg', same, free⟩ := either
        · exact absurd free (not_markerFree_marker arg)
        · obtain rfl : arg = arg' := by simpa [marker] using same
          exact free
      have inside : (marker arg).nodesInside = arg.nodesInside := List.append_nil _
      change arg.subqueriesRewritten = arg.unmarked ↔
        Strippable (marker arg) ∧ ∀ n ∈ (marker arg).nodesInside, NodeStrippable n
      rw [strippable, inside]
      exact arg.subqueries_iff
    · exact strip_call_iff (fun both => same both.1) (subqueriesList_iff [arg])
  | .scalarFunction name [] => strip_call_iff (by simp) (subqueriesList_iff [])
  | .scalarFunction name (arg :: arg' :: rest) =>
    strip_call_iff (by simp) (subqueriesList_iff (arg :: arg' :: rest))
  | .node kind children subqueries => by
    have unlike : ∀ arg, Expr.node kind children subqueries ≠ marker arg := by simp [marker]
    rw [strippable_iff unlike, Expr.markerFree, Expr.nodesInside, List.forall_mem_append,
      ← and_assoc, ← subqueriesList_iff children, ← plansRewritten_iff subqueries]
    change Expr.node kind _ _ = Expr.node kind _ _ ↔ _
    rw [Expr.node.injEq]
    simp

theorem stripped_iff : ∀ es : List (Expr κ),
    (subqueriesRewritten es).map strip = unmarkedList es ↔
      (∀ e ∈ es, Strippable e) ∧ ∀ n ∈ nodesInside es, NodeStrippable n
  | [] => by simp [subqueriesRewritten, unmarkedList, nodesInside]
  | e :: rest => by
    rw [subqueriesRewritten, unmarkedList, nodesInside, List.map_cons, List.cons.injEq,
      List.forall_mem_append, List.forall_mem_cons, stripped_iff rest, e.strip_iff]
    exact and_and_and_comm

end

/-! ## Column names -/

section
variable (nameOf : κ → List String → String)

theorem schemaNames_eq (es : List (Expr κ)) :
    schemaNames nameOf es = es.map (·.schemaName nameOf) := by
  induction es with
  | nil => rfl
  | cons e rest ih => rw [schemaNames, ih, List.map_cons]

mutual

/-- Names do not depend on the plans inside. -/
theorem Expr.schemaName_rewritten : ∀ e : Expr κ,
    e.subqueriesRewritten.schemaName nameOf = e.schemaName nameOf
  | .scalarFunction name args => by
    rw [Expr.subqueriesRewritten, Expr.schemaName, Expr.schemaName, schemaNames_rewritten args]
  | .node kind children subqueries => by
    rw [Expr.subqueriesRewritten, Expr.schemaName, Expr.schemaName, schemaNames_rewritten children]

theorem schemaNames_rewritten : ∀ es : List (Expr κ),
    schemaNames nameOf (subqueriesRewritten es) = schemaNames nameOf es
  | [] => rfl
  | e :: rest => by
    rw [subqueriesRewritten, schemaNames, schemaNames, e.schemaName_rewritten,
      schemaNames_rewritten rest]

end

theorem schemaName_marker (arg : Expr κ) :
    (marker arg).schemaName nameOf = "pg_get_one(" ++ arg.schemaName nameOf ++ ")" := by
  rw [marker, Expr.schemaName, schemaNames, schemaNames, String.intercalate_singleton]
  rfl

theorem strip_marker (arg : Expr κ) : strip (marker arg) = arg := by simp [strip, marker]

theorem strip_of_unmarked {e : Expr κ} (other : ∀ arg, e ≠ marker arg) : strip e = e := by
  unfold strip
  split
  · next name arg =>
    refine if_neg fun same => ?_
    subst same
    exact other arg rfl
  · rfl

/-- Taking a marker off changes the name. -/
theorem schemaName_strip (e : Expr κ) :
    (strip e).schemaName nameOf = e.schemaName nameOf ↔ ∀ arg, e ≠ marker arg := by
  by_cases marked : ∃ arg, e = marker arg
  · obtain ⟨arg, rfl⟩ := marked
    rw [strip_marker, schemaName_marker]
    refine ⟨fun same => ?_, fun none_ => absurd rfl (none_ arg)⟩
    have lengths := congrArg String.length same
    have opening : "pg_get_one(".length = 11 := by decide
    rw [String.length_append, String.length_append, opening] at lengths
    omega
  · rw [not_exists] at marked
    rw [strip_of_unmarked marked]
    exact iff_of_true rfl marked

theorem subqueriesRewritten_marker {e : Expr κ} :
    (∃ arg, e.subqueriesRewritten = marker arg) ↔ ∃ arg, e = marker arg := by
  cases e with
  | node kind children subqueries => simp [Expr.subqueriesRewritten, marker]
  | scalarFunction name args =>
    simp only [Expr.subqueriesRewritten, marker, Expr.scalarFunction.injEq, exists_and_left]
    refine and_congr_right fun _ => ?_
    rw [← List.length_eq_one_iff, ← List.length_eq_one_iff, length_subqueriesRewritten]

/-- The rule on the expressions of a node keeps the names exactly when none is a marker. -/
theorem schemaNames_strip (es : List (Expr κ)) :
    schemaNames nameOf ((subqueriesRewritten es).map strip) = schemaNames nameOf es ↔
      ∀ e ∈ es, ∀ arg, e ≠ marker arg := by
  induction es with
  | nil => simp [subqueriesRewritten, schemaNames]
  | cons e rest ih =>
    have first : (strip e.subqueriesRewritten).schemaName nameOf = e.schemaName nameOf ↔
        ∀ arg, e ≠ marker arg := by
      rw [← e.schemaName_rewritten nameOf, schemaName_strip, ← not_exists, ← not_exists,
        subqueriesRewritten_marker]
    rw [subqueriesRewritten, List.map_cons, schemaNames, schemaNames, List.cons.injEq, ih, first,
      List.forall_mem_cons]

end

/-! ## Nodes -/

/-- What is inside a marker stays inside what is left. -/
theorem strip_nodesInside (e : Expr κ) : (strip e).nodesInside = e.nodesInside := by
  unfold strip
  split
  · next name arg =>
    split
    · exact (List.append_nil _).symm
    · rfl
  · rfl

mutual

/-- The nodes of the plan left are those there were, each as it was left. -/
theorem LogicalPlan.nodes_rewritten : ∀ plan : LogicalPlan κ,
    plan.rewritten.nodes = plan.nodes.map LogicalPlan.rewritten
  | .node naming schema exprs inputs => by
    rw [LogicalPlan.rewritten, LogicalPlan.nodes, LogicalPlan.nodes, List.map_cons,
      List.map_append, plansNodes_rewritten inputs, nodesInside_stripped exprs]
    rfl

theorem plansNodes_rewritten : ∀ plans : List (LogicalPlan κ),
    plansNodes (plansRewritten plans) = (plansNodes plans).map LogicalPlan.rewritten
  | [] => rfl
  | plan :: rest => by
    rw [plansRewritten, plansNodes, plansNodes, List.map_append, plan.nodes_rewritten,
      plansNodes_rewritten rest]

theorem Expr.nodesInside_rewritten : ∀ e : Expr κ,
    e.subqueriesRewritten.nodesInside = e.nodesInside.map LogicalPlan.rewritten
  | .scalarFunction name args => nodesInsideList_rewritten args
  | .node kind children subqueries => by
    rw [Expr.subqueriesRewritten, Expr.nodesInside, Expr.nodesInside, List.map_append,
      nodesInsideList_rewritten children, plansNodes_rewritten subqueries]

theorem nodesInsideList_rewritten : ∀ es : List (Expr κ),
    nodesInside (subqueriesRewritten es) = (nodesInside es).map LogicalPlan.rewritten
  | [] => rfl
  | e :: rest => by
    rw [subqueriesRewritten, nodesInside, nodesInside, List.map_append, e.nodesInside_rewritten,
      nodesInsideList_rewritten rest]

theorem nodesInside_stripped : ∀ es : List (Expr κ),
    nodesInside ((subqueriesRewritten es).map strip) = (nodesInside es).map LogicalPlan.rewritten
  | [] => rfl
  | e :: rest => by
    rw [subqueriesRewritten, List.map_cons, nodesInside, nodesInside, List.map_append,
      strip_nodesInside, e.nodesInside_rewritten, nodesInside_stripped rest]

end

section
variable (nameOf : κ → List String → String)

theorem outputNames_rewritten (plan : LogicalPlan κ) :
    plan.rewritten.outputNames nameOf = plan.outputNames nameOf ↔
      (plan.naming = true → ∀ e ∈ plan.exprs, ∀ arg, e ≠ marker arg) := by
  obtain ⟨naming, schema, exprs, inputs⟩ := plan
  cases naming with
  | false => simp [LogicalPlan.rewritten, LogicalPlan.outputNames, LogicalPlan.naming,
      LogicalPlan.schema]
  | true =>
    rw [LogicalPlan.rewritten, LogicalPlan.outputNames, LogicalPlan.outputNames, Prod.mk.injEq]
    change _ ∧ schemaNames nameOf ((subqueriesRewritten exprs).map strip) =
      schemaNames nameOf exprs ↔ _
    rw [schemaNames_strip]
    simp [LogicalPlan.schema, LogicalPlan.naming, LogicalPlan.exprs]

/-- An expression that the rule serves: no marker in it, or one on top of what has none, where
that does not name a column. -/
def Served (naming : Bool) (e : Expr κ) : Prop :=
  e.markerFree = true ∨ naming = false ∧ ∃ arg, e = marker arg ∧ arg.markerFree = true

/-- Every marker is gone, nothing else is, and all columns keep their names, exactly when every
expression of every node is one that the rule serves. -/
theorem strip_pg_get_one_right_iff (plan : LogicalPlan κ) :
    StrippedRight nameOf plan ↔ ∀ n ∈ plan.nodes, ∀ e ∈ n.exprs, Served n.naming e := by
  have names : plan.rewritten.nodes.map (·.outputNames nameOf) =
      plan.nodes.map (·.outputNames nameOf) ↔ ∀ n ∈ plan.nodes,
        (n.naming = true → ∀ e ∈ n.exprs, ∀ arg, e ≠ marker arg) := by
    rw [plan.nodes_rewritten, List.map_map, List.map_inj_left]
    exact forall₂_congr fun n _ => outputNames_rewritten nameOf n
  have served : ∀ (naming : Bool) (e : Expr κ),
      Served naming e ↔ Strippable e ∧ (naming = true → ∀ arg, e ≠ marker arg) := by
    intro naming e
    constructor
    · rintro (free | ⟨rfl, arg, rfl, free⟩)
      · refine ⟨.inl free, fun _ arg same => ?_⟩
        rw [same] at free
        exact not_markerFree_marker arg free
      · exact ⟨.inr ⟨arg, rfl, free⟩, fun named => by cases named⟩
    · rintro ⟨free | ⟨arg, rfl, free⟩, unnamed⟩
      · exact .inl free
      · cases naming with
        | false => exact .inr ⟨rfl, arg, rfl, free⟩
        | true => exact absurd rfl (unnamed rfl arg)
  constructor
  · rintro ⟨exprs, same⟩ n inside e listed
    have strippable := plan.rewritten_iff.mp exprs n inside e listed
    exact (served n.naming e).mpr ⟨strippable, fun naming => names.mp same n inside naming e listed⟩
  · intro all
    refine ⟨plan.rewritten_iff.mpr fun n inside e listed => ?_,
      names.mpr fun n inside naming e listed => ?_⟩
    · exact ((served _ e).mp (all n inside e listed)).1
    · exact ((served _ e).mp (all n inside e listed)).2 naming

end

/-- `SELECT pg_get_one(c) AS v FROM t`, other expressions told apart by their names. -/
def aliasedMarker : LogicalPlan String :=
  .node true ["v"] [.node "v" [marker (.node "c" [] [])] []] [.node false ["c"] [] []]

theorem aliased_marker_stays : ¬ ∀ (nameOf : String → List String → String)
    (plan : LogicalPlan String), StrippedRight nameOf plan := by
  intro all
  have exprs := (all (fun name _ => name) aliasedMarker).exprs
  simp [aliasedMarker, marker, LogicalPlan.rewritten, LogicalPlan.unmarked, subqueriesRewritten,
    Expr.subqueriesRewritten, strip, unmarkedList, Expr.unmarked] at exprs

end PgCatalog.LogicalPlanRules
