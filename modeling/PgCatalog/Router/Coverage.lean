import PgCatalog.Router.Detect

/-! Every relation a statement names, at any depth, stands in a FROM clause: of the
statement's own query, or of a query that one of its expressions holds. The routing
decision looks at the first kind only. -/
namespace PgCatalog.Router

open Library Sql ScalarToCte

/-- The relations named by what is mentioned. -/
def relationNames (mentions : List Mention) : List ObjectName :=
  (relationsIn mentions).map (·.2)

/-- The relations in the FROM clauses of a query, not those of its expressions. -/
def exposed (q : Query) : List ObjectName := (queryReferences q).map (·.2)

/-- The relations in the FROM clauses of the queries that expressions hold. -/
def heldRelations (es : List Expr) : List ObjectName :=
  es.flatMap fun e => e.subqueries.flatMap exposed

@[simp] theorem relationNames_nil : relationNames [] = [] := rfl

@[simp] theorem relationNames_append (xs ys : List Mention) :
    relationNames (xs ++ ys) = relationNames xs ++ relationNames ys := by
  rw [relationNames, relationsIn_append, List.map_append]
  rfl

@[simp] theorem relationNames_within (xs : List Mention) (names : List Qualifier) :
    relationNames (xs.map (·.within names)) = relationNames xs := by
  rw [relationNames, relationsIn_within]
  rfl

theorem underNames_names (refs : List RelationRef) (names : List String) :
    (refs.map (underNames names)).map (·.2) = refs.map (·.2) := by
  rw [List.map_map]
  rfl

@[simp] theorem relationNames_underCtes (xs : List Mention) (names : List String) :
    relationNames (xs.map (·.underCtes names)) = relationNames xs := by
  rw [relationNames, relationsIn_underCtes, underNames_names]
  rfl

@[simp] theorem heldRelations_nil : heldRelations [] = [] := rfl

@[simp] theorem heldRelations_cons (e : Expr) (es : List Expr) :
    heldRelations (e :: es) = e.subqueries.flatMap exposed ++ heldRelations es := rfl

@[simp] theorem heldRelations_append (xs ys : List Expr) :
    heldRelations (xs ++ ys) = heldRelations xs ++ heldRelations ys := List.flatMap_append

section
variable (name : ObjectName)

mutual

theorem Expr.relations_held : ∀ e : Expr,
    name ∈ relationNames e.mentions ↔ name ∈ heldRelations e.visited
  | .identifier _ => Iff.rfl
  | .compoundIdentifier _ => Iff.rfl
  | .value _ => Iff.rfl
  | .binaryOp left _ right => by
    simp only [Expr.mentions, Expr.visited, heldRelations_cons, Expr.subqueries, List.flatMap_nil,
      List.nil_append, relationNames_append, heldRelations_append, List.mem_append, Expr.relations_held left,
      Expr.relations_held right]
  | .unaryOp _ inner => Expr.relations_held inner
  | .nested inner => Expr.relations_held inner
  | .cast _ inner _ => Expr.relations_held inner
  | .case operand conditions elseResult => by
    simp only [Expr.mentions, Expr.visited, heldRelations_cons, Expr.subqueries, List.flatMap_nil,
      List.nil_append, relationNames_append, heldRelations_append, List.mem_append, option_relations_held operand,
      cases_relations_held conditions, option_relations_held elseResult]
  | .anyOp left _ right _ => by
    simp only [Expr.mentions, Expr.visited, heldRelations_cons, Expr.subqueries, List.flatMap_nil,
      List.nil_append, relationNames_append, heldRelations_append, List.mem_append, Expr.relations_held left,
      Expr.relations_held right]
  | .isTest _ inner => Expr.relations_held inner
  | .isDistinctFrom left right => by
    simp only [Expr.mentions, Expr.visited, heldRelations_cons, Expr.subqueries, List.flatMap_nil,
      List.nil_append, relationNames_append, heldRelations_append, List.mem_append, Expr.relations_held left,
      Expr.relations_held right]
  | .isNotDistinctFrom left right => by
    simp only [Expr.mentions, Expr.visited, heldRelations_cons, Expr.subqueries, List.flatMap_nil,
      List.nil_append, relationNames_append, heldRelations_append, List.mem_append, Expr.relations_held left,
      Expr.relations_held right]
  | .function f => function_relations_held f
  | .compoundFieldAccess root chain => by
    simp only [Expr.mentions, Expr.visited, heldRelations_cons, Expr.subqueries, List.flatMap_nil,
      List.nil_append, relationNames_append, heldRelations_append, List.mem_append, Expr.relations_held root,
      access_relations_held chain]
  | .subquery q => by
    simp only [Expr.mentions, Expr.visited, heldRelations_cons, Expr.subqueries,
      List.flatMap_singleton, List.mem_append, query_relations_held q]
  | .exists q _ => by
    simp only [Expr.mentions, Expr.visited, heldRelations_cons, Expr.subqueries,
      List.flatMap_singleton, List.mem_append, query_relations_held q]
  | .inSubquery inner q _ => by
    simp only [Expr.mentions, Expr.visited, heldRelations_cons, Expr.subqueries,
      List.flatMap_singleton, relationNames_append, heldRelations_append, List.mem_append,
      Expr.relations_held inner, query_relations_held q]
    exact or_left_comm
  | .node _ children => list_relations_held children

theorem option_relations_held : ∀ e : Option Expr,
    name ∈ relationNames (mentionsOption e) ↔ name ∈ heldRelations (visitedOption e)
  | none => Iff.rfl
  | some e => Expr.relations_held e

theorem list_relations_held : ∀ es : List Expr,
    name ∈ relationNames (mentionsList es) ↔ name ∈ heldRelations (visitedList es)
  | [] => Iff.rfl
  | e :: rest => by
    simp only [mentionsList, visitedList, relationNames_append, heldRelations_append,
      List.mem_append, Expr.relations_held e, list_relations_held rest]

theorem cases_relations_held : ∀ conditions : List CaseWhen,
    name ∈ relationNames (mentionsCases conditions) ↔
      name ∈ heldRelations (visitedCases conditions)
  | [] => Iff.rfl
  | ⟨condition, result⟩ :: rest => by
    simp only [mentionsCases, visitedCases, relationNames_append, heldRelations_append,
      List.mem_append, Expr.relations_held condition, Expr.relations_held result,
      cases_relations_held rest]

theorem access_relations_held : ∀ chain : List AccessExpr,
    name ∈ relationNames (mentionsAccess chain) ↔ name ∈ heldRelations (visitedAccess chain)
  | [] => Iff.rfl
  | .dot e :: rest => by
    simp only [mentionsAccess, visitedAccess, relationNames_append, heldRelations_append,
      List.mem_append, Expr.relations_held e, access_relations_held rest]
  | .subscript index :: rest => by
    simp only [mentionsAccess, visitedAccess, relationNames_append, heldRelations_append,
      List.mem_append, Expr.relations_held index, access_relations_held rest]
  | .slice lower upper :: rest => by
    simp only [mentionsAccess, visitedAccess, relationNames_append, heldRelations_append,
      List.mem_append, option_relations_held lower, option_relations_held upper,
      access_relations_held rest]

theorem function_relations_held : ∀ f : Function,
    name ∈ relationNames f.mentions ↔ name ∈ heldRelations (Expr.function f).visited
  | ⟨_, args, filter, over_, withinGroup⟩ => by
    simp only [Function.mentions, Expr.visited, Function.visited, heldRelations_cons,
      relationNames_append, heldRelations_append, List.mem_append,
      option_relations_held filter, window_relations_held over_,
      orderBy_relations_held withinGroup]
    rw [arguments_relations_held args]
    cases args <;> simp only [Expr.subqueries, List.flatMap_nil, List.flatMap_singleton,
      List.not_mem_nil, false_or, or_assoc]

/-- The relations in a function's arguments, where the argument may be a query. -/
theorem arguments_relations_held : ∀ args : FunctionArguments,
    name ∈ relationNames args.mentions ↔
      name ∈ (Expr.subqueries (.function ⟨[], args, none, none, []⟩)).flatMap exposed ∨
        name ∈ heldRelations args.visited
  | .none => by
    simp only [FunctionArguments.mentions, FunctionArguments.visited, Expr.subqueries,
      relationNames_nil, heldRelations_nil, List.flatMap_nil, List.not_mem_nil, or_self]
  | .subquery q => by
    simp only [FunctionArguments.mentions, FunctionArguments.visited, Expr.subqueries,
      List.flatMap_singleton, query_relations_held q]
  | .list _ args orderBy => by
    simp only [FunctionArguments.mentions, FunctionArguments.visited, Expr.subqueries,
      relationNames_append, heldRelations_append, List.mem_append, List.flatMap_nil,
      List.not_mem_nil, false_or, args_relations_held args, orderBy_relations_held orderBy]

theorem args_relations_held : ∀ args : List FunctionArg,
    name ∈ relationNames (mentionsArgs args) ↔ name ∈ heldRelations (visitedArgs args)
  | [] => Iff.rfl
  | .unnamed arg :: rest => by
    simp only [mentionsArgs, visitedArgs, relationNames_append, heldRelations_append,
      List.mem_append, arg_relations_held arg, args_relations_held rest]
  | .named _ arg :: rest => by
    simp only [mentionsArgs, visitedArgs, relationNames_append, heldRelations_append,
      List.mem_append, arg_relations_held arg, args_relations_held rest]

theorem arg_relations_held : ∀ arg : FunctionArgExpr,
    name ∈ relationNames arg.mentions ↔ name ∈ heldRelations arg.visited
  | .expr e => Expr.relations_held e
  | .qualifiedWildcard _ => Iff.rfl
  | .wildcard => Iff.rfl

theorem window_relations_held : ∀ over_ : Option WindowType,
    name ∈ relationNames (mentionsWindow over_) ↔ name ∈ heldRelations (visitedWindow over_)
  | none => Iff.rfl
  | some (.spec partitionBy orderBy) => by
    simp only [mentionsWindow, visitedWindow, relationNames_append, heldRelations_append,
      List.mem_append, list_relations_held partitionBy, orderBy_relations_held orderBy]
  | some (.named _) => Iff.rfl

theorem orderBy_relations_held : ∀ orderBy : List OrderByExpr,
    name ∈ relationNames (mentionsOrderBy orderBy) ↔
      name ∈ heldRelations (visitedOrderBy orderBy)
  | [] => Iff.rfl
  | ⟨e, _, _⟩ :: rest => by
    simp only [mentionsOrderBy, visitedOrderBy, relationNames_append, heldRelations_append,
      List.mem_append, Expr.relations_held e, orderBy_relations_held rest]

/-- A relation a query names is in its FROM clauses or in a query an expression holds. -/
theorem query_relations_held : ∀ q : Query,
    name ∈ relationNames q.mentions ↔ name ∈ exposed q ∨ name ∈ heldRelations q.visited
  | ⟨with_, body, orderBy, limit, offset⟩ => by
    simp only [Query.mentions, Query.visited, exposed, queryReferences, relationNames_append,
      relationNames_underCtes, relationNames_within, heldRelations_append, List.map_append,
      underNames_names, List.mem_append, with_relations_held with_, body_relations_held body,
      orderBy_relations_held orderBy, option_relations_held limit,
      option_relations_held offset]
    tauto

theorem with_relations_held : ∀ with_ : Option With,
    name ∈ relationNames (mentionsWith with_) ↔
      name ∈ (withReferences with_).map (·.2) ∨ name ∈ heldRelations (visitedWith with_)
  | none => by
    simp only [mentionsWith, withReferences, visitedWith, relationNames_nil, heldRelations_nil,
      List.map_nil, List.not_mem_nil, or_self]
  | some ⟨recursive, cteTables⟩ => by
    simp only [mentionsWith, withReferences, visitedWith, relationNames_underCtes,
      underNames_names, ctes_relations_held cteTables]

theorem ctes_relations_held : ∀ cteTables : List Cte,
    name ∈ relationNames (mentionsCtes cteTables) ↔
      name ∈ (ctesReferences cteTables).map (·.2) ∨ name ∈ heldRelations (visitedCtes cteTables)
  | [] => by
    simp only [mentionsCtes, ctesReferences, visitedCtes, relationNames_nil, heldRelations_nil,
      List.map_nil, List.not_mem_nil, or_self]
  | ⟨alias_, query⟩ :: rest => by
    simp only [mentionsCtes, ctesReferences, visitedCtes, relationNames_append,
      relationNames_underCtes, heldRelations_append, List.map_append, underNames_names,
      List.mem_append, query_relations_held query, ctes_relations_held rest, exposed]
    tauto

theorem body_relations_held : ∀ body : SetExpr,
    name ∈ relationNames body.mentions ↔
      name ∈ (bodyReferences body).map (·.2) ∨ name ∈ heldRelations body.visited
  | .select ⟨distinct, projection, from_, selection, groupBy, having⟩ => by
    simp only [SetExpr.mentions, Select.mentions, SetExpr.visited, Select.visited,
      bodyReferences, relationNames_append, relationNames_within, heldRelations_append,
      List.mem_append, distinct_relations_held distinct, items_relations_held projection,
      from_relations_held from_, option_relations_held selection,
      groupBy_relations_held groupBy, option_relations_held having]
    tauto
  | .query q => query_relations_held q
  | .setOperation _ _ left right => by
    simp only [SetExpr.mentions, SetExpr.visited, bodyReferences, relationNames_append,
      heldRelations_append, List.map_append, List.mem_append, body_relations_held left,
      body_relations_held right]
    tauto
  | .values rows => by
    simp only [SetExpr.mentions, SetExpr.visited, bodyReferences, List.map_nil,
      List.not_mem_nil, false_or, list_relations_held rows]

theorem distinct_relations_held : ∀ distinct : Distinct,
    name ∈ relationNames distinct.mentions ↔ name ∈ heldRelations distinct.visited
  | .no => Iff.rfl
  | .rows => Iff.rfl
  | .on exprs => list_relations_held exprs

theorem items_relations_held : ∀ items : List SelectItem,
    name ∈ relationNames (mentionsItems items) ↔ name ∈ heldRelations (visitedItems items)
  | [] => Iff.rfl
  | .unnamedExpr e :: rest => by
    simp only [mentionsItems, visitedItems, relationNames_append, heldRelations_append,
      List.mem_append, Expr.relations_held e, items_relations_held rest]
  | .exprWithAlias e _ :: rest => by
    simp only [mentionsItems, visitedItems, relationNames_append, heldRelations_append,
      List.mem_append, Expr.relations_held e, items_relations_held rest]
  | .qualifiedWildcard _ :: rest => items_relations_held rest
  | .wildcard :: rest => items_relations_held rest

theorem groupBy_relations_held : ∀ groupBy : GroupByExpr,
    name ∈ relationNames groupBy.mentions ↔ name ∈ heldRelations groupBy.visited
  | .all => Iff.rfl
  | .expressions exprs => list_relations_held exprs

theorem from_relations_held : ∀ (from_ : List TableWithJoins) (inside : List Qualifier),
    name ∈ relationNames (mentionsFrom inside from_) ↔
      name ∈ (fromReferences from_).map (·.2) ∨ name ∈ heldRelations (visitedFrom from_)
  | [], _ => by
    simp only [mentionsFrom, fromReferences, visitedFrom, relationNames_nil, heldRelations_nil,
      List.map_nil, List.not_mem_nil, or_self]
  | entry :: rest, inside => by
    simp only [mentionsFrom, fromReferences, visitedFrom, relationNames_append,
      heldRelations_append, List.map_append, List.mem_append, entry_relations_held entry,
      from_relations_held rest]
    tauto

theorem entry_relations_held : ∀ (entry : TableWithJoins) (inside : List Qualifier),
    name ∈ relationNames (entry.mentions inside) ↔
      name ∈ (entryReferences entry).map (·.2) ∨ name ∈ heldRelations entry.visited
  | ⟨relation, joins⟩, inside => by
    simp only [TableWithJoins.mentions, entryReferences, TableWithJoins.visited,
      relationNames_append, heldRelations_append, List.map_append, List.mem_append,
      factor_relations_held relation, joins_relations_held joins]
    tauto

theorem joins_relations_held : ∀ (joins : List Join) (inside : List Qualifier),
    name ∈ relationNames (mentionsJoins inside joins) ↔
      name ∈ (joinsReferences joins).map (·.2) ∨ name ∈ heldRelations (visitedJoins joins)
  | [], _ => by
    simp only [mentionsJoins, joinsReferences, visitedJoins, relationNames_nil,
      heldRelations_nil, List.map_nil, List.not_mem_nil, or_self]
  | ⟨relation, _, constraint⟩ :: rest, inside => by
    simp only [mentionsJoins, joinsReferences, visitedJoins, relationNames_append,
      relationNames_within, heldRelations_append, List.map_append, List.mem_append,
      factor_relations_held relation, constraint_relations_held constraint,
      joins_relations_held rest]
    tauto

theorem constraint_relations_held : ∀ constraint : JoinConstraint,
    name ∈ relationNames constraint.mentions ↔ name ∈ heldRelations constraint.visited
  | .on e => Expr.relations_held e
  | .using _ => Iff.rfl
  | .natural => Iff.rfl
  | .none => Iff.rfl

theorem factor_relations_held : ∀ (factor : TableFactor) (inside : List Qualifier),
    name ∈ relationNames (factor.mentions inside) ↔
      name ∈ (factorReferences factor).map (·.2) ∨ name ∈ heldRelations factor.visited
  | .table other _ none, _ => by
    simp only [TableFactor.mentions, factorReferences, TableFactor.visited, heldRelations_nil,
      List.not_mem_nil, or_false]
    rfl
  | .table _ _ (some args), _ => by
    simp only [TableFactor.mentions, factorReferences, TableFactor.visited,
      relationNames_within, List.map_nil, List.not_mem_nil, false_or, args_relations_held args]
  | .derived _ q _, _ => by
    simp only [TableFactor.mentions, factorReferences, TableFactor.visited,
      relationNames_within, query_relations_held q, exposed]
  | .nestedJoin entry _, inside => entry_relations_held entry inside
  | .function _ _ args _, _ => by
    simp only [TableFactor.mentions, factorReferences, TableFactor.visited,
      relationNames_within, List.map_nil, List.not_mem_nil, false_or, args_relations_held args]
  | .tableFunction e _, _ => by
    simp only [TableFactor.mentions, factorReferences, TableFactor.visited,
      relationNames_within, List.map_nil, List.not_mem_nil, false_or, Expr.relations_held e]
  | .unnest _ exprs, _ => by
    simp only [TableFactor.mentions, factorReferences, TableFactor.visited,
      relationNames_within, List.map_nil, List.not_mem_nil, false_or, list_relations_held exprs]

end

end

theorem append_subset_append {α : Type} {xs ys xs' ys' : List α} (first : xs ⊆ ys)
    (second : xs' ⊆ ys') : xs ++ xs' ⊆ ys ++ ys' :=
  List.append_subset.mpr ⟨List.subset_append_of_subset_left _ first,
    List.subset_append_of_subset_right _ second⟩

mutual

theorem factor_references_tables : ∀ factor : TableFactor,
    (factorReferences factor).map (·.2) ⊆ factorTables factor
  | .table _ _ none => List.Subset.refl _
  | .table _ _ (some _) => List.nil_subset _
  | .derived _ q _ => by
    rw [factorReferences, factorTables]
    exact exposed_tables q
  | .nestedJoin entry _ => by
    rw [factorReferences, factorTables]
    exact entry_references_tables entry
  | .function _ _ _ _ => List.nil_subset _
  | .tableFunction _ _ => List.nil_subset _
  | .unnest _ _ => List.nil_subset _

theorem entry_references_tables : ∀ entry : TableWithJoins,
    (entryReferences entry).map (·.2) ⊆ entryTables entry
  | ⟨relation, joins⟩ => by
    rw [entryReferences, entryTables, List.map_append]
    exact append_subset_append (factor_references_tables relation)
      (joins_references_tables joins)

theorem joins_references_tables : ∀ joins : List Join,
    (joinsReferences joins).map (·.2) ⊆ joinsTables joins
  | [] => List.Subset.refl _
  | ⟨relation, _, _⟩ :: rest => by
    rw [joinsReferences, joinsTables, List.map_append]
    exact append_subset_append (factor_references_tables relation)
      (joins_references_tables rest)

theorem from_references_tables : ∀ from_ : List TableWithJoins,
    (fromReferences from_).map (·.2) ⊆ fromTables from_
  | [] => List.Subset.refl _
  | entry :: rest => by
    rw [fromReferences, fromTables, List.map_append]
    exact append_subset_append (entry_references_tables entry)
      (from_references_tables rest)

theorem body_references_tables : ∀ body : SetExpr,
    (bodyReferences body).map (·.2) ⊆ bodyTables body
  | .select ⟨_, _, from_, _, _, _⟩ => by
    rw [bodyReferences, bodyTables]
    exact from_references_tables from_
  | .query q => by
    rw [bodyReferences, bodyTables]
    exact exposed_tables q
  | .setOperation _ _ left right => by
    rw [bodyReferences, bodyTables, List.map_append]
    exact append_subset_append (body_references_tables left) (body_references_tables right)
  | .values _ => List.Subset.refl _

/-- Detection inspects every relation in a FROM clause. -/
theorem exposed_tables : ∀ q : Query, exposed q ⊆ queryTables q
  | ⟨with_, body, _, _, _⟩ => by
    rw [exposed, queryReferences, queryTables, List.map_append, underNames_names]
    exact List.append_subset.mpr
      ⟨List.subset_append_of_subset_right _ (with_references_tables with_),
        List.subset_append_of_subset_left _ (body_references_tables body)⟩

theorem with_references_tables : ∀ with_ : Option With,
    (withReferences with_).map (·.2) ⊆ withTables with_
  | none => List.Subset.refl _
  | some ⟨_, cteTables⟩ => by
    rw [withReferences, withTables, underNames_names]
    exact ctes_references_tables cteTables

theorem ctes_references_tables : ∀ cteTables : List Cte,
    (ctesReferences cteTables).map (·.2) ⊆ ctesTables cteTables
  | [] => List.Subset.refl _
  | ⟨_, query⟩ :: rest => by
    rw [ctesReferences, ctesTables, List.map_append, underNames_names]
    exact append_subset_append (exposed_tables query) (ctes_references_tables rest)

end

/-- The relations a statement names, at any depth. -/
def statementRelations : Statement → List ObjectName
  | .query q => relationNames q.mentions
  | .set s => relationNames (mentionsList s.exprs)
  | .other relations queries exprs =>
    relations ++ queries.flatMap (fun q => relationNames q.mentions) ++
      relationNames (mentionsList exprs)

/-- The type is an object-identifier type, written bare or with its schema. -/
def isObjectIdentifierType : Sql.DataType → Bool
  | .named [.identifier id] _ => resolvedIdentifier id ∈ objectIdentifierTypeNames
  | .named [.identifier schema, .identifier id] _ =>
    resolvedIdentifier schema = "pg_catalog" && resolvedIdentifier id ∈ objectIdentifierTypeNames
  | _ => false

def castsToObjectIdentifier : Expr → Bool
  | .cast _ _ dataType => isObjectIdentifierType dataType
  | _ => false

/-- What makes a statement the catalog's: a catalog relation, or a cast to an
object-identifier type, at any depth. -/
def NeedsCatalog (ctx : SessionContext) (stmt : Statement) : Prop :=
  (∃ name ∈ statementRelations stmt, ctx.objectIsCatalog name = true) ∨
    ∃ e ∈ stmt.visited, castsToObjectIdentifier e = true

/-- The relations a statement names elsewhere than in the FROM clauses of its own query. -/
def unexposed : Statement → List ObjectName
  | .query q => heldRelations q.visited
  | .set s => heldRelations (visitedList s.exprs)
  | .other relations queries exprs =>
    relations ++ queries.flatMap (fun q => exposed q ++ heldRelations q.visited) ++
      heldRelations (visitedList exprs)

/-- A cast to `regclass` as the parser has a keyword for it. -/
def castsToKeyword : Expr → Bool
  | .cast _ _ (.named [.identifier ⟨value, none⟩] _) => eqIgnoreAsciiCase value "regclass"
  | _ => false

/-- The catalog relations and the casts that neither traversal comes upon. -/
def Unseen (ctx : SessionContext) (stmt : Statement) : Prop :=
  (∃ name ∈ unexposed stmt, ctx.objectIsCatalog name = true) ∨
    ∃ e ∈ stmt.visited, castsToKeyword e = true

/-- What the traversals come upon. -/
def Seen (ctx : SessionContext) (stmt : Statement) : Prop :=
  (∃ q, stmt = .query q ∧ ∃ name ∈ queryTables q, ctx.objectIsCatalog name = true) ∨
    (∃ e ∈ stmt.visited, castsToCustomObjectIdentifier e = true) ∨
    ∃ e ∈ stmt.visited, callsCatalogFunction ctx e = true

theorem mem_statementRelations (stmt : Statement) (name : ObjectName) :
    name ∈ statementRelations stmt ↔
      name ∈ unexposed stmt ∨ ∃ q, stmt = .query q ∧ name ∈ exposed q := by
  cases stmt with
  | query q =>
    rw [statementRelations, unexposed, query_relations_held, or_comm]
    simp only [Statement.query.injEq, exists_eq_left']
  | set s =>
    rw [statementRelations, unexposed, list_relations_held]
    simp only [reduceCtorEq, false_and, exists_false, or_false]
  | other relations queries exprs =>
    simp only [statementRelations, unexposed, List.mem_append, List.mem_flatMap,
      query_relations_held, list_relations_held, reduceCtorEq, false_and, exists_false, or_false]

theorem objectIdentifierTypeNames_lower {known : String}
    (listed : known ∈ objectIdentifierTypeNames) : known.toLower = known := by
  have all : ∀ known ∈ objectIdentifierTypeNames, known.toLower = known := by decide +kernel
  exact all known listed

theorem folded_known {value known : String} (listed : known ∈ objectIdentifierTypeNames)
    (same : value.toLower = known) :
    objectIdentifierTypeNames.any (eqIgnoreAsciiCase value) = true := by
  refine List.any_eq_true.mpr ⟨known, listed, decide_eq_true ?_⟩
  rw [same, objectIdentifierTypeNames_lower listed]

theorem resolved_known {id : Ident} (listed : resolvedIdentifier id ∈ objectIdentifierTypeNames) :
    objectIdentifierTypeNames.any (eqIgnoreAsciiCase id.value) = true := by
  unfold resolvedIdentifier at listed
  split at listed
  · exact folded_known listed (objectIdentifierTypeNames_lower listed)
  · exact folded_known listed rfl

/-- A cast to an object-identifier type is seen, unless it is to the keyword. -/
theorem cast_seen {e : Expr} (cast : castsToObjectIdentifier e = true) :
    castsToKeyword e = true ∨ castsToCustomObjectIdentifier e = true := by
  unfold castsToObjectIdentifier at cast
  split at cast
  · rename_i kind inner dataType
    unfold isObjectIdentifierType at cast
    split at cast
    · rename_i id modifiers
      have known := resolved_known (of_decide_eq_true cast)
      obtain ⟨value, quoteStyle⟩ := id
      cases quoteStyle with
      | some quote => exact .inr known
      | none =>
        by_cases keyword : eqIgnoreAsciiCase value "regclass" = true
        · exact .inl keyword
        · refine .inr ?_
          unfold castsToCustomObjectIdentifier
          dsimp only
          unfold customName
          dsimp only
          rw [if_neg keyword]
          exact known
    · rename_i schema id modifiers
      have known := resolved_known (of_decide_eq_true (Bool.and_eq_true_iff.mp cast).2)
      have custom : customName (.named [.identifier schema, .identifier id] modifiers) =
          some [.identifier schema, .identifier id] := by
        obtain ⟨value, quoteStyle⟩ := schema
        cases quoteStyle <;> rfl
      refine .inr ?_
      unfold castsToCustomObjectIdentifier
      dsimp only
      rw [custom]
      exact known
    · cases cast
  · cases cast

theorem keyword_cast {e : Expr} (keyword : castsToKeyword e = true) :
    castsToObjectIdentifier e = true := by
  unfold castsToKeyword at keyword
  split at keyword
  · rename_i kind inner value modifiers
    have same : value.toLower = "regclass" := by
      rw [of_decide_eq_true keyword]
      decide +kernel
    have folded : resolvedIdentifier ⟨value, none⟩ = "regclass" := same
    have listed : resolvedIdentifier ⟨value, none⟩ ∈ objectIdentifierTypeNames := by
      rw [folded]
      decide
    exact decide_eq_true listed
  · cases keyword

section
variable {ctx : SessionContext}

theorem hasCatalog_iff (stmt : Statement) : statementHasCatalog ctx stmt = true ↔ Seen ctx stmt := by
  unfold statementHasCatalog Seen statementCastsToAnObjectIdentifierType
  rw [Bool.or_eq_true, Bool.or_eq_true, List.any_eq_true, List.any_eq_true, or_assoc]
  refine or_congr ?_ Iff.rfl
  cases stmt with
  | query q =>
    simp only [queryHasCatalog_tables, List.any_eq_true, Statement.query.injEq, exists_eq_left']
  | set s => simp only [Bool.false_eq_true, reduceCtorEq, false_and, exists_false]
  | other relations queries exprs =>
    simp only [Bool.false_eq_true, reduceCtorEq, false_and, exists_false]

theorem needs_of_unseen {stmt : Statement} (unseen : Unseen ctx stmt) : NeedsCatalog ctx stmt := by
  obtain ⟨name, member, catalog⟩ | ⟨e, visited, keyword⟩ := unseen
  · exact .inl ⟨name, (mem_statementRelations stmt name).mpr (.inl member), catalog⟩
  · exact .inr ⟨e, visited, keyword_cast keyword⟩

theorem seen_of_needs {stmt : Statement} (needs : NeedsCatalog ctx stmt) :
    Unseen ctx stmt ∨ Seen ctx stmt := by
  obtain ⟨name, member, catalog⟩ | ⟨e, visited, cast⟩ := needs
  · obtain held | ⟨q, rfl, inFrom⟩ := (mem_statementRelations stmt name).mp member
    · exact .inl (.inl ⟨name, held, catalog⟩)
    · exact .inr (.inl ⟨q, rfl, name, exposed_tables q inFrom, catalog⟩)
  · obtain keyword | custom := cast_seen cast
    · exact .inl (.inr ⟨e, visited, keyword⟩)
    · exact .inr (.inr (.inl ⟨e, visited, custom⟩))

end

/-- `SELECT * FROM users WHERE EXISTS (SELECT * FROM pg_class)`. -/
def pgClassInExists : Statement :=
  .query ⟨none, .select ⟨.no, [.wildcard], [⟨.table [.identifier (.new "users")] none none, []⟩],
    some (.exists (selectAll [.identifier (.new "pg_class")]) false), .expressions [], none⟩,
    [], none, none⟩

end PgCatalog.Router
