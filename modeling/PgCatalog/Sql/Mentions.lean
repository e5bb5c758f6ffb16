import PgCatalog.Sql.Visit

/-! What a tree names: every column path and every relation, each with the names that the
FROM clauses and WITH clauses around it bind. -/
namespace PgCatalog.Sql

/-- What a column is qualified with: the name of a FROM item, its schema before it if given. -/
abbrev Qualifier := List String

/-- A column path or a qualified wildcard with the qualifiers bound around it, or a
relation with the CTE names in scope there. -/
inductive Mention where
  | column (bound : List Qualifier) (path : List Ident)
  | wildcard (bound : List Qualifier) (name : ObjectName)
  | relation (ctes : List String) (name : ObjectName)
  deriving DecidableEq, Repr

namespace Mention

/-- A mention with more qualifiers bound around it. -/
def within (names : List Qualifier) : Mention → Mention
  | column bound path => column (bound ++ names) path
  | wildcard bound name => wildcard (bound ++ names) name
  | relation ctes name => relation ctes name

/-- A mention with more CTE names in scope. -/
def underCtes (names : List String) : Mention → Mention
  | relation ctes name => relation (ctes ++ names) name
  | m => m

end Mention

def nameParts (name : ObjectName) : List String := (name.filterMap (·.asIdent)).map (·.folded)

/-- What the columns of a FROM item are qualified with: its alias, or its own name from any
part on. -/
def factorName (name : ObjectName) : Option TableAlias → List Qualifier
  | some alias_ => [[alias_.name.folded]]
  | none => (nameParts name).tails.filter (· ≠ [])

def aliasName (alias_ : Option TableAlias) : List Qualifier :=
  alias_.toList.map fun a => [a.name.folded]

mutual

/-- The qualifiers a FROM item binds. -/
def TableFactor.names : TableFactor → List Qualifier
  | .table name alias_ _ => factorName name alias_
  | .derived _ _ alias_ => aliasName alias_
  | .nestedJoin _ (some alias_) => [[alias_.name.folded]]
  | .nestedJoin entry none => entry.names
  | .function _ name _ alias_ => factorName name alias_
  | .tableFunction _ alias_ => aliasName alias_
  | .unnest alias_ _ => aliasName alias_

def TableWithJoins.names : TableWithJoins → List Qualifier
  | ⟨relation, joins⟩ => relation.names ++ joinNames joins

def joinNames : List Join → List Qualifier
  | [] => []
  | ⟨relation, _, _⟩ :: rest => relation.names ++ joinNames rest

end

def fromNames (from_ : List TableWithJoins) : List Qualifier := from_.flatMap (·.names)

/-- The names a WITH clause binds. -/
def cteNames : Option With → List String
  | none => []
  | some ⟨_, cteTables⟩ => cteTables.map (·.alias_.name.folded)

def SetExpr.names : SetExpr → List Qualifier
  | .select ⟨_, _, from_, _, _, _⟩ => fromNames from_
  | _ => []

theorem SetExpr.names_select {distinct : Distinct} {projection : List SelectItem}
    {from_ : List TableWithJoins} {selection having : Option Expr} {groupBy : GroupByExpr} :
    (SetExpr.select ⟨distinct, projection, from_, selection, groupBy, having⟩).names =
      fromNames from_ := rfl

mutual

def Expr.mentions : Expr → List Mention
  | .identifier id => [.column [] [id]]
  | .compoundIdentifier parts => [.column [] parts]
  | .value _ => []
  | .binaryOp left _ right => left.mentions ++ right.mentions
  | .unaryOp _ inner => inner.mentions
  | .nested inner => inner.mentions
  | .cast _ inner _ => inner.mentions
  | .case operand conditions elseResult =>
    mentionsOption operand ++ mentionsCases conditions ++ mentionsOption elseResult
  | .anyOp left _ right _ => left.mentions ++ right.mentions
  | .isTest _ inner => inner.mentions
  | .isDistinctFrom left right => left.mentions ++ right.mentions
  | .isNotDistinctFrom left right => left.mentions ++ right.mentions
  | .function f => f.mentions
  | .compoundFieldAccess root chain => root.mentions ++ mentionsAccess chain
  | .subquery q => q.mentions
  | .exists q _ => q.mentions
  | .inSubquery inner q _ => inner.mentions ++ q.mentions
  | .node _ children => mentionsList children

def mentionsOption : Option Expr → List Mention
  | none => []
  | some e => e.mentions

def mentionsList : List Expr → List Mention
  | [] => []
  | e :: rest => e.mentions ++ mentionsList rest

def mentionsCases : List CaseWhen → List Mention
  | [] => []
  | ⟨condition, result⟩ :: rest => condition.mentions ++ result.mentions ++ mentionsCases rest

def mentionsAccess : List AccessExpr → List Mention
  | [] => []
  | .dot e :: rest => e.mentions ++ mentionsAccess rest
  | .subscript index :: rest => index.mentions ++ mentionsAccess rest
  | .slice lower upper :: rest =>
    mentionsOption lower ++ mentionsOption upper ++ mentionsAccess rest

def Function.mentions : Function → List Mention
  | ⟨_, args, filter, over_, withinGroup⟩ =>
    args.mentions ++ mentionsOption filter ++ mentionsWindow over_ ++ mentionsOrderBy withinGroup

def FunctionArguments.mentions : FunctionArguments → List Mention
  | .none => []
  | .subquery q => q.mentions
  | .list _ args orderBy => mentionsArgs args ++ mentionsOrderBy orderBy

def mentionsArgs : List FunctionArg → List Mention
  | [] => []
  | .unnamed arg :: rest => arg.mentions ++ mentionsArgs rest
  | .named _ arg :: rest => arg.mentions ++ mentionsArgs rest

def FunctionArgExpr.mentions : FunctionArgExpr → List Mention
  | .expr e => e.mentions
  | .qualifiedWildcard name => [.wildcard [] name]
  | .wildcard => []

def mentionsWindow : Option WindowType → List Mention
  | none => []
  | some (.spec partitionBy orderBy) => mentionsList partitionBy ++ mentionsOrderBy orderBy
  | some (.named _) => []

def mentionsOrderBy : List OrderByExpr → List Mention
  | [] => []
  | ⟨e, _, _⟩ :: rest => e.mentions ++ mentionsOrderBy rest

def Query.mentions : Query → List Mention
  | ⟨with_, body, orderBy, limit, offset⟩ =>
    mentionsWith with_ ++ (body.mentions ++ (mentionsOrderBy orderBy).map (·.within body.names) ++
      mentionsOption limit ++ mentionsOption offset).map (·.underCtes (cteNames with_))

def mentionsWith : Option With → List Mention
  | none => []
  | some ⟨recursive, cteTables⟩ =>
    (mentionsCtes cteTables).map
      (·.underCtes (if recursive then cteTables.map (·.alias_.name.folded) else []))

/-- Each CTE sees the ones before it. -/
def mentionsCtes : List Cte → List Mention
  | [] => []
  | ⟨alias_, q⟩ :: rest => q.mentions ++ (mentionsCtes rest).map (·.underCtes [alias_.name.folded])

def SetExpr.mentions : SetExpr → List Mention
  | .select s => s.mentions
  | .query q => q.mentions
  | .setOperation _ _ left right => left.mentions ++ right.mentions
  | .values rows => mentionsList rows

def Select.mentions : Select → List Mention
  | ⟨distinct, projection, from_, selection, groupBy, having⟩ =>
    (distinct.mentions ++ mentionsItems projection ++ mentionsOption selection ++
      groupBy.mentions ++ mentionsOption having).map (·.within (fromNames from_)) ++
      mentionsFrom (fromNames from_) from_

def Distinct.mentions : Distinct → List Mention
  | .no => []
  | .rows => []
  | .on exprs => mentionsList exprs

def mentionsItems : List SelectItem → List Mention
  | [] => []
  | .unnamedExpr e :: rest => e.mentions ++ mentionsItems rest
  | .exprWithAlias e _ :: rest => e.mentions ++ mentionsItems rest
  | .qualifiedWildcard name :: rest => .wildcard [] name :: mentionsItems rest
  | .wildcard :: rest => mentionsItems rest

def GroupByExpr.mentions : GroupByExpr → List Mention
  | .all => []
  | .expressions exprs => mentionsList exprs

/-- A FROM clause: join conditions, lateral items and the arguments of table functions
see the names it binds, other derived tables only those bound around it. -/
def mentionsFrom (inside : List Qualifier) : List TableWithJoins → List Mention
  | [] => []
  | entry :: rest => entry.mentions inside ++ mentionsFrom inside rest

def TableWithJoins.mentions (inside : List Qualifier) : TableWithJoins → List Mention
  | ⟨relation, joins⟩ => relation.mentions inside ++ mentionsJoins inside joins

def mentionsJoins (inside : List Qualifier) : List Join → List Mention
  | [] => []
  | ⟨relation, _, constraint⟩ :: rest =>
    relation.mentions inside ++ constraint.mentions.map (·.within inside) ++
      mentionsJoins inside rest

def JoinConstraint.mentions : JoinConstraint → List Mention
  | .on e => e.mentions
  | .using _ => []
  | .natural => []
  | .none => []

def TableFactor.mentions (inside : List Qualifier) : TableFactor → List Mention
  | .table name _ none => [.relation [] name]
  | .table _ _ (some args) => (mentionsArgs args).map (·.within inside)
  | .derived lateral q _ => q.mentions.map (·.within (if lateral then inside else []))
  | .nestedJoin entry _ => entry.mentions inside
  | .function _ _ args _ => (mentionsArgs args).map (·.within inside)
  | .tableFunction e _ => e.mentions.map (·.within inside)
  | .unnest _ exprs => (mentionsList exprs).map (·.within inside)

end

/-- A column path is mentioned, whatever is bound around it. -/
def Reads (path : List Ident) (mentions : List Mention) : Prop :=
  ∃ bound, .column bound path ∈ mentions

section
variable {path : List Ident}

@[simp] theorem reads_nil : ¬Reads path [] := fun ⟨_, m⟩ => List.not_mem_nil m

@[simp] theorem reads_append {xs ys : List Mention} :
    Reads path (xs ++ ys) ↔ Reads path xs ∨ Reads path ys := by
  simp only [Reads, List.mem_append, exists_or]

@[simp] theorem reads_within {xs : List Mention} {names : List Qualifier} :
    Reads path (xs.map (·.within names)) ↔ Reads path xs := by
  simp only [Reads, List.mem_map]
  constructor
  · rintro ⟨bound, m, member, same⟩
    cases m <;> cases same
    exact ⟨_, member⟩
  · rintro ⟨bound, member⟩
    exact ⟨_, _, member, rfl⟩

@[simp] theorem reads_underCtes {xs : List Mention} {names : List String} :
    Reads path (xs.map (·.underCtes names)) ↔ Reads path xs := by
  simp only [Reads, List.mem_map]
  constructor
  · rintro ⟨bound, m, member, same⟩
    cases m <;> cases same
    exact ⟨_, member⟩
  · rintro ⟨bound, member⟩
    exact ⟨_, _, member, rfl⟩

mutual

/-- A qualified column that is mentioned is met by the visitor. -/
theorem Expr.visited_of_mention (long : 2 ≤ path.length) :
    ∀ e : Expr,
      Reads path e.mentions → .compoundIdentifier path ∈ e.visited
  | .identifier _, m => by
    obtain ⟨_, m⟩ := m
    cases List.mem_singleton.mp m
    exact absurd long (Nat.not_succ_le_self 1)
  | .compoundIdentifier _, m => by
    obtain ⟨_, m⟩ := m
    cases List.mem_singleton.mp m
    exact List.mem_singleton_self _
  | .value _, m => absurd m reads_nil
  | .binaryOp left _ right, m => by
    simp only [Expr.mentions, Expr.visited, reads_append, List.mem_append, List.mem_cons] at m ⊢
    exact .inr (m.imp (left.visited_of_mention long) (right.visited_of_mention long))
  | .unaryOp _ inner, m => List.mem_cons_of_mem _ (inner.visited_of_mention long m)
  | .nested inner, m => List.mem_cons_of_mem _ (inner.visited_of_mention long m)
  | .cast _ inner _, m => List.mem_cons_of_mem _ (inner.visited_of_mention long m)
  | .case operand conditions elseResult, m => by
    simp only [Expr.mentions, Expr.visited, reads_append, List.mem_append, List.mem_cons] at m ⊢
    exact .inr (m.imp (·.imp (visitedOption_of_mention long operand)
      (visitedCases_of_mention long conditions)) (visitedOption_of_mention long elseResult))
  | .anyOp left _ right _, m => by
    simp only [Expr.mentions, Expr.visited, reads_append, List.mem_append, List.mem_cons] at m ⊢
    exact .inr (m.imp (left.visited_of_mention long) (right.visited_of_mention long))
  | .isTest _ inner, m => List.mem_cons_of_mem _ (inner.visited_of_mention long m)
  | .isDistinctFrom left right, m => by
    simp only [Expr.mentions, Expr.visited, reads_append, List.mem_append, List.mem_cons] at m ⊢
    exact .inr (m.imp (left.visited_of_mention long) (right.visited_of_mention long))
  | .isNotDistinctFrom left right, m => by
    simp only [Expr.mentions, Expr.visited, reads_append, List.mem_append, List.mem_cons] at m ⊢
    exact .inr (m.imp (left.visited_of_mention long) (right.visited_of_mention long))
  | .function f, m => List.mem_cons_of_mem _ (f.visited_of_mention long m)
  | .compoundFieldAccess root chain, m => by
    simp only [Expr.mentions, Expr.visited, reads_append, List.mem_append, List.mem_cons] at m ⊢
    exact .inr (m.imp (root.visited_of_mention long) (visitedAccess_of_mention long chain))
  | .subquery q, m => List.mem_cons_of_mem _ (q.visited_of_mention long m)
  | .exists q _, m => List.mem_cons_of_mem _ (q.visited_of_mention long m)
  | .inSubquery inner q _, m => by
    simp only [Expr.mentions, Expr.visited, reads_append, List.mem_append, List.mem_cons] at m ⊢
    exact .inr (m.imp (inner.visited_of_mention long) (q.visited_of_mention long))
  | .node _ children, m => List.mem_cons_of_mem _ (visitedList_of_mention long children m)

theorem visitedOption_of_mention (long : 2 ≤ path.length) :
    ∀ e : Option Expr,
      Reads path (mentionsOption e) → .compoundIdentifier path ∈ visitedOption e
  | none, m => absurd m reads_nil
  | some e, m => e.visited_of_mention long m

theorem visitedList_of_mention (long : 2 ≤ path.length) :
    ∀ es : List Expr,
      Reads path (mentionsList es) → .compoundIdentifier path ∈ visitedList es
  | [], m => absurd m reads_nil
  | e :: rest, m => by
    simp only [mentionsList, visitedList, reads_append, List.mem_append] at m ⊢
    exact m.imp (e.visited_of_mention long) (visitedList_of_mention long rest)

theorem visitedCases_of_mention (long : 2 ≤ path.length) :
    ∀ cases : List CaseWhen,
      Reads path (mentionsCases cases) → .compoundIdentifier path ∈ visitedCases cases
  | [], m => absurd m reads_nil
  | ⟨condition, result⟩ :: rest, m => by
    simp only [mentionsCases, visitedCases, reads_append, List.mem_append] at m ⊢
    exact m.imp (·.imp (condition.visited_of_mention long) (result.visited_of_mention long))
      (visitedCases_of_mention long rest)

theorem visitedAccess_of_mention (long : 2 ≤ path.length) :
    ∀ chain : List AccessExpr,
      Reads path (mentionsAccess chain) → .compoundIdentifier path ∈ visitedAccess chain
  | [], m => absurd m reads_nil
  | .dot e :: rest, m => by
    simp only [mentionsAccess, visitedAccess, reads_append, List.mem_append] at m ⊢
    exact m.imp (e.visited_of_mention long) (visitedAccess_of_mention long rest)
  | .subscript index :: rest, m => by
    simp only [mentionsAccess, visitedAccess, reads_append, List.mem_append] at m ⊢
    exact m.imp (index.visited_of_mention long) (visitedAccess_of_mention long rest)
  | .slice lower upper :: rest, m => by
    simp only [mentionsAccess, visitedAccess, reads_append, List.mem_append] at m ⊢
    exact m.imp (·.imp (visitedOption_of_mention long lower) (visitedOption_of_mention long upper))
      (visitedAccess_of_mention long rest)

theorem Function.visited_of_mention (long : 2 ≤ path.length) :
    ∀ f : Function,
      Reads path f.mentions → .compoundIdentifier path ∈ f.visited
  | ⟨_, args, filter, over_, withinGroup⟩, m => by
    simp only [Function.mentions, Function.visited, reads_append, List.mem_append] at m ⊢
    exact m.imp (·.imp (·.imp (args.visited_of_mention long) (visitedOption_of_mention long filter))
      (visitedWindow_of_mention long over_)) (visitedOrderBy_of_mention long withinGroup)

theorem FunctionArguments.visited_of_mention (long : 2 ≤ path.length) :
    ∀ args : FunctionArguments,
      Reads path args.mentions → .compoundIdentifier path ∈ args.visited
  | .none, m => absurd m reads_nil
  | .subquery q, m => q.visited_of_mention long m
  | .list _ args orderBy, m => by
    simp only [FunctionArguments.mentions, FunctionArguments.visited, reads_append, List.mem_append] at m ⊢
    exact m.imp (visitedArgs_of_mention long args) (visitedOrderBy_of_mention long orderBy)

theorem visitedArgs_of_mention (long : 2 ≤ path.length) :
    ∀ args : List FunctionArg,
      Reads path (mentionsArgs args) → .compoundIdentifier path ∈ visitedArgs args
  | [], m => absurd m reads_nil
  | .unnamed arg :: rest, m => by
    simp only [mentionsArgs, visitedArgs, reads_append, List.mem_append] at m ⊢
    exact m.imp (arg.visited_of_mention long) (visitedArgs_of_mention long rest)
  | .named _ arg :: rest, m => by
    simp only [mentionsArgs, visitedArgs, reads_append, List.mem_append] at m ⊢
    exact m.imp (arg.visited_of_mention long) (visitedArgs_of_mention long rest)

theorem FunctionArgExpr.visited_of_mention (long : 2 ≤ path.length) :
    ∀ arg : FunctionArgExpr,
      Reads path arg.mentions → .compoundIdentifier path ∈ arg.visited
  | .expr e, m => e.visited_of_mention long m
  | .qualifiedWildcard _, ⟨_, m⟩ => by cases List.mem_singleton.mp m
  | .wildcard, m => absurd m reads_nil

theorem visitedWindow_of_mention (long : 2 ≤ path.length) :
    ∀ window : Option WindowType,
      Reads path (mentionsWindow window) → .compoundIdentifier path ∈ visitedWindow window
  | none, m => absurd m reads_nil
  | some (.spec partitionBy orderBy), m => by
    simp only [mentionsWindow, visitedWindow, reads_append, List.mem_append] at m ⊢
    exact m.imp (visitedList_of_mention long partitionBy) (visitedOrderBy_of_mention long orderBy)
  | some (.named _), m => absurd m reads_nil

theorem visitedOrderBy_of_mention (long : 2 ≤ path.length) :
    ∀ orderBy : List OrderByExpr,
      Reads path (mentionsOrderBy orderBy) → .compoundIdentifier path ∈ visitedOrderBy orderBy
  | [], m => absurd m reads_nil
  | ⟨e, _, _⟩ :: rest, m => by
    simp only [mentionsOrderBy, visitedOrderBy, reads_append, List.mem_append] at m ⊢
    exact m.imp (e.visited_of_mention long) (visitedOrderBy_of_mention long rest)

theorem Query.visited_of_mention (long : 2 ≤ path.length) :
    ∀ q : Query, Reads path q.mentions → .compoundIdentifier path ∈ q.visited
  | ⟨with_, body, orderBy, limit, offset⟩, m => by
    simp only [Query.mentions, Query.visited, reads_append, reads_underCtes, reads_within,
      List.mem_append] at m ⊢
    obtain m | ((m | m) | m) | m := m
    · exact .inl (.inl (.inl (.inl (visitedWith_of_mention long with_ m))))
    · exact .inl (.inl (.inl (.inr (body.visited_of_mention long m))))
    · exact .inl (.inl (.inr (visitedOrderBy_of_mention long orderBy m)))
    · exact .inl (.inr (visitedOption_of_mention long limit m))
    · exact .inr (visitedOption_of_mention long offset m)

theorem visitedWith_of_mention (long : 2 ≤ path.length) : ∀ with_ : Option With,
      Reads path (mentionsWith with_) → .compoundIdentifier path ∈ visitedWith with_
  | none, m => absurd m reads_nil
  | some ⟨_, cteTables⟩, m => by
    rw [mentionsWith, reads_underCtes] at m
    exact visitedCtes_of_mention long cteTables m

theorem visitedCtes_of_mention (long : 2 ≤ path.length) :
    ∀ tables : List Cte,
      Reads path (mentionsCtes tables) → .compoundIdentifier path ∈ visitedCtes tables
  | [], m => absurd m reads_nil
  | ⟨_, q⟩ :: rest, m => by
    simp only [mentionsCtes, visitedCtes, reads_append, reads_underCtes, List.mem_append] at m ⊢
    exact m.imp (q.visited_of_mention long) (visitedCtes_of_mention long rest)

theorem SetExpr.visited_of_mention (long : 2 ≤ path.length) :
    ∀ body : SetExpr,
      Reads path body.mentions → .compoundIdentifier path ∈ body.visited
  | .select s, m => s.visited_of_mention long m
  | .query q, m => q.visited_of_mention long m
  | .setOperation _ _ left right, m => by
    simp only [SetExpr.mentions, SetExpr.visited, reads_append, List.mem_append] at m ⊢
    exact m.imp (left.visited_of_mention long) (right.visited_of_mention long)
  | .values rows, m => visitedList_of_mention long rows m

theorem Select.visited_of_mention (long : 2 ≤ path.length) :
    ∀ s : Select, Reads path s.mentions → .compoundIdentifier path ∈ s.visited
  | ⟨distinct, projection, from_, selection, groupBy, having⟩, m => by
    simp only [Select.mentions, Select.visited, reads_append, reads_within, List.mem_append] at m ⊢
    obtain ((((m | m) | m) | m) | m) | m := m
    · exact .inl (.inl (.inl (.inl (.inl (distinct.visited_of_mention long m)))))
    · exact .inl (.inl (.inl (.inl (.inr (visitedItems_of_mention long projection m)))))
    · exact .inl (.inl (.inr (visitedOption_of_mention long selection m)))
    · exact .inl (.inr (groupBy.visited_of_mention long m))
    · exact .inr (visitedOption_of_mention long having m)
    · exact .inl (.inl (.inl (.inr (visitedFrom_of_mention long from_ m))))

theorem Distinct.visited_of_mention (long : 2 ≤ path.length) :
    ∀ distinct : Distinct,
      Reads path distinct.mentions → .compoundIdentifier path ∈ distinct.visited
  | .no, m => absurd m reads_nil
  | .rows, m => absurd m reads_nil
  | .on exprs, m => visitedList_of_mention long exprs m

theorem visitedItems_of_mention (long : 2 ≤ path.length) :
    ∀ items : List SelectItem,
      Reads path (mentionsItems items) → .compoundIdentifier path ∈ visitedItems items
  | [], m => absurd m reads_nil
  | .unnamedExpr e :: rest, m => by
    simp only [mentionsItems, visitedItems, reads_append, List.mem_append] at m ⊢
    exact m.imp (e.visited_of_mention long) (visitedItems_of_mention long rest)
  | .exprWithAlias e _ :: rest, m => by
    simp only [mentionsItems, visitedItems, reads_append, List.mem_append] at m ⊢
    exact m.imp (e.visited_of_mention long) (visitedItems_of_mention long rest)
  | .qualifiedWildcard _ :: rest, ⟨bound, m⟩ =>
    visitedItems_of_mention long rest ⟨bound, (List.mem_cons.mp m).resolve_left Mention.noConfusion⟩
  | .wildcard :: rest, m => visitedItems_of_mention long rest m

theorem GroupByExpr.visited_of_mention (long : 2 ≤ path.length) :
    ∀ groupBy : GroupByExpr,
      Reads path groupBy.mentions → .compoundIdentifier path ∈ groupBy.visited
  | .all, m => absurd m reads_nil
  | .expressions exprs, m => visitedList_of_mention long exprs m

theorem visitedFrom_of_mention (long : 2 ≤ path.length) :
    ∀ (from_ : List TableWithJoins) {inside : List Qualifier},
      Reads path (mentionsFrom inside from_) → .compoundIdentifier path ∈ visitedFrom from_
  | [], _, m => absurd m reads_nil
  | entry :: rest, _, m => by
    simp only [mentionsFrom, visitedFrom, reads_append, List.mem_append] at m ⊢
    exact m.imp (entry.visited_of_mention long) (visitedFrom_of_mention long rest)

theorem TableWithJoins.visited_of_mention (long : 2 ≤ path.length) :
    ∀ (entry : TableWithJoins) {inside : List Qualifier},
      Reads path (entry.mentions inside) → .compoundIdentifier path ∈ entry.visited
  | ⟨relation, joins⟩, _, m => by
    simp only [TableWithJoins.mentions, TableWithJoins.visited, reads_append, List.mem_append] at m ⊢
    exact m.imp (relation.visited_of_mention long) (visitedJoins_of_mention long joins)

theorem visitedJoins_of_mention (long : 2 ≤ path.length) :
    ∀ (joins : List Join) {inside : List Qualifier},
      Reads path (mentionsJoins inside joins) → .compoundIdentifier path ∈ visitedJoins joins
  | [], _, m => absurd m reads_nil
  | ⟨relation, _, constraint⟩ :: rest, _, m => by
    simp only [mentionsJoins, visitedJoins, reads_append, reads_within, List.mem_append] at m ⊢
    exact m.imp (·.imp (relation.visited_of_mention long) (constraint.visited_of_mention long))
      (visitedJoins_of_mention long rest)

theorem JoinConstraint.visited_of_mention (long : 2 ≤ path.length) :
    ∀ constraint : JoinConstraint,
      Reads path constraint.mentions → .compoundIdentifier path ∈ constraint.visited
  | .on e, m => e.visited_of_mention long m
  | .using _, m => absurd m reads_nil
  | .natural, m => absurd m reads_nil
  | .none, m => absurd m reads_nil

theorem TableFactor.visited_of_mention (long : 2 ≤ path.length) :
    ∀ (factor : TableFactor) {inside : List Qualifier},
      Reads path (factor.mentions inside) → .compoundIdentifier path ∈ factor.visited
  | .table _ _ none, _, ⟨_, m⟩ => by cases List.mem_singleton.mp m
  | .table _ _ (some args), _, m => visitedArgs_of_mention long args (reads_within.mp m)
  | .derived _ q _, _, m => q.visited_of_mention long (reads_within.mp m)
  | .nestedJoin entry _, _, m => entry.visited_of_mention long m
  | .function _ _ args _, _, m => visitedArgs_of_mention long args (reads_within.mp m)
  | .tableFunction e _, _, m => e.visited_of_mention long (reads_within.mp m)
  | .unnest _ exprs, _, m => visitedList_of_mention long exprs (reads_within.mp m)

end

end

/-- The prefixes of a mention that may be its qualifier: for `a.b.c` the table `a` with a
field of its column `b`, or the table `a.b`. -/
def Mention.qualifiers : Mention → List Qualifier
  | .column _ path => (path.dropLast.map (·.folded)).inits.filter (· ≠ [])
  | .wildcard _ name => (nameParts name).inits.filter (· ≠ [])
  | .relation _ _ => []

def Mention.bound : Mention → List Qualifier
  | .column bound _ => bound
  | .wildcard bound _ => bound
  | .relation _ _ => []

/-- A qualified mention that nothing around it binds. -/
def Mention.Free (m : Mention) : Prop :=
  m.qualifiers ≠ [] ∧ ∀ q ∈ m.qualifiers, q ∉ m.bound

instance (m : Mention) : Decidable m.Free :=
  inferInstanceAs (Decidable (_ ∧ _))

end PgCatalog.Sql
