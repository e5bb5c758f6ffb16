import PgCatalog.Router.Agreement
import PgCatalog.ScalarToCte.Tables

/-! What qualification does to the names that a WITH clause binds: the traversal carries
no scope, so a CTE under the name of a catalog table is taken for the table. -/
namespace PgCatalog.Router

open Library Sql ScalarToCte

mutual

/-- The relations a query names in its FROM clauses, each with the CTE names in scope. -/
def factorReferences : TableFactor → List RelationRef
  | .table name _ none => [([], name)]
  | .derived _ q _ => queryReferences q
  | .nestedJoin entry _ => entryReferences entry
  | _ => []

def entryReferences : TableWithJoins → List RelationRef
  | ⟨relation, joins⟩ => factorReferences relation ++ joinsReferences joins

def joinsReferences : List Join → List RelationRef
  | [] => []
  | ⟨relation, _, _⟩ :: rest => factorReferences relation ++ joinsReferences rest

def fromReferences : List TableWithJoins → List RelationRef
  | [] => []
  | entry :: rest => entryReferences entry ++ fromReferences rest

def bodyReferences : SetExpr → List RelationRef
  | .select ⟨_, _, from_, _, _, _⟩ => fromReferences from_
  | .query q => queryReferences q
  | .setOperation _ _ left right => bodyReferences left ++ bodyReferences right
  | .values _ => []

def queryReferences : Query → List RelationRef
  | ⟨with_, body, _, _, _⟩ =>
    withReferences with_ ++ (bodyReferences body).map (underNames (cteNames with_))

def withReferences : Option With → List RelationRef
  | none => []
  | some ⟨recursive, cteTables⟩ =>
    (ctesReferences cteTables).map
      (underNames (if recursive then cteTables.map (·.alias_.name.folded) else []))

/-- Each CTE sees the ones before it. -/
def ctesReferences : List Cte → List RelationRef
  | [] => []
  | ⟨alias_, query⟩ :: rest =>
    queryReferences query ++ (ctesReferences rest).map (underNames [alias_.name.folded])

end

/-- The reference is to a CTE in scope. -/
def BoundByCte (ref : RelationRef) : Prop := ∃ n ∈ ref.1, scopeName ref.2 = some n

/-- Two lists of relation names that differ at the moved ones, which are renamed. -/
inductive Renamed (f : ObjectName → ObjectName) :
    List RelationRef → List RelationRef → List RelationRef → Prop where
  | nil : Renamed f [] [] []
  | kept {xs ys moved} (ref : RelationRef) (rest : Renamed f xs ys moved) :
    Renamed f (ref :: xs) (ref :: ys) moved
  | moved {xs ys moved} (ctes : List String) (name : ObjectName) (rest : Renamed f xs ys moved) :
    Renamed f ((ctes, name) :: xs) ((ctes, f name) :: ys) ((ctes, name) :: moved)

namespace Renamed
variable {f : ObjectName → ObjectName} {xs ys moved xs' ys' moved' : List RelationRef}

theorem refl : ∀ xs : List RelationRef, Renamed f xs xs []
  | [] => nil
  | ref :: rest => kept ref (refl rest)

theorem append (first : Renamed f xs ys moved) (second : Renamed f xs' ys' moved') :
    Renamed f (xs ++ xs') (ys ++ ys') (moved ++ moved') := by
  induction first with
  | nil => exact second
  | kept ref _ ih => exact kept ref ih
  | moved ctes name _ ih => exact .moved ctes name ih

theorem under (h : Renamed f xs ys moved) (names : List String) :
    Renamed f (xs.map (underNames names)) (ys.map (underNames names))
      (moved.map (underNames names)) := by
  induction h with
  | nil => exact nil
  | kept ref _ ih => exact kept _ ih
  | moved ctes name _ ih => exact .moved _ name ih

/-- What holds of every name beside itself, and of the moved ones beside their new names,
holds all along. -/
theorem forall₂ (h : Renamed f xs ys moved) {P : RelationRef → RelationRef → Prop}
    (same : ∀ ref, P ref ref) (renamed : ∀ ref ∈ moved, P ref (ref.1, f ref.2)) :
    List.Forall₂ P xs ys := by
  induction h with
  | nil => exact .nil
  | kept ref _ ih => exact .cons (same ref) (ih renamed)
  | moved ctes name _ ih =>
    have first := renamed (ctes, name) List.mem_cons_self
    exact .cons first (ih fun ref member => renamed ref (List.mem_cons_of_mem _ member))

/-- What holds all along holds of a moved name beside its new one. -/
theorem of_forall₂ (h : Renamed f xs ys moved) {P : RelationRef → RelationRef → Prop}
    (all : List.Forall₂ P xs ys) : ∀ ref ∈ moved, P ref (ref.1, f ref.2) := by
  induction h with
  | nil => exact nofun
  | kept ref _ ih =>
    cases all with
    | cons _ rest => exact ih rest
  | moved ctes name _ ih =>
    cases all with
    | cons first rest =>
      intro ref member
      obtain rfl | later := List.mem_cons.mp member
      · exact first
      · exact ih rest ref later

end Renamed

section
variable (f : ObjectName → ObjectName)

mutual

theorem renameFactor_renamed : ∀ (factor : TableFactor) (inside inside' : List Qualifier),
    Renamed f (relationsIn (factor.mentions inside))
      (relationsIn ((renameFactor f factor).mentions inside')) (factorReferences factor)
  | .table name _ none, _, _ => .moved [] name .nil
  | .table _ _ (some args), _, _ => by
    simp only [TableFactor.mentions, renameFactor, relationsIn_within, factorReferences]
    exact .refl _
  | .derived _ q _, _, _ => by
    simp only [TableFactor.mentions, renameFactor, relationsIn_within, factorReferences]
    exact renameQuery_renamed q
  | .nestedJoin entry _, inside, inside' => by
    simp only [TableFactor.mentions, renameFactor, factorReferences]
    exact renameEntry_renamed entry inside inside'
  | .function _ _ _ _, _, _ => by
    simp only [TableFactor.mentions, renameFactor, relationsIn_within, factorReferences]
    exact .refl _
  | .tableFunction _ _, _, _ => by
    simp only [TableFactor.mentions, renameFactor, relationsIn_within, factorReferences]
    exact .refl _
  | .unnest _ _, _, _ => by
    simp only [TableFactor.mentions, renameFactor, relationsIn_within, factorReferences]
    exact .refl _

theorem renameEntry_renamed : ∀ (entry : TableWithJoins) (inside inside' : List Qualifier),
    Renamed f (relationsIn (entry.mentions inside))
      (relationsIn ((renameEntry f entry).mentions inside')) (entryReferences entry)
  | ⟨relation, joins⟩, inside, inside' => by
    simp only [TableWithJoins.mentions, renameEntry, relationsIn_append, entryReferences]
    exact (renameFactor_renamed relation inside inside').append
      (renameJoins_renamed joins inside inside')

theorem renameJoins_renamed : ∀ (joins : List Join) (inside inside' : List Qualifier),
    Renamed f (relationsIn (mentionsJoins inside joins))
      (relationsIn (mentionsJoins inside' (renameJoins f joins))) (joinsReferences joins)
  | [], _, _ => .nil
  | ⟨relation, _, constraint⟩ :: rest, inside, inside' => by
    simp only [mentionsJoins, renameJoins, relationsIn_append, relationsIn_within,
      joinsReferences]
    have first := (renameFactor_renamed relation inside inside').append
      (.refl (relationsIn constraint.mentions))
    rw [List.append_nil] at first
    exact first.append (renameJoins_renamed rest inside inside')

theorem renameFrom_renamed : ∀ (from_ : List TableWithJoins) (inside inside' : List Qualifier),
    Renamed f (relationsIn (mentionsFrom inside from_))
      (relationsIn (mentionsFrom inside' (renameFrom f from_))) (fromReferences from_)
  | [], _, _ => .nil
  | entry :: rest, inside, inside' => by
    simp only [mentionsFrom, renameFrom, relationsIn_append, fromReferences]
    exact (renameEntry_renamed entry inside inside').append
      (renameFrom_renamed rest inside inside')

theorem renameBody_renamed : ∀ body : SetExpr,
    Renamed f (relationsIn body.mentions) (relationsIn (renameBody f body).mentions)
      (bodyReferences body)
  | .select ⟨distinct, projection, from_, selection, groupBy, having⟩ => by
    simp only [SetExpr.mentions, Select.mentions, renameBody, relationsIn_append,
      relationsIn_within, bodyReferences]
    exact (Renamed.refl _).append (renameFrom_renamed from_ _ _)
  | .query q => by
    simp only [SetExpr.mentions, renameBody, bodyReferences]
    exact renameQuery_renamed q
  | .setOperation _ _ left right => by
    simp only [SetExpr.mentions, renameBody, bodyReferences, relationsIn_append]
    exact (renameBody_renamed left).append (renameBody_renamed right)
  | .values _ => .refl _

/-- Renaming changes the relations in FROM clauses, all others stay in their places. -/
theorem renameQuery_renamed : ∀ q : Query,
    Renamed f (relationsIn q.mentions) (relationsIn (renameQuery f q).mentions)
      (queryReferences q)
  | ⟨with_, body, orderBy, limit, offset⟩ => by
    have names : cteNames (renameWith f with_) = cteNames with_ := renameWith_names with_
    simp only [Query.mentions, renameQuery, relationsIn_append, relationsIn_underCtes,
      relationsIn_within, queryReferences, List.map_append, names]
    have inside := ((((renameBody_renamed body).append (.refl (relationsIn
      (mentionsOrderBy orderBy)))).append (.refl (relationsIn (mentionsOption limit)))).append
      (.refl (relationsIn (mentionsOption offset)))).under (cteNames with_)
    simp only [List.append_nil, List.map_append] at inside
    exact (renameWith_renamed with_).append inside

theorem renameWith_names : ∀ with_ : Option With,
    cteNames (renameWith f with_) = cteNames with_
  | none => rfl
  | some ⟨_, cteTables⟩ => by
    simp only [renameWith, cteNames]
    exact renameCtes_names cteTables

theorem renameCtes_names : ∀ cteTables : List Cte,
    (renameCtes f cteTables).map (·.alias_.name.folded) =
      cteTables.map (·.alias_.name.folded)
  | [] => rfl
  | ⟨_, _⟩ :: rest => by
    rw [renameCtes, List.map_cons, List.map_cons, renameCtes_names rest]

theorem renameWith_renamed : ∀ with_ : Option With,
    Renamed f (relationsIn (mentionsWith with_)) (relationsIn (mentionsWith (renameWith f with_)))
      (withReferences with_)
  | none => .nil
  | some ⟨recursive, cteTables⟩ => by
    simp only [mentionsWith, renameWith, relationsIn_underCtes, withReferences,
      renameCtes_names cteTables]
    exact (renameCtes_renamed cteTables).under _

theorem renameCtes_renamed : ∀ cteTables : List Cte,
    Renamed f (relationsIn (mentionsCtes cteTables))
      (relationsIn (mentionsCtes (renameCtes f cteTables))) (ctesReferences cteTables)
  | [] => .nil
  | ⟨_, query⟩ :: rest => by
    simp only [mentionsCtes, renameCtes, relationsIn_append, relationsIn_underCtes,
      ctesReferences]
    exact (renameQuery_renamed query).append ((renameCtes_renamed rest).under _)

end

end

section
variable (ctx : SessionContext)

/-- The table a name stands for where no CTE binds it: its catalog, its schema, its name. -/
def located (name : ObjectName) : Option (String × String × String) :=
  match resolvedNameParts name with
  | catalog :: schema :: table :: _ =>
    if ctx.tableExists catalog schema table then some (catalog, schema, table) else none
  | [schema, table] =>
    if ctx.tableExists ctx.defaultCatalog schema table then
      some (ctx.defaultCatalog, schema, table)
    else none
  | [table] =>
    (ctx.searchSchemas table ctx.searched).map fun schema => (ctx.defaultCatalog, schema, table)
  | [] => none

/-- A reference denotes the same CTE or the same table as before. -/
def SameRelation (before after : RelationRef) : Prop :=
  before.1 = after.1 ∧ denoted (located ctx) [] after = denoted (located ctx) [] before

/-- CTE names are left to the CTEs, so every reference at any depth denotes what it did. -/
structure CtesKept (q : Query) : Prop where
  unqualified : ∀ ref ∈ queryReferences q, BoundByCte ref → qualifiedName ctx ref.2 = ref.2
  undetected : ∀ ref ∈ queryReferences q, BoundByCte ref → ctx.objectIsCatalog ref.2 = false
  denotes : List.Forall₂ (SameRelation ctx) (relationsIn q.mentions)
    (relationsIn (qualifyQuery ctx q).mentions)

/-- Every bare name that the search path finds in a catalog schema is no CTE in scope, and
the schema is registered in lower case. -/
def NoCteNamedAsCatalogTable (q : Query) : Prop :=
  ∀ ref ∈ queryReferences q, ∀ part schema, ref.2 = [part] →
    ctx.resolveSchema ref.2 = some schema → schemaIsCatalog schema = true →
    ¬BoundByCte ref ∧ schema.toLower = schema

end

section
variable {ctx : SessionContext}

theorem bound_part {ref : RelationRef} (bound : BoundByCte ref) :
    ∃ id, ref.2 = [.identifier id] ∧ id.folded ∈ ref.1 := by
  obtain ⟨n, inside, named⟩ := bound
  unfold scopeName at named
  split at named
  · rename_i part one
    cases part with
    | function text => cases named
    | identifier id =>
      obtain rfl := Option.some.inj named
      exact ⟨id, one, inside⟩
  · cases named

theorem denoted_unbound {ref : RelationRef} (free : ¬BoundByCte ref) :
    denoted (located ctx) [] ref = .inr (located ctx ref.2) := by
  unfold denoted
  cases named : scopeName ref.2 with
  | none => rfl
  | some n =>
    have absent : n ∉ ref.1 ++ [] := by
      rw [List.append_nil]
      exact fun inside => free ⟨n, inside, named⟩
    exact if_neg absent

theorem two_parts_free (ctes : List String) (first second : ObjectNamePart) :
    ¬BoundByCte (ctes, [first, second]) := by
  rintro ⟨n, _, named⟩
  cases named

/-- The qualified name of a catalog table stands for the same table exactly if the schema
reads back as written. -/
theorem located_prefixed {id : Ident} {schema : String}
    (found : ctx.resolveSchema [.identifier id] = some schema) :
    located ctx [.identifier (.new schema), .identifier id] = located ctx [.identifier id] ↔
      schema.toLower = schema := by
  have one : resolvedNameParts [.identifier id] = [resolvedIdentifier id] := rfl
  have two : resolvedNameParts [.identifier (.new schema), .identifier id] =
      [schema.toLower, resolvedIdentifier id] := rfl
  unfold SessionContext.resolveSchema at found
  rw [one] at found
  dsimp only at found
  have present := searchSchemas_exists found
  unfold located
  rw [one, two]
  dsimp only
  rw [found, Option.map_some]
  constructor
  · intro same
    split at same
    · exact congrArg (·.2.1) (Option.some.inj same)
    · cases same
  · intro lower
    rw [lower, if_pos present]

theorem catalog_of_resolved {name : ObjectName} (catalog : ctx.objectIsCatalog name = true) :
    ∃ schema, ctx.resolveSchema name = some schema ∧ schemaIsCatalog schema = true :=
  Option.any_eq_true _ _ |>.mp catalog

end

/-- `WITH pg_class AS (SELECT * FROM users) SELECT * FROM pg_class`. -/
def ctePgClass : Query :=
  let outer := selectAll [.identifier (.new "pg_class")]
  { outer with
    with_ := some ⟨false, [⟨⟨.new "pg_class", []⟩, selectAll [.identifier (.new "users")]⟩]⟩ }

end PgCatalog.Router
