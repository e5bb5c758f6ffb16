import PgCatalog.ScalarToCte.Scope

/-! What the relation names of a lifted body stand for, before and after the unqualified
ones in its FROM clauses gain a schema. -/
namespace PgCatalog.ScalarToCte

open Sql

/-- A relation name with the CTE names its own query puts in scope there. -/
abbrev RelationRef := List String × ObjectName

def relationsIn (mentions : List Mention) : List RelationRef :=
  mentions.filterMap fun
    | .relation ctes name => some (ctes, name)
    | _ => none

/-- The name under which a relation may be a CTE: one part, a plain identifier. -/
def scopeName : ObjectName → Option String
  | [part] => part.asIdent.map (·.folded)
  | _ => none

section
variable {R : Type} (relation : ObjectName → R)

/-- What a relation name denotes: a CTE in scope, or what the catalog has under it. -/
def denoted (enclosing : List String) (ref : RelationRef) : String ⊕ R :=
  match scopeName ref.2 with
  | some n => if n ∈ ref.1 ++ enclosing then .inl n else .inr (relation ref.2)
  | none => .inr (relation ref.2)

end

def underNames {α : Type} (names : List String) (ref : List String × α) : List String × α :=
  (ref.1 ++ names, ref.2)

def pgCatalogName (part : ObjectNamePart) : ObjectName := [.identifier (.new "pg_catalog"), part]

mutual

/-- The relation names of one part that gain the prefix. -/
def prefixedFactor : TableFactor → List (List String × ObjectNamePart)
  | .table [part] _ none => [([], part)]
  | .derived _ q _ => prefixedNames q
  | .nestedJoin entry _ => prefixedEntry entry
  | _ => []

def prefixedEntry : TableWithJoins → List (List String × ObjectNamePart)
  | ⟨relation, joins⟩ => prefixedFactor relation ++ prefixedJoins joins

def prefixedJoins : List Join → List (List String × ObjectNamePart)
  | [] => []
  | ⟨relation, _, _⟩ :: rest => prefixedFactor relation ++ prefixedJoins rest

def prefixedFrom : List TableWithJoins → List (List String × ObjectNamePart)
  | [] => []
  | entry :: rest => prefixedEntry entry ++ prefixedFrom rest

def prefixedNames : Query → List (List String × ObjectNamePart)
  | ⟨with_, body, _, _, _⟩ => (prefixedBody body).map (underNames (cteNames with_))

def prefixedBody : SetExpr → List (List String × ObjectNamePart)
  | .select ⟨_, _, from_, _, _, _⟩ => prefixedFrom from_
  | _ => []

end

/-- Two lists of relation names that differ by the prefixes of the listed ones. -/
inductive Prefixed :
    List RelationRef → List RelationRef → List (List String × ObjectNamePart) → Prop where
  | nil : Prefixed [] [] []
  | kept {xs ys moved} (ref : RelationRef) (rest : Prefixed xs ys moved) :
    Prefixed (ref :: xs) (ref :: ys) moved
  | moved {xs ys moved} (ctes : List String) (part : ObjectNamePart) (rest : Prefixed xs ys moved) :
    Prefixed ((ctes, [part]) :: xs) ((ctes, pgCatalogName part) :: ys) ((ctes, part) :: moved)

namespace Prefixed

theorem refl : ∀ xs : List RelationRef, Prefixed xs xs []
  | [] => nil
  | ref :: rest => kept ref (refl rest)

theorem append {xs ys xs' ys' : List RelationRef} {moved moved' : List (List String × ObjectNamePart)}
    (first : Prefixed xs ys moved) (second : Prefixed xs' ys' moved') :
    Prefixed (xs ++ xs') (ys ++ ys') (moved ++ moved') := by
  induction first with
  | nil => exact second
  | kept ref _ ih => exact kept ref ih
  | moved ctes part _ ih => exact .moved ctes part ih

theorem under {xs ys : List RelationRef} {moved : List (List String × ObjectNamePart)}
    (h : Prefixed xs ys moved) (names : List String) :
    Prefixed (xs.map (underNames names)) (ys.map (underNames names))
      (moved.map (underNames names)) := by
  induction h with
  | nil => exact nil
  | kept ref _ ih => exact kept _ ih
  | moved ctes part _ ih => exact .moved _ part ih

end Prefixed

@[simp] theorem relationsIn_append (xs ys : List Mention) :
    relationsIn (xs ++ ys) = relationsIn xs ++ relationsIn ys := List.filterMap_append

@[simp] theorem relationsIn_within (xs : List Mention) (names : List Qualifier) :
    relationsIn (xs.map (·.within names)) = relationsIn xs := by
  rw [relationsIn, List.filterMap_map]
  refine List.filterMap_congr fun m _ => ?_
  cases m <;> rfl

@[simp] theorem relationsIn_underCtes (xs : List Mention) (names : List String) :
    relationsIn (xs.map (·.underCtes names)) = (relationsIn xs).map (underNames names) := by
  rw [relationsIn, relationsIn, List.filterMap_map, List.map_filterMap]
  refine List.filterMap_congr fun m _ => ?_
  cases m <;> rfl

mutual

theorem qualifyFactor_prefixed : ∀ (factor : TableFactor) (inside inside' : List Qualifier),
    Prefixed (relationsIn (factor.mentions inside))
      (relationsIn ((qualifyFactor factor).mentions inside')) (prefixedFactor factor)
  | .table [part] _ none, _, _ => .moved [] part .nil
  | .table [] _ none, _, _ => .refl _
  | .table (_ :: _ :: _) _ none, _, _ => .refl _
  | .table [] _ (some args), _, _ => by
    simp only [TableFactor.mentions, qualifyFactor, relationsIn_within, prefixedFactor]
    exact .refl _
  | .table [_] _ (some args), _, _ => by
    simp only [TableFactor.mentions, qualifyFactor, relationsIn_within, prefixedFactor]
    exact .refl _
  | .table (_ :: _ :: _) _ (some args), _, _ => by
    simp only [TableFactor.mentions, qualifyFactor, relationsIn_within, prefixedFactor]
    exact .refl _
  | .derived _ q _, _, _ => by
    simp only [TableFactor.mentions, qualifyFactor, relationsIn_within, prefixedFactor]
    exact qualifyPgCatalogTables_prefixed q
  | .nestedJoin entry _, inside, inside' => by
    simp only [TableFactor.mentions, qualifyFactor, prefixedFactor]
    exact qualifyEntry_prefixed entry inside inside'
  | .function _ _ _ _, _, _ => by
    simp only [TableFactor.mentions, qualifyFactor, relationsIn_within, prefixedFactor]
    exact .refl _
  | .tableFunction _ _, _, _ => by
    simp only [TableFactor.mentions, qualifyFactor, relationsIn_within, prefixedFactor]
    exact .refl _
  | .unnest _ _, _, _ => by
    simp only [TableFactor.mentions, qualifyFactor, relationsIn_within, prefixedFactor]
    exact .refl _

theorem qualifyEntry_prefixed : ∀ (entry : TableWithJoins) (inside inside' : List Qualifier),
    Prefixed (relationsIn (entry.mentions inside))
      (relationsIn ((qualifyEntry entry).mentions inside')) (prefixedEntry entry)
  | ⟨relation, joins⟩, inside, inside' => by
    simp only [TableWithJoins.mentions, qualifyEntry, relationsIn_append, prefixedEntry]
    exact (qualifyFactor_prefixed relation inside inside').append
      (qualifyJoins_prefixed joins inside inside')

theorem qualifyJoins_prefixed : ∀ (joins : List Join) (inside inside' : List Qualifier),
    Prefixed (relationsIn (mentionsJoins inside joins))
      (relationsIn (mentionsJoins inside' (qualifyJoins joins))) (prefixedJoins joins)
  | [], _, _ => .nil
  | ⟨relation, _, constraint⟩ :: rest, inside, inside' => by
    simp only [mentionsJoins, qualifyJoins, relationsIn_append, relationsIn_within, prefixedJoins]
    have first := (qualifyFactor_prefixed relation inside inside').append
      (.refl (relationsIn constraint.mentions))
    rw [List.append_nil] at first
    exact first.append (qualifyJoins_prefixed rest inside inside')

theorem qualifyFrom_prefixed : ∀ (from_ : List TableWithJoins) (inside inside' : List Qualifier),
    Prefixed (relationsIn (mentionsFrom inside from_))
      (relationsIn (mentionsFrom inside' (qualifyFrom from_))) (prefixedFrom from_)
  | [], _, _ => .nil
  | entry :: rest, inside, inside' => by
    simp only [mentionsFrom, qualifyFrom, relationsIn_append, prefixedFrom]
    exact (qualifyEntry_prefixed entry inside inside').append
      (qualifyFrom_prefixed rest inside inside')

theorem qualifyPgCatalogTables_prefixed : ∀ q : Query,
    Prefixed (relationsIn q.mentions) (relationsIn (qualifyPgCatalogTables q).mentions)
      (prefixedNames q)
  | ⟨with_, body, orderBy, limit, offset⟩ => by
    simp only [Query.mentions, qualifyPgCatalogTables, relationsIn_append, relationsIn_underCtes,
      relationsIn_within, prefixedNames, List.map_append]
    have inside := ((((qualifyBody_prefixed body).append (.refl (relationsIn
      (mentionsOrderBy orderBy)))).append (.refl (relationsIn (mentionsOption limit)))).append
      (.refl (relationsIn (mentionsOption offset)))).under (cteNames with_)
    simp only [List.append_nil, List.map_append] at inside
    exact (Prefixed.refl (relationsIn (mentionsWith with_))).append inside

theorem qualifyBody_prefixed : ∀ body : SetExpr,
    Prefixed (relationsIn body.mentions) (relationsIn (qualifyBody body).mentions)
      (prefixedBody body)
  | .select ⟨distinct, projection, from_, selection, groupBy, having⟩ => by
    simp only [SetExpr.mentions, Select.mentions, qualifyBody, relationsIn_append,
      relationsIn_within, prefixedBody]
    exact (Prefixed.refl _).append (qualifyFrom_prefixed from_ _ _)
  | .query _ => .refl _
  | .setOperation _ _ _ _ => .refl _
  | .values _ => .refl _

end

end PgCatalog.ScalarToCte
