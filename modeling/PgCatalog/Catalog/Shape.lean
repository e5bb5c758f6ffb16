import Mathlib.Data.List.Nodup
import PgCatalog.Catalog.Loops

/-! The answers of a described source: what it lists, in which order, and that no
number stands for two things. -/
namespace PgCatalog

open Library

theorem mem_referencedSchemas (tables : List DeclaredTable) (seen : List (String × String))
    (schema : String × String) :
    schema ∈ seen ++ referencedSchemas tables seen ↔
      schema ∈ seen ∨ ∃ table ∈ tables, table.home = schema := by
  induction tables generalizing seen with
  | nil => simp only [referencedSchemas, List.append_nil, List.not_mem_nil, false_and, exists_false,
      or_false]
  | cons table rest ih =>
    have added : schema ∈ seen ++ introduced seen table ↔
        schema ∈ seen ∨ table.home = schema := by
      rw [introduced]
      split
      · rename_i present
        rw [List.append_nil]
        exact ⟨.inl, fun h => h.elim id (· ▸ present)⟩
      · rw [List.mem_append, List.mem_singleton, eq_comm]
    rw [referencedSchemas, ← List.append_assoc, ih, added, or_assoc]
    simp only [List.mem_cons, exists_eq_or_imp]

theorem nodup_referencedSchemas (tables : List DeclaredTable) (seen : List (String × String))
    (nodup : seen.Nodup) : (seen ++ referencedSchemas tables seen).Nodup := by
  induction tables generalizing seen with
  | nil => simpa only [referencedSchemas, List.append_nil] using nodup
  | cons table rest ih =>
    rw [referencedSchemas, ← List.append_assoc]
    refine ih _ ?_
    rw [introduced]
    split
    · rwa [List.append_nil]
    · rename_i absent
      exact nodup.append (List.nodup_singleton _)
        (List.disjoint_singleton.mpr absent)

theorem mem_relationCalls (tables : List DeclaredTable) (seen : List (String × String))
    (object : CatalogObject) :
    object ∈ relationCalls tables seen ↔
      object ∈ (referencedSchemas tables seen).flatMap schemaCalls ∨
        ∃ table ∈ tables, object = table.object := by
  induction tables generalizing seen with
  | nil => simp only [relationCalls, referencedSchemas, List.flatMap_nil, List.not_mem_nil,
      false_and, exists_false, or_false]
  | cons table rest ih =>
    simp only [relationCalls, referencedSchemas, List.flatMap_append, List.mem_append,
      List.mem_cons, ih, exists_eq_or_imp, or_assoc, or_left_comm]

/-- The calls of a declaration set, whatever their order. -/
theorem mem_declarationCalls {databases : List String} {schemas : List (String × String)}
    {tables : List DeclaredTable} {object : CatalogObject} :
    object ∈ declarationCalls databases schemas tables ↔
      (∃ name ∈ databases, object = .database name) ∨
      (∃ schema, (schema ∈ schemas ∨ ∃ table ∈ tables, table.home = schema) ∧
        object ∈ schemaCalls schema) ∨
      ∃ table ∈ tables, object = table.object := by
  simp only [declarationCalls, List.mem_append, mem_relationCalls, ← mem_referencedSchemas]
  rw [← or_assoc (a := object ∈ schemas.flatMap schemaCalls), ← List.mem_append,
    ← List.flatMap_append, List.mem_flatMap, List.mem_map]
  simp only [eq_comm (a := object), List.mem_append]

/-- `public` is never asked for. -/
theorem public_not_called {databases : List String} {schemas : List (String × String)}
    {tables : List DeclaredTable} (database : String) :
    .schema database "public" ∉ declarationCalls databases schemas tables := by
  rw [mem_declarationCalls]
  rintro (⟨_, _, impossible⟩ | ⟨schema, _, called⟩ | ⟨_, _, impossible⟩)
  · cases impossible
  · rw [schemaCalls] at called
    split at called
    · cases called
    · rename_i builtIn
      injection List.mem_singleton.mp called with _ named
      exact builtIn named.symm
  · cases impossible

namespace DeclaredCatalogSource

/-- Every number the answers hand out, over all databases; `public` keeps its own. -/
def reportedOids (source : DeclaredCatalogSource) : List Int32 :=
  source.databases.flatMap fun database => database.oid ::
    (source.schemasIn database.datname).flatMap fun schema =>
      (if schema.name = "public" then [] else [schema.oid]) ++
        (source.relationsIn database.datname schema.name).flatMap fun relation =>
          [relation.oid, relation.reltypeOid]

/-- The slots those numbers belong to, in the same order. -/
def reportedSlots (source : DeclaredCatalogSource) : List OidSlot :=
  source.databases.flatMap fun database => .database database.datname ::
    (source.schemasIn database.datname).flatMap fun schema =>
      (if schema.name = "public" then [] else [.schema database.datname schema.name]) ++
        (source.relationsIn database.datname schema.name).flatMap fun relation =>
          [.relation database.datname schema.name relation.name,
            .rowtype database.datname schema.name relation.name]

/-- The slots of one schema. -/
theorem schema_slots {source : DeclaredCatalogSource} {database schema : String} {slot : OidSlot}
    (member : slot ∈ (if schema = "public" then [] else [OidSlot.schema database schema]) ++
      (source.relationsIn database schema).flatMap fun relation =>
        [.relation database schema relation.name, .rowtype database schema relation.name]) :
    slot = .schema database schema ∨ (∃ name, slot = .relation database schema name) ∨
      ∃ name, slot = .rowtype database schema name := by
  obtain own | inside := List.mem_append.mp member
  · split at own
    · cases own
    · exact .inl (List.mem_singleton.mp own)
  · obtain ⟨relation, _, here⟩ := List.mem_flatMap.mp inside
    simp only [List.mem_cons, List.not_mem_nil, or_false] at here
    exact .inr (here.imp (⟨_, ·⟩) (⟨_, ·⟩))

/-- Where databases, the schemas of one and the relations of one are each listed
once, no slot is reported twice. -/
theorem reportedSlots_nodup {source : DeclaredCatalogSource}
    (databases : (source.databases.map (·.datname)).Nodup)
    (schemas : ∀ database, ((source.schemasIn database).map (·.name)).Nodup)
    (relations : ∀ database schema, ((source.relationsIn database schema).map (·.name)).Nodup) :
    source.reportedSlots.Nodup := by
  rw [reportedSlots, List.nodup_flatMap]
  constructor
  · intro database _
    rw [List.nodup_cons, List.nodup_flatMap]
    refine ⟨?_, ?_, ?_⟩
    · intro member
      obtain ⟨schema, _, inside⟩ := List.mem_flatMap.mp member
      obtain h | ⟨_, h⟩ | ⟨_, h⟩ := schema_slots inside <;> cases h
    · intro schema _
      refine List.Nodup.append ?_ ?_ ?_
      · split
        · exact List.nodup_nil
        · exact List.nodup_singleton _
      · rw [List.nodup_flatMap]
        refine ⟨fun relation _ => by simp, ?_⟩
        refine (List.pairwise_map.mp (relations database.datname schema.name)).imp ?_
        intro a b different slot first second
        simp only [List.mem_cons, List.not_mem_nil, or_false] at first second
        obtain rfl | rfl := first <;> obtain same | same := second <;> simp [different] at same
      · intro slot own inside
        obtain ⟨relation, _, here⟩ := List.mem_flatMap.mp inside
        simp only [List.mem_cons, List.not_mem_nil, or_false] at here
        split at own
        · cases own
        · obtain rfl := List.mem_singleton.mp own
          obtain h | h := here <;> cases h
    · refine (List.pairwise_map.mp (schemas database.datname)).imp ?_
      intro a b different slot first second
      obtain rfl | ⟨_, rfl⟩ | ⟨_, rfl⟩ := schema_slots first <;>
        obtain h | ⟨_, h⟩ | ⟨_, h⟩ := schema_slots second <;> simp [different] at h
  · refine (List.pairwise_map.mp databases).imp ?_
    intro a b different slot first second
    have inside : ∀ {database : DatabaseDef}, slot ∈ (OidSlot.database database.datname ::
        (source.schemasIn database.datname).flatMap fun schema =>
          (if schema.name = "public" then [] else [.schema database.datname schema.name]) ++
            (source.relationsIn database.datname schema.name).flatMap fun relation =>
              [.relation database.datname schema.name relation.name,
                .rowtype database.datname schema.name relation.name]) →
        slot.databaseName = database.datname := by
      intro database member
      obtain rfl | member := List.mem_cons.mp member
      · rfl
      · obtain ⟨schema, _, member⟩ := List.mem_flatMap.mp member
        obtain rfl | ⟨_, rfl⟩ | ⟨_, rfl⟩ := schema_slots member <;> rfl
    exact different ((inside first).symm.trans (inside second))

end DeclaredCatalogSource

end PgCatalog
