import PgCatalog.ScalarToCte.Exposed
import PgCatalog.ScalarToCte.Remaining

/-! Scoping of a lifted subquery: its relation names, and all its names together. -/
namespace PgCatalog.ScalarToCte

open Sql

section
variable {R : Type} (relation : ObjectName → R) (enclosing earlier : List String)

/-- Every relation name left in the body denotes what it denoted in the subquery, although
the CTEs lifted earlier are in scope now. -/
def TablesKept (info : CorrelatedInfo) : Prop :=
  (relationsIn (cleanedSubquery info).mentions).map (denoted relation (earlier ++ enclosing)) =
    (relationsIn (remaining info.outerAliases info.subquery).mentions).map
      (denoted relation enclosing)

/-- A name that gains the schema is no CTE in scope and found under the schema anyway, and
no other name is that of a CTE lifted earlier and not already of one in scope. -/
def NothingCaptured (outerAliases : List Ident) (q : Query) : Prop :=
  (∀ ref ∈ prefixedNames q, (∀ n, scopeName [ref.2] = some n → n ∉ ref.1 ++ enclosing) ∧
      relation (pgCatalogName ref.2) = relation [ref.2]) ∧
    ∀ ref ∈ relationsIn (qualifyPgCatalogTables (remaining outerAliases q)).mentions,
      ∀ n, scopeName ref.2 = some n → n ∈ ref.1 ++ enclosing ∨ n ∉ earlier

theorem denoted_kept_iff (ref : RelationRef) :
    denoted relation (earlier ++ enclosing) ref = denoted relation enclosing ref ↔
      ∀ n, scopeName ref.2 = some n → n ∈ ref.1 ++ enclosing ∨ n ∉ earlier := by
  simp only [denoted]
  cases scopeName ref.2 with
  | none => simp
  | some n =>
    simp only [Option.some.injEq, forall_eq', List.mem_append]
    by_cases own : n ∈ ref.1 ∨ n ∈ enclosing
    · rw [if_pos own, if_pos (by tauto)]
      exact iff_of_true rfl (.inl own)
    · rw [if_neg own]
      by_cases late : n ∈ earlier
      · rw [if_pos (by tauto)]
        exact iff_of_false Sum.inl_ne_inr (by tauto)
      · rw [if_neg (by tauto)]
        exact iff_of_true rfl (.inr late)

theorem denoted_moved_iff (ctes names : List String) (part : ObjectNamePart) :
    denoted relation names (ctes, pgCatalogName part) = denoted relation enclosing (ctes, [part]) ↔
      (∀ n, scopeName [part] = some n → n ∉ ctes ++ enclosing) ∧
        relation (pgCatalogName part) = relation [part] := by
  change Sum.inr (relation (pgCatalogName part)) = denoted relation enclosing (ctes, [part]) ↔ _
  simp only [denoted]
  cases scopeName [part] with
  | none => simp
  | some n =>
    simp only [Option.some.injEq, forall_eq']
    by_cases own : n ∈ ctes ++ enclosing
    · rw [if_pos own]
      exact iff_of_false Sum.inr_ne_inl fun both => both.1 own
    · rw [if_neg own, Sum.inr.injEq]
      exact (and_iff_right own).symm

variable {relation enclosing earlier}

theorem Prefixed.denoted_iff {xs ys : List RelationRef}
    {moved : List (List String × ObjectNamePart)} (same : Prefixed xs ys moved) :
    ys.map (denoted relation (earlier ++ enclosing)) = xs.map (denoted relation enclosing) ↔
      (∀ ref ∈ moved, (∀ n, scopeName [ref.2] = some n → n ∉ ref.1 ++ enclosing) ∧
        relation (pgCatalogName ref.2) = relation [ref.2]) ∧
      ∀ ref ∈ ys, ∀ n, scopeName ref.2 = some n → n ∈ ref.1 ++ enclosing ∨ n ∉ earlier := by
  induction same with
  | nil => simp
  | kept ref _ ih =>
    rw [List.map_cons, List.map_cons, List.cons.injEq, ih, denoted_kept_iff, List.forall_mem_cons]
    exact and_left_comm
  | moved ctes part _ ih =>
    rw [List.map_cons, List.map_cons, List.cons.injEq, ih, denoted_moved_iff, List.forall_mem_cons,
      List.forall_mem_cons]
    constructor
    · rintro ⟨first, later, kept⟩
      exact ⟨⟨first, later⟩, by rintro _ ⟨⟩, kept⟩
    · rintro ⟨⟨first, later⟩, -, kept⟩
      exact ⟨first, later, kept⟩

theorem prefixedNames_remaining (outerAliases : List Ident) (q : Query) :
    prefixedNames (remaining outerAliases q) = prefixedNames q := by
  obtain ⟨_, ⟨_, _, _, _, _, _⟩ | _ | _ | _, _, _, _⟩ := q <;>
    simp only [remaining, remainingSelect, prefixedNames, prefixedBody]

theorem tablesKept_iff {host : Host} {origAlias : Option Ident} {outerAliases : List Ident}
    {q : Query} {inner : Select} {cteIdent : Ident} (body : q.body = .select inner) :
    TablesKept relation enclosing earlier
        (correlatedInfo host origAlias outerAliases q inner cteIdent) ↔
      NothingCaptured relation enclosing earlier outerAliases q := by
  rw [TablesKept, relationsIn_cleanedSubquery body, NothingCaptured,
    ← prefixedNames_remaining outerAliases q]
  exact (qualifyPgCatalogTables_prefixed (remaining outerAliases q)).denoted_iff

end

/-- The one item a lifted subquery projects. -/
def Projects (q : Query) (item : SelectItem) : Prop :=
  (selectOf q).map (·.projection) = some [item]

/-- The columns of the CTE that a subquery is lifted to. -/
theorem outputColumns_lifted (unspelled : SelectItem → String) {host : Host}
    {outerAliases : List Ident} {item value : SelectItem} {s t : ScalarToCte} {info : CorrelatedInfo}
    (lifted : (analyseScalar host outerAliases item).run s = (some info, t))
    (single : Projects info.subquery value) (depth : Nat) :
    outputColumns unspelled ((visitBody (visitQuery host depth) info).run t).1 =
      valueName unspelled value :: (joinKeyPaths info.onPairs).map exposedName := by
  obtain ⟨q, inner, origAlias, -, body, rfl, -⟩ := analyseScalar_some lifted
  have projection : inner.projection = [value] := by
    simpa [Projects, selectOf, correlatedInfo, body] using single
  exact (outputColumns_visitBody unspelled host body projection depth t).trans
    (outputColumns_cleanedSubquery body projection)

/-- `SELECT count(*) AS n FROM pg_catalog.pg_collation c WHERE c.oid = 5` -/
def aliasedCount : Query :=
  ⟨none, .select ⟨.no, [.exprWithAlias (.function ⟨[.identifier (.new "count")],
      .list false [.unnamed .wildcard] [], none, none, []⟩) (.new "n")],
    [⟨.table [.identifier (.new "pg_catalog"), .identifier (.new "pg_collation")]
      (some ⟨.new "c", []⟩) none, []⟩],
    some (.binaryOp (.compoundIdentifier [.new "c", .new "oid"]) .eq
      (.value (.number "5" false))),
    .expressions [], none⟩, [], none, none⟩

end PgCatalog.ScalarToCte
