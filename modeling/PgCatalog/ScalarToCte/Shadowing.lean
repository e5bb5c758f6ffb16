import PgCatalog.Sql.Mentions
import PgCatalog.ScalarToCte.Lift

/-! Which conjuncts of a subquery's WHERE clause leave it: the search goes by the name a
column is written under, whatever the subquery's own FROM clause binds. -/
namespace PgCatalog.ScalarToCte

open Sql

def selectOf (q : Query) : Option Select :=
  match q.body with
  | .select sel => some sel
  | _ => none

/-- The conjuncts of a subquery's own WHERE clause. -/
def whereConjuncts (q : Query) : List Expr := conjuncts ((selectOf q).bind (·.selection))

/-- Every qualifier of the expression is bound by the query's own FROM clause, or by a
FROM clause inside the expression. -/
def ResolvesInside (q : Query) (e : Expr) : Prop :=
  ∀ m ∈ e.mentions, ¬(m.within q.body.names).Free

instance (q : Query) (e : Expr) : Decidable (ResolvesInside q e) :=
  inferInstanceAs (Decidable (∀ m ∈ e.mentions, ¬(m.within q.body.names).Free))

/-- A comparison of two columns of which exactly one is written under a name. -/
def ComparesWith (name : Ident) : Expr → Prop
  | .anyOp left .eq right _ => Apart name (exprToColumnPath left) (exprToColumnPath right)
  | .binaryOp left op right =>
    isComparison op = true ∧ Apart name (exprToColumnPath left) (exprToColumnPath right)
  | _ => False
where
  Apart (name : Ident) (left right : List Ident) : Prop :=
    left ≠ [] ∧ right ≠ [] ∧ Xor (left.head? = some name) (right.head? = some name)

/-- All the columns reached, and at least one, are written under a name. -/
def NamesOnly (name : Ident) (e : Expr) : Prop :=
  collectPaths e ≠ [] ∧ ∀ path ∈ collectPaths e, path.head? = some name

/-- A conjunct leaves the subquery: it is no longer in the body, or is among the
predicates of the join condition. -/
def Leaves (info : CorrelatedInfo) (c : Expr) : Prop :=
  c ∉ whereConjuncts (cleanedSubquery info) ∨ c ∈ info.outerOnlyPredicates ∨
    ∃ p ∈ info.onPairs, isSamePred c p = true

theorem isOuterOnly_iff {e : Expr} {name : Ident} : isOuterOnly e name = true ↔ NamesOnly name e := by
  simp only [isOuterOnly, Bool.and_eq_true, List.any_eq_true, List.all_eq_true, decide_eq_true_eq,
    NamesOnly]
  constructor
  · rintro ⟨⟨path, reached, -⟩, all⟩
    exact ⟨List.ne_nil_of_mem reached, all⟩
  · rintro ⟨nonempty, all⟩
    obtain ⟨path, reached⟩ := List.exists_mem_of_ne_nil _ nonempty
    exact ⟨⟨path, reached, all path reached⟩, all⟩

theorem correlatedPair_isSome_iff {left right : Expr} {name : Ident} {op : BinaryOperator}
    {isAny : Bool} :
    (correlatedPair left right name op isAny).isSome = true ↔
      ComparesWith.Apart name (exprToColumnPath left) (exprToColumnPath right) := by
  rw [correlatedPair, ComparesWith.Apart]
  cases exprToColumnPath left with
  | nil => simp
  | cons l ls =>
    cases exprToColumnPath right with
    | nil => simp
    | cons r rs =>
      by_cases isLeft : l = name <;> by_cases isRight : r = name <;>
        simp [isLeft, isRight, Xor]

theorem liftedPair_isSome_iff {c : Expr} {name : Ident} :
    (liftedPair c name).isSome = true ↔ ComparesWith name c := by
  fun_cases ComparesWith name c with
  | case1 left right isSome => exact correlatedPair_isSome_iff
  | case2 left op right =>
    rw [liftedPair]
    split
    · rename_i compares
      rw [correlatedPair_isSome_iff, and_iff_right compares]
    · rename_i other
      simp [other]
  | case3 c notAny notBinary =>
    rw [liftedPair.eq_def]
    split
    · exact absurd rfl (notAny _ _ _)
    · exact absurd rfl (notBinary _ _ _)
    · simp

/-- A conjunct that repeats a lifted comparison, in either order, is lifted itself. -/
theorem liftedPair_of_isSamePred {c c' : Expr} {name : Ident} {p : CorrelatedPredicate}
    (lifted : liftedPair c' name = some p) (same : isSamePred c p = true) :
    (liftedPair c name).isSome = true := by
  obtain ⟨_, _, outer, inner, nonempty, _, kind⟩ := liftedPair_cases lifted
  have outer_nonempty : p.outer ≠ [] := by
    intro empty
    rw [empty] at outer
    cases outer
  have apart : ∀ left right : Expr,
      exprToColumnPath left = p.outer ∧ exprToColumnPath right = p.inner ∨
        exprToColumnPath right = p.outer ∧ exprToColumnPath left = p.inner →
      ComparesWith.Apart name (exprToColumnPath left) (exprToColumnPath right) := by
    rintro left right (⟨hl, hr⟩ | ⟨hr, hl⟩)
    · rw [hl, hr]
      exact ⟨outer_nonempty, nonempty, .inl ⟨outer, inner⟩⟩
    · rw [hl, hr]
      exact ⟨nonempty, outer_nonempty, .inr ⟨outer, inner⟩⟩
  rw [liftedPair_isSome_iff]
  fun_cases isSamePred c p with
  | case1 left op right =>
    simp only [isSamePred, Bool.and_eq_true, Bool.or_eq_true, decide_eq_true_eq] at same
    obtain ⟨rfl, sides⟩ := same
    refine ⟨?_, apart left right sides⟩
    obtain ⟨_, equal, _⟩ | ⟨_, compares, _⟩ := kind
    · rw [equal]
      rfl
    · exact compares
  | case2 left right isSome =>
    simp only [isSamePred, Bool.and_eq_true, Bool.or_eq_true, decide_eq_true_eq] at same
    exact apart left right (same.2.symm.imp And.symm And.symm)
  | case3 c notBinary notAny =>
    rw [isSamePred.eq_def] at same
    split at same
    · exact absurd rfl (notBinary _ _ _)
    · exact absurd rfl (notAny _ _ _)
    · cases same

/-- A lifted comparison is the one it was lifted from. -/
theorem isSamePred_of_liftedPair {c : Expr} {name : Ident} {p : CorrelatedPredicate}
    (lifted : liftedPair c name = some p) : isSamePred c p = true := by
  obtain ⟨left, right, -, -, -, sides, ⟨any, -, isSome, rfl⟩ | ⟨-, -, rfl⟩⟩ := liftedPair_cases lifted
  · obtain ⟨hl, hr⟩ | ⟨hr, hl⟩ := sides <;> simp [isSamePred, any, ← hl, ← hr]
  · obtain ⟨hl, hr⟩ | ⟨hr, hl⟩ := sides <;> simp [isSamePred, ← hl, ← hr]

theorem mem_of_mem_firstOfSame {α : Type} {same : α → α → Bool} {xs : List α} {x : α}
    (member : x ∈ firstOfSame same xs) : x ∈ xs := by
  suffices all : ∀ unique : List α,
      x ∈ xs.foldl (fun unique x => if unique.any (same · x) then unique else unique ++ [x]) unique →
      x ∈ unique ∨ x ∈ xs from (all [] member).resolve_left List.not_mem_nil
  clear member
  induction xs with
  | nil => exact fun unique => .inl
  | cons first rest ih =>
    intro unique member
    rw [List.foldl_cons] at member
    obtain kept | later := ih _ member
    · split at kept
      · exact .inl kept
      · obtain old | new := List.mem_append.mp kept
        · exact .inl old
        · exact .inr (List.mem_cons.mpr (.inl (List.mem_singleton.mp new)))
    · exact .inr (List.mem_cons_of_mem _ later)

/-- Of elements that count as the same, one is kept. -/
theorem exists_mem_firstOfSame {α β : Type} [DecidableEq β] {key : α → β} {xs : List α} {x : α}
    (member : x ∈ xs) : ∃ y ∈ firstOfSame (key · = key ·) xs, key y = key x := by
  suffices all : ∀ unique : List α, (x ∈ xs ∨ ∃ y ∈ unique, key y = key x) →
      ∃ y ∈ xs.foldl (fun unique x =>
        if unique.any (key · = key x) then unique else unique ++ [x]) unique, key y = key x from
    all [] (.inl member)
  clear member
  induction xs with
  | nil => exact fun unique seen => seen.resolve_left List.not_mem_nil
  | cons first rest ih =>
    intro unique seen
    rw [List.foldl_cons]
    refine ih _ ?_
    obtain member | ⟨y, kept, same⟩ := seen
    · obtain rfl | later := List.mem_cons.mp member
      · right
        split
        · rename_i present
          obtain ⟨y, kept, same⟩ := List.any_eq_true.mp present
          exact ⟨y, kept, of_decide_eq_true same⟩
        · exact ⟨x, List.mem_append_right _ (List.mem_singleton_self _), rfl⟩
      · exact .inl later
    · right
      refine ⟨y, ?_, same⟩
      split
      · exact kept
      · exact List.mem_append_left _ kept

@[simp] theorem injectGroupBy_selection (sel : Select) :
    (injectGroupBy sel).selection = sel.selection := by
  rw [injectGroupBy]
  split
  · rfl
  · dsimp only
    split <;> rfl

theorem conjuncts_stripCorrFilters (sel : Select) (pairs : List CorrelatedPredicate)
    (outerAliases : List Ident) :
    conjuncts (stripCorrFilters sel pairs outerAliases).selection =
      (conjuncts sel.selection).filter fun c =>
        !pairs.any (isSamePred c) && !outerAliases.any (isOuterOnly c) := by
  rw [stripCorrFilters]
  cases filter : sel.selection with
  | none =>
    dsimp only
    rw [filter]
    rfl
  | some pred =>
    dsimp only
    refine conjuncts_buildAnd fun e member => ?_
    exact splitAnd_conjunct (List.mem_of_mem_filter member)

theorem selectOf_qualifyPgCatalogTables (q : Query) :
    (selectOf (qualifyPgCatalogTables q)).bind (·.selection) = (selectOf q).bind (·.selection) := by
  obtain ⟨_, ⟨_, _, _, _, _, _⟩ | _ | _ | _, _, _, _⟩ := q <;>
    simp only [qualifyPgCatalogTables, qualifyBody, selectOf, Option.bind_some, Option.bind_none]

/-- The body keeps the conjuncts that are neither lifted nor outer-only. -/
theorem whereConjuncts_cleanedSubquery {info : CorrelatedInfo} {sel : Select}
    (body : info.subquery.body = .select sel) :
    whereConjuncts (cleanedSubquery info) =
      (whereConjuncts info.subquery).filter fun c =>
        !info.onPairs.any (isSamePred c) && !info.outerAliases.any (isOuterOnly c) := by
  simp only [whereConjuncts, cleanedSubquery, body, selectOf_qualifyPgCatalogTables]
  simp only [selectOf, body, Option.bind_some, cleanedSelect, injectGroupBy_selection,
    conjuncts_stripCorrFilters]

section
variable {host : Host} {outerAliases : List Ident} {q : Query} {inner : Select}
  {origAlias : Option Ident} {cteIdent : Ident}

theorem mem_correlatedInfo_onPairs (body : q.body = .select inner) {p : CorrelatedPredicate} :
    p ∈ (correlatedInfo host origAlias outerAliases q inner cteIdent).onPairs ↔
      ∃ name ∈ outerAliases, ∃ c ∈ whereConjuncts q, liftedPair c name = some p := by
  simp only [correlatedInfo, subqueryPairs, whereConjuncts, selectOf, body, Option.bind_some]
  cases inner.selection with
  | none => simp [conjuncts]
  | some pred => exact mem_correlatedPairs

theorem mem_correlatedInfo_outerOnly (body : q.body = .select inner) {e : Expr}
    (member : e ∈ (correlatedInfo host origAlias outerAliases q inner cteIdent).outerOnlyPredicates) :
    ∃ name ∈ outerAliases, e ∈ whereConjuncts q ∧ isOuterOnly e name = true := by
  simp only [correlatedInfo] at member
  simp only [whereConjuncts, selectOf, body, Option.bind_some]
  cases filter : inner.selection with
  | none =>
    rw [filter] at member
    cases member
  | some pred =>
    rw [filter] at member
    obtain ⟨name, listed, kept⟩ := List.mem_flatMap.mp (mem_of_mem_firstOfSame member)
    exact ⟨name, listed, List.mem_filter.mp kept⟩

/-- A conjunct repeats a lifted comparison exactly when it is one, for any outer alias. -/
theorem repeats_pair_iff (body : q.body = .select inner) {c : Expr}
    (conjunct : c ∈ whereConjuncts q) :
    (∃ p ∈ (correlatedInfo host origAlias outerAliases q inner cteIdent).onPairs,
      isSamePred c p = true) ↔ ∃ name ∈ outerAliases, ComparesWith name c := by
  constructor
  · rintro ⟨p, member, same⟩
    obtain ⟨name, listed, c', -, lifted⟩ := (mem_correlatedInfo_onPairs body).mp member
    exact ⟨name, listed, liftedPair_isSome_iff.mp (liftedPair_of_isSamePred lifted same)⟩
  · rintro ⟨name, listed, compares⟩
    obtain ⟨p, lifted⟩ := Option.isSome_iff_exists.mp (liftedPair_isSome_iff.mpr compares)
    exact ⟨p, (mem_correlatedInfo_onPairs body).mpr ⟨name, listed, c, conjunct, lifted⟩,
      isSamePred_of_liftedPair lifted⟩

/-- A conjunct leaves the subquery exactly when it compares a column written under an outer
alias with one that is not, or reaches columns written under one outer alias only. -/
theorem leaves_iff (body : q.body = .select inner) {c : Expr} (conjunct : c ∈ whereConjuncts q) :
    Leaves (correlatedInfo host origAlias outerAliases q inner cteIdent) c ↔
      ∃ name ∈ outerAliases, ComparesWith name c ∨ NamesOnly name c := by
  have repeated : (∃ p ∈ (correlatedInfo host origAlias outerAliases q inner cteIdent).onPairs, _) ↔
      _ := repeats_pair_iff body conjunct
  have gone : c ∉ whereConjuncts (cleanedSubquery
        (correlatedInfo host origAlias outerAliases q inner cteIdent)) ↔
      (∃ name ∈ outerAliases, ComparesWith name c) ∨ ∃ name ∈ outerAliases, NamesOnly name c := by
    rw [whereConjuncts_cleanedSubquery body, List.mem_filter, not_and, ← repeated]
    simp only [Bool.and_eq_true, Bool.not_eq_true', List.any_eq_false, not_and_or, not_forall,
      isOuterOnly_iff, not_not, exists_prop]
    exact forall_prop_of_true conjunct
  rw [Leaves, gone, repeated]
  constructor
  · rintro ((⟨name, listed, compares⟩ | ⟨name, listed, only⟩) | outerOnly | ⟨name, listed, compares⟩)
    · exact ⟨name, listed, .inl compares⟩
    · exact ⟨name, listed, .inr only⟩
    · obtain ⟨name, listed, -, only⟩ := mem_correlatedInfo_outerOnly body outerOnly
      exact ⟨name, listed, .inr (isOuterOnly_iff.mp only)⟩
    · exact ⟨name, listed, .inl compares⟩
  · rintro ⟨name, listed, compares | only⟩
    · exact .inl (.inl ⟨name, listed, compares⟩)
    · exact .inl (.inr ⟨name, listed, only⟩)

end

/-- No conjunct that the subquery resolves by itself leaves it, exactly when none is written
as a comparison with an outer alias or under one outer alias alone. -/
theorem shadowing_respected_iff {host : Host} {outer : Select} {item : SelectItem}
    {s t : ScalarToCte} {info : CorrelatedInfo}
    (lifted : (analyseScalar host (collectOuterAliases outer.from_) item).run s = (some info, t)) :
    (∀ c ∈ whereConjuncts info.subquery, ResolvesInside info.subquery c → ¬Leaves info c) ↔
      ∀ c ∈ whereConjuncts info.subquery, ResolvesInside info.subquery c →
        ∀ name ∈ collectOuterAliases outer.from_, ¬ComparesWith name c ∧ ¬NamesOnly name c := by
  obtain ⟨q, inner, origAlias, -, body, rfl, -⟩ := analyseScalar_some lifted
  refine forall_congr' fun c => forall_congr' fun conjunct => forall_congr' fun _ => ?_
  rw [leaves_iff body conjunct]
  simp only [not_exists, not_and, not_or]

/-- `SELECT count(*) FROM <relation> c WHERE c.<column> = <literal>` -/
def countOver (relation column literal : String) : Query :=
  ⟨none, .select ⟨.no, [.unnamedExpr (.function ⟨[.identifier (.new "count")],
      .list false [.unnamed .wildcard] [], none, none, []⟩)],
    [⟨.table [.identifier (.new "pg_catalog"), .identifier (.new relation)]
      (some ⟨.new "c", []⟩) none, []⟩],
    some (.binaryOp (.compoundIdentifier [.new "c", .new column]) .eq
      (.value (.number literal false))),
    .expressions [], none⟩, [], none, none⟩

/-- `SELECT (<subquery>) FROM pg_catalog.pg_class <name>` -/
def overPgClass (name : String) (subquery : Query) : Select :=
  ⟨.no, [.unnamedExpr (.subquery subquery)],
    [⟨.table [.identifier (.new "pg_catalog"), .identifier (.new "pg_class")]
      (some ⟨.new name, []⟩) none, []⟩], none, .expressions [], none⟩

/-- An alias `c` in both FROM clauses: the inner filter becomes a join condition on the
outer `c`, and the lifted body counts every row. -/
theorem inner_filter_moved_out :
    ∃ info t, (analyseScalar blankHost
        (collectOuterAliases (overPgClass "c" (countOver "pg_collation" "oid" "5")).from_)
        (.unnamedExpr (.subquery (countOver "pg_collation" "oid" "5")))).run {} = (some info, t) ∧
      ∃ c, whereConjuncts info.subquery = [c] ∧ ResolvesInside info.subquery c ∧
        whereConjuncts (cleanedSubquery info) = [] ∧ info.outerOnlyPredicates = [c] := by
  refine ⟨_, _, analyseScalar_lifts rfl (fun enclosed => absurd enclosed (by decide))
    (by decide +kernel), _, rfl, by decide +kernel, ?_, rfl⟩
  rw [whereConjuncts_cleanedSubquery rfl]
  rfl

theorem distinct_aliases_respected :
    ∃ info t, (analyseScalar blankHost
        (collectOuterAliases (overPgClass "r" (countOver "pg_collation" "oid" "5")).from_)
        (.unnamedExpr (.subquery (countOver "pg_collation" "oid" "5")))).run {} = (some info, t) ∧
      ((∀ c ∈ whereConjuncts info.subquery, ResolvesInside info.subquery c → ¬Leaves info c) ↔
        ∀ c ∈ whereConjuncts info.subquery, ResolvesInside info.subquery c →
          ∀ name ∈ collectOuterAliases
            (overPgClass "r" (countOver "pg_collation" "oid" "5")).from_,
            ¬ComparesWith name c ∧ ¬NamesOnly name c) := by
  have lifted : (analyseScalar blankHost
      (collectOuterAliases (overPgClass "r" (countOver "pg_collation" "oid" "5")).from_)
      (.unnamedExpr (.subquery (countOver "pg_collation" "oid" "5")))).run {} = (some _, _) :=
    analyseScalar_lifts rfl (fun enclosed => absurd enclosed (by decide)) (by decide +kernel)
  exact ⟨_, _, lifted, shadowing_respected_iff lifted⟩

end PgCatalog.ScalarToCte
