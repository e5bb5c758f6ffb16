import PgCatalog.Library.Chain
import PgCatalog.Replace.CastTargets
import PgCatalog.Session.Passes

/-! `rewrite_filters` on the casts of a statement: whichever of its passes rewrites a type, none of
them brings back what an earlier one did away with. -/
namespace PgCatalog.Session

open Library Sql Replace

/-- What a pass over casts makes of one expression. -/
def castPass : PassName → Option (Expr → Expr)
  | .rewriteRegoperCast => some Replace.rewriteRegoperCast
  | .rewriteRegoperatorCast => some Replace.rewriteRegoperatorCast
  | .rewriteRegprocedureCast => some Replace.rewriteRegprocedureCast
  | .resolveRegprocLiteralsToFunctionOids => some Replace.resolveRegprocLiteralsToFunctionOids
  | .rewriteRegprocCast => some Replace.rewriteRegprocCast
  | .rewriteSchemaQualifiedText => some Replace.rewriteSchemaQualifiedText
  | .rewriteSchemaQualifiedCustomTypes => some Replace.rewriteSchemaQualifiedCustomTypes
  | .rewriteInformationSchemaCasts => some Replace.rewriteInformationSchemaCasts
  | .rewriteCharCast => some Replace.rewriteCharCast
  | .replaceRegclass => some Replace.replaceRegclass
  | .resolveRegtypeLiteralsToTypeOids => some Replace.resolveRegtypeLiteralsToTypeOids
  | .rewriteRegtypeCast => some Replace.rewriteRegtypeCast
  | .rewriteXidCast => some Replace.rewriteXidCast
  | .rewriteNameCast => some Replace.rewriteNameCast
  | .rewriteTextBackedTypeCasts => some Replace.rewriteTextBackedTypeCasts
  | .rewriteOidCast => some Replace.rewriteOidCast
  | .dropRedundantOidAndRegclassCasts => some Replace.dropRedundantOidAndRegclassCasts
  | .dropOidArrayCast => some Replace.dropOidArrayCast
  | .rewriteArrayAggVarcharCast => some Replace.rewriteArrayAggVarcharCast
  | _ => none

/-- What each pass makes of a statement. Those over casts visit its expressions; of the others it
counts only that they write no cast of their own to a type the planner rejects, nor put a literal
where none was cast. -/
structure Rewrites where
  rewrite : PassName → Statement → Statement
  casts : ∀ {p f}, castPass p = some f → ∀ s, rewrite p s = s.replaced f
  others : ∀ {p}, castPass p = none → ∀ s, ∀ e ∈ (rewrite p s).visited, ∀ c,
    castShape e = some c → unplannable c.2 = false ∨
      ∃ was ∈ s.visited, ∃ d, castShape was = some d ∧ d.2 = c.2 ∧ (c.1 = true → d.1 = true)

/-- The passes over casts, with all others leaving a statement as it is. -/
instance : Inhabited Rewrites where
  default :=
    { rewrite := fun p s => match castPass p with
        | some f => s.replaced f
        | none => s
      casts := fun known s => by rw [known]
      others := fun known s e found c shape =>
        .inr ⟨e, by rwa [known] at found, c, shape, rfl, id⟩ }

/-- A pass over casts adds none, and all but one no literal. -/
theorem castPass_adds {p : PassName} {f : Expr → Expr} (known : castPass p = some f) :
    AddsNoCast f ∧ (p ≠ .dropOidArrayCast → AddsNoLiteral f) := by
  have custom {typeName keyword : String} (written : keyword ∈ writtenKeywords) :
      AddsNoCast (rewriteCustomTypeCastTarget typeName (keywordType keyword)) ∧
        AddsNoLiteral (rewriteCustomTypeCastTarget typeName (keywordType keyword)) :=
    ⟨(rewriteCustomTypeCastTarget_rewrites typeName written).addsNoCast,
      retargeted_addsNoLiteral _⟩
  cases p <;> cases known
  case rewriteRegoperCast =>
    exact ⟨rewriteRegoperCast_rewrites.addsNoCast, fun _ => rewriteRegoperCast_addsNoLiteral⟩
  case resolveRegprocLiteralsToFunctionOids =>
    exact ⟨resolveRegprocLiteralsToFunctionOids_rewrites.addsNoCast,
      fun _ => resolveRegprocLiterals_addsNoLiteral⟩
  case rewriteSchemaQualifiedText =>
    exact ⟨rewriteSchemaQualifiedText_rewrites.addsNoCast, fun _ => retargeted_addsNoLiteral _⟩
  case rewriteSchemaQualifiedCustomTypes =>
    exact ⟨rewriteSchemaQualifiedCustomTypes_rewrites.addsNoCast,
      fun _ => retargeted_addsNoLiteral _⟩
  case rewriteInformationSchemaCasts =>
    exact ⟨rewriteInformationSchemaCasts_rewrites.addsNoCast, fun _ => retargeted_addsNoLiteral _⟩
  case replaceRegclass =>
    exact ⟨replaceRegclass_rewrites.addsNoCast, fun _ => replaceRegclass_addsNoLiteral⟩
  case resolveRegtypeLiteralsToTypeOids =>
    exact ⟨resolveRegtypeLiteralsToTypeOids_rewrites.addsNoCast,
      fun _ => resolveRegtypeLiterals_addsNoLiteral⟩
  case rewriteTextBackedTypeCasts =>
    exact ⟨rewriteTextBackedTypeCasts_rewrites.addsNoCast, fun _ => retargeted_addsNoLiteral _⟩
  case rewriteOidCast =>
    exact ⟨rewriteOidCast_rewrites.addsNoCast, fun _ => rewriteOidCast_addsNoLiteral⟩
  case dropRedundantOidAndRegclassCasts =>
    exact ⟨dropRedundantOidAndRegclassCasts_rewrites.addsNoCast,
      fun _ => dropRedundantCasts_addsNoLiteral⟩
  case dropOidArrayCast =>
    exact ⟨dropOidArrayCast_rewrites.addsNoCast, fun other => absurd rfl other⟩
  case rewriteArrayAggVarcharCast =>
    exact ⟨rewriteArrayAggVarcharCast_rewrites.addsNoCast,
      fun _ => rewriteArrayAggVarcharCast_addsNoLiteral⟩
  all_goals exact (custom (by decide)).imp_right fun literals _ => literals

namespace Rewrites
variable (r : Rewrites)

/-- The statement after the passes of `rewrite_filters`. -/
def filtered (s : Statement) : Statement := chain r.rewrite rewriteFiltersPasses s

variable {r}

/-- Casts to types that are not planned are kept out by every pass, where it is the type that
counts, and else by every pass that puts no literal where none was cast. -/
theorem kept {bad : Bool × Sql.DataType → Prop} (unplanned : ∀ c, bad c → unplannable c.2 = true)
    {p : PassName} (carries : ∀ c d : Bool × Sql.DataType, d.2 = c.2 →
      (p ≠ .dropOidArrayCast → c.1 = true → d.1 = true) → bad c → bad d)
    {s : Statement} (free : FreeOf bad s) : FreeOf bad (r.rewrite p s) := by
  cases known : castPass p with
  | some f =>
    obtain ⟨casts, literals⟩ := castPass_adds known
    rw [r.casts known s]
    exact freeOf_kept casts unplanned
      (fun c d sameType literal => carries c d sameType fun other => literal (literals other)) free
  | none =>
    intro e found c shape isBad
    rcases r.others known s e found c shape with planned | ⟨was, isOne, d, had, sameType, literal⟩
    · exact absurd (unplanned c isBad) (by simp [planned])
    · exact free was isOne d had (carries c d sameType (fun _ => literal) isBad)

/-- Types a pass does away with are none the statement casts to in the end. -/
theorem cleared (p : PassName) {f : Expr → Expr} (known : castPass p = some f)
    (placed : p ∈ rewriteFiltersPasses) {types : Sql.DataType → Bool}
    (unplanned : ∀ t, types t = true → unplannable t = true)
    (clears : Clears f fun c => types c.2 = true) (s : Statement) :
    FreeOf (fun c => types c.2 = true) (r.filtered s) := by
  obtain ⟨before, after, order⟩ := List.append_of_mem placed
  rw [filtered, order]
  refine chain_established (fun s => ?_) (fun q _ s free => ?_) s
  · rw [r.casts known s]
    exact freeOf_cleared clears s
  · exact kept (fun c => unplanned c.2) (fun c d sameType _ isOne => sameType ▸ isOne) free

theorem target_cleared (p : PassName) {typeName : String} (keyword : String)
    (known : castPass p = some (rewriteCustomTypeCastTarget typeName (keywordType keyword)))
    (placed : p ∈ rewriteFiltersPasses) (isOne : typeName ∈ catalogOnlyNames)
    (written : keyword ∈ writtenKeywords) (s : Statement) :
    FreeOf (fun c => namesCustomType typeName c.2 = true) (r.filtered s) :=
  cleared p known placed (fun _ => unplannable_name isOne)
    ((rewriteCustomTypeCastTarget_rewrites typeName written).clears
      (fun _ => unplannable_name isOne) fun _ _ => id) s

theorem names_cleared (s : Statement) : ∀ typeName ∈ catalogOnlyNames,
    FreeOf (fun c => namesCustomType typeName c.2 = true) (r.filtered s) := by
  simp only [catalogOnlyNames, List.forall_mem_cons]
  refine ⟨?_, ?_, ?_, ?_, ?_, ?_, ?_, ?_, ?_, ?_, List.forall_mem_nil _⟩
  · exact cleared .rewriteRegoperCast rfl (by decide) (fun _ => unplannable_name (by decide))
      (rewriteRegoperCast_rewrites.clears (fun _ => unplannable_name (by decide)) fun _ _ => id) s
  · exact target_cleared .rewriteRegoperatorCast "TEXT" rfl (by decide) (by decide) (by decide) s
  · exact target_cleared .rewriteRegprocedureCast "TEXT" rfl (by decide) (by decide) (by decide) s
  · exact target_cleared .rewriteRegprocCast "TEXT" rfl (by decide) (by decide) (by decide) s
  · exact target_cleared .rewriteCharCast "CHAR" rfl (by decide) (by decide) (by decide) s
  · exact target_cleared .rewriteRegtypeCast "TEXT" rfl (by decide) (by decide) (by decide) s
  · exact target_cleared .rewriteXidCast "BIGINT" rfl (by decide) (by decide) (by decide) s
  · exact target_cleared .rewriteNameCast "TEXT" rfl (by decide) (by decide) (by decide) s
  · exact cleared .rewriteTextBackedTypeCasts rfl (by decide)
      (fun _ => unplannable_name (by decide))
      (rewriteTextBackedTypeCasts_rewrites.clears (fun _ => unplannable_name (by decide))
        fun _ _ one => Bool.or_eq_true_iff.mpr (.inl one)) s
  · exact cleared .rewriteOidCast rfl (by decide) (fun _ => unplannable_name (by decide))
      (rewriteOidCast_rewrites.clears (fun _ => unplannable_name (by decide)) fun _ _ => id) s

/-- A name cast to `regclass` is looked up first, and every other cast to it is dropped later. -/
theorem regclass_cleared (s : Statement) :
    FreeOf (fun c => isKeyword "regclass" c.2 = true) (r.filtered s) := by
  have order : rewriteFiltersPasses = rewriteFiltersPasses.takeWhile (· ≠ .replaceRegclass) ++
      .replaceRegclass :: ([.resolveRegtypeLiteralsToTypeOids, .rewriteRegtypeCast,
        .rewriteXidCast, .rewriteNameCast, .rewriteTextBackedTypeCasts, .rewriteOidCast,
        .resolveRegprocColumnsToOidsInComparisons, .rewriteBooleanColumnCharComparisons] ++
      .dropRedundantOidAndRegclassCasts ::
        (rewriteFiltersPasses.dropWhile (· ≠ .dropRedundantOidAndRegclassCasts)).tail) := by
    decide
  rw [filtered, order]
  refine @chain_narrowed _ _ _
    (FreeOf fun c => c.1 = true ∧ isKeyword "regclass" c.2 = true) _ _ _ _ _ _
    (fun s => ?_) (fun q between s free => ?_) (fun s free => ?_) (fun q _ s free => ?_) s
  · rw [r.casts rfl s]
    exact freeOf_cleared (replaceRegclass_rewrites.clears (fun c one => unplannable_regclass one.2)
      fun inner t one => nameLookedUp_regclass one.1 one.2) s
  · have other : q ≠ .dropOidArrayCast := by
      rintro rfl
      revert between
      decide
    exact kept (fun c one => unplannable_regclass one.2)
      (fun c d sameType literal one => ⟨literal other one.1, sameType ▸ one.2⟩) free
  · rw [r.casts rfl s]
    refine freeOf_narrowed dropRedundantOidAndRegclassCasts_rewrites
      dropRedundantCasts_addsNoLiteral (fun c => unplannable_regclass) (fun inner t one => ?_) free
    cases literal : isStringLiteral inner with
    | true => exact .inr ⟨rfl, rfl, one⟩
    | false =>
      have one : isKeyword "regclass" t = true := one
      exact .inl (by simp [drops, literal, one])
  · exact kept (fun c => unplannable_regclass) (fun c d sameType _ one => sameType ▸ one) free

theorem qualified_cleared (s : Statement) :
    FreeOf (fun c => isQualifiedAlias c.2 = true) (r.filtered s) := by
  refine cleared .rewriteSchemaQualifiedCustomTypes rfl (by decide)
    (fun _ => unplannable_qualified) ?_ s
  refine rewriteSchemaQualifiedCustomTypes_rewrites.clears (fun _ => unplannable_qualified)
    fun inner t one => ?_
  obtain ⟨named, other⟩ := Bool.and_eq_true_iff.mp one
  rw [Bool.not_eq_true'] at other
  rw [resolves, other, Bool.and_false, Bool.not_false, Bool.true_and]
  exact named

theorem domains_cleared (s : Statement) :
    FreeOf (fun c => (isInformationSchemaDomain c.2 || isUnboundedVarchar c.2) = true)
      (r.filtered s) :=
  cleared .rewriteInformationSchemaCasts rfl (by decide) (fun _ => unplannable_domain)
    (rewriteInformationSchemaCasts_rewrites.clears (fun _ => unplannable_domain) fun _ _ => id) s

theorem nameArrays_cleared (s : Statement) :
    FreeOf (fun c => isNameArray c.2 = true) (r.filtered s) :=
  cleared .rewriteTextBackedTypeCasts rfl (by decide) (fun _ => unplannable_nameArray)
    (rewriteTextBackedTypeCasts_rewrites.clears (fun _ => unplannable_nameArray)
      fun _ _ one => Bool.or_eq_true_iff.mpr (.inr one)) s

theorem oidArrays_cleared (s : Statement) :
    FreeOf (fun c => isOidArray c.2 = true) (r.filtered s) :=
  cleared .dropOidArrayCast rfl (by decide) (fun _ => unplannable_oidArray)
    (dropOidArrayCast_rewrites.clears (fun _ => unplannable_oidArray) fun _ _ => id) s

end Rewrites

/-- The statement as the pass over `array_agg` finds it. -/
def Rewrites.beforeArrayAgg (r : Rewrites) (s : Statement) : Statement :=
  chain r.rewrite (rewriteFiltersPasses.takeWhile (· ≠ .rewriteArrayAggVarcharCast)) s

theorem unbounded_cleared (r : Rewrites) (s : Statement) :
    FreeOf (fun c => isUnboundedVarchar c.2 = true) (r.beforeArrayAgg s) := by
  have order : rewriteFiltersPasses.takeWhile (· ≠ .rewriteArrayAggVarcharCast) =
      rewriteFiltersPasses.takeWhile (· ≠ .rewriteInformationSchemaCasts) ++
        .rewriteInformationSchemaCasts ::
          ((rewriteFiltersPasses.dropWhile (· ≠ .rewriteInformationSchemaCasts)).tail.takeWhile
            (· ≠ .rewriteArrayAggVarcharCast)) := by
    decide
  have unplanned (t : Sql.DataType) (one : isUnboundedVarchar t = true) : unplannable t = true :=
    unplannable_domain (Bool.or_eq_true_iff.mpr (.inr one))
  rw [Rewrites.beforeArrayAgg, order]
  refine chain_established (fun s => ?_) (fun q _ s free => ?_) s
  · rw [r.casts rfl s]
    exact freeOf_cleared (rewriteInformationSchemaCasts_rewrites.clears (fun c => unplanned c.2)
      fun _ _ one => Bool.or_eq_true_iff.mpr (.inr one)) s
  · exact Rewrites.kept (fun c => unplanned c.2) (fun c d sameType _ one => sameType ▸ one) free

end PgCatalog.Session
