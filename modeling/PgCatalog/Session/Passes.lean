import PgCatalog.Library.Reparse
import PgCatalog.Registry.Registry

/-! The passes a statement's text goes through before it is planned, in their order. -/
namespace PgCatalog.Session

open Library

inductive PassName where
  | normalizeSessionIdentitySpellings
  | qualifyCatalogTables
  | rewriteCorrelatedLimitOneSubqueryToMax
  | rewriteSrfToUnnest
  | convertDotFieldToSubscript
  | replaceSetCommandWithNamespace
  | stripDefaultCollate
  | rewriteTimeZoneUtc
  | rewriteRegoperCast
  | rewriteRegoperatorCast
  | rewriteRegprocedureCast
  | resolveRegprocLiteralsToFunctionOids
  | rewriteRegprocCast
  | rewriteAvailableUpdates
  | rewriteArrayIndexIterationToAnyComparison
  | rewriteArrayOverUnnestToArrayExpression
  | rewriteArraySubquery
  | rewriteBraceArrayLiteral
  | rewritePgCustomOperator
  | rewriteSchemaQualifiedText
  | rewriteSchemaQualifiedCustomTypes
  | rewritePgTruetypidCompositeArgs
  | rewriteInformationSchemaCasts
  | rewriteSchemaQualifiedUdtfs
  | nameSetReturningFunctionColumnAfterItsAlias
  | rewriteAvailableExtensionVersionsSource
  | rewriteCharCast
  | rewriteArrayUpperToArrayLength
  | replaceRegclass
  | resolveRegtypeLiteralsToTypeOids
  | rewriteRegtypeCast
  | rewriteXidCast
  | rewriteNameCast
  | rewriteTextBackedTypeCasts
  | rewriteOidCast
  | resolveRegprocColumnsToOidsInComparisons
  | rewriteBooleanColumnCharComparisons
  | dropRedundantOidAndRegclassCasts
  | dropOidArrayCast
  | rewriteArrayAggVarcharCast
  | rewriteTupleEquality
  | decorrelateLateralAggregate
  | resolveOrderByNamesToOutputPositions
  | aliasSubqueryTables
  | disambiguateDuplicateColumns
  | aliasUnnamedColumns
  | rewriteScalarSubqueriesToCtes
  | rewriteGroupByForAny
  | rewriteBooleanScalarSubqueryToExists
  | rewriteExistsToCount
  | rewriteTupleInSubqueryToExists
  deriving DecidableEq, Repr

/-- How a pass writes the statements it read. -/
def PassName.shape : PassName → PassShape
  | .rewriteScalarSubqueriesToCtes => .last
  | .rewriteGroupByForAny => .joined "; " true true
  | .rewriteTimeZoneUtc | .rewriteAvailableUpdates | .rewriteArraySubquery
  | .rewriteBraceArrayLiteral | .rewriteSchemaQualifiedUdtfs => .joined "; " true false
  | .rewriteCorrelatedLimitOneSubqueryToMax | .rewriteSrfToUnnest | .convertDotFieldToSubscript
  | .rewritePgCustomOperator | .rewriteSchemaQualifiedText | .rewriteSchemaQualifiedCustomTypes
  | .rewritePgTruetypidCompositeArgs | .rewriteInformationSchemaCasts
  | .rewriteArrayUpperToArrayLength | .replaceRegclass | .dropRedundantOidAndRegclassCasts
  | .dropOidArrayCast | .rewriteArrayAggVarcharCast | .disambiguateDuplicateColumns
  | .aliasUnnamedColumns | .rewriteBooleanScalarSubqueryToExists | .rewriteExistsToCount
  | .rewriteTupleInSubqueryToExists => .joined " " false false
  | _ => .joined "; " false false

/-- `rewrite_filters`. -/
def rewriteFiltersPasses : List PassName :=
  [.normalizeSessionIdentitySpellings, .replaceSetCommandWithNamespace, .stripDefaultCollate,
    .rewriteTimeZoneUtc, .rewriteRegoperCast, .rewriteRegoperatorCast, .rewriteRegprocedureCast,
    .resolveRegprocLiteralsToFunctionOids, .rewriteRegprocCast, .rewriteAvailableUpdates,
    .rewriteArrayIndexIterationToAnyComparison, .rewriteArrayOverUnnestToArrayExpression,
    .rewriteArraySubquery, .rewriteBraceArrayLiteral, .rewritePgCustomOperator,
    .rewriteSchemaQualifiedText, .rewriteSchemaQualifiedCustomTypes,
    .rewritePgTruetypidCompositeArgs, .rewriteInformationSchemaCasts,
    .rewriteSchemaQualifiedUdtfs, .nameSetReturningFunctionColumnAfterItsAlias,
    .rewriteAvailableExtensionVersionsSource, .rewriteCharCast, .rewriteArrayUpperToArrayLength,
    .replaceRegclass, .resolveRegtypeLiteralsToTypeOids, .rewriteRegtypeCast, .rewriteXidCast,
    .rewriteNameCast, .rewriteTextBackedTypeCasts, .rewriteOidCast,
    .resolveRegprocColumnsToOidsInComparisons, .rewriteBooleanColumnCharComparisons,
    .dropRedundantOidAndRegclassCasts, .dropOidArrayCast, .rewriteArrayAggVarcharCast,
    .rewriteTupleEquality, .decorrelateLateralAggregate, .resolveOrderByNamesToOutputPositions,
    .aliasSubqueryTables, .disambiguateDuplicateColumns, .aliasUnnamedColumns,
    .rewriteScalarSubqueriesToCtes, .rewriteGroupByForAny]

/-- All that a client's statement goes through. -/
def rewriteAndExecutePasses : List PassName :=
  [.normalizeSessionIdentitySpellings, .rewriteCorrelatedLimitOneSubqueryToMax,
    .rewriteSrfToUnnest, .convertDotFieldToSubscript] ++ rewriteFiltersPasses ++
  [.rewriteBooleanScalarSubqueryToExists, .rewriteExistsToCount, .rewriteTupleInSubqueryToExists]

section
variable {S : Type} (g : Grammar S DataFusionError) (rewrite : PassName → Rewrite S DataFusionError)

def runPasses : List PassName → String → DFResult String :=
  g.runPasses (.plan "Empty SQL string") PassName.shape rewrite

def rewriteFilters (text : String) : DFResult String :=
  runPasses g rewrite rewriteFiltersPasses text

/-- The text fails in some pass, which cannot read or not rewrite what it is handed. -/
def Refused (passes : List PassName) (text : String) : Prop :=
  g.Refused (.plan "Empty SQL string") PassName.shape rewrite passes text

variable {g rewrite}

theorem refused_iff {passes : List PassName} {text : String} :
    Refused g rewrite passes text ↔ ∃ e, runPasses g rewrite passes text = .error e := g.refused_iff

theorem runPasses_one {p : PassName} {text out : String}
    (ran : runPasses g rewrite [p] text = .ok out) :
    g.runPass (.plan "Empty SQL string") (rewrite p) text p.shape = .ok out := by
  unfold runPasses Grammar.runPasses at ran
  split at ran
  · cases ran
  · rename_i passed
    rw [passed, ← Except.ok.inj ran]

theorem runPasses_single {passes : List PassName} {text out : String}
    (ctes : .rewriteScalarSubqueriesToCtes ∈ passes)
    (ran : runPasses g rewrite passes text = .ok out) : ∃ s, g.parse out = .ok [s] :=
  g.parse_single (g.single_of_mem_last ⟨_, ctes, rfl⟩ ran)

theorem rewriteFilters_single {text out : String} (ran : rewriteFilters g rewrite text = .ok out) :
    ∃ s, g.parse out = .ok [s] := runPasses_single (by decide) ran

end

end PgCatalog.Session
