import PgCatalog.Replace.CastPasses

/-! The types a planner rejects, and which casts to them a pass leaves: one adds none, and each
does away with those it is written for. -/
namespace PgCatalog.Replace

open Library Sql

/-! ## The types -/

/-- A type a custom one stands for, behind any number of arrays. -/
def aliasOf : Sql.DataType → Option Sql.DataType
  | .array element => aliasOf element
  | .named name modifiers => (customType (.named name modifiers)).bind resolvedType

/-- A schema-qualified name of a type the planner has another for. The names whose literals are
looked up are no such. -/
def isQualifiedAlias (dataType : Sql.DataType) : Bool :=
  (aliasOf dataType).isSome && !namesAResolvableIdentifier dataType

def isInformationSchemaDomain (dataType : Sql.DataType) : Bool :=
  ((customType dataType).bind baseType).isSome

/-- The names of types the planner does not know, with or without `pg_catalog` before them. -/
def catalogOnlyNames : List String :=
  ["regoper", "regoperator", "regprocedure", "regproc", "char", "regtype", "xid", "name",
    "anyarray", "oid"]

/-- A type no cast is planned to. -/
def unplannable (dataType : Sql.DataType) : Bool :=
  catalogOnlyNames.any (namesCustomType · dataType) || isKeyword "regclass" dataType ||
    isQualifiedAlias dataType || isInformationSchemaDomain dataType ||
    isUnboundedVarchar dataType || isNameArray dataType || isOidArray dataType

/-- A type written with keywords the planner knows, and arrays of such. -/
def KnownType : Sql.DataType → Prop
  | .array element => KnownType element
  | .named name modifiers => customType (.named name modifiers) = none ∧
    isKeyword "regclass" (.named name modifiers) = false ∧
    isUnboundedVarchar (.named name modifiers) = false

variable {dataType : Sql.DataType}

theorem aliasOf_known (known : KnownType dataType) : aliasOf dataType = none := by
  induction dataType with
  | named name modifiers => rw [aliasOf, known.1, Option.bind_none]
  | array element ih => exact ih known

theorem customType_known (known : KnownType dataType) : customType dataType = none := by
  cases dataType with
  | named name modifiers => exact known.1
  | array element => rfl

theorem namesCustomType_known (known : KnownType dataType) (typeName : String) :
    namesCustomType typeName dataType = false := by
  rw [namesCustomType, customType_known known]
  rfl

theorem isUnqualifiedType_known (known : KnownType dataType) (typeName : String) :
    isUnqualifiedType typeName dataType = false := by
  rw [isUnqualifiedType, customType_known known]

theorem known_plannable (known : KnownType dataType) : unplannable dataType = false := by
  have unnamed : catalogOnlyNames.any (namesCustomType · dataType) = false :=
    List.any_eq_false.mpr fun typeName _ => by simp [namesCustomType_known known]
  have qualified : isQualifiedAlias dataType = false := by
    rw [isQualifiedAlias, aliasOf_known known]
    rfl
  have domain : isInformationSchemaDomain dataType = false := by
    rw [isInformationSchemaDomain, customType_known known]
    rfl
  rw [unplannable, unnamed, qualified, domain]
  cases dataType with
  | named name modifiers => simp [known.2.1, known.2.2, isNameArray, isOidArray]
  | array element =>
    have inner : KnownType element := known
    simp [isKeyword, isUnboundedVarchar, isBareKeyword, isNameArray, isOidArray,
      namesCustomType_known inner, isUnqualifiedType_known inner]

/-! ### The types the passes write -/

def writtenKeywords : List String :=
  ["TEXT", "CHAR", "BIGINT", "SMALLINT", "INT", "INTEGER", "REAL", "DOUBLE PRECISION", "BOOLEAN",
    "TIMESTAMP"]

theorem isKeywordType_written : ∀ k ∈ writtenKeywords, isKeywordType k = true := by
  simp only [isKeywordType, eqIgnoreAsciiCase_toList]
  exact List.all_eq_true.mp (by decide +kernel)

theorem written_other : ∀ k ∈ writtenKeywords,
    ∀ other ∈ ["regclass", "varchar", "character varying"],
    eqIgnoreAsciiCase k other = false := by
  simp only [eqIgnoreAsciiCase_toList]
  decide +kernel

theorem written_knownType {k : String} (written : k ∈ writtenKeywords) :
    KnownType (keywordType k) := by
  have other := written_other k written
  refine ⟨if_pos (isKeywordType_written k written), other "regclass" (by simp), ?_⟩
  · rw [isUnboundedVarchar, Bool.or_eq_false_iff]
    exact ⟨other "character varying" (by simp), other "varchar" (by simp)⟩

theorem datafusionTypeFor_known {bareName : String} {r : Sql.DataType}
    (found : datafusionTypeFor bareName = some r) : KnownType r := by
  unfold datafusionTypeFor at found
  split_ifs at found <;> obtain rfl := Option.some.inj found <;>
    exact written_knownType (by decide)

theorem baseType_known {name : ObjectName} {r : Sql.DataType} (found : baseType name = some r) :
    KnownType r := by
  unfold baseType at found
  split at found
  · split_ifs at found <;> obtain rfl := Option.some.inj found <;>
      exact written_knownType (by decide)
  · cases found

theorem resolveType_eq_self (plain : aliasOf dataType = none) :
    resolveType dataType = dataType := by
  induction dataType with
  | named name modifiers =>
    have unresolved : (customType (.named name modifiers)).bind resolvedType = none := plain
    rw [resolveType, unresolved, Option.getD_none]
  | array element ih => rw [resolveType, ih plain]

theorem resolveType_known (named : (aliasOf dataType).isSome) :
    KnownType (resolveType dataType) := by
  induction dataType with
  | named name modifiers =>
    obtain ⟨r, found⟩ := Option.isSome_iff_exists.mp named
    obtain ⟨_, _, resolved⟩ := Option.bind_eq_some_iff.mp found
    obtain ⟨_, _, typed⟩ := Option.bind_eq_some_iff.mp resolved
    have found : (customType (.named name modifiers)).bind resolvedType = some r := found
    rw [resolveType, found, Option.getD_some]
    exact datafusionTypeFor_known typed
  | array element ih => exact ih named

/-! ## The casts a pass leaves -/

/-- What a cast is like: whether a string literal is cast, and to which type. -/
def castShape : Expr → Option (Bool × Sql.DataType)
  | .cast _ inner dataType => some (isStringLiteral inner, dataType)
  | _ => none

/-- No cast of the statement is one of these. -/
def FreeOf (bad : Bool × Sql.DataType → Prop) (s : Statement) : Prop :=
  ∀ e ∈ s.visited, ∀ c, castShape e = some c → ¬ bad c

/-- What is bad of any other operand is bad of a string literal. -/
def Rising (bad : Bool × Sql.DataType → Prop) : Prop := ∀ t, bad (false, t) → bad (true, t)

/-- Each cast in what becomes of an expression was inside it, is the expression itself, or is to a
type that can be planned. -/
def AddsNoCast (f : Expr → Expr) : Prop :=
  ∀ e, ∀ y ∈ (f e).visited, y ∈ e.within ∨
    ∀ c, castShape y = some c → castShape e = some c ∨ unplannable c.2 = false

/-- No expression becomes a string literal that is none. -/
def AddsNoLiteral (f : Expr → Expr) : Prop := ∀ e, isStringLiteral (f e) → isStringLiteral e

/-- No expression becomes a cast of these, or one with such a cast in it that was not there. -/
def Clears (f : Expr → Expr) (bad : Bool × Sql.DataType → Prop) : Prop :=
  ∀ e, ∀ y ∈ (f e).visited, y ∈ e.within ∨ ∀ c, castShape y = some c → ¬ bad c

variable {f : Expr → Expr} {bad : Bool × Sql.DataType → Prop}

theorem isStringLiteral_rebuilt (f : Expr → Expr) (e : Expr) :
    isStringLiteral (e.rebuilt f) = isStringLiteral e := by
  cases e <;> rfl

/-- What a cast is like once what is cast is replaced. -/
theorem castShape_rebuilt {e : Expr} {c : Bool × Sql.DataType}
    (shape : castShape (e.rebuilt f) = some c) : ∃ d, castShape e = some d ∧ d.2 = c.2 ∧
      (AddsNoLiteral f → c.1 = true → d.1 = true) := by
  cases e with
  | cast kind inner dataType =>
    obtain rfl := Option.some.inj shape
    refine ⟨_, rfl, rfl, fun adds literal => ?_⟩
    rw [Expr.replaced_eq] at literal
    exact (isStringLiteral_rebuilt f inner).symm.trans (adds _ literal)
  | _ => cases shape

theorem freeOf_cleared (clears : Clears f bad) (s : Statement) : FreeOf bad (s.replaced f) := by
  refine Statement.visited_replaced (P := fun _ => True)
    (fun e _ inside y found => ?_) s fun _ _ => trivial
  exact (clears _ y found).elim (inside y) id

/-- Casts of no other shape are kept out by a pass that adds none. -/
theorem freeOf_kept (adds : AddsNoCast f) (unplanned : ∀ c, bad c → unplannable c.2 = true)
    (carries : ∀ c d : Bool × Sql.DataType, d.2 = c.2 →
      (AddsNoLiteral f → c.1 = true → d.1 = true) → bad c → bad d)
    {s : Statement} (free : FreeOf bad s) : FreeOf bad (s.replaced f) := by
  refine Statement.visited_replaced (P := fun e => ∀ c, castShape e = some c → ¬ bad c)
    (fun e held inside y found => ?_) s free
  rcases adds _ y found with within | shapes
  · exact inside y within
  · intro c shape isBad
    rcases shapes c shape with same | planned
    · obtain ⟨d, was, sameType, literal⟩ := castShape_rebuilt same
      exact held d was (carries c d sameType literal isBad)
    · exact absurd (unplanned c isBad) (by simp [planned])

/-! ## One pass -/

/-- An expression made of another one without a cast that is not planned. -/
def PlannedOver (inner made : Expr) : Prop :=
  ∀ y ∈ made.visited, y ∈ inner.visited ∨ ∀ c, castShape y = some c → KnownType c.2

/-- A pass that makes something else of the casts it fires on, and leaves all others. -/
structure RewritesCasts (f : Expr → Expr) (fires : Expr → Sql.DataType → Bool) : Prop where
  other : ∀ e, castShape e = none → f e = e
  kept : ∀ kind inner t, fires inner t = false → f (.cast kind inner t) = .cast kind inner t
  made : ∀ kind inner t, fires inner t = true → PlannedOver inner (f (.cast kind inner t))

namespace RewritesCasts
variable {fires : Expr → Sql.DataType → Bool}

theorem result (rewrites : RewritesCasts f fires) (e : Expr) :
    (f e = e ∧ ∀ kind inner t, e = .cast kind inner t → fires inner t = false) ∨
      ∃ kind inner t, e = .cast kind inner t ∧ fires inner t = true := by
  cases shape : castShape e with
  | none =>
    refine .inl ⟨rewrites.other e shape, ?_⟩
    rintro kind inner t rfl
    cases shape
  | some c =>
    cases e with
    | cast kind inner t =>
      cases fired : fires inner t with
      | false =>
        refine .inl ⟨rewrites.kept kind inner t fired, ?_⟩
        rintro _ _ _ ⟨⟩
        exact fired
      | true => exact .inr ⟨kind, inner, t, rfl, fired⟩
    | _ => cases shape

theorem addsNoCast (rewrites : RewritesCasts f fires) : AddsNoCast f := by
  intro e y found
  rcases rewrites.result e with ⟨same, _⟩ | ⟨kind, inner, t, rfl, fired⟩
  · rw [same, Expr.visited_eq] at found
    rcases List.mem_cons.mp found with rfl | within
    · exact .inr fun c here => .inl here
    · exact .inl within
  · rcases rewrites.made kind inner t fired y found with within | planned
    · exact .inl within
    · exact .inr fun d here => .inr (known_plannable (planned d here))

theorem clears (rewrites : RewritesCasts f fires) (unplanned : ∀ c, bad c → unplannable c.2 = true)
    (fire : ∀ inner t, bad (isStringLiteral inner, t) → fires inner t = true) : Clears f bad := by
  intro e y found
  rcases rewrites.result e with ⟨same, off⟩ | ⟨kind, inner, t, rfl, fired⟩
  · rw [same, Expr.visited_eq] at found
    rcases List.mem_cons.mp found with rfl | within
    · refine .inr fun c here isBad => ?_
      cases y with
      | cast kind inner t =>
        obtain rfl := Option.some.inj here
        have on := fire inner t isBad
        rw [off kind inner t rfl] at on
        cases on
      | _ => cases here
    · exact .inl within
  · rcases rewrites.made kind inner t fired y found with within | planned
    · exact .inl within
    · refine .inr fun d here isBad => ?_
      have never := unplanned d isBad
      rw [known_plannable (planned d here)] at never
      cases never

/-- No literal comes of a cast that is rewritten. -/
theorem addsNoLiteral (rewrites : RewritesCasts f fires)
    (made : ∀ kind inner t, fires inner t = true →
      isStringLiteral (f (.cast kind inner t)) = false) :
    AddsNoLiteral f := by
  intro e literal
  rcases rewrites.result e with ⟨same, _⟩ | ⟨kind, inner, t, rfl, fired⟩
  · rwa [same] at literal
  · rw [made kind inner t fired] at literal
    cases literal

end RewritesCasts

variable {inner : Expr}

theorem plannedOver_self : PlannedOver inner inner := fun _ found => .inl found

theorem plannedOver_cons {made : Expr} (known : ∀ c, castShape made = some c → KnownType c.2)
    (within : ∀ y ∈ made.within, y ∈ inner.visited ∨ ∀ c, castShape y = some c → KnownType c.2) :
    PlannedOver inner made := by
  intro y found
  rw [Expr.visited_eq] at found
  rcases List.mem_cons.mp found with rfl | inside
  · exact .inr known
  · exact within y inside

theorem plannedOver_value (v : Sql.Value) : PlannedOver inner (.value v) :=
  plannedOver_cons nofun nofun

theorem plannedOver_cast (kind : CastKind) {t : Sql.DataType} (known : KnownType t) :
    PlannedOver inner (.cast kind inner t) := by
  refine plannedOver_cons ?_ fun y found => .inl found
  rintro _ ⟨⟩
  exact known

theorem plannedOver_call (name : String) {argument : Expr} (planned : PlannedOver inner argument) :
    PlannedOver inner (functionCall name argument) := by
  refine plannedOver_cons nofun fun y found => planned y ?_
  simpa [Expr.within, functionCall, Expr.visited, Function.visited, FunctionArguments.visited,
    visitedArgs, FunctionArgExpr.visited, visitedOption, visitedWindow, visitedOrderBy] using found

/-! ## The passes -/

theorem retargeted_rewrites {target : Expr → Sql.DataType → Sql.DataType}
    {fires : Expr → Sql.DataType → Bool} (kept : ∀ i t, fires i t = false → target i t = t)
    (made : ∀ i t, fires i t = true → KnownType (target i t)) :
    RewritesCasts (retargeted target) fires where
  other e shape := by
    cases e with
    | cast kind inner t => cases shape
    | _ => rfl
  kept kind inner t off := by rw [retargeted, kept inner t off]
  made kind inner t on := plannedOver_cast kind (made inner t on)

theorem rewriteCustomTypeCastTarget_rewrites (typeName : String) {keyword : String}
    (written : keyword ∈ writtenKeywords) :
    RewritesCasts (rewriteCustomTypeCastTarget typeName (keywordType keyword))
      fun _ t => namesCustomType typeName t := by
  refine retargeted_rewrites (fun _ t off => ?_) fun _ t on => ?_
  · rw [off]
    rfl
  · rw [on]
    exact written_knownType written

theorem rewriteSchemaQualifiedText_rewrites : RewritesCasts rewriteSchemaQualifiedText
    fun _ t => (customType t).any isPgText := by
  refine retargeted_rewrites (fun _ t off => ?_) fun _ t on => ?_
  · rw [off]
    rfl
  · rw [on]
    exact written_knownType (by decide)

/-- Whether the pass over schema-qualified types looks at a cast and has another type for it. -/
def resolves (inner : Expr) (t : Sql.DataType) : Bool :=
  !(isStringLiteralOperand inner && namesAResolvableIdentifier t) && (aliasOf t).isSome

theorem rewriteSchemaQualifiedCustomTypes_rewrites :
    RewritesCasts rewriteSchemaQualifiedCustomTypes resolves := by
  refine retargeted_rewrites (fun inner t off => ?_) fun inner t on => ?_
  · split
    · rfl
    · next looks =>
      rw [resolves, Bool.eq_false_iff.mpr looks, Bool.not_false, Bool.true_and] at off
      exact resolveType_eq_self (by simpa using off)
  · obtain ⟨looks, named⟩ := Bool.and_eq_true_iff.mp on
    have unread : ¬ (isStringLiteralOperand inner && namesAResolvableIdentifier t) = true := by
      simpa only [Bool.not_eq_true', Bool.not_eq_true] using looks
    rw [if_neg unread]
    exact resolveType_known named

theorem rewriteInformationSchemaCasts_rewrites : RewritesCasts rewriteInformationSchemaCasts
    fun _ t => isInformationSchemaDomain t || isUnboundedVarchar t := by
  refine retargeted_rewrites (fun _ t off => ?_) fun _ t on => ?_
  · obtain ⟨domain, varchar⟩ := Bool.or_eq_false_iff.mp off
    rw [Option.isSome_eq_false_iff.mp domain |> Option.isNone_iff_eq_none.mp, varchar]
    rfl
  · cases found : (customType t).bind baseType with
    | some base =>
      obtain ⟨_, _, named⟩ := Option.bind_eq_some_iff.mp found
      exact baseType_known named
    | none =>
      rw [isInformationSchemaDomain, found, Option.isSome_none, Bool.false_or] at on
      rw [on]
      exact written_knownType (by decide)

theorem rewriteTextBackedTypeCasts_rewrites : RewritesCasts rewriteTextBackedTypeCasts
    fun _ t => namesCustomType "anyarray" t || isNameArray t := by
  refine retargeted_rewrites (fun _ t off => ?_) fun _ t on => ?_
  · obtain ⟨anyarray, names⟩ := Bool.or_eq_false_iff.mp off
    rw [anyarray, names]
    rfl
  · split
    · exact written_knownType (by decide)
    · next other =>
      rw [Bool.eq_false_iff.mpr other, Bool.false_or] at on
      rw [on]
      exact written_knownType (by decide)

theorem rewriteRegoperCast_rewrites : RewritesCasts rewriteRegoperCast
    fun _ t => namesCustomType "regoper" t where
  other e shape := by
    cases e with
    | cast kind inner t => cases shape
    | _ => rfl
  kept kind inner t off := by rw [rewriteRegoperCast, off, if_neg (by decide)]
  made kind inner t on := by
    rw [rewriteRegoperCast, on, if_pos rfl]
    exact plannedOver_value _

theorem dropOidArrayCast_rewrites : RewritesCasts dropOidArrayCast fun _ t => isOidArray t where
  other e shape := by
    cases e with
    | cast kind inner t => cases shape
    | _ => rfl
  kept kind inner t off := by rw [dropOidArrayCast, off, if_neg (by decide)]
  made kind inner t on := by
    rw [dropOidArrayCast, on, if_pos rfl]
    exact plannedOver_self

/-- Whether the pass drops a cast. -/
def drops (inner : Expr) (t : Sql.DataType) : Bool :=
  isKeyword "regclass" t && !isStringLiteral inner ||
    isUnqualifiedType "oid" t && !isStringLiteral inner && !isNumber inner

theorem dropRedundantOidAndRegclassCasts_rewrites :
    RewritesCasts dropRedundantOidAndRegclassCasts drops where
  other e shape := by
    cases e with
    | cast kind inner t => cases shape
    | _ => rfl
  kept kind inner t off := if_neg (Bool.eq_false_iff.mp off)
  made kind inner t on := by
    have dropped : dropRedundantOidAndRegclassCasts (.cast kind inner t) = inner := if_pos on
    rw [dropped]
    exact plannedOver_self

theorem rewriteOidCast_rewrites :
    RewritesCasts rewriteOidCast fun _ t => namesCustomType "oid" t where
  other e shape := by
    cases e with
    | cast kind inner t => cases shape
    | _ => rfl
  kept kind inner t off := if_pos (by rw [off]; rfl)
  made kind inner t on := by
    rw [rewriteOidCast, on, if_neg (by decide)]
    split
    · exact plannedOver_cast _ (written_knownType (by decide))
    split
    · exact plannedOver_call _ plannedOver_self
    · exact plannedOver_call _ plannedOver_self

/-- The name a cast stands for, where the pass looks it up. -/
def nameLookedUp (inner : Expr) (t : Sql.DataType) : Option String :=
  if isUnqualifiedType "oid" t then regclassLiteral inner
  else if isRegclassType t then stringLiteral inner else none

theorem replaceRegclass_rewrites :
    RewritesCasts replaceRegclass fun inner t => (nameLookedUp inner t).isSome where
  other e shape := by
    cases e with
    | cast kind inner t => cases shape
    | _ => rfl
  kept kind inner t off := by
    have unnamed : nameLookedUp inner t = none := by simpa using off
    rw [nameLookedUp] at unnamed
    rw [replaceRegclass, unnamed]
  made kind inner t on := by
    obtain ⟨name, named⟩ := Option.isSome_iff_exists.mp on
    rw [nameLookedUp] at named
    rw [replaceRegclass, named]
    exact plannedOver_call _ (plannedOver_value _)

theorem resolveRegtypeLiteralsToTypeOids_rewrites :
    RewritesCasts resolveRegtypeLiteralsToTypeOids
      fun inner t => isStringLiteral inner && namesCustomType "regtype" t where
  other e shape := by
    cases e with
    | cast kind inner t => cases shape
    | _ => rfl
  kept kind inner t off := by
    cases inner with
    | value v =>
      cases v with
      | singleQuotedString name => exact if_neg (Bool.eq_false_iff.mp off)
      | _ => rfl
    | _ => rfl
  made kind inner t on := by
    cases inner with
    | value v =>
      cases v with
      | singleQuotedString name =>
        have called : resolveRegtypeLiteralsToTypeOids
            (.cast kind (.value (.singleQuotedString name)) t) =
              functionCall "pg_type_oid" (.value (.singleQuotedString name)) := if_pos on
        rw [called]
        exact plannedOver_call _ (plannedOver_value _)
      | _ => cases on
    | _ => cases on

/-- Whether a cast to `oid` is of a name cast to `regproc`. -/
def namesFunction (inner : Expr) (t : Sql.DataType) : Bool :=
  match inner with
  | .cast _ functionName innerType =>
    namesCustomType "oid" t && namesCustomType "regproc" innerType &&
      isStringLiteralOperand functionName
  | _ => false

theorem resolveRegprocLiteralsToFunctionOids_rewrites :
    RewritesCasts resolveRegprocLiteralsToFunctionOids namesFunction where
  other e shape := by
    cases e with
    | cast kind inner t => cases shape
    | _ => rfl
  kept kind inner t off := by
    cases inner with
    | cast innerKind functionName innerType => exact if_neg (Bool.eq_false_iff.mp off)
    | _ => rfl
  made kind inner t on := by
    cases inner with
    | cast innerKind functionName innerType =>
      have called : resolveRegprocLiteralsToFunctionOids
          (.cast kind (.cast innerKind functionName innerType) t) =
            functionCall PG_PROC_OID_FUNCTION functionName := if_pos on
      rw [called]
      refine plannedOver_call _ fun y found => .inl ?_
      exact List.mem_cons_of_mem _ found
    | _ => cases on

theorem rewriteArrayAggVarcharCast_rewrites : RewritesCasts rewriteArrayAggVarcharCast
    fun inner t => isKeyword "varchar" t && isArrayAggCall inner where
  other e shape := by
    cases e with
    | cast kind inner t => cases shape
    | _ => rfl
  kept kind inner t off := if_neg (Bool.eq_false_iff.mp off)
  made kind inner t on := by
    rw [rewriteArrayAggVarcharCast, if_pos on]
    refine plannedOver_cons nofun fun y found => ?_
    have found : y ∈ inner.visited ∨ y = .value (.singleQuotedString ",") := by
      simpa [Expr.within, Expr.visited, Function.visited, FunctionArguments.visited, visitedArgs,
        FunctionArgExpr.visited, visitedOption, visitedWindow, visitedOrderBy] using found
    refine found.imp_right ?_
    rintro rfl
    exact nofun

/-! ### Literals -/

theorem retargeted_addsNoLiteral (target : Expr → Sql.DataType → Sql.DataType) :
    AddsNoLiteral (retargeted target) := by
  intro e literal
  cases e with
  | cast kind inner t => cases literal
  | _ => exact literal

theorem rewriteRegoperCast_addsNoLiteral : AddsNoLiteral rewriteRegoperCast :=
  rewriteRegoperCast_rewrites.addsNoLiteral fun kind inner t on => by
    rw [rewriteRegoperCast, on]
    rfl

theorem resolveRegtypeLiterals_addsNoLiteral : AddsNoLiteral resolveRegtypeLiteralsToTypeOids := by
  intro e literal
  unfold resolveRegtypeLiteralsToTypeOids at literal
  split at literal
  · split at literal <;> cases literal
  · exact literal

theorem resolveRegprocLiterals_addsNoLiteral :
    AddsNoLiteral resolveRegprocLiteralsToFunctionOids := by
  intro e literal
  unfold resolveRegprocLiteralsToFunctionOids at literal
  split at literal
  · split at literal <;> cases literal
  · exact literal

theorem replaceRegclass_addsNoLiteral : AddsNoLiteral replaceRegclass := by
  intro e literal
  unfold replaceRegclass at literal
  split at literal
  · dsimp only at literal
    split at literal <;> cases literal
  · exact literal

theorem rewriteOidCast_addsNoLiteral : AddsNoLiteral rewriteOidCast := by
  intro e literal
  unfold rewriteOidCast at literal
  split at literal
  · split_ifs at literal <;> cases literal
  · exact literal

theorem dropRedundantCasts_addsNoLiteral : AddsNoLiteral dropRedundantOidAndRegclassCasts := by
  refine dropRedundantOidAndRegclassCasts_rewrites.addsNoLiteral fun kind inner t on => ?_
  have dropped : dropRedundantOidAndRegclassCasts (.cast kind inner t) = inner := if_pos on
  rw [dropped]
  cases literal : isStringLiteral inner with
  | false => rfl
  | true =>
    rw [drops, literal] at on
    simp at on

theorem rewriteArrayAggVarcharCast_addsNoLiteral : AddsNoLiteral rewriteArrayAggVarcharCast :=
  rewriteArrayAggVarcharCast_rewrites.addsNoLiteral fun kind inner t on => by
    rw [rewriteArrayAggVarcharCast, if_pos on]
    rfl

/-! ### The types that are left to no pass -/

theorem isBareKeyword_eq (keyword : String) (name : ObjectName) :
    isBareKeyword keyword (.named name []) = isKeyword keyword (.named name []) := by
  unfold isBareKeyword isKeyword
  split <;> split <;> simp_all

theorem unplannable_name {typeName : String} (isOne : typeName ∈ catalogOnlyNames)
    (names : namesCustomType typeName dataType = true) : unplannable dataType = true := by
  have some_ : catalogOnlyNames.any (namesCustomType · dataType) = true :=
    List.any_eq_true.mpr ⟨typeName, isOne, names⟩
  rw [unplannable, some_]
  rfl

theorem unplannable_regclass (names : isKeyword "regclass" dataType = true) :
    unplannable dataType = true := by
  simp [unplannable, names]

theorem unplannable_qualified (named : isQualifiedAlias dataType = true) :
    unplannable dataType = true := by
  simp [unplannable, named]

theorem unplannable_domain
    (domain : (isInformationSchemaDomain dataType || isUnboundedVarchar dataType) = true) :
    unplannable dataType = true := by
  rcases Bool.or_eq_true_iff.mp domain with one | one <;> simp [unplannable, one]

theorem unplannable_nameArray (names : isNameArray dataType = true) :
    unplannable dataType = true := by
  simp [unplannable, names]

theorem unplannable_oidArray (oids : isOidArray dataType = true) : unplannable dataType = true := by
  simp [unplannable, oids]

/-- The type `regclass` has a keyword, so no custom name. -/
theorem customType_regclass (names : isKeyword "regclass" dataType = true) :
    customType dataType = none := by
  unfold isKeyword at names
  split at names
  · next value modifiers =>
    have same : isKeywordType value = true := by
      refine List.any_eq_true.mpr ⟨"regclass", by decide, ?_⟩
      rw [eqIgnoreAsciiCase, decide_eq_true_eq] at names ⊢
      exact names.symm
    exact if_pos same
  · cases names

/-- A name cast to `regclass` is looked up. -/
theorem nameLookedUp_regclass {inner : Expr} {t : Sql.DataType}
    (literal : isStringLiteral inner = true)
    (names : isKeyword "regclass" t = true) : (nameLookedUp inner t).isSome := by
  have other : isUnqualifiedType "oid" t = false := by
    rw [isUnqualifiedType, customType_regclass names]
  have regclass : isRegclassType t = true := by
    rw [isRegclassType, names]
    rfl
  rw [nameLookedUp, other, if_neg (by decide), if_pos regclass]
  cases inner with
  | value v =>
    cases v with
    | singleQuotedString s => rfl
    | _ => cases literal
  | _ => cases literal

/-- What a pass does away with, of the casts that are not kept out before it. -/
theorem freeOf_narrowed {fires : Expr → Sql.DataType → Bool} {bad' : Bool × Sql.DataType → Prop}
    (rewrites : RewritesCasts f fires) (literals : AddsNoLiteral f)
    (unplanned : ∀ c, bad' c → unplannable c.2 = true)
    (fire : ∀ inner t, bad' (isStringLiteral inner, t) → fires inner t = true ∨
      isStringLiteral inner = true ∧ bad (true, t))
    {s : Statement} (free : FreeOf bad s) : FreeOf bad' (s.replaced f) := by
  refine Statement.visited_replaced (P := fun e => ∀ c, castShape e = some c → ¬ bad c)
    (fun e held inside y found => ?_) s free
  rcases rewrites.result (e.rebuilt f) with ⟨same, off⟩ | ⟨kind, inner, t, is, fired⟩
  · rw [same, Expr.visited_eq] at found
    rcases List.mem_cons.mp found with rfl | within
    · intro c shape isBad
      cases e with
      | cast kind inner t =>
        obtain rfl := Option.some.inj shape
        rcases fire _ t isBad with on | ⟨literal, before⟩
        · rw [off _ _ t rfl] at on
          cases on
        · rw [Expr.replaced_eq] at literal
          have was := (isStringLiteral_rebuilt f inner).symm.trans (literals _ literal)
          exact held (true, t) (by rw [castShape, was]) before
      | _ => cases shape
    · exact inside y within
  · rw [is] at found
    rcases rewrites.made kind inner t fired y found with within | planned
    · refine inside y ?_
      rw [is]
      exact within
    · intro c shape isBad
      have never := unplanned c isBad
      rw [known_plannable (planned c shape)] at never
      cases never

end PgCatalog.Replace
