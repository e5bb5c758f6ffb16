import PgCatalog.Server.SetStatement

/-! What classification promises of a SET and what application does with it: they agree
unless the variable is quoted in a spelling it is not stored under. -/
namespace PgCatalog.Server

open Library Sql

namespace ClientOpts

/-- The setting of a key, read as `SHOW` does. -/
def get (opts : ClientOpts) (key : String) : Option String := opts.entries.lookup key

/-- The settings but for one key are as before, and that one is the value, where it is a
setting that has one. -/
structure Stored (opts opts' : ClientOpts) (key value : String) : Prop where
  here : key = "extra_float_digits" ∨ opts'.get key = some value
  elsewhere : ∀ other, other ≠ key → opts'.get other = opts.get other

variable {opts opts' : ClientOpts} {key value : String}

theorem set_sessionUser (set : opts.set key value = .ok opts') :
    opts'.sessionUser = opts.sessionUser := by
  unfold ClientOpts.set at set
  split at set <;> cases set <;> rfl

/-- A key that a client may set is stored, and nothing else changes. -/
theorem set_settable (settable : key ∈ WIRE_SETTABLE_SESSION_VARIABLES) :
    ∃ opts', opts.set key value = .ok opts' ∧ opts.Stored opts' key value := by
  simp only [WIRE_SETTABLE_SESSION_VARIABLES, List.mem_cons, List.not_mem_nil, or_false] at settable
  obtain rfl | rfl | rfl | rfl | rfl := settable
  · refine ⟨_, rfl, .inr rfl, fun other ne => ?_⟩
    simp only [get, entries, List.lookup_cons, beq_false_of_ne ne]
  · refine ⟨_, rfl, .inr rfl, fun other ne => ?_⟩
    simp only [get, entries, List.lookup_cons, beq_false_of_ne ne]
  · refine ⟨_, rfl, .inr rfl, fun other ne => ?_⟩
    simp only [get, entries, List.lookup_cons, beq_false_of_ne ne]
  · refine ⟨_, rfl, .inr rfl, fun other ne => ?_⟩
    simp only [get, entries, List.lookup_cons, beq_false_of_ne ne]
  · exact ⟨_, rfl, .inl rfl, fun _ _ => rfl⟩

theorem set_unsettable (unsettable : key ∉ WIRE_SETTABLE_SESSION_VARIABLES) :
    opts.set key value = .error (.configuration s!"unknown key {key}") := by
  simp only [WIRE_SETTABLE_SESSION_VARIABLES, List.mem_cons, List.not_mem_nil, or_false,
    not_or] at unsettable
  obtain ⟨h₁, h₂, h₃, h₄, h₅⟩ := unsettable
  unfold ClientOpts.set
  split
  · exact absurd rfl h₁
  · exact absurd rfl h₂
  · exact absurd rfl h₃
  · exact absurd rfl h₄
  · exact absurd rfl h₅
  · rfl

end ClientOpts

theorem settable_lower {key : String} (settable : key ∈ WIRE_SETTABLE_SESSION_VARIABLES) :
    key.toLower = key := by
  have all : ∀ key ∈ WIRE_SETTABLE_SESSION_VARIABLES, key.toLower = key := by decide +kernel
  exact all key settable

/-- The key a SET addresses, in whatever case and quotes its variable is written. -/
def canonicalKey : SetStatement → Option String
  | .singleAssignment _ variable_ _ => (bareName variable_).map (·.value.toLower)
  | .setTimeZone _ _ => some "timezone"
  | .other _ => none

/-- The key a SET is stored under. -/
def storedKey : SetStatement → Option String
  | .singleAssignment _ variable_ _ => bareSessionVariableName variable_
  | .setTimeZone _ _ => some "timezone"
  | .other _ => none

section
variable {display : Expr → String} {boundScalars : Option (List ScalarValue)}

theorem setAssignment_stored (set : SetStatement) :
    setAssignment display set boundScalars =
      match storedKey set with
      | none => .ok none
      | some key => (storedValue display key set.exprs boundScalars).map fun value =>
          some (key, value) := by
  cases set with
  | setTimeZone isLocal value =>
    unfold setAssignment storedKey SetStatement.exprs storedValue
    dsimp only
    by_cases default : setValueExpressionIsDefault value = true
    · rw [default]
      rfl
    · rw [Bool.not_eq_true] at default
      rw [default]
      cases read : setValueExpressionAsText display boundScalars value with
      | error e =>
        simp [read]
        rfl
      | ok text =>
        simp [read]
        rfl
  | singleAssignment scope variable_ values =>
    unfold setAssignment storedKey SetStatement.exprs
    dsimp only
    cases bareSessionVariableName variable_ with
    | none => rfl
    | some key =>
      dsimp only
      cases storedValue display key values boundScalars <;> rfl
  | other exprs => rfl

/-- Whether a value can be read does not depend on the key, but for the one that DEFAULT
has no value for. -/
theorem storedValue_error {key : String} {values : List Expr} {e : DataFusionError}
    (settable : key ∈ WIRE_SETTABLE_SESSION_VARIABLES)
    (unread : storedValue display key values boundScalars = .error e) (other : String) :
    storedValue display other values boundScalars = .error e := by
  cases values with
  | nil => exact unread
  | cons first rest =>
    unfold storedValue at unread ⊢
    dsimp only at unread ⊢
    by_cases default : (rest.isEmpty && setValueExpressionIsDefault first) = true
    · rw [if_pos default] at unread
      have present : ∃ value, sessionVariableDefaultValue key = some value := by
        simp only [WIRE_SETTABLE_SESSION_VARIABLES, List.mem_cons, List.not_mem_nil,
          or_false] at settable
        obtain rfl | rfl | rfl | rfl | rfl := settable <;> exact ⟨_, rfl⟩
      obtain ⟨value, present⟩ := present
      rw [present] at unread
      cases unread
    · rw [if_neg default] at unread ⊢
      exact unread

/-- What is to be applied is a SET of a variable under a key that a client may set. -/
theorem applied_settable {parsed : Option (List Statement)}
    (applied : classifySetStatement parsed = .applyToSession) :
    ∃ set key, parsed = some [.set set] ∧ canonicalKey set = some key ∧
      key ∈ WIRE_SETTABLE_SESSION_VARIABLES := by
  unfold classifySetStatement at applied
  split at applied
  · exact ⟨_, "timezone", rfl, rfl, by decide⟩
  · rename_i scope variable_ values
    split at applied
    · cases applied
    · rename_i settable
      rw [Bool.not_eq_true, Bool.not_eq_false'] at settable
      obtain ⟨name, named, listed⟩ := (Option.any_eq_true _ _).mp settable
      obtain ⟨known, member, same⟩ := List.any_eq_true.mp listed
      refine ⟨_, name.value.toLower, rfl, congrArg (Option.map _) named, ?_⟩
      rw [of_decide_eq_true same, settable_lower member]
      exact member
  · cases applied

/-- A SET stored under a settable key is stored under the one it addresses. -/
theorem canonical_of_stored {set : SetStatement} {key : String}
    (stored : storedKey set = some key) (settable : key ∈ WIRE_SETTABLE_SESSION_VARIABLES) :
    canonicalKey set = some key := by
  cases set with
  | setTimeZone isLocal value => exact stored
  | other exprs => cases stored
  | singleAssignment scope variable_ values =>
    unfold storedKey bareSessionVariableName at stored
    obtain ⟨name, named, rfl⟩ := Option.map_eq_some_iff.mp stored
    have lower := settable_lower settable
    refine (congrArg (Option.map _) named).trans (congrArg some ?_)
    unfold Ident.folded at lower ⊢
    split
    · rename_i quoted
      rwa [if_pos quoted] at lower
    · rfl

end

section
variable (display : Expr → String)

/-- Application does what classification promises. -/
def Agrees (parsed : Option (List Statement)) (boundScalars : Option (List ScalarValue))
    (session : Option ClientOpts) : Prop :=
  let applied := applySessionSetStatement display parsed boundScalars session
  match classifySetStatement parsed with
  | .notASessionSet => applied = (.ok none, session)
  | .acknowledgeWithoutApplying => applied = (.ok (some handled), session)
  | .applyToSession => ∃ set key, parsed = some [.set set] ∧ canonicalKey set = some key ∧
    ((∃ opts opts' value, session = some opts ∧
        storedValue display key set.exprs boundScalars = .ok value ∧
        applied = (.ok (some handled), some opts') ∧ opts.Stored opts' key value) ∨
      ∃ e, storedValue display key set.exprs boundScalars = .error e ∧
        applied = (.error e, session))

/-- A SET that is to be applied is stored under the key it addresses, in a session with
settings, or its value cannot be read. -/
def Applicable (parsed : Option (List Statement)) (boundScalars : Option (List ScalarValue))
    (session : Option ClientOpts) : Prop :=
  ∀ set key, parsed = some [.set set] → canonicalKey set = some key →
    classifySetStatement parsed = .applyToSession →
    (session.isSome ∧ storedKey set = some key) ∨
      ∃ e, storedValue display key set.exprs boundScalars = .error e

/-- The settings after a sequence of statements with their parameters. -/
def runSets (session : Option ClientOpts) :
    List (Option (List Statement) × Option (List ScalarValue)) → Option ClientOpts
  | [] => session
  | (parsed, boundScalars) :: rest =>
    runSets (applySessionSetStatement display parsed boundScalars session).2 rest

variable {display}

/-- What a SET to be applied comes to, by the key it is stored under. -/
theorem applied_eq {set : SetStatement} {boundScalars : Option (List ScalarValue)}
    {session : Option ClientOpts}
    (applied : classifySetStatement (some [.set set]) = .applyToSession) :
    applySessionSetStatement display (some [.set set]) boundScalars session =
      match storedKey set with
      | none => (.ok none, session)
      | some key =>
        match storedValue display key set.exprs boundScalars with
        | .error e => (.error e, session)
        | .ok value =>
          match storeSessionVariable session key value with
          | .error e => (.error e, session)
          | .ok opts => (.ok (some handled), some opts) := by
  unfold applySessionSetStatement
  rw [applied]
  dsimp only
  rw [setAssignment_stored]
  cases storedKey set with
  | none => rfl
  | some key =>
    dsimp only
    cases storedValue display key set.exprs boundScalars <;> rfl

theorem agrees_iff (parsed : Option (List Statement)) (boundScalars : Option (List ScalarValue))
    (session : Option ClientOpts) :
    Agrees display parsed boundScalars session ↔
      Applicable display parsed boundScalars session := by
  unfold Agrees
  dsimp only
  cases disposition : classifySetStatement parsed with
  | notASessionSet =>
    have same : applySessionSetStatement display parsed boundScalars session =
        (.ok none, session) := by
      unfold applySessionSetStatement
      rw [disposition]
    refine iff_of_true same fun _ _ _ _ applied => ?_
    rw [disposition] at applied
    cases applied
  | acknowledgeWithoutApplying =>
    have same : applySessionSetStatement display parsed boundScalars session =
        (.ok (some handled), session) := by
      unfold applySessionSetStatement
      rw [disposition]
    refine iff_of_true same fun _ _ _ _ applied => ?_
    rw [disposition] at applied
    cases applied
  | applyToSession =>
    obtain ⟨set, key, rfl, canonical, settable⟩ := applied_settable disposition
    dsimp only
    rw [applied_eq disposition]
    constructor
    · rintro ⟨set', key', same, canonical', outcome⟩ set'' key'' same'' canonical'' _
      obtain rfl : set = set' := by injection same with h; injection h with h; injection h
      obtain rfl : set = set'' := by injection same'' with h; injection h with h; injection h
      obtain rfl := Option.some.inj (canonical.symm.trans canonical')
      obtain rfl := Option.some.inj (canonical.symm.trans canonical'')
      obtain ⟨opts, opts', value, rfl, _, result, _⟩ | ⟨e, unread, _⟩ := outcome
      · left
        refine ⟨rfl, ?_⟩
        cases stored : storedKey set with
        | none =>
          rw [stored] at result
          cases result
        | some spelled =>
          rw [stored] at result
          dsimp only at result
          by_cases listed : spelled ∈ WIRE_SETTABLE_SESSION_VARIABLES
          · rw [← canonical, canonical_of_stored stored listed]
          · cases read : storedValue display spelled set.exprs boundScalars with
            | error e =>
              rw [read] at result
              cases result
            | ok value =>
              rw [read] at result
              dsimp only [storeSessionVariable] at result
              rw [ClientOpts.set_unsettable listed] at result
              cases result
      · exact .inr ⟨e, unread⟩
    · intro applicable
      refine ⟨set, key, rfl, canonical, ?_⟩
      obtain ⟨present, stored⟩ | ⟨e, unread⟩ := applicable set key rfl canonical disposition
      · rw [stored]
        dsimp only
        obtain ⟨opts, rfl⟩ := Option.isSome_iff_exists.mp present
        cases read : storedValue display key set.exprs boundScalars with
        | error e => exact .inr ⟨e, rfl, rfl⟩
        | ok value =>
          obtain ⟨opts', set_, frame⟩ := @ClientOpts.set_settable opts key value settable
          refine .inl ⟨opts, opts', value, rfl, rfl, ?_, frame⟩
          dsimp only [storeSessionVariable]
          rw [set_]
      · refine .inr ⟨e, unread, ?_⟩
        obtain ⟨spelled, stored⟩ : ∃ spelled, storedKey set = some spelled := by
          cases set with
          | setTimeZone _ _ => exact ⟨_, rfl⟩
          | singleAssignment _ variable_ _ =>
            obtain ⟨name, named, _⟩ := Option.map_eq_some_iff.mp canonical
            exact ⟨name.folded, congrArg (Option.map _) named⟩
          | other _ => cases canonical
        rw [stored]
        dsimp only
        rw [storedValue_error settable unread spelled]

/-- A statement leaves the role of the connection alone. -/
theorem apply_sessionUser (parsed : Option (List Statement))
    (boundScalars : Option (List ScalarValue)) (session : Option ClientOpts) :
    (applySessionSetStatement display parsed boundScalars session).2.map (·.sessionUser) =
      session.map (·.sessionUser) := by
  unfold applySessionSetStatement
  split
  · rfl
  · rfl
  · split
    · rename_i set
      split
      · rfl
      · rfl
      · rename_i key value _
        cases stored : storeSessionVariable session key value with
        | error e => rfl
        | ok opts' =>
          cases session with
          | none => cases stored
          | some opts => exact congrArg some (ClientOpts.set_sessionUser stored)
    · rfl

theorem runSets_sessionUser
    (statements : List (Option (List Statement) × Option (List ScalarValue)))
    (session : Option ClientOpts) :
    (runSets display session statements).map (·.sessionUser) = session.map (·.sessionUser) := by
  induction statements generalizing session with
  | nil => rfl
  | cons statement rest ih =>
    obtain ⟨parsed, boundScalars⟩ := statement
    rw [runSets, ih, apply_sessionUser]

/-- Classification and application of SET agree on a text exactly if it is applicable, and
no sequence of texts changes the role. -/
theorem set_classification_iff (display : Expr → String) :
    (∀ parsed boundScalars session, Agrees display parsed boundScalars session ↔
      Applicable display parsed boundScalars session) ∧
    ∀ statements session, (runSets display session statements).map (·.sessionUser) =
      session.map (·.sessionUser) :=
  ⟨agrees_iff, runSets_sessionUser⟩

end

/-- `SET "Search_Path" = 'public'`. -/
def setQuotedSearchPath : SetStatement :=
  .singleAssignment none [.identifier ⟨"Search_Path", some '"'⟩]
    [.value (.singleQuotedString "public")]

/-- The variable is classified as one the session keeps, and storing it fails for its key. -/
theorem quoted_search_path_unknown :
    ¬Agrees (fun _ => "") (some [.set setQuotedSearchPath]) none (some .initial) := by
  intro agrees
  have folded : "Search_Path".toLower = "search_path" := by decide +kernel
  have member : "search_path" ∈ WIRE_SETTABLE_SESSION_VARIABLES := by decide
  have named : eqIgnoreAsciiCase "Search_Path" "search_path" = true :=
    decide_eq_true (folded.trans (settable_lower member).symm)
  have settable : setVariableIsWireSettable [.identifier ⟨"Search_Path", some '"'⟩] = true :=
    (Option.any_eq_true _ _).mpr
      ⟨_, rfl, List.any_eq_true.mpr ⟨"search_path", member, named⟩⟩
  have applied : classifySetStatement (some [.set setQuotedSearchPath]) = .applyToSession := by
    unfold classifySetStatement setQuotedSearchPath
    dsimp only
    rw [settable]
    rfl
  have canonical : canonicalKey setQuotedSearchPath = some "search_path" :=
    congrArg some folded
  have stored : storedKey setQuotedSearchPath = some "Search_Path" := rfl
  have read : ∃ value, storedValue (fun _ => "") "search_path" setQuotedSearchPath.exprs none =
      .ok value := ⟨_, rfl⟩
  obtain ⟨_, spelled⟩ | ⟨e, unread⟩ := (agrees_iff _ _ _).mp agrees _ _ rfl canonical applied
  · rw [stored] at spelled
    exact absurd (Option.some.inj spelled) (by decide)
  · obtain ⟨value, read⟩ := read
    rw [read] at unread
    cases unread

end PgCatalog.Server
