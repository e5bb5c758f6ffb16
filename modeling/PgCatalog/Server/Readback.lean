import PgCatalog.Library.Fallible
import PgCatalog.Server.SessionVariables

/-! A session variable reads back what was last set, over runs of SET commands. -/
namespace PgCatalog.Server

open Library Sql Router UserFunctions

/-- The variables that are set and shown. -/
def REPORTED_VARIABLES : List String := ["application_name", "datestyle", "search_path", "timezone"]

def isLocal : SetStatement → Bool
  | .singleAssignment scope _ _ => scope = some .local
  | .setTimeZone isLocal _ => isLocal
  | .other _ => false

/-- Everything that reports a variable reports the value. -/
structure ReportedAs (opts : ClientOpts) (key value : String) : Prop where
  shown : ∀ name, name.toLower = key → showStatement opts name = some ⟨[key], [[value]]⟩
  listed : ∀ name, name.toLower = "all" →
    (showStatement opts name).map (fun all => all.rows.filter fun row => row.head? = some key) =
      some [[key, value, ""]]
  current : ∀ snapshot name missingOk, name.toLower = key →
    currentSetting (some opts) snapshot true [(some name, missingOk)] = .ok (.scalar (some value))

namespace Message

def command : Message → SetCommand
  | .query command => command
  | .describeStatement command => command
  | .describePortal command _ => command
  | .execute command _ => command

def boundScalars : Message → DFResult (Option (List ScalarValue))
  | .query _ => .ok none
  | .describeStatement _ => .ok none
  | .describePortal _ boundScalars => boundScalars
  | .execute _ boundScalars => boundScalars

/-- A simple query whose text begins with SET: what is not refused is tagged so. -/
def tagged : Message → Bool
  | .query command => Backend.startsWith (Backend.lowercase command.text) "set"
  | _ => false

/-- The SET is run as it is written, and neither as the router reads it nor not at all. -/
def runAsWritten (server : Backend) : Message → Bool
  | .query command => !server.isCatalogSet command.set && !Backend.readsUsers command.text
  | .execute command _ => !server.isCatalogSet command.set && !Backend.readsUsers command.text
  | _ => true

end Message

section
variable (server : Backend) (start : ClientOpts)

/-- The value a SET gives its variable, if it can be read: DEFAULT the one it started with. -/
def assignedValue (set : SetStatement) (boundScalars : DFResult (Option (List ScalarValue)))
    (key : String) : Option String :=
  match boundScalars, set.exprs with
  | .error _, _ => none
  | .ok _, [] => none
  | .ok scalars, first :: rest =>
    if rest.isEmpty && setValueExpressionIsDefault first then start.get key
    else ((first :: rest).mapM (setValueExpressionAsText server.display scalars)).toOption.map
      (", ".intercalate ·)

def repliesSet : DFResult Response → Bool
  | .ok (.execution tag) => tag = "SET"
  | _ => false

/-- What the variables were last set to, after one more message and its answer. -/
def acknowledge (expected : String → Option String) (m : Message) (reply : DFResult Response) :
    String → Option String :=
  if repliesSet reply && !isLocal m.command.set then
    match canonicalKey m.command.set with
    | some key => Function.update expected key
        (assignedValue server start m.command.set m.boundScalars key)
    | none => expected
  else expected

/-- What the variables were last set to, after messages with their answers. -/
def lastSet (expected : String → Option String) :
    List (Message × DFResult Response) → String → Option String
  | [] => expected
  | (m, reply) :: rest => lastSet (acknowledge server start expected m reply) rest

/-- Running the SET stores a variable. -/
def Stores (set : SetStatement) (boundScalars : DFResult (Option (List ScalarValue)))
    (key : String) : Prop :=
  classifySetStatement (some [.set set]) = .applyToSession ∧ storedKey set = some key ∧
    ∃ scalars value, boundScalars = .ok scalars ∧
      storedValue server.display key set.exprs scalars = .ok value

/-- A SET of a variable that is not the session's does not address a reported one as
`pg_catalog.<key>`. -/
def Undotted (set : SetStatement) : Prop :=
  ∀ key ∈ REPORTED_VARIABLES, classifySetStatement (some [.set set]) = .notASessionSet →
    (dottedName set).map String.toLower ≠ some ("pg_catalog." ++ key)

/-- A SET of a reported variable is tagged exactly if it is run, and restores with DEFAULT what
the connection started with. -/
structure Faithful (m : Message) : Prop where
  /-- It is not answered as a query of `users`. -/
  run : m.tagged = true → server.isCatalogSet m.command.set = false →
    m.runAsWritten server = false → isLocal m.command.set = false →
    ∀ key ∈ REPORTED_VARIABLES, canonicalKey m.command.set ≠ some key
  tagged : ∀ key ∈ REPORTED_VARIABLES, m.runAsWritten server = true →
    Stores server m.command.set m.boundScalars key → m.tagged = true
  restored : ∀ key ∈ REPORTED_VARIABLES, m.runAsWritten server = true →
    Stores server m.command.set m.boundScalars key →
    m.command.set.exprs.any setValueExpressionIsDefault = true →
    start.get key = ClientOpts.initial.get key
  undotted : Undotted m.command.set

/-- The settings are what the variables were last set to. -/
def Tracks (opts : ClientOpts) (expected : String → Option String) : Prop :=
  ∀ key ∈ REPORTED_VARIABLES, opts.get key = expected key

end

/-! ## What is shown -/

theorem reported_settable {key : String} (reported : key ∈ REPORTED_VARIABLES) :
    key ∈ WIRE_SETTABLE_SESSION_VARIABLES := by
  have all : ∀ key ∈ REPORTED_VARIABLES, key ∈ WIRE_SETTABLE_SESSION_VARIABLES := by decide
  exact all key reported

theorem reportedAs_get {opts : ClientOpts} {key : String} (reported : key ∈ REPORTED_VARIABLES) :
    ∃ value, opts.get key = some value ∧ ReportedAs opts key value := by
  simp only [REPORTED_VARIABLES, List.mem_cons, List.not_mem_nil, or_false] at reported
  obtain rfl | rfl | rfl | rfl := reported
  all_goals
    refine ⟨_, rfl, fun name spelled => ?_, fun name spelled => ?_,
      fun snapshot name missingOk spelled => ?_⟩
    · rw [showStatement, spelled]
      rfl
    · rw [showStatement, spelled]
      rfl
    · rw [currentSetting, List.mapM_cons, settingOfRow]
      dsimp only
      rw [spelled]
      rfl

theorem installed_get (server : Backend) (opts : ClientOpts) {key : String}
    (reported : key ∈ REPORTED_VARIABLES) :
    (server.installAuthenticatedSessionUser opts).get key = opts.get key := by
  unfold Backend.installAuthenticatedSessionUser
  cases server.user with
  | none => rfl
  | some user =>
    simp only [REPORTED_VARIABLES, List.mem_cons, List.not_mem_nil, or_false] at reported
    obtain rfl | rfl | rfl | rfl := reported <;> rfl

/-! ## What running a SET does -/

section
variable {server : Backend}

/-- A SET of a settable variable that is not LOCAL is one to apply. -/
theorem classify_apply {set : SetStatement} {key : String} (canonical : canonicalKey set = some key)
    (settable : key ∈ WIRE_SETTABLE_SESSION_VARIABLES) (session : isLocal set = false) :
    classifySetStatement (some [.set set]) = .applyToSession := by
  cases set with
  | other exprs => cases canonical
  | setTimeZone local_ value =>
    obtain rfl : local_ = false := session
    rfl
  | singleAssignment scope variable_ values =>
    obtain ⟨name, named, rfl⟩ := Option.map_eq_some_iff.mp canonical
    have known : setVariableIsWireSettable variable_ = true := by
      refine (Option.any_eq_true _ _).mpr ⟨name, named, List.any_eq_true.mpr
        ⟨_, settable, decide_eq_true ?_⟩⟩
      rw [settable_lower settable]
    have other : ¬scope = some .local := by simpa [isLocal] using session
    unfold classifySetStatement
    dsimp only
    rw [known, if_neg (by decide), if_neg other]

theorem apply_not_local {set : SetStatement}
    (applied : classifySetStatement (some [.set set]) = .applyToSession) : isLocal set = false := by
  cases set with
  | other exprs => rfl
  | setTimeZone local_ value =>
    cases local_ with
    | false => rfl
    | true => cases applied
  | singleAssignment scope variable_ values =>
    by_contra local_
    have localScope : scope = some .local := by simpa [isLocal] using local_
    unfold classifySetStatement at applied
    dsimp only at applied
    rw [if_pos localScope] at applied
    split at applied
    · cases applied
    · cases applied

theorem set_keeps_reported {opts after : ClientOpts} {key value other : String}
    (stored : opts.set key value = .ok after) (apart : other ≠ key) :
    after.get other = opts.get other := by
  by_cases settable : key ∈ WIRE_SETTABLE_SESSION_VARIABLES
  · obtain ⟨opts', same, frame⟩ := @ClientOpts.set_settable opts key value settable
    rw [stored] at same
    cases same
    exact frame.elsewhere other apart
  · rw [ClientOpts.set_unsettable settable] at stored
    cases stored

/-- The reported variables are the same. -/
def SameReported (opts after : ClientOpts) : Prop :=
  ∀ key ∈ REPORTED_VARIABLES, after.get key = opts.get key

/-- Running a SET stored a value under its key. -/
structure RunStored (server : Backend) (set : SetStatement)
    (boundScalars : DFResult (Option (List ScalarValue))) (opts : ClientOpts) (key value : String)
    (after : ClientOpts) : Prop where
  stores : Stores server set boundScalars key
  read : ∃ scalars, boundScalars = .ok scalars ∧
    storedValue server.display key set.exprs scalars = .ok value
  written : opts.set key value = .ok after
  ran : ∃ result, server.executeSql set boundScalars opts = (.ok result, after)

/-- What a SET comes to when its application to the session did. -/
def Backend.settled (set : SetStatement) (scalars : Option (List ScalarValue)) (opts : ClientOpts) :
    DFResult (Option QueryResult) × Option ClientOpts → DFResult QueryResult × ClientOpts
  | (.error e, session) => (.error e, session.getD opts)
  | (.ok (some result), session) => (.ok result, session.getD opts)
  | (.ok none, _) => server.planner.run set scalars opts

theorem executeSql_ok (set : SetStatement) (scalars : Option (List ScalarValue)) (opts : ClientOpts) :
    server.executeSql set (.ok scalars) opts = server.settled set scalars opts
      (applySessionSetStatement server.display (some [.set set]) scalars (some opts)) := rfl

/-- Running a SET stores its variable, or leaves those that are reported as they are; and one
that is to be applied then fails. -/
theorem executeSql_spec {set : SetStatement} (undotted : Undotted set)
    (boundScalars : DFResult (Option (List ScalarValue))) (opts : ClientOpts) :
    (∃ key value after, RunStored server set boundScalars opts key value after) ∨
    SameReported opts (server.executeSql set boundScalars opts).2 ∧
      (classifySetStatement (some [.set set]) = .applyToSession →
        ∃ e, (server.executeSql set boundScalars opts).1 = .error e) := by
  cases boundScalars with
  | error e => exact .inr ⟨fun _ _ => rfl, fun _ => ⟨e, rfl⟩⟩
  | ok scalars =>
    have outcome := @executeSql_ok server set scalars opts
    cases disposition : classifySetStatement (some [.set set]) with
    | applyToSession =>
      rw [applied_eq disposition] at outcome
      cases stored : storedKey set with
      | none =>
        obtain ⟨set', key, same, canonical, settable⟩ := applied_settable disposition
        obtain rfl : set = set' := by injection same with h; injection h with h; injection h
        cases set with
        | other exprs => cases canonical
        | setTimeZone local_ value => cases stored
        | singleAssignment scope variable_ values =>
          obtain ⟨name, named, -⟩ := Option.map_eq_some_iff.mp canonical
          simp [storedKey, bareSessionVariableName, named] at stored
      | some key =>
        rw [stored] at outcome
        dsimp only at outcome
        cases read : storedValue server.display key set.exprs scalars with
        | error e =>
          rw [read] at outcome
          rw [outcome]
          exact .inr ⟨fun _ _ => rfl, fun _ => ⟨e, rfl⟩⟩
        | ok value =>
          rw [read] at outcome
          dsimp only [storeSessionVariable] at outcome
          cases written : opts.set key value with
          | error e =>
            rw [written] at outcome
            rw [outcome]
            exact .inr ⟨fun _ _ => rfl, fun _ => ⟨e, rfl⟩⟩
          | ok after =>
            rw [written] at outcome
            exact .inl ⟨key, value, after, ⟨disposition, stored, scalars, value, rfl, read⟩,
              ⟨scalars, rfl, read⟩, written, handled, outcome⟩
    | acknowledgeWithoutApplying =>
      have same : applySessionSetStatement server.display (some [.set set]) scalars (some opts) =
          (.ok (some handled), some opts) := by
        unfold applySessionSetStatement
        rw [disposition]
      rw [same] at outcome
      rw [outcome]
      exact .inr ⟨fun _ _ => rfl, fun apply => by cases apply⟩
    | notASessionSet =>
      have same : applySessionSetStatement server.display (some [.set set]) scalars (some opts) =
          (.ok none, some opts) := by
        unfold applySessionSetStatement
        rw [disposition]
      rw [same] at outcome
      rw [outcome]
      refine .inr ⟨fun key reported => ?_, fun apply => by cases apply⟩
      obtain kept | ⟨other, value, dotted, stored⟩ := server.planner.kept set scalars opts
      · exact congrArg (fun opts => ClientOpts.get opts key) kept
      · refine set_keeps_reported stored fun named => ?_
        rw [← named] at dotted
        exact undotted key reported disposition dotted

/-! ## A SET that the router sends to the catalog has no value that can be read -/

/-- Nothing in the expression sends a statement to the catalog. -/
def Unrouted (ctx : SessionContext) (e : Expr) : Prop :=
  ∀ x ∈ e.visited, castsToCustomObjectIdentifier x = false ∧ callsCatalogFunction ctx x = false

theorem unrouted_value (ctx : SessionContext) (v : Sql.Value) : Unrouted ctx (.value v) := by
  intro x member
  rw [Expr.visited, List.mem_singleton] at member
  rw [member]
  exact ⟨rfl, rfl⟩

theorem unrouted_identifier (ctx : SessionContext) (ident : Ident) :
    Unrouted ctx (.identifier ident) := by
  intro x member
  rw [Expr.visited, List.mem_singleton] at member
  rw [member]
  exact ⟨rfl, rfl⟩

theorem unrouted_unaryOp {ctx : SessionContext} {operand : Expr} (op : UnaryOperator)
    (inner : Unrouted ctx operand) : Unrouted ctx (.unaryOp op operand) := by
  intro x member
  rw [Expr.visited] at member
  obtain rfl | later := List.mem_cons.mp member
  · exact ⟨rfl, rfl⟩
  · exact inner x later

theorem unrouted_of_read (ctx : SessionContext) {display : Expr → String}
    {scalars : Option (List ScalarValue)} {e : Expr} {text : String}
    (read : setValueExpressionAsText display scalars e = .ok text) : Unrouted ctx e := by
  fun_induction setValueExpressionAsText display scalars e generalizing text with
  | case1 => exact unrouted_value ctx _
  | case2 => exact unrouted_value ctx _
  | case3 => exact unrouted_value ctx _
  | case4 => exact unrouted_value ctx _
  | case5 => exact unrouted_value ctx _
  | case6 => cases read
  | case7 => exact unrouted_identifier ctx _
  | case8 operand ih =>
    cases inner : setValueExpressionAsText display scalars operand with
    | error e =>
      rw [inner] at read
      cases read
    | ok text => exact unrouted_unaryOp _ (ih inner)
  | case9 operand ih => exact unrouted_unaryOp _ (ih read)
  | case10 => cases read

theorem unrouted_of_stored (ctx : SessionContext) {display : Expr → String}
    {scalars : Option (List ScalarValue)} {key value : String} {values : List Expr}
    (stored : storedValue display key values scalars = .ok value) :
    ∀ e ∈ values, Unrouted ctx e := by
  cases values with
  | nil => cases stored
  | cons first rest =>
    unfold storedValue at stored
    dsimp only at stored
    split at stored
    · rename_i default
      rw [Bool.and_eq_true, List.isEmpty_iff] at default
      obtain ⟨rfl, word⟩ := default
      intro e member
      obtain rfl := List.mem_singleton.mp member
      cases e with
      | identifier ident => exact unrouted_identifier ctx ident
      | _ => cases word
    · cases texts : (first :: rest).mapM (setValueExpressionAsText display scalars) with
      | error e =>
        rw [texts] at stored
        cases stored
      | ok _ =>
        intro e member
        obtain ⟨text, read⟩ := mapM_ok_mem texts e member
        exact unrouted_of_read ctx read

theorem visitedList_unrouted {ctx : SessionContext} {values : List Expr}
    (each : ∀ e ∈ values, Unrouted ctx e) :
    ∀ x ∈ visitedList values,
      castsToCustomObjectIdentifier x = false ∧ callsCatalogFunction ctx x = false := by
  induction values with
  | nil =>
    intro x member
    rw [visitedList] at member
    cases member
  | cons e rest ih =>
    intro x member
    rw [visitedList, List.mem_append] at member
    obtain first | later := member
    · exact each e List.mem_cons_self x first
    · exact ih (fun other inside => each other (List.mem_cons_of_mem _ inside)) x later

/-- What is sent to the catalog has no value that can be stored. -/
theorem catalog_unread {set : SetStatement} (catalog : server.isCatalogSet set = true)
    {scalars : Option (List ScalarValue)} (key value : String) :
    storedValue server.display key (Backend.routable set).exprs scalars ≠ .ok value := by
  intro stored
  have plain := visitedList_unrouted (unrouted_of_stored server.ctx stored)
  have routed : statementHasCatalog server.ctx (.set (Backend.routable set)) = false := by
    have casts : statementCastsToAnObjectIdentifierType (.set (Backend.routable set)) = false :=
      List.any_eq_false.mpr fun x member => by simp [(plain x member).1]
    have calls : (Statement.set (Backend.routable set)).visited.any
        (callsCatalogFunction server.ctx) = false :=
      List.any_eq_false.mpr fun x member => by simp [(plain x member).2]
    unfold statementHasCatalog
    dsimp only
    rw [casts, calls]
    rfl
  rw [Backend.isCatalogSet, isCatalogQuery, List.any_cons, routed] at catalog
  cases catalog

section
variable (set : SetStatement)

theorem classify_routable : classifySetStatement (some [.set (Backend.routable set)]) =
    classifySetStatement (some [.set set]) := by
  cases set <;> rfl

theorem storedKey_routable : storedKey (Backend.routable set) = storedKey set := by
  cases set <;> rfl

theorem dottedName_routable : dottedName (Backend.routable set) = dottedName set := by
  cases set <;> rfl

end

/-! ## What a message does -/

/-- What the router sends to the catalog fails or stores nothing. -/
theorem catalog_keeps {set : SetStatement} (undotted : Undotted set)
    (catalog : server.isCatalogSet set = true)
    (boundScalars : DFResult (Option (List ScalarValue))) (opts : ClientOpts) :
    SameReported opts (server.executeSql (Backend.routable set) boundScalars opts).2 ∧
      (classifySetStatement (some [.set set]) = .applyToSession →
        ∃ e, (server.executeSql (Backend.routable set) boundScalars opts).1 = .error e) := by
  have undotted' : Undotted (Backend.routable set) := by
    unfold Undotted
    rw [classify_routable, dottedName_routable]
    exact undotted
  obtain ⟨key, value, _, ran⟩ | kept := @executeSql_spec server _ undotted' boundScalars opts
  · obtain ⟨scalars, -, read⟩ := ran.read
    exact absurd read (catalog_unread catalog key value)
  · rwa [classify_routable] at kept

section
variable {start opts after : ClientOpts} {expected : String → Option String} {m : Message}
  {reply : DFResult Response}

theorem initial_get {key value : String} (reported : key ∈ REPORTED_VARIABLES)
    (default : sessionVariableDefaultValue key = some value) :
    ClientOpts.initial.get key = some value := by
  simp only [REPORTED_VARIABLES, List.mem_cons, List.not_mem_nil, or_false] at reported
  obtain rfl | rfl | rfl | rfl := reported <;> exact default

/-- What is stored is the value the SET gives, where DEFAULT restores the start. -/
theorem assignedValue_stored {set : SetStatement} {scalars : Option (List ScalarValue)}
    {key value : String} (reported : key ∈ REPORTED_VARIABLES)
    (restored : set.exprs.any setValueExpressionIsDefault = true →
      start.get key = ClientOpts.initial.get key)
    (stored : storedValue server.display key set.exprs scalars = .ok value) :
    assignedValue server start set (.ok scalars) key = some value := by
  unfold assignedValue storedValue at *
  cases exprs : set.exprs with
  | nil =>
    rw [exprs] at stored
    cases stored
  | cons first rest =>
    rw [exprs] at stored restored
    dsimp only at stored ⊢
    split at stored
    · rename_i default
      rw [if_pos default]
      rw [Bool.and_eq_true] at default
      rw [restored (by rw [List.any_cons, default.2, Bool.true_or])]
      cases initial : sessionVariableDefaultValue key with
      | none =>
        rw [initial] at stored
        cases stored
      | some _ =>
        rw [initial] at stored
        obtain rfl := Except.ok.inj stored
        exact initial_get reported initial
    · rename_i given
      rw [if_neg given]
      cases texts : (first :: rest).mapM (setValueExpressionAsText server.display scalars) with
      | error e =>
        rw [texts] at stored
        cases stored
      | ok _ =>
        rw [texts] at stored
        exact congrArg some (Except.ok.inj stored)

theorem acknowledge_untagged (untagged : repliesSet reply = false) :
    acknowledge server start expected m reply = expected := by
  rw [acknowledge, untagged]
  rfl

/-- An acknowledgement is about the variable of the SET. -/
theorem acknowledge_elsewhere {key : String} (apart : canonicalKey m.command.set ≠ some key) :
    acknowledge server start expected m reply key = expected key := by
  unfold acknowledge
  split
  · cases canonical : canonicalKey m.command.set with
    | none => rfl
    | some other =>
      rw [canonical] at apart
      exact Function.update_of_ne (fun same => apart (congrArg some same.symm)) ..
  · rfl

theorem tracks_kept (tracks : Tracks opts expected) (same : SameReported opts after)
    (unset : repliesSet reply = true → isLocal m.command.set = false →
      ∀ key ∈ REPORTED_VARIABLES, canonicalKey m.command.set ≠ some key) :
    Tracks after (acknowledge server start expected m reply) := by
  intro key reported
  rw [same key reported, tracks key reported]
  by_cases settles : repliesSet reply = true ∧ isLocal m.command.set = false
  · exact (acknowledge_elsewhere (unset settles.1 settles.2 key reported)).symm
  · unfold acknowledge
    rw [if_neg]
    rw [Bool.and_eq_true, Bool.not_eq_true']
    exact settles

theorem tracks_stored (tracks : Tracks opts expected) {key value : String}
    (ran : RunStored server m.command.set m.boundScalars opts key value after)
    (told : key ∈ REPORTED_VARIABLES → repliesSet reply = true)
    (restored : key ∈ REPORTED_VARIABLES →
      m.command.set.exprs.any setValueExpressionIsDefault = true →
      start.get key = ClientOpts.initial.get key) :
    Tracks after (acknowledge server start expected m reply) := by
  obtain ⟨applied, stored, -⟩ := ran.stores
  obtain ⟨scalars, bound, read⟩ := ran.read
  have settable : key ∈ WIRE_SETTABLE_SESSION_VARIABLES := by
    by_contra unsettable
    have written := ran.written
    rw [ClientOpts.set_unsettable unsettable] at written
    cases written
  have canonical := canonical_of_stored stored settable
  intro other reported
  by_cases same : other = key
  · subst same
    obtain ⟨opts', again, frame⟩ := @ClientOpts.set_settable opts other value settable
    rw [ran.written] at again
    obtain rfl := Except.ok.inj again
    have here : after.get other = some value := by
      obtain digits | stored := frame.here
      · rw [digits] at reported
        exact absurd reported (by decide)
      · exact stored
    rw [here, acknowledge, told reported, apply_not_local applied, canonical, bound]
    rw [if_pos (by decide)]
    dsimp only
    rw [Function.update_self]
    exact (assignedValue_stored reported (restored reported) read).symm
  · rw [set_keeps_reported ran.written same, tracks other reported, acknowledge_elsewhere]
    rw [canonical]
    exact fun named => same (Option.some.inj named).symm

theorem tracks_installed (tracks : Tracks opts expected) :
    Tracks (server.installAuthenticatedSessionUser opts) expected := fun key reported => by
  rw [installed_get server opts reported, tracks key reported]

/-- A message that is not tagged runs its SET without storing a variable that is reported. -/
theorem untagged_keeps (faithful : Faithful server start m) (untagged : m.tagged = false)
    (runs : m.runAsWritten server = true) (opts : ClientOpts) :
    SameReported opts (server.executeSql m.command.set m.boundScalars opts).2 := by
  obtain ⟨key, value, after, ran⟩ | kept :=
    @executeSql_spec server _ faithful.undotted m.boundScalars opts
  · intro other reported
    obtain ⟨result, outcome⟩ := ran.ran
    rw [outcome]
    refine set_keeps_reported ran.written fun same => ?_
    rw [same] at reported
    have tagged := faithful.tagged key reported runs ran.stores
    rw [untagged] at tagged
    cases tagged
  · exact kept.1

theorem tracks_untagged (tracks : Tracks opts expected) (same : SameReported opts after)
    (untagged : repliesSet reply = false) :
    Tracks after (acknowledge server start expected m reply) := by
  rw [acknowledge_untagged untagged]
  exact fun key reported => (same key reported).trans (tracks key reported)

theorem simpleBuiltin_untagged {text : String} {response : Response}
    (builtin : Backend.simpleQueryBuiltinResponse text = some response) :
    repliesSet (.ok response) = false := by
  unfold Backend.simpleQueryBuiltinResponse at builtin
  repeat' split at builtin
  all_goals cases builtin
  all_goals rfl

theorem extendedBuiltin_untagged {text : String} {response : Response}
    (builtin : Backend.extendedQueryBuiltinResponse text = some response) :
    repliesSet (.ok response) = false := by
  unfold Backend.extendedQueryBuiltinResponse at builtin
  repeat' split at builtin
  all_goals cases builtin
  all_goals rfl

theorem builtinDescription_untagged {text : String} {response : Response}
    (builtin : Backend.builtinDescription text = some response) :
    repliesSet (.ok response) = false := by
  unfold Backend.builtinDescription at builtin
  repeat' split at builtin
  all_goals cases builtin
  all_goals rfl

theorem untagged_map {outcome : DFResult QueryResult} {respond : QueryResult → Response}
    (untagged : ∀ result, repliesSet (.ok (respond result)) = false) :
    repliesSet (outcome.map respond) = false := by
  cases outcome with
  | error e => rfl
  | ok result => exact untagged result

theorem describeStatement_tracks {command : SetCommand}
    (faithful : Faithful server start (.describeStatement command))
    (tracks : Tracks opts expected) :
    Tracks (server.doDescribeStatement command opts).2 (acknowledge server start expected
      (.describeStatement command) (server.doDescribeStatement command opts).1) := by
  unfold Backend.doDescribeStatement
  split
  · rename_i builtin
    exact tracks_untagged tracks (fun _ _ => rfl) (builtinDescription_untagged builtin)
  · exact tracks_untagged tracks (untagged_keeps faithful rfl rfl opts)
      (untagged_map fun _ => rfl)

theorem describePortal_tracks {command : SetCommand}
    {boundScalars : DFResult (Option (List ScalarValue))}
    (faithful : Faithful server start (.describePortal command boundScalars))
    (tracks : Tracks opts expected) :
    Tracks (server.doDescribePortal command boundScalars opts).2 (acknowledge server start expected
      (.describePortal command boundScalars)
      (server.doDescribePortal command boundScalars opts).1) := by
  unfold Backend.doDescribePortal
  split
  · rename_i builtin
    exact tracks_untagged tracks (fun _ _ => rfl) (builtinDescription_untagged builtin)
  · exact tracks_untagged tracks (untagged_keeps faithful rfl rfl opts)
      (untagged_map fun _ => rfl)

theorem execute_tracks {command : SetCommand}
    {boundScalars : DFResult (Option (List ScalarValue))}
    (faithful : Faithful server start (.execute command boundScalars))
    (tracks : Tracks opts expected) :
    Tracks (server.extendedDoQuery command boundScalars opts).2 (acknowledge server start expected
      (.execute command boundScalars) (server.extendedDoQuery command boundScalars opts).1) := by
  have installed := @tracks_installed server _ _ tracks
  have dispatched : SameReported (server.installAuthenticatedSessionUser opts)
      (server.dispatchQuery command boundScalars
        (server.installAuthenticatedSessionUser opts)).2 := by
    unfold Backend.dispatchQuery
    split
    · rename_i catalog
      exact (catalog_keeps faithful.undotted catalog boundScalars _).1
    · split
      · exact fun _ _ => rfl
      · rename_i routed users
        have runs : (Message.execute command boundScalars).runAsWritten server = true := by
          rw [Bool.not_eq_true] at routed users
          rw [Message.runAsWritten, routed, users]
          rfl
        exact untagged_keeps faithful rfl runs _
  unfold Backend.extendedDoQuery
  dsimp only
  split
  · rename_i builtin
    exact tracks_untagged installed (fun _ _ => rfl) (extendedBuiltin_untagged builtin)
  · exact tracks_untagged installed dispatched (untagged_map fun _ => rfl)

/-- What is run without being to apply sets no variable that is reported. -/
theorem unset_of_ok {set : SetStatement} {outcome : DFResult QueryResult}
    (fails : classifySetStatement (some [.set set]) = .applyToSession → ∃ e, outcome = .error e)
    {respond : QueryResult → Response} (ran : repliesSet (outcome.map respond) = true)
    (session : isLocal set = false) :
    ∀ key ∈ REPORTED_VARIABLES, canonicalKey set ≠ some key := by
  intro key reported canonical
  obtain ⟨e, failed⟩ := fails (classify_apply canonical (reported_settable reported) session)
  rw [failed] at ran
  cases ran

/-- A simple query is answered with the tag of SET exactly if it does not fail and its text
begins so. -/
theorem simple_tagged {command : SetCommand} {outcome : DFResult QueryResult}
    (told : repliesSet (outcome.map (Backend.simpleResponse command.text)) = true) :
    (Message.query command).tagged = true := by
  cases outcome with
  | error e => cases told
  | ok result =>
    by_contra untagged
    rw [Message.tagged] at untagged
    have answered : Backend.simpleResponse command.text result = .query result := if_neg untagged
    rw [Except.map, answered] at told
    cases told

theorem query_tracks {command : SetCommand} (faithful : Faithful server start (.query command))
    (tracks : Tracks opts expected) :
    Tracks (server.simpleDoQuery command opts).2 (acknowledge server start expected
      (.query command) (server.simpleDoQuery command opts).1) := by
  have installed := @tracks_installed server _ _ tracks
  unfold Backend.simpleDoQuery
  dsimp only
  split
  · rename_i builtin
    exact tracks_untagged installed (fun _ _ => rfl) (simpleBuiltin_untagged builtin)
  unfold Backend.dispatchQuery
  split
  · rename_i catalog
    have kept := catalog_keeps faithful.undotted catalog (.ok none)
      (server.installAuthenticatedSessionUser opts)
    exact tracks_kept installed kept.1 fun told session => unset_of_ok kept.2 told session
  · rename_i routed
    rw [Bool.not_eq_true] at routed
    split
    · rename_i users
      have idle : (Message.query command).runAsWritten server = false := by
        rw [Message.runAsWritten, users, Bool.not_true, Bool.and_false]
      refine tracks_kept installed (fun _ _ => rfl) fun told session => ?_
      have tagged := @simple_tagged command (.ok ([usersBatch], usersBatch.schema)) told
      exact faithful.run tagged routed idle session
    · rename_i users
      rw [Bool.not_eq_true] at users
      have runs : (Message.query command).runAsWritten server = true := by
        rw [Message.runAsWritten, routed, users]
        rfl
      have undotted : Undotted command.set := faithful.undotted
      obtain ⟨key, value, after, ran⟩ | kept :=
        @executeSql_spec server _ undotted (.ok none) (server.installAuthenticatedSessionUser opts)
      · obtain ⟨result, outcome⟩ := ran.ran
        rw [outcome]
        refine tracks_stored (m := .query command) installed ran (fun reported => ?_)
          fun reported => faithful.restored key reported runs ran.stores
        have tagged := faithful.tagged key reported runs ran.stores
        rw [Message.tagged] at tagged
        have answered : Backend.simpleResponse command.text result = .execution "SET" :=
          if_pos tagged
        rw [Except.map, answered]
        rfl
      · exact tracks_kept installed kept.1 fun told session => unset_of_ok kept.2 told session

theorem respond_tracks (faithful : Faithful server start m) (tracks : Tracks opts expected) :
    Tracks (server.respond opts m).2
      (acknowledge server start expected m (server.respond opts m).1) := by
  cases m with
  | query command => exact query_tracks faithful tracks
  | describeStatement command => exact describeStatement_tracks faithful tracks
  | describePortal command boundScalars => exact describePortal_tracks faithful tracks
  | execute command boundScalars => exact execute_tracks faithful tracks

end

/-- A run of faithful messages keeps the settings at what the variables were last set to. -/
theorem run_tracks {start opts : ClientOpts} {expected : String → Option String}
    {messages : List Message} (faithful : ∀ m ∈ messages, Faithful server start m)
    (tracks : Tracks opts expected) :
    Tracks (run server.respond opts messages) (lastSet server start expected
      (messages.zip (answers server.respond opts messages))) := by
  induction messages generalizing opts expected with
  | nil => exact tracks
  | cons m rest ih =>
    have next := respond_tracks (faithful m List.mem_cons_self) tracks
    exact ih (fun other member => faithful other (List.mem_cons_of_mem _ member)) next

end

/-- After a run of faithful messages each variable is reported as what it was last set to. -/
theorem reads_back (server : Backend) (start : ClientOpts) (messages : List Message)
    (faithful : ∀ m ∈ messages, Faithful server start m) :
    ∀ key ∈ REPORTED_VARIABLES, ∃ value,
      lastSet server start start.get (messages.zip (answers server.respond start messages)) key =
          some value ∧
        ReportedAs (run server.respond start messages) key value := by
  intro key reported
  have tracks : Tracks (run server.respond start messages) (lastSet server start start.get
      (messages.zip (answers server.respond start messages))) :=
    run_tracks faithful fun _ _ => rfl
  obtain ⟨value, held, shown⟩ := reportedAs_get reported
  exact ⟨value, (tracks key reported).symm.trans held, shown⟩

/-- A server with no functions of its own, whose planner changes nothing. -/
def plainServer : Backend where
  ctx := ⟨fun _ _ _ => false, fun _ => false, "datafusion", "public", none⟩
  display _ := ""
  planner := ⟨fun _ _ opts => (.ok handled, opts), fun _ _ _ => .inl rfl⟩
  user := none

/-- `SET application_name = '…'`. -/
def setApplicationName (text value : String) : SetCommand :=
  ⟨text, .singleAssignment none [.identifier ⟨"application_name", none⟩]
    [.value (.singleQuotedString value)]⟩

theorem setApplicationName_key (text value : String) :
    canonicalKey (setApplicationName text value).set = some "application_name" :=
  congrArg some (settable_lower (by decide))

theorem setApplicationName_uncatalogued (text value : String) :
    plainServer.isCatalogSet (setApplicationName text value).set = false := rfl

theorem toList_lowercase (text : String) :
    (Backend.lowercase text).toList = (trimmed isWhiteSpace text.toList).map Char.toLower := by
  rw [Backend.lowercase, toList_toLower, trim, String.toList_ofList]

/-- `SET application_name = 'psql'` reads back. -/
theorem psql_reads_back : ∃ value,
    lastSet plainServer .initial ClientOpts.initial.get
        ([Message.query (setApplicationName "SET application_name = 'psql'" "psql")].zip
          (answers plainServer.respond .initial
            [.query (setApplicationName "SET application_name = 'psql'" "psql")]))
        "application_name" = some value ∧
      ReportedAs (run plainServer.respond .initial
        [.query (setApplicationName "SET application_name = 'psql'" "psql")])
        "application_name" value := by
  refine reads_back plainServer .initial _ (fun m member => ?_) "application_name" (by decide)
  obtain rfl := List.mem_singleton.mp member
  have tagged : (Message.query (setApplicationName "SET application_name = 'psql'" "psql")).tagged =
      true := by
    rw [Message.tagged, Backend.startsWith, toList_lowercase]
    decide
  have users : Backend.readsUsers "SET application_name = 'psql'" = false := by
    rw [Backend.readsUsers, toList_toLower]
    decide
  refine ⟨fun _ _ idle => ?_, fun _ _ _ _ => tagged, fun _ _ _ _ default => ?_,
    fun _ _ kept => ?_⟩
  · rw [Message.runAsWritten, setApplicationName_uncatalogued] at idle
    rw [setApplicationName, users] at idle
    cases idle
  · cases default
  · have applied := classify_apply (setApplicationName_key "SET application_name = 'psql'" "psql")
      (by decide) rfl
    cases applied.symm.trans kept

/-- What begins with SET is not answered as anything else. -/
theorem simpleBuiltin_none {text : String} {rest : List Char}
    (begins : (Backend.lowercase text).toList = 's' :: 'e' :: 't' :: rest) :
    Backend.simpleQueryBuiltinResponse text = none := by
  have apart : ∀ start : String, start.toList.head? ≠ some 's' → start.toList ≠ [] →
      Backend.startsWith (Backend.lowercase text) start = false := by
    intro start other some_
    rw [Backend.startsWith, begins]
    cases chars : start.toList with
    | nil => exact absurd chars some_
    | cons c _ =>
      rw [chars] at other
      have differs : (c == 's') = false := beq_false_of_ne fun same => other (congrArg some same)
      rw [List.isPrefixOf_cons_cons, differs, Bool.false_and]
  have shown : Backend.lowercase text ≠ "show transaction isolation level" := by
    intro same
    rw [same] at begins
    exact absurd begins (by simp)
  have some_ : (Backend.lowercase text).isEmpty = false := by
    rw [Bool.eq_false_iff]
    intro empty
    rw [String.isEmpty_iff.mp empty] at begins
    cases begins
  unfold Backend.simpleQueryBuiltinResponse
  rw [apart "begin" (by decide) (by decide), apart "commit" (by decide) (by decide),
    apart "rollback" (by decide) (by decide), apart "discard all" (by decide) (by decide),
    if_neg shown, some_]
  rfl

/-- `SET application_name = 'x from users'` is answered as done, and nothing is set. -/
theorem from_users_unset : ¬∀ key ∈ REPORTED_VARIABLES, ∃ value,
    lastSet plainServer .initial ClientOpts.initial.get
        ([Message.query (setApplicationName "SET application_name = 'x from users'"
          "x from users")].zip (answers plainServer.respond .initial
            [.query (setApplicationName "SET application_name = 'x from users'" "x from users")]))
        key = some value ∧
      ReportedAs (run plainServer.respond .initial
        [.query (setApplicationName "SET application_name = 'x from users'" "x from users")])
        key value := by
  intro all
  have users : Backend.readsUsers "SET application_name = 'x from users'" = true := by
    rw [Backend.readsUsers, toList_toLower]
    decide
  have begins : (Backend.lowercase "SET application_name = 'x from users'").toList =
      's' :: 'e' :: 't' :: " application_name = 'x from users'".toList := by
    rw [toList_lowercase]
    decide +kernel
  have tagged : Backend.startsWith
      (Backend.lowercase "SET application_name = 'x from users'") "set" = true := by
    rw [Backend.startsWith, begins]
    rfl
  have answered : plainServer.respond .initial
      (.query (setApplicationName "SET application_name = 'x from users'" "x from users")) =
        (.ok (.execution "SET"), .initial) := by
    have built := simpleBuiltin_none begins
    have uncatalogued := setApplicationName_uncatalogued "SET application_name = 'x from users'"
      "x from users"
    rw [Backend.respond, Backend.simpleDoQuery]
    dsimp only
    rw [setApplicationName] at uncatalogued ⊢
    rw [built, Backend.dispatchQuery, uncatalogued, users]
    dsimp only
    rw [if_neg (by decide), if_pos rfl, Except.map, Backend.simpleResponse, if_pos tagged]
    rfl
  obtain ⟨value, last, reported⟩ := all "application_name" (by decide)
  rw [answers, answered] at last
  rw [run_cons, answered] at reported
  have set_ : value = "x from users" := by
    have key : canonicalKey (Message.query (setApplicationName
        "SET application_name = 'x from users'" "x from users")).command.set =
        some "application_name" := setApplicationName_key _ _
    have given : assignedValue plainServer .initial (setApplicationName
        "SET application_name = 'x from users'" "x from users").set (.ok none) "application_name" =
        some "x from users" := rfl
    rw [List.zip_cons_cons, lastSet, acknowledge, if_pos (by rfl), key] at last
    dsimp only at last
    rw [List.zip_nil_left, lastSet, Function.update_self] at last
    exact (Option.some.inj (given.symm.trans last)).symm
  have shown := reported.shown "application_name" (settable_lower (by decide))
  rw [showStatement, settable_lower (by decide), set_] at shown
  exact absurd shown (by decide)

end PgCatalog.Server
