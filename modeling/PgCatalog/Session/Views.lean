import Mathlib.Logic.Function.Basic
import Mathlib.Data.List.Nodup
import PgCatalog.Registry.Registry
import PgCatalog.Library.Text

/-! The catalog views of a session: in which order they are created, what is recorded of
them, and how the record is replayed once base tables have other providers. -/
namespace PgCatalog.Session

open Library

/-- How an error is printed. -/
def displayError : DataFusionError → String
  | .execution message => s!"Execution error: {message}"
  | .arrowError message => s!"Arrow error: {message}"
  | .plan message => s!"Error during planning: {message}"
  | .configuration message => s!"Invalid or Unsupported configuration: {message}"

structure ViewToRegister where
  catalog : String
  schema : String
  name : String
  sql : String
  deriving DecidableEq

def quoteIdentifier (ident : String) : String :=
  let escaped := ident.toList.flatMap fun c => if c = '"' then ['"', '"'] else [c]
  s!"\"{String.ofList escaped}\""

def formatFullyQualifiedName (catalog schema table : String) : String :=
  s!"{quoteIdentifier catalog}.{quoteIdentifier schema}.{quoteIdentifier table}"

def ViewToRegister.qualified (view : ViewToRegister) : String :=
  formatFullyQualifiedName view.catalog view.schema view.name

/-- `CREATE OR REPLACE VIEW <qualified> AS <select>`. -/
structure CreateView where
  qualified : String
  select : String
  deriving DecidableEq

/-- A recorded statement, and the default schema its body is planned under. -/
structure RegisteredViewStatement where
  qualifiedName : String
  bodyResolutionSchema : String
  createSql : CreateView
  deriving DecidableEq

/-- A base table in a plan, with the provider it was bound to. -/
structure Scan (P : Type) where
  table : String
  provider : P
  deriving DecidableEq

structure SessionState (P : Type) where
  defaultSchema : String
  providers : String → Option P
  /-- A view is the plan it was created with. -/
  views : String → Option (List (Scan P))
  /-- The record of the session's view statements. -/
  statements : List RegisteredViewStatement
  /-- The view statements executed so far. -/
  executed : List CreateView

/-- Planning, as far as views go. -/
structure Planner where
  /-- The relations a body names under a default schema, qualified. -/
  references : String → String → List String
  /-- Whatever else keeps a statement from being planned or executed. -/
  refuses : CreateView → Option DataFusionError
  /-- The body served in place of the declared one. -/
  simplifiedViewBody : String → String → Option String
  /-- The passes over a body before it is planned. -/
  rewriteSelect : String → DFResult String

namespace SessionState
variable {P : Type} (s : SessionState P)

/-- What a relation contributes to the plan of a body that names it. -/
def planOf (name : String) : Option (List (Scan P)) :=
  match s.views name with
  | some plan => some plan
  | none => (s.providers name).map fun provider => [⟨name, provider⟩]

/-- A plan has the plans of the views it names in it. -/
def inlined (names : List String) : DFResult (List (Scan P)) :=
  match names.find? fun name => (s.planOf name).isNone with
  | some missing => .error (.plan s!"table '{missing}' not found")
  | none => .ok (names.flatMap fun name => (s.planOf name).getD [])

/-- `ctx.sql(create_sql).await?.collect().await?`: a statement that fails changes nothing. -/
def createView (planner : Planner) (create : CreateView) : SessionState P × DFResult Unit :=
  let s := { s with executed := s.executed ++ [create] }
  match planner.refuses create with
  | some error => (s, .error error)
  | none =>
    match s.inlined (planner.references s.defaultSchema create.select) with
    | .error error => (s, .error error)
    | .ok plan =>
      ({ s with views := Function.update s.views create.qualified (some plan) }, .ok ())

end SessionState

/-- Without blanks at the ends and the semicolons after the statement. -/
def normalizeViewSql (sql : String) : String :=
  let chars := (trim sql).toList.reverse.dropWhile (· = ';')
  trim (String.ofList chars.reverse)

section
variable {P : Type} (planner : Planner)

def tryCreateView (s : SessionState P) (view : ViewToRegister) (bodyResolutionSchema : String) :
    SessionState P × DFResult Unit :=
  let qualified := view.qualified
  let definition := (planner.simplifiedViewBody view.schema view.name).getD
    (normalizeViewSql view.sql)
  if definition = "" then (s, .error (.execution s!"view_sql for {qualified} is empty"))
  else
    match planner.rewriteSelect definition with
    | .error error => (s, .error error)
    | .ok select =>
      let create : CreateView := ⟨qualified, select⟩
      match s.createView planner create with
      | (s, .error error) => (s, .error error)
      | (s, .ok ()) =>
        ({ s with statements := s.statements ++ [⟨qualified, bodyResolutionSchema, create⟩] },
          .ok ())

inductive ViewOrder where
  | precomputed (keys : List String)
  | discover

def viewOrderKey (schema name : String) : String := s!"{schema}.{name}"

def ViewToRegister.key (view : ViewToRegister) : String := viewOrderKey view.schema view.name

/-- Where a key stands in an order; of a key that is there twice the last place counts. -/
def position (keys : List String) (key : String) : Option Nat :=
  (keys.zipIdx.reverse.find? (·.1 = key)).map (·.2)

/-- By place, those without one last, and then by key. -/
def triedBefore (order : ViewOrder) (a b : ViewToRegister) : Bool :=
  match order with
  | .discover => a.key ≤ b.key
  | .precomputed keys =>
    match position keys a.key, position keys b.key with
    | some i, some j => i < j || (i = j && a.key ≤ b.key)
    | some _, none => true
    | none, some _ => false
    | none, none => a.key ≤ b.key

def orderViews (order : ViewOrder) (views : List ViewToRegister) : List ViewToRegister :=
  views.mergeSort (triedBefore order)

/-- What one pass over the pending views has come to. -/
structure Pass (P : Type) where
  session : SessionState P
  created : List String
  stillFailing : List ViewToRegister
  lastError : Option (String × DataFusionError)

def VIEW_BODY_RESOLUTION_SCHEMA : String := "pg_catalog"

def Pass.attempt (pass : Pass P) (view : ViewToRegister) : Pass P :=
  match tryCreateView planner pass.session view VIEW_BODY_RESOLUTION_SCHEMA with
  | (s, .ok ()) => { pass with session := s, created := pass.created ++ [view.key] }
  | (s, .error error) =>
    { pass with
      session := s
      stillFailing := pass.stillFailing ++ [view]
      lastError := some (s!"{view.catalog}.{view.schema}.{view.name}", error) }

def createPass (s : SessionState P) (pending : List ViewToRegister) : Pass P :=
  pending.foldl (Pass.attempt planner) ⟨s, [], [], none⟩

def notPlanned (pass : Pass P) : DataFusionError :=
  let detail := match pass.lastError with
    | some (name, error) => s!"{name}: {displayError error}"
    | none => "no error recorded"
  let names := pass.stillFailing.map (·.key)
  let listed := ", ".intercalate names
  .execution (s!"{names.length} declared catalog view(s) could not be planned: " ++
    s!"[{listed}]. first error {detail}")

/-- A pass creates each view or keeps it. -/
theorem attempts_length (pending : List ViewToRegister) (pass : Pass P) :
    (pending.foldl (Pass.attempt planner) pass).created.length +
        (pending.foldl (Pass.attempt planner) pass).stillFailing.length =
      pass.created.length + pass.stillFailing.length + pending.length := by
  induction pending generalizing pass with
  | nil => rfl
  | cons view rest ih =>
    rw [List.foldl_cons, ih, List.length_cons]
    unfold Pass.attempt
    split
    · simp only [List.length_append, List.length_singleton]
      omega
    · simp only [List.length_append, List.length_singleton]
      omega

/-- Pass after pass over what is still pending, until one creates nothing. -/
def createLoop (s : SessionState P) (pending : List ViewToRegister) (createdOrder : List String) :
    SessionState P × DFResult (List String) :=
  let pass := createPass planner s pending
  if pass.created = [] then (pass.session, .error (notPlanned pass))
  else if pass.stillFailing = [] then (pass.session, .ok (createdOrder ++ pass.created))
  else createLoop pass.session pass.stillFailing (createdOrder ++ pass.created)
termination_by pending.length
decreasing_by
  rename_i some_ _
  have split_ := attempts_length planner pending ⟨s, [], [], none⟩
  have created := List.length_pos_iff.mpr some_
  change (createPass planner s pending).created.length +
    (createPass planner s pending).stillFailing.length = _ at split_
  simp only [List.length_nil] at split_
  change 0 < (createPass planner s pending).created.length at created
  change (createPass planner s pending).stillFailing.length < pending.length
  omega

def createRegisteredViews (s : SessionState P) (views : List ViewToRegister) (order : ViewOrder) :
    SessionState P × DFResult (List String) :=
  if views = [] then (s, .ok [])
  else
    let ready := { s with statements := [], defaultSchema := VIEW_BODY_RESOLUTION_SCHEMA }
    let (created, result) := createLoop planner ready (orderViews order views) []
    ({ created with defaultSchema := s.defaultSchema }, result)

/-- The statements that failed to be replayed, each with its view. -/
structure ReplanFailures where
  failures : List (String × DataFusionError)

/-- The one error a replay answers with, naming every view that failed. -/
def ReplanFailures.report (r : ReplanFailures) : DataFusionError :=
  .execution (s!"{r.failures.length} view(s) could not be re-planned against the current " ++
    "providers and still read the ones they replaced: " ++
    "; ".intercalate (r.failures.map fun failure => s!"{failure.1}: {displayError failure.2}"))

/-- Each statement once, in the order of the record, under its own default schema. -/
def replanStatements (s : SessionState P) :
    List RegisteredViewStatement → SessionState P × List (String × DataFusionError)
  | [] => (s, [])
  | statement :: rest =>
    let placed := { s with defaultSchema := statement.bodyResolutionSchema }
    match placed.createView planner statement.createSql with
    | (s, .ok ()) => replanStatements s rest
    | (s, .error error) =>
      let (s, later) := replanStatements s rest
      (s, (statement.qualifiedName, error) :: later)

def replanRegisteredViewsAgainstCurrentProviders (s : SessionState P) :
    SessionState P × Except ReplanFailures Unit :=
  if s.statements = [] then (s, .ok ())
  else
    let (replanned, failures) := replanStatements planner s s.statements
    let restored := { replanned with defaultSchema := s.defaultSchema }
    (restored, if failures = [] then .ok () else .error ⟨failures⟩)

end

end PgCatalog.Session
