import PgCatalog.Library.Retry
import PgCatalog.Session.Views

/-! `create_registered_views` over any way of trying a view: it finds an order whenever there
is one. -/
namespace PgCatalog.Session

open Library

/-- Trying to create a view under a default schema. -/
abbrev Attempt (P : Type) :=
  SessionState P → ViewToRegister → String → SessionState P × DFResult Unit

/-- Where the retry loop ends, after how many passes. -/
structure Looped (P : Type) where
  session : SessionState P
  passes : Nat
  result : DFResult (List String)

section
variable {P : Type} (attempt : Attempt P)

def Pass.attemptBy (pass : Pass P) (view : ViewToRegister) : Pass P :=
  match attempt pass.session view VIEW_BODY_RESOLUTION_SCHEMA with
  | (s, .ok ()) => { pass with session := s, created := pass.created ++ [view.key] }
  | (s, .error error) =>
    { pass with
      session := s
      stillFailing := pass.stillFailing ++ [view]
      lastError := some (s!"{view.catalog}.{view.schema}.{view.name}", error) }

def createPassBy (s : SessionState P) (pending : List ViewToRegister) : Pass P :=
  pending.foldl (Pass.attemptBy attempt) ⟨s, [], [], none⟩

theorem attemptsBy_length (pending : List ViewToRegister) (pass : Pass P) :
    (pending.foldl (Pass.attemptBy attempt) pass).created.length +
        (pending.foldl (Pass.attemptBy attempt) pass).stillFailing.length =
      pass.created.length + pass.stillFailing.length + pending.length := by
  induction pending generalizing pass with
  | nil => rfl
  | cons view rest ih =>
    rw [List.foldl_cons, ih, List.length_cons]
    unfold Pass.attemptBy
    split
    · simp only [List.length_append, List.length_singleton]
      omega
    · simp only [List.length_append, List.length_singleton]
      omega

/-- A pass that creates a view leaves fewer. -/
theorem createPassBy_shrinks {s : SessionState P} {pending : List ViewToRegister}
    (moved : (createPassBy attempt s pending).created ≠ []) :
    (createPassBy attempt s pending).stillFailing.length < pending.length := by
  have total := attemptsBy_length attempt pending ⟨s, [], [], none⟩
  have created := List.length_pos_iff.mpr moved
  unfold createPassBy at created ⊢
  simp only [List.length_nil] at total
  omega

def createLoopBy (s : SessionState P) (pending : List ViewToRegister) (passes : Nat)
    (createdOrder : List String) : Looped P :=
  let pass := createPassBy attempt s pending
  if pass.created = [] then ⟨pass.session, passes + 1, .error (notPlanned pass)⟩
  else if pass.stillFailing = [] then ⟨pass.session, passes + 1, .ok (createdOrder ++ pass.created)⟩
  else createLoopBy pass.session pass.stillFailing (passes + 1) (createdOrder ++ pass.created)
termination_by pending.length
decreasing_by exact createPassBy_shrinks attempt ‹_›

/-- `create_registered_views`, and how many passes it took. -/
def createRegisteredViewsBy (s : SessionState P) (views : List ViewToRegister)
    (order : ViewOrder) : Looped P :=
  if views = [] then ⟨s, 0, .ok []⟩
  else
    let ready := { s with statements := [], defaultSchema := VIEW_BODY_RESOLUTION_SCHEMA }
    let looped := createLoopBy attempt ready (orderViews order views) 0 []
    ⟨{ looped.session with defaultSchema := s.defaultSchema }, looped.passes, looped.result⟩

/-- With `try_create_view` it is the function of the source. -/
theorem createLoop_eq (planner : Planner) (s : SessionState P) (pending : List ViewToRegister)
    (passes : Nat) (createdOrder : List String) :
    createLoop planner s pending createdOrder =
      ((createLoopBy (tryCreateView planner) s pending passes createdOrder).session,
        (createLoopBy (tryCreateView planner) s pending passes createdOrder).result) := by
  induction s, pending, createdOrder using createLoop.induct planner generalizing passes with
  | case1 s pending createdOrder pass stuck =>
    rw [createLoop, createLoopBy, if_pos stuck]
    rw [if_pos (show (createPassBy (tryCreateView planner) s pending).created = [] from stuck)]
    rfl
  | case2 s pending createdOrder pass moved done =>
    rw [createLoop, createLoopBy, if_neg moved, if_pos done]
    rw [if_neg (show ¬(createPassBy (tryCreateView planner) s pending).created = [] from moved),
      if_pos (show (createPassBy (tryCreateView planner) s pending).stillFailing = [] from done)]
    rfl
  | case3 s pending createdOrder pass moved more ih =>
    rw [createLoop, createLoopBy, if_neg moved, if_neg more]
    rw [if_neg (show ¬(createPassBy (tryCreateView planner) s pending).created = [] from moved),
      if_neg (show ¬(createPassBy (tryCreateView planner) s pending).stillFailing = [] from more)]
    exact ih (passes + 1)

theorem createRegisteredViews_eq (planner : Planner) (s : SessionState P)
    (views : List ViewToRegister) (order : ViewOrder) :
    createRegisteredViews planner s views order =
      ((createRegisteredViewsBy (tryCreateView planner) s views order).session,
        (createRegisteredViewsBy (tryCreateView planner) s views order).result) := by
  unfold createRegisteredViews createRegisteredViewsBy
  split
  · rfl
  · simp only [createLoop_eq planner _ _ 0]

end

/-- Trying a view as building it: whether it can be planned depends on the views created so far,
more of them never hinder, and a view that cannot be planned leaves those. -/
structure Plannability {P : Type} (attempt : Attempt P) where
  buildable : Buildability ViewToRegister
  /-- A session in which just these views are created. -/
  Created : SessionState P → List ViewToRegister → Prop
  plans : ∀ s created view, Created s created →
    ((attempt s view VIEW_BODY_RESOLUTION_SCHEMA).2 = .ok () ↔
      buildable.able {v | v ∈ created} view)
  creates : ∀ s created view, Created s created →
    (attempt s view VIEW_BODY_RESOLUTION_SCHEMA).2 = .ok () →
      Created (attempt s view VIEW_BODY_RESOLUTION_SCHEMA).1 (created ++ [view])
  keeps : ∀ s created view, Created s created →
    (attempt s view VIEW_BODY_RESOLUTION_SCHEMA).2 ≠ .ok () →
      Created (attempt s view VIEW_BODY_RESOLUTION_SCHEMA).1 created

section
variable {P : Type} {attempt : Attempt P}

theorem attemptBy_ok {pass : Pass P} {view : ViewToRegister}
    (planned : (attempt pass.session view VIEW_BODY_RESOLUTION_SCHEMA).2 = .ok ()) :
    Pass.attemptBy attempt pass view =
      ⟨(attempt pass.session view VIEW_BODY_RESOLUTION_SCHEMA).1, pass.created ++ [view.key],
        pass.stillFailing, pass.lastError⟩ := by
  unfold Pass.attemptBy
  split
  · next s tried => rw [tried]
  · next s error tried =>
    rw [tried] at planned
    cases planned

theorem attemptBy_error {pass : Pass P} {view : ViewToRegister}
    (refused : (attempt pass.session view VIEW_BODY_RESOLUTION_SCHEMA).2 ≠ .ok ()) :
    ∃ lastError, Pass.attemptBy attempt pass view =
      ⟨(attempt pass.session view VIEW_BODY_RESOLUTION_SCHEMA).1, pass.created,
        pass.stillFailing ++ [view], lastError⟩ := by
  unfold Pass.attemptBy
  split
  · next s tried =>
    rw [tried] at refused
    exact absurd rfl refused
  · next s error tried =>
    rw [tried]
    exact ⟨_, rfl⟩

variable (p : Plannability attempt)

/-- One pass: some views are created, each when it could be, the others were tried in vain. -/
theorem pass_spec {pending created : List ViewToRegister} {pass : Pass P}
    (start : p.Created pass.session created) :
    ∃ built left, (built ++ left).Perm pending ∧ p.buildable.Order created built ∧
      (pending.foldl (Pass.attemptBy attempt) pass).created =
        pass.created ++ built.map ViewToRegister.key ∧
      (pending.foldl (Pass.attemptBy attempt) pass).stillFailing = pass.stillFailing ++ left ∧
      p.Created (pending.foldl (Pass.attemptBy attempt) pass).session (created ++ built) ∧
      ∀ view ∈ left, ¬p.buildable.able {v | v ∈ created} view := by
  induction pending generalizing created pass with
  | nil =>
    exact ⟨[], [], .nil, trivial, (List.append_nil _).symm, (List.append_nil _).symm,
      by rwa [List.append_nil], List.forall_mem_nil _⟩
  | cons view rest ih =>
    rw [List.foldl_cons]
    by_cases planned : (attempt pass.session view VIEW_BODY_RESOLUTION_SCHEMA).2 = .ok ()
    · have able := (p.plans _ _ view start).mp planned
      rw [attemptBy_ok planned]
      obtain ⟨built, left, split, order, made, failing, session, stuck⟩ :=
        @ih (created ++ [view]) ⟨_, _, pass.stillFailing, pass.lastError⟩
          (p.creates _ _ view start planned)
      refine ⟨view :: built, left, split.cons view, ⟨able, order⟩, ?_, failing, ?_, ?_⟩
      · rw [made, List.append_assoc]
        rfl
      · rwa [List.append_assoc] at session
      · intro other member hopes
        refine stuck other member (p.buildable.monotone (fun v there => ?_) hopes)
        exact List.mem_append_left _ there
    · have hopeless := mt (p.plans _ _ view start).mpr planned
      obtain ⟨lastError, step⟩ := attemptBy_error planned
      rw [step]
      obtain ⟨built, left, split, order, made, failing, session, stuck⟩ :=
        @ih created ⟨_, pass.created, _, lastError⟩ (p.keeps _ _ view start planned)
      refine ⟨built, view :: left, List.perm_middle.trans (split.cons view), order, made, ?_,
        session, List.forall_mem_cons.mpr ⟨hopeless, stuck⟩⟩
      rw [failing, List.append_assoc]
      rfl

/-- Where the loop ends: every pending view is created or was last tried in vain, and the
answer tells which. -/
structure LoopEnd (s : SessionState P) (pending created : List ViewToRegister) (passes : Nat)
    (createdOrder : List String) (built left : List ViewToRegister) : Prop where
  more : passes < (createLoopBy attempt s pending passes createdOrder).passes
  few : (createLoopBy attempt s pending passes createdOrder).passes ≤ passes + pending.length
  split : (built ++ left).Perm pending
  order : p.buildable.Order created built
  session : p.Created (createLoopBy attempt s pending passes createdOrder).session
    (created ++ built)
  stuck : ∀ view ∈ left, ¬p.buildable.able {v | v ∈ created ++ built} view
  succeeded : left = [] → (createLoopBy attempt s pending passes createdOrder).result =
    .ok (createdOrder ++ built.map ViewToRegister.key)
  failed : left ≠ [] → ∃ pass : Pass P, pass.stillFailing = left ∧
    (createLoopBy attempt s pending passes createdOrder).result = .error (notPlanned pass)

theorem loop_spec {s : SessionState P} {pending : List ViewToRegister} (some_ : pending ≠ [])
    (passes : Nat) (createdOrder : List String) {created : List ViewToRegister}
    (start : p.Created s created) :
    ∃ built left, LoopEnd p s pending created passes createdOrder built left := by
  induction s, pending, passes, createdOrder using createLoopBy.induct attempt
    generalizing created with
  | case1 s pending passes createdOrder pass stuck =>
    have ends : createLoopBy attempt s pending passes createdOrder =
        ⟨pass.session, passes + 1, .error (notPlanned pass)⟩ := by
      rw [createLoopBy, if_pos stuck]
    obtain ⟨built, left, split, order, made, failing, session, hopeless⟩ :=
      @pass_spec P attempt p pending created ⟨s, [], [], none⟩ start
    have none_ : built = [] := List.map_eq_nil_iff.mp (made.symm.trans stuck)
    subst none_
    have positive := List.length_pos_iff.mpr some_
    refine ⟨[], left, ?_, ?_, split, trivial, ?_, ?_, ?_, ?_⟩
    · rw [ends]
      exact Nat.lt_succ_self _
    · rw [ends]
      exact Nat.add_le_add_left positive passes
    · rwa [ends]
    · rwa [List.append_nil]
    · intro empty
      rw [empty] at split
      exact absurd split.nil_eq some_.symm
    · intro _
      rw [ends]
      exact ⟨pass, failing, rfl⟩
  | case2 s pending passes createdOrder pass moved done =>
    have ends : createLoopBy attempt s pending passes createdOrder =
        ⟨pass.session, passes + 1, .ok (createdOrder ++ pass.created)⟩ := by
      rw [createLoopBy, if_neg moved, if_pos done]
    obtain ⟨built, left, split, order, made, failing, session, hopeless⟩ :=
      @pass_spec P attempt p pending created ⟨s, [], [], none⟩ start
    have none_ : left = [] := failing.symm.trans done
    subst none_
    have positive := List.length_pos_iff.mpr some_
    refine ⟨built, [], ?_, ?_, split, order, ?_, List.forall_mem_nil _, ?_, ?_⟩
    · rw [ends]
      exact Nat.lt_succ_self _
    · rw [ends]
      exact Nat.add_le_add_left positive passes
    · rwa [ends]
    · intro _
      rw [ends, ← List.nil_append (built.map _), ← made]
      rfl
    · intro some_left
      exact absurd rfl some_left
  | case3 s pending passes createdOrder pass moved more ih =>
    have ends : createLoopBy attempt s pending passes createdOrder =
        createLoopBy attempt pass.session pass.stillFailing (passes + 1)
          (createdOrder ++ pass.created) := by
      rw [createLoopBy, if_neg moved, if_neg more]
    obtain ⟨built, left, split, order, made, failing, session, hopeless⟩ :=
      @pass_spec P attempt p pending created ⟨s, [], [], none⟩ start
    have shrinks : pass.stillFailing.length < pending.length := createPassBy_shrinks attempt moved
    obtain ⟨later, last, final⟩ := ih more session
    have rest : pass.stillFailing = left := failing
    refine ⟨built ++ later, last, ?_, ?_, ?_, order.append final.order, ?_, ?_, ?_, ?_⟩
    · rw [ends]
      exact Nat.lt_of_succ_lt final.more
    · rw [ends]
      have few := final.few
      omega
    · rw [List.append_assoc]
      exact (List.Perm.append_left built (rest ▸ final.split)).trans split
    · rw [ends, ← List.append_assoc]
      exact final.session
    · rw [← List.append_assoc]
      exact final.stuck
    · intro empty
      have made' : pass.created = built.map ViewToRegister.key := made
      rw [ends, final.succeeded empty, made', List.map_append, List.append_assoc]
    · intro some_left
      rw [ends]
      exact final.failed some_left

end

end PgCatalog.Session
