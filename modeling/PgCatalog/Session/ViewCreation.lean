import Mathlib.Data.String.Basic
import PgCatalog.Session.Replan
import PgCatalog.Session.ViewLoop

/-! View creation finds an order whenever there is one, and the order it found needs one
pass when it is given. -/
namespace PgCatalog.Session

open Library

/-- In a list without repetitions a key stands where it stands. -/
theorem position_getElem {keys : List String} (distinct : keys.Nodup) {i : Nat}
    (within : i < keys.length) : position keys keys[i] = some i := by
  have listed : (keys[i], i) ∈ keys.zipIdx.reverse :=
    List.mem_reverse.mpr (List.mk_mem_zipIdx_iff_getElem?.mpr (List.getElem?_eq_getElem within))
  unfold position
  cases found : keys.zipIdx.reverse.find? (·.1 = keys[i]) with
  | none =>
    have none_ := List.find?_eq_none.mp found _ listed
    exact absurd (decide_eq_true rfl) none_
  | some entry =>
    obtain ⟨key, j⟩ := entry
    have same : key = keys[i] := of_decide_eq_true
      (List.find?_some (p := fun x : String × Nat => decide (x.1 = keys[i])) found)
    have there := List.mem_reverse.mp (List.mem_of_find?_eq_some found)
    have placed := List.mk_mem_zipIdx_iff_getElem?.mp there
    rw [same] at placed
    obtain ⟨inside, reads⟩ := List.getElem?_eq_some_iff.mp placed
    exact congrArg some ((List.Nodup.getElem_inj_iff distinct).mp reads)

theorem orderViews_perm (order : ViewOrder) (views : List ViewToRegister) :
    (orderViews order views).Perm views :=
  List.mergeSort_perm views _

section
variable (keys : List String)

theorem triedBefore_trans (a b c : ViewToRegister)
    (first : triedBefore (.precomputed keys) a b = true)
    (second : triedBefore (.precomputed keys) b c = true) :
    triedBefore (.precomputed keys) a c = true := by
  cases i : position keys a.key <;> cases j : position keys b.key <;>
    cases k : position keys c.key <;>
    simp only [triedBefore, i, j, k, Bool.or_eq_true, Bool.and_eq_true, decide_eq_true_eq,
      reduceCtorEq] at first second ⊢
  · exact le_trans first second
  · rcases first with first | ⟨rfl, first⟩ <;> rcases second with second | ⟨rfl, second⟩
    · exact .inl (first.trans second)
    · exact .inl first
    · exact .inl second
    · exact .inr ⟨rfl, le_trans first second⟩

theorem triedBefore_total (a b : ViewToRegister) :
    (triedBefore (.precomputed keys) a b || triedBefore (.precomputed keys) b a) = true := by
  cases i : position keys a.key <;> cases j : position keys b.key <;>
    simp only [triedBefore, i, j, Bool.or_eq_true, Bool.and_eq_true, decide_eq_true_eq,
      Bool.or_true, Bool.or_false]
  · exact le_total a.key b.key
  · rename_i m n
    rcases lt_trichotomy m n with less | rfl | more
    · exact .inl (.inl less)
    · exact (le_total a.key b.key).imp (fun le => .inr ⟨rfl, le⟩) fun le => .inr ⟨rfl, le⟩
    · exact .inr (.inl more)

end

/-- Views in an order are tried in it where it is given by their keys. -/
theorem orderViews_precomputed {views built : List ViewToRegister} (same : built.Perm views)
    (distinct : (built.map ViewToRegister.key).Nodup) :
    orderViews (.precomputed (built.map ViewToRegister.key)) views = built := by
  have place : ∀ i (within : i < built.length),
      position (built.map ViewToRegister.key) built[i].key = some i := by
    intro i within
    have listed := @position_getElem _ distinct i (by rwa [List.length_map])
    rwa [List.getElem_map] at listed
  have sorted : built.Pairwise fun a b =>
      triedBefore (.precomputed (built.map ViewToRegister.key)) a b = true := by
    refine List.pairwise_iff_getElem.mpr fun i j first second less => ?_
    unfold triedBefore
    simp only [place i first, place j second]
    rw [Bool.or_eq_true]
    exact .inl (decide_eq_true less)
  refine List.Perm.eq_of_pairwise (fun a b inside listed before after => ?_)
    (List.pairwise_mergeSort (triedBefore_trans _) (triedBefore_total _) views) sorted
    ((orderViews_perm _ views).trans same.symm)
  obtain ⟨i, first, rfl⟩ := List.getElem_of_mem
    (same.mem_iff.mpr ((orderViews_perm _ views).mem_iff.mp inside))
  obtain ⟨j, second, rfl⟩ := List.getElem_of_mem listed
  unfold triedBefore at before after
  simp only [place i first, place j second, Bool.or_eq_true, Bool.and_eq_true,
    decide_eq_true_eq] at before after
  have equal : i = j := by omega
  subst equal
  rfl

section
variable {P : Type} {attempt : Attempt P} (p : Plannability attempt)

/-- In an order that works one pass creates everything. -/
theorem pass_all {pending created : List ViewToRegister} (order : p.buildable.Order created pending)
    {pass : Pass P} (start : p.Created pass.session created) :
    (pending.foldl (Pass.attemptBy attempt) pass).created =
        pass.created ++ pending.map ViewToRegister.key ∧
      (pending.foldl (Pass.attemptBy attempt) pass).stillFailing = pass.stillFailing := by
  induction pending generalizing created pass with
  | nil => exact ⟨(List.append_nil _).symm, rfl⟩
  | cons view rest ih =>
    have planned := (p.plans _ _ view start).mpr order.1
    rw [List.foldl_cons, attemptBy_ok planned]
    obtain ⟨made, failing⟩ := @ih _ order.2 ⟨_, _, pass.stillFailing, pass.lastError⟩
      (p.creates _ _ view start planned)
    refine ⟨?_, failing⟩
    rw [made, List.append_assoc]
    rfl

/-- The session in which the loop starts. -/
def readied (s : SessionState P) : SessionState P :=
  { s with statements := [], defaultSchema := VIEW_BODY_RESOLUTION_SCHEMA }

/-- The keys of an order that works need one pass, whatever views there are before. -/
theorem replay_once {views built created : List ViewToRegister} {s : SessionState P}
    (same : built.Perm views) (distinct : (built.map ViewToRegister.key).Nodup)
    (order : p.buildable.Order [] built) (start : p.Created (readied s) created) :
    (createRegisteredViewsBy attempt s views
        (.precomputed (built.map ViewToRegister.key))).passes ≤ 1 ∧
      (createRegisteredViewsBy attempt s views
        (.precomputed (built.map ViewToRegister.key))).result =
          .ok (built.map ViewToRegister.key) := by
  unfold createRegisteredViewsBy
  by_cases none_ : views = []
  · subst none_
    rw [if_pos rfl, List.Perm.eq_nil same]
    exact ⟨Nat.zero_le 1, rfl⟩
  · rw [if_neg none_, orderViews_precomputed same distinct]
    have some_ : built ≠ [] := fun empty => none_ (List.Perm.nil_eq (empty ▸ same)).symm
    have later : p.buildable.Order created built := order.mono (List.forall_mem_nil _)
    obtain ⟨made, done⟩ := @pass_all P attempt p built created later
      ⟨readied s, [], [], none⟩ start
    have failing : (createPassBy attempt (readied s) built).stillFailing = [] := done
    have moved : (createPassBy attempt (readied s) built).created ≠ [] := by
      intro stuck
      exact some_ (List.map_eq_nil_iff.mp (made.symm.trans stuck))
    have ends : createLoopBy attempt (readied s) built 0 [] =
        ⟨(createPassBy attempt (readied s) built).session, 1,
          .ok ([] ++ (createPassBy attempt (readied s) built).created)⟩ := by
      rw [createLoopBy, if_neg moved, if_pos failing]
    dsimp only
    rw [show createLoopBy attempt { s with
        statements := [], defaultSchema := VIEW_BODY_RESOLUTION_SCHEMA } built 0 [] = _ from ends]
    exact ⟨Nat.le_refl 1, congrArg Except.ok made⟩

/-- What creating views comes to: an order is found whenever there is one, in no more passes
than views, and what cannot be planned is named. -/
structure FindsOrder (s : SessionState P) (views : List ViewToRegister) (order : ViewOrder) :
    Prop where
  passes : (createRegisteredViewsBy attempt s views order).passes ≤ views.length
  succeeds : (∃ keys, (createRegisteredViewsBy attempt s views order).result = .ok keys) ↔
    ∃ built : List ViewToRegister, built.Perm views ∧ p.buildable.Order [] built
  created : ∀ keys, (createRegisteredViewsBy attempt s views order).result = .ok keys →
    ∃ built : List ViewToRegister, built.Perm views ∧ p.buildable.Order [] built ∧
      keys = built.map ViewToRegister.key
  replayed : ∀ keys, (createRegisteredViewsBy attempt s views order).result = .ok keys →
    ∀ again created, p.Created (readied again) created →
      (createRegisteredViewsBy attempt again views (.precomputed keys)).passes ≤ 1 ∧
        (createRegisteredViewsBy attempt again views (.precomputed keys)).result = .ok keys
  failed : ∀ error, (createRegisteredViewsBy attempt s views order).result = .error error →
    ∃ pass : Pass P, error = notPlanned pass ∧ pass.stillFailing.Nodup ∧
      ∀ view, view ∈ pass.stillFailing ↔ view ∈ views ∧ view ∉ p.buildable.reach views
  restored : (createRegisteredViewsBy attempt s views order).session.defaultSchema =
    s.defaultSchema

theorem restored_schema (s : SessionState P) (views : List ViewToRegister) (order : ViewOrder) :
    (createRegisteredViewsBy attempt s views order).session.defaultSchema = s.defaultSchema := by
  unfold createRegisteredViewsBy
  split <;> rfl

/-- The loop on ordered views, told as one of all views. -/
theorem created_spec {views : List ViewToRegister} (some_ : views ≠ []) (order : ViewOrder)
    {s : SessionState P} (start : p.Created (readied s) []) :
    ∃ built left : List ViewToRegister, (built ++ left).Perm views ∧ p.buildable.Order [] built ∧
      (∀ view ∈ left, ¬p.buildable.able {v | v ∈ built} view) ∧
      (createRegisteredViewsBy attempt s views order).passes ≤ views.length ∧
      (left = [] → (createRegisteredViewsBy attempt s views order).result =
        .ok (built.map ViewToRegister.key)) ∧
      (left ≠ [] → ∃ pass : Pass P, pass.stillFailing = left ∧
        (createRegisteredViewsBy attempt s views order).result = .error (notPlanned pass)) := by
  have same := orderViews_perm order views
  have pending : orderViews order views ≠ [] := fun empty =>
    some_ (List.Perm.nil_eq (empty ▸ same)).symm
  obtain ⟨built, left, final⟩ := loop_spec p pending 0 [] start
  have few := final.few
  rw [same.length_eq, Nat.zero_add] at few
  unfold createRegisteredViewsBy
  rw [if_neg some_]
  exact ⟨built, left, final.split.trans same, final.order, final.stuck, few, final.succeeded,
    final.failed⟩

/-- Whatever order works for all the views leaves none of them out of reach. -/
theorem nothing_left {views built left : List ViewToRegister} (split : (built ++ left).Perm views)
    (stuck : ∀ view ∈ left, ¬p.buildable.able {v | v ∈ built} view)
    (holds : p.buildable.Order [] built) (distinct : views.Nodup) {order : List ViewToRegister} (all : order.Perm views)
    (works : p.buildable.Order [] order) : left = [] := by
  refine List.eq_nil_iff_forall_not_mem.mpr fun view member => ?_
  have out := (Buildability.stuck_iff holds split distinct stuck view).mp member
  exact out.2 (works.reach (fun v inside => all.mem_iff.mp inside) (List.forall_mem_nil _) view
    (all.mem_iff.mpr out.1))

end

section
variable {P : Type} (planner : Planner)

/-- The body a view is created with. -/
def ViewToRegister.definition (view : ViewToRegister) : String :=
  (planner.simplifiedViewBody view.schema view.name).getD (normalizeViewSql view.sql)

/-- A view can be planned where its body passes the rewrites and names only relations there
are. -/
def Plannable (base : SessionState P) (there : Set ViewToRegister) (view : ViewToRegister) : Prop :=
  view.definition planner ≠ "" ∧ ∃ select,
    planner.rewriteSelect (view.definition planner) = .ok select ∧
    planner.refuses ⟨view.qualified, select⟩ = none ∧
    ∀ name ∈ planner.references VIEW_BODY_RESOLUTION_SCHEMA select,
      base.Known name ∨ ∃ other ∈ there, other.qualified = name

/-- The session has the relations it started with and the views created since. -/
def Holds (base s : SessionState P) (created : List ViewToRegister) : Prop :=
  s.defaultSchema = VIEW_BODY_RESOLUTION_SCHEMA ∧
    ∀ name, s.Known name ↔ base.Known name ∨ ∃ view ∈ created, view.qualified = name

/-- What trying a view comes to in such a session. -/
theorem tryCreateView_holds {base s : SessionState P} {created : List ViewToRegister}
    (holds : Holds base s created) (view : ViewToRegister) :
    (Plannable planner base {v | v ∈ created} view ∧
        (tryCreateView planner s view VIEW_BODY_RESOLUTION_SCHEMA).2 = .ok () ∧
        Holds base (tryCreateView planner s view VIEW_BODY_RESOLUTION_SCHEMA).1
          (created ++ [view])) ∨
      ¬Plannable planner base {v | v ∈ created} view ∧
        (tryCreateView planner s view VIEW_BODY_RESOLUTION_SCHEMA).2 ≠ .ok () ∧
        Holds base (tryCreateView planner s view VIEW_BODY_RESOLUTION_SCHEMA).1 created := by
  have body : (planner.simplifiedViewBody view.schema view.name).getD (normalizeViewSql view.sql) =
    view.definition planner := rfl
  unfold tryCreateView
  rw [body]
  by_cases empty : view.definition planner = ""
  · rw [if_pos empty]
    exact .inr ⟨fun able => able.1 empty, nofun, holds⟩
  · rw [if_neg empty]
    cases rewritten : planner.rewriteSelect (view.definition planner) with
    | error error =>
      refine .inr ⟨?_, nofun, holds⟩
      rintro ⟨_, select, ok, _⟩
      rw [rewritten] at ok
      cases ok
    | ok select =>
      have able_iff : Plannable planner base {v | v ∈ created} view ↔
          ¬Fails planner s ⟨view.qualified, select⟩ := by
        have succeeds : ¬Fails planner s ⟨view.qualified, select⟩ ↔
            planner.refuses ⟨view.qualified, select⟩ = none ∧
              ∀ name ∈ planner.references s.defaultSchema select, s.Known name := by
          unfold Fails
          simp only [ne_eq, not_or, Classical.not_not, not_exists, not_and]
        rw [succeeds, holds.1]
        unfold Plannable
        simp only [rewritten, Except.ok.injEq, exists_eq_left', ne_eq, empty, not_false_eq_true,
          true_and, holds.2, Set.mem_ofPred_eq]
      rcases createView_cases (s := s) planner ⟨view.qualified, select⟩ with
        ⟨fails, error, ends⟩ | ⟨succeeds, ends⟩
      · dsimp only
        rw [ends]
        exact .inr ⟨fun able => able_iff.mp able fails, nofun, holds⟩
      · dsimp only
        rw [ends]
        refine .inl ⟨able_iff.mpr succeeds, rfl, holds.1, fun name => ?_⟩
        have known := holds.2 name
        unfold SessionState.Known at known ⊢
        simp only [List.mem_append, List.mem_singleton, or_and_right, exists_or, exists_eq_left]
        by_cases same : name = view.qualified
        · subst same
          simp
        · rw [Function.update_of_ne same, known]
          refine or_congr Iff.rfl (or_iff_left (Ne.symm same)).symm

/-- The function of the source plans a view by the relations there are. -/
def tryCreateViewPlannability (base : SessionState P) : Plannability (tryCreateView (P := P) planner)
    where
  buildable :=
    { able := Plannable planner base
      monotone := by
        rintro C C' view grows ⟨some_, select, rewritten, accepted, named⟩
        refine ⟨some_, select, rewritten, accepted, fun name member => ?_⟩
        exact (named name member).imp_right fun ⟨other, there, same⟩ => ⟨other, grows there, same⟩ }
  Created := Holds base
  plans s created view holds := by
    rcases tryCreateView_holds planner holds view with ⟨able, ok, _⟩ | ⟨unable, error, _⟩
    · exact iff_of_true ok able
    · exact iff_of_false error unable
  creates s created view holds ok := by
    rcases tryCreateView_holds planner holds view with ⟨_, _, after⟩ | ⟨_, error, _⟩
    · exact after
    · exact absurd ok error
  keeps s created view holds error := by
    rcases tryCreateView_holds planner holds view with ⟨_, ok, _⟩ | ⟨_, _, after⟩
    · exact absurd ok error
    · exact after

end

/-- `b` reads the view `a` and is named before it. -/
def readerFirst : List ViewToRegister := [⟨"c", "s", "b", "a"⟩, ⟨"c", "s", "a", "base"⟩]

end PgCatalog.Session
