import PgCatalog.Session.Views

/-! Replaying the record of the views after base tables got other providers: a view that
fails is reported, one that reads a view that failed is not. -/
namespace PgCatalog.Session

open Library

section
variable {P : Type} (s : SessionState P)

namespace SessionState

/-- There is a relation of the name. -/
def Known (name : String) : Prop := s.views name ≠ none ∨ s.providers name ≠ none

/-- A plan that reads a base table from another provider than the table has now. -/
def Outdated (plan : List (Scan P)) : Prop :=
  ∃ scan ∈ plan, s.providers scan.table ≠ some scan.provider

/-- The view still reads a provider that was replaced. -/
def Stale (view : String) : Prop := ∃ plan, s.views view = some plan ∧ s.Outdated plan

variable {s}

theorem planOf_isNone {name : String} : (s.planOf name).isNone = true ↔ ¬s.Known name := by
  unfold planOf Known
  cases s.views name <;> cases s.providers name <;> simp

/-- What a name contributes is outdated exactly if the name is of a view that is. -/
theorem outdated_planOf {name : String} :
    s.Outdated ((s.planOf name).getD []) ↔ s.Stale name := by
  unfold planOf Stale
  cases viewed : s.views name with
  | some plan => simp
  | none =>
    simp only [reduceCtorEq, false_and, exists_false, iff_false]
    cases provided : s.providers name with
    | none =>
      rintro ⟨scan, member, _⟩
      cases member
    | some provider =>
      rintro ⟨scan, member, other⟩
      obtain rfl := List.mem_singleton.mp member
      exact other provided

theorem outdated_flatMap {names : List String} :
    s.Outdated (names.flatMap fun name => (s.planOf name).getD []) ↔
      ∃ name ∈ names, s.Stale name := by
  constructor
  · rintro ⟨scan, member, other⟩
    obtain ⟨name, listed, inside⟩ := List.mem_flatMap.mp member
    exact ⟨name, listed, outdated_planOf.mp ⟨scan, inside, other⟩⟩
  · rintro ⟨name, listed, stale⟩
    obtain ⟨scan, inside, other⟩ := outdated_planOf.mpr stale
    exact ⟨scan, List.mem_flatMap.mpr ⟨name, listed, inside⟩, other⟩

end SessionState

/-- The statement cannot be planned or executed in this session. -/
def Fails (planner : Planner) (s : SessionState P) (create : CreateView) : Prop :=
  planner.refuses create ≠ none ∨
    ∃ name ∈ planner.references s.defaultSchema create.select, ¬s.Known name

/-- What a view statement does: it fails and changes nothing, or the view is its plan. -/
theorem createView_cases (planner : Planner) (create : CreateView) :
    (Fails planner s create ∧ ∃ error, s.createView planner create =
        ({ s with executed := s.executed ++ [create] }, .error error)) ∨
      ¬Fails planner s create ∧ s.createView planner create =
        ({ s with
            executed := s.executed ++ [create]
            views := Function.update s.views create.qualified
              (some ((planner.references s.defaultSchema create.select).flatMap
                fun name => (s.planOf name).getD [])) }, .ok ()) := by
  unfold SessionState.createView Fails
  cases refused : planner.refuses create with
  | some error => exact .inl ⟨.inl nofun, error, rfl⟩
  | none =>
    dsimp only
    unfold SessionState.inlined
    have same : ∀ name, SessionState.planOf { s with executed := s.executed ++ [create] } name =
      s.planOf name := fun _ => rfl
    simp only [same]
    cases found : (planner.references s.defaultSchema create.select).find?
        fun name => (s.planOf name).isNone with
    | some missing =>
      have absent : (s.planOf missing).isNone = true :=
        List.find?_some (p := fun name => (s.planOf name).isNone) found
      have unknown := SessionState.planOf_isNone.mp absent
      exact .inl ⟨.inr ⟨missing, List.mem_of_find?_eq_some found, unknown⟩, _, rfl⟩
    | none =>
      refine .inr ⟨?_, rfl⟩
      rintro (other | ⟨name, member, unknown⟩)
      · exact other rfl
      · have known := List.find?_eq_none.mp found name member
        exact known (SessionState.planOf_isNone.mpr unknown)

end

section
variable {P : Type} (planner : Planner)

/-- The relations the body of a recorded statement names. -/
def RegisteredViewStatement.references (statement : RegisteredViewStatement) : List String :=
  planner.references statement.bodyResolutionSchema statement.createSql.select

/-- The recorded statement cannot be replayed in this session. -/
def Unreplayable (s : SessionState P) (statement : RegisteredViewStatement) : Prop :=
  planner.refuses statement.createSql ≠ none ∨
    ∃ name ∈ statement.references planner, ¬s.Known name

/-- Statements for different views, none of which names its own view or a later one. -/
structure InOrder (statements : List RegisteredViewStatement) : Prop where
  distinct : (statements.map (·.qualifiedName)).Nodup
  named : ∀ statement ∈ statements, statement.createSql.qualified = statement.qualifiedName
  earlier : statements.Pairwise fun a b => b.qualifiedName ∉ a.references planner
  notItself : ∀ statement ∈ statements,
    statement.qualifiedName ∉ statement.references planner

variable {planner}

theorem InOrder.tail {statement : RegisteredViewStatement} {rest : List RegisteredViewStatement}
    (order : InOrder planner (statement :: rest)) : InOrder planner rest :=
  ⟨(List.nodup_cons.mp order.distinct).2,
    fun other member => order.named other (List.mem_cons_of_mem _ member),
    (List.pairwise_cons.mp order.earlier).2,
    fun other member => order.notItself other (List.mem_cons_of_mem _ member)⟩

/-- No name in the head's body is of a view of the list. -/
theorem InOrder.head_references {statement : RegisteredViewStatement}
    {rest : List RegisteredViewStatement} (order : InOrder planner (statement :: rest)) :
    ∀ name ∈ statement.references planner,
      name ∉ (statement :: rest).map (·.qualifiedName) := by
  intro name member inside
  obtain ⟨other, listed, rfl⟩ := List.mem_map.mp inside
  obtain rfl | later := List.mem_cons.mp listed
  · exact order.notItself _ List.mem_cons_self member
  · exact (List.pairwise_cons.mp order.earlier).1 other later member

/-- What replaying a list of statements does to a session. -/
structure Replayed (planner : Planner) (statements : List RegisteredViewStatement)
    (s s' : SessionState P) (failures : List (String × DataFusionError)) : Prop where
  providers : s'.providers = s.providers
  attempts : s'.executed = s.executed ++ statements.map (·.createSql)
  /-- A view without a statement that succeeds is the plan it was. -/
  unchanged : ∀ name, (∀ statement ∈ statements, statement.qualifiedName = name →
    Unreplayable planner s statement) → s'.views name = s.views name
  known : ∀ name, s'.Known name ↔ s.Known name
  failed : ∀ name, name ∈ failures.map Prod.fst ↔
    ∃ statement ∈ statements, statement.qualifiedName = name ∧ Unreplayable planner s statement
  /-- A view replayed is as stale as the views it names. -/
  stale : ∀ statement ∈ statements, ¬Unreplayable planner s statement →
    (s'.Stale statement.qualifiedName ↔ ∃ name ∈ statement.references planner, s'.Stale name)

theorem unreplayable_congr {s s' : SessionState P} (known : ∀ name, s'.Known name ↔ s.Known name)
    (statement : RegisteredViewStatement) :
    Unreplayable planner s' statement ↔ Unreplayable planner s statement := by
  unfold Unreplayable
  simp only [known]

theorem stale_congr {s s' : SessionState P} {name : String} (providers : s'.providers = s.providers)
    (views : s'.views name = s.views name) : s'.Stale name ↔ s.Stale name := by
  unfold SessionState.Stale SessionState.Outdated
  rw [providers, views]

/-- A statement before others: what it leaves alone, and that its view becomes its plan. -/
structure Attempted (planner : Planner) (statement : RegisteredViewStatement)
    (s m : SessionState P) : Prop where
  providers : m.providers = s.providers
  attempts : m.executed = s.executed ++ [statement.createSql]
  known : ∀ name, m.Known name ↔ s.Known name
  unchanged : ∀ name, (statement.qualifiedName = name → Unreplayable planner s statement) →
    m.views name = s.views name
  stale : ¬Unreplayable planner s statement →
    (m.Stale statement.qualifiedName ↔ ∃ name ∈ statement.references planner, s.Stale name)

theorem Attempted.before {statement : RegisteredViewStatement}
    {rest : List RegisteredViewStatement} (order : InOrder planner (statement :: rest))
    {s m s' : SessionState P} {later failures : List (String × DataFusionError)}
    (attempted : Attempted planner statement s m) (replayed : Replayed planner rest m s' later)
    (failed : ∀ name, name ∈ failures.map Prod.fst ↔ name ∈ later.map Prod.fst ∨
      statement.qualifiedName = name ∧ Unreplayable planner s statement) :
    Replayed planner (statement :: rest) s s' failures := by
  have same := @unreplayable_congr _ planner _ _ attempted.known
  have providers := replayed.providers.trans attempted.providers
  have unchanged : ∀ name, (∀ other ∈ statement :: rest, other.qualifiedName = name →
      Unreplayable planner s other) → s'.views name = s.views name := by
    intro name none_
    have first := attempted.unchanged name (none_ statement List.mem_cons_self)
    refine (replayed.unchanged name fun other member named => ?_).trans first
    exact (same other).mpr (none_ other (List.mem_cons_of_mem _ member) named)
  refine ⟨providers, ?_, unchanged, fun name => (replayed.known name).trans (attempted.known name),
    fun name => ?_, ?_⟩
  · rw [replayed.attempts, attempted.attempts, List.append_assoc]
    rfl
  · rw [failed, replayed.failed]
    constructor
    · rintro (⟨other, member, named, fails⟩ | ⟨named, fails⟩)
      · exact ⟨other, List.mem_cons_of_mem _ member, named, (same other).mp fails⟩
      · exact ⟨statement, List.mem_cons_self, named, fails⟩
    · rintro ⟨other, member, named, fails⟩
      obtain rfl | inside := List.mem_cons.mp member
      · exact .inr ⟨named, fails⟩
      · exact .inl ⟨other, inside, named, (same other).mpr fails⟩
  · intro other member succeeds
    obtain rfl | inside := List.mem_cons.mp member
    · have apart := (List.nodup_cons.mp order.distinct).1
      have last : s'.Stale other.qualifiedName ↔ m.Stale other.qualifiedName := by
        refine stale_congr replayed.providers (replayed.unchanged _ fun later inside named => ?_)
        exact absurd (List.mem_map.mpr ⟨later, inside, named⟩) apart
      rw [last, attempted.stale succeeds]
      refine exists_congr fun name => and_congr_right fun listed => ?_
      refine (stale_congr providers (unchanged name fun other inside named => ?_)).symm
      exact absurd (List.mem_map.mpr ⟨other, inside, named⟩) (order.head_references name listed)
    · exact replayed.stale other inside fun fails => succeeds ((same other).mp fails)

theorem replanStatements_replayed {statements : List RegisteredViewStatement}
    (order : InOrder planner statements) (s : SessionState P)
    (viewed : ∀ statement ∈ statements, s.views statement.qualifiedName ≠ none) :
    Replayed planner statements s (replanStatements planner s statements).1
      (replanStatements planner s statements).2 := by
  induction statements generalizing s with
  | nil =>
    exact ⟨rfl, (List.append_nil _).symm, fun _ _ => rfl, fun _ => Iff.rfl,
      fun name => ⟨nofun, nofun⟩, nofun⟩
  | cons statement rest ih =>
    have laterViewed : ∀ other ∈ rest, s.views other.qualifiedName ≠ none :=
      fun other member => viewed other (List.mem_cons_of_mem _ member)
    have target := order.named statement List.mem_cons_self
    obtain ⟨fails, error, run⟩ | ⟨succeeds, run⟩ := createView_cases
      { s with defaultSchema := statement.bodyResolutionSchema } planner statement.createSql
    · have attempted : Attempted planner statement s { s with
          defaultSchema := statement.bodyResolutionSchema
          executed := s.executed ++ [statement.createSql] } :=
        ⟨rfl, rfl, fun _ => Iff.rfl, fun _ _ => rfl, fun succeeds => absurd fails succeeds⟩
      have later := ih order.tail { s with
        defaultSchema := statement.bodyResolutionSchema
        executed := s.executed ++ [statement.createSql] } laterViewed
      unfold replanStatements
      dsimp only at run ⊢
      rw [run]
      refine attempted.before order later fun name => ?_
      rw [List.map_cons, List.mem_cons, or_comm]
      refine or_congr_right ⟨fun same => ⟨same.symm, fails⟩, fun both => both.1.symm⟩
    · let plan := (statement.references planner).flatMap fun name => (s.planOf name).getD []
      let m := { s with
        defaultSchema := statement.bodyResolutionSchema
        executed := s.executed ++ [statement.createSql]
        views := Function.update s.views statement.createSql.qualified (some plan) }
      have self : m.views statement.qualifiedName = some plan := by
        rw [← target]
        exact Function.update_self _ _ _
      have other : ∀ name, name ≠ statement.qualifiedName → m.views name = s.views name := by
        intro name ne
        rw [← target] at ne
        exact Function.update_of_ne ne _ _
      have known : ∀ name, m.Known name ↔ s.Known name := by
        intro name
        unfold SessionState.Known
        by_cases same : name = statement.qualifiedName
        · rw [same, self]
          exact iff_of_true (.inl nofun) (.inl (viewed statement List.mem_cons_self))
        · rw [other name same]
      have attempted : Attempted planner statement s m := by
        refine ⟨rfl, rfl, known, fun name fails => other name fun same => ?_,
          fun _ => ?_⟩
        · exact succeeds (fails same.symm)
        · rw [← SessionState.outdated_flatMap]
          unfold SessionState.Stale
          rw [self]
          constructor
          · rintro ⟨_, same, outdated⟩
            obtain rfl := Option.some.inj same
            exact outdated
          · intro outdated
            exact ⟨plan, rfl, outdated⟩
      have laterViewed' : ∀ other ∈ rest, m.views other.qualifiedName ≠ none := by
        intro later member
        have apart := (List.nodup_cons.mp order.distinct).1
        rw [other _ fun same => apart (List.mem_map.mpr ⟨later, member, same⟩)]
        exact laterViewed later member
      have later := ih order.tail m laterViewed'
      unfold replanStatements
      dsimp only at run ⊢
      rw [run]
      refine attempted.before order later fun name => ?_
      exact (or_iff_left fun both => succeeds both.2).symm

/-- What is recorded while views are created, `pending` those still to come. -/
structure Recording (planner : Planner) (pending : List ViewToRegister) (s : SessionState P) :
    Prop where
  placed : s.defaultSchema = VIEW_BODY_RESOLUTION_SCHEMA
  order : InOrder planner s.statements
  known : ∀ statement ∈ s.statements, ∀ name ∈ statement.references planner, s.Known name
  views : ∀ name, s.views name ≠ none ↔ name ∈ s.statements.map (·.qualifiedName)
  fresh : ∀ view ∈ pending, ¬s.Known view.qualified
  distinct : (pending.map (·.qualified)).Nodup

/-- A view is created and recorded, or nothing changes but what was executed. -/
theorem tryCreateView_cases (s : SessionState P) (view : ViewToRegister) (schema : String) :
    (∃ executed error, tryCreateView planner s view schema =
        ({ s with executed := executed }, .error error)) ∨
      ∃ select executed plan, ¬Fails planner s ⟨view.qualified, select⟩ ∧
        tryCreateView planner s view schema = ({ s with
          executed := executed
          views := Function.update s.views view.qualified (some plan)
          statements := s.statements ++
            [⟨view.qualified, schema, ⟨view.qualified, select⟩⟩] }, .ok ()) := by
  unfold tryCreateView
  dsimp only
  split
  · exact .inl ⟨s.executed, _, rfl⟩
  · cases rewritten : planner.rewriteSelect ((planner.simplifiedViewBody view.schema view.name).getD
      (normalizeViewSql view.sql)) with
    | error error => exact .inl ⟨s.executed, _, rfl⟩
    | ok select =>
      dsimp only
      obtain ⟨_, error, run⟩ | ⟨succeeds, run⟩ :=
        createView_cases s planner ⟨view.qualified, select⟩
      · rw [run]
        exact .inl ⟨_, _, rfl⟩
      · rw [run]
        exact .inr ⟨select, _, _, succeeds, rfl⟩

theorem Recording.congr {pending : List ViewToRegister} {s : SessionState P}
    (recording : Recording planner pending s) (executed : List CreateView) :
    Recording planner pending { s with executed := executed } :=
  ⟨recording.placed, recording.order, recording.known, recording.views, recording.fresh,
    recording.distinct⟩

/-- A view that is created comes last in the record: nothing before it can name it. -/
theorem Recording.create {before after : List ViewToRegister} {view : ViewToRegister}
    {s : SessionState P} (recording : Recording planner (before ++ view :: after) s)
    {select : String} (succeeds : ¬Fails planner s ⟨view.qualified, select⟩)
    (executed : List CreateView) (plan : List (Scan P)) :
    Recording planner (before ++ after) { s with
      executed := executed
      views := Function.update s.views view.qualified (some plan)
      statements := s.statements ++
        [⟨view.qualified, VIEW_BODY_RESOLUTION_SCHEMA, ⟨view.qualified, select⟩⟩] } := by
  let statement : RegisteredViewStatement :=
    ⟨view.qualified, VIEW_BODY_RESOLUTION_SCHEMA, ⟨view.qualified, select⟩⟩
  have unknown : ¬s.Known view.qualified := recording.fresh view (by simp)
  have unrecorded : view.qualified ∉ s.statements.map (·.qualifiedName) := fun member =>
    unknown (.inl ((recording.views _).mpr member))
  have resolved : ∀ name ∈ statement.references planner, s.Known name := by
    intro name member
    by_contra missing
    refine succeeds (.inr ⟨name, ?_, missing⟩)
    rw [recording.placed]
    exact member
  have stays : ∀ name, name ≠ view.qualified →
      Function.update s.views view.qualified (some plan) name = s.views name :=
    fun name ne => Function.update_of_ne ne _ _
  have keeps : ∀ name, s.Known name → SessionState.Known { s with
      executed := executed
      views := Function.update s.views view.qualified (some plan)
      statements := s.statements ++ [statement] } name := by
    intro name known
    by_cases same : name = view.qualified
    · exact absurd (same ▸ known) unknown
    · unfold SessionState.Known
      dsimp only
      rw [stays name same]
      exact known
  have moved : List.Perm (before ++ view :: after) (view :: (before ++ after)) :=
    List.perm_middle
  have distinct := (moved.map (·.qualified)).nodup_iff.mp recording.distinct
  refine ⟨recording.placed, ⟨?_, ?_, ?_, ?_⟩, ?_, ?_, ?_, (List.nodup_cons.mp distinct).2⟩
  · rw [List.map_append, List.nodup_append]
    refine ⟨recording.order.distinct, List.nodup_singleton _, ?_⟩
    rintro name member _ last rfl
    have same : name = view.qualified := List.mem_singleton.mp last
    exact unrecorded (same ▸ member)
  · intro other member
    obtain inside | last := List.mem_append.mp member
    · exact recording.order.named other inside
    · rw [List.mem_singleton.mp last]
  · refine List.pairwise_append.mpr ⟨recording.order.earlier, List.pairwise_singleton _ _, ?_⟩
    intro other member _ last named
    obtain rfl := List.mem_singleton.mp last
    exact unknown (recording.known other member _ named)
  · intro other member
    obtain inside | last := List.mem_append.mp member
    · exact recording.order.notItself other inside
    · obtain rfl := List.mem_singleton.mp last
      exact fun named => unknown (resolved _ named)
  · intro other member name named
    obtain inside | last := List.mem_append.mp member
    · exact keeps name (recording.known other inside name named)
    · obtain rfl := List.mem_singleton.mp last
      exact keeps name (resolved name named)
  · intro name
    rw [List.map_append, List.mem_append, ← recording.views]
    by_cases same : name = view.qualified
    · rw [same]
      refine iff_of_true ?_ (.inr List.mem_cons_self)
      dsimp only
      rw [Function.update_self]
      exact nofun
    · dsimp only
      rw [stays name same]
      refine (or_iff_left fun last => same ?_).symm
      exact List.mem_singleton.mp last
  · intro other member known
    have apart : other.qualified ≠ view.qualified := fun same =>
      (List.nodup_cons.mp distinct).1 (List.mem_map.mpr ⟨other, member, same⟩)
    have listed : other ∈ before ++ view :: after :=
      moved.mem_iff.mpr (List.mem_cons_of_mem _ member)
    refine recording.fresh other listed ?_
    unfold SessionState.Known at known
    dsimp only at known
    rw [stays _ apart] at known
    exact known

theorem Recording.attempts {pending : List ViewToRegister} {pass : Pass P}
    (recording : Recording planner (pass.stillFailing ++ pending) pass.session) :
    Recording planner (pending.foldl (Pass.attempt planner) pass).stillFailing
      (pending.foldl (Pass.attempt planner) pass).session := by
  induction pending generalizing pass with
  | nil =>
    rw [List.append_nil] at recording
    exact recording
  | cons view rest ih =>
    rw [List.foldl_cons]
    refine ih ?_
    unfold Pass.attempt
    obtain ⟨executed, error, run⟩ | ⟨select, executed, plan, succeeds, run⟩ :=
      @tryCreateView_cases _ planner pass.session view VIEW_BODY_RESOLUTION_SCHEMA
    · rw [run]
      dsimp only
      rw [List.append_assoc]
      exact recording.congr executed
    · rw [run]
      exact recording.create succeeds executed plan

theorem Recording.loop {pending : List ViewToRegister} {s : SessionState P}
    (recording : Recording planner pending s) (createdOrder : List String) :
    ∃ rest, Recording planner rest (createLoop planner s pending createdOrder).1 := by
  induction s, pending, createdOrder using createLoop.induct planner with
  | case1 s pending createdOrder pass nothing =>
    have after : Recording planner pass.stillFailing pass.session := Recording.attempts recording
    rw [createLoop, if_pos nothing]
    exact ⟨_, after⟩
  | case2 s pending createdOrder pass some_ none_ =>
    have after : Recording planner pass.stillFailing pass.session := Recording.attempts recording
    rw [createLoop, if_neg some_, if_pos none_]
    exact ⟨_, after⟩
  | case3 s pending createdOrder pass some_ left_ ih =>
    have after : Recording planner pass.stillFailing pass.session := Recording.attempts recording
    rw [createLoop, if_neg some_, if_neg left_]
    exact ih after

/-- Views to create in a session that has none yet, in any order. -/
structure CatalogViews (P : Type) where
  base : SessionState P
  views : List ViewToRegister
  order : ViewOrder
  distinct : (views.map (·.qualified)).Nodup
  viewless : ∀ name, base.views name = none
  /-- No base table has the name of a view. -/
  unprovided : ∀ view ∈ views, base.providers view.qualified = none
  unrecorded : base.statements = []

def CatalogViews.created (planner : Planner) (c : CatalogViews P) : SessionState P :=
  (createRegisteredViews planner c.base c.views c.order).1

/-- The session once its base tables got other providers. -/
def SessionState.withProviders (s : SessionState P) (providers : String → Option P) :
    SessionState P :=
  { s with providers := providers }

/-- Planning when other statements fail. -/
def Planner.refusing (planner : Planner) (refuses : CreateView → Option DataFusionError) :
    Planner :=
  { planner with refuses := refuses }

/-- What creating views records is in order, and the views are the recorded ones. -/
theorem CatalogViews.recorded (planner : Planner) (c : CatalogViews P) :
    InOrder planner (c.created planner).statements ∧ ∀ name,
      (c.created planner).views name ≠ none ↔
        name ∈ (c.created planner).statements.map (·.qualifiedName) := by
  unfold created createRegisteredViews
  have nothing : InOrder planner [] := ⟨List.nodup_nil, nofun, .nil, nofun⟩
  split
  · rw [c.unrecorded]
    exact ⟨nothing, fun name => iff_of_false (fun some_ => some_ (c.viewless name)) nofun⟩
  · have sorted : List.Perm (orderViews c.order c.views) c.views := List.mergeSort_perm _ _
    have start : Recording planner (orderViews c.order c.views)
        { c.base with statements := [], defaultSchema := VIEW_BODY_RESOLUTION_SCHEMA } := by
      refine ⟨rfl, nothing, nofun, fun name => ?_, fun view member => ?_, ?_⟩
      · exact iff_of_false (fun some_ => some_ (c.viewless name)) nofun
      · rintro (viewed | provided)
        · exact viewed (c.viewless _)
        · exact provided (c.unprovided view (sorted.mem_iff.mp member))
      · exact (sorted.map _).nodup_iff.mpr c.distinct
    obtain ⟨rest, recording⟩ := start.loop []
    exact ⟨recording.order, recording.views⟩

/-- Neither other providers nor other failures change what is recorded. -/
theorem CatalogViews.replaced (planner : Planner) (c : CatalogViews P)
    (providers : String → Option P) (refuses : CreateView → Option DataFusionError) :
    InOrder (planner.refusing refuses)
        ((c.created planner).withProviders providers).statements ∧ ∀ name,
      ((c.created planner).withProviders providers).views name ≠ none ↔
        name ∈ ((c.created planner).withProviders providers).statements.map (·.qualifiedName) := by
  obtain ⟨order, viewed⟩ := c.recorded planner
  exact ⟨⟨order.distinct, order.named, order.earlier, order.notItself⟩, viewed⟩

/-- After a replay no view that still reads a replaced provider goes unreported. -/
structure Reported (planner : Planner) (s : SessionState P) : Prop where
  named : ∀ statement ∈ s.statements,
    (replanRegisteredViewsAgainstCurrentProviders planner s).1.Stale statement.qualifiedName →
      ∃ failures, (replanRegisteredViewsAgainstCurrentProviders planner s).2 = .error ⟨failures⟩ ∧
        statement.qualifiedName ∈ failures.map Prod.fst
  current : (replanRegisteredViewsAgainstCurrentProviders planner s).2 = .ok () →
    ∀ statement ∈ s.statements,
      ¬(replanRegisteredViewsAgainstCurrentProviders planner s).1.Stale statement.qualifiedName
  attempts : (replanRegisteredViewsAgainstCurrentProviders planner s).1.executed =
    s.executed ++ s.statements.map (·.createSql)
  restored : (replanRegisteredViewsAgainstCurrentProviders planner s).1.defaultSchema =
    s.defaultSchema

/-- No statement that can be replayed names a view that cannot and reads a replaced provider. -/
def NoneInherited (planner : Planner) (s : SessionState P) : Prop :=
  ∀ statement ∈ s.statements, ∀ dependency ∈ s.statements,
    ¬Unreplayable planner s statement → Unreplayable planner s dependency →
      dependency.qualifiedName ∈ statement.references planner →
        ¬s.Stale dependency.qualifiedName

section
variable {s s' : SessionState P} {failures : List (String × DataFusionError)}

theorem statement_of_name (order : InOrder planner s.statements)
    {a b : RegisteredViewStatement} (first : a ∈ s.statements) (second : b ∈ s.statements)
    (same : a.qualifiedName = b.qualifiedName) : a = b :=
  List.inj_on_of_nodup_map order.distinct first second same

/-- A view whose statement fails stays as stale as it was. -/
theorem Replayed.stale_of_failed (order : InOrder planner s.statements)
    (replayed : Replayed planner s.statements s s' failures)
    {statement : RegisteredViewStatement} (member : statement ∈ s.statements)
    (fails : Unreplayable planner s statement) :
    s'.Stale statement.qualifiedName ↔ s.Stale statement.qualifiedName := by
  refine stale_congr replayed.providers (replayed.unchanged _ fun other inside named => ?_)
  rw [statement_of_name order inside member named]
  exact fails

/-- Along the record, a view that was replayed is stale only through one that was not. -/
theorem Replayed.not_stale (order : InOrder planner s.statements)
    (replayed : Replayed planner s.statements s s' failures)
    (viewed : ∀ name, s.views name ≠ none ↔ name ∈ s.statements.map (·.qualifiedName))
    (none_ : NoneInherited planner s) (i : Nat) (low : i < s.statements.length)
    (succeeds : ¬Unreplayable planner s s.statements[i]) :
    ¬s'.Stale s.statements[i].qualifiedName := by
  induction i using Nat.strongRecOn with
  | ind i ih =>
    have member := List.getElem_mem low
    rw [replayed.stale _ member succeeds]
    rintro ⟨name, named, stale⟩
    -- Only a view can be stale, and a view is recorded.
    have kept : name ∈ s.statements.map (·.qualifiedName) := by
      by_contra absent
      have same := replayed.unchanged name fun other inside same =>
        absurd (List.mem_map.mpr ⟨other, inside, same⟩) absent
      obtain ⟨plan, some_, _⟩ := stale
      exact absent ((viewed name).mp (by rw [← same, some_]; exact nofun))
    obtain ⟨dependency, inside, rfl⟩ := List.mem_map.mp kept
    by_cases fails : Unreplayable planner s dependency
    · rw [replayed.stale_of_failed order inside fails] at stale
      exact none_ _ member _ inside succeeds fails named stale
    · obtain ⟨j, low', rfl⟩ := List.mem_iff_getElem.mp inside
      have before : j < i := by
        by_contra notBefore
        obtain rfl | after := Nat.eq_or_lt_of_le (Nat.le_of_not_lt notBefore)
        · exact order.notItself _ member named
        · exact List.pairwise_iff_getElem.mp order.earlier i j low low' after named
      exact ih j before low' fails stale

theorem reported_iff (order : InOrder planner s.statements)
    (viewed : ∀ name, s.views name ≠ none ↔ name ∈ s.statements.map (·.qualifiedName)) :
    Reported planner s ↔ NoneInherited planner s := by
  have targets : ∀ statement ∈ s.statements, s.views statement.qualifiedName ≠ none :=
    fun statement member => (viewed _).mpr (List.mem_map.mpr ⟨statement, member, rfl⟩)
  have replayed := replanStatements_replayed order s targets
  by_cases empty : s.statements = []
  · have run : replanRegisteredViewsAgainstCurrentProviders planner s = (s, .ok ()) :=
      if_pos empty
    refine iff_of_true ⟨?_, ?_, ?_, ?_⟩ ?_
    · rw [empty]
      exact nofun
    · rw [empty]
      exact fun _ => nofun
    · rw [run, empty]
      exact (List.append_nil _).symm
    · rw [run]
    · unfold NoneInherited
      rw [empty]
      exact nofun
  have run : replanRegisteredViewsAgainstCurrentProviders planner s =
      ({ (replanStatements planner s s.statements).1 with defaultSchema := s.defaultSchema },
        if (replanStatements planner s s.statements).2 = [] then .ok ()
        else .error ⟨(replanStatements planner s s.statements).2⟩) := if_neg empty
  generalize replanStatements planner s s.statements = outcome at replayed run
  obtain ⟨s', failures⟩ := outcome
  dsimp only at replayed run
  have failing : ∀ statement ∈ s.statements,
      (statement.qualifiedName ∈ failures.map Prod.fst ↔ Unreplayable planner s statement) := by
    intro statement member
    rw [replayed.failed]
    constructor
    · rintro ⟨other, inside, named, fails⟩
      exact statement_of_name order inside member named ▸ fails
    · exact fun fails => ⟨statement, member, rfl, fails⟩
  have after : ∀ name, (replanRegisteredViewsAgainstCurrentProviders planner s).1.Stale name ↔
      s'.Stale name := by
    rw [run]
    exact fun name => Iff.rfl
  constructor
  · rintro ⟨named, _, _, _⟩ statement member dependency inside succeeds fails listed stale
    have source := (replayed.stale_of_failed order inside fails).mpr stale
    have reads := (replayed.stale statement member succeeds).mpr ⟨_, listed, source⟩
    obtain ⟨reported, error, mentioned⟩ := named statement member ((after _).mpr reads)
    rw [run] at error
    dsimp only at error
    split at error
    · cases error
    · injection error with error
      injection error with error
      rw [← error] at mentioned
      exact succeeds ((failing statement member).mp mentioned)
  · intro none_
    have fresh : ∀ statement ∈ s.statements, ¬Unreplayable planner s statement →
        ¬s'.Stale statement.qualifiedName := by
      intro statement member succeeds
      obtain ⟨i, low, rfl⟩ := List.mem_iff_getElem.mp member
      exact replayed.not_stale order viewed none_ i low succeeds
    refine ⟨fun statement member stale => ?_, fun ok statement member stale => ?_, ?_, ?_⟩
    · have fails : Unreplayable planner s statement := by
        by_contra succeeds
        exact fresh statement member succeeds ((after _).mp stale)
      have mentioned := (failing statement member).mpr fails
      refine ⟨failures, ?_, mentioned⟩
      rw [run]
      refine if_neg fun none_ => ?_
      rw [none_] at mentioned
      cases mentioned
    · rw [run] at ok
      dsimp only at ok
      split at ok
      · rename_i none_
        refine fresh statement member (fun fails => ?_) ((after _).mp stale)
        have mentioned := (failing statement member).mpr fails
        rw [none_] at mentioned
        cases mentioned
      · cases ok
    · rw [run]
      exact replayed.attempts
    · rw [run]

end

/-- Whatever providers base tables get and whichever statements then fail, no stale view goes
unreported exactly if none that is replayed names one that failed and is stale. -/
theorem replan_reports_iff (planner : Planner) (c : CatalogViews P)
    (providers : String → Option P) (refuses : CreateView → Option DataFusionError) :
    Reported (planner.refusing refuses) ((c.created planner).withProviders providers) ↔
      NoneInherited (planner.refusing refuses) ((c.created planner).withProviders providers) := by
  obtain ⟨order, viewed⟩ := c.replaced planner providers refuses
  exact reported_iff order viewed

end

/-- The table `base`, a view on it, and a view on that view. -/
def chainPlanner : Planner where
  references _ select := if select = "base" then ["base"] else [formatFullyQualifiedName "c" "s" "a"]
  refuses _ := none
  simplifiedViewBody _ name := some (if name = "a" then "base" else "a")
  rewriteSelect select := .ok select

def chainViews : CatalogViews Nat where
  base := ⟨"public", fun name => if name = "base" then some 0 else none, fun _ => none, [], []⟩
  views := [⟨"c", "s", "a", "base"⟩, ⟨"c", "s", "b", "a"⟩]
  order := .discover
  distinct := by decide +kernel
  viewless _ := rfl
  unprovided := by decide +kernel
  unrecorded := rfl

theorem chain_ordered : orderViews .discover chainViews.views = chainViews.views :=
  List.mergeSort_of_pairwise (by decide +kernel)

def chainPass : Pass Nat where
  session :=
    { defaultSchema := "pg_catalog"
      providers := chainViews.base.providers
      views := Function.update
        (Function.update (fun _ => none) (formatFullyQualifiedName "c" "s" "a") (some [⟨"base", 0⟩]))
        (formatFullyQualifiedName "c" "s" "b") (some [⟨"base", 0⟩])
      statements := [
        ⟨formatFullyQualifiedName "c" "s" "a", "pg_catalog",
          ⟨formatFullyQualifiedName "c" "s" "a", "base"⟩⟩,
        ⟨formatFullyQualifiedName "c" "s" "b", "pg_catalog",
          ⟨formatFullyQualifiedName "c" "s" "b", "a"⟩⟩]
      executed := [⟨formatFullyQualifiedName "c" "s" "a", "base"⟩,
        ⟨formatFullyQualifiedName "c" "s" "b", "a"⟩] }
  created := ["s.a", "s.b"]
  stillFailing := []
  lastError := none

theorem chain_pass : createPass chainPlanner { chainViews.base with
    statements := [], defaultSchema := VIEW_BODY_RESOLUTION_SCHEMA } chainViews.views =
      chainPass := rfl

theorem chain_created :
    chainViews.created chainPlanner = { chainPass.session with defaultSchema := "public" } := by
  have loop : createLoop chainPlanner { chainViews.base with
      statements := [], defaultSchema := VIEW_BODY_RESOLUTION_SCHEMA }
      (orderViews .discover chainViews.views) [] = (chainPass.session, .ok ["s.a", "s.b"]) := by
    rw [chain_ordered, createLoop, chain_pass]
    rfl
  have some_ : chainViews.views ≠ [] := nofun
  unfold CatalogViews.created createRegisteredViews
  rw [if_neg some_]
  exact congrArg (fun r : SessionState Nat × DFResult (List String) =>
    ({ r.1 with defaultSchema := "public" } : SessionState Nat)) loop

/-- The first view fails to be replanned; the second keeps reading the old provider through
it, and only the first is named. -/
theorem dependent_unreported : ¬Reported
    (chainPlanner.refusing fun create =>
      if create.select = "base" then some (.plan "no such column") else none)
    ((chainViews.created chainPlanner).withProviders fun name =>
      if name = "base" then some 1 else none) := by
  obtain ⟨order, viewed⟩ := chainViews.replaced chainPlanner
    (fun name => if name = "base" then some 1 else none)
    fun create => if create.select = "base" then some (.plan "no such column") else none
  intro reported
  have none_ := (reported_iff order viewed).mp reported
  rw [chain_created] at none_
  have first : chainPass.session.views (formatFullyQualifiedName "c" "s" "a") =
      some [⟨"base", 0⟩] := rfl
  refine none_ ⟨formatFullyQualifiedName "c" "s" "b", "pg_catalog",
      ⟨formatFullyQualifiedName "c" "s" "b", "a"⟩⟩ (.tail _ (.head _))
    ⟨formatFullyQualifiedName "c" "s" "a", "pg_catalog",
      ⟨formatFullyQualifiedName "c" "s" "a", "base"⟩⟩ (.head _) ?_
    (.inl (by simp [Planner.refusing])) List.mem_cons_self
    ⟨_, first, ⟨"base", 0⟩, List.mem_cons_self, by simp [SessionState.withProviders]⟩
  rintro (refused | ⟨name, member, unknown⟩)
  · exact refused rfl
  · obtain rfl := List.mem_singleton.mp member
    exact unknown (.inl nofun)

end PgCatalog.Session
