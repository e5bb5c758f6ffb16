import PgCatalog.Catalog.Loops
import PgCatalog.Library.Union

/-! A source that merges the answers of several: databases and relations refuse a name
met twice, the other lists keep the first of each key, columns come from one source. -/
namespace PgCatalog

open Library

/-- The sources in order of precedence. -/
structure CombinedCatalogSource where
  sources : List LazyCatalogSource

/-- One answer in hand, however many callbacks it came in. -/
def collected {α : Type} (query : Delivery α) : DFResult (List α) := query.fetch

namespace CombinedCatalogSource

section
variable {α K : Type} [DecidableEq K] (query : LazyCatalogSource → Delivery α) (key : α → K)

/-- Every key of an answer into the set of those seen, or the first that is there already. -/
def insertAll (refused : α → DataFusionError) : List α → List K → DFResult (List K)
  | [], seen => return seen
  | d :: rest, seen =>
    if key d ∈ seen then .error (refused d) else insertAll refused rest (key d :: seen)

/-- The elements of an answer whose keys are new, and the keys seen after it. -/
def retain : List α → List K → List α × List K
  | [], seen => ([], seen)
  | d :: rest, seen =>
    if key d ∈ seen then retain rest seen
    else
      let (kept, seen) := retain rest (key d :: seen)
      (d :: kept, seen)

/-- A callback before what a method does next. -/
def callback (defs : List α) (next : Delivery α) : Delivery α :=
  ⟨defs :: next.batches, next.result⟩

/-- The loop over the sources that refuses a key two of them report. -/
def refusing (refused : α → DataFusionError) : List LazyCatalogSource → List K → Delivery α
  | [], _ => .nothing
  | source :: rest, seen =>
    match collected (query source) with
    | .error e => ⟨[], .error e⟩
    | .ok defs =>
      match insertAll key refused defs seen with
      | .error e => ⟨[], .error e⟩
      | .ok seen => callback defs (refusing refused rest seen)

/-- The loop over the sources that drops a key reported before. -/
def retaining : List LazyCatalogSource → List K → Delivery α
  | [], _ => .nothing
  | source :: rest, seen =>
    match collected (query source) with
    | .error e => ⟨[], .error e⟩
    | .ok defs =>
      let (kept, seen) := retain key defs seen
      callback kept (retaining rest seen)

/-- The loop over the sources that stops at the first with something to say. -/
def answering : List LazyCatalogSource → Delivery α
  | [] => .nothing
  | source :: rest =>
    match collected (query source) with
    | .error e => ⟨[], .error e⟩
    | .ok specs => if specs.isEmpty then answering rest else .once specs

end

def databaseRefused (d : DatabaseDef) : DataFusionError :=
  .execution s!"database \"{d.datname}\" is reported by more than one catalog source"

def relationRefused (database schema : String) (d : RelationDef) : DataFusionError :=
  .execution (s!"relation \"{d.name}\" in \"{database}\".\"{schema}\" is reported "
    ++ "by more than one catalog source")

section
variable (c : CombinedCatalogSource)

def databases : Delivery DatabaseDef :=
  refusing (·.databases) (·.datname) databaseRefused c.sources []

def schemas (database : String) : Delivery SchemaDef :=
  retaining (·.schemas database) (·.name) c.sources []

def relations (database schema : String) : Delivery RelationDef :=
  refusing (·.relations database schema) (·.name) (relationRefused database schema) c.sources []

def columns (database schema relation : String) : Delivery ColumnSpec :=
  answering (·.columns database schema relation) c.sources

def indexes (database schema : String) : Delivery IndexDef :=
  retaining (·.indexes database schema) (·.indexOid) c.sources []

def constraints (database schema : String) : Delivery ConstraintDef :=
  retaining (·.constraints database schema) (·.oid) c.sources []

def config : Delivery ConfigSettingDef := retaining (·.config) (·.name) c.sources []

def settings : Delivery SettingDef := retaining (·.settings) (·.name) c.sources []

/-- The combination is a source again. -/
def toLazy : LazyCatalogSource where
  databases := c.databases
  schemas := c.schemas
  relations := c.relations
  columns := c.columns
  indexes := c.indexes
  constraints := c.constraints
  config := c.config
  settings := c.settings

end

/-- What a question was answered with, if it was. -/
def answer {α : Type} (query : LazyCatalogSource → Delivery α) (source : LazyCatalogSource) :
    Option (List α) := (query source).fetch.toOption

section
variable {α K : Type} [DecidableEq K] {query : LazyCatalogSource → Delivery α} {key : α → K}

@[simp] theorem fetch_callback (defs : List α) (next : Delivery α) :
    (callback defs next).fetch = next.fetch.map (defs ++ ·) := by
  simp only [callback, Delivery.fetch, List.flatten_cons]
  cases next.result <;> rfl

@[simp] theorem fetch_failed (e : DataFusionError) :
    (⟨[], .error e⟩ : Delivery α).fetch = .error e := rfl

instance (names taken : List K) : Decidable (Fresh names taken) :=
  inferInstanceAs (Decidable (_ ∧ _))

omit [DecidableEq K] in
theorem fresh_append {names later taken : List K} :
    Fresh (names ++ later) taken ↔ Fresh names taken ∧ Fresh later (names.reverse ++ taken) := by
  simp only [Fresh, List.nodup_append, List.mem_append, List.mem_reverse]
  grind

theorem toOption_map {β : Type} (f : α → β) (answered : DFResult α) :
    (answered.map f).toOption = answered.toOption.map f := by
  cases answered <;> rfl

theorem insertAll_ok_iff {refused : α → DataFusionError} {defs : List α} {seen seen' : List K} :
    insertAll key refused defs seen = .ok seen' ↔
      Fresh (defs.map key) seen ∧ (defs.map key).reverse ++ seen = seen' := by
  induction defs generalizing seen with
  | nil =>
    simp only [List.map_nil, fresh_nil, true_and, List.reverse_nil, List.nil_append]
    exact ⟨Except.ok.inj, congrArg _⟩
  | cons d rest ih =>
    rw [insertAll, List.map_cons, fresh_cons, ← fresh_swap]
    split
    · rename_i present
      exact iff_of_false (by rintro ⟨⟩) fun both => both.1.1 present
    · rename_i absent
      rw [ih, and_iff_right absent, List.reverse_cons, List.append_assoc, List.singleton_append]

theorem retain_eq (defs : List α) (seen : List K) :
    retain key defs seen =
      (firstByKey key seen defs, ((firstByKey key seen defs).map key).reverse ++ seen) := by
  induction defs generalizing seen with
  | nil => rfl
  | cons d rest ih =>
    rw [retain, firstByKey]
    split
    · exact ih seen
    · simp only [ih, List.map_cons, List.reverse_cons, List.append_assoc, List.singleton_append]

/-- The refusing loop answers with everything in order, or fails. -/
theorem refusing_answer (refused : α → DataFusionError) (sources : List LazyCatalogSource)
    (seen : List K) :
    (refusing query key refused sources seen).fetch.toOption =
      (concatenated (sources.map (answer query))).filter fun xs => Fresh (xs.map key) seen := by
  induction sources generalizing seen with
  | nil =>
    have fresh : decide (Fresh (([] : List α).map key) seen) = true :=
      decide_eq_true (fresh_nil seen)
    rw [List.map_nil, concatenated, Option.filter_some, if_pos fresh]
    rfl
  | cons source rest ih =>
    rw [refusing, collected, List.map_cons]
    cases first : (query source).fetch with
    | error e =>
      have failed : answer query source = none := by rw [answer, first]; rfl
      rw [failed]
      rfl
    | ok defs =>
      have told : answer query source = some defs := by rw [answer, first]; rfl
      rw [told, concatenated]
      dsimp only
      cases inserted : insertAll key refused defs seen with
      | error e =>
        have taken : ¬Fresh (defs.map key) seen := fun fresh => by
          rw [insertAll_ok_iff.mpr ⟨fresh, rfl⟩] at inserted
          cases inserted
        cases concatenated (rest.map (answer query)) with
        | none => rfl
        | some later =>
          have still : ¬Fresh ((defs ++ later).map key) seen := fun fresh =>
            taken (fresh_append.mp (List.map_append ▸ fresh)).1
          rw [Option.map_some, Option.filter_some, if_neg (by simpa using still)]
          rfl
      | ok seen' =>
        obtain ⟨fresh, rfl⟩ := insertAll_ok_iff.mp inserted
        dsimp only
        rw [fetch_callback, toOption_map, ih]
        cases concatenated (rest.map (answer query)) with
        | none => rfl
        | some later =>
          have both : Fresh ((defs ++ later).map key) seen ↔
              Fresh (later.map key) ((defs.map key).reverse ++ seen) := by
            rw [List.map_append, fresh_append, and_iff_right fresh]
          simp only [Option.map_some, Option.filter_some, both]
          split <;> rfl

/-- The retaining loop answers with what is new, in order. -/
theorem retaining_answer (sources : List LazyCatalogSource) (seen : List K) :
    (retaining query key sources seen).fetch.toOption =
      (concatenated (sources.map (answer query))).map (firstByKey key seen) := by
  induction sources generalizing seen with
  | nil => rfl
  | cons source rest ih =>
    rw [retaining, collected, List.map_cons]
    cases first : (query source).fetch with
    | error e =>
      have failed : answer query source = none := by rw [answer, first]; rfl
      rw [failed]
      rfl
    | ok defs =>
      have told : answer query source = some defs := by rw [answer, first]; rfl
      rw [told, concatenated]
      dsimp only
      rw [retain_eq, fetch_callback, toOption_map, ih, Option.map_map, Option.map_map]
      refine congrArg (Option.map · _) (funext fun later => ?_)
      have kept : ∀ k, k ∈ ((firstByKey key seen defs).map key).reverse ++ seen ↔
          k ∈ defs.map key ++ seen := fun k => by
        rw [← mem_keys_firstByKey, List.mem_append, List.mem_append, List.mem_reverse]
      rw [Function.comp_apply, Function.comp_apply, firstByKey_append, firstByKey_congr key kept]

omit [DecidableEq K] in
/-- The last loop answers as its first source with something to say does. -/
theorem answering_answer (sources : List LazyCatalogSource) :
    (answering query sources).fetch.toOption = firstNonempty (sources.map (answer query)) := by
  induction sources with
  | nil => rfl
  | cons source rest ih =>
    rw [answering, collected, List.map_cons]
    cases first : (query source).fetch with
    | error e =>
      have failed : answer query source = none := by rw [answer, first]; rfl
      rw [failed]
      rfl
    | ok specs =>
      have told : answer query source = some specs := by rw [answer, first]; rfl
      rw [told]
      cases specs with
      | nil => exact ih
      | cons spec specs =>
        have once : (Delivery.once (spec :: specs)).fetch = .ok (spec :: specs) :=
          Delivery.fetch_once _
        exact congrArg Except.toOption once

end

/-- The source that a nesting of combinations is. -/
def ofNested : Nested LazyCatalogSource → LazyCatalogSource :=
  Nested.value (fun sources => (CombinedCatalogSource.mk sources).toLazy) id

/-- Two sources answer every question with the same definitions, or both fail. -/
structure SameAnswers (a b : LazyCatalogSource) : Prop where
  databases : a.databases.fetch.toOption = b.databases.fetch.toOption
  schemas : ∀ database,
    (a.schemas database).fetch.toOption = (b.schemas database).fetch.toOption
  relations : ∀ database schema,
    (a.relations database schema).fetch.toOption = (b.relations database schema).fetch.toOption
  columns : ∀ database schema relation,
    (a.columns database schema relation).fetch.toOption =
      (b.columns database schema relation).fetch.toOption
  indexes : ∀ database schema,
    (a.indexes database schema).fetch.toOption = (b.indexes database schema).fetch.toOption
  constraints : ∀ database schema,
    (a.constraints database schema).fetch.toOption = (b.constraints database schema).fetch.toOption
  config : a.config.fetch.toOption = b.config.fetch.toOption
  settings : a.settings.fetch.toOption = b.settings.fetch.toOption

section
variable {α K : Type} [DecidableEq K] (query : LazyCatalogSource → Delivery α) (key : α → K)
  (combine : List LazyCatalogSource → Delivery α)

/-- What the sources answer, source by source, none of them failing. -/
def Told (sources : List LazyCatalogSource) (answers : List (List α)) : Prop :=
  List.Forall₂ (fun source told => (query source).fetch = .ok told) sources answers

/-- Everything is given on in order, unless a key is met twice. -/
structure RefusesTwice : Prop where
  answered : ∀ sources out, (combine sources).fetch = .ok out ↔
    ∃ answers, Told query sources answers ∧ (answers.flatten.map key).Nodup ∧
      out = answers.flatten
  failed : ∀ before source after answers e, Told query before answers →
    (answers.flatten.map key).Nodup → (query source).fetch = .error e →
    (combine (before ++ source :: after)).fetch = .error e

/-- The first definition of each key is given on, in order. -/
structure KeepsFirst : Prop where
  answered : ∀ sources out, (combine sources).fetch = .ok out ↔
    ∃ answers, Told query sources answers ∧
      out = answers.flatten.eraseDupsBy fun a b => decide (key a = key b)
  failed : ∀ before source after answers e, Told query before answers →
    (query source).fetch = .error e → (combine (before ++ source :: after)).fetch = .error e

/-- The first answer that is not empty is given on, and no source after it is asked. -/
structure AnswersFirst : Prop where
  answered : ∀ before source after out, (∀ silent ∈ before, (query silent).fetch = .ok []) →
    (query source).fetch = .ok out → out ≠ [] →
    (combine (before ++ source :: after)).fetch = .ok out
  unknown : ∀ sources, (∀ silent ∈ sources, (query silent).fetch = .ok []) →
    (combine sources).fetch = .ok []
  failed : ∀ before source after e, (∀ silent ∈ before, (query silent).fetch = .ok []) →
    (query source).fetch = .error e → (combine (before ++ source :: after)).fetch = .error e

end

/-- What a combination of a flat list answers, method by method. -/
structure FlatUnion (combine : List LazyCatalogSource → LazyCatalogSource) : Prop where
  databases : RefusesTwice (·.databases) (·.datname) fun sources => (combine sources).databases
  schemas : ∀ database,
    KeepsFirst (·.schemas database) (·.name) fun sources => (combine sources).schemas database
  relations : ∀ database schema, RefusesTwice (·.relations database schema) (·.name)
    fun sources => (combine sources).relations database schema
  columns : ∀ database schema relation, AnswersFirst (·.columns database schema relation)
    fun sources => (combine sources).columns database schema relation
  indexes : ∀ database schema, KeepsFirst (·.indexes database schema) (·.indexOid)
    fun sources => (combine sources).indexes database schema
  constraints : ∀ database schema, KeepsFirst (·.constraints database schema) (·.oid)
    fun sources => (combine sources).constraints database schema
  config : KeepsFirst (·.config) (·.name) fun sources => (combine sources).config
  settings : KeepsFirst (·.settings) (·.name) fun sources => (combine sources).settings

section
variable {α K : Type} [DecidableEq K] {query : LazyCatalogSource → Delivery α} {key : α → K}

theorem told_append {first second : List LazyCatalogSource} {answers : List (List α)} :
    Told query (first ++ second) answers ↔
      ∃ xs ys, Told query first xs ∧ Told query second ys ∧ answers = xs ++ ys := by
  unfold Told
  constructor
  · intro told
    have lengths := told.length_eq
    refine ⟨answers.take first.length, answers.drop first.length, ?_, ?_,
      (List.take_append_drop _ _).symm⟩
    · simpa using List.forall₂_take first.length told
    · simpa using List.forall₂_drop first.length told
  · rintro ⟨xs, ys, toldFirst, toldSecond, rfl⟩
    exact List.rel_append toldFirst toldSecond

theorem toOption_ok {answered : DFResult (List α)} {out : List α} :
    answered = .ok out ↔ answered.toOption = some out := by
  cases answered with
  | error e => exact ⟨nofun, nofun⟩
  | ok told => exact ⟨fun same => congrArg Except.toOption same, fun same => by
      rw [Option.some.inj same]⟩

/-- All answers are there exactly when no source fails. -/
theorem concatenated_some {sources : List LazyCatalogSource} {out : List α} :
    concatenated (sources.map (answer query)) = some out ↔
      ∃ answers, Told query sources answers ∧ out = answers.flatten := by
  induction sources generalizing out with
  | nil =>
    constructor
    · intro same
      exact ⟨[], .nil, (Option.some.inj same).symm⟩
    · rintro ⟨answers, told, rfl⟩
      cases told
      rfl
  | cons source rest ih =>
    rw [List.map_cons]
    constructor
    · intro same
      cases first : answer query source with
      | none => rw [first] at same; cases same
      | some xs =>
        rw [first, concatenated, Option.map_eq_some_iff] at same
        obtain ⟨later, all, rfl⟩ := same
        obtain ⟨answers, told, rfl⟩ := ih.mp all
        exact ⟨xs :: answers, .cons (toOption_ok.mpr first) told, rfl⟩
    · rintro ⟨_, _ | ⟨first, told⟩, rfl⟩
      have told' := ih.mpr ⟨_, told, rfl⟩
      have here := toOption_ok.mp first
      rw [answer, here, concatenated, told']
      rfl

theorem refusing_failed {refused : α → DataFusionError} {before after : List LazyCatalogSource}
    {source : LazyCatalogSource} {answers : List (List α)} {e : DataFusionError} {seen : List K}
    (told : Told query before answers) (fresh : Fresh (answers.flatten.map key) seen)
    (fails : (query source).fetch = .error e) :
    (refusing query key refused (before ++ source :: after) seen).fetch = .error e := by
  induction told generalizing seen with
  | nil =>
    rw [List.nil_append, refusing, collected, fails]
    rfl
  | @cons first xs rest answers told _ ih =>
    rw [List.flatten_cons, List.map_append, fresh_append] at fresh
    have inserted : insertAll key refused xs seen = .ok _ := insertAll_ok_iff.mpr ⟨fresh.1, rfl⟩
    rw [List.cons_append, refusing, collected, told]
    dsimp only
    rw [inserted]
    dsimp only
    rw [fetch_callback, ih fresh.2]
    rfl

theorem retaining_failed {before after : List LazyCatalogSource} {source : LazyCatalogSource}
    {answers : List (List α)} {e : DataFusionError} {seen : List K}
    (told : Told query before answers) (fails : (query source).fetch = .error e) :
    (retaining query key (before ++ source :: after) seen).fetch = .error e := by
  induction told generalizing seen with
  | nil =>
    rw [List.nil_append, retaining, collected, fails]
    rfl
  | cons told _ ih =>
    rw [List.cons_append, retaining, collected, told]
    dsimp only
    rw [fetch_callback, ih]
    rfl

theorem refusing_policy (refused : α → DataFusionError) :
    RefusesTwice query key fun sources => refusing query key refused sources [] where
  answered sources out := by
    rw [toOption_ok, refusing_answer, Option.filter_eq_some_iff, concatenated_some]
    have fresh : ∀ xs : List α, Fresh (xs.map key) [] ↔ (xs.map key).Nodup := fun xs =>
      and_iff_left fun _ _ => List.not_mem_nil
    simp only [decide_eq_true_eq, fresh]
    constructor
    · rintro ⟨⟨answers, told, rfl⟩, once⟩
      exact ⟨answers, told, once, rfl⟩
    · rintro ⟨answers, told, once, rfl⟩
      exact ⟨⟨answers, told, rfl⟩, once⟩
  failed before source after answers e told once fails :=
    refusing_failed told ⟨once, fun _ _ => List.not_mem_nil⟩ fails

theorem retaining_policy : KeepsFirst query key fun sources => retaining query key sources [] where
  answered sources out := by
    have first : ∀ xs : List α, firstByKey key [] xs =
        xs.eraseDupsBy fun a b => decide (key a = key b) := fun xs => by
      rw [firstByKey_eq_eraseDupsBy, List.filter_eq_self.mpr fun x _ => by simp]
    rw [toOption_ok, retaining_answer, Option.map_eq_some_iff]
    constructor
    · rintro ⟨xs, all, rfl⟩
      obtain ⟨answers, told, rfl⟩ := concatenated_some.mp all
      exact ⟨answers, told, first _⟩
    · rintro ⟨answers, told, rfl⟩
      exact ⟨_, concatenated_some.mpr ⟨answers, told, rfl⟩, first _⟩
  failed before source after answers e told fails := retaining_failed told fails

omit [DecidableEq K] in
theorem answering_silent {before after : List LazyCatalogSource}
    (silent : ∀ source ∈ before, (query source).fetch = .ok []) :
    answering query (before ++ after) = answering query after := by
  induction before with
  | nil => rfl
  | cons source rest ih =>
    have first := silent source List.mem_cons_self
    rw [List.cons_append, answering, collected, first]
    exact ih fun other member => silent other (List.mem_cons_of_mem _ member)

omit [DecidableEq K] in
theorem answering_policy : AnswersFirst query (answering query) where
  answered before source after out silent told some_ := by
    rw [answering_silent silent, answering, collected, told]
    dsimp only
    rw [if_neg (by simpa using some_), Delivery.fetch_once]
  unknown sources silent := by
    rw [← List.append_nil sources, answering_silent silent]
    rfl
  failed before source after e silent fails := by
    rw [answering_silent silent, answering, collected, fails]
    rfl

/-- A method that puts the answers together by a rule that splices does not see nesting. -/
theorem nesting_unseen {combine : List (Option (List α)) → Option (List α)}
    (splices : Splices combine)
    (puts : ∀ sources, answer query (CombinedCatalogSource.mk sources).toLazy =
      combine (sources.map (answer query))) (members : List (Nested LazyCatalogSource)) :
    answer query (CombinedCatalogSource.mk (members.map ofNested)).toLazy =
      answer query (CombinedCatalogSource.mk (Nested.allLeaves members)).toLazy := by
  have shape : members.map ofNested = Nested.values _ id members := Nested.values_eq_map.symm
  have answers := @Nested.map_values _ _ _ _ _ id _ puts members
  have spliced := @Splices.values_eq _ _ _ (answer query) splices members [] []
  rw [List.nil_append, List.nil_append, List.append_nil, List.append_nil] at spliced
  rw [puts, puts, shape, answers]
  exact spliced

theorem refusing_nested (query : LazyCatalogSource → Delivery α) (key : α → K)
    (refused : α → DataFusionError)
    (loop : ∀ sources, query (CombinedCatalogSource.mk sources).toLazy =
      refusing query key refused sources []) (members : List (Nested LazyCatalogSource)) :
    answer query (CombinedCatalogSource.mk (members.map ofNested)).toLazy =
      answer query (CombinedCatalogSource.mk (Nested.allLeaves members)).toLazy := by
  have fresh : (fun xs : List α => decide (Fresh (xs.map key) [])) =
      fun xs => decide (xs.map key).Nodup := funext fun xs =>
    decide_eq_decide.mpr (and_iff_left fun _ _ => List.not_mem_nil)
  refine nesting_unseen (refusingTwice_splices key) (fun sources => ?_) members
  rw [answer, loop, refusing_answer, fresh, refusingTwice]

theorem retaining_nested (query : LazyCatalogSource → Delivery α) (key : α → K)
    (loop : ∀ sources, query (CombinedCatalogSource.mk sources).toLazy =
      retaining query key sources []) (members : List (Nested LazyCatalogSource)) :
    answer query (CombinedCatalogSource.mk (members.map ofNested)).toLazy =
      answer query (CombinedCatalogSource.mk (Nested.allLeaves members)).toLazy := by
  refine nesting_unseen (keepingFirst_splices key) (fun sources => ?_) members
  rw [answer, loop, retaining_answer, keepingFirst]

omit [DecidableEq K] in
theorem answering_nested (query : LazyCatalogSource → Delivery α)
    (loop : ∀ sources, query (CombinedCatalogSource.mk sources).toLazy = answering query sources)
    (members : List (Nested LazyCatalogSource)) :
    answer query (CombinedCatalogSource.mk (members.map ofNested)).toLazy =
      answer query (CombinedCatalogSource.mk (Nested.allLeaves members)).toLazy := by
  refine nesting_unseen firstNonempty_splices (fun sources => ?_) members
  rw [answer, loop, answering_answer]

end

/-- However combinations are nested, the answers are those of the sources in one list, and
what a list answers is told source by source. -/
theorem nested_union :
    (∀ members : List (Nested LazyCatalogSource),
      SameAnswers (CombinedCatalogSource.mk (members.map ofNested)).toLazy
        (CombinedCatalogSource.mk (Nested.allLeaves members)).toLazy) ∧
      FlatUnion fun sources => (CombinedCatalogSource.mk sources).toLazy := by
  constructor
  · intro members
    exact {
      databases := refusing_nested (·.databases) (·.datname) _ (fun _ => rfl) members
      schemas := fun database =>
        retaining_nested (·.schemas database) (·.name) (fun _ => rfl) members
      relations := fun database schema =>
        refusing_nested (·.relations database schema) (·.name) _ (fun _ => rfl) members
      columns := fun database schema relation =>
        answering_nested (·.columns database schema relation) (fun _ => rfl) members
      indexes := fun database schema =>
        retaining_nested (·.indexes database schema) (·.indexOid) (fun _ => rfl) members
      constraints := fun database schema =>
        retaining_nested (·.constraints database schema) (·.oid) (fun _ => rfl) members
      config := retaining_nested (·.config) (·.name) (fun _ => rfl) members
      settings := retaining_nested (·.settings) (·.name) (fun _ => rfl) members }
  · exact {
      databases := refusing_policy _
      schemas := fun _ => retaining_policy
      relations := fun _ _ => refusing_policy _
      columns := fun _ _ _ => answering_policy
      indexes := fun _ _ => retaining_policy
      constraints := fun _ _ => retaining_policy
      config := retaining_policy
      settings := retaining_policy }

end CombinedCatalogSource

end PgCatalog
