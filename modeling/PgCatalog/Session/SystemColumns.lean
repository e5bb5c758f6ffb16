import PgCatalog.CleanDuplicateColumns.Restore
import PgCatalog.Library.Fallible
import PgCatalog.Library.Positions
import PgCatalog.Replace.BooleanScalar
import PgCatalog.Session.IpcArtifact
import PgCatalog.Sql.Mentions
import PgCatalog.Sql.Visit

/-! `remove_virtual_system_columns`: the system columns of a result that are pruned by the words
of the rewritten statement, and those that a client did not select. -/
namespace PgCatalog.Session

open Library Sql CleanDuplicateColumns

/-! ## The pruning -/

/-- `contains`: the name stands somewhere in the text. -/
def contains (text name : String) : Bool :=
  text.toList.tails.any fun rest => name.toList.isPrefixOf rest

theorem contains_iff {text name : String} :
    contains text name = true ↔ name.toList <:+: text.toList := by
  simp only [contains, List.any_eq_true, List.mem_tails, List.isPrefixOf_iff_prefix,
    List.infix_iff_prefix_suffix]
  exact exists_congr fun _ => and_comm

/-- Whether a column of this name stays. -/
def keepsName (sql name : String) : Bool :=
  !systemCols.contains name.toLower || contains sql.toLower name.toLower

/-- `RecordBatch::project`: an error where an index is out of bounds. -/
def projectBatch (indices : List Nat) (batch : PgCatalog.RecordBatch) :
    Option PgCatalog.RecordBatch :=
  if indices.all (· < batch.schema.length) then
    some {
      schema := picked indices batch.schema
      columns := picked indices batch.columns
      numRows := batch.numRows
      typed := by rw [← picked_map, ← picked_map, batch.typed]
      sized := fun array member => by
        obtain ⟨i, -, here⟩ := List.mem_filterMap.mp member
        exact batch.sized array (List.mem_of_getElem? here) }
  else none

/-- `remove_virtual_system_columns`; none where a projection panics. -/
def removeVirtualSystemColumns (sql : String) (batches : List PgCatalog.RecordBatch)
    (schema : List PgCatalog.Field) : Option (List PgCatalog.RecordBatch × List PgCatalog.Field) :=
  let indices := positions (fun field => keepsName sql field.name) schema
  if indices.length = schema.length then some (batches, schema)
  else (batches.mapM (projectBatch indices)).map fun new => (new, picked indices schema)

def renameField (aliases : List (String × String)) (field : PgCatalog.Field) : PgCatalog.Field :=
  { field with name := (aliases.lookup field.name).getD field.name }

/-- `rename_columns`. -/
def renameBatch (aliases : List (String × String)) (batch : PgCatalog.RecordBatch) :
    PgCatalog.RecordBatch where
  schema := batch.schema.map (renameField aliases)
  columns := batch.columns
  numRows := batch.numRows
  typed := by rw [List.map_map]; exact batch.typed
  sized := batch.sized

/-! ## Where the columns of a result come from -/

/-- A column is selected by an item of its own, or a wildcard brings it: a pseudo-column of a
catalog table, through wildcards alone, or any other. -/
inductive Origin where
  | selected | pseudo | stored
  deriving DecidableEq, Repr

structure Output where
  name : String
  origin : Origin
  deriving DecidableEq, Repr

/-- A column as a wildcard around it brings it. -/
def Output.brought (c : Output) : Output :=
  if c.origin = .selected then { c with origin := .stored } else c

/-- The columns of a relation; those its definition does not declare are pseudo-columns. -/
def relationColumns (def_ : TableDef) : List Output :=
  (tableFields def_).map fun field =>
    ⟨field.name, if def_.schema.any (·.1 = field.name) then .stored else .pseudo⟩

/-- What the planner knows that the statement does not say. -/
structure Planning where
  relation : ObjectName → Option TableDef
  columnName : Expr → String
  functionColumns : TableFactor → List String
  valuesColumns : List Expr → List String
  /-- The columns of a FROM clause, those that USING and NATURAL merge once. -/
  merged : List TableWithJoins → List Output → List Output

/-- The columns under the names of an alias's column list. -/
def columnsAs : List Ident → List Output → List Output
  | id :: ids, c :: columns => { c with name := id.folded } :: columnsAs ids columns
  | _, columns => columns

def aliasColumns (alias_ : Option TableAlias) : List Ident := alias_.elim [] (·.columns)

/-- A FROM item: what its columns are qualified with, and the columns. -/
structure Source where
  names : List Qualifier
  columns : List Output

section
variable (planner : Planning)

/-- A CTE before a relation of the same name. -/
def tableColumns (ctes : List (String × List Output)) (name : ObjectName) : List Output :=
  match (name.head?.bind (·.asIdent)).bind (ctes.lookup ·.folded) with
  | some columns => if name.length = 1 then columns else relation name
  | none => relation name
where
  relation (name : ObjectName) : List Output :=
    ((planner.relation name).map relationColumns).getD []

def itemOutputs (from_ : List TableWithJoins) (sources : List Source) : SelectItem → List Output
  | .unnamedExpr e => [⟨planner.columnName e, .selected⟩]
  | .exprWithAlias _ alias_ => [⟨alias_.folded, .selected⟩]
  | .qualifiedWildcard name =>
    ((sources.filter (·.names.contains (nameParts name))).flatMap (·.columns)).map (·.brought)
  | .wildcard => (planner.merged from_ (sources.flatMap (·.columns))).map (·.brought)

mutual

/-- The columns of a query's result, those of a set operation as its left side has them. -/
def queryOutputs (ctes : List (String × List Output)) : Query → List Output
  | ⟨with_, body, _, _, _⟩ => bodyOutputs (withOutputs ctes with_) body

def withOutputs (ctes : List (String × List Output)) : Option With → List (String × List Output)
  | none => ctes
  | some ⟨_, cteTables⟩ => cteOutputs ctes cteTables

def cteOutputs (ctes : List (String × List Output)) : List Cte → List (String × List Output)
  | [] => ctes
  | ⟨alias_, q⟩ :: rest =>
    cteOutputs ((alias_.name.folded, columnsAs alias_.columns (queryOutputs ctes q)) :: ctes) rest

def bodyOutputs (ctes : List (String × List Output)) : SetExpr → List Output
  | .select ⟨_, projection, from_, _, _, _⟩ =>
    projection.flatMap (itemOutputs planner from_ (fromSources ctes from_))
  | .setOperation _ _ left _ => bodyOutputs ctes left
  | .query q => queryOutputs ctes q
  | .values rows => (planner.valuesColumns rows).map (⟨·, .stored⟩)

def fromSources (ctes : List (String × List Output)) : List TableWithJoins → List Source
  | [] => []
  | entry :: rest => entrySources ctes entry ++ fromSources ctes rest

def entrySources (ctes : List (String × List Output)) : TableWithJoins → List Source
  | ⟨relation, joins⟩ => factorSources ctes relation ++ joinSources ctes joins

def joinSources (ctes : List (String × List Output)) : List Join → List Source
  | [] => []
  | ⟨relation, _, _⟩ :: rest => factorSources ctes relation ++ joinSources ctes rest

def factorSources (ctes : List (String × List Output)) : TableFactor → List Source
  | .table name alias_ none =>
    [⟨factorName name alias_, columnsAs (aliasColumns alias_) (tableColumns planner ctes name)⟩]
  | .derived _ q alias_ =>
    [⟨Sql.aliasName alias_, columnsAs (aliasColumns alias_) (queryOutputs ctes q)⟩]
  | .nestedJoin entry none => entrySources ctes entry
  | .nestedJoin entry (some alias_) =>
    [⟨[[alias_.name.folded]],
      columnsAs alias_.columns ((entrySources ctes entry).flatMap (·.columns))⟩]
  | factor => [⟨factor.names, (planner.functionColumns factor).map (⟨·, .stored⟩)⟩]

end

/-- The columns of a result under the names the client gets. -/
def resultColumns (aliases : List (String × String)) (q : Query) : List Output :=
  (queryOutputs planner [] q).map fun c => { c with name := (aliases.lookup c.name).getD c.name }

end

/-! ## The statement that is planned, and its text -/

def Lettered (word : String) : Prop := word.toLower.toList.all Char.isAlpha = true

section
variable (types : TypeNames)

/-- The names that are printed of an item: its alias, and what it is named after. -/
def itemWords : SelectItem → List String
  | .unnamedExpr e => [recordedName types e]
  | .exprWithAlias e alias_ => [recordedName types e, alias_.value]
  | _ => []

/-- How statements are written. The names of the select list stand in the text as they are. -/
structure Printer where
  display : Query → String
  shows : ∀ q, ∀ item ∈ (topProjections q).flatten, ∀ word ∈ itemWords types item,
    Lettered word → contains (display q).toLower word.toLower = true

/-- An item keeps its alias, and its expression what it is named after. -/
def KeepsItem : SelectItem → SelectItem → Prop
  | .exprWithAlias e alias_, after => ∃ e', after = .exprWithAlias e' alias_ ∧
      (Lettered (recordedName types e) → recordedName types e' = recordedName types e)
  | .unnamedExpr e, after => ∃ e', after = .unnamedExpr e' ∧
      (Lettered (recordedName types e) → recordedName types e' = recordedName types e)
  | item, after => after = item

/-- The passes after the one that aliases, as far as the select list goes. -/
structure LaterPasses where
  run : Query → Query
  kept : ∀ q, (∀ item ∈ (topProjections q).flatten, isUnnamed item = false) →
    List.Forall₂ (KeepsItem types) (topProjections q).flatten (topProjections (run q)).flatten

/-- The statement that is planned. -/
def planned (later : LaterPasses types) (q : Query) : Query :=
  later.run (aliasUnnamedColumns types q).1

/-- What the planner makes of a statement: its columns and their batches. -/
structure Collected (planner : Planning) (q : Query) where
  schema : List PgCatalog.Field
  batches : List PgCatalog.RecordBatch
  named : schema.map (·.name) = (queryOutputs planner [] q).map (·.name)
  bound : ∀ batch ∈ batches, batch.schema = schema

end

section
variable {types : TypeNames} (printer : Printer types) (later : LaterPasses types)
  {planner : Planning} (q : Query) (collected : Collected planner (planned types later q))

/-- `rewrite_and_execute_sql` from the aliasing on. -/
def rewriteAndExecute : Option (List PgCatalog.RecordBatch × List PgCatalog.Field) :=
  let aliases := (aliasUnnamedColumns types q).2
  removeVirtualSystemColumns (printer.display (planned types later q))
    (collected.batches.map (renameBatch aliases)) (collected.schema.map (renameField aliases))

/-- The columns of the result. -/
def columnsOf (planner : Planning) : List Output :=
  resultColumns planner (aliasUnnamedColumns types q).2 (planned types later q)

/-- Just the columns that no wildcard brought from a catalog table's pseudo-columns are sent. -/
def SentAsSelected : Prop :=
  let aliases := (aliasUnnamedColumns types q).2
  let shown := positions (fun c : Output => c.origin ≠ .pseudo) (columnsOf later q planner)
  ∃ batches, (collected.batches.map (renameBatch aliases)).mapM (projectBatch shown) = some batches ∧
    rewriteAndExecute printer later q collected =
      some (batches, picked shown (collected.schema.map (renameField aliases)))

/-- The pseudo-columns that wildcards bring have names that the text does not contain, and what
else wildcards bring under these names has one that it does. -/
structure ToldByText (planner : Planning) : Prop where
  hidden : ∀ c ∈ columnsOf later q planner, c.origin = .pseudo →
    c.name.toLower ∈ systemCols ∧
      contains (printer.display (planned types later q)).toLower c.name.toLower = false
  shown : ∀ c ∈ columnsOf later q planner, c.origin = .stored → c.name.toLower ∈ systemCols →
    contains (printer.display (planned types later q)).toLower c.name.toLower = true

end

/-! ## What is selected stays -/

theorem lettered_of_system {name : String} (system : name.toLower ∈ systemCols) : Lettered name := by
  have all : ∀ column ∈ systemCols, column.toList.all Char.isAlpha = true := by decide
  exact all _ system

section
variable {planner : Planning}

mutual

theorem selected_item (ctes : List (String × List Output)) : ∀ (q : Query) (c : Output),
    c ∈ queryOutputs planner ctes q → c.origin = .selected →
      ∃ item ∈ namingProjection q, isUnnamed item = true ∨
        ∃ e alias_, item = .exprWithAlias e alias_ ∧ c.name = alias_.folded
  | ⟨with_, body, _, _, _⟩, c, member, selected =>
    selected_body (withOutputs planner ctes with_) body c member selected

theorem selected_body (ctes : List (String × List Output)) : ∀ (body : SetExpr) (c : Output),
    c ∈ bodyOutputs planner ctes body → c.origin = .selected →
      ∃ item ∈ bodyNaming body, isUnnamed item = true ∨
        ∃ e alias_, item = .exprWithAlias e alias_ ∧ c.name = alias_.folded
  | .select ⟨_, projection, from_, _, _, _⟩, c, member, selected => by
    obtain ⟨item, listed, output⟩ := List.mem_flatMap.mp member
    refine ⟨item, listed, ?_⟩
    have brought : ∀ d : Output, d.brought.origin ≠ .selected := by
      intro d
      unfold Output.brought
      split
      · simp
      · assumption
    cases item with
    | unnamedExpr e => exact .inl rfl
    | exprWithAlias e alias_ =>
      obtain rfl := List.mem_singleton.mp output
      exact .inr ⟨e, alias_, rfl, rfl⟩
    | qualifiedWildcard name =>
      obtain ⟨d, -, rfl⟩ := List.mem_map.mp output
      exact absurd selected (brought d)
    | wildcard =>
      obtain ⟨d, -, rfl⟩ := List.mem_map.mp output
      exact absurd selected (brought d)
  | .setOperation _ _ left _, c, member, selected => selected_body ctes left c member selected
  | .query q, c, member, selected => selected_item ctes q c member selected
  | .values rows, c, member, selected => by
    obtain ⟨name, -, rfl⟩ := List.mem_map.mp member
    cases selected

end

end

section
variable {types : TypeNames} {k : Nat}

theorem aliasedItems_append (items rest : List SelectItem) :
    aliasedItems k (items ++ rest) = aliasedItems k items ++
      aliasedItems (k + unnamedCount items) rest := by
  induction items generalizing k with
  | nil => rfl
  | cons item later ih =>
    cases item with
    | unnamedExpr e =>
      have count : unnamedCount (.unnamedExpr e :: later) = 1 + unnamedCount later := by
        rw [unnamedCount, List.countP_cons_of_pos rfl, unnamedCount, Nat.add_comm]
      rw [List.cons_append, aliasedItems, aliasedItems, ih, count, List.cons_append, Nat.add_assoc]
    | exprWithAlias e alias_ => exact congrArg (_ :: ·) ih
    | qualifiedWildcard name => exact congrArg (_ :: ·) ih
    | wildcard => exact congrArg (_ :: ·) ih

theorem flatten_aliasedBranches (branches : List (List SelectItem)) :
    (aliasedBranches k branches).flatten = aliasedItems k branches.flatten := by
  induction branches generalizing k with
  | nil => rfl
  | cons items rest ih =>
    rw [aliasedBranches, List.flatten_cons, List.flatten_cons, aliasedItems_append, ih]

theorem aliased_items (q : Query) : (topProjections (aliasUnnamedColumns types q).1).flatten =
    aliasedItems 1 (topProjections q).flatten := by
  have branches : topProjections (aliasUnnamedColumns types q).1 =
      aliasedBranches 1 (topProjections q) := (aliased_query ⟨1, []⟩ q).1
  rw [branches, flatten_aliasedBranches]

theorem aliased_named {items : List SelectItem} :
    ∀ item ∈ aliasedItems k items, isUnnamed item = false := by
  induction items generalizing k with
  | nil => exact nofun
  | cons first rest ih =>
    intro item member
    cases first with
    | unnamedExpr e =>
      obtain rfl | later := List.mem_cons.mp member
      · rfl
      · exact ih item later
    | exprWithAlias e alias_ =>
      obtain rfl | later := List.mem_cons.mp member
      · rfl
      · exact ih item later
    | qualifiedWildcard name =>
      obtain rfl | later := List.mem_cons.mp member
      · rfl
      · exact ih item later
    | wildcard =>
      obtain rfl | later := List.mem_cons.mp member
      · rfl
      · exact ih item later

/-- What is recorded under an alias is the name of an aliased item. -/
theorem recorded_item {items : List SelectItem} {pair : String × String}
    (member : pair ∈ numbered types k items) :
    ∃ e alias_, .exprWithAlias e alias_ ∈ aliasedItems k items ∧ pair.2 = recordedName types e := by
  induction items generalizing k with
  | nil => cases member
  | cons item rest ih =>
    cases item with
    | unnamedExpr e =>
      obtain rfl | later := List.mem_cons.mp member
      · exact ⟨e, _, List.mem_cons_self, rfl⟩
      · obtain ⟨e, alias_, there, named⟩ := ih later
        exact ⟨e, alias_, List.mem_cons_of_mem _ there, named⟩
    | exprWithAlias e alias_ =>
      obtain ⟨e, alias_, there, named⟩ := ih member
      exact ⟨e, alias_, List.mem_cons_of_mem _ there, named⟩
    | qualifiedWildcard name =>
      obtain ⟨e, alias_, there, named⟩ := ih member
      exact ⟨e, alias_, List.mem_cons_of_mem _ there, named⟩
    | wildcard =>
      obtain ⟨e, alias_, there, named⟩ := ih member
      exact ⟨e, alias_, List.mem_cons_of_mem _ there, named⟩

end

section
variable {types : TypeNames} {printer : Printer types} {later : LaterPasses types}
  {planner : Planning} {q : Query}

theorem kept_items : List.Forall₂ (KeepsItem types) (aliasedItems 1 (topProjections q).flatten)
    (topProjections (planned types later q)).flatten := by
  rw [← aliased_items]
  refine later.kept _ fun item member => ?_
  rw [aliased_items] at member
  exact aliased_named item member

/-- The name recorded under an alias stands in the text. -/
theorem recorded_shown {e : Expr} {alias_ : Ident}
    (listed : .exprWithAlias e alias_ ∈ aliasedItems 1 (topProjections q).flatten)
    (system : (recordedName types e).toLower ∈ systemCols) :
    contains (printer.display (planned types later q)).toLower (recordedName types e).toLower =
      true := by
  obtain ⟨item, there, e', rfl, same⟩ := forall₂_mem kept_items listed
  have lettered := lettered_of_system system
  refine printer.shows _ _ there _ ?_ lettered
  rw [← same lettered]
  exact List.mem_cons_self

variable (printer) in
/-- A column selected by an item of its own has a name that stands in the text. -/
theorem selected_shown {c : Output} (member : c ∈ columnsOf later q planner)
    (selected : c.origin = .selected) (system : c.name.toLower ∈ systemCols) :
    contains (printer.display (planned types later q)).toLower c.name.toLower = true := by
  obtain ⟨d, output, rfl⟩ := List.mem_map.mp member
  obtain ⟨item, naming, named⟩ := selected_item [] _ d output selected
  obtain ⟨before, listed, keeps⟩ := forall₂_mem kept_items.flip (naming_mem _ item naming)
  have aliased := aliased_named before listed
  cases before with
  | unnamedExpr e => cases aliased
  | qualifiedWildcard name =>
    obtain rfl : item = _ := keeps
    simp [isUnnamed] at named
  | wildcard =>
    obtain rfl : item = _ := keeps
    simp [isUnnamed] at named
  | exprWithAlias e alias_ =>
    obtain ⟨e', rfl, -⟩ := keeps
    simp only [isUnnamed, Bool.false_eq_true, false_or, SelectItem.exprWithAlias.injEq] at named
    obtain ⟨-, _, ⟨-, rfl⟩, named⟩ := named
    dsimp only at system ⊢
    rw [named] at system ⊢
    cases found : (aliasUnnamedColumns types q).2.lookup alias_.folded with
    | none =>
      rw [found, Option.getD_none] at system
      rw [Option.getD_none]
      have same : alias_.folded.toLower = alias_.value.toLower := by
        unfold Ident.folded
        split
        · rfl
        · exact toLower_toLower _
      rw [same] at system ⊢
      exact printer.shows _ _ (naming_mem _ _ naming) _ (by simp [itemWords])
        (lettered_of_system system)
    | some name =>
      rw [found, Option.getD_some] at system
      rw [Option.getD_some]
      obtain ⟨_, _, split, -⟩ := List.lookup_eq_some_iff.mp found
      have recorded : (alias_.folded, name) ∈ numbered types 1 (topProjections q).flatten := by
        rw [← List.mem_reverse, ← aliasUnnamedColumns_map, split]
        exact List.mem_append_right _ List.mem_cons_self
      obtain ⟨e, other, listed, rfl⟩ := recorded_item recorded
      exact recorded_shown listed system

/-- The renamed columns are those of the result, by their names. -/
theorem renamed_names (collected : Collected planner (planned types later q)) :
    (collected.schema.map (renameField (aliasUnnamedColumns types q).2)).map (·.name) =
      (columnsOf later q planner).map (·.name) := by
  have names := congrArg (List.map fun name =>
    ((aliasUnnamedColumns types q).2.lookup name).getD name) collected.named
  simp only [List.map_map] at names
  simpa only [columnsOf, resultColumns, List.map_map, Function.comp_def, renameField] using names

end

theorem projectBatch_eq {indices : List Nat} {batch : PgCatalog.RecordBatch}
    (within : ∀ i ∈ indices, i < batch.schema.length) :
    ∃ new, projectBatch indices batch = some new := by
  rw [projectBatch, if_pos (by simpa using within)]
  exact ⟨_, rfl⟩

theorem projectBatch_range (batch : PgCatalog.RecordBatch) :
    projectBatch (List.range batch.schema.length) batch = some batch := by
  have sameLength : batch.columns.length = batch.schema.length := by
    have lengths := congrArg List.length batch.typed
    simpa using lengths
  have schema : picked (List.range batch.schema.length) batch.schema = batch.schema :=
    picked_range _
  have columns : picked (List.range batch.schema.length) batch.columns = batch.columns := by
    rw [← sameLength]
    exact picked_range _
  rw [projectBatch, if_pos (by simp)]
  cases batch
  simp only [schema, columns]

/-- Nothing panics, and just the columns whose names stay are sent. -/
theorem removeVirtualSystemColumns_eq (sql : String) {batches : List PgCatalog.RecordBatch}
    {schema : List PgCatalog.Field} (bound : ∀ batch ∈ batches, batch.schema = schema) :
    ∃ new, batches.mapM (projectBatch (positions (fun field => keepsName sql field.name) schema)) =
        some new ∧
      removeVirtualSystemColumns sql batches schema =
        some (new, picked (positions (fun field => keepsName sql field.name) schema) schema) := by
  dsimp only [removeVirtualSystemColumns]
  generalize kept : positions (fun field => keepsName sql field.name) schema = indices
  by_cases full : indices.length = schema.length
  · have range : indices = List.range schema.length := by
      rw [← kept] at full ⊢
      exact positions_full full
    rw [if_pos full, range, picked_range]
    refine ⟨batches, ?_, rfl⟩
    rw [mapM_eq_some, List.forall₂_same]
    intro batch member
    rw [← bound batch member]
    exact projectBatch_range batch
  · have each : ∀ batch ∈ batches, ∃ new, projectBatch indices batch = some new ∧ True := by
      intro batch member
      have within : ∀ i ∈ indices, i < batch.schema.length := by
        intro i there
        rw [← kept] at there
        obtain ⟨field, here, -⟩ := mem_positions.mp there
        rw [bound batch member]
        exact (List.getElem?_eq_some_iff.mp here).1
      obtain ⟨new, made⟩ := projectBatch_eq within
      exact ⟨new, made, trivial⟩
    obtain ⟨new, projected, -⟩ := mapM_related.mpr each
    refine ⟨new, projected, ?_⟩
    rw [if_neg full, projected, Option.map_some]

section
variable {types : TypeNames} {printer : Printer types} {later : LaterPasses types}
  {planner : Planning} {q : Query}

/-- Where the text tells, a column's name decides as its origin does. -/
theorem keepsName_iff (told : ToldByText printer later q planner) :
    ∀ c ∈ columnsOf later q planner,
      keepsName (printer.display (planned types later q)) c.name = decide (c.origin ≠ .pseudo) := by
  intro c member
  unfold keepsName
  cases origin : c.origin with
  | pseudo =>
    obtain ⟨system, absent⟩ := told.hidden c member origin
    simp [system, absent]
  | stored =>
    have shown := told.shown c member origin
    by_cases system : c.name.toLower ∈ systemCols
    · simp [shown system]
    · simp [system]
  | selected =>
    have shown := selected_shown printer member origin
    by_cases system : c.name.toLower ∈ systemCols
    · simp [shown system]
    · simp [system]

theorem told_of_keepsName (same : ∀ c ∈ columnsOf later q planner,
      keepsName (printer.display (planned types later q)) c.name = decide (c.origin ≠ .pseudo)) :
    ToldByText printer later q planner where
  hidden := by
    intro c member origin
    have left := same c member
    simpa [keepsName, origin] using left
  shown := by
    intro c member origin system
    have kept := same c member
    simpa [keepsName, origin, system] using kept

theorem sent_iff (collected : Collected planner (planned types later q)) :
    SentAsSelected printer later q collected ↔ ToldByText printer later q planner := by
  have bound : ∀ batch ∈ collected.batches.map (renameBatch (aliasUnnamedColumns types q).2),
      batch.schema = collected.schema.map (renameField (aliasUnnamedColumns types q).2) := by
    intro batch member
    obtain ⟨old, there, rfl⟩ := List.mem_map.mp member
    exact congrArg _ (collected.bound old there)
  have names := renamed_names collected
  obtain ⟨new, projected, sent⟩ := removeVirtualSystemColumns_eq
    (printer.display (planned types later q)) bound
  have positions_eq := positions_labels names (keepsName (printer.display (planned types later q)))
  rw [positions_eq] at projected sent
  constructor
  · rintro ⟨batches, -, outcome⟩
    have schemas := congrArg Prod.snd (Option.some.inj (sent.symm.trans outcome))
    have picks := congrArg (List.map (·.name)) schemas
    dsimp only at picks
    rw [← picked_map, ← picked_map, names, picked_map, picked_map, picked_positions,
      picked_positions] at picks
    exact told_of_keepsName (same_choice picks)
  · intro told
    have same := positions_congr (keepsName_iff told)
    rw [same] at projected sent
    exact ⟨new, projected, sent⟩

variable (printer later q) in
/-- The columns sent are those the client is to see exactly if the text tells them apart; what
the statement selects by items of their own is sent in any case. -/
theorem system_columns_sent (collected : Collected planner (planned types later q)) :
    (∀ c ∈ columnsOf later q planner, c.origin = .selected →
      keepsName (printer.display (planned types later q)) c.name = true) ∧
    (SentAsSelected printer later q collected ↔ ToldByText printer later q planner) := by
  refine ⟨fun c member selected => ?_, sent_iff collected⟩
  have shown := selected_shown printer member selected
  by_cases system : c.name.toLower ∈ systemCols
  · simp [keepsName, shown system]
  · simp [keepsName, system]

end

/-! ## Two passes that keep the select list, and a statement that is not told apart -/

section
variable {types : TypeNames} {f : Expr → Expr}

theorem anonymous_not_lettered : ¬ Lettered "?column?" := by
  rw [Lettered, toList_toLower]
  decide

theorem recordedName_replaced (names : ∀ e, Lettered (recordedName types e) → f e = e) (e : Expr)
    (lettered : Lettered (recordedName types e)) :
    recordedName types (e.replaced f) = recordedName types e := by
  cases e with
  | identifier id => simp only [Expr.replaced, names _ lettered]
  | compoundIdentifier parts => simp only [Expr.replaced, names _ lettered]
  | function call =>
    have same : recordedName types (.function (call.replaced f)) =
        recordedName types (.function call) := by
      cases call
      rfl
    rw [← same] at lettered
    rw [Expr.replaced, names _ lettered, same]
  | cast kind inner dataType =>
    have same : recordedName types (.cast kind (inner.replaced f) dataType) =
        recordedName types (.cast kind inner dataType) := rfl
    rw [← same] at lettered
    rw [Expr.replaced, names _ lettered, same]
  | _ => exact absurd lettered anonymous_not_lettered

theorem keepsItem_replaced (names : ∀ e, Lettered (recordedName types e) → f e = e)
    (items : List SelectItem) : List.Forall₂ (KeepsItem types) items (replacedItems f items) := by
  induction items with
  | nil => exact .nil
  | cons item rest ih =>
    cases item with
    | unnamedExpr e => exact .cons ⟨_, rfl, recordedName_replaced names e⟩ ih
    | exprWithAlias e alias_ => exact .cons ⟨_, rfl, recordedName_replaced names e⟩ ih
    | qualifiedWildcard name => exact .cons rfl ih
    | wildcard => exact .cons rfl ih

mutual

theorem topProjections_replaced : ∀ q : Query,
    topProjections (q.replaced f) = (topProjections q).map (replacedItems f)
  | ⟨_, body, _, _, _⟩ => bodyProjections_replaced body

theorem bodyProjections_replaced : ∀ body : SetExpr,
    bodyProjections (body.replaced f) = (bodyProjections body).map (replacedItems f)
  | .select ⟨_, _, _, _, _, _⟩ => rfl
  | .setOperation _ _ left right => by
    have first := bodyProjections_replaced left
    have second := bodyProjections_replaced right
    rw [SetExpr.replaced, bodyProjections, bodyProjections, List.map_append, first, second]
  | .query q => topProjections_replaced q
  | .values _ => rfl

end

/-- A pass that replaces expressions, none of them one that an item is named after. -/
def LaterPasses.ofReplaced (f : Expr → Expr)
    (names : ∀ e, Lettered (recordedName types e) → f e = e) : LaterPasses types where
  run := Query.replaced f
  kept q _ := by
    rw [topProjections_replaced]
    induction topProjections q with
    | nil => exact .nil
    | cons items rest ih => exact List.rel_append (keepsItem_replaced names items) ih

theorem KeepsItem.named {before after : SelectItem} (keeps : KeepsItem types before after)
    (named : isUnnamed before = false) : isUnnamed after = false := by
  cases before with
  | unnamedExpr e => cases named
  | exprWithAlias e alias_ =>
    obtain ⟨_, rfl, -⟩ := keeps
    rfl
  | qualifiedWildcard name => rw [show after = _ from keeps]; rfl
  | wildcard => rw [show after = _ from keeps]; rfl

theorem KeepsItem.trans {first second third : SelectItem} (keeps : KeepsItem types first second)
    (later : KeepsItem types second third) : KeepsItem types first third := by
  cases first with
  | unnamedExpr e =>
    obtain ⟨e', rfl, same⟩ := keeps
    obtain ⟨e'', rfl, again⟩ := later
    refine ⟨e'', rfl, fun lettered => ?_⟩
    rw [again ((same lettered).symm ▸ lettered), same lettered]
  | exprWithAlias e alias_ =>
    obtain ⟨e', rfl, same⟩ := keeps
    obtain ⟨e'', rfl, again⟩ := later
    refine ⟨e'', rfl, fun lettered => ?_⟩
    rw [again ((same lettered).symm ▸ lettered), same lettered]
  | qualifiedWildcard name =>
    obtain rfl : second = _ := keeps
    exact later
  | wildcard =>
    obtain rfl : second = _ := keeps
    exact later

theorem keepsItem_trans {first second third : List SelectItem}
    (keeps : List.Forall₂ (KeepsItem types) first second)
    (later : List.Forall₂ (KeepsItem types) second third) :
    List.Forall₂ (KeepsItem types) first third := by
  induction keeps generalizing third with
  | nil => exact later
  | cons item _ ih =>
    cases later with
    | cons item' rest => exact .cons (item.trans item') (ih rest)

/-- One pass after another. -/
def LaterPasses.andThen (one other : LaterPasses types) : LaterPasses types where
  run q := other.run (one.run q)
  kept q named := by
    have first := one.kept q named
    refine keepsItem_trans first (other.kept _ fun item member => ?_)
    obtain ⟨before, there, keeps⟩ := forall₂_mem first.flip member
    exact KeepsItem.named keeps (named before there)

/-- The passes that make a boolean scalar subquery an EXISTS, and that a count. -/
def existsPasses (types : TypeNames) : LaterPasses types :=
  (LaterPasses.ofReplaced Replace.booleanScalarToExists fun e lettered => by
    cases e with
    | subquery q => exact absurd lettered anonymous_not_lettered
    | _ => rfl).andThen
  (LaterPasses.ofReplaced Replace.existsToCount fun e lettered => by
    cases e with
    | «exists» q negated => exact absurd lettered anonymous_not_lettered
    | _ => rfl)

end

/-- An item written with what it is named after. -/
def writtenItem (types : TypeNames) : SelectItem → String
  | .unnamedExpr e => recordedName types e
  | .exprWithAlias e alias_ => recordedName types e ++ (" AS " ++ alias_.value)
  | .qualifiedWildcard name => displayName name ++ ".*"
  | .wildcard => "*"

/-- The clauses of a SELECT that compares a column of its one table with a string. -/
def writtenClauses : Query → String
  | ⟨_, .select ⟨_, _, [⟨.table name none none, []⟩], some (.binaryOp (.identifier column) .eq
      (.value (.singleQuotedString s))), _, _⟩, _, _, _⟩ =>
    " FROM " ++ displayName name ++ " WHERE " ++ column.value ++ " = '" ++ s ++ "'"
  | _ => ""

theorem infix_intercalate {text : String} (separator : String) {texts : List String} (member : text ∈ texts) :
    text.toList <:+: (separator.intercalate texts).toList := by
  induction texts with
  | nil => cases member
  | cons first rest ih =>
    cases rest with
    | nil =>
      obtain rfl := List.mem_singleton.mp member
      rw [String.intercalate_singleton]
    | cons next rest =>
      rw [String.intercalate_cons_cons, String.toList_append, String.toList_append]
      obtain rfl | later := List.mem_cons.mp member
      · exact (List.prefix_append _ _).isInfix.trans (List.prefix_append _ _).isInfix
      · exact (ih later).trans (List.suffix_append _ _).isInfix

/-- Statements with just the select lists of their branches and those clauses. -/
def plainPrinter (types : TypeNames) : Printer types where
  display q := "SELECT " ++ (", ".intercalate ((topProjections q).flatten.map (writtenItem types)) ++
    writtenClauses q)
  shows q item member word named _ := by
    have inItem : word.toList <:+: (writtenItem types item).toList := by
      cases item with
      | unnamedExpr e =>
        obtain rfl := List.mem_singleton.mp named
        exact List.infix_refl _
      | exprWithAlias e alias_ =>
        rw [writtenItem, String.toList_append, String.toList_append]
        obtain rfl | last := List.mem_cons.mp named
        · exact (List.prefix_append _ _).isInfix
        · obtain rfl := List.mem_singleton.mp last
          exact (List.suffix_append _ _).isInfix.trans (List.suffix_append _ _).isInfix
      | qualifiedWildcard name => cases named
      | wildcard => cases named
    have inList := inItem.trans (infix_intercalate ", "
      (List.mem_map_of_mem (f := writtenItem types) member))
    rw [contains_iff, toList_toLower, toList_toLower, String.toList_append, String.toList_append]
    exact (inList.trans ((List.prefix_append _ _).isInfix.trans
      (List.suffix_append _ _).isInfix)).map Char.toLower

def noTypes : TypeNames := ⟨fun _ => true, fun _ => ""⟩

/-- `pg_class`, of which two columns are declared. -/
def pgClass : TableDef :=
  ⟨some "system_catalog", [("oid", "oid"), ("relname", "name")], none, none, none⟩

def pgClassPlanning : Planning where
  relation name := if name = [.identifier (.new "pg_class")] then some pgClass else none
  columnName _ := "?column?"
  functionColumns _ := []
  valuesColumns _ := []
  merged _ columns := columns

/-- `SELECT * FROM pg_class WHERE relname = 'xmin'`. -/
def relnameIsXmin : Query :=
  ⟨none, .select ⟨.no, [.wildcard], [⟨.table [.identifier (.new "pg_class")] none none, []⟩],
    some (.binaryOp (.identifier (.new "relname")) .eq (.value (.singleQuotedString "xmin"))),
    .expressions [], none⟩, [], none, none⟩

/-- The result of it, without rows. -/
def noRelations : Collected pgClassPlanning (planned noTypes (existsPasses noTypes) relnameIsXmin) where
  schema := tableFields pgClass
  batches := [newEmpty (tableFields pgClass)]
  named := by decide
  bound := by simp [newEmpty]

/-- The string in the WHERE clause has `xmin` sent with the other columns. -/
theorem literal_shows_xmin :
    ¬ SentAsSelected (plainPrinter noTypes) (existsPasses noTypes) relnameIsXmin noRelations := by
  rw [sent_iff]
  intro told
  have brought : (⟨"xmin", .pseudo⟩ : Output) ∈
      columnsOf (existsPasses noTypes) relnameIsXmin pgClassPlanning := by decide
  have absent := (told.hidden _ brought rfl).2
  have text : ((plainPrinter noTypes).display
      (planned noTypes (existsPasses noTypes) relnameIsXmin)) =
      "SELECT * FROM pg_class WHERE relname = 'xmin'" := by decide
  rw [text, contains, toList_toLower, toList_toLower] at absent
  revert absent
  decide

end PgCatalog.Session
