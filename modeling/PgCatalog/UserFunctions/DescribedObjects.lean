import PgCatalog.UserFunctions.DescribeObject

/-! Which objects a description tells apart: those whose names do not read alike, and which
descriptions are qualified where they have to be. -/
namespace PgCatalog.UserFunctions

open Library

def OnPath (schema : String) : Prop := schema = "pg_catalog" ∨ schema = "public"

instance (schema : String) : Decidable (OnPath schema) := inferInstanceAs (Decidable (_ ∨ _))

/-- Names of two schemas on the path are the names alone; another schema's name and the dot are
part of the text. -/
def NamesAlike (s n s' n' : String) : Prop :=
  if OnPath s then if OnPath s' then n = n' else n = s' ++ ("." ++ n')
  else if OnPath s' then s ++ ("." ++ n) = n' else ReadAlike "." (s = s') (n = n') s n s' n'

theorem displayed_eq_iff {s n s' n' : String} :
    onSearchPathOrQualified s n = onSearchPathOrQualified s' n' ↔ NamesAlike s n s' n' := by
  change (if OnPath s then n else _) = (if OnPath s' then n' else _) ↔ _
  unfold NamesAlike
  split <;> split
  · rfl
  · rfl
  · rfl
  · exact separated_eq_iff Iff.rfl Iff.rfl

def relkindLabels : List String :=
  ["index", "sequence", "toast table", "view", "materialized view", "composite type",
    "foreign table", "table"]

theorem relkindLabel_mem (relkind : String) : relkindLabel relkind ∈ relkindLabels := by
  unfold relkindLabel
  repeat' split
  all_goals simp [relkindLabels]

/-- No label goes on within another. -/
theorem label_eq_iff {label label' d d' : String} (known : label ∈ relkindLabels)
    (known' : label' ∈ relkindLabels) :
    label ++ (" " ++ d) = label' ++ (" " ++ d') ↔ label = label' ∧ d = d' := by
  have apart : ∀ l ∈ relkindLabels, ∀ l' ∈ relkindLabels,
      (l.toList ++ [' ']).isPrefixOf l'.toList = false := by decide
  have stops {l l' d d' : String} (known : l ∈ relkindLabels) (known' : l' ∈ relkindLabels) :
      ¬Continues " " l d l' d' := by
    rintro ⟨more, some_, longer, rest⟩
    obtain ⟨x, xs, here⟩ := List.exists_cons_of_ne_nil (mt String.toList_eq_nil_iff.mp some_)
    have rest := congrArg String.toList rest
    have longer := congrArg String.toList longer
    simp only [String.toList_append, here] at rest longer
    obtain rfl : ' ' = x := (List.cons.inj rest).1
    have begins : (l.toList ++ [' ']).isPrefixOf l'.toList = true := by
      rw [List.isPrefixOf_iff_prefix, longer]
      exact ⟨xs, by simp⟩
    rw [apart l known l' known'] at begins
    cases begins
  rw [separated_eq_iff Iff.rfl Iff.rfl, ReadAlike]
  simp [stops known known', stops known' known]

theorem column_ne_label {label d column : String} (known : label ∈ relkindLabels) :
    "column " ++ column ≠ label ++ (" " ++ d) := by
  intro same
  have same := congrArg String.toList same
  simp only [relkindLabels, List.mem_cons, List.not_mem_nil, or_false] at known
  obtain rfl | rfl | rfl | rfl | rfl | rfl | rfl | rfl := known <;> simp at same

theorem foundOn_path {has : String → Prop} {schema : String}
    (found : FoundOn has schema SEARCH_PATH) : OnPath schema := by
  obtain ⟨-, first⟩ | ⟨-, ⟨-, second⟩ | ⟨-, none_⟩⟩ := found
  · exact .inl first
  · exact .inr second
  · exact none_.elim

namespace ObjectCatalog

variable (c : ObjectCatalog)

/-- The label, the schema and the name of a relation. -/
structure RelationName where
  label : String
  schema : String
  name : String

def RelationName.base (r : RelationName) : String :=
  r.label ++ (" " ++ onSearchPathOrQualified r.schema r.name)

def relationName (objid : Int) : Option RelationName := do
  let row ← c.classes objid
  let schema ← c.namespaces row.relnamespace
  return ⟨relkindLabel row.relkind, schema, row.relname⟩

def columnName (objid attnum : Int) : Option String :=
  if 0 < attnum then c.attributes objid attnum else none

def RelationName.Alike (r r' : RelationName) : Prop :=
  r.label = r'.label ∧ NamesAlike r.schema r.name r'.schema r'.name

/-- Relations of one kind with names that read alike, or columns of them. -/
def ClassConfused (a b : Int × Int) : Prop :=
  ∃ r r', c.relationName a.1 = some r ∧ c.relationName b.1 = some r' ∧
    ((a.2 = 0 ∧ b.2 = 0 ∧ r.Alike r') ∨
      (a.2 ≠ 0 ∧ b.2 ≠ 0 ∧ ∃ column column', c.columnName a.1 a.2 = some column ∧
        c.columnName b.1 b.2 = some column' ∧
          ReadAlike " of " (column = column') (r.Alike r') column r.base column' r'.base))

/-- Functions with names and arguments that read alike. -/
def ProcConfused (o o' : Int) : Prop :=
  ∃ row row' s s', c.procs o = some row ∧ c.procs o' = some row' ∧
    c.namespaces row.pronamespace = some s ∧ c.namespaces row'.pronamespace = some s' ∧
      let arguments := ",".intercalate (c.renderedArguments row.proargtypes)
      let arguments' := ",".intercalate (c.renderedArguments row'.proargtypes)
      ReadAlike "(" (NamesAlike s row.proname s' row'.proname) (arguments = arguments')
        (onSearchPathOrQualified s row.proname) (arguments ++ ")")
        (onSearchPathOrQualified s' row'.proname) (arguments' ++ ")")

/-- Operators with names and operands that read alike, in whatever schemas. -/
def OperatorConfused (o o' : Int) : Prop :=
  ∃ row row', c.operators o = some row ∧ c.operators o' = some row' ∧
    let left := c.operand row.oprleft
    let left' := c.operand row'.oprleft
    let right := c.operand row.oprright
    let right' := c.operand row'.oprright
    ReadAlike "(" (row.oprname = row'.oprname)
      (ReadAlike "," (left = left') (right = right') left (right ++ ")") left' (right' ++ ")"))
      row.oprname (left ++ ("," ++ (right ++ ")"))) row'.oprname (left' ++ ("," ++ (right' ++ ")")))

/-- Objects of a class whose names read alike. Below a schema, a language or an extension there
is nothing, and its name is its own. -/
def Confused (classid : Int) (a b : Int × Int) : Prop :=
  if classid = PG_CLASS then c.ClassConfused a b
  else if classid = PG_PROC then c.ProcConfused a.1 b.1
  else if classid = PG_TYPE then ∃ name, c.typeNames a.1 = some name ∧ c.typeNames b.1 = some name
  else if classid = PG_NAMESPACE then a.1 = b.1 ∧ c.namespaces a.1 ≠ none
  else if classid = PG_OPERATOR then c.OperatorConfused a.1 b.1
  else if classid = PG_LANGUAGE then a.1 = b.1 ∧ c.languages a.1 ≠ none
  else if classid = PG_EXTENSION then a.1 = b.1 ∧ c.extensions a.1 ≠ none
  else False

/-- A class whose objects are shown with a schema that is off the path. -/
def ShowsSchema (classid : Int) : Prop := classid = PG_CLASS ∨ classid = PG_PROC

instance (classid : Int) : Decidable (ShowsSchema classid) := inferInstanceAs (Decidable (_ ∨ _))

/-- Two addresses are told apart if their names do not read alike; the first one's schema is
right if the object is found without it, or is off the path and of a class that shows it. -/
structure ToldApart (classid : Int) (a b : Int × Int) : Prop where
  names : a ≠ b → ¬c.Confused classid a b
  schema : ∀ object, c.schemaObject classid a.1 = some object →
    object.Visible ∨ (ShowsSchema classid ∧ ¬OnPath object.schema)

/-- Two addresses have one text. -/
def SameText (classid : Int) (a b : Int × Int) : Prop :=
  ∃ text, c.describe classid a.1 a.2 = .ok (some text) ∧
    c.describe classid b.1 b.2 = .ok (some text)

variable {c : ObjectCatalog} {a b : Int × Int}

/-- A relation as the description has it. -/
theorem relations_eq (objid : Int) : c.relations objid = (c.relationName objid).map fun r =>
    ⟨r.label, onSearchPathOrQualified r.schema r.name, c.columnName objid⟩ := by
  unfold relations relationName
  cases c.classes objid with
  | none => rfl
  | some row =>
    simp only [Option.bind_eq_bind, Option.bind_some]
    cases c.namespaces row.relnamespace <;> rfl

theorem label_known {objid : Int} {r : RelationName} (named : c.relationName objid = some r) :
    r.label ∈ relkindLabels := by
  unfold relationName at named
  simp only [Option.bind_eq_bind, Option.bind_eq_some_iff] at named
  obtain ⟨row, -, schema, -, same⟩ := named
  obtain rfl := Option.some.inj same
  exact relkindLabel_mem _

theorem base_eq_iff {r r' : RelationName} (known : r.label ∈ relkindLabels)
    (known' : r'.label ∈ relkindLabels) : r.base = r'.base ↔ r.Alike r' := by
  unfold RelationName.base RelationName.Alike
  rw [label_eq_iff known known', displayed_eq_iff]

/-- What a relation's or a column's text is. -/
def RelationName.text (r : RelationName) : Option String → String
  | none => r.base
  | some column => "column " ++ (column ++ (" of " ++ r.base))

/-- The texts of relations and of columns are never the same, and those of either are if the
names read alike. -/
theorem text_eq_iff {r r' : RelationName} (known : r.label ∈ relkindLabels)
    (known' : r'.label ∈ relkindLabels) (column column' : Option String) :
    r.text column = r'.text column' ↔
      (column = none ∧ column' = none ∧ r.Alike r') ∨
        ∃ col col', column = some col ∧ column' = some col' ∧
          ReadAlike " of " (col = col') (r.Alike r') col r.base col' r'.base := by
  have alike := base_eq_iff known known'
  cases column with
  | none =>
    cases column' with
    | none => simpa [RelationName.text] using alike
    | some col' =>
      have apart : r.text none ≠ r'.text (some col') := (column_ne_label known).symm
      simp [apart]
  | some col =>
    cases column' with
    | none =>
      have apart : r.text (some col) ≠ r'.text none := column_ne_label known'
      simp [apart]
    | some col' =>
      simp only [RelationName.text, String.append_right_inj]
      rw [separated_eq_iff Iff.rfl alike]
      simp

theorem describe_class (objid objsubid : Int) : c.describe PG_CLASS objid objsubid =
    .ok ((c.relationName objid).bind fun r =>
      if objsubid = 0 then some (r.text none)
      else (c.columnName objid objsubid).map fun column => r.text (some column)) := by
  rw [describe, if_pos rfl, relations_eq, Option.bind_map]
  rfl

theorem describe_class_some {objid objsubid : Int} {text : String} :
    c.describe PG_CLASS objid objsubid = .ok (some text) ↔
      ∃ r column, c.relationName objid = some r ∧
        ((objsubid = 0 ∧ column = none) ∨
          (objsubid ≠ 0 ∧ ∃ col, c.columnName objid objsubid = some col ∧ column = some col)) ∧
        r.text column = text := by
  rw [describe_class, Except.ok.injEq, Option.bind_eq_some_iff]
  refine exists_congr fun r => ?_
  by_cases whole : objsubid = 0
  · simp [whole]
  · simp [whole]

theorem class_text_iff : c.SameText PG_CLASS a b ↔ c.ClassConfused a b := by
  simp only [SameText, describe_class_some]
  constructor
  · rintro ⟨text, ⟨r, column, named, place, rfl⟩, r', column', named', place', same⟩
    refine ⟨r, r', named, named', ?_⟩
    obtain ⟨rfl, rfl, alike⟩ | ⟨col, col', rfl, rfl, alike⟩ :=
      (text_eq_iff (label_known named) (label_known named') column column').mp same.symm
    · exact .inl ⟨by simpa using place, by simpa using place', alike⟩
    · simp only [reduceCtorEq, and_false, false_or, Option.some.injEq, exists_eq_right']
        at place place'
      exact .inr ⟨place.1, place'.1, col, col', place.2, place'.2, alike⟩
  · rintro ⟨r, r', named, named', ⟨whole, whole', alike⟩ |
      ⟨inside, inside', col, col', here, here', alike⟩⟩
    · have same := (text_eq_iff (label_known named) (label_known named') none none).mpr
        (.inl ⟨rfl, rfl, alike⟩)
      exact ⟨_, ⟨r, none, named, .inl ⟨whole, rfl⟩, rfl⟩, r', none, named', .inl ⟨whole', rfl⟩,
        same.symm⟩
    · have same := (text_eq_iff (label_known named) (label_known named') (some col)
        (some col')).mpr (.inr ⟨col, col', rfl, rfl, alike⟩)
      exact ⟨_, ⟨r, some col, named, .inr ⟨inside, col, here, rfl⟩, rfl⟩, r', some col', named',
        .inr ⟨inside', col', here', rfl⟩, same.symm⟩

theorem describe_proc (objid objsubid : Int) : c.describe PG_PROC objid objsubid =
    .ok ((c.functions objid).map fun signature => "function " ++ signature) := rfl

theorem functions_some {objid : Int} {text : String} : c.functions objid = some text ↔
    ∃ row s, c.procs objid = some row ∧ c.namespaces row.pronamespace = some s ∧
      onSearchPathOrQualified s row.proname ++
        ("(" ++ (",".intercalate (c.renderedArguments row.proargtypes) ++ ")")) = text := by
  simp [functions, Option.bind_eq_some_iff]

theorem proc_text_iff : c.SameText PG_PROC a b ↔ c.ProcConfused a.1 b.1 := by
  simp only [SameText, describe_proc, Except.ok.injEq, Option.map_eq_some_iff, functions_some]
  constructor
  · rintro ⟨text, ⟨_, ⟨row, s, here, placed, rfl⟩, rfl⟩, _, ⟨row', s', here', placed', rfl⟩, same⟩
    refine ⟨row, row', s, s', here, here', placed, placed', ?_⟩
    refine (separated_eq_iff displayed_eq_iff (by simp)).mp ?_
    simpa using same.symm
  · rintro ⟨row, row', s, s', here, here', placed, placed', alike⟩
    have same := (separated_eq_iff displayed_eq_iff (by simp)).mpr alike
    exact ⟨_, ⟨_, ⟨row, s, here, placed, rfl⟩, rfl⟩, _, ⟨row', s', here', placed', rfl⟩,
      by rw [same]⟩

theorem describe_operator (objid objsubid : Int) : c.describe PG_OPERATOR objid objsubid =
    .ok ((c.operatorTexts objid).map fun rendered => "operator " ++ rendered) := rfl

theorem operator_text_iff : c.SameText PG_OPERATOR a b ↔ c.OperatorConfused a.1 b.1 := by
  simp only [SameText, describe_operator, Except.ok.injEq, Option.map_eq_some_iff, operatorTexts]
  constructor
  · rintro ⟨text, ⟨_, ⟨row, here, rfl⟩, rfl⟩, _, ⟨row', here', rfl⟩, same⟩
    refine ⟨row, row', here, here', ?_⟩
    refine (separated_eq_iff Iff.rfl (separated_eq_iff Iff.rfl (by simp))).mp ?_
    simpa using same.symm
  · rintro ⟨row, row', here, here', alike⟩
    have same := (separated_eq_iff Iff.rfl (separated_eq_iff Iff.rfl (by simp))).mpr alike
    exact ⟨_, ⟨_, ⟨row, here, rfl⟩, rfl⟩, _, ⟨row', here', rfl⟩, by rw [same]⟩

/-- Objects of a class with texts of their own. -/
theorem own_text_iff {names : Int → Option String} {kind : String} {o o' : Int}
    (distinct : ∀ {o o' name}, names o = some name → names o' = some name → o = o') :
    (∃ text, (names o).map (kind ++ ·) = some text ∧ (names o').map (kind ++ ·) = some text) ↔
      o = o' ∧ names o ≠ none := by
  simp only [Option.map_eq_some_iff]
  constructor
  · rintro ⟨text, ⟨name, here, rfl⟩, name', here', same⟩
    obtain rfl : name' = name := by simpa using same
    exact ⟨distinct here here', by simp [here]⟩
  · rintro ⟨rfl, some_⟩
    obtain ⟨name, here⟩ := Option.ne_none_iff_exists'.mp some_
    exact ⟨_, ⟨name, here, rfl⟩, name, here, rfl⟩

/-- Addresses of a class have one text exactly if their names read alike. -/
theorem same_text_iff (classid : Int) : c.SameText classid a b ↔ c.Confused classid a b := by
  by_cases relation : classid = PG_CLASS
  · subst relation
    exact class_text_iff
  by_cases function : classid = PG_PROC
  · subst function
    exact proc_text_iff
  by_cases type : classid = PG_TYPE
  · subst type
    simp only [SameText, describe, Confused, relation, function, if_true, if_false,
      Except.ok.injEq, Option.map_eq_some_iff]
    constructor
    · rintro ⟨text, ⟨name, here, rfl⟩, name', here', same⟩
      obtain rfl : name' = name := by simpa using same
      exact ⟨name', here, here'⟩
    · rintro ⟨name, here, here'⟩
      exact ⟨_, ⟨name, here, rfl⟩, name, here', rfl⟩
  by_cases namespace_ : classid = PG_NAMESPACE
  · subst namespace_
    simp only [SameText, describe, Confused, relation, function, type, if_true, if_false,
      Except.ok.injEq]
    exact own_text_iff c.namespaces_inj
  by_cases operator : classid = PG_OPERATOR
  · subst operator
    exact operator_text_iff
  by_cases language : classid = PG_LANGUAGE
  · subst language
    simp only [SameText, describe, Confused, relation, function, type, namespace_, operator,
      if_true, if_false, Except.ok.injEq]
    exact own_text_iff c.languages_inj
  by_cases extension : classid = PG_EXTENSION
  · subst extension
    simp only [SameText, describe, Confused, relation, function, type, namespace_, operator,
      language, if_true, if_false, Except.ok.injEq]
    exact own_text_iff c.extensions_inj
  · simp [SameText, describe, Confused, relation, function, type, namespace_, operator, language,
      extension]

theorem bare_of_on {s : String} (on : OnPath s) (n : String) : onSearchPathOrQualified s n = n :=
  if_pos on

theorem qualified_of_off {s : String} (off : ¬OnPath s) (n : String) :
    onSearchPathOrQualified s n = s ++ ("." ++ n) := if_neg off

theorem qualified_append (s n rest : String) :
    onSearchPathOrQualified s n ++ rest = onSearchPathOrQualified s (n ++ rest) := by
  unfold onSearchPathOrQualified
  split
  · rfl
  · simp only [String.append_assoc]

/-- A schema's object is shown with its schema or without. -/
theorem describe_object {classid objid : Int} {object : SchemaObject}
    (here : c.schemaObject classid objid = some object) : c.describe classid objid 0 =
      .ok (some (object.kind ++ if ShowsSchema classid then
        onSearchPathOrQualified object.schema object.rest else object.rest)) := by
  unfold schemaObject at here
  split at here
  · next relation =>
    subst relation
    simp only [relationObject, Option.bind_eq_bind, Option.bind_eq_some_iff] at here
    obtain ⟨row, found, schema, placed, same⟩ := here
    obtain rfl := Option.some.inj same
    simp [describe_class, relationName, found, placed, RelationName.text, RelationName.base,
      ShowsSchema, String.append_assoc]
  · split at here
    · next function =>
      subst function
      simp only [functionObject, Option.bind_eq_bind, Option.bind_eq_some_iff] at here
      obtain ⟨row, found, schema, placed, same⟩ := here
      obtain rfl := Option.some.inj same
      simp [describe_proc, functions, found, placed, ShowsSchema, qualified_append]
    · split at here
      · next type =>
        subst type
        simp only [typeObject, Option.bind_eq_bind, Option.bind_eq_some_iff] at here
        obtain ⟨row, found, name, named, schema, placed, same⟩ := here
        obtain rfl := Option.some.inj same
        simp [describe, named, ShowsSchema, PG_TYPE, PG_CLASS, PG_PROC]
      · split at here
        · next operator =>
          subst operator
          simp only [operatorObject, Option.bind_eq_bind, Option.bind_eq_some_iff] at here
          obtain ⟨row, found, text, written, schema, placed, same⟩ := here
          obtain rfl := Option.some.inj same
          have bare : ¬ShowsSchema PG_OPERATOR := by decide
          rw [describe_operator, written, if_neg bare]
          rfl
        · cases here

theorem rest_ne_qualified (schema rest : String) : rest ≠ schema ++ ("." ++ rest) := by
  intro same
  have lengths := congrArg String.length same
  rw [String.length_append, String.length_append] at lengths
  have dot : ".".length = 1 := rfl
  omega

/-- Descriptions are right exactly if the names do not read alike and the schema is right. -/
theorem described_right_iff (c : ObjectCatalog) (classid : Int) (a b : Int × Int) :
    c.DescribedRight classid a b ↔ c.ToldApart classid a b := by
  have apart : (∀ text, c.describe classid a.1 a.2 = .ok (some text) →
      c.describe classid b.1 b.2 ≠ .ok (some text)) ↔ ¬c.Confused classid a b := by
    rw [← same_text_iff]
    simp [SameText]
  constructor
  · intro right
    refine ⟨fun other => apart.mp (right.apart other), fun object here => ?_⟩
    by_cases visible : object.Visible
    · exact .inl visible
    · right
      have text := right.qualified object here visible
      rw [describe_object here] at text
      simp only [Except.ok.injEq, Option.some.injEq, String.append_right_inj] at text
      split at text
      · next shows =>
        refine ⟨shows, fun on => ?_⟩
        rw [bare_of_on on] at text
        exact rest_ne_qualified _ _ text
      · exact absurd text (rest_ne_qualified _ _)
  · intro told
    refine ⟨fun other => apart.mpr (told.names other), fun object here visible => ?_,
      fun object here hidden => ?_⟩
    · have on : OnPath object.schema := foundOn_path visible
      rw [describe_object here, bare_of_on on, ite_self]
    · obtain ⟨shows, off⟩ := (told.schema object here).resolve_left hidden
      rw [describe_object here, if_pos shows, qualified_of_off off]

end ObjectCatalog

/-! A table of the name `pg_class` in `public`, beside the one in `pg_catalog`. -/

def sampleNamespaces (o : Int) : Option String :=
  if o = 11 then some "pg_catalog" else if o = 2200 then some "public" else none

def sampleClasses (o : Int) : Option PgClassRow :=
  if o = 1259 then some ⟨"pg_class", "r", 11⟩
  else if o = 16384 then some ⟨"pg_class", "r", 2200⟩
  else none

theorem sampleNamespaces_inj {o o' : Int} {name : String} (here : sampleNamespaces o = some name)
    (here' : sampleNamespaces o' = some name) : o = o' := by
  unfold sampleNamespaces at here here'
  split_ifs at here here' <;> simp_all <;> simp [← here] at here'

theorem sampleClasses_inj {o o' : Int} {row row' : PgClassRow} (here : sampleClasses o = some row)
    (here' : sampleClasses o' = some row') (_ : row.relname = row'.relname)
    (schema : row.relnamespace = row'.relnamespace) : o = o' := by
  unfold sampleClasses at here here'
  split_ifs at here here' <;> simp_all <;> simp [← here, ← here'] at schema

theorem nothing_inj {α : Type} {o o' : Int} {x : α} (here : (none : Option α) = some x) : o = o' :=
  absurd here (by simp)

def sampleCatalog : ObjectCatalog where
  namespaces := sampleNamespaces
  classes := sampleClasses
  attributes _ _ := none
  procs _ := none
  types _ := none
  operators _ := none
  languages _ := none
  extensions _ := none
  namespaces_inj := sampleNamespaces_inj
  classes_inj := sampleClasses_inj
  attributes_inj here _ := nothing_inj here
  procs_inj here _ _ _ _ := nothing_inj here
  types_inj here _ _ _ := nothing_inj here
  operators_inj here _ _ _ _ _ := nothing_inj here
  languages_inj here _ := nothing_inj here
  extensions_inj here _ := nothing_inj here

/-- Both tables are described as `table pg_class`. -/
theorem namesakes_alike : ¬sampleCatalog.DescribedRight PG_CLASS (1259, 0) (16384, 0) := by
  intro right
  exact right.apart (by decide) "table pg_class" (by rfl) (by rfl)

end PgCatalog.UserFunctions
