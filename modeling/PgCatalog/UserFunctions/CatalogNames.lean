import Mathlib.Data.List.Nodup
import Mathlib.Logic.Function.Basic
import PgCatalog.Library.Quoting
import PgCatalog.Library.Text
import PgCatalog.UserFunctions.SearchPathSchemas

/-! `oid('name')` and `regclass_oid('name')`, and the relation a `regclass` text names. -/
namespace PgCatalog.UserFunctions

open Library

/-- A row of `pg_class`, with the name of its schema. -/
structure Relation where
  oid : Nat
  relname : String
  schema : String
  deriving DecidableEq

/-- The relations of a catalog: no OID is zero or given twice, and no schema has a name twice. -/
structure ClassTable where
  relations : List Relation
  positive : ∀ relation ∈ relations, 0 < relation.oid
  oids : (relations.map Relation.oid).Nodup
  names : (relations.map fun relation => (relation.schema, relation.relname)).Nodup

namespace ClassTable

/-- The relations of a name, in any schema. -/
def named (table : ClassTable) (name : String) : List Relation :=
  table.relations.filter fun relation => relation.relname = name

def find (table : ClassTable) (schema name : String) : Option Relation :=
  table.relations.find? fun relation => relation.schema = schema && relation.relname = name

end ClassTable

/-! ## The name a `regclass` text reads as -/

/-- The blanks between the parts of a name. -/
def isNameSpace (c : Char) : Bool :=
  c = ' ' || c = '\t' || c = '\n' || c = '\r' || c.toNat = 0x0b || c.toNat = 0x0c

/-- Where the reading of a name stands. -/
inductive NameReading where
  | start
  | unquoted (name : List Char)
  | quoted (name : List Char)
  | closing (name : List Char)
  | after (name : List Char)

/-- The parts of a dotted name: unquoted ones in lower case, quoted ones as they stand. -/
def nameParts : NameReading → List Char → Option (List (List Char))
  | .start, [] => none
  | .start, c :: rest =>
    if isNameSpace c then nameParts .start rest
    else if c = '"' then nameParts (.quoted []) rest
    else if c = '.' then none
    else nameParts (.unquoted [c.toLower]) rest
  | .unquoted name, [] => some [name]
  | .unquoted name, c :: rest =>
    if isNameSpace c then nameParts (.after name) rest
    else if c = '.' then (nameParts .start rest).map (name :: ·)
    else nameParts (.unquoted (name ++ [c.toLower])) rest
  | .quoted _, [] => none
  | .quoted name, c :: rest =>
    if c = '"' then nameParts (.closing name) rest else nameParts (.quoted (name ++ [c])) rest
  | .closing name, [] => some [name]
  | .closing name, c :: rest =>
    if c = '"' then nameParts (.quoted (name ++ ['"'])) rest
    else if isNameSpace c then nameParts (.after name) rest
    else if c = '.' then (nameParts .start rest).map (name :: ·)
    else none
  | .after name, [] => some [name]
  | .after name, c :: rest =>
    if isNameSpace c then nameParts (.after name) rest
    else if c = '.' then (nameParts .start rest).map (name :: ·)
    else none

/-- The characters of a name that fit in so many bytes. -/
def clipped : Nat → List Char → List Char
  | _, [] => []
  | bytes, c :: rest => if c.utf8Size ≤ bytes then c :: clipped (bytes - c.utf8Size) rest else []

/-- The longest an identifier is, in bytes. -/
def MAX_NAME_BYTES : Nat := 63

inductive RegclassName where
  | absent
  | unqualified (name : String)
  | qualified (schema name : String)
  deriving DecidableEq

/-- What a text names; a number is an OID and no name. -/
def readRegclass (text : String) : Option RegclassName :=
  if text = "-" then some .absent
  else if text.toList.all Char.isDigit then none
  else match (nameParts .start text.toList).map
      (·.map fun name => String.ofList (clipped MAX_NAME_BYTES name)) with
    | some [name] => some (.unqualified name)
    | some [schema, name] => some (.qualified schema name)
    | _ => none

/-- A text with the name it reads as. -/
structure RegclassText where
  text : String
  name : RegclassName
  reads : readRegclass text = some name

/-- The relation a name is for: the qualifier's, or the first along the search path. -/
def ClassTable.resolve (table : ClassTable) (searchPath : List String) :
    RegclassName → Option Relation
  | .absent => none
  | .unqualified name => searchPath.findSome? fun schema => table.find schema name
  | .qualified schema name => table.find schema name

/-- The OID a name is for. -/
def ClassTable.regclassOid (table : ClassTable) (searchPath : List String) :
    RegclassName → Option Nat
  | .absent => some 0
  | name => (table.resolve searchPath name).map Relation.oid

/-! ## The queries the functions put to the engine -/

def escapeQuotes (text : String) : String := String.ofList (doubled '\'' text.toList)

/-- The texts as literals, with commas between them. -/
def inList (names : List String) : String :=
  String.ofList (markedList '\'' [',', ' '] (names.map String.toList))

def namesQuery (catalogTable nameColumn : String) (names : List String) : String :=
  "SELECT " ++ nameColumn ++ ", oid FROM " ++ catalogTable ++ " WHERE " ++ nameColumn ++ " IN (" ++
    inList names ++ ")"

def relnameQuery (relname : String) : String :=
  "SELECT oid FROM pg_catalog.pg_class WHERE relname = '" ++ relname ++ "'"

/-- What runs the queries. A literal with every quote doubled is the text it was made of, and
the rows come in any order. -/
structure Engine (table : ClassTable) where
  namedOids : String → Option (List (String × Nat))
  oids : String → Option (List Nat)
  namedOids_literals : ∀ names, names ≠ [] → ∃ rows,
    namedOids (namesQuery "pg_catalog.pg_class" "relname" names) = some rows ∧
      rows.Perm ((table.relations.filter fun relation => relation.relname ∈ names).map
        fun relation => (relation.relname, relation.oid))
  oids_literal : ∀ name, ∃ rows,
    oids (relnameQuery (escapeQuotes name)) = some rows ∧
      rows.Perm ((table.named name).map Relation.oid)

def ABSENT_OBJECT_NAME : String := "-"

def ABSENT_OBJECT_OID : Nat := 0

inductive CatalogObjectReference where
  | absent
  | named (name : String)

/-- What follows the last dot, or all of a text without one. -/
def afterLastDot (text : String) : String :=
  String.ofList (text.toList.reverse.takeWhile (· ≠ '.')).reverse

def parseCatalogObjectReference (raw : String) : CatalogObjectReference :=
  if raw = ABSENT_OBJECT_NAME then .absent else .named (afterLastDot raw)

def CatalogObjectReference.name? : CatalogObjectReference → Option String
  | .absent => none
  | .named name => some name

/-- The lowest OID seen so far of each name, with one more row. -/
def addLowest (out : String → Option Nat) (row : String × Nat) : String → Option Nat :=
  Function.update out row.1 (some (match out row.1 with
    | some lowest => min lowest row.2
    | none => row.2))

def fetchOidsByNames {table : ClassTable} (engine : Engine table) (names : List String) :
    Option (String → Option Nat) :=
  if names = [] then some fun _ => none
  else (engine.namedOids (namesQuery "pg_catalog.pg_class" "relname" names)).map
    (List.foldl addLowest fun _ => none)

def ColumnarValue.column {α : Type} : ColumnarValue α → List (Option α)
  | .scalar value => [value]
  | .array values => values

def distinctNames (references : List (Option CatalogObjectReference)) : List String :=
  ((references.filterMap fun reference => reference.bind CatalogObjectReference.name?).mergeSort
    (· ≤ ·)).eraseDups

def resolved (oids : String → Option Nat) : Option CatalogObjectReference → Option Nat
  | none => none
  | some .absent => some ABSENT_OBJECT_OID
  | some (.named name) => oids name

/-- `oid(text)`. -/
def nameToOid {table : ClassTable} (engine : Engine table) (args : ColumnarValue String) :
    Option (ColumnarValue Nat) :=
  let references := args.column.map (·.map parseCatalogObjectReference)
  (fetchOidsByNames engine (distinctNames references)).map fun oids =>
    match args with
    | .scalar _ => .scalar (references.head?.bind (resolved oids))
    | .array _ => .array (references.map (resolved oids))

/-- The rows of `regclass_oid('name')`. -/
def regClassOidTable {table : ClassTable} (engine : Engine table) (relname : String) :
    Option (List (Option Nat)) :=
  (engine.oids (relnameQuery relname)).map fun rows =>
    if rows = [] then [none] else rows.map some

/-- The lowest OID of a name. -/
def ClassTable.lowest (table : ClassTable) (name : String) : Option Nat :=
  ((table.named name).map Relation.oid).min?

/-- What `oid` answers for a text. -/
def ClassTable.answer (table : ClassTable) (text : String) : Option Nat :=
  if text = ABSENT_OBJECT_NAME then some ABSENT_OBJECT_OID else table.lowest (afterLastDot text)

/-- What is kept of the rows: the lowest OID of each name among them. -/
structure LowestOf (rows : List (String × Nat)) (out : String → Option Nat) : Prop where
  present : ∀ {name oid}, out name = some oid →
    (name, oid) ∈ rows ∧ ∀ other, (name, other) ∈ rows → oid ≤ other
  absent : ∀ {name}, out name = none → ∀ oid, (name, oid) ∉ rows

theorem addLowest_here (out : String → Option Nat) (name : String) (oid : Nat) :
    addLowest out (name, oid) name = some (match out name with
      | some lowest => min lowest oid
      | none => oid) := Function.update_self ..

theorem addLowest_elsewhere (out : String → Option Nat) {name other : String} (oid : Nat)
    (apart : other ≠ name) : addLowest out (name, oid) other = out other :=
  Function.update_of_ne apart ..

theorem lowestOf_nil : LowestOf [] fun _ => none where
  present found := by cases found
  absent _ _ := List.not_mem_nil

theorem lowestOf_add {rows : List (String × Nat)} {out : String → Option Nat}
    (kept : LowestOf rows out) (row : String × Nat) :
    LowestOf (rows ++ [row]) (addLowest out row) := by
  obtain ⟨added, oid⟩ := row
  have here : ∀ {other : Nat}, (added, other) ∈ rows ++ [(added, oid)] →
      (added, other) ∈ rows ∨ other = oid := by
    intro other member
    obtain before | last := List.mem_append.mp member
    · exact .inl before
    · exact .inr (congrArg Prod.snd (List.mem_singleton.mp last))
  have elsewhere : ∀ {name : String} {other : Nat}, name ≠ added →
      ((name, other) ∈ rows ++ [(added, oid)] ↔ (name, other) ∈ rows) := by
    intro name other apart
    rw [List.mem_append, List.mem_singleton]
    exact or_iff_left fun same => apart (congrArg Prod.fst same)
  have last : (added, oid) ∈ rows ++ [(added, oid)] :=
    List.mem_append_right _ List.mem_cons_self
  refine ⟨fun {name lowest} found => ?_, fun {name} missing other => ?_⟩
  · by_cases same : name = added
    · subst same
      rw [addLowest_here, Option.some.injEq] at found
      cases before : out name with
      | none =>
        rw [before] at found
        obtain rfl : oid = lowest := found
        refine ⟨last, fun other member => ?_⟩
        obtain inside | rfl := here member
        · exact absurd inside (kept.absent before other)
        · exact Nat.le_refl _
      | some previous =>
        rw [before] at found
        obtain rfl : min previous oid = lowest := found
        obtain ⟨held, least⟩ := kept.present before
        refine ⟨?_, fun other member => ?_⟩
        · obtain first | second := Nat.le_total previous oid
          · rw [Nat.min_eq_left first]
            exact List.mem_append_left _ held
          · rw [Nat.min_eq_right second]
            exact last
        · obtain inside | rfl := here member
          · exact Nat.le_trans (Nat.min_le_left ..) (least other inside)
          · exact Nat.min_le_right ..
    · rw [addLowest_elsewhere _ _ same] at found
      obtain ⟨held, least⟩ := kept.present found
      exact ⟨(elsewhere same).mpr held,
        fun other member => least other ((elsewhere same).mp member)⟩
  · by_cases same : name = added
    · rw [same, addLowest_here] at missing
      cases missing
    · rw [addLowest_elsewhere _ _ same] at missing
      rw [elsewhere same]
      exact kept.absent missing other

theorem lowestOf_foldl (rows : List (String × Nat)) {before : List (String × Nat)}
    {out : String → Option Nat} (kept : LowestOf before out) :
    LowestOf (before ++ rows) (rows.foldl addLowest out) := by
  induction rows generalizing before out with
  | nil =>
    rw [List.append_nil]
    exact kept
  | cons row rest ih =>
    have next := ih (lowestOf_add kept row)
    rwa [List.append_assoc, List.singleton_append] at next

theorem LowestOf.eq_min? {rows : List (String × Nat)} {out : String → Option Nat}
    {name : String} {oids : List Nat} (kept : LowestOf rows out)
    (same : ∀ oid, (name, oid) ∈ rows ↔ oid ∈ oids) : out name = oids.min? := by
  cases found : out name with
  | none =>
    have empty : oids = [] := List.eq_nil_iff_forall_not_mem.mpr fun oid member =>
      kept.absent found oid ((same oid).mpr member)
    rw [empty]
    rfl
  | some lowest =>
    obtain ⟨held, least⟩ := kept.present found
    exact (List.min?_eq_some_iff.mpr
      ⟨(same lowest).mp held, fun other member => least other ((same other).mpr member)⟩).symm

section
variable {table : ClassTable} (engine : Engine table)

/-- The rows of a name, among those of a list of names. -/
theorem mem_named_rows {names : List String} {name : String} (listed : name ∈ names) (oid : Nat) :
    (name, oid) ∈ (table.relations.filter fun relation => relation.relname ∈ names).map
        (fun relation => (relation.relname, relation.oid)) ↔
      oid ∈ (table.named name).map Relation.oid := by
  unfold ClassTable.named
  rw [List.mem_map, List.mem_map]
  constructor
  · rintro ⟨relation, member, row⟩
    obtain ⟨rfl, rfl⟩ := Prod.mk.inj row
    have called : decide (relation.relname = relation.relname) = true := decide_eq_true rfl
    exact ⟨relation, List.mem_filter.mpr ⟨(List.mem_filter.mp member).1, called⟩, rfl⟩
  · rintro ⟨relation, member, rfl⟩
    obtain ⟨inside, same⟩ := List.mem_filter.mp member
    have called : relation.relname = name := of_decide_eq_true same
    refine ⟨relation, List.mem_filter.mpr ⟨inside, decide_eq_true ?_⟩, by rw [called]⟩
    rw [called]
    exact listed

theorem fetchOidsByNames_lowest (names : List String) :
    ∃ oids, fetchOidsByNames engine names = some oids ∧
      ∀ name ∈ names, oids name = table.lowest name := by
  unfold fetchOidsByNames
  split
  · rename_i empty
    rw [empty]
    exact ⟨_, rfl, fun _ member => absurd member List.not_mem_nil⟩
  · rename_i some_
    obtain ⟨rows, found, all⟩ := engine.namedOids_literals names some_
    have kept : LowestOf rows (rows.foldl addLowest fun _ => none) :=
      lowestOf_foldl rows lowestOf_nil
    refine ⟨_, by rw [found]; rfl, fun name listed => kept.eq_min? fun oid => ?_⟩
    rw [all.mem_iff, mem_named_rows listed]

theorem mem_distinctNames {references : List (Option CatalogObjectReference)} {name : String}
    (member : some (.named name) ∈ references) : name ∈ distinctNames references := by
  rw [distinctNames, List.mem_eraseDups, List.mem_mergeSort, List.mem_filterMap]
  exact ⟨_, member, rfl⟩

theorem resolved_answer {references : List (Option CatalogObjectReference)}
    {oids : String → Option Nat}
    (lowest : ∀ name ∈ distinctNames references, oids name = table.lowest name)
    {value : Option String} (member : value.map parseCatalogObjectReference ∈ references) :
    resolved oids (value.map parseCatalogObjectReference) = value.bind table.answer := by
  cases value with
  | none => rfl
  | some text =>
    rw [Option.map_some] at member ⊢
    rw [Option.bind_some]
    unfold parseCatalogObjectReference ClassTable.answer at *
    split
    · rfl
    · rename_i present
      rw [if_neg present] at member
      exact lowest _ (mem_distinctNames member)

/-- Each row is answered by its own text. -/
theorem nameToOid_array (column : List (Option String)) :
    nameToOid engine (.array column) = some (.array (column.map (·.bind table.answer))) := by
  unfold nameToOid
  obtain ⟨oids, found, lowest⟩ := fetchOidsByNames_lowest engine
    (distinctNames (column.map (·.map parseCatalogObjectReference)))
  simp only [ColumnarValue.column]
  rw [found, Option.map_some, List.map_map]
  refine congrArg (fun values => some (ColumnarValue.array values))
    (List.map_congr_left fun value member => ?_)
  exact resolved_answer lowest (List.mem_map_of_mem member)

theorem nameToOid_scalar (value : Option String) :
    nameToOid engine (.scalar value) = some (.scalar (value.bind table.answer)) := by
  unfold nameToOid
  obtain ⟨oids, found, lowest⟩ := fetchOidsByNames_lowest engine
    (distinctNames [value.map parseCatalogObjectReference])
  simp only [ColumnarValue.column, List.map_cons, List.map_nil]
  rw [found, Option.map_some, List.head?_cons, Option.bind_some]
  exact congrArg (fun answer => some (ColumnarValue.scalar answer))
    (resolved_answer lowest List.mem_cons_self)

end

/-- A text resolves to the relation it names, in every way it can be asked for. -/
structure Resolves {table : ClassTable} (engine : Engine table) (searchPath : List String)
    (s : RegclassText) : Prop where
  scalar : nameToOid engine (.scalar (some s.text)) =
    some (.scalar (table.regclassOid searchPath s.name))
  array : ∀ (column : List (Option String)) (i : Nat), column[i]? = some (some s.text) →
    ∃ oids, nameToOid engine (.array column) = some (.array oids) ∧
      oids[i]? = some (table.regclassOid searchPath s.name)
  table : regClassOidTable engine s.text = some [table.regclassOid searchPath s.name]

/-- The text is not `-` and has its quotes doubled; what it names bears the text itself as its
name, and nothing else does; and where it names nothing, nothing bears what is looked up. -/
structure PlainlyNamed (table : ClassTable) (searchPath : List String) (s : RegclassText) :
    Prop where
  present : s.text ≠ "-"
  quotes : ∃ name, escapeQuotes name = s.text
  found : ∀ relation, table.resolve searchPath s.name = some relation →
    '.' ∉ s.text.toList ∧ '\'' ∉ s.text.toList ∧ table.named s.text = [relation]
  missing : table.resolve searchPath s.name = none →
    table.named (afterLastDot s.text) = [] ∧
      ∀ name, escapeQuotes name = s.text → table.named name = []

theorem toList_injective {a b : String} (same : a.toList = b.toList) : a = b := by
  rw [← @String.ofList_toList a, same, String.ofList_toList]

theorem toList_escapeQuotes (text : String) :
    (escapeQuotes text).toList = doubled '\'' text.toList := String.toList_ofList

theorem escapeQuotes_injective {a b : String} (same : escapeQuotes a = escapeQuotes b) : a = b := by
  have chars := congrArg String.toList same
  rw [toList_escapeQuotes, toList_escapeQuotes] at chars
  exact toList_injective (doubled_injective '\'' chars)

theorem escapeQuotes_of_not_mem {text : String} (unquoted : '\'' ∉ text.toList) :
    escapeQuotes text = text := by
  rw [escapeQuotes, doubled_eq_self_iff.mpr unquoted, String.ofList_toList]

theorem between_injective {start a b ending : String}
    (same : start ++ a ++ ending = start ++ b ++ ending) : a = b := by
  have chars := congrArg String.toList same
  simp only [String.toList_append] at chars
  exact toList_injective (List.append_cancel_left (List.append_cancel_right chars))

theorem relnameQuery_injective {a b : String} (same : relnameQuery a = relnameQuery b) : a = b :=
  between_injective same

theorem inList_injective {names others : List String} (same : inList names = inList others) :
    names = others := by
  have apart : ',' ≠ '\'' := by decide
  have chars := congrArg String.toList same
  rw [inList, inList, String.toList_ofList, String.toList_ofList] at chars
  exact List.map_injective_iff.mpr (fun _ _ => toList_injective) (markedList_inj apart chars)

theorem namesQuery_injective {table column : String} {names others : List String}
    (same : namesQuery table column names = namesQuery table column others) : names = others :=
  inList_injective (between_injective same)

section
variable {table : ClassTable} {searchPath : List String} {s : RegclassText}

/-- The engine that answers these queries and no others. -/
noncomputable def ClassTable.engine (table : ClassTable) : Engine table where
  namedOids sql := open Classical in
    if query : ∃ names, namesQuery "pg_catalog.pg_class" "relname" names = sql then
      some ((table.relations.filter fun relation => relation.relname ∈ query.choose).map
        fun relation => (relation.relname, relation.oid))
    else none
  oids sql := open Classical in
    if query : ∃ name, relnameQuery (escapeQuotes name) = sql then
      some ((table.named query.choose).map Relation.oid)
    else none
  namedOids_literals names _ := by
    have query : ∃ others, namesQuery "pg_catalog.pg_class" "relname" others =
        namesQuery "pg_catalog.pg_class" "relname" names := ⟨names, rfl⟩
    refine ⟨_, dif_pos query, ?_⟩
    rw [namesQuery_injective query.choose_spec]
  oids_literal name := by
    have query : ∃ other, relnameQuery (escapeQuotes other) = relnameQuery (escapeQuotes name) :=
      ⟨name, rfl⟩
    refine ⟨_, dif_pos query, ?_⟩
    rw [escapeQuotes_injective (relnameQuery_injective query.choose_spec)]

theorem engine_refuses (undoubled : ¬∃ name, escapeQuotes name = s.text) :
    regClassOidTable table.engine s.text = none := by
  have unasked : ¬∃ name, relnameQuery (escapeQuotes name) = relnameQuery s.text :=
    fun ⟨name, same⟩ => undoubled ⟨name, relnameQuery_injective same⟩
  have refused : table.engine.oids (relnameQuery s.text) = none := dif_neg unasked
  rw [regClassOidTable, refused]
  rfl

theorem dotless_afterLastDot {text : String} (dotless : '.' ∉ text.toList) :
    afterLastDot text = text := by
  have all : text.toList.reverse.takeWhile (· ≠ '.') = text.toList.reverse := by
    rw [List.takeWhile_eq_self_iff]
    intro c member
    exact decide_eq_true fun same => dotless (same ▸ List.mem_reverse.mp member)
  rw [afterLastDot, all, List.reverse_reverse, String.ofList_toList]

theorem dot_not_mem_afterLastDot (text : String) : '.' ∉ (afterLastDot text).toList := by
  rw [afterLastDot, String.toList_ofList]
  intro member
  have other := List.mem_takeWhile_imp (List.mem_reverse.mp member)
  simp at other

theorem resolve_mem {relation : Relation}
    (found : table.resolve searchPath s.name = some relation) : relation ∈ table.relations := by
  cases name : s.name with
  | absent =>
    rw [name] at found
    cases found
  | unqualified =>
    rw [name] at found
    obtain ⟨schema, _, first⟩ := List.exists_of_findSome?_eq_some found
    exact List.mem_of_find?_eq_some first
  | qualified =>
    rw [name] at found
    exact List.mem_of_find?_eq_some found

/-- Of two relations with one OID, both are the same. -/
theorem oid_injective {a b : Relation} (member : a ∈ table.relations)
    (member' : b ∈ table.relations) (same : a.oid = b.oid) : a = b :=
  List.inj_on_of_nodup_map table.oids member member' same

theorem mem_named {name : String} {relation : Relation} :
    relation ∈ table.named name ↔ relation ∈ table.relations ∧ relation.relname = name := by
  rw [ClassTable.named, List.mem_filter, decide_eq_true_eq]

theorem lowest_mem {name : String} {oid : Nat} (lowest : table.lowest name = some oid) :
    ∃ relation ∈ table.named name, relation.oid = oid :=
  List.mem_map.mp (List.min?_eq_some_iff.mp lowest).1

theorem absent_iff : s.name = .absent ↔ s.text = "-" := by
  have reads := s.reads
  unfold readRegclass at reads
  constructor
  · intro absent
    by_contra other
    rw [if_neg other, absent] at reads
    split at reads
    · cases reads
    · split at reads <;> cases reads
  · intro dash
    rw [if_pos dash] at reads
    exact (Option.some.inj reads).symm

theorem regclassOid_present (present : s.text ≠ "-") :
    table.regclassOid searchPath s.name = (table.resolve searchPath s.name).map Relation.oid := by
  cases name : s.name with
  | absent => exact absurd (absent_iff.mp name) present
  | unqualified => rfl
  | qualified => rfl

theorem answer_present (present : s.text ≠ "-") :
    table.answer s.text = table.lowest (afterLastDot s.text) := if_neg present

/-- The table holds the OIDs of the relations with the name, or one NULL without any. -/
theorem regClassOidTable_rows (engine : Engine table) {name : String}
    (doubled_ : escapeQuotes name = s.text) {answer : Option Nat} :
    regClassOidTable engine s.text = some [answer] ↔
      (table.named name).map Relation.oid = answer.toList := by
  obtain ⟨rows, found, all⟩ := engine.oids_literal name
  rw [doubled_] at found
  rw [regClassOidTable, found, Option.map_some, Option.some.injEq]
  cases answer with
  | none =>
    rw [Option.toList_none]
    constructor
    · intro same
      split at same
      · rename_i empty
        rw [empty] at all
        exact all.symm.eq_nil
      · have member : none ∈ rows.map some := by
          rw [same]
          exact List.mem_cons_self
        simp at member
    · intro empty
      rw [empty] at all
      rw [if_pos all.eq_nil]
  | some oid =>
    rw [Option.toList_some]
    constructor
    · intro same
      split at same
      · cases same
      · have one : rows = [oid] := List.map_injective_iff.mpr (fun _ _ => Option.some.inj) same
        rw [one] at all
        exact List.perm_singleton.mp all.symm
    · intro one
      rw [one] at all
      rw [List.perm_singleton.mp all]
      rfl

theorem resolves_of_plain (engine : Engine table) (plain : PlainlyNamed table searchPath s) :
    Resolves engine searchPath s := by
  have expected := @regclassOid_present table searchPath s plain.present
  have answers : table.answer s.text = table.regclassOid searchPath s.name := by
    rw [answer_present plain.present, expected]
    cases found : table.resolve searchPath s.name with
    | none =>
      rw [ClassTable.lowest, (plain.missing found).1]
      rfl
    | some relation =>
      obtain ⟨dotless, -, only⟩ := plain.found relation found
      rw [dotless_afterLastDot dotless, ClassTable.lowest, only]
      rfl
  refine ⟨?_, fun column i row => ⟨_, nameToOid_array engine column, ?_⟩, ?_⟩
  · rw [nameToOid_scalar, Option.bind_some, answers]
  · rw [List.getElem?_map, row, Option.map_some, Option.bind_some, answers]
  · obtain ⟨name, doubled_⟩ := plain.quotes
    rw [regClassOidTable_rows engine doubled_, expected]
    cases found : table.resolve searchPath s.name with
    | none =>
      rw [(plain.missing found).2 name doubled_]
      rfl
    | some relation =>
      obtain ⟨-, unquoted, only⟩ := plain.found relation found
      rw [← escapeQuotes_of_not_mem unquoted] at doubled_
      rw [escapeQuotes_injective doubled_, only]
      rfl

theorem plain_of_resolves (resolves : Resolves table.engine searchPath s) :
    PlainlyNamed table searchPath s := by
  have quotes : ∃ name, escapeQuotes name = s.text := by
    by_contra undoubled
    have refused := @engine_refuses table s undoubled
    rw [resolves.table] at refused
    cases refused
  obtain ⟨name, doubled_⟩ := quotes
  have rows := (regClassOidTable_rows table.engine doubled_).mp resolves.table
  have present : s.text ≠ "-" := by
    intro dash
    have zero : (table.named name).map Relation.oid = [0] := by
      rw [rows, absent_iff.mpr dash]
      rfl
    have member : 0 ∈ (table.named name).map Relation.oid := by
      rw [zero]
      exact List.mem_cons_self
    obtain ⟨relation, listed, none_⟩ := List.mem_map.mp member
    have positive := table.positive relation (mem_named.mp listed).1
    omega
  have scalar := resolves.scalar
  rw [nameToOid_scalar, Option.bind_some, answer_present present, Option.some.injEq,
    ColumnarValue.scalar.injEq] at scalar
  rw [regclassOid_present present] at rows scalar
  refine ⟨present, ⟨name, doubled_⟩, fun relation found => ?_, fun missing => ⟨?_, ?_⟩⟩
  · have member := resolve_mem found
    rw [found, Option.map_some] at rows scalar
    -- What both look up is called by what follows the last dot and by the text undoubled.
    obtain ⟨bare, bareNamed, bareOid⟩ := lowest_mem scalar
    have bareName := (mem_named.mp bareNamed).2
    rw [oid_injective (mem_named.mp bareNamed).1 member bareOid] at bareName
    obtain ⟨whole, one⟩ := List.length_eq_one_iff.mp
      ((List.length_map _).symm.trans (congrArg List.length rows))
    have wholeNamed : whole ∈ table.named name := by
      rw [one]
      exact List.mem_cons_self
    rw [one] at rows
    have same : whole = relation :=
      oid_injective (mem_named.mp wholeNamed).1 member (List.cons.inj rows).1
    rw [same] at wholeNamed one
    have called := (mem_named.mp wholeNamed).2
    have dotless : '.' ∉ s.text.toList := by
      rw [← doubled_, toList_escapeQuotes, mem_doubled, ← called, bareName]
      exact dot_not_mem_afterLastDot s.text
    have itself : name = s.text := by
      rw [← called, bareName, dotless_afterLastDot dotless]
    refine ⟨dotless, ?_, itself ▸ one⟩
    rw [itself] at doubled_
    have chars := congrArg String.toList doubled_
    rw [toList_escapeQuotes] at chars
    exact doubled_eq_self_iff.mp chars
  · rw [missing, Option.map_none] at scalar
    exact List.map_eq_nil_iff.mp (List.min?_eq_none_iff.mp scalar)
  · intro other doubled'
    rw [missing, Option.map_none, Option.toList_none] at rows
    rw [escapeQuotes_injective (doubled'.trans doubled_.symm)]
    exact List.map_eq_nil_iff.mp rows

/-- A text resolves to what it names, whatever answers the queries, exactly if it is plain. -/
theorem resolves_iff (table : ClassTable) (searchPath : List String) (s : RegclassText) :
    (∀ engine : Engine table, Resolves engine searchPath s) ↔ PlainlyNamed table searchPath s :=
  ⟨fun all => plain_of_resolves (all table.engine),
    fun plain engine => resolves_of_plain engine plain⟩

end

/-- A catalog with `"Foo"` in `public`. -/
def fooTable : ClassTable where
  relations := [⟨20000, "Foo", "public"⟩]
  positive := by decide
  oids := by decide
  names := by decide

def quotedFoo : RegclassText := ⟨"\"Foo\"", .unqualified "Foo", by decide +kernel⟩

/-- `oid('"Foo"')` looks for a relation with the quotes in its name. -/
theorem quoted_unresolved :
    ¬∀ engine : Engine fooTable, Resolves engine ["pg_catalog", "public"] quotedFoo := by
  intro all
  have plain := plain_of_resolves (all fooTable.engine)
  have alone := (plain.found ⟨20000, "Foo", "public"⟩ (by decide)).2.2
  exact absurd alone (by decide)

end PgCatalog.UserFunctions
