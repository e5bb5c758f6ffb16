import Mathlib.Data.List.Find
import PgCatalog.Library.Regroup
import PgCatalog.UserFunctions.IndexDefinition

/-! The definitions of a set of indexes: two queries, what is rendered from their rows, and the
resolver asked about the rest. -/
namespace PgCatalog.UserFunctions

open Library

/-! ## The catalog the queries read -/

structure IndexRow where
  indexrelid : Option Int64
  indrelid : Option Int64
  indisunique : Option Bool
  indkey : Option (List (Option Int64))
  hasIndexprs : Bool
  hasIndpred : Bool

structure ClassRow where
  oid : Option Int64
  relname : Option String
  relnamespace : Option Int64
  relam : Option Int64

structure NamespaceRow where
  oid : Option Int64
  nspname : Option String

structure AmRow where
  oid : Option Int64
  amname : Option String

structure AttributeRow where
  attrelid : Option Int64
  attnum : Option Int64
  attname : Option String
  attisdropped : Option Bool

structure IndexCatalog where
  pgIndex : List IndexRow
  pgClass : List ClassRow
  pgNamespace : List NamespaceRow
  pgAm : List AmRow
  pgAttribute : List AttributeRow

/-- Equality in a join: NULL is equal to nothing. -/
def joins (a b : Option Int64) : Bool := a.isSome && a = b

/-- A row of the query for the indexes' parts. -/
structure PartRow where
  indexrelid : Option Int64
  indrelid : Option Int64
  indisunique : Option Bool
  indkey : Option (List (Option Int64))
  indexname : Option String
  tablename : Option String
  schemaname : Option String
  amname : Option String
  hasIndexprs : Bool
  hasIndpred : Bool

def partsQuery (catalog : IndexCatalog) (oids : List Int64) : List PartRow :=
  (catalog.pgIndex.filter fun x => x.indexrelid.any (· ∈ oids)).flatMap fun x =>
    (catalog.pgClass.filter fun i => joins i.oid x.indexrelid).flatMap fun i =>
      (catalog.pgClass.filter fun c => joins c.oid x.indrelid).flatMap fun c =>
        (catalog.pgNamespace.filter fun n => joins n.oid c.relnamespace).flatMap fun n =>
          (catalog.pgAm.filter fun am => joins am.oid i.relam).map fun am =>
            ⟨x.indexrelid, x.indrelid, x.indisunique, x.indkey, i.relname, c.relname, n.nspname,
              am.amname, x.hasIndexprs, x.hasIndpred⟩

/-! ## The rows decoded -/

structure IndexIdentity where
  oid : Int64
  schema : String
  table : String
  name : String
  deriving DecidableEq

structure PlainIndexParts where
  indexOid : Int64
  tableOid : Int64
  isUnique : Bool
  keyAttnums : List Int64
  indexName : String
  tableName : String
  schemaName : String
  accessMethod : String

def identityOf (row : PartRow) : Option IndexIdentity := do
  let oid ← row.indexrelid
  let name ← row.indexname
  let table ← row.tablename
  let schema ← row.schemaname
  return ⟨oid, schema, table, name⟩

/-- The parts of an index without an expression and a predicate; a NULL key number is 0. -/
def partsOf (row : PartRow) : Option PlainIndexParts := do
  let indexOid ← row.indexrelid
  if row.hasIndexprs || row.hasIndpred then none
  else do
    let tableOid ← row.indrelid
    let attnums ← row.indkey
    let indexName ← row.indexname
    let tableName ← row.tablename
    let schemaName ← row.schemaname
    let accessMethod ← row.amname
    return ⟨indexOid, tableOid, row.indisunique.getD false, attnums.map (·.getD 0), indexName,
      tableName, schemaName, accessMethod⟩

/-- Entries put into an empty map, a later one in place of an earlier one of its key. -/
def collected {κ ν : Type} [DecidableEq κ] (entries : List (κ × ν)) : HashMap κ ν :=
  entries.foldl (fun m entry => m.insert entry.1 entry.2) ∅

def readIndexPartsAndIdentities (rows : List PartRow) :
    List PlainIndexParts × HashMap Int64 IndexIdentity :=
  (rows.filterMap partsOf,
    collected ((rows.filterMap identityOf).map fun identity => (identity.oid, identity)))

/-- The ordinary columns of the tables, by table and number. -/
def fetchAttributeNames (catalog : IndexCatalog) (tableOids : List Int64) :
    HashMap (Int64 × Int64) String :=
  collected ((catalog.pgAttribute.filter fun row => row.attrelid.any (· ∈ tableOids) &&
      row.attnum.any (0 < ·) && row.attisdropped = some false).filterMap fun row => do
    let attrelid ← row.attrelid
    let attnum ← row.attnum
    let attname ← row.attname
    return ((attrelid, attnum), attname))

/-- The text of an index whose key columns all have names; 0 stands for an expression. -/
def renderIndex (names : HashMap (Int64 × Int64) String) (index : PlainIndexParts) : Option String :=
  if 0 ∈ index.keyAttnums then none
  else do
    let columns ← index.keyAttnums.mapM fun attnum => names.lookup (index.tableOid, attnum)
    return renderCreateIndexStatement index.isUnique index.indexName index.schemaName
      index.tableName index.accessMethod columns

/-- What is rendered from the catalog alone. -/
def structuralDefinitions (names : HashMap (Int64 × Int64) String) (parsed : List PlainIndexParts) :
    HashMap Int64 String :=
  collected (parsed.filterMap fun index => (renderIndex names index).map (index.indexOid, ·))

/-- Definitions, and the identities the resolver was asked about. -/
structure Resolution where
  out : HashMap Int64 String
  asked : List IndexIdentity

def consult (resolver : IndexIdentity → Option String) (state : Resolution)
    (entry : (_ : Int64) × IndexIdentity) : Resolution :=
  if (state.out.lookup entry.1).isSome then state
  else match resolver entry.2 with
    | some text => ⟨state.out.insert entry.1 text, state.asked ++ [entry.2]⟩
    | none => ⟨state.out, state.asked ++ [entry.2]⟩

/-- The names of all columns of the tables whose indexes were parsed. -/
def namesOf (catalog : IndexCatalog) (parsed : List PlainIndexParts) :
    HashMap (Int64 × Int64) String :=
  fetchAttributeNames catalog (parsed.map (·.tableOid))

def fetchIndexDefinitions (catalog : IndexCatalog) (resolver : Option (IndexIdentity → Option String))
    (oids : List Int64) : Resolution :=
  if oids = [] then ⟨∅, []⟩
  else
    let (parsed, identities) := readIndexPartsAndIdentities (partsQuery catalog oids)
    let out := structuralDefinitions (namesOf catalog parsed) parsed
    match resolver with
    | some resolver => identities.entries.foldl (consult resolver) ⟨out, []⟩
    | none => ⟨out, []⟩

/-! ## Who answers for an index -/

section
variable {κ ν : Type} [DecidableEq κ] {entries : List (κ × ν)} {k : κ} {v : ν}

theorem lookup_collected (entries : List (κ × ν)) (k : κ) :
    (collected entries).lookup k = (HashMap.under k entries).getLast? := by
  have last : ∀ (parts : List ν) (found : Option ν),
      parts.foldl (fun _ part => some part) found = parts.getLast?.or found := by
    intro parts
    induction parts with
    | nil => exact fun found => rfl
    | cons part parts ih =>
      intro found
      rw [List.foldl_cons, ih]
      cases parts <;> simp [List.getLast?_cons]
  have regrouped : (collected entries).lookup k = _ :=
    HashMap.lookup_regroup ∅ (fun _ v => v) entries
  refine regrouped.trans ((last _ _).trans ?_)
  rw [AList.lookup_empty, Option.or_none]

theorem mem_under : v ∈ HashMap.under k entries ↔ (k, v) ∈ entries := by
  simp only [HashMap.under, List.mem_map, List.mem_filter, decide_eq_true_eq]
  constructor
  · rintro ⟨⟨k', v'⟩, ⟨member, rfl⟩, rfl⟩
    exact member
  · intro member
    exact ⟨(k, v), ⟨member, rfl⟩, rfl⟩

theorem mem_of_lookup_collected (found : (collected entries).lookup k = some v) :
    (k, v) ∈ entries := by
  rw [lookup_collected] at found
  exact mem_under.mp (List.mem_of_getLast? found)

theorem lookup_collected_isSome :
    ((collected entries).lookup k).isSome ↔ ∃ v, (k, v) ∈ entries := by
  rw [lookup_collected, List.getLast?_isSome]
  constructor
  · intro some_
    obtain ⟨v, member⟩ := List.exists_mem_of_ne_nil _ some_
    exact ⟨v, mem_under.mp member⟩
  · rintro ⟨v, member⟩
    exact List.ne_nil_of_mem (mem_under.mpr member)

end

section
variable {resolver : IndexIdentity → Option String} {entries : List ((_ : Int64) × IndexIdentity)}

theorem lookup_consult_ne {state : Resolution} {entry : (_ : Int64) × IndexIdentity} {o : Int64}
    (apart : o ≠ entry.1) : (consult resolver state entry).out.lookup o = state.out.lookup o := by
  unfold consult
  split
  · rfl
  · cases resolver entry.2 with
    | none => rfl
    | some text => exact AList.lookup_insert_ne apart

theorem lookup_consult_self {state : Resolution} {entry : (_ : Int64) × IndexIdentity} :
    (consult resolver state entry).out.lookup entry.1 =
      (state.out.lookup entry.1).or (resolver entry.2) := by
  unfold consult
  split
  · next there =>
    obtain ⟨text, found⟩ := Option.isSome_iff_exists.mp there
    rw [found, Option.some_or]
  · next absent =>
    rw [Option.not_isSome_iff_eq_none.mp absent, Option.none_or]
    cases resolver entry.2 with
    | none => exact Option.not_isSome_iff_eq_none.mp absent
    | some text => exact AList.lookup_insert _

theorem asked_consult {state : Resolution} {entry : (_ : Int64) × IndexIdentity} :
    (consult resolver state entry).asked =
      state.asked ++ if (state.out.lookup entry.1).isSome then [] else [entry.2] := by
  unfold consult
  split
  · simp
  · cases resolver entry.2 <;> rfl

/-- Of entries with distinct keys, exactly those without a text are asked about, in order. -/
theorem asked_foldl (distinct : (entries.map (·.1)).Nodup) (state : Resolution) :
    (entries.foldl (consult resolver) state).asked = state.asked ++
      (entries.filter fun entry => (state.out.lookup entry.1).isNone).map (·.2) := by
  induction entries generalizing state with
  | nil => simp
  | cons entry rest ih =>
    rw [List.map_cons, List.nodup_cons] at distinct
    have same : ∀ other ∈ rest, (((consult resolver state entry).out.lookup other.1).isNone =
        (state.out.lookup other.1).isNone) := by
      intro other member
      rw [lookup_consult_ne]
      rintro same
      exact distinct.1 (same ▸ List.mem_map_of_mem member)
    rw [List.foldl_cons, ih distinct.2, asked_consult, List.filter_congr same, List.filter_cons]
    cases state.out.lookup entry.1 <;> simp

/-- A text that was there stays; else it is what the resolver says of the entry of that key. -/
theorem lookup_foldl (distinct : (entries.map (·.1)).Nodup) (state : Resolution) (o : Int64) :
    (entries.foldl (consult resolver) state).out.lookup o = (state.out.lookup o).or
      ((entries.find? fun entry => entry.1 = o).bind fun entry => resolver entry.2) := by
  induction entries generalizing state with
  | nil => simp
  | cons entry rest ih =>
    rw [List.map_cons, List.nodup_cons] at distinct
    rw [List.foldl_cons, ih distinct.2]
    by_cases same : entry.1 = o
    · subst same
      have absent : rest.find? (fun other => other.1 = entry.1) = none := by
        rw [List.find?_eq_none]
        intro other member there
        exact distinct.1 (of_decide_eq_true there ▸ List.mem_map_of_mem member)
      rw [lookup_consult_self, absent, List.find?_cons_of_pos (by simp)]
      simp
    · rw [lookup_consult_ne (Ne.symm same), List.find?_cons_of_neg (by simp [same])]

end

/-! ## What a request answers -/

section
variable (catalog : IndexCatalog) (oids : List Int64)

/-- An index of this OID exists. -/
def Indexed (o : Int64) : Prop := ∃ x ∈ catalog.pgIndex, x.indexrelid = some o

/-- An index of this OID exists, and so do its relation, its table, the schema of that and its
access method, and the first three have names. -/
def Identified (o : Int64) : Prop :=
  ∃ x ∈ catalog.pgIndex, x.indexrelid = some o ∧
    (∃ i ∈ catalog.pgClass, joins i.oid x.indexrelid ∧ i.relname.isSome ∧
      ∃ am ∈ catalog.pgAm, joins am.oid i.relam) ∧
    ∃ c ∈ catalog.pgClass, joins c.oid x.indrelid ∧ c.relname.isSome ∧
      ∃ n ∈ catalog.pgNamespace, joins n.oid c.relnamespace ∧ n.nspname.isSome

def parsedParts : List PlainIndexParts := (partsQuery catalog oids).filterMap partsOf

/-- The texts rendered from the catalog alone. -/
def rendered : HashMap Int64 String :=
  structuralDefinitions (namesOf catalog (parsedParts catalog oids)) (parsedParts catalog oids)

def identities : HashMap Int64 IndexIdentity :=
  collected (((partsQuery catalog oids).filterMap identityOf).map fun identity =>
    (identity.oid, identity))

/-- A column of a table under its number. -/
def ColumnNamed (table attnum : Int64) (name : String) : Prop :=
  ∃ row ∈ catalog.pgAttribute, row.attrelid = some table ∧ row.attnum = some attnum ∧
    row.attname = some name

/-- Every answer is of the index asked for: what is rendered from its own row and columns, and
else what the resolver says of it, asked once, and for no index that is rendered. -/
structure Answered (resolver : IndexIdentity → Option String) (resolution : Resolution) : Prop where
  once : (resolution.asked.map (·.oid)).Nodup
  asked : ∀ o, o ∈ resolution.asked.map (·.oid) ↔
    o ∈ oids ∧ Indexed catalog o ∧ (rendered catalog oids).lookup o = none
  own : ∀ identity ∈ resolution.asked, ∃ row ∈ partsQuery catalog oids,
    identityOf row = some identity
  ownText : ∀ o text, (rendered catalog oids).lookup o = some text →
    ∃ row ∈ partsQuery catalog oids, ∃ parts, partsOf row = some parts ∧ parts.indexOid = o ∧
      ∃ columns, List.Forall₂ (ColumnNamed catalog parts.tableOid) parts.keyAttnums columns ∧
        text = renderCreateIndexStatement parts.isUnique parts.indexName parts.schemaName
          parts.tableName parts.accessMethod columns
  answers : ∀ o, resolution.out.lookup o = ((rendered catalog oids).lookup o).or
    ((resolution.asked.find? (·.oid = o)).bind resolver)

variable {catalog oids} {o : Int64}

theorem partsQuery_nil : partsQuery catalog [] = [] := by
  have none_ : catalog.pgIndex.filter (fun x => x.indexrelid.any (· ∈ ([] : List Int64))) = [] := by
    rw [List.filter_eq_nil_iff]
    intro x _
    cases x.indexrelid <;> simp
  rw [partsQuery, none_]
  rfl

theorem fetch_eq (resolver : IndexIdentity → Option String) :
    fetchIndexDefinitions catalog (some resolver) oids =
      (identities catalog oids).entries.foldl (consult resolver) ⟨rendered catalog oids, []⟩ := by
  unfold fetchIndexDefinitions
  split
  · next none_ =>
    subst none_
    simp only [identities, rendered, parsedParts, partsQuery_nil]
    rfl
  · rfl

theorem identityOf_eq_some {row : PartRow} {identity : IndexIdentity} :
    identityOf row = some identity ↔ row.indexrelid = some identity.oid ∧
      row.indexname = some identity.name ∧ row.tablename = some identity.table ∧
        row.schemaname = some identity.schema := by
  obtain ⟨oid, schema, table, name⟩ := identity
  simp only [identityOf, Option.bind_eq_bind, Option.bind_eq_some_iff, Option.pure_def,
    Option.some.injEq, IndexIdentity.mk.injEq]
  constructor
  · rintro ⟨_, h, _, h', _, h'', _, h''', rfl, rfl, rfl, rfl⟩
    exact ⟨h, h', h'', h'''⟩
  · rintro ⟨h, h', h'', h'''⟩
    exact ⟨_, h, _, h', _, h'', _, h''', rfl, rfl, rfl, rfl⟩

/-- A row with parts identifies its index. -/
theorem identityOf_of_partsOf {row : PartRow} {parts : PlainIndexParts}
    (decoded : partsOf row = some parts) : row.indexrelid = some parts.indexOid ∧
      ∃ identity, identityOf row = some identity := by
  simp only [partsOf, Option.bind_eq_bind, Option.bind_eq_some_iff] at decoded
  obtain ⟨oid, found, decoded⟩ := decoded
  split at decoded
  · cases decoded
  · simp only [Option.bind_eq_some_iff, Option.pure_def, Option.some.injEq] at decoded
    obtain ⟨_, _, _, _, name, named, table, named', schema, named'', _, _, rfl⟩ := decoded
    exact ⟨found, ⟨oid, schema, table, name⟩, identityOf_eq_some.mpr ⟨found, named, named', named''⟩⟩

theorem lookup_identities_isSome : ((identities catalog oids).lookup o).isSome ↔
    ∃ row ∈ partsQuery catalog oids, ∃ identity, identityOf row = some identity ∧ identity.oid = o := by
  rw [identities, lookup_collected_isSome]
  simp only [List.mem_map, List.mem_filterMap, Prod.mk.injEq]
  constructor
  · rintro ⟨_, identity, ⟨row, member, named⟩, here, rfl⟩
    exact ⟨row, member, identity, named, here⟩
  · rintro ⟨row, member, identity, named, here⟩
    exact ⟨identity, identity, ⟨row, member, named⟩, here, rfl⟩

theorem mem_identities {entry : (_ : Int64) × IndexIdentity}
    (member : entry ∈ (identities catalog oids).entries) : entry.2.oid = entry.1 ∧
      ∃ row ∈ partsQuery catalog oids, identityOf row = some entry.2 := by
  have found := mem_of_lookup_collected (HashMap.mem_entries.mpr member)
  simp only [List.mem_map, List.mem_filterMap, Prod.mk.injEq] at found
  obtain ⟨identity, ⟨row, inside, named⟩, here, rfl⟩ := found
  exact ⟨here, row, inside, named⟩

theorem mapM_forall₂ {α β : Type} {f : α → Option β} {xs : List α} {ys : List β}
    (all : xs.mapM f = some ys) : List.Forall₂ (fun x y => f x = some y) xs ys := by
  induction xs generalizing ys with
  | nil =>
    obtain rfl := Option.some.inj all
    exact .nil
  | cons x xs ih =>
    simp only [List.mapM_cons, Option.bind_eq_bind, Option.bind_eq_some_iff] at all
    obtain ⟨y, found, zs, rest, same⟩ := all
    obtain rfl := Option.some.inj same
    exact .cons found (ih rest)

/-- A name looked up is that of the table's column of that number. -/
theorem columnNamed_of_lookup {tableOids : List Int64} {table attnum : Int64} {name : String}
    (found : (fetchAttributeNames catalog tableOids).lookup (table, attnum) = some name) :
    ColumnNamed catalog table attnum name := by
  have member := mem_of_lookup_collected found
  obtain ⟨row, inside, decoded⟩ := List.mem_filterMap.mp member
  simp only [Option.bind_eq_bind, Option.bind_eq_some_iff, Option.pure_def, Option.some.injEq,
    Prod.mk.injEq] at decoded
  obtain ⟨_, relation, _, number, _, named, ⟨rfl, rfl⟩, rfl⟩ := decoded
  exact ⟨row, (List.mem_filter.mp inside).1, relation, number, named⟩

/-- What is rendered for an index is made of one of its own rows and of its table's columns. -/
theorem rendered_own {text : String} (found : (rendered catalog oids).lookup o = some text) :
    ∃ row ∈ partsQuery catalog oids, ∃ parts, partsOf row = some parts ∧ parts.indexOid = o ∧
      ∃ columns, List.Forall₂ (ColumnNamed catalog parts.tableOid) parts.keyAttnums columns ∧
        text = renderCreateIndexStatement parts.isUnique parts.indexName parts.schemaName
          parts.tableName parts.accessMethod columns := by
  obtain ⟨parts, parsed, written⟩ := List.mem_filterMap.mp (mem_of_lookup_collected found)
  obtain ⟨row, member, decoded⟩ := List.mem_filterMap.mp parsed
  obtain ⟨text', made, same⟩ := Option.map_eq_some_iff.mp written
  obtain ⟨here, rfl⟩ := Prod.mk.inj same
  unfold renderIndex at made
  split at made
  · cases made
  · simp only [Option.bind_eq_bind, Option.bind_eq_some_iff, Option.pure_def,
      Option.some.injEq] at made
    obtain ⟨columns, named, rfl⟩ := made
    exact ⟨row, member, parts, decoded, here, columns,
      (mapM_forall₂ named).imp fun _ _ => columnNamed_of_lookup, rfl⟩

theorem identities_of_rendered {text : String}
    (found : (rendered catalog oids).lookup o = some text) :
    ((identities catalog oids).lookup o).isSome := by
  obtain ⟨row, member, parts, decoded, rfl, -⟩ := rendered_own found
  obtain ⟨oid, identity, named⟩ := identityOf_of_partsOf decoded
  have same : identity.oid = parts.indexOid :=
    Option.some.inj ((identityOf_eq_some.mp named).1.symm.trans oid)
  exact lookup_identities_isSome.mpr ⟨row, member, identity, named, same⟩

/-- The rows of the query are the joined rows of the requested indexes. -/
theorem mem_partsQuery {row : PartRow} : row ∈ partsQuery catalog oids ↔
    ∃ x ∈ catalog.pgIndex, (∃ o ∈ oids, x.indexrelid = some o) ∧
      ∃ i ∈ catalog.pgClass, joins i.oid x.indexrelid ∧
      ∃ c ∈ catalog.pgClass, joins c.oid x.indrelid ∧
      ∃ n ∈ catalog.pgNamespace, joins n.oid c.relnamespace ∧
      ∃ am ∈ catalog.pgAm, joins am.oid i.relam ∧
        row = ⟨x.indexrelid, x.indrelid, x.indisunique, x.indkey, i.relname, c.relname, n.nspname,
          am.amname, x.hasIndexprs, x.hasIndpred⟩ := by
  have requested : ∀ x : IndexRow, x.indexrelid.any (· ∈ oids) = true ↔
      ∃ o ∈ oids, x.indexrelid = some o := by
    intro x
    cases x.indexrelid <;> simp
  simp only [partsQuery, List.mem_flatMap, List.mem_filter, List.mem_map, requested, and_assoc,
    eq_comm]

/-- The identities are those of the requested indexes that can be identified. -/
theorem identities_iff : ((identities catalog oids).lookup o).isSome ↔
    o ∈ oids ∧ Identified catalog o := by
  rw [lookup_identities_isSome]
  simp only [mem_partsQuery]
  constructor
  · rintro ⟨row, ⟨x, inX, ⟨o', requested, oid⟩, i, inI, joined, c, inC, joined', n, inN, joined'',
      am, inAm, joined''', rfl⟩, identity, named, rfl⟩
    obtain ⟨here, name, table, schema⟩ := identityOf_eq_some.mp named
    dsimp only at here name table schema
    obtain rfl := Option.some.inj (oid.symm.trans here)
    exact ⟨requested, x, inX, oid, ⟨i, inI, joined, by simp [name], am, inAm, joined'''⟩,
      c, inC, joined', by simp [table], n, inN, joined'', by simp [schema]⟩
  · rintro ⟨requested, x, inX, oid, ⟨i, inI, joined, name, am, inAm, joined'''⟩,
      c, inC, joined', table, n, inN, joined'', schema⟩
    obtain ⟨name, named⟩ := Option.isSome_iff_exists.mp name
    obtain ⟨table, named'⟩ := Option.isSome_iff_exists.mp table
    obtain ⟨schema, named''⟩ := Option.isSome_iff_exists.mp schema
    exact ⟨_, ⟨x, inX, ⟨o, requested, oid⟩, i, inI, joined, c, inC, joined', n, inN, joined'',
      am, inAm, joined''', rfl⟩, ⟨o, schema, table, name⟩,
      identityOf_eq_some.mpr ⟨oid, named, named', named''⟩, rfl⟩

theorem entries_distinct (m : HashMap Int64 IndexIdentity) : (m.entries.map (·.1)).Nodup :=
  m.nodupKeys

/-- Asked about are the identified indexes without a rendered text. -/
theorem asked_iff (resolver : IndexIdentity → Option String) :
    o ∈ (fetchIndexDefinitions catalog (some resolver) oids).asked.map (·.oid) ↔
      o ∈ oids ∧ Identified catalog o ∧ (rendered catalog oids).lookup o = none := by
  rw [fetch_eq, asked_foldl (entries_distinct _), ← and_assoc, ← identities_iff]
  simp only [List.nil_append, List.map_map, List.mem_map, List.mem_filter, Function.comp_apply,
    Option.isNone_iff_eq_none]
  constructor
  · rintro ⟨entry, ⟨member, absent⟩, rfl⟩
    rw [(mem_identities member).1]
    exact ⟨by rw [HashMap.mem_entries.mpr member]; rfl, absent⟩
  · rintro ⟨there, absent⟩
    obtain ⟨identity, found⟩ := Option.isSome_iff_exists.mp there
    have member := HashMap.mem_entries.mp found
    exact ⟨⟨o, identity⟩, ⟨member, absent⟩, (mem_identities member).1⟩

/-- A request is answered index by index exactly if every requested index that exists can be
identified. -/
theorem answered_iff (resolver : IndexIdentity → Option String) :
    Answered catalog oids resolver (fetchIndexDefinitions catalog (some resolver) oids) ↔
      ∀ o ∈ oids, Indexed catalog o → Identified catalog o := by
  constructor
  · intro answered o requested indexed
    cases found : (rendered catalog oids).lookup o with
    | none =>
      have asked := (answered.asked o).mpr ⟨requested, indexed, found⟩
      exact ((asked_iff resolver).mp asked).2.1
    | some text => exact (identities_iff.mp (identities_of_rendered found)).2
  · intro known
    have distinct := entries_distinct (identities catalog oids)
    have oidsOf : (identities catalog oids).entries.map (·.2.oid) =
        (identities catalog oids).entries.map (·.1) :=
      List.map_congr_left fun entry member => (mem_identities member).1
    have asked : (fetchIndexDefinitions catalog (some resolver) oids).asked =
        ((identities catalog oids).entries.filter fun entry =>
          ((rendered catalog oids).lookup entry.1).isNone).map (·.2) := by
      rw [fetch_eq, asked_foldl distinct, List.nil_append]
    refine ⟨?_, ?_, ?_, fun o text => rendered_own, ?_⟩
    · rw [asked, List.map_map]
      have each : ((identities catalog oids).entries.map (·.2.oid)).Nodup := oidsOf ▸ distinct
      exact each.sublist (List.filter_sublist.map _)
    · intro o
      rw [asked_iff]
      constructor
      · rintro ⟨requested, ⟨x, member, oid, -⟩, absent⟩
        exact ⟨requested, ⟨x, member, oid⟩, absent⟩
      · rintro ⟨requested, indexed, absent⟩
        exact ⟨requested, known o requested indexed, absent⟩
    · intro identity member
      rw [asked] at member
      obtain ⟨entry, inside, rfl⟩ := List.mem_map.mp member
      exact (mem_identities (List.mem_filter.mp inside).1).2
    · intro o
      rw [asked, fetch_eq, lookup_foldl distinct]
      cases found : (rendered catalog oids).lookup o with
      | some text => rfl
      | none =>
        rw [List.find?_map, List.find?_filter]
        have same : ∀ entry ∈ (identities catalog oids).entries, decide (entry.1 = o) =
            decide (((rendered catalog oids).lookup entry.1).isNone = true ∧
              decide (entry.2.oid = o) = true) := by
          intro entry member
          rw [(mem_identities member).1]
          by_cases here : entry.1 = o
          · subst here
            simp [found]
          · simp [here]
        rw [List.find?_congr same, Option.bind_map]
        rfl

end

/-! ## The function as a whole -/

def btree : AccessMethod := ⟨"btree", by decide, by decide, by decide, by decide⟩

/-- A rendered text denotes its index exactly if everything in it can be spelled as it is, and
requests are answered index by index exactly if the indexes can be identified. -/
theorem pg_get_indexdef_denotes (isUnique : Bool) (indexName schemaName tableName : String)
    (accessMethod : AccessMethod) (columns : List String) (keyCount : Nat)
    (catalog : IndexCatalog) (oids : List Int64) (resolver : IndexIdentity → Option String) :
    (Denotes isUnique indexName schemaName tableName accessMethod columns keyCount ↔
      Spellable indexName schemaName tableName columns keyCount) ∧
    (Answered catalog oids resolver (fetchIndexDefinitions catalog (some resolver) oids) ↔
      ∀ o ∈ oids, Indexed catalog o → Identified catalog o) :=
  ⟨denotes_iff _ _ _ _ _ _ _, answered_iff resolver⟩

/-- An index on a column named `order` is rendered as a text that is no statement. -/
theorem order_unquoted : ¬ Denotes false "orders_order_idx" "public" "orders" btree ["order"] 1 := by
  intro denoted
  have keys := ((denotes_iff _ _ _ _ _ _ _).mp denoted).keys.2.2
  exact (keys "order" List.mem_cons_self).2 (by decide)

end PgCatalog.UserFunctions
