import PgCatalog.Router.Resolve
import PgCatalog.Server.SetAgreement

/-! `SET search_path` and what the router reads of the stored text: the values are joined
with commas and split at commas, without quotes. -/
namespace PgCatalog.Server

open Library Sql Router

/-- `SET search_path TO <ids>`. -/
def setSearchPath (ids : List Ident) : Statement :=
  .set (.singleAssignment none [.identifier (.new "search_path")] (ids.map .identifier))

/-- The schemas PostgreSQL searches for a list of names. -/
def pgSearchPath (names : List String) : List String :=
  if "pg_catalog" ∈ names then names else "pg_catalog" :: names

/-- The names in a stored search path. -/
def searchPathEntries (path : String) : List String :=
  (((split ',' path).map trim).filter (· ≠ "")).map (trimMatches '"')

theorem parseSearchPath_entries (path : String) :
    parseSearchPath path =
      if (searchPathEntries path).any (eqIgnoreAsciiCase · "pg_catalog") then
        searchPathEntries path
      else "pg_catalog" :: searchPathEntries path := rfl

/-- The names in the characters of a stored search path. -/
def entriesIn (chars : List Char) : List String :=
  (((chars.splitOn ',').map fun piece => trim (String.ofList piece)).filter (· ≠ "")).map
    (trimMatches '"')

theorem searchPathEntries_chars (path : String) :
    searchPathEntries path = entriesIn path.toList := by
  rw [searchPathEntries, split, List.map_map]
  rfl

theorem entriesIn_space (chars : List Char) : entriesIn (' ' :: chars) = entriesIn chars := by
  have inner : (' ' == ',') = false := by decide
  have space : isWhiteSpace ' ' = true := by decide
  have pieces : ((' ' :: chars).splitOn ',').map (fun piece => trim (String.ofList piece)) =
      (chars.splitOn ',').map fun piece => trim (String.ofList piece) := by
    rw [List.splitOn_cons_eq_if_modifyHead, inner]
    cases parts : chars.splitOn ',' with
    | nil => rfl
    | cons first rest =>
      have trimmed_ : trim (String.ofList (' ' :: first)) = trim (String.ofList first) := by
        rw [trim, trim, String.toList_ofList, String.toList_ofList, trimmed_cons _ space]
      simp only [Bool.false_eq_true, if_false, List.modifyHead_cons, List.map_cons, trimmed_]
  rw [entriesIn, pieces, entriesIn]

theorem entriesIn_append (first rest : List Char) :
    entriesIn (first ++ ',' :: ' ' :: rest) = entriesIn first ++ entriesIn rest := by
  rw [← entriesIn_space rest]
  simp only [entriesIn, List.splitOn_append_cons_self, List.map_append, List.filter_append]

/-- Joining values with a comma and a space joins the names in them. -/
theorem searchPathEntries_join (values : List String) :
    searchPathEntries (", ".intercalate values) = values.flatMap searchPathEntries := by
  have separator : ", ".toList = [',', ' '] := rfl
  rw [searchPathEntries_chars, String.toList_intercalate, separator]
  induction values with
  | nil => rfl
  | cons first rest ih =>
    cases rest with
    | nil =>
      rw [List.map_cons, List.map_nil, List.intercalate_singleton, List.flatMap_singleton,
        searchPathEntries_chars]
    | cons second later =>
      rw [List.map_cons] at ih
      rw [List.map_cons, List.map_cons, List.intercalate_cons_cons, List.flatMap_cons,
        List.append_assoc]
      have joined := entriesIn_append first.toList
        ([',', ' '].intercalate (second.toList :: later.map String.toList))
      rw [← ih, searchPathEntries_chars]
      exact joined

theorem entries_commaless (path : String) :
    ∀ entry ∈ searchPathEntries path, ',' ∉ entry.toList := by
  intro entry member
  obtain ⟨kept, listed, rfl⟩ := List.mem_map.mp member
  obtain ⟨piece, split_, rfl⟩ := List.mem_map.mp (List.mem_filter.mp listed).1
  obtain ⟨chars, part, rfl⟩ := List.mem_map.mp split_
  intro inside
  have below := ((trimMatches_sublist '"' _).trans (trim_sublist _)).subset inside
  rw [String.toList_ofList] at below
  exact not_mem_splitOn ',' path.toList chars part below

theorem entries_of_commaless {value : String} (commaless : ',' ∉ value.toList) :
    searchPathEntries value = if trim value = "" then [] else [trimMatches '"' (trim value)] := by
  rw [searchPathEntries_chars, entriesIn, List.splitOn_eq_singleton commaless, List.map_singleton,
    String.ofList_toList]
  by_cases blank : trim value = ""
  · rw [if_pos blank, blank]
    rfl
  · rw [if_neg blank]
    simp only [List.filter_cons, ne_eq, blank, not_false_eq_true, decide_true, if_true,
      List.filter_nil, List.map_cons, List.map_nil]

/-- The value is a name that reads back as itself. -/
structure ReadsAsItself (value : String) : Prop where
  nonempty : value ≠ ""
  commaless : ',' ∉ value.toList
  ends : ∀ c, c ∈ value.toList.head? ∨ c ∈ value.toList.getLast? →
    isWhiteSpace c = false ∧ c ≠ '"'

theorem trim_eq_self {value : String} :
    trim value = value ↔ trimmed isWhiteSpace value.toList = value.toList := by
  rw [trim, ← String.toList_inj, String.toList_ofList]

theorem trimMatches_eq_self {c : Char} {value : String} :
    trimMatches c value = value ↔ trimmed (· = c) value.toList = value.toList := by
  rw [trimMatches, ← String.toList_inj, String.toList_ofList]

theorem entries_self {value : String} (reads : ReadsAsItself value) :
    searchPathEntries value = [value] := by
  have blank : trim value = value := by
    refine trim_eq_self.mpr (trimmed_eq_self.mpr ⟨fun c first => ?_, fun c last => ?_⟩)
    · exact (reads.ends c (.inl first)).1
    · exact (reads.ends c (.inr last)).1
  have quotes : trimMatches '"' value = value := by
    refine trimMatches_eq_self.mpr (trimmed_eq_self.mpr ⟨fun c first => ?_, fun c last => ?_⟩)
    · exact decide_eq_false (reads.ends c (.inl first)).2
    · exact decide_eq_false (reads.ends c (.inr last)).2
  rw [entries_of_commaless reads.commaless, blank, if_neg reads.nonempty, quotes]

/-- Only a value that reads back as itself reads back as a name of its length. -/
theorem self_of_entries {value name : String} (commaless : ',' ∉ value.toList)
    (long : name.toList.length = value.toList.length)
    (one : searchPathEntries value = [name]) : ReadsAsItself value ∧ name = value := by
  rw [entries_of_commaless commaless] at one
  split at one
  · cases one
  · rename_i blank
    have named := List.singleton_inj.mp one
    have inner := trimMatches_sublist '"' (trim value)
    have outer := trim_sublist value
    rw [named] at inner
    have whole : name = value :=
      String.toList_inj.mp ((inner.trans outer).eq_of_length long)
    have trimSelf : trim value = value :=
      String.toList_inj.mp (outer.eq_of_length_le (by rw [← long]; exact inner.length_le))
    rw [trimSelf] at named blank
    have spaces := trimmed_eq_self.mp (trim_eq_self.mp trimSelf)
    have quotes := trimmed_eq_self.mp (trimMatches_eq_self.mp (named.trans whole))
    refine ⟨⟨blank, commaless, ?_⟩, whole⟩
    rintro c (first | last)
    · exact ⟨spaces.1 c first, of_decide_eq_false (quotes.1 c first)⟩
    · exact ⟨spaces.2 c last, of_decide_eq_false (quotes.2 c last)⟩

theorem resolved_length (id : Ident) :
    (resolvedIdentifier id).toList.length = id.value.toList.length := by
  unfold resolvedIdentifier
  split
  · rfl
  · rw [toList_toLower, List.length_map]

theorem resolved_commaless {id : Ident} (commaless : ',' ∉ (resolvedIdentifier id).toList) :
    ',' ∉ id.value.toList := by
  unfold resolvedIdentifier at commaless
  split at commaless
  · exact commaless
  · intro inside
    rw [toList_toLower] at commaless
    exact commaless (List.mem_map.mpr ⟨',', inside, by decide⟩)

/-- The catalog's name has nothing in it to split at or to trim. -/
theorem catalog_reads {value : String} (catalog : eqIgnoreAsciiCase value "pg_catalog" = true) :
    ReadsAsItself value := by
  have lower : "pg_catalog".toLower = "pg_catalog" := by decide +kernel
  have folded : value.toLower = "pg_catalog" := (of_decide_eq_true catalog).trans lower
  have chars : value.toList.map Char.toLower = "pg_catalog".toList := by
    rw [← folded, toList_toLower]
  have letter : ∀ c ∈ value.toList, c.toLower ∈ "pg_catalog".toList := by
    intro c member
    rw [← chars]
    exact List.mem_map_of_mem member
  have named : ∀ c ∈ "pg_catalog".toList, isWhiteSpace c = false ∧ c ≠ '"' ∧ c ≠ ',' := by
    have checked : "pg_catalog".toList.all
        (fun c => !isWhiteSpace c && c != '"' && c != ',') = true := by decide
    intro c member
    have plain := List.all_eq_true.mp checked c member
    simpa [and_assoc] using plain
  have plain : ∀ c ∈ value.toList, isWhiteSpace c = false ∧ c ≠ '"' ∧ c ≠ ',' := by
    intro c member
    by_cases upper : c.val ≥ 'A'.val ∧ c.val ≤ 'Z'.val
    · have low : 65 ≤ c.toNat := upper.1
      have high : c.toNat ≤ 90 := upper.2
      refine ⟨?_, ?_, ?_⟩
      · simp [isWhiteSpace]
        omega
      · rintro rfl
        exact absurd low (by decide)
      · rintro rfl
        exact absurd low (by decide)
    · have same : c.toLower = c := dif_neg upper
      exact named c (same ▸ letter c member)
  refine ⟨?_, fun comma => (plain _ comma).2.2 rfl, ?_⟩
  · rintro rfl
    cases chars
  · rintro c (first | last)
    · have facts := plain c (List.mem_of_mem_head? first)
      exact ⟨facts.1, facts.2.1⟩
    · have facts := plain c (List.mem_of_mem_getLast? last)
      exact ⟨facts.1, facts.2.1⟩

section
variable {ids : List Ident}

def idEntries (id : Ident) : List String := searchPathEntries id.value

theorem idEntries_short {id : Ident} (commaless : ',' ∉ (resolvedIdentifier id).toList) :
    (idEntries id).length ≤ 1 := by
  rw [idEntries, entries_of_commaless (resolved_commaless commaless)]
  split <;> simp

theorem entry_commaless {entry : String} (member : entry ∈ ids.flatMap idEntries) :
    ',' ∉ entry.toList := by
  obtain ⟨id, _, inside⟩ := List.mem_flatMap.mp member
  exact entries_commaless id.value entry inside

/-- A spelling of the catalog's name is read as it is written. -/
theorem catalog_entry {id : Ident} (member : id ∈ ids)
    (catalog : eqIgnoreAsciiCase id.value "pg_catalog" = true) :
    (ids.flatMap idEntries).any (eqIgnoreAsciiCase · "pg_catalog") = true := by
  refine List.any_eq_true.mpr ⟨id.value, List.mem_flatMap.mpr ⟨id, member, ?_⟩, catalog⟩
  rw [idEntries, entries_self (catalog_reads catalog)]
  exact List.mem_singleton_self _

theorem resolved_catalog {id : Ident} (named : resolvedIdentifier id = "pg_catalog") :
    eqIgnoreAsciiCase id.value "pg_catalog" = true := by
  have lower : "pg_catalog".toLower = "pg_catalog" := by decide +kernel
  unfold resolvedIdentifier at named
  split at named
  · rw [named]
    exact decide_eq_true rfl
  · exact decide_eq_true (named.trans lower.symm)

/-- The values give their names in order only if each reads back as itself. -/
theorem itself_of_entries (same : ids.flatMap idEntries = ids.map resolvedIdentifier) :
    ∀ id ∈ ids, ReadsAsItself id.value ∧ resolvedIdentifier id = id.value := by
  have commaless : ∀ id ∈ ids, ',' ∉ (resolvedIdentifier id).toList := by
    intro id member
    apply @entry_commaless ids
    rw [same]
    exact List.mem_map_of_mem member
  have each := flatMap_eq_map (fun id member => idEntries_short (commaless id member)) same
  intro id member
  exact self_of_entries (resolved_commaless (commaless id member)) (resolved_length id)
    (each id member)

theorem entries_of_itself
    (itself : ∀ id ∈ ids, ReadsAsItself id.value ∧ resolvedIdentifier id = id.value) :
    ids.flatMap idEntries = ids.map resolvedIdentifier := by
  have each : ∀ id ∈ ids, idEntries id = [resolvedIdentifier id] := by
    intro id member
    obtain ⟨reads, plain⟩ := itself id member
    rw [idEntries, entries_self reads, plain]
  rw [List.flatMap_congr each, ← List.map_eq_flatMap]

/-- The joined values are read as the names exactly if each value reads back as itself and
the catalog's name is not only there in another case. -/
theorem joined_path_iff :
    parseSearchPath (", ".intercalate (ids.map (·.value))) =
        pgSearchPath (ids.map resolvedIdentifier) ↔
      (∀ id ∈ ids, ReadsAsItself id.value ∧ resolvedIdentifier id = id.value) ∧
        ∀ id ∈ ids, eqIgnoreAsciiCase id.value "pg_catalog" = true →
          "pg_catalog" ∈ ids.map (·.value) := by
  have entries : searchPathEntries (", ".intercalate (ids.map (·.value))) =
      ids.flatMap idEntries := by
    rw [searchPathEntries_join, List.flatMap_map]
    rfl
  rw [parseSearchPath_entries, entries, pgSearchPath]
  constructor
  · intro same
    by_cases seen : (ids.flatMap idEntries).any (eqIgnoreAsciiCase · "pg_catalog") = true
    · rw [if_pos seen] at same
      by_cases named : "pg_catalog" ∈ ids.map resolvedIdentifier
      · rw [if_pos named] at same
        have itself := itself_of_entries same
        have values : ids.map resolvedIdentifier = ids.map (·.value) :=
          List.map_congr_left fun id member => (itself id member).2
        exact ⟨itself, fun _ _ _ => values ▸ named⟩
      · -- One entry too many: no name has a comma, so no value gives two.
        rw [if_neg named] at same
        have short : ∀ id ∈ ids, (idEntries id).length ≤ 1 := by
          intro id member
          apply idEntries_short
          apply @entry_commaless ids
          rw [same]
          exact List.mem_cons_of_mem _ (List.mem_map_of_mem member)
        have few := length_flatMap_le short
        rw [same, List.length_cons, List.length_map] at few
        omega
    · rw [if_neg seen] at same
      have absent : ∀ id ∈ ids, ¬eqIgnoreAsciiCase id.value "pg_catalog" = true :=
        fun id member catalog => seen (catalog_entry member catalog)
      by_cases named : "pg_catalog" ∈ ids.map resolvedIdentifier
      · obtain ⟨id, member, folded⟩ := List.mem_map.mp named
        exact absurd (resolved_catalog folded) (absent id member)
      · rw [if_neg named] at same
        exact ⟨itself_of_entries (List.cons.inj same).2,
          fun id member catalog => absurd catalog (absent id member)⟩
  · rintro ⟨itself, catalog⟩
    have values : ids.map resolvedIdentifier = ids.map (·.value) :=
      List.map_congr_left fun id member => (itself id member).2
    by_cases named : "pg_catalog" ∈ ids.map resolvedIdentifier
    · obtain ⟨id, member, folded⟩ := List.mem_map.mp named
      rw [if_pos named, if_pos (catalog_entry member (resolved_catalog folded)),
        entries_of_itself itself]
    · have unseen : ¬(ids.flatMap idEntries).any (eqIgnoreAsciiCase · "pg_catalog") = true := by
        intro seen
        obtain ⟨entry, member, other⟩ := List.any_eq_true.mp seen
        rw [entries_of_itself itself, values] at member
        obtain ⟨id, listed, rfl⟩ := List.mem_map.mp member
        exact named (values ▸ catalog id listed other)
      rw [if_neg named, if_neg unseen, entries_of_itself itself]

end

/-- Every name reads back as itself, and a spelling of the catalog's name in another case
stands beside that name. The lone word `default` is no name. -/
structure ReadsBack (ids : List Ident) : Prop where
  itself : ∀ id ∈ ids, ReadsAsItself id.value ∧ resolvedIdentifier id = id.value
  catalog : ∀ id ∈ ids, eqIgnoreAsciiCase id.value "pg_catalog" = true →
    "pg_catalog" ∈ ids.map (·.value)
  named : ∀ id, ids = [id] → setValueExpressionIsDefault (.identifier id) = false

section
variable (display : Expr → String) (ctx : SessionContext) (opts : ClientOpts)
  (boundScalars : Option (List ScalarValue))

/-- The statement is stored, and names are then looked up in the schemas it lists, the
catalog first where it does not list it. -/
def SearchPathKept (ids : List Ident) : Prop :=
  ∃ opts', applySessionSetStatement display (some [setSearchPath ids]) boundScalars (some opts) =
      (.ok (some handled), some opts') ∧
    ({ ctx with searchPath := some opts'.searchPath } : SessionContext).searched =
      pgSearchPath (ids.map resolvedIdentifier)

/-- The text `SET search_path` stores. -/
def storedPath (ids : List Ident) : String :=
  if ids.any (fun id => setValueExpressionIsDefault (.identifier id)) ∧ ids.length = 1 then
    ClientOpts.initial.searchPath
  else ", ".intercalate (ids.map (·.value))

variable {display opts boundScalars}

theorem texts_of_names (ids : List Ident) :
    (ids.map Expr.identifier).mapM (setValueExpressionAsText display boundScalars) =
      .ok (ids.map (·.value)) := by
  induction ids with
  | nil => rfl
  | cons id rest ih =>
    have text : setValueExpressionAsText display boundScalars (.identifier id) = .ok id.value := rfl
    rw [List.map_cons, List.mapM_cons, text, ok_bind, ih]
    rfl

theorem storedValue_names (first : Ident) (rest : List Ident) :
    storedValue display "search_path" ((first :: rest).map .identifier) boundScalars =
      .ok (storedPath (first :: rest)) := by
  unfold storedValue storedPath
  rw [List.map_cons]
  dsimp only
  by_cases lone : (rest.map Expr.identifier).isEmpty = true
  · obtain rfl : rest = [] := List.map_eq_nil_iff.mp (List.isEmpty_iff.mp lone)
    by_cases default : setValueExpressionIsDefault (.identifier first) = true
    · rw [if_pos (by rw [lone, default]; rfl), if_pos (by simp [default])]
      rfl
    · rw [if_neg (by simp [default]), if_neg (by simp [default]), ← List.map_cons, texts_of_names]
      rfl
  · have several : rest ≠ [] := fun none_ => lone (by rw [none_]; rfl)
    have long : ¬(first :: rest).length = 1 := fun one =>
      several (List.length_eq_zero_iff.mp (by simpa using one))
    rw [if_neg (by simp [lone]), if_neg fun both => long both.2, ← List.map_cons, texts_of_names]
    rfl

theorem apply_setSearchPath (first : Ident) (rest : List Ident) :
    applySessionSetStatement display (some [setSearchPath (first :: rest)]) boundScalars
        (some opts) =
      (.ok (some handled), some { opts with searchPath := storedPath (first :: rest) }) := by
  have member : "search_path" ∈ WIRE_SETTABLE_SESSION_VARIABLES := by decide
  have same : eqIgnoreAsciiCase "search_path" "search_path" = true := decide_eq_true rfl
  have settable : setVariableIsWireSettable [.identifier (.new "search_path")] = true :=
    (Option.any_eq_true _ _).mpr ⟨_, rfl, List.any_eq_true.mpr ⟨"search_path", member, same⟩⟩
  have applied : classifySetStatement (some [setSearchPath (first :: rest)]) = .applyToSession := by
    unfold classifySetStatement setSearchPath
    dsimp only
    rw [settable]
    rfl
  have stored : storedKey (.singleAssignment none [.identifier (.new "search_path")]
      ((first :: rest).map .identifier)) = some "search_path" := by
    have folded : (Ident.new "search_path").folded = "search_path" := by
      rw [Ident.folded, if_neg (by decide), Ident.new, settable_lower member]
    unfold storedKey bareSessionVariableName bareName
    dsimp only
    rw [Option.map_some, folded]
  rw [setSearchPath, applied_eq applied, stored]
  dsimp only [SetStatement.exprs]
  rw [storedValue_names]
  rfl

theorem kept_iff_parsed (first : Ident) (rest : List Ident) :
    SearchPathKept display ctx opts boundScalars (first :: rest) ↔
      parseSearchPath (storedPath (first :: rest)) =
        pgSearchPath ((first :: rest).map resolvedIdentifier) := by
  unfold SearchPathKept
  rw [apply_setSearchPath]
  constructor
  · rintro ⟨opts', same, searched⟩
    obtain rfl := Option.some.inj (Prod.mk.inj same).2
    exact searched
  · intro searched
    exact ⟨_, rfl, searched⟩

/-- The word `default` restores the path a connection starts with. -/
theorem default_read {id : Ident} (default : setValueExpressionIsDefault (.identifier id) = true) :
    ¬parseSearchPath ClientOpts.initial.searchPath = pgSearchPath ([id].map resolvedIdentifier) := by
  have entries : searchPathEntries ClientOpts.initial.searchPath = ["$user", "public"] := by
    decide +kernel
  have unquoted : id.quoteStyle = none ∧ eqIgnoreAsciiCase id.value "default" = true := by
    unfold setValueExpressionIsDefault at default
    rw [Bool.and_eq_true, Option.isNone_iff_eq_none] at default
    exact default
  have lower : "default".toLower = "default" := by decide +kernel
  have folded : resolvedIdentifier id = "default" := by
    unfold resolvedIdentifier
    rw [unquoted.1]
    exact (of_decide_eq_true unquoted.2).trans lower
  rw [parseSearchPath_entries, entries, pgSearchPath, List.map_singleton, folded]
  split <;> split <;> decide

/-- A search path that is set is searched as PostgreSQL would exactly if its names read back. -/
theorem search_path_kept_iff (first : Ident) (rest : List Ident) :
    SearchPathKept display ctx opts boundScalars (first :: rest) ↔ ReadsBack (first :: rest) := by
  rw [kept_iff_parsed]
  by_cases lone : rest = [] ∧ setValueExpressionIsDefault (.identifier first) = true
  · obtain ⟨rfl, default⟩ := lone
    have stored : storedPath [first] = ClientOpts.initial.searchPath :=
      if_pos ⟨by simp [default], rfl⟩
    rw [stored]
    exact iff_of_false (default_read default) fun reads =>
      absurd (reads.named first rfl) (by simp [default])
  · have stored : storedPath (first :: rest) =
        ", ".intercalate ((first :: rest).map (·.value)) := by
      refine if_neg fun both => lone ?_
      obtain rfl : rest = [] := List.length_eq_zero_iff.mp (by simpa using both.2)
      exact ⟨rfl, by simpa using both.1⟩
    rw [stored, joined_path_iff]
    constructor
    · rintro ⟨itself, catalog⟩
      refine ⟨itself, catalog, fun id same => ?_⟩
      obtain ⟨rfl, rfl⟩ := List.cons.inj same
      exact Bool.eq_false_iff.mpr fun default => lone ⟨rfl, default⟩
    · rintro ⟨itself, catalog, _⟩
      exact ⟨itself, catalog⟩

end

/-- `SET search_path TO "a,b"`: one schema is stored, two are searched. -/
theorem comma_splits : ¬SearchPathKept (fun _ => "") ⟨fun _ _ _ => false, fun _ => false,
    "datafusion", "public", none⟩ .initial none [⟨"a,b", some '"'⟩] := by
  intro kept
  have read := (kept_iff_parsed _ _ _).mp kept
  have stored : storedPath [⟨"a,b", some '"'⟩] = ", ".intercalate ["a,b"] := if_neg (by decide)
  rw [stored] at read
  have reads := (@joined_path_iff [⟨"a,b", some '"'⟩]).mp read
  exact (reads.1 _ (List.mem_singleton_self _)).1.commaless (by decide)

end PgCatalog.Server
