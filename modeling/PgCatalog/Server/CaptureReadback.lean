import PgCatalog.Server.CaptureFile

/-! When the capture file reads back as the queries captured. -/
namespace PgCatalog.Server.CaptureFile
open Library.Yaml

section
variable {v w : Node} {vs ws : List Node} {ps qs : List (String × Node)} {least indent fuel : Nat}
  {rest : List Token} {maps : List (List (String × Node))} {entries : List CapturedQuery}

/-- No map, so an entry can have it below its own keys' column. -/
def Flat : Node → Prop
  | .object _ => False
  | _ => True

theorem reread_flat (flat : Flat v) (read : reread least indent v = some w) : Flat w := by
  cases v with
  | object ps => contradiction
  | array vs =>
    rw [reread] at read
    obtain ⟨ws, -, rfl⟩ := Option.map_eq_some_iff.mp read
    trivial
  | string s =>
    rw [reread] at read
    obtain ⟨text, -, rfl⟩ := Option.map_eq_some_iff.mp read
    trivial
  | null | bool b | number n =>
    obtain rfl := Option.some.inj read
    trivial

theorem rereadItems_each {P : Node → Prop} (read : rereadItems least indent vs = some ws)
    (each : ∀ v ∈ vs, ∀ least indent w, reread least indent v = some w → P w) : ∀ w ∈ ws, P w := by
  induction vs generalizing ws with
  | nil =>
    obtain rfl := Option.some.inj read
    simp
  | cons v vs ih =>
    simp only [rereadItems, Option.bind_eq_some_iff, Option.map_eq_some_iff] at read
    obtain ⟨w, here, more, further, rfl⟩ := read
    intro x member
    rcases List.mem_cons.mp member with rfl | member
    · exact each v List.mem_cons_self _ _ _ here
    · exact ih further (fun y inside => each y (.tail _ inside)) x member

theorem rereadPairs_each {P : Node → Prop} (read : rereadPairs least indent ps = some qs)
    (each : ∀ p ∈ ps, ∀ least indent w, reread least indent p.2 = some w → P w) :
    ∀ q ∈ qs, P q.2 := by
  induction ps generalizing qs with
  | nil =>
    obtain rfl := Option.some.inj read
    simp
  | cons p ps ih =>
    obtain ⟨k, v⟩ := p
    simp only [rereadPairs, Option.bind_eq_some_iff, Option.map_eq_some_iff] at read
    obtain ⟨w, here, more, further, rfl⟩ := read
    intro x member
    rcases List.mem_cons.mp member with rfl | member
    · exact each (k, v) List.mem_cons_self _ _ _ here
    · exact ih further (fun y inside => each y (.tail _ inside)) x member

theorem reread_distinct (distinct : v.Distinct) (read : reread least indent v = some w) :
    w.Distinct := by
  induction distinct generalizing least indent w with
  | null | bool b | number n =>
    obtain rfl := Option.some.inj read
    constructor
  | string s =>
    rw [reread] at read
    obtain ⟨text, -, rfl⟩ := Option.map_eq_some_iff.mp read
    exact .string _
  | array _ each =>
    rw [reread] at read
    obtain ⟨ws, inner, rfl⟩ := Option.map_eq_some_iff.mp read
    exact .array (rereadItems_each inner fun v member _ _ _ => each v member)
  | object keys _ each =>
    rw [reread] at read
    obtain ⟨qs, inner, rfl⟩ := Option.map_eq_some_iff.mp read
    refine .object ?_ (rereadPairs_each inner fun p member _ _ _ => each p member)
    rwa [rereadPairs_keys inner]

theorem node_flat (flat : Flat v) (distinct : v.Distinct) (outside : OutsideItems 2 rest)
    (enough : 2 * (layout v 2).length + 1 ≤ fuel) :
    node fuel (layout v 2 ++ rest) = some (v, rest) := by
  cases distinct with
  | object => contradiction
  | array each => exact node_array (fun w member => (each w member).reads) outside enough
  | null | bool | number | string => exact node_scalar (by omega)

theorem deeperValue_flat (flat : Flat v) : deeperValue 2 (layout v 2 ++ rest) = true := by
  cases v with
  | object ps => contradiction
  | array vs =>
    cases vs with
    | nil => rfl
    | cons v vs => simp [layout, layoutItems, deeperValue]
  | null | bool b | number n | string s => rfl

theorem outsideItems_fields (outside : Outside 2 rest) :
    OutsideItems 2 (layoutFields ps ++ rest) := by
  cases ps with
  | nil => exact outside.items
  | cons p ps => simp [layoutFields, OutsideItems]

theorem pairs_fields (flat : ∀ p ∈ ps, Flat p.2 ∧ p.2.Distinct) (outside : Outside 2 rest)
    (some_ : 1 ≤ fuel) (enough : 2 * (layoutFields ps).length ≤ fuel) :
    pairs fuel 2 (layoutFields ps ++ rest) = some (ps, rest) := by
  induction ps generalizing fuel with
  | nil => exact pairs_outside outside some_
  | cons p ps ih =>
    obtain ⟨k, v⟩ := p
    obtain ⟨fuel, rfl⟩ := Nat.exists_eq_add_of_le' some_
    have step : layoutFields ((k, v) :: ps) = .key 2 k :: (layout v 2 ++ layoutFields ps) := rfl
    simp only [step, List.length_cons, List.length_append] at enough
    obtain ⟨here, distinct⟩ : Flat v ∧ v.Distinct := flat (k, v) List.mem_cons_self
    have inner := @node_flat v fuel _ here distinct (@outsideItems_fields ps _ outside) (by omega)
    have more := @ih fuel (fun w member => flat w (.tail _ member)) (by omega) (by omega)
    rw [step, List.cons_append, List.append_assoc, pairs_cons inner (deeperValue_flat here), more]
    rfl

/-- An entry as a map of plain values. -/
structure Entry (map : List (String × Node)) : Prop where
  nonempty : map ≠ []
  names : (map.map Prod.fst).Nodup
  flat : ∀ p ∈ map, Flat p.2 ∧ p.2.Distinct

theorem node_entry (entry : Entry ps) (outside : Outside 2 rest)
    (enough : 2 * (layoutFields ps).length + 1 ≤ fuel) :
    node fuel (layoutFields ps ++ rest) = some (.object ps, rest) := by
  cases ps with
  | nil => exact absurd rfl entry.nonempty
  | cons p ps =>
    obtain ⟨k, v⟩ := p
    obtain ⟨fuel, rfl⟩ := Nat.exists_eq_add_of_le' (Nat.le_of_add_left_le enough)
    have step : layoutFields ((k, v) :: ps) = .key 2 k :: (layout v 2 ++ layoutFields ps) := rfl
    have counted : 1 ≤ (layoutFields ((k, v) :: ps)).length := by simp [step]
    have inner := @pairs_fields _ fuel _ entry.flat outside (by omega) (by omega)
    rw [step, List.cons_append, node, ← List.cons_append, ← step, inner]
    exact if_pos entry.names

theorem items_entries (each : ∀ map ∈ maps, Entry map) (some_ : 1 ≤ fuel)
    (enough : 2 * (layoutEntries maps).length ≤ fuel) :
    items fuel 0 (layoutEntries maps) = some (maps.map .object, []) := by
  induction maps generalizing fuel with
  | nil => exact items_outside trivial some_
  | cons map maps ih =>
    obtain ⟨fuel, rfl⟩ := Nat.exists_eq_add_of_le' some_
    have step : layoutEntries (map :: maps) =
      .entry 0 :: (layoutFields map ++ layoutEntries maps) := rfl
    simp only [step, List.length_cons, List.length_append] at enough
    have entry := each map List.mem_cons_self
    have outside : Outside 2 (layoutEntries maps) := by
      cases maps with
      | nil => trivial
      | cons next maps => exact Nat.zero_lt_two
    have inner := @node_entry map fuel _ entry outside (by omega)
    have more := @ih fuel (fun m member => each m (.tail _ member)) (by omega) (by omega)
    have inside : deeper 0 (layoutFields map ++ layoutEntries maps) = true := by
      cases map with
      | nil => exact absurd rfl entry.nonempty
      | cons p map => rfl
    rw [step, items_cons inner inside, more]
    rfl

theorem build_entries (each : ∀ map ∈ maps, Entry map) (nonempty : maps ≠ []) :
    build (layoutEntries maps) = some (.array (maps.map .object)) := by
  have counted : 1 ≤ (layoutEntries maps).length := by
    cases maps with
    | nil => contradiction
    | cons map maps => simp [layoutEntries]
  have inner := @items_entries (2 * (layoutEntries maps).length) maps each (by omega)
    (Nat.le_refl _)
  cases maps with
  | nil => contradiction
  | cons map maps =>
    have step : layoutEntries (map :: maps) =
      .entry 0 :: (layoutFields map ++ layoutEntries maps) := rfl
    rw [build, step, node, ← step, inner]
    rfl

theorem reread_entry (entry : Entry ps) (read : rereadPairs least indent ps = some qs) :
    Entry qs where
  nonempty := by
    have counted := congrArg List.length (rereadPairs_keys read)
    rintro rfl
    exact entry.nonempty (by simpa using counted.symm)
  names := by
    rw [rereadPairs_keys read]
    exact entry.names
  flat := @rereadPairs_each _ _ _ _ (fun v => Flat v ∧ v.Distinct) read
    fun p member _ _ _ here =>
      ⟨reread_flat (entry.flat p member).1 here, reread_distinct (entry.flat p member).2 here⟩

theorem optionNode_distinct (parameter : Option Value) : (optionNode parameter).Distinct := by
  cases parameter with
  | none => exact .null
  | some value => exact value.distinct

theorem errorNode_flat (text : Option String) :
    Flat (errorNode text) ∧ (errorNode text).Distinct := by
  cases text with
  | none => exact ⟨trivial, .null⟩
  | some text => exact ⟨trivial, .string text⟩

theorem toMap_entry (entry : CapturedQuery) : Entry entry.toMap where
  nonempty := by simp [CapturedQuery.toMap]
  names := by simp [CapturedQuery.toMap]
  flat := by
    simp only [CapturedQuery.toMap, List.forall_mem_cons]
    refine ⟨errorNode_flat _, ⟨trivial, .array ?_⟩, ⟨trivial, .string _⟩, ⟨trivial, .array ?_⟩,
      ⟨trivial, .bool _⟩, by simp⟩
    · rw [List.forall_mem_map]
      exact fun parameter _ => optionNode_distinct parameter
    · rw [List.forall_mem_map]
      exact fun row _ => .object row.names row.distinct

/-- Every column name or key of an entry is as asked, and every text of it. -/
structure CapturedQuery.Each (K T : String → Prop) (entry : CapturedQuery) : Prop where
  query : T entry.query
  errorDetails : ∀ text ∈ entry.errorDetails, T text
  parameters : ∀ parameter ∈ entry.parameters, ∀ value ∈ parameter, value.node.Each K T
  result : ∀ row ∈ entry.result, ∀ column ∈ row.columns, K column.1 ∧ column.2.Each K T

theorem each_toMap {K T : String → Prop} {entry : CapturedQuery} :
    entry.Each K T ↔ ∀ p ∈ entry.toMap, p.2.Each K T := by
  simp only [CapturedQuery.toMap, List.forall_mem_cons]
  constructor
  · intro each
    refine ⟨?_, .array ?_, .string each.query, .array ?_, .bool _, by simp⟩
    · cases error : entry.errorDetails with
      | none => exact .null
      | some text => exact .string (each.errorDetails text error)
    · rw [List.forall_mem_map]
      intro parameter member
      cases parameter with
      | none => exact .null
      | some value => exact each.parameters _ member value rfl
    · rw [List.forall_mem_map]
      intro row member
      have here := each.result row member
      exact .object (fun column inside => (here column inside).1)
        fun column inside => (here column inside).2
  · rintro ⟨error, parameters, query, result, -⟩
    cases parameters with
    | array parameters =>
    cases query with
    | string query =>
    cases result with
    | array result =>
    rw [List.forall_mem_map] at parameters result
    refine ⟨query, ?_, ?_, ?_⟩
    · intro text present
      rw [Option.mem_def.mp present] at error
      cases error with
      | string here => exact here
    · rintro _ member value rfl
      exact parameters _ member
    · intro row member column inside
      have here := result row member
      cases here with
      | object keys each => exact ⟨keys column inside, each column inside⟩

theorem fieldNames_plain : ∀ key ∈ ["error_details", "parameters", "query", "result", "success"],
    PlainKey key.toList := by
  simp only [List.forall_mem_cons]
  refine ⟨?_, ?_, ?_, ?_, ?_, by simp⟩
  all_goals exact ⟨by decide, by decide, by decide, by decide, rfl, by decide⟩

theorem toMap_names (entry : CapturedQuery) : ∀ p ∈ entry.toMap, PlainKey p.1.toList := by
  intro p member
  apply fieldNames_plain
  simp only [CapturedQuery.toMap, List.mem_cons, List.not_mem_nil, or_false] at member
  rcases member with rfl | rfl | rfl | rfl | rfl <;> simp

theorem reread_entries {maps' : List (List (String × Node))} (each : ∀ map ∈ maps, Entry map)
    (read : maps.mapM (rereadPairs 3 2) = some maps') : ∀ map ∈ maps', Entry map := by
  induction maps generalizing maps' with
  | nil =>
    obtain rfl := Option.some.inj read
    simp
  | cons map maps ih =>
    rw [List.mapM_cons] at read
    simp only [Option.bind_eq_bind, Option.bind_eq_some_iff] at read
    obtain ⟨first, here, more, further, same⟩ := read
    obtain rfl := Option.some.inj same
    intro found member
    rcases List.mem_cons.mp member with rfl | member
    · exact reread_entry (each map List.mem_cons_self) here
    · exact ih (fun m inside => each m (.tail _ inside)) further found member

/-- What the file reads back as: the entries with their texts folded. -/
theorem readDocument_saveEntries
    (plain : ∀ entry ∈ entries, entry.Each (fun key => PlainKey key.toList) fun _ => True) :
    readDocument (saveEntries entries) =
      ((entries.map CapturedQuery.toMap).mapM (rereadPairs 3 2)).bind fun maps =>
        if maps = [] then none else some (.array (maps.map .object)) := by
  have keys : ∀ map ∈ entries.map CapturedQuery.toMap, ∀ p ∈ map, PlainKey p.1.toList := by
    rw [List.forall_mem_map]
    exact fun entry _ => toMap_names entry
  have scans : ∀ map ∈ entries.map CapturedQuery.toMap, ∀ p ∈ map, Scans p.2 := by
    rw [List.forall_mem_map]
    exact fun entry member p inside =>
      scans_of_plainKeys (each_toMap.mp (plain entry member) p inside)
  have entry_ : ∀ map ∈ entries.map CapturedQuery.toMap, Entry map := by
    rw [List.forall_mem_map]
    exact fun entry _ => toMap_entry entry
  rw [readDocument, saveEntries, String.toList_ofList,
    tokens_encodeEntries true (fun map member => (entry_ map member).nonempty) scans keys,
    Option.bind_map]
  apply Option.bind_congr
  intro maps found
  rw [Function.comp_apply]
  split
  · rename_i none_
    rw [none_]
    rfl
  · rename_i nonempty
    exact build_entries (reread_entries entry_ found) nonempty

/-- The characters that may stand between quotes as themselves. -/
def Quotable (text : String) : Prop := ∀ c ∈ text.toList, quotable c = true

theorem folded_pieceOf (text : List Char) :
    folded least (text.map pieceOf) = some text ↔ ∀ c ∈ text, quotable c = true := by
  have whole : chars (text.map pieceOf) = text := by simp [chars, pieceOf, Function.comp_def]
  have escapes : ∀ p ∈ text.map pieceOf, p.literal = false → quotable p.char = true := by
    rw [List.forall_mem_map]
    intro c _ escape
    by_cases quote : c = '"'
    · subst quote
      rfl
    · by_cases backslash : c = '\\'
      · subst backslash
        rfl
      · simp [pieceOf, quote, backslash] at escape
  have read := @folded_eq_iff _ least escapes
  rw [whole, List.forall_mem_map] at read
  exact read

theorem rereadItems_eq_iff : rereadItems least indent vs = some vs ↔
    ∀ v ∈ vs, reread least indent v = some v := by
  induction vs with
  | nil => simp [rereadItems]
  | cons v vs ih =>
    simp only [rereadItems, Option.bind_eq_some_iff, Option.map_eq_some_iff, List.cons.injEq,
      List.forall_mem_cons, ← ih]
    constructor
    · rintro ⟨w, here, ws, more, rfl, rfl⟩
      exact ⟨here, more⟩
    · rintro ⟨here, more⟩
      exact ⟨v, here, vs, more, rfl, rfl⟩

theorem rereadPairs_eq_iff : rereadPairs least indent ps = some ps ↔
    ∀ p ∈ ps, reread least indent p.2 = some p.2 := by
  induction ps with
  | nil => simp [rereadPairs]
  | cons p ps ih =>
    obtain ⟨k, v⟩ := p
    simp only [rereadPairs, Option.bind_eq_some_iff, Option.map_eq_some_iff, List.cons.injEq,
      List.forall_mem_cons, ← ih]
    constructor
    · rintro ⟨w, here, ws, more, same, rfl⟩
      obtain ⟨-, rfl⟩ := Prod.mk.inj same
      exact ⟨here, more⟩
    · rintro ⟨here, more⟩
      exact ⟨v, here, ps, more, rfl, rfl⟩

/-- A value is read back as it is exactly if all its texts are quotable. -/
theorem reread_eq_iff (distinct : v.Distinct) :
    reread least indent v = some v ↔ v.Each (fun _ => True) Quotable := by
  induction distinct generalizing least indent with
  | null => exact ⟨fun _ => .null, fun _ => rfl⟩
  | bool b => exact ⟨fun _ => .bool b, fun _ => rfl⟩
  | number n => exact ⟨fun _ => .number n, fun _ => rfl⟩
  | string s =>
    have text : reread least indent (.string s) = some (.string s) ↔
        folded least (s.toList.map pieceOf) = some s.toList := by
      simp only [reread, Option.map_eq_some_iff, Node.string.injEq]
      constructor
      · rintro ⟨text, here, rfl⟩
        rw [here, String.toList_ofList]
      · exact fun here => ⟨s.toList, here, String.ofList_toList⟩
    rw [text, folded_pieceOf]
    constructor
    · exact fun kept => .string kept
    · rintro (_ | _ | _ | here)
      exact here
  | @array items _ each =>
    have parts : reread least indent (.array items) = some (.array items) ↔
        rereadItems (indent + 1) (indent + 2) items = some items := by
      simp [reread]
    rw [parts, rereadItems_eq_iff]
    constructor
    · exact fun read => .array fun v member => (each v member).mp (read v member)
    · rintro (_ | _ | _ | _ | kept)
      exact fun v member => (each v member).mpr (kept v member)
  | @object pairs _ _ each =>
    have parts : reread least indent (.object pairs) = some (.object pairs) ↔
        rereadPairs (indent + 1) (indent + 2) pairs = some pairs := by
      simp [reread]
    rw [parts, rereadPairs_eq_iff]
    constructor
    · exact fun read => .object (fun _ _ => trivial) fun p member =>
        (each p member).mp (read p member)
    · rintro (_ | _ | _ | _ | _ | ⟨-, kept⟩)
      exact fun p member => (each p member).mpr (kept p member)

theorem rereadEntries_eq_iff : maps.mapM (rereadPairs 3 2) = some maps ↔
    ∀ map ∈ maps, rereadPairs 3 2 map = some map := by
  induction maps with
  | nil => simp
  | cons map maps ih =>
    simp only [List.mapM_cons, Option.bind_eq_bind, Option.bind_eq_some_iff, Option.pure_def,
      Option.some.injEq, List.cons.injEq, List.forall_mem_cons, ← ih]
    constructor
    · rintro ⟨first, here, more, further, rfl, rfl⟩
      exact ⟨here, further⟩
    · rintro ⟨here, further⟩
      exact ⟨map, here, maps, further, rfl, rfl⟩

/-- The entries of a file as one value. -/
def captured (entries : List CapturedQuery) : Node :=
  .array (entries.map fun entry => .object entry.toMap)

/-- The capture file reads back as the queries captured exactly if there is one and no text of them
has a line break or another control character: a line break in a text is folded. Column names have
to be ones that need no quotes. -/
theorem saveEntries_reads_back_iff
    (plain : ∀ entry ∈ entries, entry.Each (fun key => PlainKey key.toList) fun _ => True) :
    readDocument (saveEntries entries) = some (captured entries) ↔
      entries ≠ [] ∧ ∀ entry ∈ entries, entry.Each (fun _ => True) Quotable := by
  have kept : (entries.map CapturedQuery.toMap).mapM (rereadPairs 3 2) =
      some (entries.map CapturedQuery.toMap) ↔
        ∀ entry ∈ entries, entry.Each (fun _ => True) Quotable := by
    rw [rereadEntries_eq_iff, List.forall_mem_map]
    apply forall₂_congr
    intro entry _
    rw [rereadPairs_eq_iff, each_toMap]
    apply forall₂_congr
    exact fun p member => reread_eq_iff ((toMap_entry entry).flat p member).2
  have value : captured entries = .array ((entries.map CapturedQuery.toMap).map .object) := by
    rw [List.map_map]
    rfl
  rw [readDocument_saveEntries plain, ← kept, value, Option.bind_eq_some_iff]
  constructor
  · rintro ⟨maps, found, same⟩
    obtain ⟨nonempty, same⟩ := Option.ite_none_left_eq_some.mp same
    have objects := Node.array.inj (Option.some.inj same)
    obtain rfl := List.map_injective_iff.mpr (fun _ _ => Node.object.inj) objects
    exact ⟨fun none_ => nonempty (by rw [none_]; rfl), found⟩
  · rintro ⟨nonempty, found⟩
    exact ⟨_, found, if_neg (by simpa using nonempty)⟩

/-- A statement without parameters that answers one row. -/
def answered (query : String) (columns : List (String × Node))
    (names : (columns.map Prod.fst).Nodup) (distinct : ∀ column ∈ columns, column.2.Distinct) :
    CapturedQuery :=
  ⟨query, [], [⟨columns, names, distinct⟩], true, none⟩

def countQuery : CapturedQuery :=
  answered "SELECT \"n\" FROM \\t" [("?column?", .null), ("count(*)", .array [])]
    (by decide) (by simp; exact ⟨.null, .array (by simp)⟩)

theorem countQuery_reads_back :
    readDocument (saveEntries [countQuery]) = some (captured [countQuery]) := by
  apply (@saveEntries_reads_back_iff [countQuery] _).mpr
  · refine ⟨by simp, ?_⟩
    rw [List.forall_mem_singleton]
    have query : countQuery.query.toList.all quotable = true := by decide
    refine ⟨List.all_eq_true.mp query, by simp [countQuery, answered],
      by simp [countQuery, answered], ?_⟩
    simp only [countQuery, answered, List.forall_mem_cons]
    exact ⟨⟨⟨trivial, .null⟩, ⟨trivial, .array (by simp)⟩, by simp⟩, by simp⟩
  · rw [List.forall_mem_singleton]
    refine ⟨trivial, by simp [countQuery, answered], by simp [countQuery, answered], ?_⟩
    simp only [countQuery, answered, List.forall_mem_cons]
    refine ⟨⟨⟨?_, .null⟩, ⟨?_, .array (by simp)⟩, by simp⟩, by simp⟩
    all_goals exact ⟨by decide, by decide, by decide, by decide, rfl, by decide⟩

/-- A statement without parameters and rows. -/
def executed (query : String) : CapturedQuery := ⟨query, [], [], true, none⟩

/-- A line break and the blanks around it read back as one blank. -/
theorem twoLines_folded : readDocument (saveEntries [executed "SELECT 1\n    FROM t"]) =
    some (captured [executed "SELECT 1 FROM t"]) := by
  rw [readDocument_saveEntries]
  · rfl
  · rw [List.forall_mem_singleton]
    exact ⟨trivial, by simp [executed], by simp [executed], by simp [executed]⟩

theorem twoLines_altered :
    ¬ ∀ entries, readDocument (saveEntries entries) = some (captured entries) := by
  intro kept
  have read := twoLines_folded.symm.trans (kept [executed "SELECT 1\n    FROM t"])
  simp [captured, executed, CapturedQuery.toMap] at read

end
end PgCatalog.Server.CaptureFile
