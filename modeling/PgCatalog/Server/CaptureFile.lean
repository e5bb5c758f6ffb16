import PgCatalog.Library.YamlTree

/-! The capture file: the queries recorded so far, written as a document by hand. Texts are lists of
characters; a JSON value is a `Node`, its maps in the order they are walked. -/
namespace PgCatalog.Server.CaptureFile
open Library.Yaml

/-- A JSON value: no map of it has a key twice. -/
structure Value where
  node : Node
  distinct : node.Distinct

/-- A result row by column name. -/
structure Row where
  columns : List (String × Node)
  names : (columns.map Prod.fst).Nodup
  distinct : ∀ column ∈ columns, column.2.Distinct

structure CapturedQuery where
  query : String
  parameters : List (Option Value)
  result : List Row
  success : Bool
  errorDetails : Option String

def encodeChar : Char → List Char
  | '"' => ['\\', '"']
  | '\\' => ['\\', '\\']
  | ch => [ch]

mutual
/-- The rendering of a value, nested entries indented by `indent` blanks. -/
def encodeYamlValue : Node → Nat → List Char
  | .null, _ => "null".toList
  | .bool b, _ => if b then "true".toList else "false".toList
  | .number n, _ => n.text
  | .string s, _ => '"' :: (s.toList.flatMap encodeChar ++ ['"'])
  | .array arr, indent => if arr.isEmpty then ['[', ']'] else encodeItems arr indent
  | .object map, indent => if map.isEmpty then ['\x7b', '\x7d'] else encodePairs map indent

def encodeItems : List Node → Nat → List Char
  | [], _ => []
  | item :: arr, indent =>
    '\n' :: (List.replicate indent ' ' ++ '-' :: ' ' ::
      (encodeYamlValue item (indent + 2) ++ encodeItems arr indent))

def encodePairs : List (String × Node) → Nat → List Char
  | [], _ => []
  | (k, v) :: map, indent =>
    '\n' :: (List.replicate indent ' ' ++ (k.toList ++ ':' :: ' ' ::
      (encodeYamlValue v (indent + 2) ++ encodePairs map indent)))
end

def optionNode : Option Value → Node
  | none => .null
  | some value => value.node

def errorNode : Option String → Node
  | none => .null
  | some text => .string text

/-- The map an entry is serialized to, its keys in order. -/
def CapturedQuery.toMap (entry : CapturedQuery) : List (String × Node) :=
  [("error_details", errorNode entry.errorDetails),
    ("parameters", .array (entry.parameters.map optionNode)),
    ("query", .string entry.query),
    ("result", .array (entry.result.map fun row => .object row.columns)),
    ("success", .bool entry.success)]

/-- The keys of an entry after its first. -/
def encodeFields : List (String × Node) → List Char
  | [] => []
  | (k, v) :: iter =>
    '\n' :: ' ' :: ' ' :: (k.toList ++ ':' :: ' ' :: (encodeYamlValue v 2 ++ encodeFields iter))

def encodeEntry : List (String × Node) → List Char
  | [] => ['-', ' ', '\n']
  | (k, v) :: iter =>
    '-' :: ' ' :: (k.toList ++ ':' :: ' ' :: (encodeYamlValue v 2 ++ encodeFields iter ++ ['\n']))

def encodeEntries (first : Bool) : List (List (String × Node)) → List Char
  | [] => []
  | map :: arr => (if first then [] else ['\n']) ++ encodeEntry map ++ encodeEntries false arr

/-- What is written to the file. -/
def saveEntries (entries : List CapturedQuery) : String :=
  String.ofList (encodeEntries true (entries.map CapturedQuery.toMap))

/-- The captured queries, and what their file holds. -/
structure CaptureStore where
  entries : List CapturedQuery
  file : String

/-- The whole file is written anew, where it can be created. -/
def CaptureStore.append (store : CaptureStore) (created : Bool) (entry : CapturedQuery) :
    CaptureStore where
  entries := store.entries ++ [entry]
  file := if created then saveEntries (store.entries ++ [entry]) else store.file

def pieceOf (c : Char) : Piece := ⟨c, c ≠ '"' && c ≠ '\\'⟩

mutual
/-- What a value is read back as, its texts indented by `least` columns and its nested entries by
`indent`. -/
def reread (least indent : Nat) : Node → Option Node
  | .string s =>
    (folded least (s.toList.map pieceOf)).map fun text => .string (String.ofList text)
  | .array arr => (rereadItems (indent + 1) (indent + 2) arr).map .array
  | .object map => (rereadPairs (indent + 1) (indent + 2) map).map .object
  | .null => some .null
  | .bool b => some (.bool b)
  | .number n => some (.number n)

def rereadItems (least indent : Nat) : List Node → Option (List Node)
  | [] => some []
  | item :: arr => (reread least indent item).bind fun item =>
    (rereadItems least indent arr).map (item :: ·)

def rereadPairs (least indent : Nat) : List (String × Node) → Option (List (String × Node))
  | [] => some []
  | (k, v) :: map => (reread least indent v).bind fun v =>
    (rereadPairs least indent map).map ((k, v) :: ·)
end

section
variable {v w : Node} {vs ws : List Node} {ps qs : List (String × Node)} {least indent : Nat}
  {rest : List Char} {place : Place} {column : Nat}

/-- The keys are ones a document can have without quotes. -/
abbrev PlainKeys (v : Node) : Prop := v.Each (fun key => PlainKey key.toList) fun _ => True

theorem pieces_encodeChar (c : Char) (rest : List Char) : pieces (encodeChar c ++ rest) =
    (pieces rest).map fun (more, rest) => (pieceOf c :: more, rest) := by
  by_cases quote : c = '"'
  · subst quote
    simp only [encodeChar, List.cons_append, List.nil_append, pieces, escaped]
    cases pieces rest <;> rfl
  · by_cases backslash : c = '\\'
    · subst backslash
      simp only [encodeChar, List.cons_append, List.nil_append, pieces, escaped]
      cases pieces rest <;> rfl
    · have written : encodeChar c = [c] := by
        unfold encodeChar
        split <;> simp_all
      have itself : pieceOf c = ⟨c, true⟩ := by simp [pieceOf, quote, backslash]
      rw [written, itself, List.singleton_append, pieces]
      · cases pieces rest <;> rfl
      · exact fun same => quote same
      · intro d more same
        exact absurd same backslash

theorem endsLine_encodeItems (ends : EndsLine rest) : EndsLine (encodeItems vs indent ++ rest) := by
  cases vs with
  | nil => exact ends
  | cons v vs => exact .inr ⟨_, by rw [encodeItems]; rfl⟩

theorem endsLine_encodePairs (ends : EndsLine rest) : EndsLine (encodePairs ps indent ++ rest) := by
  cases ps with
  | nil => exact ends
  | cons p ps =>
    obtain ⟨k, v⟩ := p
    exact .inr ⟨_, by rw [encodePairs]; rfl⟩

/-- Behind a dash or a colon the scanner reads what a value is read back as. -/
def Scans (v : Node) : Prop := ∀ place column indent rest, place.Behind column → EndsLine rest →
  indent ≠ 0 → tokens place (' ' :: (encodeYamlValue v indent ++ rest)) =
    (reread (column + 1) indent v).bind fun v =>
      (tokens .done rest).map (layout v indent ++ ·)

theorem tokens_nextLine (rest : List Char) : tokens place ('\n' :: rest) = tokens .fresh rest :=
  tokens_line 0 rest

theorem tokens_blankLine (rest : List Char) :
    tokens place (' ' :: '\n' :: rest) = tokens .fresh rest :=
  tokens_line 1 rest

theorem tokens_items (each : ∀ v ∈ vs, Scans v) (ends : EndsLine rest) :
    tokens .done (encodeItems vs indent ++ rest) =
      (rereadItems (indent + 1) (indent + 2) vs).bind fun vs =>
        (tokens .done rest).map (layoutItems vs indent ++ ·) := by
  induction vs with
  | nil => simp [encodeItems, rereadItems, layoutItems]
  | cons v vs ih =>
    have here := each v List.mem_cons_self (.dash indent) indent (indent + 2)
      (encodeItems vs indent ++ rest) (.inl rfl) (endsLine_encodeItems ends) (by omega)
    have more := ih fun w member => each w (.tail _ member)
    simp only [encodeItems, List.cons_append, List.append_assoc, tokens_nextLine, tokens_entry,
      here, more, rereadItems]
    cases reread (indent + 1) (indent + 2) v with
    | none => rfl
    | some w =>
      cases rereadItems (indent + 1) (indent + 2) vs with
      | none => rfl
      | some ws => cases tokens .done rest <;> simp [layoutItems]

theorem tokens_pairs (each : ∀ p ∈ ps, Scans p.2) (keys : ∀ p ∈ ps, PlainKey p.1.toList)
    (ends : EndsLine rest) (indented : indent ≠ 0) :
    tokens .done (encodePairs ps indent ++ rest) =
      (rereadPairs (indent + 1) (indent + 2) ps).bind fun ps =>
        (tokens .done rest).map (layoutPairs ps indent ++ ·) := by
  induction ps with
  | nil => simp [encodePairs, rereadPairs, layoutPairs]
  | cons p ps ih =>
    obtain ⟨k, v⟩ := p
    have scans : Scans v := each (k, v) List.mem_cons_self
    have here := scans (.colon indent) indent (indent + 2)
      (encodePairs ps indent ++ rest) (.inr rfl) (endsLine_encodePairs ends) (by omega)
    have more := ih (fun w member => each w (.tail _ member)) fun w member =>
      keys w (.tail _ member)
    simp only [encodePairs, List.cons_append, List.append_assoc, tokens_nextLine,
      tokens_key (keys (k, v) List.mem_cons_self) indented, here, more, rereadPairs]
    cases reread (indent + 1) (indent + 2) v with
    | none => rfl
    | some w =>
      cases rereadPairs (indent + 1) (indent + 2) ps with
      | none => rfl
      | some ws => cases tokens .done rest <;> simp [layoutPairs]

theorem rereadItems_length (read : rereadItems least indent vs = some ws) :
    ws.length = vs.length := by
  induction vs generalizing ws with
  | nil =>
    obtain rfl := Option.some.inj read
    rfl
  | cons v vs ih =>
    simp only [rereadItems, Option.bind_eq_some_iff, Option.map_eq_some_iff] at read
    obtain ⟨w, -, more, further, rfl⟩ := read
    simp [ih further]

theorem rereadPairs_keys (read : rereadPairs least indent ps = some qs) :
    qs.map Prod.fst = ps.map Prod.fst := by
  induction ps generalizing qs with
  | nil =>
    obtain rfl := Option.some.inj read
    rfl
  | cons p ps ih =>
    obtain ⟨k, v⟩ := p
    simp only [rereadPairs, Option.bind_eq_some_iff, Option.map_eq_some_iff] at read
    obtain ⟨w, -, more, further, rfl⟩ := read
    simp [ih further]

theorem layout_array (nonempty : 0 < vs.length) :
    layout (.array vs) column = layoutItems vs column := by
  cases vs with
  | nil => contradiction
  | cons v vs => rw [layout]

theorem layout_object (nonempty : 0 < ps.length) :
    layout (.object ps) column = layoutPairs ps column := by
  cases ps with
  | nil => contradiction
  | cons p ps => rw [layout]

/-- A word is a scalar of its own. -/
theorem scans_word (word : String) (encoded : ∀ indent, encodeYamlValue v indent = word.toList)
    (itself : ∀ least indent, reread least indent v = some v)
    (scalar : ∀ indent, layout v indent = [.scalar v])
    (starts : ∀ rest, EndsLine rest → startsPlain (word.toList ++ rest) = true)
    (each : word.toList.all inWord = true)
    (resolved : resolvePlain word.toList = some v) : Scans v := by
  intro place column indent rest behind ends _
  rw [encoded, tokens_word behind (starts rest ends) each resolved ends, itself, Option.bind_some,
    scalar]
  rfl

theorem scans_of_plainKeys (plain : PlainKeys v) : Scans v := by
  induction plain with
  | null =>
    exact scans_word "null" (fun _ => rfl) (fun _ _ => rfl) (fun _ => rfl) (fun _ _ => rfl)
      (by decide) rfl
  | bool b =>
    cases b
    · exact scans_word "false" (fun _ => rfl) (fun _ _ => rfl) (fun _ => rfl) (fun _ _ => rfl)
        (by decide) rfl
    · exact scans_word "true" (fun _ => rfl) (fun _ _ => rfl) (fun _ => rfl) (fun _ _ => rfl)
        (by decide) rfl
  | number n =>
    refine scans_word (String.ofList n.text) (fun _ => ?_) (fun _ _ => rfl) (fun _ => rfl)
      (fun _ _ => ?_) ?_ ?_
    all_goals rw [String.toList_ofList]
    · rfl
    · exact isDecimal_startsPlain n.decimal
    · exact isDecimal_inWord n.decimal
    · exact resolvePlain_decimal n
  | @string s here =>
    intro place column indent rest behind ends _
    have read := pieces_written pieces_encodeChar s.toList rest
    simp only [encodeYamlValue, List.cons_append, List.append_assoc, List.nil_append,
      tokens_quoted behind read ends, reread]
    cases folded (column + 1) (s.toList.map pieceOf) <;> rfl
  | @array vs _ each =>
    intro place column indent rest behind ends _
    cases vs with
    | nil => exact tokens_emptyArray behind rest
    | cons v vs =>
      have scanned := @tokens_items _ indent _ each ends
      rw [encodeItems, List.cons_append, tokens_nextLine] at scanned
      rw [encodeYamlValue, List.isEmpty_cons, if_neg Bool.false_ne_true, encodeItems,
        List.cons_append, tokens_blankLine, scanned, reread, Option.bind_map]
      apply Option.bind_congr
      intro ws read
      rw [Function.comp_apply, layout_array]
      simp [rereadItems_length read]
  | @object ps keys _ each =>
    intro place column indent rest behind ends indented
    cases ps with
    | nil => exact tokens_emptyObject behind rest
    | cons p ps =>
      have scanned := tokens_pairs each keys ends indented
      obtain ⟨k, v⟩ := p
      rw [encodePairs, List.cons_append, tokens_nextLine] at scanned
      rw [encodeYamlValue, List.isEmpty_cons, if_neg Bool.false_ne_true, encodePairs,
        List.cons_append, tokens_blankLine, scanned, reread, Option.bind_map]
      apply Option.bind_congr
      intro qs read
      rw [Function.comp_apply, layout_object]
      have counted := congrArg List.length (rereadPairs_keys read)
      simp only [List.length_map] at counted
      simp [counted]

/-- The tokens of an entry's keys, whose values are laid out in the keys' own column. -/
def layoutFields (map : List (String × Node)) : List Token :=
  map.flatMap fun (k, v) => .key 2 k :: layout v 2

def layoutEntries (maps : List (List (String × Node))) : List Token :=
  maps.flatMap fun map => .entry 0 :: layoutFields map

theorem endsLine_encodeFields (ends : EndsLine rest) : EndsLine (encodeFields ps ++ rest) := by
  cases ps with
  | nil => exact ends
  | cons p ps =>
    obtain ⟨k, v⟩ := p
    exact .inr ⟨_, by rw [encodeFields]; rfl⟩

/-- The first value of an entry's keys, with the keys after it. -/
theorem tokens_field (scans : Scans v) (ends : EndsLine rest) :
    tokens (.colon 2) (' ' :: (encodeYamlValue v 2 ++ (encodeFields ps ++ rest))) =
      (reread 3 2 v).bind fun v =>
        (tokens .done (encodeFields ps ++ rest)).map (layout v 2 ++ ·) :=
  scans (.colon 2) 2 2 _ (.inr rfl) (endsLine_encodeFields ends) (by decide)

theorem tokens_fields (each : ∀ p ∈ ps, Scans p.2) (keys : ∀ p ∈ ps, PlainKey p.1.toList)
    (ends : EndsLine rest) : tokens .done (encodeFields ps ++ rest) =
      (rereadPairs 3 2 ps).bind fun ps => (tokens .done rest).map (layoutFields ps ++ ·) := by
  induction ps with
  | nil => simp [encodeFields, rereadPairs, layoutFields]
  | cons p ps ih =>
    obtain ⟨k, v⟩ := p
    have here := @tokens_field v ps _ (each (k, v) List.mem_cons_self) ends
    have more := ih (fun w member => each w (.tail _ member)) fun w member =>
      keys w (.tail _ member)
    have key := fun rest => tokens_key (keys (k, v) List.mem_cons_self) (by decide : 2 ≠ 0) rest
    simp only [List.replicate, List.cons_append, List.nil_append] at key
    simp only [encodeFields, List.cons_append, List.append_assoc, tokens_nextLine, key, here, more,
      rereadPairs]
    cases reread 3 2 v with
    | none => rfl
    | some w =>
      cases rereadPairs 3 2 ps with
      | none => rfl
      | some ws => cases tokens .done rest <;> simp [layoutFields]

theorem tokens_encodeEntry (nonempty : ps ≠ []) (each : ∀ p ∈ ps, Scans p.2)
    (keys : ∀ p ∈ ps, PlainKey p.1.toList) : tokens .fresh (encodeEntry ps ++ rest) =
      (rereadPairs 3 2 ps).bind fun ps =>
        (tokens .fresh rest).map ((.entry 0 :: layoutFields ps) ++ ·) := by
  cases ps with
  | nil => contradiction
  | cons p ps =>
    obtain ⟨k, v⟩ := p
    have ends : EndsLine ('\n' :: rest) := .inr ⟨rest, rfl⟩
    have here := @tokens_field v ps _ (each (k, v) List.mem_cons_self) ends
    have more := tokens_fields (fun w member => each w (.tail _ member))
      (fun w member => keys w (.tail _ member)) ends
    have dash := fun rest => tokens_entry 0 rest
    simp only [List.replicate, List.nil_append] at dash
    simp only [encodeEntry, List.cons_append, List.append_assoc, List.nil_append, dash,
      tokens_compactKey (keys (k, v) List.mem_cons_self), Nat.zero_add, here, more, rereadPairs,
      tokens_nextLine]
    cases reread 3 2 v with
    | none => rfl
    | some w =>
      cases rereadPairs 3 2 ps with
      | none => rfl
      | some ws => cases tokens .fresh rest <;> simp [layoutFields]

theorem tokens_encodeEntries {maps : List (List (String × Node))} (first : Bool)
    (nonempty : ∀ map ∈ maps, map ≠ []) (each : ∀ map ∈ maps, ∀ p ∈ map, Scans p.2)
    (keys : ∀ map ∈ maps, ∀ p ∈ map, PlainKey p.1.toList) :
    tokens .fresh (encodeEntries first maps) =
      (maps.mapM (rereadPairs 3 2)).map layoutEntries := by
  induction maps generalizing first with
  | nil => rfl
  | cons map maps ih =>
    have entry := @tokens_encodeEntry map (encodeEntries false maps)
      (nonempty map List.mem_cons_self) (each map List.mem_cons_self) (keys map List.mem_cons_self)
    have more := ih false (fun m member => nonempty m (.tail _ member))
      (fun m member => each m (.tail _ member)) fun m member => keys m (.tail _ member)
    have blank : tokens .fresh (encodeEntries first (map :: maps)) =
        tokens .fresh (encodeEntry map ++ encodeEntries false maps) := by
      cases first
      · exact tokens_nextLine _
      · rfl
    rw [blank, entry, more, List.mapM_cons]
    cases rereadPairs 3 2 map with
    | none => rfl
    | some m =>
      cases maps.mapM (rereadPairs 3 2) with
      | none => rfl
      | some ms => simp [layoutEntries]

/-- Queries recorded one after the other, the file being created each time. -/
def CaptureStore.run (store : CaptureStore) (added : List CapturedQuery) : CaptureStore :=
  added.foldl (fun store entry => store.append true entry) store

theorem CaptureStore.run_entries (store : CaptureStore) (added : List CapturedQuery) :
    (store.run added).entries = store.entries ++ added := by
  induction added generalizing store with
  | nil => simp [run]
  | cons entry added ih =>
    have step : store.run (entry :: added) = (store.append true entry).run added := rfl
    rw [step, ih]
    simp [append]

/-- After any run the file holds all queries recorded, not the last one alone. -/
theorem CaptureStore.run_file (store : CaptureStore) {added : List CapturedQuery}
    (nonempty : added ≠ []) : (store.run added).file = saveEntries (store.entries ++ added) := by
  obtain ⟨before, last, rfl⟩ := List.eq_nil_or_concat' added |>.resolve_left nonempty
  have step : store.run (before ++ [last]) = (store.run before).append true last := by
    simp [run, List.foldl_append]
  rw [step, append, run_entries, List.append_assoc]
  rfl

end
end PgCatalog.Server.CaptureFile
