import PgCatalog.Server.Timestamps

/-! The row description and the row: what a client reads under the announced type and
format is the value of the column, but for timestamps in binary and beyond the text's
reach, and for lists with null elements or elements that are not texts. -/
namespace PgCatalog.Server

open Library

/-- The types the description has a type of their own for, and lists of them. -/
def DataType.advertised : DataType → Bool
  | .list (.list _) => false
  | .list (.other _) => false
  | .other _ => false
  | _ => true

section
variable (display : DataType → String) (client : FieldFormat → PgType → String → Option PgValue)
  (format : FieldFormat) (dataType : DataType)

/-- The encoding is read as the value, and no other value of the type has it. -/
structure Truthful (value : Option dataType.Native) : Prop where
  read : decode client format (arrowToPgType dataType)
    (encodeColumnValue display dataType value) = some (value.elim .null dataType.denoted)
  alone : ∀ other, encodeColumnValue display dataType other =
    encodeColumnValue display dataType value → other = value

/-- Null and the values of plain types; of timestamps in text the whole microseconds of the
years from 1 to 9999, their null only where every count prints; of lists of texts those
without a null element and without the text `NULL`. -/
def Sendable (format : FieldFormat) : (dataType : DataType) → Option dataType.Native → Prop
  | .timestamp unit _, none => unit = .nanosecond
  | .timestamp unit _, some n => format = .text ∧
      1 ≤ (dateTimeOf unit n.toInt).date.year ∧ (dateTimeOf unit n.toInt).date.year ≤ 9999 ∧
      (unit = .nanosecond → n.toInt % 1000 = 0)
  | .list item, some items => ∃ texts, item.texts items = some texts ∧
      ∀ text ∈ texts, ∃ s, text = some s ∧ s ≠ "NULL"
  | _, _ => True

variable {display client format dataType}

/-- A type whose values are handed over as they are. -/
theorem truthful_plain (hand : dataType.Native → RustValue)
    (encode : ∀ value, encodeColumnValue display dataType value = value.elim .none hand)
    (present : ∀ x, hand x ≠ .none) (injective : ∀ x y, hand x = hand y → x = y)
    (read : ∀ x, decode client format (arrowToPgType dataType) (hand x) =
      some (dataType.denoted x)) (value : Option dataType.Native) :
    Truthful display client format dataType value := by
  refine ⟨?_, fun other same => ?_⟩
  · rw [encode]
    cases value with
    | none => rfl
    | some x => exact read x
  · rw [encode, encode] at same
    cases value with
    | none =>
      cases other with
      | none => rfl
      | some y => exact absurd same (present y)
    | some x =>
      cases other with
      | none => exact absurd same.symm (present x)
      | some y => exact congrArg some (injective y x same)

variable {unit : TimeUnit} {zone : Option String} (n : Int64)

theorem denoted_timestamp :
    (DataType.timestamp unit zone).denoted n = .timestamp (n.toInt * unit.nanos) := by
  cases unit with
  | second => rfl
  | millisecond => rfl
  | microsecond => rfl
  | nanosecond => exact congrArg PgValue.timestamp (mul_one _).symm

theorem encode_timestamp :
    encodeColumnValue display (.timestamp unit zone) (some n) =
      if Representable unit n.toInt then .string ((dateTimeOf unit n.toInt).format unit.digits)
      else .none := by
  have printed := congrArg (fun text : Option String => text.elim RustValue.none .string)
    (formatTimestamp_some unit n)
  refine printed.trans ?_
  split <;> rfl

/-- A nanosecond count stays within a few centuries. -/
theorem nanosecond_representable (n : Int64) : Representable .nanosecond n.toInt := by
  have low := n.le_toInt
  have high := n.toInt_lt
  have ranges := (ofDay_ranges (secondOf .nanosecond n.toInt / 86400)).2.2
  have second : secondOf .nanosecond n.toInt = n.toInt / 1000000000 := rfl
  unfold Representable
  change -262143 ≤ (Date.ofDay (secondOf .nanosecond n.toInt / 86400)).year ∧
    (Date.ofDay (secondOf .nanosecond n.toInt / 86400)).year ≤ 262142
  rw [second] at ranges ⊢
  omega

theorem latest_unrepresentable {unit : TimeUnit} (coarse : unit ≠ .nanosecond) :
    ¬Representable unit Int64.maxValue.toInt := by
  cases unit with
  | second => decide +kernel
  | millisecond => decide +kernel
  | microsecond => decide +kernel
  | nanosecond => exact absurd rfl coarse

theorem truthful_timestamp_null :
    Truthful display client format (.timestamp unit zone) none ↔ unit = .nanosecond := by
  constructor
  · intro truthful
    by_contra coarse
    have latest : encodeColumnValue display (.timestamp unit zone) (some Int64.maxValue) = .none := by
      rw [encode_timestamp, if_neg (latest_unrepresentable coarse)]
    cases truthful.alone _ latest
  · rintro rfl
    refine ⟨rfl, fun other same => ?_⟩
    cases other with
    | none => rfl
    | some n =>
      rw [encode_timestamp, if_pos (nanosecond_representable n)] at same
      cases same

/-- The text of a timestamp is longer than a binary one. -/
theorem format_long (t : DateTime) (digits : Nat) : (t.format digits).utf8ByteSize ≠ 8 := by
  have long := length_le_utf8ByteSize (t.format digits)
  have chars : 15 ≤ (t.format digits).toList.length := by
    rw [DateTime.format, String.toList_ofList, List.append_assoc, List.length_append,
      afterYear_append]
    simp only [List.length_cons, List.length_append, fixedDigits_length]
    omega
  omega

theorem decode_timestamp_text (s : String) :
    decode client .text .timestamp (.string s) = (readTimestamp s.toList).map .timestamp := rfl

theorem decode_timestamp_binary {s : String} (long : s.utf8ByteSize ≠ 8) :
    decode client .binary .timestamp (.string s) = none := if_neg long

/-- What is read of a timestamp that prints. -/
theorem read_timestamp_iff (dated : Representable unit n.toInt) :
    decode client format (arrowToPgType (.timestamp unit zone))
        (encodeColumnValue display (.timestamp unit zone) (some n)) =
      some ((DataType.timestamp unit zone).denoted n) ↔
    format = .text ∧ readTimestamp ((dateTimeOf unit n.toInt).format unit.digits).toList =
      some (n.toInt * unit.nanos) := by
  have announced : arrowToPgType (.timestamp unit zone) = .timestamp := rfl
  have long := format_long (dateTimeOf unit n.toInt) unit.digits
  rw [encode_timestamp, if_pos dated, announced, denoted_timestamp]
  generalize (dateTimeOf unit n.toInt).format unit.digits = text at long
  generalize n.toInt * unit.nanos = instant
  cases format with
  | binary =>
    rw [decode_timestamp_binary long]
    exact iff_of_false nofun fun both => nomatch both.1
  | text =>
    rw [decode_timestamp_text]
    cases readTimestamp text.toList with
    | none => exact iff_of_false nofun fun both => nomatch both.2
    | some nanos =>
      constructor
      · intro same
        injection same with same
        injection same with same
        exact ⟨rfl, congrArg some same⟩
      · rintro ⟨_, same⟩
        exact congrArg (Option.map PgValue.timestamp) same

theorem truthful_timestamp :
    Truthful display client format (.timestamp unit zone) (some n) ↔
      format = .text ∧ 1 ≤ (dateTimeOf unit n.toInt).date.year ∧
        (dateTimeOf unit n.toInt).date.year ≤ 9999 ∧
        (unit = .nanosecond → n.toInt % 1000 = 0) := by
  rw [← readTimestamp_iff]
  constructor
  · rintro ⟨read, _⟩
    by_cases dated : Representable unit n.toInt
    · exact (read_timestamp_iff n dated).mp read
    · rw [encode_timestamp, if_neg dated] at read
      cases read
  · rintro ⟨text, instant⟩
    obtain ⟨first, last, _⟩ := readTimestamp_iff.mp instant
    have dated : Representable unit n.toInt := ⟨by omega, by omega⟩
    refine ⟨(read_timestamp_iff n dated).mpr ⟨text, instant⟩, fun other same => ?_⟩
    rw [encode_timestamp, if_pos dated] at same
    cases other with
    | none => cases same
    | some m =>
      rw [encode_timestamp] at same
      split at same
      · injection same with same
        exact congrArg some (Int64.toInt_inj.mp (format_injective same))
      · cases same

theorem unsupported_opens (dataType : DataType) : ∃ rest,
    (s!"[unsupported {display dataType}]").toList = '[' :: 'u' :: rest := by
  have opening : ("[unsupported ").toList = '[' :: 'u' :: ("nsupported ").toList := rfl
  refine ⟨("nsupported ").toList ++ (display dataType).toList ++ ("]").toList, ?_⟩
  change ("[unsupported " ++ display dataType ++ "]").toList = _
  rw [String.toList_append, String.toList_append, opening]
  rfl

theorem unsupported_closed (dataType : DataType) :
    opensArray format s!"[unsupported {display dataType}]" = false := by
  obtain ⟨rest, opening⟩ := @unsupported_opens display dataType
  generalize s!"[unsupported {display dataType}]" = s at opening
  cases format with
  | binary =>
    unfold opensArray
    dsimp only
    rw [opening, List.head?_cons]
    decide
  | text =>
    have bracket : isWhiteSpace '[' = false := by decide
    unfold opensArray
    dsimp only
    rw [opening, List.dropWhile_cons_of_neg (by rw [bracket]; decide)]
    rfl

variable {item : DataType} {items : List (Option item.Native)}

/-- A list of elements without an encoding is read as nothing. -/
theorem decode_unsupported :
    decode client format (arrowToPgType (.list item)) (unsupported display (.list item) false) =
      none := by
  have closed := @unsupported_closed display format (.list item)
  have array : (arrowToPgType (.list item)).isArray = true ∧ arrowToPgType (.list item) ≠ .text ∧
      arrowToPgType (.list item) ≠ .timestamp := by
    cases item <;> exact ⟨rfl, nofun, nofun⟩
  unfold unsupported
  rw [if_neg (by decide)]
  generalize s!"[unsupported {display (.list item)}]" = s at closed
  unfold decode
  dsimp only
  rw [if_neg array.2.1, if_neg array.2.2, array.1, closed]
  rfl

theorem encode_list (value : Option (List (Option item.Native))) :
    encodeColumnValue display (.list item) value =
      match value with
      | none => .none
      | some items =>
        match item.texts items with
        | some texts => .strings (stringifyStringArray texts)
        | none => unsupported display (.list item) false := by
  cases value <;> rfl

theorem encode_list_present (items : List (Option item.Native)) :
    encodeColumnValue display (.list item) (some items) ≠ .none := by
  rw [encode_list]
  dsimp only
  cases item.texts items with
  | none => exact nofun
  | some texts => exact nofun

theorem truthful_list_null : Truthful display client format (.list item) none := by
  refine ⟨rfl, fun other same => ?_⟩
  cases other with
  | none => rfl
  | some items => exact absurd same (encode_list_present items)

/-- Lists of texts are announced as such, and their elements stand for themselves. -/
theorem texts_announced {texts : List (Option String)} (read : item.texts items = some texts) :
    arrowToPgType (.list item) = .textArray ∧
      (DataType.list item).denoted items =
        .array (texts.map fun text => text.elim .null .text) := by
  cases item with
  | utf8 =>
    obtain rfl := Option.some.inj read
    exact ⟨rfl, rfl⟩
  | utf8View =>
    obtain rfl := Option.some.inj read
    exact ⟨rfl, rfl⟩
  | largeUtf8 =>
    obtain rfl := Option.some.inj read
    exact ⟨rfl, rfl⟩
  | _ => cases read

/-- Which lists have texts does not depend on the list, and the texts are the list. -/
theorem texts_injective {texts : List (Option String)} {others : List (Option item.Native)}
    (read : item.texts items = some texts) :
    (∃ texts', item.texts others = some texts') ∧
      (item.texts others = item.texts items → others = items) := by
  cases item with
  | utf8 => exact ⟨⟨_, rfl⟩, Option.some.inj⟩
  | utf8View => exact ⟨⟨_, rfl⟩, Option.some.inj⟩
  | largeUtf8 => exact ⟨⟨_, rfl⟩, Option.some.inj⟩
  | _ => cases read

/-- A list of texts with any texts in it is a list of the type. -/
theorem texts_surjective {texts : List (Option String)} (read : item.texts items = some texts)
    (texts' : List (Option String)) : ∃ others, item.texts others = some texts' := by
  cases item with
  | utf8 => exact ⟨texts', rfl⟩
  | utf8View => exact ⟨texts', rfl⟩
  | largeUtf8 => exact ⟨texts', rfl⟩
  | _ => cases read

theorem stringify_present {texts : List (Option String)}
    (present : ∀ text ∈ texts, ∃ s, text = some s ∧ s ≠ "NULL") :
    texts = (stringifyStringArray texts).map some := by
  rw [stringifyStringArray, List.map_map]
  symm
  refine (List.map_congr_left fun text member => ?_).trans (List.map_id texts)
  obtain ⟨s, rfl, _⟩ := present text member
  rfl

/-- Texts without the word for null come from present elements only. -/
theorem present_of_strings {texts : List (Option String)}
    (wordless : ∀ s ∈ stringifyStringArray texts, s ≠ "NULL") :
    ∀ text ∈ texts, ∃ s, text = some s ∧ s ≠ "NULL" := by
  intro text member
  have other := wordless _ (List.mem_map_of_mem member)
  cases text with
  | none => exact absurd rfl other
  | some s => exact ⟨s, rfl, other⟩

theorem wordless_of_present {texts : List (Option String)}
    (present : ∀ text ∈ texts, ∃ s, text = some s ∧ s ≠ "NULL") :
    ∀ s ∈ stringifyStringArray texts, s ≠ "NULL" := by
  intro s member
  obtain ⟨text, listed, rfl⟩ := List.mem_map.mp member
  obtain ⟨s, rfl, other⟩ := present text listed
  exact other

/-- With the word for null put in place of its text, a list is handed over alike. -/
theorem stringify_nulled (texts : List (Option String)) :
    stringifyStringArray (texts.map fun text => if text = some "NULL" then none else text) =
      stringifyStringArray texts := by
  rw [stringifyStringArray, List.map_map]
  refine List.map_congr_left fun text _ => ?_
  by_cases word : text = some "NULL"
  · rw [word]
    rfl
  · exact congrArg (Option.getD · "NULL") (if_neg word)

/-- What is read of a list of texts are its texts with the word for null in their places. -/
theorem read_texts {texts : List (Option String)} (read : item.texts items = some texts) :
    decode client format (arrowToPgType (.list item))
        (encodeColumnValue display (.list item) (some items)) =
      some (.array ((stringifyStringArray texts).map .text)) := by
  rw [encode_list, (texts_announced read).1]
  dsimp only
  rw [read]
  rfl

/-- A list is sent truthfully exactly if it is one of texts, none of them null or `NULL`. -/
theorem truthful_list :
    Truthful display client format (.list item) (some items) ↔
      ∃ texts, item.texts items = some texts ∧ ∀ text ∈ texts, ∃ s, text = some s ∧ s ≠ "NULL" := by
  constructor
  · rintro ⟨read, alone⟩
    cases texts_ : item.texts items with
    | none =>
      have nothing : decode client format (arrowToPgType (.list item))
          (encodeColumnValue display (.list item) (some items)) = none := by
        rw [encode_list]
        dsimp only
        rw [texts_]
        exact decode_unsupported
      rw [nothing] at read
      cases read
    | some texts =>
      refine ⟨texts, rfl, fun text member => ?_⟩
      have elements : ∀ text ∈ texts, PgValue.text (text.getD "NULL") =
          text.elim .null .text := by
        rw [read_texts texts_] at read
        have arrays := (Option.some.inj read).trans (texts_announced texts_).2
        injection arrays with arrays
        rw [stringifyStringArray, List.map_map] at arrays
        exact List.map_inj_left.mp arrays
      cases text with
      | none => exact absurd (elements none member) nofun
      | some s =>
        refine ⟨s, rfl, ?_⟩
        rintro rfl
        obtain ⟨others, nulled⟩ := texts_surjective texts_
          (texts.map fun text => if text = some "NULL" then none else text)
        have same : encodeColumnValue display (.list item) (some others) =
            encodeColumnValue display (.list item) (some items) := by
          rw [encode_list, encode_list]
          dsimp only
          rw [nulled, texts_]
          exact congrArg RustValue.strings (stringify_nulled texts)
        have whole := Option.some.inj (alone _ same)
        rw [whole, texts_] at nulled
        have kept := (List.map_id texts).trans (Option.some.inj nulled)
        exact absurd (List.map_inj_left.mp kept _ member) (by simp)
  · rintro ⟨texts, texts_, present⟩
    refine ⟨?_, fun other same => ?_⟩
    · have elements := congrArg (List.map fun text => text.elim PgValue.null .text)
        (stringify_present present)
      rw [List.map_map] at elements
      rw [read_texts texts_]
      refine congrArg some (Eq.symm ?_)
      exact (texts_announced texts_).2.trans (congrArg PgValue.array elements)
    · cases other with
      | none => exact absurd same.symm (encode_list_present items)
      | some others =>
        have inside : ∃ texts', item.texts others = some texts' := (texts_injective texts_).1
        obtain ⟨texts', others_⟩ := inside
        rw [encode_list, encode_list] at same
        dsimp only at same
        rw [others_, texts_] at same
        injection same with same
        have wordless := wordless_of_present present
        rw [← same] at wordless
        have equal : texts' = texts := by
          rw [stringify_present (present_of_strings wordless), same, ← stringify_present present]
        refine congrArg some ((texts_injective texts_).2 ?_)
        rw [others_, texts_, equal]

end

section
variable {display : DataType → String} {client : FieldFormat → PgType → String → Option PgValue}
  {format : FieldFormat} {dataType : DataType}

/-- What is sent of a column is the value, in the announced type and format and told apart
from every other, exactly for the sendable values. -/
theorem row_truthful_iff (advertised : dataType.advertised = true)
    (value : Option dataType.Native) :
    Truthful display client format dataType value ↔ Sendable format dataType value := by
  cases dataType with
  | boolean =>
    exact iff_of_true (truthful_plain .bool (fun _ => rfl) (by simp)
      (fun _ _ same => RustValue.bool.inj same) (fun _ => rfl) value) trivial
  | int16 =>
    exact iff_of_true (truthful_plain .int2 (fun _ => rfl) (by simp)
      (fun _ _ same => RustValue.int2.inj same) (fun _ => rfl) value) trivial
  | int32 =>
    exact iff_of_true (truthful_plain .int4 (fun _ => rfl) (by simp)
      (fun _ _ same => RustValue.int4.inj same) (fun _ => rfl) value) trivial
  | int64 =>
    exact iff_of_true (truthful_plain .int8 (fun _ => rfl) (by simp)
      (fun _ _ same => RustValue.int8.inj same) (fun _ => rfl) value) trivial
  | float32 =>
    exact iff_of_true (truthful_plain .float4 (fun _ => rfl) (by simp)
      (fun _ _ same => RustValue.float4.inj same) (fun _ => rfl) value) trivial
  | float64 =>
    exact iff_of_true (truthful_plain .float8 (fun _ => rfl) (by simp)
      (fun _ _ same => RustValue.float8.inj same) (fun _ => rfl) value) trivial
  | utf8 =>
    exact iff_of_true (truthful_plain .string (fun _ => rfl) (by simp)
      (fun _ _ same => RustValue.string.inj same) (fun _ => rfl) value) trivial
  | utf8View =>
    exact iff_of_true (truthful_plain .string (fun _ => rfl) (by simp)
      (fun _ _ same => RustValue.string.inj same) (fun _ => rfl) value) trivial
  | largeUtf8 =>
    exact iff_of_true (truthful_plain .string (fun _ => rfl) (by simp)
      (fun _ _ same => RustValue.string.inj same) (fun _ => rfl) value) trivial
  | timestamp unit zone =>
    cases value with
    | none => exact truthful_timestamp_null
    | some n => exact truthful_timestamp n
  | list item =>
    cases value with
    | none => exact iff_of_true truthful_list_null trivial
    | some items => exact truthful_list
  | other name => cases advertised

end

/-- A list with a null element is not sent as it is, whatever the client. -/
theorem null_element_sendable :
    Truthful (fun _ => "List(Utf8)") (fun _ _ _ => none) .text (.list .utf8) (some [none]) ↔
      Sendable .text (.list .utf8) (some [none]) :=
  row_truthful_iff rfl _

/-- `SELECT ARRAY[1]` describes an `int4[]` and sends another text under it. -/
theorem int_list_unsupported :
    ¬Truthful (fun _ => "List(Int32)") (fun _ _ _ => none) .text (.list .int32)
      (some [some 1]) := by
  intro truthful
  obtain ⟨texts, read, _⟩ := truthful_list.mp truthful
  cases read

end PgCatalog.Server
