import PgCatalog.UserFunctions.TypeModifiers

/-! Which type modifiers are decoded right: those the arithmetic can take, of a type whose
modifier its name has. -/
namespace PgCatalog.UserFunctions

/-- `tm - 4` leaves its 64 bits. -/
def SubOverflows (tm : Int) : Prop := tm < -2 ^ 63 + 4

/-- The length fits into 32 bits and its octets do not. -/
def OctetsOverflow (tm : Int) : Prop :=
  tm ≠ -1 ∧ ((-2 ^ 31 ≤ tm - 4 ∧ tm - 4 < -2 ^ 29) ∨ (2 ^ 29 ≤ tm - 4 ∧ tm - 4 < 2 ^ 31))

/-! ## The functions -/

theorem checkedSub_none {m : Int} (high : m < 2 ^ 63) : checkedSub m 4 = none ↔ SubOverflows m := by
  unfold checkedSub SubOverflows
  split_ifs <;> simp <;> omega

theorem checkedSub_some {m : Int} (low : -2 ^ 63 + 4 ≤ m) (high : m < 2 ^ 63) :
    checkedSub m 4 = some (m - 4) := by
  unfold checkedSub
  rw [if_pos (by omega)]

theorem toInt32_some {n : Int} (low : -2 ^ 31 ≤ n) (high : n < 2 ^ 31) : toInt32 n = some n :=
  if_pos ⟨low, high⟩

/-- What a column can have is small. -/
theorem storable_bounds {t : ModifiedType} {tm : Int} (storable : t.Storable tm) :
    -1 ≤ tm ∧ tm < 2 ^ 31 ∧ (t = .bpchar ∨ t = .varchar → tm ≤ 10485764) := by
  obtain rfl | storable := storable
  · simp
  · cases t
    case interval =>
      obtain ⟨range, member, rfl⟩ | ⟨range, member, -, p, low, high, rfl⟩ := storable
      · have bound : ∀ r ∈ intervalRanges, 0 ≤ r.mask ∧ r.mask ≤ 32767 := by decide
        have := bound range member
        simp [IntervalRange.typmod]
        omega
      · have bound : ∀ r ∈ INTERVAL_FULL_RANGE :: intervalRanges, 0 ≤ r.mask ∧ r.mask ≤ 32767 := by
          decide
        have := bound range member
        simp [IntervalRange.typmod]
        omega
    case numeric =>
      obtain ⟨p, s, _, _, _, _, rfl⟩ := storable
      simp
      omega
    all_goals
      have bounds := storable
      simp only at bounds
      simp
      omega

section
variable {typid tm : Int}

theorem numericPrecision_eq (low : -2 ^ 63 + 4 ≤ tm) (high : tm < 2 ^ 63) :
    pgNumericPrecision typid (some tm) = some (pgHelpers typid tm).numericPrecision := by
  simp only [pgNumericPrecision, pgHelpers, checkedSub_some low high]
  split_ifs <;> simp_all [OID_NUMERIC, OID_FLOAT4, OID_FLOAT8]

theorem numericScale_eq (low : -2 ^ 63 + 4 ≤ tm) (high : tm < 2 ^ 63) :
    pgNumericScale typid (some tm) = some (pgHelpers typid tm).numericScale := by
  simp only [pgNumericScale, pgHelpers, checkedSub_some low high]
  split_ifs <;> rfl

theorem charMaxLength_eq (low : -1 ≤ tm) (high : tm < 2 ^ 31)
    (bits : typid = OID_BIT ∨ typid = OID_VARBIT → tm ≠ -1) :
    pgCharMaxLength typid (some tm) = some (pgHelperCharMaxLength typid tm) := by
  have less : toInt32 (tm - 4) = some (tm - 4) := toInt32_some (by omega) (by omega)
  have same : toInt32 tm = some tm := toInt32_some (by omega) (by omega)
  have sub := @checkedSub_some tm (by omega) (by omega)
  simp only [pgCharMaxLength, pgHelperCharMaxLength, sub]
  split_ifs <;> simp_all

theorem charOctetLength_eq (low : -1 ≤ tm) (high : tm < 2 ^ 31)
    (short : typid = OID_BPCHAR ∨ typid = OID_VARCHAR → tm ≤ 10485764) :
    pgCharOctetLength typid (some tm) = some (pgHelpers typid tm).charOctetLength := by
  by_cases bits : typid = OID_BIT ∨ typid = OID_VARBIT
  · obtain rfl | rfl := bits <;> rfl
  · simp only [pgCharOctetLength, pgHelpers, charMaxLength_eq low high fun b => absurd b bits]
    by_cases character : typid = OID_BPCHAR ∨ typid = OID_VARCHAR
    · have small := short character
      have fits : checkedMul (tm - 4) ENCODING_MAX_LENGTH = some ((tm - 4) * 4) :=
        if_pos ⟨by unfold ENCODING_MAX_LENGTH; omega, by unfold ENCODING_MAX_LENGTH; omega⟩
      by_cases unbounded : tm = -1 <;>
        simp [pgHelperCharMaxLength, character, unbounded, fits]
    · by_cases text : typid = OID_TEXT
      · have none_ : pgHelperCharMaxLength typid tm = none := by
          simp [pgHelperCharMaxLength, character, bits]
        rw [none_]
        by_cases unbounded : tm = -1 <;> simp [text, unbounded]
      · simp [text, character]

theorem datetimePrecision_eq (low : -1 ≤ tm) (high : tm < 2 ^ 31) :
    pgDatetimePrecision typid (some tm) = some (pgHelpers typid tm).datetimePrecision := by
  have same : toInt32 tm = some tm := toInt32_some (by omega) (by omega)
  simp only [pgDatetimePrecision, pgHelpers, Option.getD_some, same]
  split_ifs <;> rfl

/-- Of a small modifier the functions give PostgreSQL's results, but for a bit string without
one. -/
theorem helpers_eq (low : -1 ≤ tm) (high : tm < 2 ^ 31)
    (short : typid = OID_BPCHAR ∨ typid = OID_VARCHAR → tm ≤ 10485764)
    (bits : typid = OID_BIT ∨ typid = OID_VARBIT → tm ≠ -1) :
    helpers typid tm = some (pgHelpers typid tm) := by
  have precision := @numericPrecision_eq typid tm (by omega) (by omega)
  have scale := @numericScale_eq typid tm (by omega) (by omega)
  simp only [helpers, precision, scale, charMaxLength_eq low high bits, charOctetLength_eq low high short,
    datetimePrecision_eq low high]
  rfl

/-- A modifier that is unpacked after a test for there being one. -/
theorem unpacked_none {f : Int → Option Int} (high : tm < 2 ^ 63) :
    (if tm = -1 then some none else (checkedSub tm 4).map f) = none ↔ SubOverflows tm := by
  split
  · next unbounded => simp [unbounded, SubOverflows]
  · rw [Option.map_eq_none_iff, checkedSub_none high]

theorem numericPrecision_none (high : tm < 2 ^ 63) :
    pgNumericPrecision typid (some tm) = none ↔ typid = OID_NUMERIC ∧ SubOverflows tm := by
  by_cases numeric : typid = OID_NUMERIC
  · subst numeric
    rw [← unpacked_none (f := fun bits => some (low16 (shift16 bits))) high, eq_self, true_and]
    rfl
  · simp only [pgNumericPrecision, numeric, if_false, false_and, iff_false]
    split_ifs <;> simp

theorem numericScale_none (high : tm < 2 ^ 63) :
    pgNumericScale typid (some tm) = none ↔ typid = OID_NUMERIC ∧ SubOverflows tm := by
  by_cases numeric : typid = OID_NUMERIC
  · subst numeric
    rw [← unpacked_none (f := fun bits => some (low16 bits)) high, eq_self, true_and]
    rfl
  · simp only [pgNumericScale, numeric, if_false, false_and, iff_false]
    split_ifs <;> simp

theorem charMaxLength_none (high : tm < 2 ^ 63) : pgCharMaxLength typid (some tm) = none ↔
    (typid = OID_BPCHAR ∨ typid = OID_VARCHAR) ∧ SubOverflows tm := by
  by_cases character : typid = OID_BPCHAR ∨ typid = OID_VARCHAR
  · simp only [pgCharMaxLength, character, if_true, true_and]
    exact unpacked_none high
  · simp only [pgCharMaxLength, character, if_false, false_and, iff_false]
    split_ifs <;> simp

/-- The length in bytes leaves its 32 bits where the length in characters is within them. -/
theorem charOctetLength_none (high : tm < 2 ^ 63) : pgCharOctetLength typid (some tm) = none ↔
    (typid = OID_BPCHAR ∨ typid = OID_VARCHAR) ∧ (SubOverflows tm ∨ OctetsOverflow tm) := by
  by_cases character : typid = OID_BPCHAR ∨ typid = OID_VARCHAR
  · by_cases unbounded : tm = -1
    · simp [pgCharOctetLength, character, unbounded, SubOverflows, OctetsOverflow]
    · have length : pgCharMaxLength typid (some tm) = (checkedSub tm 4).map toInt32 := by
        simp [pgCharMaxLength, character, unbounded]
      simp only [pgCharOctetLength, character, or_true, if_true, Option.getD_some, unbounded,
        if_false, length, true_and]
      by_cases low : SubOverflows tm
      · exact iff_of_true (by rw [(checkedSub_none high).mpr low]; rfl) (.inl low)
      · rw [checkedSub_some (not_lt.mp low) high, Option.map_some, Option.bind_some]
        unfold toInt32 checkedMul ENCODING_MAX_LENGTH
        split_ifs <;> simp [low, unbounded, OctetsOverflow] <;> omega
  · refine iff_of_false ?_ fun h => character h.1
    unfold pgCharOctetLength
    split_ifs with text unbounded
    · simp
    · obtain rfl := text.resolve_right character
      simp [pgCharMaxLength, OID_TEXT, OID_BPCHAR, OID_VARCHAR, OID_BIT, OID_VARBIT]
    · simp

theorem datetimePrecision_checked : pgDatetimePrecision typid (some tm) ≠ none := by
  unfold pgDatetimePrecision
  simp only
  split_ifs <;> simp

/-- Where the functions overflow. -/
theorem helpers_none (high : tm < 2 ^ 63) : helpers typid tm = none ↔
    ((typid = OID_NUMERIC ∨ typid = OID_BPCHAR ∨ typid = OID_VARCHAR) ∧ SubOverflows tm) ∨
      ((typid = OID_BPCHAR ∨ typid = OID_VARCHAR) ∧ OctetsOverflow tm) := by
  have any : helpers typid tm = none ↔ pgNumericPrecision typid (some tm) = none ∨
      pgNumericScale typid (some tm) = none ∨ pgCharMaxLength typid (some tm) = none ∨
      pgCharOctetLength typid (some tm) = none ∨ pgDatetimePrecision typid (some tm) = none := by
    unfold helpers
    generalize pgNumericPrecision typid (some tm) = precision
    generalize pgNumericScale typid (some tm) = scale
    generalize pgCharMaxLength typid (some tm) = length
    generalize pgCharOctetLength typid (some tm) = octets
    generalize pgDatetimePrecision typid (some tm) = time
    cases precision <;> cases scale <;> cases length <;> cases octets <;> cases time <;> simp
  rw [any, numericPrecision_none high, numericScale_none high, charMaxLength_none high,
    charOctetLength_none high]
  simp only [datetimePrecision_checked, or_false]
  tauto

end

/-! ## The names -/

/-- What the code prints of a modifier. -/
def ModifiedType.printed (t : ModifiedType) (tm : Int) : String :=
  match t with
  | bpchar => if 0 ≤ tm then "(" ++ toString (tm - 4) ++ ")" else ""
  | varchar => if 0 ≤ tm then "(" ++ toString (tm - 4) ++ ")" else ""
  | numeric =>
    if 4 ≤ tm then
      "(" ++ toString (low16 (shift16 (tm - 4))) ++ "," ++ toString (low16 (tm - 4)) ++ ")"
    else ""
  | interval => ""
  | bit => ""
  | varbit => ""
  | _ => precisionSuffix (some tm)

variable {t : ModifiedType} {tm : Int}

theorem sqlName_modified (high : tm < 2 ^ 63) : sqlNameForTypname t.typname (some tm) =
    some (t.base 0 ++ t.printed tm ++ t.tail) := by
  have sub (low : 0 ≤ tm) : checkedSub tm 4 = some (tm - 4) := checkedSub_some (by omega) high
  have numeric (low : 4 ≤ tm) : checkedSub tm 4 = some (tm - 4) := sub (by omega)
  cases t <;> simp [sqlNameForTypname, ModifiedType.typname, ModifiedType.base,
    ModifiedType.printed, ModifiedType.tail]
  all_goals split_ifs with present
  all_goals simp [sub, numeric, present, ← String.toList_inj]

theorem sqlName_bare : sqlNameForTypname t.typname none = some (t.base 0 ++ t.tail) := by
  cases t <;> simp [sqlNameForTypname, ModifiedType.typname, ModifiedType.base,
    ModifiedType.tail, precisionSuffix]

theorem formatTypeName_own (types : TypeNames) : formatTypeName t.oid (some tm) types.byOid =
    sqlNameForTypname t.typname (some tm) := by
  rw [formatTypeName, types.named]
  cases t <;> rfl

theorem formatTypeName_array (types : TypeNames) :
    formatTypeName t.arrayOid (some tm) types.byOid = some (t.base 0 ++ t.tail ++ "[]") := by
  rw [formatTypeName, types.arrays]
  simp [sqlName_bare]

/-- Without a modifier the code prints none. -/
theorem printed_bare : t.printed (-1) = "" := by cases t <;> rfl

theorem base_bare : t.base 0 = t.base (-1) ↔ t ≠ .bpchar ∧ t ≠ .bit := by
  cases t <;> decide

theorem base_present (present : 0 ≤ tm) : t.base tm = t.base 0 := by
  cases t <;> simp [ModifiedType.base, present]

/-- A declared interval names its fields or its precision. -/
theorem intervalModifier_some (storable : ModifiedType.interval.Storable tm) (present : tm ≠ -1) :
    intervalModifier tm ≠ "" := by
  have fields : ∀ range ∈ intervalRanges, intervalModifier (range.typmod none) ≠ "" := by
    decide +kernel
  obtain ⟨range, member, rfl⟩ | ⟨range, -, -, p, low, high, rfl⟩ := storable.resolve_left present
  · exact fields range member
  · have precise : low16 (range.typmod (some p)) ≠ 65535 := by
      simp [low16, IntervalRange.typmod]
      omega
    simp [intervalModifier, precise]

theorem character_large (storable : t.Storable tm) (present : tm ≠ -1)
    (character : t = .bpchar ∨ t = .varchar) : 4 < tm := by
  obtain rfl | rfl := character <;> exact (storable.resolve_left present).1

theorem numeric_large (storable : ModifiedType.numeric.Storable tm) (present : tm ≠ -1) :
    4 ≤ tm := by
  obtain ⟨p, s, low, -, -, -, rfl⟩ := storable.resolve_left present
  omega

/-- What PostgreSQL prints of a modifier is never empty. -/
theorem modifier_some (storable : t.Storable tm) (present : tm ≠ -1) : t.modifier tm ≠ "" := by
  cases t with
  | interval => exact intervalModifier_some storable present
  | bpchar => simp [ModifiedType.modifier, character_large storable present (.inl rfl)]
  | varchar => simp [ModifiedType.modifier, character_large storable present (.inr rfl)]
  | numeric => simp [ModifiedType.modifier, numeric_large storable present]
  | _ => simp [ModifiedType.modifier]

/-- Sixteen bits read as a scale what has its sign in the eleventh. -/
theorem scale_eq_iff (storable : ModifiedType.numeric.Storable tm) (present : tm ≠ -1) :
    low16 (tm - 4) = numericScale tm ↔ 0 ≤ numericScale tm := by
  obtain ⟨p, s, -, -, -, -, rfl⟩ := storable.resolve_left present
  unfold low16 numericScale
  simp only
  split <;> omega

/-- The code prints PostgreSQL's modifier. -/
theorem printed_eq_iff (storable : t.Storable tm) (present : tm ≠ -1) :
    t.printed tm = t.modifier tm ↔
      t ≠ .bit ∧ t ≠ .varbit ∧ t ≠ .interval ∧ (t = .numeric → 0 ≤ numericScale tm) := by
  have nonneg : 0 ≤ tm := by
    have := (storable_bounds storable).1
    omega
  have some_ := (modifier_some storable present).symm
  cases t with
  | bpchar =>
    simp [ModifiedType.printed, ModifiedType.modifier, nonneg,
      character_large storable present (.inl rfl)]
  | varchar =>
    simp [ModifiedType.printed, ModifiedType.modifier, nonneg,
      character_large storable present (.inr rfl)]
  | numeric =>
    rw [← scale_eq_iff storable present]
    simp [ModifiedType.printed, ModifiedType.modifier, numeric_large storable present]
  | bit => exact iff_of_false some_ (by simp)
  | varbit => exact iff_of_false some_ (by simp)
  | interval => exact iff_of_false some_ (by simp)
  | _ => simp [ModifiedType.printed, ModifiedType.modifier, precisionSuffix, nonneg]

theorem name_iff (storable : t.Storable tm) : t.base 0 ++ t.printed tm ++ t.tail = t.pgName tm ↔
    (tm = -1 → t ≠ .bpchar ∧ t ≠ .bit) ∧ (tm ≠ -1 → t.printed tm = t.modifier tm) := by
  have low := (storable_bounds storable).1
  unfold ModifiedType.pgName
  by_cases bare : tm = -1
  · subst bare
    simp [printed_bare, String.append_left_inj, base_bare]
  · have nonneg : 0 ≤ tm := by omega
    simp [bare, nonneg, base_present nonneg, String.append_left_inj, String.append_right_inj]

theorem array_iff (storable : t.Storable tm) : t.base 0 ++ t.tail ++ "[]" = t.pgName tm ++ "[]" ↔
    tm = -1 ∧ t ≠ .bpchar ∧ t ≠ .bit := by
  have low := (storable_bounds storable).1
  rw [String.append_left_inj]
  unfold ModifiedType.pgName
  by_cases bare : tm = -1
  · subst bare
    simp [String.append_left_inj, base_bare]
  · have nonneg : 0 ≤ tm := by omega
    have longer : t.base 0 ≠ t.base 0 ++ t.modifier tm := by
      intro same
      have lengths := congrArg String.length same
      exact modifier_some storable bare (by simpa using lengths)
    simp [bare, nonneg, base_present nonneg, String.append_left_inj, longer]

theorem paren_free (n : Int) : ∀ c ∈ (toString n).toList, c ≠ ')' := by
  have digits (n : Nat) : ∀ c ∈ n.repr.toList, c ≠ ')' := by
    rw [Nat.toList_repr]
    rintro c member rfl
    exact absurd (Nat.isDigit_of_mem_toDigits (by decide) (by decide) member) (by decide)
  rw [Int.toString_eq_repr, Int.repr_eq_if]
  split
  · exact digits _
  · intro c member
    rw [String.toList_append, List.mem_append] at member
    obtain minus | digit := member
    · obtain rfl : c = '-' := by simpa using minus
      decide
    · exact digits _ c digit

theorem printedModifier_none (name : String) (free : '(' ∉ name.toList) :
    printedModifier name = none := by
  have all : name.toList.dropWhile (· ≠ '(') = [] :=
    List.dropWhile_eq_nil_iff.mpr fun c member => by
      simpa using ne_of_mem_of_not_mem member free
  rw [printedModifier, all]

theorem printedModifier_some {before m : String} (after : String) (free : '(' ∉ before.toList)
    (inner : ∀ c ∈ m.toList, c ≠ ')') :
    printedModifier (before ++ ("(" ++ m ++ ")") ++ after) = some m := by
  have opens : (before ++ ("(" ++ m ++ ")") ++ after).toList =
      before.toList ++ '(' :: (m.toList ++ ')' :: after.toList) := by simp
  have free' : ∀ c ∈ before.toList, decide (c ≠ '(') = true := fun c member => by
    simpa using ne_of_mem_of_not_mem member free
  have inner' : ∀ c ∈ m.toList, decide (c ≠ ')') = true := fun c member => by
    simpa using inner c member
  unfold printedModifier
  rw [opens, List.dropWhile_append_of_pos free', List.dropWhile_cons_of_neg (by simp)]
  simp only
  rw [List.takeWhile_append_of_pos inner', List.takeWhile_cons_of_neg (by simp), List.append_nil,
    String.ofList_toList]

/-- Inside the parentheses is what the functions decode. -/
theorem printed_agrees (storable : t.Storable tm) (present : tm ≠ -1) (bit : t ≠ .bit)
    (varbit : t ≠ .varbit) (interval : t ≠ .interval) : ∃ m, t.printed tm = "(" ++ m ++ ")" ∧
      (∀ c ∈ m.toList, c ≠ ')') ∧ t.Agrees (some m) (pgHelpers t.oid tm) := by
  have nonneg : 0 ≤ tm := by
    have := (storable_bounds storable).1
    omega
  cases t with
  | bpchar =>
    refine ⟨toString (tm - 4), if_pos nonneg, paren_free _, ?_⟩
    simp [ModifiedType.Agrees, pgHelpers, pgHelperCharMaxLength, ModifiedType.oid, present]
    omega
  | varchar =>
    refine ⟨toString (tm - 4), if_pos nonneg, paren_free _, ?_⟩
    simp [ModifiedType.Agrees, pgHelpers, pgHelperCharMaxLength, ModifiedType.oid, present]
    omega
  | numeric =>
    refine ⟨toString (low16 (shift16 (tm - 4))) ++ "," ++ toString (low16 (tm - 4)), ?_, ?_,
      .inr ⟨_, _, ?_, ?_, rfl⟩⟩
    · simp [ModifiedType.printed, numeric_large storable present, String.append_assoc]
    · intro c member
      simp only [String.toList_append, List.mem_append] at member
      obtain (precision | comma) | scale := member
      · exact paren_free _ c precision
      · obtain rfl : c = ',' := by simpa using comma
        decide
      · exact paren_free _ c scale
    · simp [pgHelpers, ModifiedType.oid, present, OID_NUMERIC, OID_INT2, OID_INT4, OID_INT8]
    · simp [pgHelpers, ModifiedType.oid, present, OID_NUMERIC, OID_INT2, OID_INT4, OID_INT8]
  | bit => exact absurd rfl bit
  | varbit => exact absurd rfl varbit
  | interval => exact absurd rfl interval
  | _ =>
    refine ⟨toString tm, if_pos nonneg, paren_free _, tm, ?_, rfl⟩
    simp [pgHelpers, ModifiedType.oid, nonneg, OID_DATE, OID_TIME, OID_TIMETZ, OID_TIMESTAMP,
      OID_TIMESTAMPTZ]

theorem bare_agrees : t.Agrees none (pgHelpers t.oid (-1)) := by
  cases t with
  | bpchar => exact ⟨rfl, rfl⟩
  | varchar => exact ⟨rfl, rfl⟩
  | numeric => exact .inl ⟨rfl, rfl, rfl⟩
  | bit => rfl
  | varbit => rfl
  | _ => exact ⟨6, rfl, rfl⟩

/-! ## Which modifiers are decoded right -/

/-- A modifier that the functions' arithmetic can take, of a type whose modifier the name has. -/
structure TypmodPlain (typid tm : Int) : Prop where
  number : typid = OID_NUMERIC ∨ typid = OID_BPCHAR ∨ typid = OID_VARCHAR → ¬SubOverflows tm
  octets : typid = OID_BPCHAR ∨ typid = OID_VARCHAR → ¬OctetsOverflow tm
  own : ∀ t : ModifiedType, typid = t.oid → t.Storable tm →
    t ≠ .bit ∧ t ≠ .varbit ∧ (t = .bpchar → tm ≠ -1) ∧ (t = .interval → tm = -1) ∧
      (t = .numeric → tm = -1 ∨ 0 ≤ numericScale tm)
  array : ∀ t : ModifiedType, typid = t.arrayOid → t.Storable tm →
    tm = -1 ∧ t ≠ .bpchar ∧ t ≠ .bit

theorem ite_some_ne_none {p : Prop} [Decidable p] {name : String} {other : Option String}
    (rest : other ≠ none) : (if p then some name else other) ≠ none := by
  split
  · exact Option.some_ne_none _
  · exact rest

theorem sqlName_checked (typname : String) (high : tm < 2 ^ 63) :
    sqlNameForTypname typname (some tm) ≠ none := by
  have modified (t : ModifiedType) : sqlNameForTypname t.typname (some tm) ≠ none := by
    rw [sqlName_modified high]
    exact Option.some_ne_none _
  by_cases varchar : typname = "varchar"
  · exact varchar ▸ modified .varchar
  · by_cases bpchar : typname = "bpchar"
    · exact bpchar ▸ modified .bpchar
    · by_cases numeric : typname = "numeric"
      · exact numeric ▸ modified .numeric
      · simp only [sqlNameForTypname, varchar, bpchar, numeric, if_false]
        iterate 15 refine ite_some_ne_none ?_
        exact Option.some_ne_none _

theorem sqlName_minus_one (typname : String) :
    sqlNameForTypname typname (some (-1)) = sqlNameForTypname typname none := by
  simp [sqlNameForTypname, precisionSuffix]

theorem own_plain {types : TypeNames} (high : tm < 2 ^ 63) (right : TypmodRight types t.oid tm)
    (storable : t.Storable tm) : t ≠ .bit ∧ t ≠ .varbit ∧ (t = .bpchar → tm ≠ -1) ∧
      (t = .interval → tm = -1) ∧ (t = .numeric → tm = -1 ∨ 0 ≤ numericScale tm) := by
  have name := right.name t rfl storable
  rw [formatTypeName_own, sqlName_modified high, Option.some_inj, name_iff storable] at name
  by_cases bare : tm = -1
  · subst bare
    obtain ⟨notChar, notBit⟩ := name.1 rfl
    refine ⟨notBit, ?_, fun here => absurd here notChar, fun _ => rfl, fun _ => .inl rfl⟩
    rintro rfl
    exact absurd (right.decoded (.inl ⟨.varbit, .inl rfl, .inl rfl⟩)) (by decide)
  · obtain ⟨notBit, notVarbit, notInterval, scale⟩ :=
      (printed_eq_iff storable bare).mp (name.2 bare)
    exact ⟨notBit, notVarbit, fun _ => bare, fun here => absurd here notInterval,
      fun here => .inr (scale here)⟩

theorem own_right {types : TypeNames} (high : tm < 2 ^ 63) (plain : TypmodPlain t.oid tm)
    (storable : t.Storable tm) :
    formatTypeName t.oid (some tm) types.byOid = some (t.pgName tm) := by
  obtain ⟨notBit, notVarbit, unbounded, interval, scale⟩ := plain.own t rfl storable
  rw [formatTypeName_own, sqlName_modified high, Option.some_inj, name_iff storable]
  refine ⟨fun bare => ⟨fun here => unbounded here bare, notBit⟩, fun bare => ?_⟩
  exact (printed_eq_iff storable bare).mpr ⟨notBit, notVarbit, fun here => bare (interval here),
    fun here => (scale here).resolve_left bare⟩

theorem oid_inj {t' : ModifiedType} : t.oid = t'.oid ↔ t = t' := by
  cases t <;> cases t' <;> decide

theorem arrayOid_ne_oid (t t' : ModifiedType) : t.arrayOid ≠ t'.oid := by
  cases t <;> cases t' <;> decide

theorem decoded_right (plain : TypmodPlain typid tm) (stored : CanStore typid tm) :
    helpers typid tm = some (pgHelpers typid tm) := by
  obtain ⟨t, type, storable⟩ | ⟨other, rfl⟩ := stored
  · obtain ⟨low, high, short⟩ := storable_bounds storable
    obtain rfl | rfl := type
    · refine helpers_eq low high (fun character => short ?_) fun bits => ?_
      · exact character.imp oid_inj.mp oid_inj.mp
      · obtain ⟨notBit, notVarbit, -⟩ := plain.own t rfl storable
        obtain bits | bits := bits
        · exact absurd (oid_inj.mp bits) notBit
        · exact absurd (oid_inj.mp bits) notVarbit
    · refine helpers_eq low high (fun character => ?_) fun bits => ?_
      · obtain character | character := character
        · exact absurd character (arrayOid_ne_oid t .bpchar)
        · exact absurd character (arrayOid_ne_oid t .varchar)
      · obtain bits | bits := bits
        · exact absurd bits (arrayOid_ne_oid t .bit)
        · exact absurd bits (arrayOid_ne_oid t .varbit)
  · refine helpers_eq (by omega) (by omega) (fun _ => by omega) fun bits => ?_
    obtain bits | bits := bits
    · exact absurd bits (other .bit).1
    · exact absurd bits (other .varbit).1

theorem agrees_right {types : TypeNames} (high : tm < 2 ^ 63) (plain : TypmodPlain t.oid tm)
    (storable : t.Storable tm) {name : String} {h : PgHelpers}
    (named : formatTypeName t.oid (some tm) types.byOid = some name)
    (decoded : helpers t.oid tm = some h) : t.Agrees (printedModifier name) h := by
  obtain ⟨notBit, notVarbit, -, interval, -⟩ := plain.own t rfl storable
  rw [formatTypeName_own, sqlName_modified high] at named
  obtain rfl := Option.some.inj named
  rw [decoded_right plain (.inl ⟨t, .inl rfl, storable⟩)] at decoded
  obtain rfl := Option.some.inj decoded
  by_cases bare : tm = -1
  · subst bare
    have free : '(' ∉ (t.base 0 ++ "" ++ t.tail).toList := by cases t <;> decide
    rw [printed_bare, printedModifier_none _ free]
    exact bare_agrees
  · obtain ⟨m, inner, closed, agrees⟩ := printed_agrees storable bare notBit notVarbit
      fun here => bare (interval here)
    have free : '(' ∉ (t.base 0).toList := by cases t <;> decide
    rw [inner, printedModifier_some t.tail free closed]
    exact agrees

/-- Everything about a type modifier is right exactly if it is plain. -/
theorem typmod_right_iff (types : TypeNames) (typid : Int) (typmod : Int64) :
    TypmodRight types typid typmod.toInt ↔ TypmodPlain typid typmod.toInt := by
  have high : typmod.toInt < 2 ^ 63 := typmod.toInt_lt
  generalize typmod.toInt = tm at high
  constructor
  · intro right
    have checked := right.helpers_checked
    rw [ne_eq, helpers_none high] at checked
    refine ⟨fun type low => checked (.inl ⟨type, low⟩),
      fun type wide => checked (.inr ⟨type, wide⟩), ?_, ?_⟩
    · rintro t rfl storable
      exact own_plain high right storable
    · rintro t rfl storable
      have name := right.array t rfl storable
      rwa [formatTypeName_array, Option.some_inj, array_iff storable] at name
  · intro plain
    refine ⟨?_, ?_, ?_, ?_, ?_, decoded_right plain, ?_⟩
    · unfold formatTypeName
      cases types.byOid typid with
      | none => simp
      | some typname =>
        simp only
        split
        · rw [ne_eq, Option.map_eq_none_iff, ← sqlName_minus_one]
          exact sqlName_checked _ (by decide)
        · exact sqlName_checked typname high
    · rw [ne_eq, helpers_none high]
      rintro (⟨type, low⟩ | ⟨type, wide⟩)
      · exact plain.number type low
      · exact plain.octets type wide
    · rintro t rfl storable
      exact own_right high plain storable
    · rintro t rfl storable
      rw [formatTypeName_array, Option.some_inj, array_iff storable]
      exact plain.array t rfl storable
    · rintro - rfl
      simp only [formatTypeName, sqlName_minus_one]
    · rintro t rfl storable name h named decoded
      exact agrees_right high plain storable named decoded

def modifiedTypes : List ModifiedType :=
  [.bpchar, .varchar, .numeric, .bit, .varbit, .time, .timetz, .timestamp, .timestamptz, .interval]

def modifiedNames (oid : Int) : Option String :=
  modifiedTypes.findSome? fun t =>
    if t.oid = oid then some t.typname
    else if t.arrayOid = oid then some (String.ofList ('_' :: t.typname.toList))
    else none

theorem modifiedNames_own (t : ModifiedType) : modifiedNames t.oid = some t.typname := by
  cases t <;> decide

theorem modifiedNames_array (t : ModifiedType) :
    modifiedNames t.arrayOid = some (String.ofList ('_' :: t.typname.toList)) := by
  cases t <;> decide

def modifiedTypeNames : TypeNames := ⟨modifiedNames, modifiedNames_own, modifiedNames_array⟩

/-- The length of a bit string is not printed. -/
theorem bit_length_lost : ¬TypmodRight modifiedTypeNames OID_BIT 3 := by
  intro right
  have name := right.name .bit rfl (.inr (by decide))
  exact absurd name (by decide)

example : formatTypeName OID_NUMERIC (some (5 * 65536 + 2 + 4)) modifiedNames =
    some "numeric(5,2)" := by decide

end PgCatalog.UserFunctions
