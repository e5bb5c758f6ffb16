import PgCatalog.Server.Reading

/-! Printing a timestamp and reading it back: the counts whose text a client reads as the
same instant, and that no other count prints like them. -/
namespace PgCatalog.Server

open Library

namespace TimeUnit

def perSecond : TimeUnit → Nat
  | .second => 1
  | .millisecond => 1000
  | .microsecond => 1000000
  | .nanosecond => 1000000000

def nanos : TimeUnit → Nat
  | .second => 1000000000
  | .millisecond => 1000000
  | .microsecond => 1000
  | .nanosecond => 1

def digits : TimeUnit → Nat
  | .second => 0
  | .millisecond => 3
  | .microsecond => 6
  | .nanosecond => 9

theorem perSecond_pos (unit : TimeUnit) : 0 < unit.perSecond := by cases unit <;> decide

theorem nanos_eq (unit : TimeUnit) : unit.nanos = 10 ^ (9 - unit.digits) := by
  cases unit <;> rfl

theorem perSecond_eq (unit : TimeUnit) : unit.perSecond = 10 ^ unit.digits := by
  cases unit <;> rfl

theorem digits_zero (unit : TimeUnit) : unit.digits = 0 ↔ unit = .second := by
  cases unit <;> decide

end TimeUnit

/-- The second a count lies in, from the Unix epoch, and the units after it. -/
def secondOf (unit : TimeUnit) (count : Int) : Int := count / unit.perSecond

def subsecondOf (unit : TimeUnit) (count : Int) : Nat := (count % unit.perSecond).toNat

theorem second_subsecond (unit : TimeUnit) (count : Int) :
    secondOf unit count * unit.perSecond + subsecondOf unit count = count := by
  have pos : (unit.perSecond : Int) ≠ 0 := by
    have := unit.perSecond_pos
    omega
  have nonneg := Int.emod_nonneg count pos
  have split := Int.mul_ediv_add_emod count unit.perSecond
  unfold secondOf subsecondOf
  rw [Int.toNat_of_nonneg nonneg, mul_comm]
  exact split

theorem subsecond_lt (unit : TimeUnit) (count : Int) :
    subsecondOf unit count < unit.perSecond := by
  have pos : (0 : Int) < unit.perSecond := by
    have := unit.perSecond_pos
    omega
  have below := Int.emod_lt_of_pos count pos
  have nonneg := Int.emod_nonneg count (ne_of_gt pos)
  unfold subsecondOf
  omega

/-- The date and time a count stands for. -/
def dateTimeOf (unit : TimeUnit) (count : Int) : DateTime :=
  ⟨Date.ofDay (secondOf unit count / 86400), (secondOf unit count % 86400).toNat,
    subsecondOf unit count * unit.nanos⟩

/-- There is a date for a count. -/
def Representable (unit : TimeUnit) (count : Int) : Prop :=
  -262143 ≤ (dateTimeOf unit count).date.year ∧ (dateTimeOf unit count).date.year ≤ 262142

instance (unit : TimeUnit) (count : Int) : Decidable (Representable unit count) :=
  inferInstanceAs (Decidable (_ ∧ _))

theorem formatTimestamp_some (unit : TimeUnit) (n : Int64) :
    formatTimestampValueAt unit (some n) =
      if Representable unit n.toInt then
        some ((dateTimeOf unit n.toInt).format unit.digits)
      else none := by
  have printed : formatTimestampValueAt unit (some n) =
      (DateTime.fromTimestamp (secondOf unit n.toInt)
        (subsecondOf unit n.toInt * unit.nanos)).map (·.format unit.digits) := by
    cases unit with
    | second =>
      have whole : secondOf .second n.toInt = n.toInt := Int.ediv_one _
      have rest : subsecondOf .second n.toInt = 0 := by
        have none_ : n.toInt % (1 : Int) = 0 := Int.emod_one _
        exact congrArg Int.toNat none_
      rw [whole, rest, Nat.zero_mul]
      rfl
    | millisecond => rfl
    | microsecond => rfl
    | nanosecond => rfl
  rw [printed]
  unfold DateTime.fromTimestamp
  by_cases dated : Representable unit n.toInt
  · rw [if_pos dated]
    exact congrArg (Option.map _) (if_pos dated)
  · rw [if_neg dated]
    exact congrArg (Option.map _) (if_neg dated)

@[simp] theorem readMark_self (mark : Char) (rest : List Char) :
    readMark mark (mark :: rest) = some rest := if_pos rfl

theorem readTwo_fixedDigits {n : Nat} (small : n < 100) (rest : List Char) :
    readTwo (fixedDigits 2 n ++ rest) = some (n, rest) := by
  have digits := fixedDigits_isDigit 2 n
  have number : digitsNumber (fixedDigits 2 n) = n := digitsNumber_fixedDigits small
  have two : fixedDigits 2 n = [digitChar (n / 10 % 10), digitChar (n % 10)] := rfl
  rw [two] at digits number ⊢
  have tens := digits _ List.mem_cons_self
  have ones := digits _ (List.mem_cons_of_mem _ List.mem_cons_self)
  simp only [List.cons_append, List.nil_append, readTwo, tens, ones, Bool.and_self, if_true, number]

/-- The text after the year, in one piece. -/
theorem afterYear_append (t : DateTime) (rest : List Char) :
    t.afterYear ++ rest = '-' :: (fixedDigits 2 t.date.month ++ '-' :: (fixedDigits 2 t.date.day ++
      ' ' :: (fixedDigits 2 (t.secondOfDay / 3600) ++ ':' ::
        (fixedDigits 2 (t.secondOfDay / 60 % 60) ++ ':' ::
          (fixedDigits 2 (t.secondOfDay % 60) ++ rest))))) := by
  simp only [DateTime.afterYear, List.append_assoc, List.cons_append]

/-- What is read of a time that prints with four digits for its year. -/
theorem readFields_format {t : DateTime} {digits : Nat} (low : 0 ≤ t.date.year)
    (high : t.date.year ≤ 9999) (month : t.date.month < 100) (day : t.date.day < 100)
    (second : t.secondOfDay < 86400) :
    readFields (yearText t.date.year ++ t.afterYear ++ t.fraction digits) =
      some ⟨t.date.year.toNat, t.date.month, t.date.day, t.secondOfDay / 3600,
        t.secondOfDay / 60 % 60, t.secondOfDay % 60,
        fixedDigits digits (t.nanos / 10 ^ (9 - digits))⟩ := by
  have year : yearText t.date.year = fixedDigits 4 t.date.year.toNat := if_pos ⟨low, high⟩
  have allDigits := fixedDigits_isDigit 4 t.date.year.toNat
  have dash : ('-').isDigit = false := by decide
  have number : digitsNumber (fixedDigits 4 t.date.year.toNat) = t.date.year.toNat :=
    digitsNumber_fixedDigits (by omega)
  have fractionDigits := fixedDigits_isDigit digits (t.nanos / 10 ^ (9 - digits))
  have rest : readFraction (t.fraction digits) =
      some (fixedDigits digits (t.nanos / 10 ^ (9 - digits))) := by
    unfold DateTime.fraction
    by_cases none_ : digits = 0
    · rw [none_]
      rfl
    · rw [if_neg none_]
      exact readMark_self '.' _
  rw [List.append_assoc, afterYear_append, year]
  unfold readFields
  rw [List.takeWhile_append_of_pos allDigits, List.dropWhile_append_of_pos allDigits,
    List.takeWhile_cons_of_neg (by rw [dash]; decide),
    List.dropWhile_cons_of_neg (by rw [dash]; decide), List.append_nil]
  have long : ¬(fixedDigits 4 t.date.year.toNat).length < 4 := by
    rw [fixedDigits_length]
    decide
  dsimp only
  rw [if_neg long]
  simp only [readMark_self, Option.pure_def, Option.bind_eq_bind, Option.bind_some]
  rw [readTwo_fixedDigits month]
  simp only [readMark_self, Option.bind_some]
  rw [readTwo_fixedDigits day]
  simp only [readMark_self, Option.bind_some]
  rw [readTwo_fixedDigits (by omega)]
  simp only [readMark_self, Option.bind_some]
  rw [readTwo_fixedDigits (by omega)]
  simp only [readMark_self, Option.bind_some]
  rw [readTwo_fixedDigits (by omega)]
  simp only [Option.bind_some]
  rw [rest]
  simp only [Option.bind_some]
  rw [if_pos (List.all_eq_true.mpr fractionDigits), number]

/-- Nothing is read where a sign opens the text. -/
theorem readFields_signed {year : Int} (outside : ¬(0 ≤ year ∧ year ≤ 9999)) (rest : List Char) :
    readFields (yearText year ++ rest) = none := by
  have sign : ∃ mark digits, yearText year = mark :: digits ∧ mark.isDigit = false := by
    unfold yearText
    rw [if_neg outside]
    dsimp only
    split
    · exact ⟨_, _, rfl, by decide⟩
    · exact ⟨_, _, rfl, by decide⟩
  obtain ⟨mark, digits, text, notDigit⟩ := sign
  rw [text, List.cons_append]
  unfold readFields
  rw [List.takeWhile_cons_of_neg (by rw [notDigit]; decide)]
  rfl

/-- The sign that opens a year, if one does. -/
def yearSign (year : Int) : List Char :=
  if 0 ≤ year ∧ year ≤ 9999 then [] else if year < 0 then ['-'] else ['+']

theorem yearSign_cases (year : Int) :
    yearSign year = [] ∨ yearSign year = ['-'] ∨ yearSign year = ['+'] := by
  unfold yearSign
  repeat' split
  all_goals simp

theorem yearSign_minus (year : Int) : yearSign year = ['-'] ↔ year < 0 := by
  unfold yearSign
  split
  · exact iff_of_false (by simp) (by omega)
  · split
    · next negative => exact iff_of_true rfl negative
    · next positive => exact iff_of_false (by decide) positive

theorem yearText_parts (year : Int) : ∃ digits, yearText year = yearSign year ++ digits ∧
    (∀ c ∈ digits, c.isDigit = true) ∧ digits ≠ [] ∧ digitsNumber digits = year.natAbs := by
  unfold yearText yearSign
  by_cases plain : 0 ≤ year ∧ year ≤ 9999
  · have number : digitsNumber (fixedDigits 4 year.toNat) = year.toNat :=
      digitsNumber_fixedDigits (by omega)
    rw [if_pos plain, if_pos plain]
    refine ⟨fixedDigits 4 year.toNat, rfl, fixedDigits_isDigit _ _, ?_, by omega⟩
    apply List.ne_nil_of_length_pos
    simp
  · rw [if_neg plain, if_neg plain]
    refine ⟨List.replicate (4 - (Nat.toDigits 10 year.natAbs).length) '0' ++
      Nat.toDigits 10 year.natAbs, ?_, fun c member => ?_, ?_, ?_⟩
    · split <;> rfl
    · obtain zero | digit := List.mem_append.mp member
      · obtain rfl := List.eq_of_mem_replicate zero
        decide
      · exact Nat.isDigit_of_mem_toDigits (by decide) (by decide) digit
    · simp
    · have number : digitsNumber (List.replicate (4 - (Nat.toDigits 10 year.natAbs).length) '0' ++
          Nat.toDigits 10 year.natAbs) = Nat.ofDigitChars 10 (List.replicate
            (4 - (Nat.toDigits 10 year.natAbs).length) '0' ++ Nat.toDigits 10 year.natAbs) 0 := rfl
      rw [number, Nat.ofDigitChars_append, Nat.ofDigitChars_replicate_zero, Nat.mul_zero,
        Nat.ofDigitChars_ten_toDigits]

theorem digits_before_mark {first second rest rest' : List Char}
    (digits : ∀ c ∈ first, c.isDigit = true) (digits' : ∀ c ∈ second, c.isDigit = true)
    (same : first ++ '-' :: rest = second ++ '-' :: rest') : first = second ∧ rest = rest' := by
  have mark : ¬('-').isDigit = true := by decide
  have before := congrArg (List.takeWhile Char.isDigit) same
  have after := congrArg (List.dropWhile Char.isDigit) same
  rw [List.takeWhile_append_of_pos digits, List.takeWhile_append_of_pos digits',
    List.takeWhile_cons_of_neg mark, List.takeWhile_cons_of_neg mark, List.append_nil,
    List.append_nil] at before
  rw [List.dropWhile_append_of_pos digits, List.dropWhile_append_of_pos digits',
    List.dropWhile_cons_of_neg mark, List.dropWhile_cons_of_neg mark] at after
  exact ⟨before, (List.cons.inj after).2⟩

/-- The year and the text after it are found in a text: only a year of four digits opens with
one. -/
theorem yearText_inj {year other : Int} {rest rest' : List Char}
    (same : yearText year ++ '-' :: rest = yearText other ++ '-' :: rest') :
    year = other ∧ rest = rest' := by
  obtain ⟨digits, text, all, some_, number⟩ := yearText_parts year
  obtain ⟨digits', text', all', some', number'⟩ := yearText_parts other
  rw [text, text', List.append_assoc, List.append_assoc] at same
  obtain ⟨first, digits, rfl⟩ := List.exists_cons_of_ne_nil some_
  obtain ⟨first', digits', rfl⟩ := List.exists_cons_of_ne_nil some'
  have opens : first.isDigit = true := all _ List.mem_cons_self
  have opens' : first'.isDigit = true := all' _ List.mem_cons_self
  have noMark : ¬('-').isDigit = true ∧ ¬('+').isDigit = true := by decide
  have signs : yearSign year = yearSign other := by
    obtain sign | sign | sign := yearSign_cases year <;>
      obtain sign' | sign' | sign' := yearSign_cases other <;>
      rw [sign, sign'] at same ⊢ <;> obtain ⟨here, -⟩ := List.cons.inj same <;>
      first | rfl | exact absurd here (by decide) | (subst here; simp_all)
  have minus : year < 0 ↔ other < 0 := by rw [← yearSign_minus, signs, yearSign_minus]
  rw [signs, List.append_cancel_left_eq] at same
  obtain ⟨alike, after⟩ := digits_before_mark all all' same
  have size : year.natAbs = other.natAbs := by rw [← number, ← number', alike]
  exact ⟨by omega, after⟩

section
variable {unit : TimeUnit} {count other : Int}

theorem dateTimeOf_ranges :
    ((dateTimeOf unit count).date.month < 100 ∧ (dateTimeOf unit count).date.day < 100) ∧
      (dateTimeOf unit count).secondOfDay < 86400 := by
  have ranges := ofDay_ranges (secondOf unit count / 86400)
  have below := Int.emod_lt_of_pos (secondOf unit count) (by decide : (0 : Int) < 86400)
  have nonneg := Int.emod_nonneg (secondOf unit count) (by decide : (86400 : Int) ≠ 0)
  refine ⟨⟨?_, ?_⟩, ?_⟩
  · exact lt_of_le_of_lt ranges.1.2 (by decide)
  · exact lt_of_le_of_lt ranges.2.1.2 (by decide)
  · change (secondOf unit count % 86400).toNat < 86400
    omega

/-- The digits printed after the second are those of the units after it. -/
theorem printed_subsecond :
    (dateTimeOf unit count).nanos / 10 ^ (9 - unit.digits) = subsecondOf unit count := by
  rw [dateTimeOf, ← unit.nanos_eq]
  have pos : 0 < unit.nanos := by cases unit <;> decide
  exact Nat.mul_div_cancel _ pos

/-- The year of a count prints with four digits. -/
def PlainYear (unit : TimeUnit) (count : Int) : Prop :=
  0 ≤ (dateTimeOf unit count).date.year ∧ (dateTimeOf unit count).date.year ≤ 9999

theorem readFields_plain (plain : PlainYear unit count) :
    readFields ((dateTimeOf unit count).format unit.digits).toList =
      some ⟨(dateTimeOf unit count).date.year.toNat, (dateTimeOf unit count).date.month,
        (dateTimeOf unit count).date.day, (dateTimeOf unit count).secondOfDay / 3600,
        (dateTimeOf unit count).secondOfDay / 60 % 60, (dateTimeOf unit count).secondOfDay % 60,
        fixedDigits unit.digits (subsecondOf unit count)⟩ := by
  obtain ⟨⟨month, day⟩, second⟩ := @dateTimeOf_ranges unit count
  rw [DateTime.format, String.toList_ofList,
    readFields_format plain.1 plain.2 month day second, printed_subsecond]

theorem readFields_unplain (unplain : ¬PlainYear unit count) :
    readFields ((dateTimeOf unit count).format unit.digits).toList = none := by
  rw [DateTime.format, String.toList_ofList, List.append_assoc]
  exact readFields_signed unplain _

/-- The count of a date, a second of its day and the units after it. -/
theorem count_of_fields :
    ((dateTimeOf unit count).date.toDay * 86400 + (dateTimeOf unit count).secondOfDay) *
      unit.perSecond + subsecondOf unit count = count := by
  have whole := second_subsecond unit count
  have days := Int.mul_ediv_add_emod (secondOf unit count) 86400
  have nonneg := Int.emod_nonneg (secondOf unit count) (by decide : (86400 : Int) ≠ 0)
  have second : (dateTimeOf unit count).date.toDay * 86400 +
      ((dateTimeOf unit count).secondOfDay : Int) = secondOf unit count := by
    change (Date.ofDay (secondOf unit count / 86400)).toDay * 86400 +
      ((secondOf unit count % 86400).toNat : Int) = secondOf unit count
    rw [toDay_ofDay]
    omega
  rw [second, whole]

theorem subsecond_fits : subsecondOf unit count < 10 ^ unit.digits := by
  rw [← unit.perSecond_eq]
  exact subsecond_lt unit count

/-- What follows the year says the month, the day and the time, in any year. -/
theorem readFields_afterYear : readFields (yearText 2000 ++ (dateTimeOf unit count).afterYear ++
    (dateTimeOf unit count).fraction unit.digits) =
      some ⟨2000, (dateTimeOf unit count).date.month, (dateTimeOf unit count).date.day,
        (dateTimeOf unit count).secondOfDay / 3600, (dateTimeOf unit count).secondOfDay / 60 % 60,
        (dateTimeOf unit count).secondOfDay % 60,
        fixedDigits unit.digits (subsecondOf unit count)⟩ := by
  obtain ⟨⟨month, day⟩, second⟩ := @dateTimeOf_ranges unit count
  let plain : DateTime :=
    { dateTimeOf unit count with date := { (dateTimeOf unit count).date with year := 2000 } }
  have low : 0 ≤ plain.date.year := by change (0 : Int) ≤ 2000; decide
  have high : plain.date.year ≤ 9999 := by change (2000 : Int) ≤ 9999; decide
  have read := @readFields_format plain unit.digits low high month day second
  rw [← printed_subsecond]
  exact read

/-- No two counts print alike, whatever their years. -/
theorem format_injective (same : (dateTimeOf unit other).format unit.digits =
    (dateTimeOf unit count).format unit.digits) : other = count := by
  unfold DateTime.format at same
  rw [String.ofList_inj, List.append_assoc, List.append_assoc] at same
  obtain ⟨years, after⟩ := yearText_inj same
  have later : (dateTimeOf unit other).afterYear ++ (dateTimeOf unit other).fraction unit.digits =
      (dateTimeOf unit count).afterYear ++ (dateTimeOf unit count).fraction unit.digits :=
    congrArg ('-' :: ·) after
  have read := @readFields_afterYear unit other
  rw [List.append_assoc, later, ← List.append_assoc, readFields_afterYear] at read
  injection read with read
  injection read with _ month day hour minute second fraction
  have date : (dateTimeOf unit count).date = (dateTimeOf unit other).date :=
    Date.ext years.symm month day
  have time : (dateTimeOf unit count).secondOfDay = (dateTimeOf unit other).secondOfDay := by
    omega
  have subsecond : subsecondOf unit count = subsecondOf unit other := by
    have back := congrArg digitsNumber fraction
    rwa [digitsNumber_fixedDigits subsecond_fits, digitsNumber_fixedDigits subsecond_fits] at back
  rw [← @count_of_fields unit other, ← date, ← time, ← subsecond, count_of_fields]

theorem fractionMicros_fixedDigits {digits n : Nat} (fits : n < 10 ^ digits) :
    fractionMicros (fixedDigits digits n) = (n * 10 ^ 6 + 10 ^ digits / 2) / 10 ^ digits := by
  rw [fractionMicros, digitsNumber_fixedDigits fits, fixedDigits_length]

/-- What is read of a plain year's text: its second and the microseconds in it. -/
theorem readTimestamp_plain (plain : PlainYear unit count)
    (positive : 1 ≤ (dateTimeOf unit count).date.year) :
    readTimestamp ((dateTimeOf unit count).format unit.digits).toList =
      some ((1000000 * secondOf unit count +
        ((subsecondOf unit count * 10 ^ 6 + 10 ^ unit.digits / 2) / 10 ^ unit.digits : Nat)) *
          1000) := by
  have ranges := ofDay_ranges (secondOf unit count / 86400)
  obtain ⟨_, second⟩ := @dateTimeOf_ranges unit count
  have valid : 1 ≤ (dateTimeOf unit count).date.year.toNat ∧
      1 ≤ (dateTimeOf unit count).date.month ∧ (dateTimeOf unit count).date.month ≤ 12 ∧
      1 ≤ (dateTimeOf unit count).date.day ∧ (dateTimeOf unit count).date.day ≤ 31 ∧
      (dateTimeOf unit count).secondOfDay / 3600 < 24 ∧
      (dateTimeOf unit count).secondOfDay / 60 % 60 < 60 ∧
      (dateTimeOf unit count).secondOfDay % 60 < 60 :=
    ⟨by omega, ranges.1.1, ranges.1.2, ranges.2.1.1, ranges.2.1.2, by omega, by omega, by omega⟩
  have date : (⟨((dateTimeOf unit count).date.year.toNat : Int), (dateTimeOf unit count).date.month,
      (dateTimeOf unit count).date.day⟩ : Date) = (dateTimeOf unit count).date :=
    Date.ext (Int.toNat_of_nonneg plain.1) rfl rfl
  have days := Int.mul_ediv_add_emod (secondOf unit count) 86400
  have nonneg := Int.emod_nonneg (secondOf unit count) (by decide : (86400 : Int) ≠ 0)
  have clock : 3600 * ((dateTimeOf unit count).secondOfDay / 3600) +
      60 * ((dateTimeOf unit count).secondOfDay / 60 % 60) +
      (dateTimeOf unit count).secondOfDay % 60 = (dateTimeOf unit count).secondOfDay := by omega
  have whole : 86400 * (dateTimeOf unit count).date.toDay +
      ((dateTimeOf unit count).secondOfDay : Int) = secondOf unit count := by
    change 86400 * (Date.ofDay (secondOf unit count / 86400)).toDay +
      ((secondOf unit count % 86400).toNat : Int) = secondOf unit count
    rw [toDay_ofDay]
    omega
  unfold readTimestamp
  rw [readFields_plain plain]
  simp only [Option.bind_eq_bind, Option.bind_some]
  rw [if_pos valid, date, clock, whole, fractionMicros_fixedDigits subsecond_fits]
  rfl

/-- A count reads back as the same instant exactly if its year has four digits and is not
zero, and it is a whole count of microseconds. -/
theorem readTimestamp_iff :
    readTimestamp ((dateTimeOf unit count).format unit.digits).toList =
        some (count * unit.nanos) ↔
      1 ≤ (dateTimeOf unit count).date.year ∧ (dateTimeOf unit count).date.year ≤ 9999 ∧
        (unit = .nanosecond → count % 1000 = 0) := by
  by_cases plain : PlainYear unit count
  · by_cases positive : 1 ≤ (dateTimeOf unit count).date.year
    · rw [readTimestamp_plain plain positive, Option.some_inj]
      have whole := second_subsecond unit count
      have small := subsecond_lt unit count
      have micros : ((1000000 * secondOf unit count +
          ((subsecondOf unit count * 10 ^ 6 + 10 ^ unit.digits / 2) / 10 ^ unit.digits : Nat)) *
            1000 = count * unit.nanos) ↔ (unit = .nanosecond → count % 1000 = 0) := by
        generalize secondOf unit count = second at whole
        generalize subsecondOf unit count = subsecond at whole small
        cases unit <;> simp only [TimeUnit.perSecond, TimeUnit.nanos, TimeUnit.digits,
          reduceCtorEq, false_imp_iff, iff_true, true_imp_iff] at whole small ⊢ <;> omega
      rw [micros]
      exact ⟨fun divides => ⟨positive, plain.2, divides⟩, fun all => all.2.2⟩
    · refine iff_of_false ?_ fun all => positive all.1
      unfold readTimestamp
      rw [readFields_plain plain]
      simp only [Option.bind_eq_bind, Option.bind_some]
      rw [if_neg fun valid => positive (by omega)]
      exact nofun
  · refine iff_of_false ?_ fun all => plain ⟨by omega, all.2.1⟩
    unfold readTimestamp
    rw [readFields_unplain plain]
    exact nofun

end

end PgCatalog.Server
