import Mathlib.Algebra.Group.Nat.Defs
import Mathlib.Algebra.Order.Group.Int
import Mathlib.Data.List.Basic

/-! Numbers in a fixed count of digits, and the proleptic Gregorian calendar: the date of a
day counted from the first of January 1970, and the day of a date. -/
namespace PgCatalog.Library

def digitChar (n : Nat) : Char := Char.ofNat (48 + n)

/-- The last `width` digits of a number. -/
def fixedDigits : Nat → Nat → List Char
  | 0, _ => []
  | width + 1, n => fixedDigits width (n / 10) ++ [digitChar (n % 10)]

def digitsNumber (digits : List Char) : Nat :=
  digits.foldl (fun n c => 10 * n + (c.toNat - 48)) 0

theorem digitChar_toNat {n : Nat} (small : n < 10) : (digitChar n).toNat = 48 + n := by
  have each : ∀ n < 10, (digitChar n).toNat = 48 + n := by decide
  exact each n small

@[simp] theorem fixedDigits_length (width n : Nat) : (fixedDigits width n).length = width := by
  induction width generalizing n with
  | zero => rfl
  | succ width ih => rw [fixedDigits, List.length_append, ih, List.length_singleton]

theorem fixedDigits_isDigit (width n : Nat) : ∀ c ∈ fixedDigits width n, c.isDigit = true := by
  induction width generalizing n with
  | zero => exact nofun
  | succ width ih =>
    intro c member
    obtain earlier | last := List.mem_append.mp member
    · exact ih _ c earlier
    · obtain rfl := List.mem_singleton.mp last
      have each : ∀ n < 10, (digitChar n).isDigit = true := by decide
      exact each _ (Nat.mod_lt _ (by decide))

/-- A number that fits is read back from its digits. -/
theorem digitsNumber_fixedDigits {width n : Nat} (fits : n < 10 ^ width) :
    digitsNumber (fixedDigits width n) = n := by
  induction width generalizing n with
  | zero =>
    rw [Nat.pow_zero] at fits
    obtain rfl : n = 0 := by omega
    rfl
  | succ width ih =>
    have front : n / 10 < 10 ^ width := by
      rw [Nat.pow_succ] at fits
      omega
    have last := digitChar_toNat (Nat.mod_lt n (by decide : 0 < 10))
    rw [fixedDigits, digitsNumber, List.foldl_append]
    have earlier := ih front
    rw [digitsNumber] at earlier
    rw [earlier, List.foldl_cons, List.foldl_nil, last]
    omega

@[ext] structure Date where
  year : Int
  month : Nat
  day : Nat
  deriving DecidableEq, Repr

/-- The years run from March, so that the leap day ends one; the date is found by the
cycles of 400, 100, 4 and single years. -/
def Date.ofDay (z : Int) : Date :=
  let era := (z + 719468) / 146097
  let dayOfEra := ((z + 719468) % 146097).toNat
  let century := min (dayOfEra / 36524) 3
  let dayOfCentury := dayOfEra - 36524 * century
  let quad := dayOfCentury / 1461
  let dayOfQuad := dayOfCentury % 1461
  let yearOfQuad := min (dayOfQuad / 365) 3
  let dayOfYear := dayOfQuad - 365 * yearOfQuad
  let monthIndex := (5 * dayOfYear + 2) / 153
  let month := if monthIndex < 10 then monthIndex + 3 else monthIndex - 9
  { year := 400 * era + (100 * century + 4 * quad + yearOfQuad : Nat) + if month ≤ 2 then 1 else 0
    month
    day := dayOfYear - (153 * monthIndex + 2) / 5 + 1 }

def Date.toDay (date : Date) : Int :=
  let year := if date.month ≤ 2 then date.year - 1 else date.year
  let yearOfEra := (year % 400).toNat
  let monthIndex := if date.month ≤ 2 then date.month + 9 else date.month - 3
  let dayOfYear := (153 * monthIndex + 2) / 5 + date.day - 1
  146097 * (year / 400) + (365 * yearOfEra + yearOfEra / 4 - yearOfEra / 100 + dayOfYear : Nat) -
    719468

/-- The cycles of a 400-year era: a year of it and a day of that year. -/
theorem cycles (dayOfEra : Nat) (inside : dayOfEra < 146097) :
    ∃ century quad yearOfQuad dayOfYear : Nat,
      century = min (dayOfEra / 36524) 3 ∧ quad = (dayOfEra - 36524 * century) / 1461 ∧
      yearOfQuad = min ((dayOfEra - 36524 * century) % 1461 / 365) 3 ∧
      dayOfYear = (dayOfEra - 36524 * century) % 1461 - 365 * yearOfQuad ∧
      century ≤ 3 ∧ quad ≤ 24 ∧ yearOfQuad ≤ 3 ∧ dayOfYear ≤ 365 ∧
      dayOfEra = 36524 * century + 1461 * quad + 365 * yearOfQuad + dayOfYear := by
  refine ⟨_, _, _, _, rfl, rfl, rfl, rfl, ?_⟩
  omega

/-- A month, from March on, and a day of it are found again. -/
theorem months (dayOfYear : Nat) (inside : dayOfYear ≤ 365) :
    ∃ monthIndex : Nat, monthIndex = (5 * dayOfYear + 2) / 153 ∧ monthIndex ≤ 11 ∧
      (153 * monthIndex + 2) / 5 ≤ dayOfYear ∧
      dayOfYear - (153 * monthIndex + 2) / 5 ≤ 30 := by
  refine ⟨_, rfl, ?_⟩
  omega

/-- The day of a date given by its era, the year in it from March on, the month from
March on and the day of that month. -/
theorem toDay_march (era : Int) {yearOfEra monthIndex : Nat} (day : Nat)
    (years : yearOfEra < 400) (months : monthIndex ≤ 11) :
    Date.toDay
        { year := 400 * era + (yearOfEra : Nat) +
            if (if monthIndex < 10 then monthIndex + 3 else monthIndex - 9) ≤ 2 then 1 else 0
          month := if monthIndex < 10 then monthIndex + 3 else monthIndex - 9
          day } =
      146097 * era + (365 * yearOfEra + yearOfEra / 4 - yearOfEra / 100 +
        ((153 * monthIndex + 2) / 5 + day - 1) : Nat) - 719468 := by
  have quotient : (400 * era + yearOfEra) / 400 = era := by omega
  have remainder : ((400 * era + yearOfEra) % 400).toNat = yearOfEra := by omega
  unfold Date.toDay
  dsimp only
  by_cases early : monthIndex < 10
  · have spring : ¬monthIndex + 3 ≤ 2 := by omega
    have index : monthIndex + 3 - 3 = monthIndex := by omega
    simp only [if_pos early, if_neg spring, add_zero, quotient, remainder, index]
  · have winter : monthIndex - 9 ≤ 2 := by omega
    have index : monthIndex - 9 + 9 = monthIndex := by omega
    have year : 400 * era + (yearOfEra : Int) + 1 - 1 = 400 * era + yearOfEra := by omega
    simp only [if_neg early, if_pos winter, year, quotient, remainder, index]

/-- The day of a day's date is that day. -/
theorem toDay_ofDay (z : Int) : (Date.ofDay z).toDay = z := by
  have nonneg : 0 ≤ (z + 719468) % 146097 := Int.emod_nonneg _ (by decide)
  have below : (z + 719468) % 146097 < 146097 := Int.emod_lt_of_pos _ (by decide)
  have split := Int.mul_ediv_add_emod (z + 719468) 146097
  obtain ⟨century, quad, yearOfQuad, dayOfYear, centuries, quads, years, days, few, many, some_,
    short, sum⟩ := cycles ((z + 719468) % 146097).toNat (by omega)
  obtain ⟨monthIndex, months_, last, starts, ends⟩ := months dayOfYear short
  unfold Date.ofDay
  dsimp only
  rw [← centuries, ← quads, ← years, ← days, ← months_,
    toDay_march _ _ (by omega : 100 * century + 4 * quad + yearOfQuad < 400) last]
  have fours : (100 * century + 4 * quad + yearOfQuad) / 4 = 25 * century + quad := by omega
  have hundreds : (100 * century + 4 * quad + yearOfQuad) / 100 = century := by omega
  rw [fours, hundreds]
  generalize (z + 719468) / 146097 = era at split ⊢
  omega

/-- Months are counted from 1 to 12, days from 1 to 31, and an era has its 400 years. -/
theorem ofDay_ranges (z : Int) :
    (1 ≤ (Date.ofDay z).month ∧ (Date.ofDay z).month ≤ 12) ∧
      (1 ≤ (Date.ofDay z).day ∧ (Date.ofDay z).day ≤ 31) ∧
      400 * ((z + 719468) / 146097) ≤ (Date.ofDay z).year ∧
      (Date.ofDay z).year ≤ 400 * ((z + 719468) / 146097) + 400 := by
  have below : (z + 719468) % 146097 < 146097 := Int.emod_lt_of_pos _ (by decide)
  obtain ⟨century, quad, yearOfQuad, dayOfYear, centuries, quads, years, days, few, many, some_,
    short, sum⟩ := cycles ((z + 719468) % 146097).toNat (by omega)
  obtain ⟨monthIndex, months_, last, starts, ends⟩ := months dayOfYear short
  unfold Date.ofDay
  dsimp only
  rw [← centuries, ← quads, ← years, ← days, ← months_]
  refine ⟨?_, ?_, ?_⟩
  · split <;> omega
  · omega
  · generalize (z + 719468) / 146097 = era
    have inEra : 100 * century + 4 * quad + yearOfQuad < 400 := by omega
    split <;> omega

end PgCatalog.Library
