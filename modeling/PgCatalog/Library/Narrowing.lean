import Mathlib.Algebra.Order.Field.Power
import Mathlib.Data.Int.Log
import Mathlib.Data.Rat.Floor
import Mathlib.Tactic.Linarith
import Mathlib.Tactic.Ring
import Mathlib.Tactic.FieldSimp
import Mathlib.Tactic.Positivity

/-! Binary floating-point formats over the rationals: a number is rounded to the nearest the
format has at its magnitude, ties to an even mantissa, and the largest exponent bounds what is
finite. -/
namespace PgCatalog.Library

/-- The nearest integer, of two the even one. -/
def roundHalfEven (q : ℚ) : ℤ :=
  let below := ⌊q⌋
  if q - below < 1 / 2 then below
  else if 1 / 2 < q - below then below + 1
  else if below % 2 = 0 then below
  else below + 1

theorem roundHalfEven_near (q : ℚ) : |(roundHalfEven q : ℚ) - q| ≤ 1 / 2 := by
  have low := Int.floor_le q
  have high := Int.lt_floor_add_one q
  rw [abs_le]
  unfold roundHalfEven
  simp only
  split_ifs <;> push_cast <;> constructor <;> linarith

theorem le_roundHalfEven {n : ℤ} {q : ℚ} (h : (n : ℚ) ≤ q) : n ≤ roundHalfEven q := by
  have low : n ≤ ⌊q⌋ := Int.le_floor.mpr h
  unfold roundHalfEven
  simp only
  split_ifs <;> omega

theorem roundHalfEven_le {n : ℤ} {q : ℚ} (h : q ≤ n) : roundHalfEven q ≤ n := by
  have low := Int.floor_le q
  rcases h.lt_or_eq with below | rfl
  · have : ⌊q⌋ < n := Int.floor_lt.mpr below
    unfold roundHalfEven
    simp only
    split_ifs <;> omega
  · simp [roundHalfEven]

/-- An even integer is reached from half below it on. -/
theorem even_le_roundHalfEven {n : ℤ} (even : n % 2 = 0) (q : ℚ) :
    n ≤ roundHalfEven q ↔ (n : ℚ) - 1 / 2 ≤ q := by
  constructor
  · intro h
    have near := (abs_le.mp (roundHalfEven_near q)).2
    have : (n : ℚ) ≤ roundHalfEven q := by exact_mod_cast h
    linarith
  · intro h
    have low := Int.floor_le q
    have high := Int.lt_floor_add_one q
    by_cases reached : n ≤ ⌊q⌋
    · unfold roundHalfEven
      simp only
      split_ifs <;> omega
    · have next : n = ⌊q⌋ + 1 := by
        have : (n : ℚ) < (⌊q⌋ + 2 : ℤ) := by push_cast; linarith
        have : n < ⌊q⌋ + 2 := by exact_mod_cast this
        omega
      have half : ¬ q - ⌊q⌋ < 1 / 2 := by
        have : (n : ℚ) = ⌊q⌋ + 1 := by exact_mod_cast next
        linarith
      unfold roundHalfEven
      simp only [half, if_false]
      split_ifs <;> omega

theorem roundHalfEven_eq_zero {q : ℚ} (nonneg : 0 ≤ q) : roundHalfEven q = 0 ↔ q ≤ 1 / 2 := by
  have positive : 0 ≤ roundHalfEven q := le_roundHalfEven (by simpa using nonneg)
  constructor
  · intro zero
    have near := (abs_le.mp (roundHalfEven_near q)).1
    rw [zero] at near
    push_cast at near
    linarith
  · intro h
    have floor : ⌊q⌋ = 0 := Int.floor_eq_zero_iff.mpr ⟨nonneg, by linarith⟩
    unfold roundHalfEven
    simp only [floor]
    split_ifs <;> first | rfl | (push_cast at *; linarith) | omega

/-- Mantissas of `precision` bits; positive numbers from `2 ^ least` to below `2 ^ top`. -/
structure Format where
  precision : ℕ
  least : ℤ
  top : ℤ
  positive : 0 < precision
  roomy : least + precision < top

namespace Format
variable (f : Format) {m q : ℚ}

/-- The exponent of a mantissa's last bit at a magnitude. -/
def last (m : ℚ) : ℤ := max (Int.log 2 m - (f.precision - 1)) f.least

def magnitude (m : ℚ) : ℚ := roundHalfEven (m / 2 ^ f.last m) * 2 ^ f.last m

def round (q : ℚ) : ℚ := if q < 0 then -f.magnitude (-q) else f.magnitude q

/-- Whether a rounded number is one of the format, and not its infinity. -/
def Finite (x : ℚ) : Prop := |x| < 2 ^ f.top

instance (x : ℚ) : Decidable (f.Finite x) := inferInstanceAs (Decidable (_ < _))

theorem magnitude_nonneg (nonneg : 0 ≤ m) : 0 ≤ f.magnitude m := by
  have : (0 : ℤ) ≤ roundHalfEven (m / 2 ^ f.last m) :=
    le_roundHalfEven (by simpa using div_nonneg nonneg (by positivity))
  have : (0 : ℚ) ≤ roundHalfEven (m / 2 ^ f.last m) := by exact_mod_cast this
  exact mul_nonneg this (by positivity)

theorem abs_round (q : ℚ) : |f.round q| = f.magnitude |q| := by
  unfold round
  split
  · next negative =>
    rw [abs_neg, abs_of_neg negative, abs_of_nonneg (f.magnitude_nonneg (by linarith))]
  · next h =>
    have nonneg : 0 ≤ q := not_lt.mp h
    rw [abs_of_nonneg nonneg, abs_of_nonneg (f.magnitude_nonneg nonneg)]

theorem magnitude_near (m : ℚ) : |f.magnitude m - m| ≤ 2 ^ f.last m / 2 := by
  have unit : (0 : ℚ) < 2 ^ f.last m := by positivity
  have scaled : f.magnitude m - m =
      (roundHalfEven (m / 2 ^ f.last m) - m / 2 ^ f.last m) * 2 ^ f.last m := by
    unfold magnitude
    field_simp
  rw [scaled, abs_mul, abs_of_pos unit]
  have := mul_le_mul_of_nonneg_right (roundHalfEven_near (m / 2 ^ f.last m)) unit.le
  linarith

/-- Rounding moves a number by half of its last bit at most. -/
theorem round_near (q : ℚ) : |f.round q - q| ≤ 2 ^ f.last |q| / 2 := by
  unfold round
  split
  · next negative =>
    have := f.magnitude_near (-q)
    rw [abs_of_neg negative]
    rwa [← abs_neg, show -(-f.magnitude (-q) - q) = f.magnitude (-q) - -q by ring]
  · next h =>
    rw [abs_of_nonneg (not_lt.mp h)]
    exact f.magnitude_near q

theorem last_of_normal (h : f.least ≤ Int.log 2 m - (f.precision - 1)) :
    f.last m = Int.log 2 m - (f.precision - 1) := max_eq_left h

theorem last_of_subnormal (h : Int.log 2 m - (f.precision - 1) ≤ f.least) :
    f.last m = f.least := max_eq_right h

/-- A power of two from the last bit on is passed when its ratio to the last bit is. -/
theorem zpow_le_magnitude_iff {e : ℤ} (h : f.last m ≤ e) :
    (2 : ℚ) ^ e ≤ f.magnitude m ↔
      (2 : ℤ) ^ (e - f.last m).toNat ≤ roundHalfEven (m / 2 ^ f.last m) := by
  have unit : (0 : ℚ) < 2 ^ f.last m := by positivity
  have split : (2 : ℚ) ^ e = ((2 ^ (e - f.last m).toNat : ℤ) : ℚ) * 2 ^ f.last m := by
    push_cast
    rw [← zpow_natCast, ← zpow_add₀ two_ne_zero]
    congr 1
    omega
  rw [split, magnitude, mul_le_mul_iff_left₀ unit]
  exact_mod_cast Iff.rfl

theorem zpow_div_last {e : ℤ} (h : f.last m ≤ e) :
    (2 : ℚ) ^ e / 2 ^ f.last m = ((2 ^ (e - f.last m).toNat : ℤ) : ℚ) := by
  push_cast
  rw [← zpow_sub₀ two_ne_zero, ← zpow_natCast]
  congr 1
  omega

theorem zpow_le_magnitude {e : ℤ} (h : f.last m ≤ e) (reached : (2 : ℚ) ^ e ≤ m) :
    (2 : ℚ) ^ e ≤ f.magnitude m := by
  have unit : (0 : ℚ) < 2 ^ f.last m := by positivity
  apply (f.zpow_le_magnitude_iff h).mpr
  apply le_roundHalfEven
  rw [← f.zpow_div_last h]
  gcongr

theorem magnitude_le_zpow {e : ℤ} (h : f.last m ≤ e) (reached : m ≤ (2 : ℚ) ^ e) :
    f.magnitude m ≤ (2 : ℚ) ^ e := by
  have unit : (0 : ℚ) < 2 ^ f.last m := by positivity
  have rounded : roundHalfEven (m / 2 ^ f.last m) ≤ 2 ^ (e - f.last m).toNat := by
    apply roundHalfEven_le
    rw [← f.zpow_div_last h]
    gcongr
  have : (roundHalfEven (m / 2 ^ f.last m) : ℚ) ≤ (2 : ℚ) ^ e / 2 ^ f.last m := by
    rw [f.zpow_div_last h]
    exact_mod_cast rounded
  exact (le_div_iff₀ unit).mp this

theorem half_zpow (e : ℤ) : (2 : ℚ) ^ (e - 1) = 2 ^ e / 2 := by
  rw [zpow_sub_one₀ two_ne_zero]
  ring

/-- A magnitude half of its last bit short of the top already rounds to it. -/
theorem top_le_magnitude (positive : 0 < m) :
    (2 : ℚ) ^ f.top ≤ f.magnitude m ↔ (2 : ℚ) ^ f.top - 2 ^ (f.top - f.precision - 1) ≤ m := by
  have bits := f.positive
  have room := f.roomy
  have low : (2 : ℚ) ^ Int.log 2 m ≤ m := Int.zpow_log_le_self (by norm_num) positive
  have high : m < (2 : ℚ) ^ (Int.log 2 m + 1) := Int.lt_zpow_succ_log_self (by norm_num) m
  rcases lt_trichotomy (Int.log 2 m) (f.top - 1) with under | border | above
  · have small : m ≤ (2 : ℚ) ^ (f.top - 1) :=
      high.le.trans (zpow_le_zpow_right₀ (by norm_num) (by omega))
    have rounded := f.magnitude_le_zpow (by unfold last; omega) small
    have gap : (2 : ℚ) ^ (f.top - f.precision - 1) ≤ 2 ^ (f.top - 1 - 1) :=
      zpow_le_zpow_right₀ (by norm_num) (by omega)
    have top : (0 : ℚ) < 2 ^ f.top := by positivity
    rw [half_zpow (f.top - 1), half_zpow f.top] at gap
    rw [half_zpow] at rounded small
    constructor <;> intro h <;> linarith
  · have last : f.last m = f.top - f.precision := by unfold last; omega
    have even : (2 : ℤ) ^ f.precision % 2 = 0 := by
      obtain ⟨n, eq⟩ : ∃ n, f.precision = n + 1 := ⟨f.precision - 1, by omega⟩
      rw [eq, pow_succ]
      omega
    have unit : (0 : ℚ) < 2 ^ (f.top - f.precision) := by positivity
    have scaled : (2 : ℚ) ^ f.top = 2 ^ f.precision * 2 ^ (f.top - f.precision) := by
      rw [← zpow_natCast, ← zpow_add₀ two_ne_zero]
      congr 1
      omega
    rw [f.zpow_le_magnitude_iff (by omega), last,
      show (f.top - (f.top - (f.precision : ℤ))).toNat = f.precision by omega,
      even_le_roundHalfEven even, le_div_iff₀ unit, half_zpow, scaled]
    push_cast
    rw [sub_mul]
    constructor <;> intro h <;> linarith
  · have large : (2 : ℚ) ^ f.top ≤ m :=
      (zpow_le_zpow_right₀ (by norm_num) (by omega)).trans low
    have log := f.zpow_le_magnitude (by unfold last; omega) low
    have passed : (2 : ℚ) ^ f.top ≤ 2 ^ Int.log 2 m :=
      zpow_le_zpow_right₀ (by norm_num) (by omega)
    have gap : (0 : ℚ) < 2 ^ (f.top - f.precision - 1) := by positivity
    constructor <;> intro h <;> linarith

/-- What rounds to infinity: all from half a last bit below the top on. -/
theorem not_finite_round (q : ℚ) :
    ¬ f.Finite (f.round q) ↔ (2 : ℚ) ^ f.top - 2 ^ (f.top - f.precision - 1) ≤ |q| := by
  rw [Finite, abs_round, not_lt]
  rcases (abs_nonneg q).lt_or_eq with positive | zero
  · exact f.top_le_magnitude positive
  · have bits := f.positive
    have top : (0 : ℚ) < 2 ^ f.top := by positivity
    have gap : (2 : ℚ) ^ (f.top - f.precision - 1) < 2 ^ f.top :=
      zpow_lt_zpow_right₀ (by norm_num) (by omega)
    rw [← zero]
    have : f.magnitude 0 = 0 := by simp [magnitude, roundHalfEven]
    constructor <;> intro h <;> linarith

/-- What rounds to zero: all up to half of the least positive number. -/
theorem round_eq_zero (q : ℚ) : f.round q = 0 ↔ |q| ≤ 2 ^ (f.least - 1) := by
  have bits := f.positive
  rw [← abs_eq_zero, abs_round]
  rcases (abs_nonneg q).lt_or_eq with positive | zero
  · have low : (2 : ℚ) ^ Int.log 2 |q| ≤ |q| := Int.zpow_log_le_self (by norm_num) positive
    by_cases normal : f.least ≤ Int.log 2 |q|
    · have rounded := f.zpow_le_magnitude (by unfold last; omega) low
      have least : (2 : ℚ) ^ (f.least - 1) < 2 ^ Int.log 2 |q| :=
        zpow_lt_zpow_right₀ (by norm_num) (by omega)
      have : (0 : ℚ) < 2 ^ Int.log 2 |q| := by positivity
      constructor <;> intro h <;> linarith
    · have last : f.last |q| = f.least := by unfold last; omega
      have unit : (0 : ℚ) < 2 ^ f.least := by positivity
      rw [magnitude, last, mul_eq_zero, or_iff_left unit.ne', Int.cast_eq_zero,
        roundHalfEven_eq_zero (by positivity), div_le_iff₀ unit, half_zpow]
      constructor <;> intro h <;> linarith
  · have : f.magnitude 0 = 0 := by simp [magnitude, roundHalfEven]
    rw [← zero, this]
    simp
    positivity

end Format
end PgCatalog.Library
