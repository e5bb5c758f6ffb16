import Std.Data.String.ToInt
import Mathlib.Tactic.Linarith

/-! `pg_size_pretty`: the code's byte counts beside the loop of PostgreSQL, whose division
truncates where the code's shift takes the floor. -/
namespace PgCatalog.UserFunctions

/-- `i64::midpoint` of the value and a step away from zero: half their sum, towards zero. -/
def halfRounded (value : Int) : Int :=
  let stepAwayFromZero := if value < 0 then -1 else 1
  (value + stepAwayFromZero).tdiv 2

def BYTES_LIMIT : Nat := 10 * 1024

def SHIFTED_LIMIT : Nat := 20 * 1024 - 1

def sizeText (number : Int) (unit : String) : String := toString number ++ " " ++ unit

/-- The loop over the units, with the size in halves of the first. -/
def scaledSize : List String → Int → String
  | [], scaled => sizeText (halfRounded scaled) "PB"
  | unit :: rest, scaled =>
    if scaled.natAbs < SHIFTED_LIMIT then sizeText (halfRounded scaled) unit
    else scaledSize rest (scaled >>> (10 : Nat))

/-- None where `abs` overflows. -/
def formatByteSize (size : Int64) : Option String :=
  if size = Int64.minValue then none
  else if size.toInt.natAbs < BYTES_LIMIT then some (sizeText size.toInt "bytes")
  else some (scaledSize ["kB", "MB", "GB", "TB"] (size.toInt >>> (9 : Nat)))

/-! ## PostgreSQL -/

/-- `struct size_pretty_unit`. -/
structure SizePrettyUnit where
  name : String
  limit : Nat
  round : Bool
  unitbits : Nat

def sizePrettyUnits : List SizePrettyUnit :=
  [⟨"bytes", 10 * 1024, false, 0⟩, ⟨"kB", 20 * 1024 - 1, true, 10⟩,
    ⟨"MB", 20 * 1024 - 1, true, 20⟩, ⟨"GB", 20 * 1024 - 1, true, 30⟩,
    ⟨"TB", 20 * 1024 - 1, true, 40⟩, ⟨"PB", 20 * 1024 - 1, true, 50⟩]

def SizePrettyUnit.print (unit : SizePrettyUnit) (size : Int) : String :=
  sizeText (if unit.round then halfRounded size else size) unit.name

/-- One bit fewer where halves of the next unit are kept, one more where this one had them. -/
def SizePrettyUnit.bits (unit next : SizePrettyUnit) : Nat :=
  next.unitbits - unit.unitbits - next.round.toNat + unit.round.toNat

def prettyFrom : List SizePrettyUnit → Int → String
  | [], _ => ""
  | [unit], size => unit.print size
  | unit :: next :: rest, size =>
    if size.natAbs < unit.limit then unit.print size
    else prettyFrom (next :: rest) (size.tdiv (2 ^ unit.bits next))

/-- `pg_size_pretty(bigint)`. -/
def pgSizePretty (size : Int) : String := prettyFrom sizePrettyUnits size

/-! ## What is right -/

/-- `n` units of `2 ^ bits` bytes are the nearest to the size, the larger of two. -/
def HalfUp (n : Int) (size : Int) (bits : Nat) : Prop :=
  (2 * n - 1) * 2 ^ bits ≤ 2 * size ∧ 2 * size < (2 * n + 1) * 2 ^ bits

/-- No overflow, PostgreSQL's text, the text of the opposite size, and the number nearest to a
size that is not negative. -/
structure SizePrettyRight (size : Int64) : Prop where
  printed : formatByteSize size = some (pgSizePretty size.toInt)
  odd : 0 < size.toInt → formatByteSize (-size) = some ("-" ++ pgSizePretty size.toInt)
  nearest : 0 ≤ size.toInt → ∃ n, ∃ unit ∈ sizePrettyUnits,
    formatByteSize size = some (sizeText n unit.name) ∧ HalfUp n size.toInt unit.unitbits

/-- The bits that the last unit's halves are worth, after those already shifted. -/
def shiftFrom (a : Nat) : List String → Nat → Nat
  | [], bits => bits
  | _ :: rest, bits => if a / 2 ^ bits < SHIFTED_LIMIT then bits else shiftFrom a rest (bits + 10)

/-- Rounded the same whether the halves are cut off or up. -/
def EvenHanded (a bits : Nat) : Prop := 2 ^ bits ∣ a ∨ a / 2 ^ bits % 2 = 1

/-- Below the first limit, or its number of halves in its unit is whole or odd. -/
def EvenHandedSize (a : Nat) : Prop :=
  a < BYTES_LIMIT ∨ EvenHanded a (shiftFrom a ["kB", "MB", "GB", "TB"] 9)

/-! ## Signs -/

theorem sizeText_neg {n : Int} (pos : 0 < n) (unit : String) :
    sizeText (-n) unit = "-" ++ sizeText n unit := by
  obtain ⟨k, rfl⟩ := Int.eq_succ_of_zero_lt pos
  rfl

theorem sizeText_inj {m n : Int} {unit : String} (same : sizeText m unit = sizeText n unit) :
    m = n := by
  have numbers : toString m = toString n :=
    String.append_left_inj _ |>.mp (String.append_left_inj _ |>.mp same)
  exact Int.repr_injective numbers

theorem halfRounded_nat (k : Nat) : halfRounded k = ((k + 1) / 2 : Nat) := by
  have pos : ¬ (k : Int) < 0 := by omega
  rw [halfRounded, if_neg pos, Int.tdiv_eq_ediv_of_nonneg (by omega)]
  omega

theorem halfRounded_neg (k : Nat) : halfRounded (-k) = -(((k + 1) / 2 : Nat) : Int) := by
  rcases Nat.eq_zero_or_pos k with rfl | pos
  · rfl
  · have neg : -(k : Int) < 0 := by omega
    have sum : -(k : Int) + -1 = -((k : Int) + 1) := by omega
    rw [halfRounded, if_pos neg, sum, Int.neg_tdiv, Int.tdiv_eq_ediv_of_nonneg (by omega)]
    omega

/-- The number of whole units of `2 ^ bits` that hold `a`. -/
def ceilShift (a bits : Nat) : Nat := a / 2 ^ bits + if 2 ^ bits ∣ a then 0 else 1

theorem shiftRight_nat (a bits : Nat) : (a : Int) >>> bits = (a / 2 ^ bits : Nat) := by
  rw [Int.shiftRight_eq_div_pow]
  rfl

/-- A shift of a negative size takes the floor. -/
theorem neg_shiftRight (a bits : Nat) : (-(a : Int)) >>> bits = -(ceilShift a bits : Int) := by
  have whole : ((2 ^ bits : Nat) : Int) ∣ a ↔ 2 ^ bits ∣ a := Int.natCast_dvd_natCast
  have pos : ((2 ^ bits : Nat) : Int).sign = 1 :=
    Int.sign_eq_one_of_pos (by exact_mod_cast Nat.two_pow_pos bits)
  rw [Int.shiftRight_eq_div_pow, Int.neg_ediv, pos, ceilShift]
  split
  · next dvd => simp [whole.mp dvd]
  · next not_dvd =>
    rw [if_neg fun dvd => not_dvd (whole.mpr dvd)]
    push_cast
    omega

/-- Halves cut off against halves cut up. -/
theorem half_ceil_iff (a bits : Nat) :
    (ceilShift a bits + 1) / 2 = (a / 2 ^ bits + 1) / 2 ↔ EvenHanded a bits := by
  unfold ceilShift EvenHanded
  split
  · next whole => simp [whole]
  · next part =>
    simp only [part, false_or]
    omega

theorem ceilShift_cases (a bits : Nat) :
    ceilShift a bits = a / 2 ^ bits ∧ 2 ^ bits ∣ a ∨
      ceilShift a bits = a / 2 ^ bits + 1 ∧ ¬2 ^ bits ∣ a := by
  unfold ceilShift
  split
  · next whole => exact .inl ⟨rfl, whole⟩
  · next part => exact .inr ⟨rfl, part⟩

/-- In one unit the two texts differ by the sign alone exactly when the cut is even-handed. -/
theorem unit_text_iff {a bits : Nat} (some_ : 0 < a / 2 ^ bits) (unit : String) :
    sizeText (halfRounded (-(ceilShift a bits : Int))) unit =
      "-" ++ sizeText (halfRounded (a / 2 ^ bits : Nat)) unit ↔ EvenHanded a bits := by
  have positive : (0 : Int) < ((a / 2 ^ bits + 1) / 2 : Nat) := by omega
  rw [halfRounded_nat, halfRounded_neg, ← sizeText_neg positive, ← half_ceil_iff]
  refine ⟨fun text => ?_, fun same => by rw [same]⟩
  have numbers := sizeText_inj text
  omega

theorem scaledSize_below (rest : List String) {scaled : Int}
    (below : scaled.natAbs < SHIFTED_LIMIT) :
    ∃ unit, scaledSize rest scaled = sizeText (halfRounded scaled) unit := by
  cases rest with
  | nil => exact ⟨"PB", rfl⟩
  | cons unit rest => exact ⟨unit, if_pos below⟩

/-- At the limit of a unit the next one says ten where the last of this says 10239. -/
theorem next_unit_text (rest : List String) (unit : String) :
    scaledSize rest ((-((20479 : Nat) : Int)) >>> (10 : Nat)) ≠
      "-" ++ sizeText (halfRounded (20478 : Nat)) unit := by
  have below : (-20 : Int).natAbs < SHIFTED_LIMIT := by decide
  obtain ⟨next, text⟩ := scaledSize_below rest below
  have twenty : (-((20479 : Nat) : Int)) >>> (10 : Nat) = -20 := by decide
  have ten : toString (halfRounded (-20)) = "-10" := by decide
  have many : toString (halfRounded (20478 : Nat)) = "10239" := by decide
  rw [twenty, text, sizeText, sizeText, ten, many]
  intro same
  have chars := congrArg String.toList same
  simp at chars

/-- Every negative size is printed as the opposite of what the size without its sign is, exactly
when the cut to its unit is even-handed. -/
theorem scaledSize_neg (a : Nat) (units : List String) (bits : Nat)
    (large : 19 ≤ a / 2 ^ bits) :
    scaledSize units ((-(a : Int)) >>> bits) = "-" ++ scaledSize units ((a : Int) >>> bits) ↔
      EvenHanded a (shiftFrom a units bits) := by
  induction units generalizing bits with
  | nil =>
    rw [scaledSize, scaledSize, shiftFrom, neg_shiftRight, shiftRight_nat]
    exact unit_text_iff (by omega) "PB"
  | cons unit rest ih =>
    rw [scaledSize, scaledSize, shiftFrom, neg_shiftRight, shiftRight_nat, Int.natAbs_neg,
      Int.natAbs_natCast, Int.natAbs_natCast]
    rcases Nat.lt_or_ge (a / 2 ^ bits) SHIFTED_LIMIT with below | above
    · rw [if_pos below, if_pos below]
      rcases Nat.lt_or_ge (ceilShift a bits) SHIFTED_LIMIT with inside | reached
      · rw [if_pos inside]
        exact unit_text_iff (by omega) unit
      · -- The ceiling alone reaches the limit, and the text is one of the next unit.
        rw [if_neg (Nat.not_lt.mpr reached)]
        obtain ⟨same, -⟩ | ⟨more, part⟩ := ceilShift_cases a bits
        · omega
        have last : a / 2 ^ bits = 20478 := by
          unfold SHIFTED_LIMIT at below reached
          omega
        rw [more, last]
        refine ⟨fun text => absurd text (next_unit_text rest unit), fun even => ?_⟩
        obtain whole | odd := even
        · exact absurd whole part
        · omega
    · have beyond : SHIFTED_LIMIT ≤ ceilShift a bits := by
        obtain ⟨same, -⟩ | ⟨more, -⟩ := ceilShift_cases a bits <;> omega
      rw [if_neg (Nat.not_lt.mpr above), if_neg (Nat.not_lt.mpr beyond),
        if_neg (Nat.not_lt.mpr above), ← neg_shiftRight, ← shiftRight_nat,
        ← Int.shiftRight_add, ← Int.shiftRight_add]
      refine ih (bits + 10) ?_
      rw [Nat.pow_add, ← Nat.div_div_eq_div_mul]
      unfold SHIFTED_LIMIT at above
      omega

/-! ## PostgreSQL's loop -/

theorem halfRounded_opposite (x : Int) : halfRounded (-x) = -halfRounded x := by
  obtain ⟨k, rfl | rfl⟩ := Int.eq_nat_or_neg x
  · rw [halfRounded_neg, halfRounded_nat]
  · rw [Int.neg_neg, halfRounded_neg, halfRounded_nat, Int.neg_neg]

/-- For a size that is not negative a shift and the division agree. -/
theorem tdiv_eq_shiftRight (a bits : Nat) : (a : Int).tdiv (2 ^ bits) = (a / 2 ^ bits : Nat) := by
  rw [Int.tdiv_eq_ediv_of_nonneg (by omega)]
  push_cast
  rfl

/-- The loop from the first unit with halves on. -/
theorem prettyFrom_scaled (a : Nat) :
    prettyFrom sizePrettyUnits.tail a = scaledSize ["kB", "MB", "GB", "TB"] a := by
  have step : ∀ k : Nat, (k : Int).tdiv (2 ^ 10) = (k : Int) >>> (10 : Nat) := by
    intro k
    rw [tdiv_eq_shiftRight, shiftRight_nat]
  have next : ∀ k : Nat, (k : Int) >>> (10 : Nat) = (k / 2 ^ 10 : Nat) :=
    fun k => shiftRight_nat k 10
  simp only [sizePrettyUnits, List.tail_cons, prettyFrom, SizePrettyUnit.print,
    SizePrettyUnit.bits, scaledSize, SHIFTED_LIMIT, if_true, Bool.toNat_true, Nat.reduceSub,
    Nat.reduceAdd, Nat.reduceMul, step, next]

theorem halfRounded_pos {k : Nat} (pos : 0 < k) : 0 < halfRounded k := by
  rw [halfRounded_nat]
  omega

/-- What the loop prints for the opposite size has a sign in front. -/
theorem prettyFrom_neg {a : Nat} (pos : 0 < a) :
    prettyFrom sizePrettyUnits.tail (-(a : Int)) = "-" ++ prettyFrom sizePrettyUnits.tail a := by
  have step : ∀ k : Nat, (k : Int).tdiv (2 ^ 10) = (k / 2 ^ 10 : Nat) :=
    fun k => tdiv_eq_shiftRight k 10
  simp only [sizePrettyUnits, List.tail_cons, prettyFrom, SizePrettyUnit.print,
    SizePrettyUnit.bits, if_true, Bool.toNat_true, Nat.reduceSub, Nat.reduceAdd, Nat.reduceMul,
    Int.neg_tdiv, step, Int.natAbs_neg, Int.natAbs_natCast, halfRounded_opposite]
  split_ifs
  all_goals
    refine sizeText_neg (halfRounded_pos ?_) _
    omega

theorem pgSizePretty_small {x : Int} (small : x.natAbs < BYTES_LIMIT) :
    pgSizePretty x = sizeText x "bytes" := if_pos small

theorem pgSizePretty_large {x : Int} (large : BYTES_LIMIT ≤ x.natAbs) :
    pgSizePretty x = prettyFrom sizePrettyUnits.tail (x.tdiv (2 ^ 9)) :=
  if_neg (Nat.not_lt.mpr large)

/-- PostgreSQL's text is odd. -/
theorem pgSizePretty_neg {a : Nat} (pos : 0 < a) :
    pgSizePretty (-(a : Int)) = "-" ++ pgSizePretty a := by
  rcases Nat.lt_or_ge a BYTES_LIMIT with small | large
  · rw [pgSizePretty_small (by simpa using small), pgSizePretty_small (by simpa using small)]
    exact sizeText_neg (by omega) _
  · rw [pgSizePretty_large (by simpa using large), pgSizePretty_large (by simpa using large),
      Int.neg_tdiv, tdiv_eq_shiftRight]
    refine prettyFrom_neg ?_
    unfold BYTES_LIMIT at large
    omega

/-! ## The code's text -/

section
variable {size : Int64}

theorem formatByteSize_small (finite : size ≠ Int64.minValue)
    (small : size.toInt.natAbs < BYTES_LIMIT) :
    formatByteSize size = some (sizeText size.toInt "bytes") := by
  rw [formatByteSize, if_neg finite, if_pos small]

theorem formatByteSize_large (finite : size ≠ Int64.minValue)
    (large : BYTES_LIMIT ≤ size.toInt.natAbs) : formatByteSize size =
      some (scaledSize ["kB", "MB", "GB", "TB"] (size.toInt >>> (9 : Nat))) := by
  rw [formatByteSize, if_neg finite, if_neg (Nat.not_lt.mpr large)]

/-- A size that is not negative is printed as PostgreSQL prints it. -/
theorem formatByteSize_nonneg {a : Nat} (same : size.toInt = a) :
    formatByteSize size = some (pgSizePretty a) := by
  have finite : size ≠ Int64.minValue := by
    rintro rfl
    have neg := Int64.toInt_minValue_lt_zero
    omega
  have abs : size.toInt.natAbs = a := by omega
  rcases Nat.lt_or_ge a BYTES_LIMIT with small | large
  · rw [formatByteSize_small finite (by omega), same, pgSizePretty_small (by simpa using small)]
  · rw [formatByteSize_large finite (by omega), same, pgSizePretty_large (by simpa using large),
      tdiv_eq_shiftRight, prettyFrom_scaled, shiftRight_nat]

/-- A negative size is, exactly when its cut is even-handed. -/
theorem formatByteSize_neg_iff {a : Nat} (pos : 0 < a) (same : size.toInt = -(a : Int))
    (finite : size ≠ Int64.minValue) :
    formatByteSize size = some (pgSizePretty (-(a : Int))) ↔ EvenHandedSize a := by
  have abs : size.toInt.natAbs = a := by omega
  unfold EvenHandedSize
  rcases Nat.lt_or_ge a BYTES_LIMIT with small | large
  · rw [formatByteSize_small finite (by omega), same, pgSizePretty_small (by simpa using small)]
    simp [small]
  · have started : 19 ≤ a / 2 ^ 9 := by
      unfold BYTES_LIMIT at large
      omega
    rw [formatByteSize_large finite (by omega), same, pgSizePretty_neg pos,
      pgSizePretty_large (by simpa using large), tdiv_eq_shiftRight, prettyFrom_scaled,
      ← shiftRight_nat, Option.some_inj, scaledSize_neg a _ 9 started]
    simp [Nat.not_lt.mpr large]

end

/-! ## Rounding -/

theorem halfUp_of_half (a bits : Nat) :
    HalfUp ((a / 2 ^ bits + 1) / 2 : Nat) a (bits + 1) := by
  have pos : 0 < 2 ^ bits := Nat.two_pow_pos bits
  have low : a / 2 ^ bits * 2 ^ bits ≤ a := Nat.div_mul_le_self a _
  have high : a < 2 ^ bits * (a / 2 ^ bits + 1) := Nat.lt_mul_div_succ a pos
  have power : (2 : Int) ^ (bits + 1) = 2 * (2 ^ bits : Nat) := by
    rw [Int.pow_succ]
    push_cast
    exact Int.mul_comm _ _
  unfold HalfUp
  rw [power]
  generalize a / 2 ^ bits = q at low high
  generalize 2 ^ bits = unit at low high pos
  have below : 2 * ((q + 1) / 2) ≤ q + 1 := by omega
  have above : q + 1 ≤ 2 * ((q + 1) / 2) + 1 := by omega
  generalize (q + 1) / 2 = n at below above
  zify at *
  constructor
  · nlinarith
  · nlinarith

/-- At every unit the number printed is the nearest to the size. -/
theorem scaledSize_nearest (a : Nat) : ∃ n, ∃ unit ∈ sizePrettyUnits,
    scaledSize ["kB", "MB", "GB", "TB"] ((a : Int) >>> (9 : Nat)) = sizeText n unit.name ∧
      HalfUp n a unit.unitbits := by
  have leaf : ∀ bits, ∀ unit ∈ sizePrettyUnits, unit.unitbits = bits + 1 →
      ∃ n, ∃ unit' ∈ sizePrettyUnits, sizeText (halfRounded ((a : Int) >>> bits)) unit.name =
        sizeText n unit'.name ∧ HalfUp n a unit'.unitbits := by
    intro bits unit listed same
    refine ⟨_, unit, listed, ?_, same ▸ halfUp_of_half a bits⟩
    rw [shiftRight_nat, halfRounded_nat]
  simp only [scaledSize, ← Int.shiftRight_add, Nat.reduceAdd]
  split_ifs
  · exact leaf 9 ⟨"kB", 20 * 1024 - 1, true, 10⟩ (by simp [sizePrettyUnits]) rfl
  · exact leaf 19 ⟨"MB", 20 * 1024 - 1, true, 20⟩ (by simp [sizePrettyUnits]) rfl
  · exact leaf 29 ⟨"GB", 20 * 1024 - 1, true, 30⟩ (by simp [sizePrettyUnits]) rfl
  · exact leaf 39 ⟨"TB", 20 * 1024 - 1, true, 40⟩ (by simp [sizePrettyUnits]) rfl
  · exact leaf 49 ⟨"PB", 20 * 1024 - 1, true, 50⟩ (by simp [sizePrettyUnits]) rfl

theorem formatByteSize_nearest {size : Int64} (nonneg : 0 ≤ size.toInt) :
    ∃ n, ∃ unit ∈ sizePrettyUnits, formatByteSize size = some (sizeText n unit.name) ∧
      HalfUp n size.toInt unit.unitbits := by
  have finite : size ≠ Int64.minValue := by
    rintro rfl
    exact absurd nonneg (Int.not_le.mpr Int64.toInt_minValue_lt_zero)
  obtain ⟨a, same⟩ := Int.eq_ofNat_of_zero_le nonneg
  rcases Nat.lt_or_ge size.toInt.natAbs BYTES_LIMIT with small | large
  · refine ⟨size.toInt, ⟨"bytes", 10 * 1024, false, 0⟩, by simp [sizePrettyUnits], ?_, ?_⟩
    · exact formatByteSize_small finite small
    · simp only [HalfUp, Int.pow_zero, Int.mul_one]
      omega
  · obtain ⟨n, unit, listed, text, half⟩ := scaledSize_nearest a
    refine ⟨n, unit, listed, ?_, same ▸ half⟩
    rw [formatByteSize_large finite large, same, text]

/-- A size is printed right, and so is its opposite, exactly when it is not the least one and
the cut to its unit is even-handed. -/
theorem pg_size_pretty_right_iff (size : Int64) : SizePrettyRight size ↔
    size ≠ Int64.minValue ∧ (size = 0 ∨ EvenHandedSize size.toInt.natAbs) := by
  rcases Int.lt_trichotomy size.toInt 0 with neg | zero | pos
  · obtain ⟨a, some_, same⟩ : ∃ a : Nat, 0 < a ∧ size.toInt = -(a : Int) :=
      ⟨size.toInt.natAbs, by omega, by omega⟩
    have abs : size.toInt.natAbs = a := by omega
    have nonzero : size ≠ 0 := by
      rintro rfl
      exact absurd neg (by decide)
    constructor
    · intro right
      have printed := right.printed
      have finite : size ≠ Int64.minValue := by
        rintro rfl
        cases printed
      rw [same, formatByteSize_neg_iff some_ same finite] at printed
      exact ⟨finite, .inr (abs ▸ printed)⟩
    · rintro ⟨finite, zero | even⟩
      · exact absurd zero nonzero
      rw [abs] at even
      refine ⟨?_, fun pos => by omega, fun nonneg => by omega⟩
      rw [same]
      exact (formatByteSize_neg_iff some_ same finite).mpr even
  · obtain rfl : size = 0 := Int64.toInt_inj.mp zero
    refine ⟨fun _ => ⟨by decide, .inl rfl⟩, fun _ => ⟨by decide, fun pos => ?_, ?_⟩⟩
    · exact absurd pos (by decide)
    · exact formatByteSize_nearest
  · obtain ⟨a, some_, same⟩ : ∃ a : Nat, 0 < a ∧ size.toInt = a :=
      ⟨size.toInt.natAbs, by omega, by omega⟩
    have abs : size.toInt.natAbs = a := by omega
    have finite : size ≠ Int64.minValue := by
      rintro rfl
      exact absurd pos (Int.not_lt.mpr (Int.le_of_lt Int64.toInt_minValue_lt_zero))
    have nonzero : size ≠ 0 := by
      rintro rfl
      exact absurd pos (by decide)
    have bound : (a : Int) ≤ 2 ^ 63 - 1 := same ▸ size.toInt_le
    have opposite : (-size).toInt = -(a : Int) := by
      rw [Int64.toInt_neg, same, Int.bmod_def]
      omega
    have opposite_finite : -size ≠ Int64.minValue := by
      intro least
      rw [least, Int64.toInt_minValue] at opposite
      omega
    have odd := formatByteSize_neg_iff some_ opposite opposite_finite
    rw [pgSizePretty_neg some_] at odd
    constructor
    · intro right
      have text := right.odd pos
      rw [same] at text
      exact ⟨finite, .inr (abs ▸ odd.mp text)⟩
    · rintro ⟨-, zero | even⟩
      · exact absurd zero nonzero
      rw [abs] at even
      refine ⟨?_, fun _ => ?_, formatByteSize_nearest⟩
      · rw [same]
        exact formatByteSize_nonneg same
      · rw [same]
        exact odd.mpr even

/-- `pg_size_pretty(-10241)` is `-11 kB` where PostgreSQL says `-10 kB`. -/
theorem negative_kilobytes_differ : ¬ ∀ size : Int64, SizePrettyRight size := by
  intro all
  have right := (all (-10241)).printed
  revert right
  decide

end PgCatalog.UserFunctions
