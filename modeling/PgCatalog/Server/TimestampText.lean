import PgCatalog.Server.Timestamps

/-! A timestamp's text: which instants have one, that no two of them share it, and where
PostgreSQL reads the instant back. -/
namespace PgCatalog.Server

open Library

/-- The units of a count are split into seconds and a rest that no multiplication overflows; the
text is the instant's and no other's, and only what has no date is null. -/
structure TimestampRight (unit : TimeUnit) (value : Option Int64) : Prop where
  split : ∀ n ∈ value, ∀ seconds units,
    splitEpochCountIntoSecondsAndSubsecondUnits n.toInt unit.perSecond = (seconds, units) →
      seconds * unit.perSecond + units = n.toInt ∧ units < unit.perSecond ∧
        units * unit.nanos < 2 ^ 32 ∧ -2 ^ 63 ≤ seconds ∧ seconds < 2 ^ 63
  null : formatTimestampValueAt unit value = none ↔ ∀ n ∈ value, ¬Representable unit n.toInt
  readBack : ∀ n ∈ value, ∀ text, formatTimestampValueAt unit value = some text →
    readTimestamp text.toList = some (n.toInt * unit.nanos)
  unshared : ∀ other text, formatTimestampValueAt unit value = some text →
    formatTimestampValueAt unit other = some text → other = value

variable {unit : TimeUnit} {n : Int64} {value : Option Int64} {text : String}

theorem split_right {seconds : Int} {units : Nat}
    (split : splitEpochCountIntoSecondsAndSubsecondUnits n.toInt unit.perSecond = (seconds, units)) :
    seconds * unit.perSecond + units = n.toInt ∧ units < unit.perSecond ∧
      units * unit.nanos < 2 ^ 32 ∧ -2 ^ 63 ≤ seconds ∧ seconds < 2 ^ 63 := by
  obtain ⟨rfl, rfl⟩ : secondOf unit n.toInt = seconds ∧ subsecondOf unit n.toInt = units :=
    Prod.mk.inj split
  have whole := second_subsecond unit n.toInt
  have below := subsecond_lt unit n.toInt
  have low := n.le_toInt
  have high := n.toInt_lt
  refine ⟨whole, below, ?_⟩
  cases unit <;> simp only [TimeUnit.perSecond, TimeUnit.nanos] at whole below ⊢ <;> omega

/-- A text is that of a date. -/
theorem format_eq_some : formatTimestampValueAt unit value = some text ↔
    ∃ n, value = some n ∧ Representable unit n.toInt ∧
      (dateTimeOf unit n.toInt).format unit.digits = text := by
  cases value with
  | none => simp [formatTimestampValueAt]
  | some n => simp [formatTimestamp_some]

theorem format_eq_none : formatTimestampValueAt unit value = none ↔
    ∀ n ∈ value, ¬Representable unit n.toInt := by
  cases value with
  | none => simp [formatTimestampValueAt]
  | some n => simp [formatTimestamp_some]

/-- Everything about a timestamp's text is right exactly if it has none, or its year is one of
those from 1 to 9999 and its nanoseconds are whole microseconds. -/
theorem timestamp_right_iff (unit : TimeUnit) (value : Option Int64) :
    TimestampRight unit value ↔ ∀ n ∈ value, Representable unit n.toInt →
      1 ≤ (dateTimeOf unit n.toInt).date.year ∧ (dateTimeOf unit n.toInt).date.year ≤ 9999 ∧
        (unit = .nanosecond → n.toInt % 1000 = 0) := by
  constructor
  · intro right n present dated
    rw [← readTimestamp_iff]
    exact right.readBack n present _ (format_eq_some.mpr ⟨n, present, dated, rfl⟩)
  · intro plain
    refine ⟨fun n _ seconds units split => split_right split, format_eq_none, ?_, ?_⟩
    · intro n present text printed
      obtain ⟨m, present', dated, rfl⟩ := format_eq_some.mp printed
      obtain rfl : n = m := Option.some.inj (present.symm.trans present')
      exact readTimestamp_iff.mpr (plain n present dated)
    · intro other text printed printed'
      obtain ⟨n, rfl, -, rfl⟩ := format_eq_some.mp printed
      obtain ⟨m, rfl, -, same⟩ := format_eq_some.mp printed'
      rw [Int64.toInt_inj.mp (format_injective same)]

/-- The year 10000 is printed with a sign. -/
theorem year_10000_signed : ¬TimestampRight .second (some 253402300800) := by
  intro right
  have printed : formatTimestampValueAt .second (some 253402300800) =
      some "+10000-01-01 00:00:00" := by decide +kernel
  have read := right.readBack _ rfl _ printed
  exact absurd read (by decide +kernel)

end PgCatalog.Server
