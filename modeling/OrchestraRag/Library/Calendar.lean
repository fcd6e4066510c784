import Mathlib.Algebra.Group.Nat.Defs
import Mathlib.Tactic.Common

/-!
# The calendar

An instant of UTC is a date of the Gregorian calendar and a time of day to the nanosecond, without
leap seconds.  Instants are ordered by the nanoseconds since the start of the year 0
(`Instant.time`), which is the order of their fields, the year first (`Instant.lt_iff_before`).
-/

namespace Calendar

/-! ### Days -/

def isLeap (year : ℕ) : Bool :=
  year % 4 = 0 ∧ (year % 100 ≠ 0 ∨ year % 400 = 0)

def daysInYear (year : ℕ) : ℕ :=
  if isLeap year then 366 else 365

def daysInMonth (year : ℕ) : ℕ → ℕ
  | 2 => if isLeap year then 29 else 28
  | 4 | 6 | 9 | 11 => 30
  | _ => 31

/-- The days from the start of the year 0 to the start of a year. -/
def daysBeforeYear : ℕ → ℕ
  | 0 => 0
  | year + 1 => daysBeforeYear year + daysInYear year

/-- The days from the start of the year to the start of a month; the first month is 1. -/
def daysBeforeMonth (year : ℕ) : ℕ → ℕ
  | 0 => 0
  | 1 => 0
  | month + 2 => daysBeforeMonth year (month + 1) + daysInMonth year (month + 1)

theorem daysInMonth_le (year month : ℕ) :
  daysInMonth year month ≤ 31
  := by
  rw [daysInMonth.eq_def]
  split
  · split
    · decide
    · decide
  all_goals decide

theorem daysBeforeYear_le {year year' : ℕ} (h : year < year') :
  daysBeforeYear year + daysInYear year ≤ daysBeforeYear year'
  := by
  induction year' with
  | zero => cases h
  | succ year' ih =>
      rcases Nat.lt_succ_iff_lt_or_eq.mp h with hlt | rfl
      · have hle := ih hlt
        rw [daysBeforeYear]
        omega
      · apply Nat.le_refl

theorem daysBeforeMonth_le {year month month' : ℕ} (hpos : 1 ≤ month) (h : month < month') :
  daysBeforeMonth year month + daysInMonth year month ≤ daysBeforeMonth year month'
  := by
  induction month' with
  | zero => cases h
  | succ month' ih =>
      obtain ⟨m, rfl⟩ : ∃ m, month' = m + 1 := ⟨month' - 1, by omega⟩
      rcases Nat.lt_succ_iff_lt_or_eq.mp h with hlt | rfl
      · have hle := ih hlt
        rw [daysBeforeMonth]
        omega
      · apply Nat.le_refl

/-- The months make up the year. -/
theorem daysBeforeMonth_thirteen (year : ℕ) :
  daysBeforeMonth year 13 = daysInYear year
  := by
  simp only [daysBeforeMonth, daysInMonth, daysInYear]
  split
  · rfl
  · rfl

/-! ### Instants -/

/-- An instant in the years 0000 to 9999. -/
structure Instant where
  year : ℕ
  month : ℕ
  day : ℕ
  hour : ℕ
  minute : ℕ
  second : ℕ
  nanos : ℕ
  year_lt : year < 10000
  month_pos : 1 ≤ month
  month_le : month ≤ 12
  day_pos : 1 ≤ day
  day_le : day ≤ daysInMonth year month
  hour_lt : hour < 24
  minute_lt : minute < 60
  second_lt : second < 60
  nanos_lt : nanos < 10 ^ 9

namespace Instant

/-- The days from the start of the year to the date. -/
def dayOfYear (t : Instant) : ℕ :=
  daysBeforeMonth t.year t.month + (t.day - 1)

/-- The days from the start of the year 0 to the date. -/
def days (t : Instant) : ℕ :=
  daysBeforeYear t.year + t.dayOfYear

/-- The nanoseconds from the start of the year 0. -/
def time (t : Instant) : ℕ :=
  (((t.days * 24 + t.hour) * 60 + t.minute) * 60 + t.second) * 10 ^ 9 + t.nanos

instance : LE Instant :=
  ⟨fun s t => s.time ≤ t.time⟩

instance : LT Instant :=
  ⟨fun s t => s.time < t.time⟩

theorem le_iff_not_lt {s t : Instant} :
  s ≤ t ↔ ¬ t < s
  := Nat.not_lt.symm

theorem dayOfYear_lt (t : Instant) :
  t.dayOfYear < daysInYear t.year
  := by
  have hmonth := @daysBeforeMonth_le t.year _ _ t.month_pos (Nat.lt_succ_of_le t.month_le)
  rw [daysBeforeMonth_thirteen] at hmonth
  have hday := t.day_le
  have hpos := t.day_pos
  rw [dayOfYear]
  omega

end Instant

/-- Places in blocks are in the order of the blocks, and in one block in the order in it. -/
theorem lt_iff_of_blocks {k k' start start' size size' x x' : ℕ}
    (hlt : k < k' → start + size ≤ start') (hgt : k' < k → start' + size' ≤ start)
    (heq : k = k' → start = start') (hx : x < size) (hx' : x' < size') :
  start + x < start' + x' ↔ k < k' ∨ k = k' ∧ x < x'
  := by
  rcases Nat.lt_trichotomy k k' with h | h | h
  · have hstart := hlt h
    omega
  · have hstart := heq h
    omega
  · have hstart := hgt h
    omega

namespace Instant

theorem dayOfYear_lt_iff {s t : Instant} (hyear : s.year = t.year) :
  s.dayOfYear < t.dayOfYear ↔ s.month < t.month ∨ s.month = t.month ∧ s.day < t.day
  := by
  have hday := s.day_pos
  have hday' := t.day_pos
  have hsize : s.day - 1 < daysInMonth s.year s.month := by
    have hle := s.day_le
    omega
  have hsize' : t.day - 1 < daysInMonth t.year t.month := by
    have hle := t.day_le
    omega
  have hdays : s.day - 1 < t.day - 1 ↔ s.day < t.day := by omega
  rw [← hdays]
  apply lt_iff_of_blocks _ _ _ hsize hsize'
  · intro hlt
    rw [← hyear]
    apply daysBeforeMonth_le s.month_pos hlt
  · intro hgt
    rw [hyear]
    apply daysBeforeMonth_le t.month_pos hgt
  · intro hmonth
    rw [hyear, hmonth]

theorem days_lt_iff {s t : Instant} :
  s.days < t.days
    ↔ s.year < t.year ∨ s.year = t.year ∧ (s.month < t.month ∨ s.month = t.month ∧ s.day < t.day)
  := by
  have hblocks : s.days < t.days
      ↔ s.year < t.year ∨ s.year = t.year ∧ s.dayOfYear < t.dayOfYear := by
    apply lt_iff_of_blocks _ _ _ s.dayOfYear_lt t.dayOfYear_lt
    · apply daysBeforeYear_le
    · apply daysBeforeYear_le
    · intro hyear
      rw [hyear]
  rw [hblocks]
  apply or_congr_right
  apply and_congr_right
  apply dayOfYear_lt_iff

/-- The fields in their order, the year first. -/
def Before (s t : Instant) : Prop :=
  s.year < t.year ∨ s.year = t.year ∧ (s.month < t.month ∨ s.month = t.month
    ∧ (s.day < t.day ∨ s.day = t.day ∧ (s.hour < t.hour ∨ s.hour = t.hour
    ∧ (s.minute < t.minute ∨ s.minute = t.minute ∧ (s.second < t.second ∨ s.second = t.second
    ∧ s.nanos < t.nanos)))))

/-- Instants are in the order of their fields. -/
theorem lt_iff_before {s t : Instant} :
  s < t ↔ s.Before t
  := by
  have hdays : s.days = t.days ↔ s.year = t.year ∧ s.month = t.month ∧ s.day = t.day := by
    have hlt := @days_lt_iff s t
    have hgt := @days_lt_iff t s
    omega
  have hlt := @days_lt_iff s t
  have htime : s < t ↔ s.time < t.time := Iff.rfl
  have hhour := s.hour_lt
  have hminute := s.minute_lt
  have hsecond := s.second_lt
  have hnanos := s.nanos_lt
  have hhour' := t.hour_lt
  have hminute' := t.minute_lt
  have hsecond' := t.second_lt
  have hnanos' := t.nanos_lt
  rw [htime, time, time, Before]
  omega

end Instant

end Calendar
