import Mathlib.Algebra.Group.Int.Defs
import Mathlib.Data.Int.Basic
import Mathlib.Order.Basic

/-! The proleptic Gregorian calendar, with days counted from the first day of 1970. -/

namespace Library

def isLeapYear (year : Int) : Bool :=
  year % 4 = 0 && (year % 100 ≠ 0 || year % 400 = 0)

def monthLength (year : Int) : (month : Nat) → Nat
  | 2 => if isLeapYear year then 29 else 28
  | 4 | 6 | 9 | 11 => 30
  | _ => 31

/-- The days of a year that come before the end of some of its months. -/
def daysOfMonths (year : Int) : (months : Nat) → Nat
  | 0 => 0
  | months + 1 => daysOfMonths year months + monthLength year (months + 1)

/-- The first day of a year. -/
def yearStart (year : Int) : Int :=
  365 * (year - 1) + (year - 1) / 4 - (year - 1) / 100 + (year - 1) / 400 - 719162

structure CivilDate where
  year : Int
  month : Nat
  day : Nat
  deriving DecidableEq, Repr

/-- A date that the calendar has. -/
def CivilDate.Valid (date : CivilDate) : Prop :=
  (1 ≤ date.month ∧ date.month ≤ 12) ∧ 1 ≤ date.day ∧ date.day ≤ monthLength date.year date.month

instance (date : CivilDate) : Decidable date.Valid :=
  inferInstanceAs (Decidable (_ ∧ _))

def CivilDate.number (date : CivilDate) : Int :=
  yearStart date.year + daysOfMonths date.year (date.month - 1) + (date.day - 1)

/-- The year of a day: the mean length of a year gives it up to one year. -/
def yearOfDay (number : Int) : Int :=
  let guess := (number + 719162) * 400 / 146097 + 1
  if number < yearStart guess then guess - 1
  else if yearStart (guess + 1) ≤ number then guess + 1
  else guess

/-- The month and the day of the month, some days after the start of a month. -/
def monthDayFrom (year : Int) : (more month left : Nat) → Nat × Nat
  | 0, month, left => (month, left + 1)
  | more + 1, month, left =>
      if left < monthLength year month then (month, left + 1)
      else monthDayFrom year more (month + 1) (left - monthLength year month)

def civilOfDay (number : Int) : CivilDate :=
  let year := yearOfDay number
  let (month, day) := monthDayFrom year 11 1 (number - yearStart year).toNat
  ⟨year, month, day⟩

-----------------------------------------------------------------------------------------
-- Lengths
-----------------------------------------------------------------------------------------

theorem monthLength_bounds (year : Int) (month : Nat)
    : 28 ≤ monthLength year month ∧ monthLength year month ≤ 31 := by
  unfold monthLength
  split
  · split <;> omega
  all_goals omega

theorem daysOfMonths_year (year : Int)
    : daysOfMonths year 12 = if isLeapYear year then 366 else 365 := by
  simp only [daysOfMonths, monthLength]
  split <;> rfl

theorem yearStart_succ (year : Int)
    : yearStart (year + 1) = yearStart year + daysOfMonths year 12 := by
  rw [daysOfMonths_year]
  unfold yearStart
  split
  · next leap =>
      simp only [isLeapYear, Bool.and_eq_true, Bool.or_eq_true, decide_eq_true_eq] at leap
      omega
  · next common =>
      simp only [isLeapYear, Bool.and_eq_true, Bool.or_eq_true, decide_eq_true_eq] at common
      omega

/-- The days of a year. -/
theorem yearOfDay_bounds (number : Int)
    : yearStart (yearOfDay number) ≤ number ∧ number < yearStart (yearOfDay number + 1) := by
  unfold yearOfDay
  dsimp only
  split
  · next before =>
      refine ⟨?_, by simpa using before⟩
      unfold yearStart at *
      omega
  · next start =>
      split
      · next after =>
          refine ⟨after, ?_⟩
          unfold yearStart at *
          omega
      · next within => exact ⟨Int.not_lt.mp start, Int.not_le.mp within⟩

-----------------------------------------------------------------------------------------
-- Months and days
-----------------------------------------------------------------------------------------

/-- The month and the day of the month are those of the day, by induction on the months that may
follow.
-/
theorem monthDayFrom_spec (year : Int) (more months left : Nat)
    (within : daysOfMonths year months + left < daysOfMonths year (months + 1 + more))
    : let found := monthDayFrom year more (months + 1) left
      (months + 1 ≤ found.1 ∧ found.1 ≤ months + 1 + more)
      ∧ (1 ≤ found.2 ∧ found.2 ≤ monthLength year found.1)
      ∧ daysOfMonths year (found.1 - 1) + (found.2 - 1) = daysOfMonths year months + left := by
  induction more generalizing months left with
  | zero =>
      simp only [daysOfMonths] at within
      refine ⟨⟨le_rfl, le_rfl⟩, ⟨?_, ?_⟩, ?_⟩ <;> simp only [monthDayFrom]
      · omega
      · omega
      · simp
  | succ more ih =>
      simp only [monthDayFrom]
      split
      · next here => exact ⟨⟨le_rfl, by omega⟩, ⟨by omega, here⟩, by simp⟩
      · next later =>
          have next : daysOfMonths year (months + 1) = _ := daysOfMonths.eq_2 year months
          obtain ⟨month, day, same⟩ :=
            ih (months + 1) (left - monthLength year (months + 1)) (by
              rw [show months + 1 + 1 + more = months + 1 + (more + 1) by omega]
              omega)
          exact ⟨⟨by omega, by omega⟩, day, by omega⟩

/-- Every day has a date. -/
theorem civilOfDay_spec (number : Int)
    : (civilOfDay number).Valid ∧ (civilOfDay number).number = number := by
  obtain ⟨start, stop⟩ := yearOfDay_bounds number
  rw [yearStart_succ] at stop
  have found := monthDayFrom_spec (yearOfDay number) 11 0
    (number - yearStart (yearOfDay number)).toNat (by
      simp only [daysOfMonths.eq_1, Nat.zero_add, Nat.reduceAdd]
      omega)
  simp only [Nat.zero_add, Nat.reduceAdd, daysOfMonths.eq_1] at found
  obtain ⟨month, day, same⟩ := found
  refine ⟨⟨month, day⟩, ?_⟩
  unfold civilOfDay CivilDate.number
  dsimp only
  omega

-----------------------------------------------------------------------------------------
-- Numbered months
-----------------------------------------------------------------------------------------

/-- The months of all years, in one row. -/
def CivilDate.monthIndex (date : CivilDate) : Int := 12 * date.year + (date.month - 1)

/-- The first day of a month. -/
def monthStart (index : Int) : Int :=
  yearStart (index / 12) + daysOfMonths (index / 12) (index % 12).toNat

theorem monthStart_succ (index : Int)
    : monthStart (index + 1)
      = monthStart index + monthLength (index / 12) ((index % 12).toNat + 1) := by
  unfold monthStart
  by_cases last : index % 12 = 11
  · have year : (index + 1) / 12 = index / 12 + 1 := by omega
    have month : (index + 1) % 12 = 0 := by omega
    rw [year, month, last, yearStart_succ]
    simp only [Int.toNat_zero, daysOfMonths.eq_1, Int.reduceToNat]
    rw [daysOfMonths.eq_2 _ 11]
    omega
  · have year : (index + 1) / 12 = index / 12 := by omega
    have month : ((index + 1) % 12).toNat = (index % 12).toNat + 1 := by omega
    rw [year, month, daysOfMonths]
    omega

/-- Months are at least 28 days long. -/
theorem monthStart_le {index later : Int} (lt : index < later)
    : monthStart index + 28 ≤ monthStart later := by
  have step (month : Int) : monthStart month + 28 ≤ monthStart (month + 1) := by
    have length := (monthLength_bounds (month / 12) ((month % 12).toNat + 1)).1
    rw [monthStart_succ]
    omega
  obtain ⟨count, rfl⟩ : ∃ count : Nat, later = index + 1 + count :=
    ⟨(later - index - 1).toNat, by omega⟩
  induction count with
  | zero => simpa using step index
  | succ count ih =>
      have one := step (index + 1 + count)
      have before := ih (by omega)
      rw [show index + 1 + ((count + 1 : Nat) : Int) = index + 1 + count + 1 by omega]
      omega

theorem CivilDate.number_eq {date : CivilDate} (valid : date.Valid)
    : date.number = monthStart date.monthIndex + (date.day - 1) := by
  obtain ⟨⟨first, last⟩, -⟩ := valid
  have year : date.monthIndex / 12 = date.year := by
    unfold monthIndex
    omega
  have month : (date.monthIndex % 12).toNat = date.month - 1 := by
    unfold monthIndex
    omega
  unfold number monthStart
  rw [year, month]

/-- One day of two months is at least 28 days away from the other. -/
theorem CivilDate.number_le_of_day {date later : CivilDate} (valid : date.Valid)
    (other : later.Valid) (same : date.day = later.day) (lt : date.monthIndex < later.monthIndex)
    : date.number + 28 ≤ later.number := by
  have apart := monthStart_le lt
  rw [number_eq valid, number_eq other]
  omega

/-- Days of months that are not next to each other are more than 28 days apart. -/
theorem CivilDate.number_lt_of_monthIndex {date later : CivilDate} (valid : date.Valid)
    (other : later.Valid) (lt : date.monthIndex + 1 < later.monthIndex)
    : date.number + 28 < later.number := by
  have between := monthStart_le lt
  have length := monthStart_succ date.monthIndex
  have month := date.number_eq valid
  have day := valid.2
  rw [number_eq other]
  have := other.2.1
  have year : date.monthIndex / 12 = date.year := by
    have := valid.1
    unfold monthIndex
    omega
  have inYear : (date.monthIndex % 12).toNat + 1 = date.month := by
    have := valid.1
    unfold monthIndex
    omega
  rw [year, inYear] at length
  omega

/-- Days at most 28 days apart are in one month, or in months next to each other. -/
theorem CivilDate.monthIndex_near {date other : CivilDate} (valid : date.Valid)
    (otherValid : other.Valid) (near : (other.number - date.number).natAbs ≤ 28)
    : (other.monthIndex - date.monthIndex).natAbs ≤ 1 := by
  by_contra far
  rcases Int.lt_trichotomy other.monthIndex date.monthIndex with before | same | after
  · have days := number_lt_of_monthIndex otherValid valid (by omega)
    omega
  · omega
  · have days := number_lt_of_monthIndex valid otherValid (by omega)
    omega

end Library
