import Emwin.Library.Gregorian
import Emwin.Parser.Time

/-! Partial times resolve to the instants that they were taken from. -/

namespace Emwin.Parser
open Library

/-- The nanoseconds of a day. -/
def dayLength : Int := 86400 * 10 ^ 9

def hourLength : Int := 3600 * 10 ^ 9

def minuteLength : Int := 60 * 10 ^ 9

def dateOf (time : Int) : CivilDate := civilOfDay (time / dayLength)

def hourOf (time : Int) : Nat := (time % dayLength / hourLength).toNat

def minuteOf (time : Int) : Nat := (time % hourLength / minuteLength).toNat

/-- A clock reading on a date. -/
def instantOf (date : CivilDate) (hour minute : Nat) : Int :=
  date.number * dayLength + hour * hourLength + minute * minuteLength

/-- The years of the calendar of the `chrono` crate. -/
def KnownYear (year : Int) : Prop := -262143 ≤ year ∧ year ≤ 262142

instance (year : Int) : Decidable (KnownYear year) := inferInstanceAs (Decidable (_ ∧ _))

/-- A clock reading on a date, if both exist. -/
def instantOf? (date : CivilDate) (hour minute : Nat) : Option UtcTime :=
  if KnownYear date.year ∧ date.Valid ∧ hour ≤ 23 ∧ minute ≤ 59 then
    some (instantOf date hour minute)
  else none

/-- A calendar that is the proleptic Gregorian one, in its range of years. -/
structure Calendar.IsGregorian (calendar : Calendar) : Prop where
  year : ∀ {time}, KnownYear (dateOf time).year → calendar.year time = (dateOf time).year
  month : ∀ {time}, KnownYear (dateOf time).year → calendar.month time = (dateOf time).month
  timeOf : ∀ year month day hour minute,
    calendar.timeOf year month day hour minute = instantOf? ⟨year, month, day⟩ hour minute
  clockOn : ∀ {base} days hour minute, KnownYear (dateOf base).year →
    calendar.clockOn base days hour minute
      = instantOf? (civilOfDay (base / dayLength + days)) hour minute

/-- The proleptic Gregorian calendar, with its reading of whole times. -/
def gregorian (parseCompact : Text → Option UtcTime) : Calendar where
  parseCompact := parseCompact
  year time := max (-262143) (min 262142 (dateOf time).year)
  month time := (dateOf time).month
  yearInRange _ := by omega
  monthInRange time := (civilOfDay_spec _).1.1
  timeOf year month day hour minute := instantOf? ⟨year, month, day⟩ hour minute
  clockOn base days hour minute := instantOf? (civilOfDay (base / dayLength + days)) hour minute

theorem gregorian_isGregorian (parseCompact : Text → Option UtcTime)
    : (gregorian parseCompact).IsGregorian where
  year known := by
    unfold KnownYear at known
    simp only [gregorian]
    omega
  month _ := rfl
  timeOf _ _ _ _ _ := rfl
  clockOn _ _ _ _ := rfl

-----------------------------------------------------------------------------------------
-- Instants
-----------------------------------------------------------------------------------------

/-- A time on a whole minute. -/
def MinuteAligned (time : Int) : Prop := time % minuteLength = 0

instance (time : Int) : Decidable (MinuteAligned time) := inferInstanceAs (Decidable (_ = _))

theorem clock_bounds (time : Int)
    : hourOf time ≤ 23 ∧ minuteOf time ≤ 59 := by
  unfold hourOf minuteOf dayLength hourLength minuteLength
  constructor <;> omega

theorem instantOf_dateOf {time : Int} (aligned : MinuteAligned time)
    : instantOf (dateOf time) (hourOf time) (minuteOf time) = time := by
  unfold MinuteAligned at aligned
  unfold instantOf dateOf hourOf minuteOf
  rw [(civilOfDay_spec _).2]
  unfold dayLength hourLength minuteLength at *
  omega

/-- One clock reading on two dates. -/
theorem instantOf_sub (date other : CivilDate) (hour minute : Nat)
    : instantOf other hour minute - instantOf date hour minute
      = (other.number - date.number) * dayLength := by
  unfold instantOf dayLength
  omega

theorem dateOf_valid (time : UtcTime) : (dateOf time).Valid := (civilOfDay_spec _).1

theorem dateOf_number (time : UtcTime) : (dateOf time).number = time / dayLength :=
  (civilOfDay_spec _).2

theorem instantOf?_eq_some {date : CivilDate} {hour minute : Nat} {time : UtcTime}
    : instantOf? date hour minute = some time
      ↔ (KnownYear date.year ∧ date.Valid ∧ hour ≤ 23 ∧ minute ≤ 59)
        ∧ instantOf date hour minute = time := by
  unfold instantOf?
  split
  · next valid => simp [valid]
  · next invalid => simp [invalid]

-----------------------------------------------------------------------------------------
-- Candidates
-----------------------------------------------------------------------------------------

theorem natAbs_sub_lt {start stop span : Int} (order : start ≤ stop) (before : stop < start + span)
    : (stop - start).natAbs < span := by
  omega

/-- Years that have a year of the calendar on each side. -/
def InnerYear (year : Int) : Prop := -262143 < year ∧ year < 262142

instance (year : Int) : Decidable (InnerYear year) := inferInstanceAs (Decidable (_ ∧ _))

theorem InnerYear.known {year : Int} (inner : InnerYear year)
    : KnownYear year :=
  ⟨le_of_lt inner.1, le_of_lt inner.2⟩

/-- Dates at most 28 days apart are in one year, or in years next to each other. -/
theorem InnerYear.known_of_near {date other : CivilDate} (inner : InnerYear date.year)
    (valid : date.Valid) (otherValid : other.Valid)
    (near : (other.number - date.number).natAbs ≤ 28)
    : KnownYear other.year := by
  have month := CivilDate.monthIndex_near valid otherValid near
  have months := valid.1
  have otherMonths := otherValid.1
  unfold CivilDate.monthIndex at month
  unfold InnerYear at inner
  unfold KnownYear
  omega

theorem surroundingMonths_eq {date : CivilDate} (known : KnownYear date.year) (valid : date.Valid)
    : ∃ months,
        surroundingMonths date.year date.month = .ok months
        ∧ ∀ year month,
            (year, month) ∈ months
            ↔ (1 ≤ month ∧ month ≤ 12)
              ∧ (12 * year + (month - 1) - date.monthIndex).natAbs ≤ 1 := by
  obtain ⟨⟨first, last⟩, -⟩ := valid
  unfold KnownYear at known
  have before : checkedI32 (date.year - 1) = .ok (date.year - 1) := if_pos (by omega)
  have after : checkedI32 (date.year + 1) = .ok (date.year + 1) := if_pos (by omega)
  have earlier : checkedSub date.month 1 = .ok (date.month - 1) := if_pos first
  unfold surroundingMonths CivilDate.monthIndex
  rw [before, after, earlier]
  by_cases january : date.month = 1
  · rw [if_pos january, ok_bind, pure_bind]
    dsimp only
    rw [if_neg (by omega)]
    refine ⟨_, rfl, fun year month => ?_⟩
    simp only [List.mem_cons, Prod.mk.injEq, List.not_mem_nil, or_false]
    omega
  · rw [if_neg january, ok_bind, pure_bind]
    dsimp only
    by_cases december : date.month = 12
    · rw [if_pos december]
      refine ⟨_, rfl, fun year month => ?_⟩
      simp only [List.mem_cons, Prod.mk.injEq, List.not_mem_nil, or_false]
      omega
    · rw [if_neg december]
      refine ⟨_, rfl, fun year month => ?_⟩
      simp only [List.mem_cons, Prod.mk.injEq, List.not_mem_nil, or_false]
      omega

variable {calendar : Calendar}

/-- The candidates are the clock readings on the day in a month next to the reference. -/
theorem candidateDatetimes_eq (chrono : calendar.IsGregorian) {reference : UtcTime}
    (known : KnownYear (dateOf reference).year) {day hour minute : Nat}
    (days : 1 ≤ day ∧ day ≤ 31) (clock : hour ≤ 23 ∧ minute ≤ 59)
    : ∃ found,
        candidateDatetimes calendar reference day hour minute = .ok found
        ∧ ∀ time,
            time ∈ found.getD []
            ↔ ∃ date : CivilDate,
                (KnownYear date.year ∧ date.Valid ∧ date.day = day
                  ∧ (date.monthIndex - (dateOf reference).monthIndex).natAbs ≤ 1)
                ∧ instantOf date hour minute = time := by
  obtain ⟨months, around, listed⟩ := surroundingMonths_eq known (dateOf_valid reference)
  unfold candidateDatetimes
  rw [if_neg (by omega), chrono.year known, chrono.month known, around, ok_bind]
  refine ⟨_, rfl, fun time => ?_⟩
  rw [show ∀ list : List UtcTime, (if list = [] then none else some list).getD [] = list by
    intro list
    cases list <;> simp]
  simp only [List.mem_filterMap, Prod.exists, chrono.timeOf, instantOf?_eq_some]
  constructor
  · rintro ⟨year, month, member, ⟨known, valid, -⟩, same⟩
    exact ⟨⟨year, month, day⟩, ⟨known, valid, rfl, ((listed year month).mp member).2⟩, same⟩
  · rintro ⟨date, ⟨known, valid, rfl, near⟩, same⟩
    exact ⟨date.year, date.month, (listed _ _).mpr ⟨valid.1, near⟩, ⟨known, valid, clock⟩, same⟩

/-- Of the candidates for a time near the reference, the others are 28 days or more away. -/
theorem candidates_apart (chrono : calendar.IsGregorian) {reference time : Int}
    (known : KnownYear (dateOf reference).year) (timeKnown : KnownYear (dateOf time).year)
    (aligned : MinuteAligned time)
    (near : (time - reference).natAbs < 28 * dayLength)
    : ∃ candidates : List Int,
        candidateDatetimes calendar reference (dateOf time).day (hourOf time) (minuteOf time)
          = .ok (some candidates)
        ∧ time ∈ candidates
        ∧ ∀ other ∈ candidates,
            other = time ∨ other + 28 * dayLength ≤ time ∨ time + 28 * dayLength ≤ other := by
  have valid := dateOf_valid time
  have close : ((dateOf time).number - (dateOf reference).number).natAbs ≤ 28 := by
    rw [dateOf_number, dateOf_number]
    unfold dayLength at *
    omega
  have month := CivilDate.monthIndex_near (dateOf_valid reference) valid close
  have days : 1 ≤ (dateOf time).day ∧ (dateOf time).day ≤ 31 :=
    ⟨valid.2.1, le_trans valid.2.2 (monthLength_bounds _ _).2⟩
  obtain ⟨found, returned, listed⟩ := candidateDatetimes_eq chrono known days (clock_bounds time)
  have member : time ∈ found.getD [] :=
    (listed time).mpr ⟨dateOf time, ⟨timeKnown, valid, rfl, month⟩, instantOf_dateOf aligned⟩
  cases found with
  | none => cases member
  | some candidates =>
      refine ⟨candidates, returned, member, fun other present => ?_⟩
      obtain ⟨date, ⟨-, otherValid, sameDay, -⟩, rfl⟩ := (listed other).mp present
      have difference := instantOf_sub (dateOf time) date (hourOf time) (minuteOf time)
      rw [instantOf_dateOf aligned] at difference
      rcases lt_trichotomy date.monthIndex (dateOf time).monthIndex with before | same | after
      · have days := CivilDate.number_le_of_day otherValid valid sameDay before
        unfold dayLength at *
        omega
      · have equal : date.number = (dateOf time).number := by
          rw [CivilDate.number_eq otherValid, CivilDate.number_eq valid, same, sameDay]
        rw [equal] at difference
        unfold dayLength at *
        omega
      · have days := CivilDate.number_le_of_day valid otherValid sameDay.symm after
        unfold dayLength at *
        omega

-----------------------------------------------------------------------------------------
-- Resolution
-----------------------------------------------------------------------------------------

/-- The only element with the least key, by induction on the elements. -/
theorem minByKey_eq {α : Type} {key : α → Int} {best : α} {list : List α} (member : best ∈ list)
    (least : ∀ other ∈ list, other = best ∨ key best < key other)
    : minByKey key list = some best := by
  have step (rest : List α) (first : α) (present : best ∈ first :: rest)
      (least : ∀ other ∈ first :: rest, other = best ∨ key best < key other)
      : rest.foldl (fun best next => if key next < key best then next else best) first = best := by
    induction rest generalizing first with
    | nil => exact (List.mem_singleton.mp present).symm
    | cons next rest ih =>
        rw [List.foldl_cons]
        refine ih _ ?_ fun other listed => least other ?_
        · rcases least first (by simp) with rfl | more
          · rcases least next (by simp) with rfl | later
            · simp
            · simp [not_lt.mpr later.le]
          · rcases List.mem_cons.mp present with rfl | present
            · exact absurd more (lt_irrefl _)
            · rcases List.mem_cons.mp present with rfl | present
              · simp [more]
              · exact List.mem_cons_of_mem _ present
        · rcases List.mem_cons.mp listed with rfl | listed
          · split <;> simp
          · simp [listed]
  cases list with
  | nil => cases member
  | cons first rest => exact congrArg some (step rest first member least)

/-- Times on the two sides of a whole number of seconds. -/
theorem secondsApart_lt {reference near far : Int} {seconds : Nat}
    (before : (near - reference).natAbs < seconds * 10 ^ 9)
    (after : seconds * 10 ^ 9 ≤ (far - reference).natAbs)
    : secondsApart near reference < secondsApart far reference := by
  have whole (span : Int) : (span.tdiv (10 ^ 9)).natAbs = span.natAbs / 10 ^ 9 :=
    Int.natAbs_tdiv span (10 ^ 9)
  unfold secondsApart
  rw [whole, whole]
  omega

theorem resolveDayTimeNearest_eq (chrono : calendar.IsGregorian) {reference time : Int}
    (known : KnownYear (dateOf reference).year) (timeKnown : KnownYear (dateOf time).year)
    (aligned : MinuteAligned time)
    (near : (time - reference).natAbs < 14 * dayLength)
    : resolveDayTimeNearest calendar reference (dateOf time).day (hourOf time) (minuteOf time)
      = .ok (some time) := by
  obtain ⟨candidates, returned, member, apart⟩ :=
    candidates_apart chrono known timeKnown aligned (by unfold dayLength at *; omega)
  unfold resolveDayTimeNearest
  rw [returned, ok_bind]
  refine congrArg Except.ok (minByKey_eq member fun other listed => ?_)
  rcases apart other listed with same | away
  · exact .inl same
  · refine .inr (@secondsApart_lt _ _ _ 1209600 ?_ ?_) <;> unfold dayLength at * <;> omega

theorem resolveDayTimeNotBefore_eq (chrono : calendar.IsGregorian) {reference time : Int}
    (known : KnownYear (dateOf reference).year) (timeKnown : KnownYear (dateOf time).year)
    (aligned : MinuteAligned time)
    (notBefore : reference ≤ time) (near : time < reference + 28 * dayLength)
    : resolveDayTimeNotBefore calendar reference (dateOf time).day (hourOf time) (minuteOf time)
      = .ok (some time) := by
  obtain ⟨candidates, returned, member, apart⟩ :=
    candidates_apart chrono known timeKnown aligned (by unfold dayLength at *; omega)
  have least : (candidates.filter (reference ≤ ·)).min? = some time := by
    refine List.min?_eq_some_iff.mpr ⟨?_, fun other listed => ?_⟩
    · exact List.mem_filter.mpr ⟨member, by simpa using notBefore⟩
    · obtain ⟨present, later⟩ := List.mem_filter.mp listed
      have later : reference ≤ other := by simpa using later
      rcases apart other present with rfl | away
      · exact le_rfl
      · unfold dayLength at *
        omega
  unfold resolveDayTimeNotBefore
  rw [returned, ok_bind]
  dsimp only
  rw [least]
  rfl

theorem resolveClockTimeNearest_eq (chrono : calendar.IsGregorian) {reference time : Int}
    (inner : InnerYear (dateOf reference).year) (aligned : MinuteAligned time)
    (near : (time - reference).natAbs < 12 * hourLength)
    : resolveClockTimeNearest calendar reference (hourOf time) (minuteOf time) = some time := by
  obtain ⟨hours, minutes⟩ := clock_bounds time
  have reading {days : Int} (next : days.natAbs ≤ 1)
      : calendar.clockOn reference days (hourOf time) (minuteOf time)
        = some (time + (reference / dayLength + days - time / dayLength) * dayLength) := by
    have known := inner.known_of_near (dateOf_valid reference)
      (civilOfDay_spec (reference / dayLength + days)).1 (by
        rw [dateOf_number, (civilOfDay_spec _).2]
        omega)
    rw [chrono.clockOn _ _ _ inner.known, instantOf?_eq_some]
    refine ⟨⟨known, (civilOfDay_spec _).1, hours, minutes⟩, ?_⟩
    have difference := instantOf_sub (dateOf time)
      (civilOfDay (reference / dayLength + days)) (hourOf time) (minuteOf time)
    rw [instantOf_dateOf aligned, dateOf_number, (civilOfDay_spec _).2] at difference
    omega
  unfold resolveClockTimeNearest
  rw [if_neg (by omega), reading (by decide), reading (by decide), reading (by decide)]
  simp only [Option.bind_eq_bind, Option.bind_some]
  refine @minByKey_eq Int _ time _ ?_ fun other listed => ?_
  · simp only [List.mem_cons, List.not_mem_nil, or_false]
    unfold dayLength hourLength at *
    omega
  · have away : other = time ∨ other + dayLength ≤ time ∨ time + dayLength ≤ other := by
      simp only [List.mem_cons, List.not_mem_nil, or_false] at listed
      unfold dayLength at *
      omega
    rcases away with same | away
    · exact .inl same
    · refine .inr (@secondsApart_lt _ _ _ 43200 ?_ ?_) <;> unfold dayLength hourLength at * <;>
        omega

/-- The day, the hour and the minute of a time give the time back: to the nearest reading within 14
days, from a reference that is less than 28 days earlier, and by the clock alone within 12 hours.
-/
theorem partialTimes_resolve (chrono : calendar.IsGregorian) {reference time : UtcTime}
    (inner : InnerYear (dateOf reference).year) (aligned : MinuteAligned time)
    : ((time - reference).natAbs < 14 * dayLength
        → resolveDayTimeNearest calendar reference (dateOf time).day (hourOf time) (minuteOf time)
          = .ok (some time))
      ∧ (reference ≤ time ∧ time < reference + 28 * dayLength
        → resolveDayTimeNotBefore calendar reference (dateOf time).day (hourOf time)
            (minuteOf time)
          = .ok (some time))
      ∧ ((time - reference).natAbs < 12 * hourLength
        → resolveClockTimeNearest calendar reference (hourOf time) (minuteOf time)
          = some time) :=
  have timeKnown (near : (time - reference : Int).natAbs < 28 * dayLength)
      : KnownYear (dateOf time).year := by
    refine inner.known_of_near (dateOf_valid reference) (dateOf_valid time) ?_
    rw [dateOf_number, dateOf_number]
    unfold UtcTime dayLength at *
    omega
  ⟨fun near => resolveDayTimeNearest_eq chrono inner.known (timeKnown (by omega)) aligned near,
    fun window => resolveDayTimeNotBefore_eq chrono inner.known
      (timeKnown (natAbs_sub_lt window.1 window.2)) aligned window.1 window.2,
    resolveClockTimeNearest_eq chrono inner aligned⟩

/-- The last half hour of a leap February, from a reference in March and from one almost
28 days earlier.
-/
theorem leapFebruary_resolves
    : dateOf 1709249400000000000 = ⟨2024, 2, 29⟩
      ∧ resolveDayTimeNearest (gregorian fun _ => none) 1709251800500000000 29 23 30
        = .ok (some 1709249400000000000)
      ∧ resolveDayTimeNotBefore (gregorian fun _ => none) 1706830200000000001 29 23 30
        = .ok (some 1709249400000000000)
      ∧ resolveClockTimeNearest (gregorian fun _ => none) 1709251800500000000 23 30
        = some 1709249400000000000 :=
  have chrono := gregorian_isGregorian fun _ => none
  have aligned : MinuteAligned 1709249400000000000 := by decide
  have march := partialTimes_resolve chrono
    (show InnerYear (dateOf 1709251800500000000).year by decide +kernel) aligned
  have february := partialTimes_resolve chrono
    (show InnerYear (dateOf 1706830200000000001).year by decide +kernel) aligned
  ⟨by decide +kernel, march.1 (by decide +kernel), february.2.1 (by decide +kernel),
    march.2.2 (by decide +kernel)⟩

end Emwin.Parser
