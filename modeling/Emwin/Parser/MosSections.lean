import Emwin.Parser.MosColumns

/-! Sections of fixed-width columns, and what the forecast rows receive. -/

namespace Emwin.Parser
open Library

-----------------------------------------------------------------------------------------
-- Rows
-----------------------------------------------------------------------------------------

/-- Three characters of ASCII, not all of them blank. -/
structure IsRowName (name : Text) : Prop where
  three : name.length = 3
  ascii : IsAscii name
  plain : Plain name
  shown : trim name ≠ []

/-- The name under which the values of a row are stored. -/
def variableOf (name : Text) : Text :=
  remapVar ((trim name).map fun c => if c = '/' then '_' else c)

theorem variableOf_ne_nil {name : Text} (shown : trim name ≠ []) : variableOf name ≠ [] := by
  have some : (trim name).map (fun c => if c = '/' then '_' else c) ≠ [] := by simpa using shown
  unfold variableOf remapVar
  split_ifs
  · decide
  · decide
  · decide
  · exact some

/-- Words put into the forecast rows from the first one on. -/
def received (count : Nat) (name : Text) (words : List Text) : List (Nat × Text × Text) :=
  (words.zipIdx.filter fun (_, idx) => idx < count).map fun (value, idx) => (idx, name, value)

theorem mem_received {count : Nat} {name : Text} {words : List Text} {put : Nat × Text × Text}
    : put ∈ received count name words
      ↔ put.1 < count ∧ put.2.1 = name ∧ words[put.1]? = some put.2.2 := by
  obtain ⟨place, variableName, value⟩ := put
  simp only [received, List.mem_map, List.mem_filter, Prod.exists, Prod.mk.injEq,
    decide_eq_true_eq, List.mem_zipIdx_iff_getElem?]
  constructor
  · rintro ⟨value, place, ⟨found, inside⟩, rfl, rfl, rfl⟩
    exact ⟨inside, rfl, found⟩
  · rintro ⟨inside, rfl, found⟩
    exact ⟨value, place, ⟨found, inside⟩, rfl, rfl, rfl⟩

/-- A row puts its words into the forecast rows. -/
theorem lineValues_row {name : Text} (isName : IsRowName name) (count : Nat) (cells : Text)
    : lineValues count (name ++ cells)
      = .ok (received count (variableOf name) (splitWhitespace cells)) := by
  have size : utf8Len name = 3 := isName.ascii.utf8Len_eq.trans isName.three
  have long : ¬ utf8Len (name ++ cells) < 3 := by
    rw [utf8Len_append]
    omega
  have front : sliceTo 3 (name ++ cells) = .ok name :=
    sliceTo_eq_ok_iff.mpr ⟨cells, rfl, size⟩
  have back : sliceFrom 3 (name ++ cells) = .ok cells :=
    sliceFrom_eq_ok_iff.mpr ⟨name, rfl, size⟩
  have shown : remapVar ((trim name).map fun c => if c = '/' then '_' else c) ≠ [] :=
    variableOf_ne_nil isName.shown
  rw [lineValues, if_neg long, front]
  simp only [bind, Except.bind]
  rw [if_neg shown, back]
  rfl

/-- What a forecast row holds under a name. -/
def held (forecasts : List MosForecastRow) (place : Nat) (name : Text) : Option Text :=
  forecasts[place]?.bind fun forecast => forecast.values.get? name

@[simp] theorem length_putValue (forecasts : List MosForecastRow) (put : Nat × Text × Text)
    : (putValue forecasts put).length = forecasts.length := by
  simp [putValue]

theorem length_foldl_putValue (puts : List (Nat × Text × Text)) (forecasts : List MosForecastRow)
    : (puts.foldl putValue forecasts).length = forecasts.length := by
  induction puts generalizing forecasts with
  | nil => rfl
  | cons put puts ih => rw [List.foldl_cons, ih, length_putValue]

theorem held_putValue {forecasts : List MosForecastRow} {place : Nat}
    (inside : place < forecasts.length) (name : Text) (put : Nat × Text × Text)
    : held (putValue forecasts put) place name
      = if put.1 = place ∧ put.2.1 = name then some put.2.2 else held forecasts place name := by
  obtain ⟨at_, key, value⟩ := put
  have here : forecasts[place]? = some forecasts[place] := List.getElem?_eq_getElem inside
  simp only [held, putValue, List.getElem?_modify, here, Option.bind_some]
  by_cases same : at_ = place
  · simp only [same, if_true, Option.map_eq_map, Option.map_some, Option.bind_some, true_and,
      OrderedMap.get?_alter]
    by_cases asked : name = key
    · rw [if_pos asked, if_pos asked.symm]
    · rw [if_neg asked, if_neg (Ne.symm asked)]
  · simp [same]

/-- Values that agree on a place and a name are held there, by induction on them. -/
theorem held_foldl_putValue {puts : List (Nat × Text × Text)} {forecasts : List MosForecastRow}
    {place : Nat} (inside : place < forecasts.length) {name value : Text}
    (agree : ∀ put ∈ puts, put.1 = place → put.2.1 = name → put.2.2 = value)
    (some_ : held forecasts place name = some value
      ∨ ∃ put ∈ puts, put.1 = place ∧ put.2.1 = name)
    : held (puts.foldl putValue forecasts) place name = some value := by
  induction puts generalizing forecasts with
  | nil =>
      rcases some_ with before | ⟨put, none, _⟩
      · exact before
      · cases none
  | cons put puts ih =>
      rw [List.foldl_cons]
      refine ih (by rwa [length_putValue]) (fun other member => agree other (by simp [member])) ?_
      rw [held_putValue inside]
      by_cases here : put.1 = place ∧ put.2.1 = name
      · rw [if_pos here, agree put (by simp) here.1 here.2]
        exact .inl rfl
      · rw [if_neg here]
        rcases some_ with before | ⟨other, member, found⟩
        · exact .inl before
        · rcases List.mem_cons.mp member with rfl | later
          · exact absurd found here
          · exact .inr ⟨other, later, found⟩

/-- The loop over rows, by induction on them. -/
theorem fillForecasts_rows {rows : List (Text × Text)}
    (names : ∀ row ∈ rows, IsRowName row.1) (forecasts : List MosForecastRow)
    : fillForecasts forecasts (rows.map fun (name, cells) => name ++ cells)
      = .ok ((rows.flatMap fun (name, cells) =>
          received forecasts.length (variableOf name) (splitWhitespace cells)).foldl
            putValue forecasts) := by
  induction rows generalizing forecasts with
  | nil => rfl
  | cons row rows ih =>
      obtain ⟨name, cells⟩ := row
      rw [List.map_cons, fillForecasts, lineValues_row (names (name, cells) (by simp))]
      simp only [bind, Except.bind]
      rw [ih fun row member => names row (by simp [member]), length_foldl_putValue,
        List.flatMap_cons, List.foldl_append]

-----------------------------------------------------------------------------------------
-- Axes are read
-----------------------------------------------------------------------------------------

theorem daysOfMonths_le (year : Int) (months : Nat) : daysOfMonths year months ≤ 31 * months := by
  induction months with
  | zero => rfl
  | succ months ih =>
      have length := (monthLength_bounds year (months + 1)).2
      rw [daysOfMonths]
      omega

/-- A year starts near the place that the mean length of a year gives it. -/
theorem yearStart_near (year : Int)
    : 146097 * (year - 1) - 400 * 719162 - 800 ≤ 400 * yearStart year
      ∧ 400 * yearStart year ≤ 146097 * (year - 1) - 400 * 719162 + 800 := by
  unfold yearStart
  generalize year - 1 = count
  constructor <;> omega

/-- Times within some years of the years with four digits are in the calendar. -/
theorem knownYear_of_near {time : Int} {date : CivilDate} (valid : date.Valid)
    (century : 1000 ≤ date.year ∧ date.year ≤ 9999) (after : date.number * dayLength ≤ time)
    (before : time < (date.number + 1000) * dayLength)
    : KnownYear (dateOf time).year := by
  obtain ⟨⟨-, months⟩, first, days⟩ := valid
  have length := (monthLength_bounds date.year date.month).2
  have start := daysOfMonths_le date.year (date.month - 1)
  have number : date.number
      = yearStart date.year + daysOfMonths date.year (date.month - 1) + (date.day - 1) := rfl
  have low : date.number ≤ time / dayLength := by
    unfold dayLength at *
    omega
  have high : time / dayLength < date.number + 1000 := by
    unfold dayLength at *
    omega
  obtain ⟨least, most⟩ := yearOfDay_bounds (time / dayLength)
  have year : (dateOf time).year = yearOfDay (time / dayLength) := rfl
  have own := yearStart_near date.year
  have found := yearStart_near (yearOfDay (time / dayLength))
  have next := yearStart_near (yearOfDay (time / dayLength) + 1)
  rw [KnownYear, year]
  clear after before
  constructor <;> omega

/-- The hours that the columns of an axis may have. -/
def hourBound (counts : Bool) : Nat := if counts then 10000 else 24

/-- Times of an axis stay between the start and the second midnight behind it, or within the
hours that are counted.
-/
def AxisRange (counts : Bool) (init time : Int) : Prop :=
  OnTheHour time ∧ dayOf init * dayLength ≤ time
  ∧ if counts then time < init + 10000 * hourLength else time ≤ (dayOf init + 2) * dayLength

theorem axisRange_counted {init time : Int}
    : AxisRange true init time
      ↔ OnTheHour time ∧ dayOf init * dayLength ≤ time ∧ time < init + 10000 * hourLength :=
  Iff.rfl

theorem axisRange_daily {init time : Int}
    : AxisRange false init time
      ↔ OnTheHour time ∧ dayOf init * dayLength ≤ time
        ∧ time ≤ (dayOf init + 2) * dayLength :=
  Iff.rfl

section Axis

variable {counts : Bool} {init : Int} {date : CivilDate} (valid : date.Valid)
  (century : 1000 ≤ date.year ∧ date.year ≤ 9999) (aligned : OnTheHour init)
  (start : dayOf init = date.number)
include valid century aligned start

theorem AxisRange.known {time : Int} (range : AxisRange counts init time)
    : KnownYear (dateOf time).year := by
  obtain ⟨-, low, high⟩ := range
  have whole := aligned.eq
  have early := hourOf_lt init
  refine knownYear_of_near valid century (by rwa [← start]) ?_
  rw [← start]
  unfold dayLength hourLength at *
  split at high <;> omega

/-- Every column gets a time in the range. -/
theorem exists_axisTime {times : List Int} (range : ∀ time ∈ times, AxisRange counts init time)
    {hour : Text} {number : Nat} (reads : parseUnsigned (2 ^ 32) hour = some number)
    (small : number < hourBound counts)
    : ∃ time, axisTime counts init times hour = .ok (some time)
        ∧ AxisRange counts init time := by
  have whole := aligned.eq
  have early := hourOf_lt init
  cases counts with
  | true =>
      have inside : AxisRange true init (init + number * hourLength) := by
        have small : number < 10000 := small
        rw [axisRange_counted]
        unfold OnTheHour dayLength hourLength at *
        omega
      refine ⟨_, ?_, inside⟩
      have known := inside.known valid century aligned start
      simp only [axisTime, if_true, reads]
      rw [map_some_eq_ok_iff, addTime_eq_ok_iff]
      exact ⟨rfl, known⟩
  | false =>
      have small : number < 24 := small
      by_cases midnight : hour = "00".toList ∧ 0 < times.length
      · obtain ⟨last, ends⟩ : ∃ last, times.getLast? = some last := by
          cases same : times.getLast? with
          | none => simp [List.getLast?_eq_none_iff.mp same] at midnight
          | some last => exact ⟨last, rfl⟩
        obtain ⟨lastAligned, low, high⟩ := range last (List.mem_of_getLast? ends)
        have inside
            : AxisRange false init (last + ((24 - hourOf last) % 24 : Nat) * hourLength) := by
          have parts := lastAligned.eq
          have hours := hourOf_lt last
          have high : last ≤ (dayOf init + 2) * dayLength := high
          by_cases zero : hourOf last = 0
          · rw [zero]
            simpa [axisRange_daily] using And.intro lastAligned ⟨low, high⟩
          · have rest : ((24 - hourOf last) % 24 : Nat) = 24 - (hourOf last : Int) := by omega
            rw [axisRange_daily, rest]
            unfold OnTheHour dayLength hourLength at *
            omega
        refine ⟨_, ?_, inside⟩
        have known := inside.known valid century aligned start
        simp only [axisTime, Bool.false_eq_true, if_false, midnight, and_self, if_true, ends]
        rw [map_some_eq_ok_iff, addTime_eq_ok_iff]
        exact ⟨rfl, known⟩
      · have today : AxisRange false init (dayOf init * dayLength + number * hourLength) := by
          rw [axisRange_daily]
          unfold OnTheHour dayLength hourLength at *
          omega
        have tomorrow
            : AxisRange false init
                (dayOf init * dayLength + number * hourLength + dayLength) := by
          rw [axisRange_daily]
          unfold OnTheHour dayLength hourLength at *
          omega
        simp only [axisTime, Bool.false_eq_true, if_false, midnight, reads, Option.bind_some,
          withHour_eq aligned small]
        split
        · refine ⟨_, ?_, tomorrow⟩
          rw [map_some_eq_ok_iff, addTime_eq_ok_iff]
          exact ⟨rfl, tomorrow.known valid century aligned start⟩
        · exact ⟨_, rfl, today⟩

/-- Every axis of readable hours gives a time to each column, by induction on them. -/
theorem exists_axisTimesFrom {hours : List Text}
    (readable
      : ∀ hour ∈ hours,
          ∃ number, parseUnsigned (2 ^ 32) hour = some number ∧ number < hourBound counts)
    {times : List Int} (range : ∀ time ∈ times, AxisRange counts init time)
    : ∃ result,
        axisTimesFrom counts init times hours = .ok (some result)
        ∧ result.length = times.length + hours.length := by
  induction hours generalizing times with
  | nil => exact ⟨times, rfl, rfl⟩
  | cons hour hours ih =>
      obtain ⟨number, reads, small⟩ := readable hour (by simp)
      obtain ⟨time, here, inside⟩ := exists_axisTime valid century aligned start range reads small
      have ranges : ∀ other ∈ times ++ [time], AxisRange counts init other := by
        intro other member
        rcases List.mem_append.mp member with before | last
        · exact range other before
        · rwa [List.mem_singleton.mp last]
      obtain ⟨result, later, length⟩ :=
        ih (fun other member => readable other (by simp [member])) ranges
      refine ⟨result, ?_, ?_⟩
      · rw [axisTimesFrom, here]
        exact later
      · rw [length, List.length_append, List.length_singleton, List.length_cons]
        omega

end Axis

/-- An axis that was read has no word in it that is no number, by induction on the columns. -/
theorem readable_of_axisTimesFrom {counts : Bool} {init : UtcTime} {times result : List UtcTime}
    {hours : List Text} (read : axisTimesFrom counts init times hours = .ok (some result))
    : ∀ hour ∈ hours, (parseUnsigned (2 ^ 32) hour).isSome ∨ hour = "00".toList := by
  induction hours generalizing times with
  | nil => simp
  | cons hour hours ih =>
      rw [axisTimesFrom] at read
      obtain ⟨found, here, later⟩ := exceptBind_ok_iff.mp read
      cases found with
      | none => cases later
      | some time =>
          rw [List.forall_mem_cons]
          refine ⟨?_, ih later⟩
          by_contra bad
          obtain ⟨noNumber, noMidnight⟩ := not_or.mp bad
          have none : parseUnsigned (2 ^ 32) hour = none := by simpa using noNumber
          cases counts with
          | true =>
              simp only [axisTime, if_true, none] at here
              cases here
          | false =>
              simp only [axisTime, Bool.false_eq_true, if_false, noMidnight, false_and, none,
                Option.bind_none] at here
              cases here

end Emwin.Parser
