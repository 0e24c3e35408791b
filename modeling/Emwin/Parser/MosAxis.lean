import Emwin.Parser.Mos

/-! The times of an hour axis, and how far a carried day goes. -/

namespace Emwin.Parser
open Library

-----------------------------------------------------------------------------------------
-- Axes in a section
-----------------------------------------------------------------------------------------

/-- The labels that are looked for before another one. -/
def labelsBefore (label : Text) : List Text := axisLabels.takeWhile (· ≠ label)

/-- A line is taken for the axis of a label. -/
def IsLabelled (label line : Text) : Prop := label <+: trimStart line

instance (label line : Text) : Decidable (IsLabelled label line) :=
  inferInstanceAs (Decidable (_ <+: _))

/-- The line between `before` and `after` is the axis that is found. -/
structure AxisAt (label : Text) (before : List Text) (line : Text) (after : List Text) : Prop where
  listed : label ∈ axisLabels
  labelled : IsLabelled label line
  first : ∀ other ∈ before, ¬ IsLabelled label other
  preferred
    : ∀ earlier ∈ labelsBefore label, ∀ other ∈ before ++ line :: after, ¬ IsLabelled earlier other

theorem findIdx?_labelled_none {label : Text} {lines : List Text}
    (none : ∀ line ∈ lines, ¬ IsLabelled label line)
    : lines.findIdx? (fun line => label.isPrefixOf (trimStart line)) = .none := by
  rw [List.findIdx?_eq_none_iff]
  intro line member
  exact Bool.eq_false_iff.mpr fun found => none line member (List.isPrefixOf_iff_prefix.mp found)

theorem AxisAt.findAxis_eq {label line : Text} {before after : List Text}
    (axis : AxisAt label before line after)
    : findAxis (before ++ line :: after) = some (label, before.length) := by
  obtain ⟨listed, labelled, first, preferred⟩ := axis
  have found
      : (before ++ line :: after).findIdx? (fun line => label.isPrefixOf (trimStart line))
        = some before.length := by
    rw [List.findIdx?_append, findIdx?_labelled_none first, Option.none_or, List.findIdx?_cons,
      if_pos (List.isPrefixOf_iff_prefix.mpr labelled)]
    simp
  unfold findAxis
  have passed (earlier : Text) (member : earlier ∈ labelsBefore label)
      : ((before ++ line :: after).findIdx? fun line => earlier.isPrefixOf (trimStart line))
        = none :=
    findIdx?_labelled_none (preferred earlier member)
  simp only [axisLabels, List.mem_cons, List.not_mem_nil, or_false] at listed
  rcases listed with rfl | rfl | rfl
  · simp only [axisLabels, List.findSome?_cons, found, Option.map_some]
  · simp only [axisLabels, List.findSome?_cons, passed _ (by decide : "FHR".toList ∈ _), found,
      Option.map_some, Option.map_none]
  · simp only [axisLabels, List.findSome?_cons, passed _ (by decide : "FHR".toList ∈ _),
      passed _ (by decide : "HR".toList ∈ _), found, Option.map_some, Option.map_none]

/-- An axis: its label, and hours with a gap in front of each. -/
def axisLine (label : Text) (columns : List (Text × Text)) : Text := label ++ spaced columns

theorem axisHours_axisLine {label : Text} (solid : ∀ c ∈ label, isAxisSeparator c = false)
    {columns : List (Text × Text)}
    (spacing : ∀ column ∈ columns, IsSpaced isAxisSeparator column)
    : axisHours (axisLine label columns) = columns.map Prod.snd := by
  rw [← tokens_spaced spacing, axisLine, axisHours]
  cases same : spaced columns with
  | nil => simp [List.splitOnP_eq_singleton solid]
  | cons c rest =>
      have separator : isAxisSeparator c = true := by
        have starts := @head?_spaced isAxisSeparator columns [] spacing nofun
        rw [List.append_nil, same] at starts
        exact starts c rfl
      have gap : IsGap isAxisSeparator [c] := by simpa [IsGap] using separator
      have passed : tokens isAxisSeparator (c :: rest) = tokens isAxisSeparator rest :=
        tokens_gap gap rest
      rw [List.splitOnP_append_cons_of_forall_mem solid c separator, passed]
      rfl

theorem label_solid {label : Text} (listed : label ∈ axisLabels)
    : ∀ c ∈ label, isAxisSeparator c = false := by
  have all : ∀ label ∈ axisLabels, ∀ c ∈ label, isAxisSeparator c = false := by decide
  exact all label listed

/-- The axis of a section is read column by column. -/
theorem parseHourAxis_eq {label : Text} {before after : List Text} {columns : List (Text × Text)}
    (axis : AxisAt label before (axisLine label columns) after)
    (spacing : ∀ column ∈ columns, IsSpaced isAxisSeparator column)
    (model : Text) (init : UtcTime)
    : parseHourAxis (before ++ axisLine label columns :: after) model init
      = (axisTimesFrom (countsHours label model) init [] (columns.map Prod.snd)).map
          fun times => times.map fun times => (times, after) := by
  have line : (before ++ axisLine label columns :: after).getD before.length []
      = axisLine label columns := by
    simp
  have behind : (before ++ axisLine label columns :: after).drop (before.length + 1) = after := by
    simp
  rw [parseHourAxis, axis.findAxis_eq]
  dsimp only
  rw [line, behind, axisHours_axisLine (label_solid axis.listed) spacing]
  cases axisTimesFrom (countsHours label model) init [] (columns.map Prod.snd) with
  | error panic => rfl
  | ok times => cases times <;> rfl

-----------------------------------------------------------------------------------------
-- Times on the hour
-----------------------------------------------------------------------------------------

def OnTheHour (time : Int) : Prop := time % hourLength = 0

instance (time : Int) : Decidable (OnTheHour time) := inferInstanceAs (Decidable (_ = _))

/-- The number of the day of a time. -/
def dayOf (time : Int) : Int := time / dayLength

/-- A time as its column shows it. -/
def hourText (time : Int) : Text := twoDigits (hourOf time)

theorem hourOf_lt (time : Int) : hourOf time < 24 := by
  have bounds := (clock_bounds time).1
  omega

theorem OnTheHour.eq {time : Int} (aligned : OnTheHour time)
    : time = dayOf time * dayLength + hourOf time * hourLength := by
  unfold OnTheHour at aligned
  unfold dayOf hourOf
  unfold dayLength hourLength at *
  omega

/-- Hours are read as they are written. -/
theorem hourText_reads (time : Int)
    : parseUnsigned (2 ^ 32) (hourText time) = some (hourOf time)
      ∧ (hourText time = "00".toList ↔ hourOf time = 0) := by
  have all : ∀ hour < 24,
      parseUnsigned (2 ^ 32) (twoDigits hour) = some hour
      ∧ (twoDigits hour = "00".toList ↔ hour = 0) := by
    decide +kernel
  exact all (hourOf time) (hourOf_lt time)

/-- An hour of the day on which the run starts. -/
theorem withHour_eq {init : Int} (aligned : OnTheHour init) {hour : Nat} (small : hour < 24)
    : withHour init hour = some (dayOf init * dayLength + hour * hourLength) := by
  have whole : init - hourOf init * hourLength + hour * hourLength
      = dayOf init * dayLength + hour * hourLength := by
    have parts := aligned.eq
    omega
  rw [withHour, if_pos small, whole]

-----------------------------------------------------------------------------------------
-- Carried days
-----------------------------------------------------------------------------------------

/-- Forecast times of a run: on the hour, from the start of the run on, each at most a day behind
the one before it, the first one on the day of the start.
-/
structure ForecastTimes (init : Int) (times : List Int) : Prop where
  aligned : ∀ time ∈ times, OnTheHour time
  known : ∀ time ∈ times, KnownYear (dateOf time).year
  starts : ∀ first ∈ times.head?, init ≤ first ∧ dayOf first = dayOf init
  advances
    : times.IsChain fun earlier later => earlier < later ∧ later ≤ earlier + dayLength

/-- No time but a midnight lies behind the day after the start, and no midnight follows another. -/
structure Carried (init : Int) (times : List Int) : Prop where
  days : ∀ time ∈ times, hourOf time ≠ 0 → dayOf time ≤ dayOf init + 1
  midnights : times.IsChain fun earlier later => hourOf earlier = 0 → hourOf later ≠ 0

/-- The next midnight is the only one within a day. -/
theorem next_midnight {earlier later : Int} (aligned : OnTheHour earlier)
    (laterAligned : OnTheHour later) (midnight : hourOf later = 0) (awake : hourOf earlier ≠ 0)
    (before : earlier < later) (within : later ≤ earlier + dayLength)
    : earlier + ((24 - hourOf earlier) % 24 : Nat) * hourLength = later := by
  have small := hourOf_lt earlier
  have first := aligned.eq
  have second := laterAligned.eq
  rw [midnight] at second
  have rest : ((24 - hourOf earlier) % 24 : Nat) = 24 - hourOf earlier := by omega
  rw [rest]
  unfold dayLength hourLength at *
  push_cast [Nat.le_of_lt small]
  omega

/-- The first column is right. -/
theorem axisTime_first {init time : Int} (initAligned : OnTheHour init)
    (aligned : OnTheHour time) (sameDay : dayOf time = dayOf init)
    : axisTime false init [] (hourText time) = .ok (some time) := by
  have whole := aligned.eq
  rw [sameDay] at whole
  simp only [axisTime, Bool.false_eq_true, if_false, List.length_nil, Nat.lt_irrefl, and_false,
    (hourText_reads time).1, Option.bind_some, withHour_eq initAligned (hourOf_lt time),
    List.getLast?_nil, Option.any_none]
  rw [← whole]
  rfl

theorem addTime_eq_ok_iff {time delta result : Int}
    : addTime time delta = .ok result ↔ time + delta = result ∧ KnownYear (dateOf result).year := by
  unfold addTime
  split
  · next known =>
      constructor
      · intro same
        obtain rfl : time + delta = result := Except.ok.inj same
        exact ⟨rfl, known⟩
      · rintro ⟨same, -⟩
        rw [← same]
  · next unknown =>
      constructor
      · nofun
      · rintro ⟨rfl, known⟩
        exact absurd known unknown

theorem map_some_eq_ok_iff {α : Type} {call : Except Panic α} {value : α}
    : (do let found ← call; return some found) = Except.ok (some value) ↔ call = .ok value := by
  cases call <;> simp [bind, Except.bind, pure, Except.pure]

/-- A midnight is right exactly behind another hour. -/
theorem axisTime_midnight {init last time : Int} (done : List Int) (lastAligned : OnTheHour last)
    (aligned : OnTheHour time) (known : KnownYear (dateOf time).year) (before : last < time)
    (within : time ≤ last + dayLength) (midnight : hourOf time = 0)
    : axisTime false init (done ++ [last]) (hourText time) = .ok (some time)
      ↔ hourOf last ≠ 0 := by
  have text := (hourText_reads time).2.mpr midnight
  simp only [axisTime, Bool.false_eq_true, if_false, text, List.length_append, List.length_cons,
    List.length_nil, Nat.zero_add, Nat.zero_lt_succ, and_self, if_true, List.getLast?_concat]
  rw [map_some_eq_ok_iff, addTime_eq_ok_iff]
  constructor
  · rintro ⟨same, -⟩ awake
    rw [awake] at same
    have stays : last + ((24 - 0) % 24 : Nat) * hourLength = last := by simp
    omega
  · intro awake
    exact ⟨next_midnight lastAligned aligned midnight awake before within, known⟩

/-- Another hour is right exactly on the day of the start and on the next one. -/
theorem axisTime_hour {init last time : Int} (initAligned : OnTheHour init) (done : List Int)
    (aligned : OnTheHour time) (known : KnownYear (dateOf time).year) (after : init ≤ last)
    (before : last < time) (within : time ≤ last + dayLength) (awake : hourOf time ≠ 0)
    : axisTime false init (done ++ [last]) (hourText time) = .ok (some time)
      ↔ dayOf time ≤ dayOf init + 1 := by
  have text : ¬ hourText time = "00".toList := (hourText_reads time).2.not.mpr awake
  have whole := aligned.eq
  have order : dayOf init ≤ dayOf time := by
    unfold dayOf dayLength
    omega
  simp only [axisTime, Bool.false_eq_true, if_false, text, false_and, (hourText_reads time).1,
    Option.bind_some, withHour_eq initAligned (hourOf_lt time), List.getLast?_concat,
    Option.any_some]
  split
  · next late =>
      rw [map_some_eq_ok_iff, addTime_eq_ok_iff]
      have late : dayOf init * dayLength + hourOf time * hourLength ≤ last := by simpa using late
      unfold dayLength at *
      constructor
      · rintro ⟨same, -⟩
        omega
      · intro near
        exact ⟨by omega, known⟩
  · next early =>
      have early : last < dayOf init * dayLength + hourOf time * hourLength := by
        simpa using early
      have same
          : (pure (some (dayOf init * dayLength + hourOf time * hourLength))
              : Except Panic (Option UtcTime)) = .ok (some time)
            ↔ dayOf init * dayLength + hourOf time * hourLength = time := by
        simp [pure, Except.pure]
      rw [same]
      unfold dayLength at *
      constructor <;> intro <;> omega

/-- A later column is right exactly if its day is carried to it. -/
theorem axisTime_next {init last time : Int} (initAligned : OnTheHour init)
    (done : List Int) (lastAligned : OnTheHour last) (aligned : OnTheHour time)
    (known : KnownYear (dateOf time).year) (after : init ≤ last) (before : last < time)
    (within : time ≤ last + dayLength)
    : axisTime false init (done ++ [last]) (hourText time) = .ok (some time)
      ↔ (hourOf time ≠ 0 → dayOf time ≤ dayOf init + 1)
        ∧ (hourOf last = 0 → hourOf time ≠ 0) := by
  by_cases midnight : hourOf time = 0
  · rw [axisTime_midnight done lastAligned aligned known before within midnight]
    simp [midnight]
  · rw [axisTime_hour initAligned done aligned known after before within midnight]
    simp [midnight]

-----------------------------------------------------------------------------------------
-- Runs along the axis
-----------------------------------------------------------------------------------------

/-- The times that were read are kept, by induction on the columns. -/
theorem prefix_axisTimesFrom {counts : Bool} {init : UtcTime} {times result : List UtcTime}
    {hours : List Text} (read : axisTimesFrom counts init times hours = .ok (some result))
    : times <+: result := by
  induction hours generalizing times with
  | nil =>
      obtain rfl := Option.some.inj (Except.ok.inj read)
      exact List.prefix_rfl
  | cons hour hours ih =>
      rw [axisTimesFrom] at read
      obtain ⟨found, -, later⟩ := exceptBind_ok_iff.mp read
      cases found with
      | none => cases later
      | some ts => exact (List.prefix_append times [ts]).trans (ih later)

/-- Another column is read exactly if its time is, and the rest behind it. -/
theorem axisTimesFrom_cons_iff {counts : Bool} {init time : UtcTime} {times rest : List UtcTime}
    {hour : Text} {hours : List Text}
    : axisTimesFrom counts init times (hour :: hours) = .ok (some (times ++ time :: rest))
      ↔ axisTime counts init times hour = .ok (some time)
        ∧ axisTimesFrom counts init (times ++ [time]) hours
          = .ok (some (times ++ [time] ++ rest)) := by
  rw [axisTimesFrom, exceptBind_ok_iff, List.append_assoc, List.singleton_append]
  constructor
  · rintro ⟨found, here, later⟩
    cases found with
    | none => cases later
    | some ts =>
        obtain ⟨more, same⟩ := prefix_axisTimesFrom later
        rw [List.append_assoc] at same
        obtain ⟨rfl, -⟩ := List.cons.inj (List.append_cancel_left same)
        exact ⟨here, later⟩
  · rintro ⟨here, later⟩
    exact ⟨some time, here, later⟩

/-- The columns behind the first one are right exactly if every day is carried, by induction. -/
theorem axisTimesFrom_iff {init last : Int} {rest : List Int} (initAligned : OnTheHour init)
    (done : List Int) (after : init ≤ last)
    (aligned : ∀ time ∈ last :: rest, OnTheHour time)
    (known : ∀ time ∈ last :: rest, KnownYear (dateOf time).year)
    (advances
      : (last :: rest).IsChain fun earlier later => earlier < later ∧ later ≤ earlier + dayLength)
    : axisTimesFrom false init (done ++ [last]) (rest.map hourText)
        = .ok (some (done ++ [last] ++ rest))
      ↔ (∀ time ∈ rest, hourOf time ≠ 0 → dayOf time ≤ dayOf init + 1)
        ∧ (last :: rest).IsChain fun earlier later => hourOf earlier = 0 → hourOf later ≠ 0 := by
  induction rest generalizing done last with
  | nil => simp [axisTimesFrom]
  | cons time rest ih =>
      obtain ⟨⟨before, within⟩, later⟩ := List.isChain_cons_cons.mp advances
      have lastAligned := aligned last (by simp)
      have timeAligned := aligned time (by simp)
      rw [List.map_cons, axisTimesFrom_cons_iff, List.isChain_cons_cons,
        axisTime_next initAligned done lastAligned timeAligned (known time (by simp)) after before
          within,
        ih (done ++ [last]) (by omega) (fun other member => aligned other (by simp [member]))
          (fun other member => known other (by simp [member])) later]
      simp only [List.forall_mem_cons]
      tauto

/-- The times of an axis of hours of the day are read exactly if every day is carried. -/
theorem axisTimes_iff {init : Int} {times : List Int} (initAligned : OnTheHour init)
    (forecast : ForecastTimes init times)
    : axisTimesFrom false init [] (times.map hourText) = .ok (some times)
      ↔ Carried init times := by
  obtain ⟨aligned, known, starts, advances⟩ := forecast
  cases times with
  | nil => exact ⟨fun _ => ⟨by simp, .nil⟩, fun _ => rfl⟩
  | cons first rest =>
      obtain ⟨after, sameDay⟩ := starts first rfl
      have here := axisTime_first initAligned (aligned first (by simp)) sameDay
      have later := axisTimesFrom_iff initAligned [] after aligned known advances
      have step := @axisTimesFrom_cons_iff false init first [] rest (hourText first)
        (rest.map hourText)
      rw [List.nil_append] at step
      rw [List.map_cons, step]
      simp only [here, true_and]
      rw [List.nil_append] at later
      rw [List.nil_append, later]
      constructor
      · rintro ⟨days, midnights⟩
        refine ⟨?_, midnights⟩
        intro time member awake
        rcases List.mem_cons.mp member with rfl | member
        · omega
        · exact days time member awake
      · rintro ⟨days, midnights⟩
        exact ⟨fun time member => days time (by simp [member]), midnights⟩

/-- An axis of hours of the day gives the times that it was written from exactly if no time but a
midnight lies behind the day after the start, and no midnight follows another.
-/
theorem parseHourAxis_iff {label model : Text} {before after : List Text} {init : Int}
    {columns : List (Text × Int)}
    (byDay : countsHours label model = false)
    (axis
      : AxisAt label before
          (axisLine label (columns.map fun (gap, time) => (gap, hourText time))) after)
    (gaps : ∀ column ∈ columns, column.1 ≠ [] ∧ IsGap isAxisSeparator column.1)
    (initAligned : OnTheHour init) (forecast : ForecastTimes init (columns.map Prod.snd))
    : parseHourAxis
          (before ++ axisLine label (columns.map fun (gap, time) => (gap, hourText time)) :: after)
          model init
        = .ok (some (columns.map Prod.snd, after))
      ↔ Carried init (columns.map Prod.snd) := by
  have solid (time : Int) : IsToken isAxisSeparator (hourText time) := by
    have all : ∀ hour < 24, IsToken isAxisSeparator (twoDigits hour) := by decide +kernel
    exact all (hourOf time) (hourOf_lt time)
  have spacing
      : ∀ column ∈ columns.map fun (gap, time) => (gap, hourText time),
          IsSpaced isAxisSeparator column := by
    intro column member
    obtain ⟨⟨gap, time⟩, listed, rfl⟩ := List.mem_map.mp member
    obtain ⟨apart, isGap⟩ := gaps (gap, time) listed
    exact ⟨apart, isGap, solid time⟩
  have texts : (columns.map fun (gap, time) => (gap, hourText time)).map Prod.snd
      = (columns.map Prod.snd).map hourText := by
    rw [List.map_map, List.map_map]
    rfl
  rw [parseHourAxis_eq axis spacing, byDay, texts, ← axisTimes_iff initAligned forecast]
  cases axisTimesFrom false init [] ((columns.map Prod.snd).map hourText) with
  | error panic => simp [Except.map]
  | ok times => cases times <;> simp [Except.map]

/-- Noon of a day in August. -/
def augustNoon : Int := instantOf ⟨2017, 8, 12⟩ 12 0

def hoursLater (hours : Int) : Int := augustNoon + hours * hourLength

/-- Columns up to the morning after the start, past one midnight. -/
def overnight : List (Text × Int) :=
  [("   ".toList, hoursLater 6), (" ".toList, hoursLater 9), (" ".toList, hoursLater 12),
    (" ".toList, hoursLater 15)]

theorem overnight_read
    : parseHourAxis ["HR   18 21 00 03".toList] "NAM".toList augustNoon
      = .ok (some (overnight.map Prod.snd, [])) := by
  have forecast : ForecastTimes augustNoon (overnight.map Prod.snd) :=
    ⟨by decide +kernel, by decide +kernel, by decide +kernel, by decide +kernel⟩
  have axis
      : AxisAt "HR".toList []
          (axisLine "HR".toList (overnight.map fun (gap, time) => (gap, hourText time))) [] :=
    ⟨by decide, by decide +kernel, by decide, by decide +kernel⟩
  exact (parseHourAxis_iff (by decide) axis (by decide) (by decide +kernel) forecast).mpr
    ⟨by decide +kernel, by decide +kernel⟩

/-- Columns at six in the evening and in the morning of three days. -/
def threeDays : List (Text × Int) :=
  [("   ".toList, hoursLater 6), (" ".toList, hoursLater 18), (" ".toList, hoursLater 30),
    (" ".toList, hoursLater 42)]

/-- The last column comes out as the second one: the third day is never reached. -/
theorem threeDays_misread
    : ForecastTimes augustNoon (threeDays.map Prod.snd)
      ∧ AxisAt "HR".toList []
          (axisLine "HR".toList (threeDays.map fun (gap, time) => (gap, hourText time))) []
      ∧ parseHourAxis
            [axisLine "HR".toList (threeDays.map fun (gap, time) => (gap, hourText time))]
            "NAM".toList augustNoon
          ≠ .ok (some (threeDays.map Prod.snd, [])) := by
  refine ⟨⟨by decide +kernel, by decide +kernel, by decide +kernel, by decide +kernel⟩,
    ⟨by decide, by decide +kernel, by decide, by decide +kernel⟩, ?_⟩
  have read
      : parseHourAxis
            [axisLine "HR".toList (threeDays.map fun (gap, time) => (gap, hourText time))]
            "NAM".toList augustNoon
          = .ok (some ([hoursLater 6, hoursLater 18, hoursLater 30, hoursLater 18], [])) := by
    rfl
  rw [read]
  intro same
  have times := congrArg Prod.fst (Option.some.inj (Except.ok.inj same))
  exact absurd times (by decide +kernel)

end Emwin.Parser
