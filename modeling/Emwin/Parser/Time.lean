import Emwin.Parser.Support

/-! Day and clock readings resolved against a reference time. -/

namespace Emwin.Parser
open Library

variable (calendar : Calendar)

/-- A value of type `i32`. -/
def checkedI32 (value : Int) : Except Panic Int :=
  if -2 ^ 31 ≤ value ∧ value < 2 ^ 31 then .ok value else .error .overflow

/-- A value of type `u32` from a subtraction. -/
def checkedSub (left right : Nat) : Except Panic Nat :=
  if right ≤ left then .ok (left - right) else .error .overflow

/-- The previous, the current and the next month. -/
def surroundingMonths (year : Int) (month : Nat) : Except Panic (List (Int × Nat)) := do
  let previous ←
    if month = 1 then do
      let before ← checkedI32 (year - 1)
      pure (before, 12)
    else do
      let before ← checkedSub month 1
      pure (year, before)
  let next ←
    if month = 12 then do
      let after ← checkedI32 (year + 1)
      pure (after, 1)
    else pure (year, month + 1)
  return [previous, (year, month), next]

def candidateDatetimes (reference : UtcTime) (day hour minute : Nat)
    : Except Panic (Option (List UtcTime)) := do
  if day = 0 ∨ 31 < day ∨ 23 < hour ∨ 59 < minute then return none
  let months ← surroundingMonths (calendar.year reference) (calendar.month reference)
  let candidates := months.filterMap fun (year, month) => calendar.timeOf year month day hour minute
  return if candidates = [] then none else some candidates

def resolveDayTimeNotBefore (reference : UtcTime) (day hour minute : Nat)
    : Except Panic (Option UtcTime) := do
  match ← candidateDatetimes calendar reference day hour minute with
  | none => return none
  | some candidates =>
      return ((candidates.filter (reference ≤ ·)).min?).or candidates.max?

/-- `min_by_key`: of several least elements the first one. -/
def minByKey {α : Type} (key : α → Int) : List α → Option α
  | [] => none
  | first :: rest =>
      some (rest.foldl (fun best next => if key next < key best then next else best) first)

/-- Whole seconds between two times, without the sign. -/
def secondsApart (candidate reference : UtcTime) : Int :=
  ((candidate - reference).tdiv (10 ^ 9)).natAbs

def resolveDayTimeNearest (reference : UtcTime) (day hour minute : Nat)
    : Except Panic (Option UtcTime) := do
  match ← candidateDatetimes calendar reference day hour minute with
  | none => return none
  | some candidates => return minByKey (secondsApart · reference) candidates

def resolveClockTimeNearest (reference : UtcTime) (hour minute : Nat) : Option UtcTime :=
  if 23 < hour ∨ 59 < minute then none
  else do
    let yesterday ← calendar.clockOn reference (-1) hour minute
    let today ← calendar.clockOn reference 0 hour minute
    let tomorrow ← calendar.clockOn reference 1 hour minute
    minByKey (secondsApart · reference) [yesterday, today, tomorrow]

-----------------------------------------------------------------------------------------
-- No overflow
-----------------------------------------------------------------------------------------

/-- The months around a month of the calendar are in range. -/
theorem returns_surroundingMonths {year : Int} {month : Nat}
    (inRange : -262143 ≤ year ∧ year ≤ 262142) (positive : 1 ≤ month)
    : Returns (surroundingMonths year month) := by
  have before : checkedI32 (year - 1) = .ok (year - 1) := if_pos (by omega)
  have after : checkedI32 (year + 1) = .ok (year + 1) := if_pos (by omega)
  have earlier : checkedSub month 1 = .ok (month - 1) := if_pos positive
  unfold surroundingMonths
  rw [before, after, earlier]
  split <;> split <;> exact ⟨_, rfl⟩

theorem returns_resolveDayTimeNotBefore (reference : UtcTime) (day hour minute : Nat)
    : Returns (resolveDayTimeNotBefore calendar reference day hour minute) := by
  have found : Returns (candidateDatetimes calendar reference day hour minute) := by
    unfold candidateDatetimes
    split
    · exact returns_pure _
    · exact (returns_surroundingMonths (calendar.yearInRange reference)
        (calendar.monthInRange reference).1).bind fun months _ => returns_pure _
  refine found.bind fun candidates _ => ?_
  cases candidates with
  | none => exact returns_pure _
  | some list => exact returns_pure _

end Emwin.Parser
