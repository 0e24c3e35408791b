import Mathlib.Analysis.Convex.Basic
import Mathlib.Order.CompletePartialOrder
import Mathlib.Tactic.LinearCombination
import Mathlib.Tactic.Linarith
import Mathlib.Tactic.FieldSimp
import Mathlib.Tactic.Ring

/-! Segments in the plane: the sides of a line that points are on, and how two segments meet. -/

namespace Library

variable {K : Type} [Field K]

/-- On which side of the line through two points a third one is. -/
def orient (first second third : K × K) : K :=
  (second.2 - first.2) * (third.1 - second.1) - (second.1 - first.1) * (third.2 - second.2)

/-- The point at a share of the way from one point to another. -/
def along (start stop : K × K) (share : K) : K × K :=
  (start.1 + share * (stop.1 - start.1), start.2 + share * (stop.2 - start.2))

@[simp] theorem along_zero (start stop : K × K) : along start stop 0 = start := by simp [along]

@[simp] theorem along_one (start stop : K × K) : along start stop 1 = stop := by simp [along]

theorem along_along (start stop : K × K) (near far share : K)
    : along (along start stop near) (along start stop far) share
      = along start stop (near + share * (far - near)) := by
  refine Prod.ext ?_ ?_ <;> simp only [along] <;> ring

/-- The side changes evenly along a segment. -/
theorem orient_along (first second start stop : K × K) (share : K)
    : orient first second (along start stop share)
      = (1 - share) * orient first second start + share * orient first second stop := by
  simp only [orient, along]
  ring

theorem orient_along_self (start stop : K × K) (share : K)
    : orient start stop (along start stop share) = 0 := by
  simp only [orient, along]
  ring

theorem along_injective {start stop : K × K} (different : start ≠ stop) {left right : K}
    (same : along start stop left = along start stop right)
    : left = right := by
  have first := congrArg Prod.fst same
  have second := congrArg Prod.snd same
  simp only [along, add_right_inj, mul_eq_mul_right_iff, sub_eq_zero] at first second
  rcases first with equal | first
  · exact equal
  · rcases second with equal | second
    · exact equal
    · exact absurd (Prod.ext first.symm second.symm) different

/-- A point on the line through two points is at a share of the way. -/
theorem exists_along {start stop point : K × K} (different : start ≠ stop)
    (on : orient start stop point = 0)
    : ∃ share, point = along start stop share := by
  rw [orient, sub_eq_zero] at on
  by_cases first : stop.1 - start.1 = 0
  · have second : stop.2 - start.2 ≠ 0 := by
      intro second
      exact different (Prod.ext (sub_eq_zero.mp first).symm (sub_eq_zero.mp second).symm)
    refine ⟨(point.2 - start.2) / (stop.2 - start.2), Prod.ext ?_ ?_⟩
    · rw [first, zero_mul] at on
      have here : point.1 - stop.1 = 0 := (mul_eq_zero.mp on).resolve_left second
      simp only [along, first, mul_zero, add_zero]
      linear_combination here + first
    · simp only [along]
      field_simp
      ring
  · refine ⟨(point.1 - start.1) / (stop.1 - start.1), Prod.ext ?_ ?_⟩
    · simp only [along]
      field_simp
      ring
    · simp only [along]
      field_simp
      linear_combination -on

-----------------------------------------------------------------------------------------
-- Meeting
-----------------------------------------------------------------------------------------

variable [LinearOrder K] [IsStrictOrderedRing K]

theorem mem_segment_iff {start stop point : K × K}
    : point ∈ segment K start stop
      ↔ ∃ share, 0 ≤ share ∧ share ≤ 1 ∧ point = along start stop share := by
  rw [segment_eq_image']
  constructor
  · rintro ⟨share, ⟨low, high⟩, rfl⟩
    exact ⟨share, low, high, rfl⟩
  · rintro ⟨share, low, high, rfl⟩
    exact ⟨share, ⟨low, high⟩, rfl⟩

/-- The ends of either segment are on different sides of the other one. -/
def Crosses (a b c d : K × K) : Prop :=
  orient a b c * orient a b d < 0 ∧ orient c d a * orient c d b < 0

/-- An end of one segment is on the other one. -/
def Touches (a b c d : K × K) : Prop :=
  a ∈ segment K c d ∨ b ∈ segment K c d ∨ c ∈ segment K a b ∨ d ∈ segment K a b

omit [IsStrictOrderedRing K] in
theorem Touches.symm {a b c d : K × K} (touches : Touches a b c d) : Touches c d a b := by
  rcases touches with one | two | three | four
  · exact .inr (.inr (.inl one))
  · exact .inr (.inr (.inr two))
  · exact .inl three
  · exact .inr (.inl four)

/-- Two segments of one line that meet. -/
theorem touches_of_line {a b c d point : K × K} (onFirst : point ∈ segment K a b)
    (onSecond : point ∈ segment K c d) (start : orient a b c = 0) (stop : orient a b d = 0)
    : Touches a b c d := by
  by_cases different : a = b
  · rw [← different, segment_same, Set.mem_singleton_iff] at onFirst
    exact .inl (onFirst ▸ onSecond)
  obtain ⟨γ, rfl⟩ := exists_along different start
  obtain ⟨δ, rfl⟩ := exists_along different stop
  obtain ⟨t, low, high, rfl⟩ := mem_segment_iff.mp onFirst
  obtain ⟨s, zero, one, same⟩ := mem_segment_iff.mp onSecond
  rw [along_along] at same
  have between := along_injective different same
  by_cases inside : 0 ≤ γ ∧ γ ≤ 1
  · exact .inr (.inr (.inl (mem_segment_iff.mpr ⟨γ, inside.1, inside.2, rfl⟩)))
  by_cases inside' : 0 ≤ δ ∧ δ ≤ 1
  · exact .inr (.inr (.inr (mem_segment_iff.mpr ⟨δ, inside'.1, inside'.2, rfl⟩)))
  -- both ends of the second segment are beyond an end of the first one, each beyond another
  have apart : γ ≠ δ := by
    rintro rfl
    rw [sub_self, mul_zero, add_zero] at between
    exact inside (between ▸ ⟨low, high⟩)
  have combined : (1 - s) • γ + s • δ = t := by
    rw [between, smul_eq_mul, smul_eq_mul]
    ring
  have opposite : γ < 0 ∧ 1 < δ ∨ 1 < γ ∧ δ < 0 := by
    rw [not_and_or, not_le, not_le] at inside inside'
    rcases inside with below | above
    · rcases inside' with below' | above'
      · have under := @convex_Iio K _ _ _ _ _ _ _ _ (0 : K) γ below δ below' (1 - s) s
          (sub_nonneg.mpr one) zero (sub_add_cancel 1 s)
        rw [combined] at under
        exact absurd under (not_lt.mpr low)
      · exact .inl ⟨below, above'⟩
    · rcases inside' with below' | above'
      · exact .inr ⟨above, below'⟩
      · have beyond := @convex_Ioi K _ _ _ _ _ _ _ _ (1 : K) γ above δ above' (1 - s) s
          (sub_nonneg.mpr one) zero (sub_add_cancel 1 s)
        rw [combined] at beyond
        exact absurd beyond (not_lt.mpr high)
  refine .inl (mem_segment_iff.mpr ⟨γ / (γ - δ), ?_, ?_, ?_⟩)
  · rcases opposite with ⟨below, above⟩ | ⟨above, below⟩
    · exact div_nonneg_of_nonpos below.le (by linarith)
    · exact div_nonneg (by linarith) (by linarith)
  · rcases opposite with ⟨below, above⟩ | ⟨above, below⟩
    · rw [div_le_one_of_neg (by linarith)]
      linarith
    · rw [div_le_one (by linarith)]
      linarith
  · have further : γ - δ ≠ 0 := sub_ne_zero.mpr apart
    rw [along_along]
    have back : γ + γ / (γ - δ) * (δ - γ) = 0 := by
      field_simp
      ring
    rw [back, along_zero]

/-- Two segments that meet cross or touch. -/
theorem crosses_or_touches {a b c d point : K × K} (onFirst : point ∈ segment K a b)
    (onSecond : point ∈ segment K c d)
    : Crosses a b c d ∨ Touches a b c d := by
  by_cases touches : Touches a b c d
  · exact .inr touches
  refine .inl ?_
  -- a share of an end puts that end on the other segment
  have strict {a b c d : K × K} (apart : ¬ Touches a b c d) (onFirst : point ∈ segment K a b)
      (onSecond : point ∈ segment K c d) : orient a b c * orient a b d < 0 := by
    obtain ⟨t, -, -, line⟩ := mem_segment_iff.mp onFirst
    obtain ⟨s, low, high, place⟩ := mem_segment_iff.mp onSecond
    have positive : 0 < s := by
      refine lt_of_le_of_ne low fun zero => apart ?_
      rw [← zero, along_zero] at place
      exact .inr (.inr (.inl (place ▸ onFirst)))
    have less : s < 1 := by
      refine lt_of_le_of_ne high fun one => apart ?_
      rw [one, along_one] at place
      exact .inr (.inr (.inr (place ▸ onFirst)))
    have balance : (1 - s) * orient a b c + s * orient a b d = 0 := by
      rw [← orient_along, ← place, line, orient_along_self]
    have nonzero : orient a b c ≠ 0 := by
      intro zero
      rw [zero, mul_zero, zero_add] at balance
      have other := (mul_eq_zero.mp balance).resolve_left positive.ne'
      exact apart (touches_of_line onFirst onSecond zero other)
    have square : 0 < orient a b c * orient a b c := mul_self_pos.mpr nonzero
    have product : s * (orient a b c * orient a b d)
        = -((1 - s) * (orient a b c * orient a b c)) := by
      linear_combination orient a b c * balance
    have negative : s * (orient a b c * orient a b d) < 0 := by
      rw [product, neg_lt_zero]
      exact mul_pos (by linarith) square
    exact (pos_iff_neg_of_mul_neg negative).mp positive
  exact ⟨strict touches onFirst onSecond, strict (fun back => touches back.symm) onSecond onFirst⟩

-----------------------------------------------------------------------------------------
-- Closed lines
-----------------------------------------------------------------------------------------

/-- A corner of a line, by its number. -/
def corner (line : List (K × K)) (index : Nat) : K × K := line.getD index 0

def side (line : List (K × K)) (index : Nat) : Set (K × K) :=
  segment K (corner line index) (corner line (index + 1))

theorem succ_mod {count number : Nat} (fits : number < count)
    : (number + 1) % count = if number + 1 = count then 0 else number + 1 := by
  split
  · next last => rw [last, Nat.mod_self]
  · exact Nat.mod_eq_of_lt (by omega)

/-- Two of some sides that go around are neither the same nor neighbours. -/
def SidesApart (count first second : Nat) : Prop :=
  first ≠ second ∧ (first + 1) % count ≠ second ∧ (second + 1) % count ≠ first

theorem SidesApart.symm {count first second : Nat} (apart : SidesApart count first second)
    : SidesApart count second first :=
  ⟨apart.1.symm, apart.2.2, apart.2.1⟩

/-- A closed line around an area: sides that are not neighbours have no point in common. -/
structure IsSimpleRing (line : List (K × K)) : Prop where
  four : 4 ≤ line.length
  closed : line.head? = line.getLast?
  apart : ∀ first second, first < line.length - 1 → second < line.length - 1
    → SidesApart (line.length - 1) first second → Disjoint (side line first) (side line second)

/-- Some two sides that are no neighbours cross. -/
def SidesCross (line : List (K × K)) : Prop :=
  ∃ first second, first < line.length - 1 ∧ second < line.length - 1
    ∧ SidesApart (line.length - 1) first second
    ∧ Crosses (corner line first) (corner line (first + 1)) (corner line second)
        (corner line (second + 1))

/-- Some corner is on a side that it is not an end of. -/
def CornerOnSide (line : List (K × K)) : Prop :=
  ∃ place index, place < line.length - 1 ∧ index < line.length - 1
    ∧ place ≠ index ∧ place ≠ (index + 1) % (line.length - 1)
    ∧ corner line place ∈ side line index

omit [LinearOrder K] [IsStrictOrderedRing K] in
theorem corner_last {line : List (K × K)} (closed : line.head? = line.getLast?)
    : corner line (line.length - 1) = corner line 0 := by
  rw [corner, corner, List.getD_eq_getElem?_getD, List.getD_eq_getElem?_getD,
    ← List.getLast?_eq_getElem?, ← List.head?_eq_getElem?, closed]

omit [LinearOrder K] [IsStrictOrderedRing K] in
/-- The corners at the ends of a side, counted around. -/
theorem corner_succ {line : List (K × K)} (closed : line.head? = line.getLast?) {index : Nat}
    (inside : index < line.length - 1)
    : corner line (index + 1) = corner line ((index + 1) % (line.length - 1)) := by
  by_cases last : index + 1 = line.length - 1
  · rw [last, Nat.mod_self, corner_last closed]
  · rw [Nat.mod_eq_of_lt (by omega)]

/-- A side that starts or ends in a corner, and is no neighbour of another side. -/
theorem exists_side_of_corner {count place index : Nat} (four : 4 ≤ count) (inside : place < count)
    (within : index < count) (noStart : place ≠ index) (noEnd : place ≠ (index + 1) % count)
    : ∃ other, other < count ∧ SidesApart count other index
        ∧ (place = other ∨ place = (other + 1) % count) := by
  rw [succ_mod within] at noEnd
  by_cases behind : (place + 1) % count = index
  · -- the side from the corner is a neighbour, the one to it is not
    rw [succ_mod inside] at behind
    refine ⟨if place = 0 then count - 1 else place - 1, by split <;> omega, ?_, .inr ?_⟩
    · refine ⟨by split <;> split at behind <;> omega, ?_, ?_⟩
      · rw [succ_mod (by split <;> omega)]
        split <;> split <;> split at behind <;> omega
      · rw [succ_mod within]
        split <;> split <;> split at behind <;> split at noEnd <;> omega
    · rw [succ_mod (by split <;> omega)]
      split <;> split <;> omega
  · refine ⟨place, inside, ⟨noStart, behind, ?_⟩, .inl rfl⟩
    rw [succ_mod within]
    exact noEnd.symm

/-- Without a crossing, sides meet only in a corner. -/
theorem apart_iff_of_uncrossed {line : List (K × K)} (closed : line.head? = line.getLast?)
    (five : 4 < line.length) (uncrossed : ¬ SidesCross line)
    : (∀ first second, first < line.length - 1 → second < line.length - 1
        → SidesApart (line.length - 1) first second
        → Disjoint (side line first) (side line second))
      ↔ ¬ CornerOnSide line := by
  constructor
  · rintro apart ⟨place, index, inside, within, noStart, noEnd, on⟩
    obtain ⟨other, fits, free, isEnd⟩ :=
      exists_side_of_corner (by omega) inside within noStart noEnd
    have also : corner line place ∈ side line other := by
      rcases isEnd with rfl | rfl
      · exact left_mem_segment K _ _
      · rw [← corner_succ closed fits]
        exact right_mem_segment K _ _
    exact Set.disjoint_left.mp (apart other index fits within free) also on
  · intro noCorner first second inFirst inSecond free
    refine Set.disjoint_left.mpr fun point onFirst onSecond => ?_
    -- an end of one side on the other one is a corner on it
    have corners {left right : Nat} (inLeft : left < line.length - 1)
        (inRight : right < line.length - 1) (free : SidesApart (line.length - 1) left right)
        : corner line left ∉ side line right ∧ corner line (left + 1) ∉ side line right := by
      have turned : (left + 1) % (line.length - 1) ≠ (right + 1) % (line.length - 1) := by
        rw [succ_mod inLeft, succ_mod inRight]
        have different := free.1
        split <;> split <;> omega
      refine ⟨fun on => noCorner ⟨left, right, inLeft, inRight, free.1, free.2.2.symm, on⟩, ?_⟩
      rw [corner_succ closed inLeft]
      exact fun on => noCorner ⟨_, right, Nat.mod_lt _ (by omega), inRight, free.2.1,
        turned, on⟩
    obtain ⟨one, two⟩ := corners inFirst inSecond free
    obtain ⟨three, four⟩ := corners inSecond inFirst free.symm
    rcases crosses_or_touches onFirst onSecond with crosses | touches
    · exact uncrossed ⟨first, second, inFirst, inSecond, free, crosses⟩
    · rcases touches with on | on | on | on
      · exact one on
      · exact two on
      · exact three on
      · exact four on

end Library
