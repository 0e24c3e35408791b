import Mathlib.Data.Int.Log
import Mathlib.Data.Rat.Floor
import Mathlib.Algebra.Order.Field.Power
import Mathlib.Tactic.FieldSimp
import Mathlib.Tactic.Linarith
import Mathlib.Tactic.Positivity
import Mathlib.Tactic.Ring

/-! Rounding to doubles, for numbers that are not negative and whose result is normal: 53
significant binary digits, ties to even.
-/

namespace Library

/-- The nearest integer; of two nearest ones the even one. -/
def roundEven (x : ℚ) : ℤ :=
  if x < ⌊x⌋ + 1 / 2 ∨ (x = ⌊x⌋ + 1 / 2 ∧ Even ⌊x⌋) then ⌊x⌋ else ⌊x⌋ + 1

/-- Exponent of the last digit that a double near the number has. -/
def lastDigit (x : ℚ) : ℤ := Int.log 2 x - 52

/-- The nearest double. -/
def roundDouble (x : ℚ) : ℚ := roundEven (x / 2 ^ lastDigit x) * 2 ^ lastDigit x

-----------------------------------------------------------------------------------------
-- Rounding to integers
-----------------------------------------------------------------------------------------

theorem floor_le_roundEven (x : ℚ) : ⌊x⌋ ≤ roundEven x := by
  unfold roundEven
  split_ifs <;> omega

theorem roundEven_le_floor_succ (x : ℚ) : roundEven x ≤ ⌊x⌋ + 1 := by
  unfold roundEven
  split_ifs <;> omega

@[simp] theorem roundEven_intCast (n : ℤ) : roundEven n = n := by
  have below : (n : ℚ) < n + 1 / 2 := by linarith
  rw [roundEven, Int.floor_intCast, if_pos (.inl below)]

theorem roundEven_mono {x y : ℚ} (le : x ≤ y) : roundEven x ≤ roundEven y := by
  rcases (Int.floor_mono le).eq_or_lt with same | less
  · unfold roundEven
    rw [← same]
    split_ifs with down up
    · exact le_rfl
    · omega
    · next up =>
        -- the larger number is not above the middle, so neither is the smaller one
        exfalso
        apply down
        rcases up with below | ⟨tie, even⟩
        · exact .inl (by linarith)
        · rcases le.eq_or_lt with equal | strict
          · exact .inr ⟨equal ▸ tie, even⟩
          · exact .inl (by linarith)
    · exact le_rfl
  · calc roundEven x
        ≤ ⌊x⌋ + 1 := roundEven_le_floor_succ x
      _ ≤ ⌊y⌋ := less
      _ ≤ roundEven y := floor_le_roundEven y

theorem abs_roundEven_sub_le (x : ℚ) : |(roundEven x : ℚ) - x| ≤ 1 / 2 := by
  have low := Int.floor_le x
  have high := Int.lt_floor_add_one x
  unfold roundEven
  split_ifs with down
  · rw [abs_sub_comm, abs_of_nonneg (by linarith)]
    rcases down with below | ⟨tie, -⟩ <;> linarith
  · have up : (⌊x⌋ : ℚ) + 1 / 2 ≤ x := not_lt.mp fun below => down (.inl below)
    push_cast
    rw [abs_of_nonneg (by linarith)]
    linarith

-----------------------------------------------------------------------------------------
-- Rounding to doubles
-----------------------------------------------------------------------------------------

section
variable {x y : ℚ}

@[simp] theorem roundDouble_zero : roundDouble 0 = 0 := by
  have zero : roundEven 0 = 0 := roundEven_intCast 0
  simp [roundDouble, zero]

theorem scale_pos (x : ℚ) : (0 : ℚ) < 2 ^ lastDigit x := by positivity

/-- The scaled number has its leading digit in the place before the last. -/
theorem scaled_between (positive : 0 < x)
    : (2 ^ 52 : ℤ) ≤ x / 2 ^ lastDigit x ∧ x / 2 ^ lastDigit x ≤ (2 ^ 53 : ℤ) := by
  have scale := scale_pos x
  have low : (2 : ℚ) ^ Int.log 2 x ≤ x := by
    exact_mod_cast Int.zpow_log_le_self (by norm_num) positive
  have high : x < (2 : ℚ) ^ (Int.log 2 x + 1) := by
    exact_mod_cast Int.lt_zpow_succ_log_self (b := 2) (by norm_num) x
  constructor
  · rw [le_div_iff₀ scale]
    refine le_trans (le_of_eq ?_) low
    rw [lastDigit, zpow_sub₀ (by norm_num)]
    norm_num
    ring
  · rw [div_le_iff₀ scale]
    refine high.le.trans (le_of_eq ?_)
    rw [lastDigit, zpow_sub₀ (by norm_num), zpow_add₀ (by norm_num)]
    norm_num
    ring

/-- A double has 53 significant digits. -/
theorem digits_between (positive : 0 < x)
    : 2 ^ 52 ≤ roundEven (x / 2 ^ lastDigit x)
      ∧ roundEven (x / 2 ^ lastDigit x) ≤ 2 ^ 53 := by
  obtain ⟨low, high⟩ := scaled_between positive
  exact ⟨roundEven_intCast (2 ^ 52) ▸ roundEven_mono low,
    roundEven_intCast (2 ^ 53) ▸ roundEven_mono high⟩

theorem roundDouble_nonneg (nonneg : 0 ≤ x) : 0 ≤ roundDouble x := by
  have scale := scale_pos x
  have digits : 0 ≤ roundEven (x / 2 ^ lastDigit x) :=
    roundEven_intCast 0 ▸ roundEven_mono (by positivity)
  unfold roundDouble
  positivity

theorem roundDouble_pos (positive : 0 < x) : 0 < roundDouble x := by
  have scale := scale_pos x
  have digits : 0 < roundEven (x / 2 ^ lastDigit x) := by
    have low := (digits_between positive).1
    omega
  unfold roundDouble
  positivity

theorem lastDigit_mono (positive : 0 < x) (le : x ≤ y) : lastDigit x ≤ lastDigit y :=
  Int.sub_le_sub_right (Int.log_mono_right positive le) 52

/-- Rounding keeps the order. Between different exponents lies a power of two. -/
theorem roundDouble_mono (nonneg : 0 ≤ x) (le : x ≤ y) : roundDouble x ≤ roundDouble y := by
  rcases nonneg.eq_or_lt with rfl | positive
  · rw [roundDouble_zero]
    exact roundDouble_nonneg le
  · rcases (lastDigit_mono positive le).eq_or_lt with same | less
    · have scale := scale_pos y
      unfold roundDouble
      rw [same]
      have digits : roundEven (x / 2 ^ lastDigit y) ≤ roundEven (y / 2 ^ lastDigit y) :=
        roundEven_mono (by gcongr)
      gcongr
    · have high := (digits_between positive).2
      have low := (digits_between (positive.trans_le le)).1
      calc roundDouble x
          ≤ (2 ^ 53 : ℤ) * 2 ^ lastDigit x := by
            unfold roundDouble
            gcongr
        _ = (2 ^ 52 : ℤ) * 2 ^ (lastDigit x + 1) := by
            rw [zpow_add₀ (by norm_num)]
            norm_num
            ring
        _ ≤ (2 ^ 52 : ℤ) * 2 ^ lastDigit y := by
            gcongr
            · norm_num
            · exact less
        _ ≤ roundDouble y := by
            unfold roundDouble
            gcongr

/-- Rounding moves a number by at most half of its last digit. -/
theorem abs_roundDouble_sub_le (x : ℚ) : |roundDouble x - x| ≤ 2 ^ lastDigit x / 2 := by
  have scale := scale_pos x
  have scaled : roundDouble x - x
      = (roundEven (x / 2 ^ lastDigit x) - x / 2 ^ lastDigit x) * 2 ^ lastDigit x := by
    unfold roundDouble
    field_simp
  rw [scaled, abs_mul, abs_of_pos scale]
  calc |(roundEven (x / 2 ^ lastDigit x) : ℚ) - x / 2 ^ lastDigit x| * 2 ^ lastDigit x
      ≤ 1 / 2 * 2 ^ lastDigit x := by
        gcongr
        exact abs_roundEven_sub_le _
    _ = 2 ^ lastDigit x / 2 := by ring

/-- Numbers that are more than a last digit apart differ after rounding. -/
theorem roundDouble_lt_of_gap (nonneg : 0 ≤ x) (gap : x + 2 ^ lastDigit y < y)
    : roundDouble x < roundDouble y := by
  have scale := scale_pos y
  have right := (abs_le.mp (abs_roundDouble_sub_le y)).1
  rcases nonneg.eq_or_lt with rfl | positive
  · rw [roundDouble_zero]
    exact roundDouble_pos (by linarith)
  · have left := (abs_le.mp (abs_roundDouble_sub_le x)).2
    have scales : (2 : ℚ) ^ lastDigit x ≤ 2 ^ lastDigit y := by
      gcongr
      · norm_num
      · exact lastDigit_mono positive (by linarith)
    linarith

/-- Quotients of small numbers differ after rounding if they do before. -/
theorem roundDouble_quotient_lt {a b c d : ℕ} (left : 0 < b) (right : 0 < d)
    (small : b * c < 2 ^ 52) (less : a * d < c * b)
    : roundDouble (a / b) < roundDouble (c / d) := by
  have left : (0 : ℚ) < b := by exact_mod_cast left
  have right : (0 : ℚ) < d := by exact_mod_cast right
  have top : (0 : ℚ) < c := by
    have nonzero : 0 < c := Nat.pos_of_mul_pos_right (lt_of_le_of_lt (Nat.zero_le _) less)
    exact_mod_cast nonzero
  refine roundDouble_lt_of_gap (by positivity) ?_
  have digit : (2 : ℚ) ^ lastDigit (c / d : ℚ) * 2 ^ 52 ≤ c / d := by
    have low := (scaled_between (x := (c / d : ℚ)) (by positivity)).1
    rw [le_div_iff₀ (scale_pos _)] at low
    push_cast at low
    linarith
  have apart : (a : ℚ) / b + 1 / (b * d) ≤ c / d := by
    have step : (a : ℚ) * d + 1 ≤ c * b := by exact_mod_cast less
    rw [div_add_div _ _ left.ne' (by positivity), div_le_div_iff₀ (by positivity) right]
    nlinarith [mul_pos left right, mul_pos (mul_pos left right) right]
  have share : (c / d : ℚ) < 2 ^ 52 * (1 / (b * d)) := by
    have small : (b : ℚ) * c < 2 ^ 52 := by exact_mod_cast small
    rw [mul_one_div, div_lt_div_iff₀ right (by positivity)]
    nlinarith
  linarith

theorem roundDouble_quotient_inj {a b c d : ℕ} (left : 0 < b) (right : 0 < d)
    (small : b * c < 2 ^ 52) (small' : d * a < 2 ^ 52)
    : roundDouble (a / b) = roundDouble (c / d) ↔ a * d = c * b := by
  constructor
  · intro same
    rcases lt_trichotomy (a * d) (c * b) with less | equal | greater
    · exact absurd same (roundDouble_quotient_lt left right small less).ne
    · exact equal
    · exact absurd same (roundDouble_quotient_lt right left small' greater).ne'
  · intro equal
    have left : (b : ℚ) ≠ 0 := by exact_mod_cast left.ne'
    have right : (d : ℚ) ≠ 0 := by exact_mod_cast right.ne'
    have products : (a : ℚ) * d = c * b := by exact_mod_cast equal
    rw [(div_eq_div_iff left right).mpr products]

/-- A number that is a whole multiple of its last digit is a double. -/
theorem roundDouble_eq_self {n : ℤ} (whole : x / 2 ^ lastDigit x = n) : roundDouble x = x := by
  unfold roundDouble
  rw [whole, roundEven_intCast, ← whole]
  field_simp

/-- Small natural numbers are doubles. -/
theorem roundDouble_natCast {n : ℕ} (small : n ≤ 2 ^ 53) : roundDouble n = n := by
  rcases Nat.eq_zero_or_pos n with rfl | positive
  · simp
  have digit : lastDigit (n : ℚ) = Nat.log 2 n - 52 := by
    rw [lastDigit, Int.log_natCast]
  rcases small.eq_or_lt with rfl | less
  · refine roundDouble_eq_self (n := 2 ^ 52) ?_
    rw [digit, Nat.log_pow (by norm_num)]
    norm_num
  · have short : Nat.log 2 n ≤ 52 := Nat.lt_succ_iff.mp (Nat.log_lt_of_lt_pow positive.ne' less)
    obtain ⟨missing, complete⟩ := Nat.exists_eq_add_of_le short
    have exponent : lastDigit (n : ℚ) = -(missing : ℤ) := by
      rw [digit]
      omega
    refine roundDouble_eq_self (n := n * 2 ^ missing) ?_
    rw [exponent, zpow_neg, div_inv_eq_mul]
    push_cast
    rw [zpow_natCast]

/-- The largest double below one. -/
theorem roundDouble_below_one : roundDouble (1 - 1 / 2 ^ 53) = 1 - 1 / 2 ^ 53 := by
  decide +kernel

theorem roundDouble_one : roundDouble 1 = 1 := by
  exact_mod_cast roundDouble_natCast (n := 1) (by norm_num)

/-- Two different doubles, written with the last digit of the smaller one. -/
theorem roundDouble_scaled (positive : 0 < x) (order : x ≤ y)
    : ∃ digits multiple : ℤ,
        roundDouble x = digits * 2 ^ lastDigit x
        ∧ roundDouble y = multiple * 2 ^ lastDigit x
        ∧ digits ≤ 2 ^ 53
        ∧ 2 ^ 52 ≤ multiple
        ∧ (2 ^ 53 < multiple → Even multiple) := by
  have larger : 0 < y := positive.trans_le order
  obtain ⟨shift, apart⟩ := Int.le.dest (lastDigit_mono positive order)
  have low := (digits_between larger).1
  have one : (1 : ℤ) ≤ 2 ^ shift := one_le_pow₀ (by norm_num)
  refine ⟨roundEven (x / 2 ^ lastDigit x), roundEven (y / 2 ^ lastDigit y) * 2 ^ shift, rfl, ?_,
    (digits_between positive).2, ?_, ?_⟩
  · have scales : (2 : ℚ) ^ lastDigit y = 2 ^ lastDigit x * 2 ^ shift := by
      rw [← apart, zpow_add₀ (by norm_num), zpow_natCast]
    unfold roundDouble
    generalize roundEven (y / 2 ^ lastDigit y) = digits
    rw [scales]
    push_cast
    ring
  · nlinarith
  · intro big
    cases shift with
    | zero =>
        have high := (digits_between larger).2
        rw [pow_zero, mul_one] at big
        omega
    | succ shift =>
        rw [pow_succ]
        exact (even_two.mul_left _).mul_left _

/-- The quotient of a double and a larger one stays below one by a digit. -/
theorem roundDouble_div_le (nonneg : 0 ≤ x) (positive : 0 < y)
    (less : roundDouble x < roundDouble y)
    : roundDouble x / roundDouble y ≤ 1 - 1 / 2 ^ 53 := by
  rcases nonneg.eq_or_lt with rfl | some
  · rw [roundDouble_zero, zero_div]
    norm_num
  have order : x ≤ y := by
    by_contra reverse
    have back := roundDouble_mono positive.le (not_le.mp reverse).le
    exact absurd less (not_lt.mpr back)
  obtain ⟨digits, multiple, left, right, high, low, even⟩ := roundDouble_scaled some order
  have scale := scale_pos x
  have below : digits < multiple := by
    rw [left, right] at less
    exact_mod_cast (mul_lt_mul_iff_left₀ scale).mp less
  have apart : digits * 2 ^ 53 ≤ multiple * (2 ^ 53 - 1) := by
    by_cases big : 2 ^ 53 < multiple
    · obtain ⟨half, rfl⟩ := even big
      omega
    · omega
  have top : (0 : ℚ) < multiple := by exact_mod_cast lt_of_lt_of_le (by norm_num) low
  have quotient : roundDouble x / roundDouble y = digits / multiple := by
    rw [left, right]
    field_simp
  rw [quotient, div_le_iff₀ top]
  have apart : (digits : ℚ) * 2 ^ 53 ≤ multiple * (2 ^ 53 - 1) := by exact_mod_cast apart
  linarith

/-- A rounded quotient of doubles is below one exactly if the quotient is. -/
theorem roundDouble_div_lt_one_iff (nonneg : 0 ≤ x) (positive : 0 < y)
    : roundDouble (roundDouble x / roundDouble y) < 1 ↔ roundDouble x < roundDouble y := by
  have top := roundDouble_pos positive
  constructor
  · intro below
    by_contra reverse
    have quotient : 1 ≤ roundDouble x / roundDouble y := by
      rw [le_div_iff₀ top, one_mul]
      exact not_lt.mp reverse
    have rounded := roundDouble_mono zero_le_one quotient
    rw [roundDouble_one] at rounded
    exact absurd below (not_lt.mpr rounded)
  · intro less
    have quotient := roundDouble_div_le nonneg positive less
    have start : 0 ≤ roundDouble x / roundDouble y :=
      div_nonneg (roundDouble_nonneg nonneg) top.le
    have rounded := roundDouble_mono start quotient
    rw [roundDouble_below_one] at rounded
    exact rounded.trans_lt (by norm_num)

/-- The smallest double above one is the one that such a quotient is rounded to. -/
theorem roundDouble_above_one : roundDouble (2 ^ 53 / (2 ^ 53 - 1)) = 1 + 1 / 2 ^ 52 := by
  decide +kernel

/-- A rounded quotient of doubles is one exactly if they are the same. -/
theorem roundDouble_div_eq_one_iff (nonneg : 0 ≤ x) (positive : 0 < y)
    : roundDouble (roundDouble x / roundDouble y) = 1 ↔ roundDouble x = roundDouble y := by
  have bottom := roundDouble_pos positive
  constructor
  · intro one
    rcases lt_trichotomy (roundDouble x) (roundDouble y) with less | equal | greater
    · exact absurd one ((roundDouble_div_lt_one_iff nonneg positive).mpr less).ne
    · exact equal
    · have top : 0 < roundDouble x := bottom.trans greater
      have some : 0 < x := by
        rcases nonneg.eq_or_lt with rfl | some
        · exact absurd top (by simp)
        · exact some
      have quotient := roundDouble_div_le positive.le some greater
      rw [div_le_iff₀ top] at quotient
      have large : 2 ^ 53 / (2 ^ 53 - 1) ≤ roundDouble x / roundDouble y := by
        rw [div_le_div_iff₀ (by norm_num) bottom]
        linarith
      have rounded := roundDouble_mono (by norm_num) large
      rw [roundDouble_above_one, one] at rounded
      exact absurd rounded (by norm_num)
  · intro same
    rw [same, div_self bottom.ne', roundDouble_one]

/-- A quotient of doubles that is at most one is so after rounding. -/
theorem roundDouble_div_le_one (nonneg : 0 ≤ x) (le : x ≤ y)
    : roundDouble (roundDouble x / roundDouble y) ≤ 1 := by
  have order := roundDouble_mono nonneg le
  have start := roundDouble_nonneg nonneg
  have quotient : roundDouble x / roundDouble y ≤ 1 := div_le_one_of_le₀ order (start.trans order)
  have rounded := roundDouble_mono (div_nonneg start (start.trans order)) quotient
  rwa [roundDouble_one] at rounded

end

end Library
