import Emwin.Library.Text

/-! Codes of letters and digits. -/

namespace Library

theorem bounds_of_isDigit {c : Char} (digit : c.isDigit = true)
    : 48 ≤ c.toNat ∧ c.toNat ≤ 57 := by
  simp only [Char.isDigit, Bool.and_eq_true, decide_eq_true_eq, ge_iff_le] at digit
  exact ⟨UInt32.le_iff_toNat_le.mp digit.1, UInt32.le_iff_toNat_le.mp digit.2⟩

theorem bounds_of_isUpper {c : Char} (upper : c.isUpper = true)
    : 65 ≤ c.toNat ∧ c.toNat ≤ 90 := by
  have both : 65 ≤ c.val ∧ c.val ≤ 90 := of_decide_eq_true upper
  exact ⟨UInt32.le_iff_toNat_le.mp both.1, UInt32.le_iff_toNat_le.mp both.2⟩

theorem isAlphanum_of_isUpper {c : Char} (upper : c.isUpper = true) : c.isAlphanum = true := by
  show ((c.isUpper || c.isLower) || c.isDigit) = true
  rw [upper, Bool.true_or, Bool.true_or]

theorem bounds_of_isAlphanum {c : Char} (shown : c.isAlphanum = true)
    : 48 ≤ c.toNat ∧ c.toNat ≤ 57 ∨ 65 ≤ c.toNat ∧ c.toNat ≤ 90
      ∨ 97 ≤ c.toNat ∧ c.toNat ≤ 122 := by
  have cases : ((c.isUpper || c.isLower) || c.isDigit) = true := shown
  rw [Bool.or_eq_true, Bool.or_eq_true] at cases
  rcases cases with (upper | lower) | digit
  · exact .inr (.inl (bounds_of_isUpper upper))
  · have both : (decide (97 ≤ c.val) && decide (c.val ≤ 122)) = true := lower
    rw [Bool.and_eq_true, decide_eq_true_eq, decide_eq_true_eq] at both
    exact .inr (.inr ⟨UInt32.le_iff_toNat_le.mp both.1, UInt32.le_iff_toNat_le.mp both.2⟩)
  · exact .inl (bounds_of_isDigit digit)

theorem not_isUpper_of_isDigit {c : Char} (digit : c.isDigit = true) : c.isUpper = false := by
  have bounds := bounds_of_isDigit digit
  refine Bool.eq_false_iff.mpr fun upper => ?_
  have others := bounds_of_isUpper upper
  omega

theorem isWhitespace_eq_false {c : Char} (above : 33 ≤ c.toNat) (below : c.toNat ≤ 126)
    : isWhitespace c = false := by
  simp only [isWhitespace, Bool.or_eq_false_iff, Bool.and_eq_false_iff, decide_eq_false_iff_not,
    beq_eq_false_iff_ne]
  omega

theorem utf8Size_eq_one {c : Char} (below : c.toNat ≤ 127) : c.utf8Size = 1 := by
  have small : c.val ≤ 0x7F := UInt32.le_iff_toNat_le.mpr below
  simp [Char.utf8Size, small]

end Library
