import Emwin.Library.Double
import Emwin.Library.Integers
import Emwin.Library.Spans

/-! Rational numbers in decimal notation: exact reading, and writing with a fixed number of
places.
-/

namespace Library

/-- The value of a string of digits. -/
def digitsNat (digits : Text) : Nat :=
  digits.foldl (fun value digit => 10 * value + (digit.toNat - 48)) 0

/-- A sign in front of a number, and the rest. -/
def splitSign : Text → Bool × Text
  | '-' :: rest => (true, rest)
  | '+' :: rest => (false, rest)
  | text => (false, text)

/-- A number in decimal notation without exponent: an optional sign, and digits with at most one
point among them.
-/
def parseDecimal (text : Text) : Option ℚ :=
  let (negative, body) := splitSign text
  let (whole, fraction) := (splitOnce '.' body).getD (body, [])
  if whole ++ fraction ≠ [] ∧ (whole ++ fraction).all Char.isDigit then
    let value : ℚ := digitsNat (whole ++ fraction) / (10 : ℚ) ^ fraction.length
    some (if negative then -value else value)
  else none

/-- A natural number written with some places behind the point. -/
def placesOf (places number : Nat) : Text :=
  let digits := (Nat.toDigits 10 number).leftpad (places + 1) '0'
  let whole := digits.take (digits.length - places)
  if places = 0 then whole else whole ++ '.' :: digits.drop (digits.length - places)

/-- A number with a fixed number of places, the last one rounded. -/
def formatFixed (places : Nat) (x : ℚ) : Text :=
  let scaled := roundEven (|x| * 10 ^ places)
  (if x < 0 then ['-'] else []) ++ placesOf places scaled.toNat

-----------------------------------------------------------------------------------------
-- Digits
-----------------------------------------------------------------------------------------

/-- The value of two strings of digits, by induction on the second from its end. -/
theorem digitsNat_append (front back : Text)
    : digitsNat (front ++ back) = digitsNat front * 10 ^ back.length + digitsNat back := by
  induction back using List.reverseRecOn with
  | nil => simp [digitsNat]
  | append_singleton back digit ih =>
      unfold digitsNat at ih ⊢
      rw [← List.append_assoc, List.foldl_append, ih]
      simp only [List.foldl_append, List.foldl_cons, List.foldl_nil, List.length_append,
        List.length_singleton, pow_succ]
      ring

/-- A value below the power of ten of the number of digits, by induction on them from the end. -/
theorem digitsNat_lt {digits : Text} (all : digits.all Char.isDigit = true)
    : digitsNat digits < 10 ^ digits.length := by
  induction digits using List.reverseRecOn with
  | nil => simp [digitsNat]
  | append_singleton front digit ih =>
      rw [List.all_append, Bool.and_eq_true] at all
      have before := ih all.1
      have here : digitsNat [digit] < 10 := by
        have last := (List.all_eq_true.mp all.2 digit (by simp))
        have bounds := bounds_of_isDigit last
        simp only [digitsNat, List.foldl_cons, List.foldl_nil]
        omega
      rw [digitsNat_append, List.length_append, List.length_singleton, pow_succ]
      omega

/-- A string of digits is a number. -/
theorem parseDecimal_digits {digits : Text} (nonempty : digits ≠ [])
    (all : digits.all Char.isDigit)
    : parseDecimal digits = some (digitsNat digits : ℚ) := by
  have absent {c : Char} (other : c.isDigit = false) : c ∉ digits := by
    intro member
    simp [List.all_eq_true.mp all c member] at other
  have unsigned : splitSign digits = (false, digits) := by
    unfold splitSign
    split
    · exact absurd List.mem_cons_self (absent (c := '-') rfl)
    · exact absurd List.mem_cons_self (absent (c := '+') rfl)
    · rfl
  have pointless : splitOnce '.' digits = none := splitOnce_eq_none (absent rfl)
  simp only [parseDecimal, unsigned, pointless]
  simpa [nonempty] using all

-----------------------------------------------------------------------------------------
-- Written numbers
-----------------------------------------------------------------------------------------

/-- Digits with a point and some places behind it, possibly behind a minus sign. -/
def IsFixedPoint (places : Nat) (text : Text) : Prop :=
  ∃ sign whole fraction,
    text = sign ++ (whole ++ '.' :: fraction)
    ∧ (sign = [] ∨ sign = ['-']) ∧ whole ≠ [] ∧ fraction.length = places
    ∧ (whole ++ fraction).all Char.isDigit

theorem formatFixed_isFixedPoint {places : Nat} (some : places ≠ 0) (x : ℚ)
    : IsFixedPoint places (formatFixed places x) := by
  rw [formatFixed, placesOf, if_neg some]
  generalize (roundEven (|x| * 10 ^ places)).toNat = number
  have long : places + 1 ≤ ((Nat.toDigits 10 number).leftpad (places + 1) '0').length := by
    rw [List.length_leftpad]
    exact le_max_left _ _
  have digits : ∀ c ∈ (Nat.toDigits 10 number).leftpad (places + 1) '0', c.isDigit = true := by
    intro c member
    rcases List.mem_append.mp member with padding | digit
    · rw [List.eq_of_mem_replicate padding]
      rfl
    · exact Nat.isDigit_of_mem_toDigits (by omega) (by omega) digit
  generalize (Nat.toDigits 10 number).leftpad (places + 1) '0' = written at long digits
  refine ⟨_, written.take (written.length - places), written.drop (written.length - places), rfl,
    ?_, ?_, ?_, ?_⟩
  · split
    · exact .inr rfl
    · exact .inl rfl
  · rw [← List.length_pos_iff, List.length_take]
    omega
  · rw [List.length_drop]
    omega
  · rw [List.take_append_drop]
    exact List.all_eq_true.mpr digits

-----------------------------------------------------------------------------------------
-- Signed numbers
-----------------------------------------------------------------------------------------

theorem digitsValue?_eq {digits : Text} (some : digits ≠ []) (all : digits.all Char.isDigit = true)
    : digitsValue? digits = .some (digitsNat digits) := by
  rw [digitsValue?, if_pos ⟨some, all⟩]
  rfl

theorem parseSigned_digits {digits : Text} (some : digits ≠ [])
    (all : digits.all Char.isDigit = true) (bound : Nat)
    : parseSigned bound digits
      = if digitsNat digits < bound then .some (digitsNat digits : Int) else none := by
  have other {c : Char} (noDigit : c.isDigit = false) (rest : Text) : digits ≠ c :: rest := by
    rintro rfl
    rw [List.all_cons, noDigit] at all
    cases all
  rw [parseSigned]
  · rw [digitsValue?_eq some all]
    rfl
  · exact other rfl
  · exact other rfl

end Library
