import Emwin.Library.Text
import Mathlib.Data.Nat.Digits.Lemmas

/-! Integers as the Rust standard library reads and writes them in decimal. -/

namespace Library

/-- `str::parse` for a signed integer type of values from `-bound` up to `bound - 1`. -/
def parseSigned (bound : Nat) (text : Text) : Option Int :=
  match text with
  | '-' :: digits =>
      (digitsValue? digits).bind fun value => if value ≤ bound then some (-(value : Int)) else none
  | '+' :: digits =>
      (digitsValue? digits).bind fun value => if value < bound then some (value : Int) else none
  | digits =>
      (digitsValue? digits).bind fun value => if value < bound then some (value : Int) else none

/-- `{:02}` of an unsigned number. -/
def twoDigits (number : Nat) : Text := (Nat.toDigits 10 number).leftpad 2 '0'

/-- `{}` of a signed number. -/
def signedDigits : Int → Text
  | .ofNat number => Nat.toDigits 10 number
  | .negSucc number => '-' :: Nat.toDigits 10 (number + 1)

/-- Written numbers are read back. -/
theorem digitsValue?_toDigits (number : Nat)
    : digitsValue? (Nat.toDigits 10 number) = some number := by
  have digits : (Nat.toDigits 10 number).all Char.isDigit = true :=
    List.all_eq_true.mpr fun c digit => Nat.isDigit_of_mem_toDigits (by omega) (by omega) digit
  rw [digitsValue?, if_pos ⟨Nat.toDigits_ne_nil, digits⟩]
  exact congrArg some (@Nat.ofDigitChars_ten_toDigits number)

theorem toDigits_injective {left right : Nat}
    (same : Nat.toDigits 10 left = Nat.toDigits 10 right)
    : left = right := by
  have values := congrArg digitsValue? same
  rw [digitsValue?_toDigits, digitsValue?_toDigits] at values
  exact Option.some.inj values

/-- Zeros in front keep numbers apart, however wide they make them. -/
theorem leftpad_toDigits_injective {width left right : Nat}
    (same
      : (Nat.toDigits 10 left).leftpad width '0' = (Nat.toDigits 10 right).leftpad width '0')
    : left = right := by
  have value (number : Nat)
      : Nat.ofDigitChars 10 ((Nat.toDigits 10 number).leftpad width '0') 0 = number := by
    rw [List.leftpad, Nat.ofDigitChars_append, Nat.ofDigitChars_replicate_zero, Nat.mul_zero]
    exact Nat.ofDigitChars_ten_toDigits
  rw [← value left, ← value right, same]

theorem digitsValue?_twoDigits {number : Nat} (small : number < 100)
    : digitsValue? (twoDigits number) = some number := by
  have all : ∀ number < 100, digitsValue? (twoDigits number) = some number := by decide +kernel
  exact all number small

end Library
