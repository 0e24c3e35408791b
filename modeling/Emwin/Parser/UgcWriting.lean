import Emwin.Library.Decimal
import Emwin.Library.Words
import Emwin.Parser.Instants
import Emwin.Parser.Ugc

/-! Lists of counties and zones as they are written in blocks: with shorthand for states and for
the ends of ranges, wrapped over lines, and closed by an expiration time.
-/

namespace Emwin.Parser
open Library

/-- Numbers of one state and class. -/
structure UgcItem where
  state : Text
  geoclass : UgcClass
  first : Nat
  last : Nat
  deriving DecidableEq, Repr

/-- A state of two letters, a class with a letter, and an increasing range of numbers. -/
structure UgcItem.Valid (item : UgcItem) : Prop where
  letters : item.state.length = 2 ∧ item.state.all Char.isUpper = true
  known : item.geoclass ≠ .unknown
  order : item.first ≤ item.last
  bound : item.last ≤ 999

/-- A number of up to three digits, with zeros in front. -/
def threePlaces (number : Nat) : Text :=
  [Nat.digitChar (number / 100), Nat.digitChar (number / 10 % 10), Nat.digitChar (number % 10)]

def twoPlaces (number : Nat) : Text :=
  [Nat.digitChar (number / 10), Nat.digitChar (number % 10)]

/-- A range with the last digits of its end that are written. -/
structure UgcRange where
  first : Nat
  last : Nat
  shown : Nat
  order : first ≤ last
  bound : last ≤ 999
  digits : 1 ≤ shown ∧ shown ≤ 3
  /-- The digits that are left out are those of the start. -/
  agree : first / 10 ^ shown = last / 10 ^ shown

namespace UgcRange

def startToken (range : UgcRange) : Text := threePlaces range.first

def endToken (range : UgcRange) : Text := (threePlaces range.last).drop (3 - range.shown)

def tokens (range : UgcRange) : List Text := [range.startToken, range.endToken]

end UgcRange

/-- What stands between two separators behind the state and the class. -/
inductive UgcNumbers where
  | single (number : Nat) (bound : number ≤ 999)
  | ranges (first : UgcRange) (more : List UgcRange)

namespace UgcNumbers

def tokens : UgcNumbers → List Text
  | .single number _ => [threePlaces number]
  | .ranges first more => (first :: more).flatMap UgcRange.tokens

def text (numbers : UgcNumbers) : Text := ['>'].intercalate numbers.tokens

def pairs : UgcNumbers → List (Nat × Nat)
  | .single number _ => [(number, number)]
  | .ranges first more => (first :: more).map fun range => (range.first, range.last)

end UgcNumbers

theorem threePlaces_shown : 1 ≤ 3 ∧ 3 ≤ 3 := by decide

theorem dash_separates (wrapped : Bool) : '-' = '-' ∨ '-' = ',' ∧ wrapped = false := .inl rfl

/-- What is written up to a separator, the separator, and whether a line ends behind it. -/
structure UgcPiece where
  state : Text
  geoclass : UgcClass
  prefixed : Bool
  numbers : UgcNumbers
  separator : Char
  wrapped : Bool
  letters : state.length = 2 ∧ state.all Char.isUpper = true
  known : geoclass ≠ .unknown
  separates : separator = '-' ∨ separator = ',' ∧ wrapped = false

namespace UgcPiece

def text (piece : UgcPiece) : Text :=
  (if piece.prefixed then piece.state ++ [piece.geoclass.asChar] else []) ++ piece.numbers.text

def items (piece : UgcPiece) : List UgcItem :=
  piece.numbers.pairs.map fun (first, last) => ⟨piece.state, piece.geoclass, first, last⟩

end UgcPiece

/-- The state and class are written wherever they are not those of the piece before. -/
def PrefixesWritten : Option (Text × UgcClass) → List UgcPiece → Prop
  | _, [] => True
  | previous, piece :: rest =>
      (piece.prefixed = true ∨ previous = some (piece.state, piece.geoclass))
      ∧ PrefixesWritten (some (piece.state, piece.geoclass)) rest

/-- The pieces of a block. -/
structure UgcBlock where
  pieces : List UgcPiece
  nonempty : pieces ≠ []
  prefixes : PrefixesWritten none pieces
  closes : ∀ last ∈ pieces.getLast?, last.separator = '-'

/-- Day, hour and minute of an expiration time. -/
def expiryText (expires : UtcTime) : Text :=
  twoPlaces (dateOf expires).day ++ twoPlaces (hourOf expires) ++ twoPlaces (minuteOf expires)

/-- The rest of a block from a list of pieces on. -/
def piecesText (expires : UtcTime) (pieces : List UgcPiece) : Text :=
  pieces.flatMap (fun piece =>
    piece.text ++ piece.separator :: if piece.wrapped then ['\n'] else [])
  ++ expiryText expires ++ ['-']

/-- A text that a list of items with an expiration time may be written as. -/
def WrittenAs (items : List UgcItem) (expires : UtcTime) (text : Text) : Prop :=
  ∃ block : UgcBlock,
    items = block.pieces.flatMap UgcPiece.items ∧ text = piecesText expires block.pieces

/-- An item written out: with its state and class, and with three digits on both ends. -/
def UgcItem.piece (item : UgcItem) (valid : item.Valid) : UgcPiece where
  state := item.state
  geoclass := item.geoclass
  prefixed := true
  numbers := .ranges
    { first := item.first
      last := item.last
      shown := 3
      order := valid.order
      bound := valid.bound
      digits := by decide
      agree := by
        have order := valid.order
        have bound := valid.bound
        omega }
    []
  separator := '-'
  wrapped := false
  letters := valid.letters
  known := valid.known
  separates := .inl rfl

/-- Every list of items can be written. -/
theorem exists_writtenAs {items : List UgcItem} (nonempty : items ≠ [])
    (valid : ∀ item ∈ items, item.Valid) (expires : UtcTime)
    : ∃ text, WrittenAs items expires text := by
  have dashes : ∀ piece ∈ items.pmap UgcItem.piece valid,
      piece.prefixed = true ∧ piece.separator = '-' := by
    intro piece member
    obtain ⟨item, listed, rfl⟩ := List.mem_pmap.mp member
    exact ⟨rfl, rfl⟩
  have prefixes : ∀ {pieces : List UgcPiece} (previous : Option (Text × UgcClass)),
      (∀ piece ∈ pieces, piece.prefixed = true ∧ piece.separator = '-')
      → PrefixesWritten previous pieces := by
    intro pieces
    induction pieces with
    | nil => exact fun _ _ => trivial
    | cons piece rest ih =>
        exact fun _ all => ⟨.inl (all piece (by simp)).1,
          ih _ fun other member => all other (by simp [member])⟩
  have same : ∀ {items : List UgcItem} (valid : ∀ item ∈ items, item.Valid),
      (items.pmap UgcItem.piece valid).flatMap UgcPiece.items = items := by
    intro items
    induction items with
    | nil => exact fun _ => rfl
    | cons item rest ih =>
        intro valid
        rw [List.pmap_cons, List.flatMap_cons,
          ih fun other member => valid other (by simp [member])]
        rfl
  exact ⟨_, ⟨items.pmap UgcItem.piece valid, by simpa using nonempty, prefixes none dashes,
    fun last ends => (dashes last (List.mem_of_getLast? ends)).2⟩, (same valid).symm, rfl⟩

-----------------------------------------------------------------------------------------
-- Digits
-----------------------------------------------------------------------------------------

theorem digitChar_spec {digit : Nat} (small : digit < 10)
    : (Nat.digitChar digit).isDigit = true ∧ (Nat.digitChar digit).toNat - 48 = digit := by
  have all : ∀ digit < 10,
      (Nat.digitChar digit).isDigit = true ∧ (Nat.digitChar digit).toNat - 48 = digit := by
    decide
  exact all digit small

/-- The value of a string of one digit or of more. -/
theorem digitsNat_digitChars {digits : List Nat} (small : ∀ digit ∈ digits, digit < 10)
    : digitsNat (digits.map Nat.digitChar)
      = digits.foldl (fun value digit => 10 * value + digit) 0 := by
  rw [digitsNat, List.foldl_map]
  refine List.foldl_ext _ _ _ fun value digit member => ?_
  rw [(digitChar_spec (small digit member)).2]

theorem parseUnsigned_digits {bound : Nat} {digits : Text} (nonempty : digits ≠ [])
    (all : digits.all Char.isDigit = true) (fits : digitsNat digits < bound)
    : parseUnsigned bound digits = some (digitsNat digits) := by
  have unsigned : '+' ∉ digits := fun member =>
    absurd (List.all_eq_true.mp all '+' member) (by decide)
  rw [parseUnsigned_eq_some_iff unsigned, digitsValue?, if_pos ⟨nonempty, all⟩]
  exact ⟨rfl, fits⟩

theorem threePlaces_digits {number : Nat} (bound : number ≤ 999)
    : (threePlaces number).all Char.isDigit = true := by
  have hundreds := (@digitChar_spec (number / 100) (by omega)).1
  have tens := (@digitChar_spec (number / 10 % 10) (by omega)).1
  have ones := (@digitChar_spec (number % 10) (by omega)).1
  simp [threePlaces, hundreds, tens, ones]

theorem digitsNat_threePlaces {number : Nat} (bound : number ≤ 999)
    : digitsNat (threePlaces number) = number := by
  have value := @digitsNat_digitChars [number / 100, number / 10 % 10, number % 10]
    (by simp; omega)
  refine Eq.trans value ?_
  simp only [List.foldl_cons, List.foldl_nil]
  omega

theorem twoPlaces_digits {number : Nat} (bound : number ≤ 99)
    : (twoPlaces number).all Char.isDigit = true := by
  have tens := (@digitChar_spec (number / 10) (by omega)).1
  have ones := (@digitChar_spec (number % 10) (by omega)).1
  simp [twoPlaces, tens, ones]

theorem digitsNat_twoPlaces {number : Nat} (bound : number ≤ 99)
    : digitsNat (twoPlaces number) = number := by
  have value := @digitsNat_digitChars [number / 10, number % 10]
    (by simp; omega)
  refine Eq.trans value ?_
  simp only [List.foldl_cons, List.foldl_nil]
  omega

-----------------------------------------------------------------------------------------
-- Characters
-----------------------------------------------------------------------------------------

/-- A character of a piece: a capital, a digit or the mark of a range. -/
def isPieceChar (c : Char) : Bool := c.isUpper || c.isDigit || c = '>'

theorem pieceChar_bounds {c : Char} (inPiece : isPieceChar c = true)
    : 48 ≤ c.toNat ∧ c.toNat ≤ 90 ∧ c.toNat ≠ 58 := by
  simp only [isPieceChar, Bool.or_eq_true, decide_eq_true_eq] at inPiece
  rcases inPiece with (upper | digit) | rfl
  · have bounds := bounds_of_isUpper upper
    omega
  · have bounds := bounds_of_isDigit digit
    omega
  · decide

/-- A character of a block without its line ends. -/
def isBlockChar (c : Char) : Bool := isPieceChar c || isUgcSeparator c

theorem blockChar_bounds {c : Char} (inBlock : isBlockChar c = true)
    : 44 ≤ c.toNat ∧ c.toNat ≤ 90 ∧ c.toNat ≠ 46 ∧ c.toNat ≠ 58 := by
  rcases Bool.or_eq_true_iff.mp inBlock with inPiece | separator
  · have bounds := pieceChar_bounds inPiece
    omega
  · simp only [isUgcSeparator, Bool.or_eq_true, decide_eq_true_eq] at separator
    rcases separator with rfl | rfl <;> decide

theorem blockChar_visible {c : Char} (inBlock : isBlockChar c = true)
    : isWhitespace c = false := by
  have bounds := blockChar_bounds inBlock
  exact isWhitespace_eq_false (by omega) (by omega)

theorem blockChar_ascii {c : Char} (inBlock : isBlockChar c = true) : c.utf8Size = 1 := by
  have bounds := blockChar_bounds inBlock
  exact utf8Size_eq_one (by omega)

theorem blockChar_of_digit {c : Char} (digit : c.isDigit = true) : isBlockChar c = true := by
  simp [isBlockChar, isPieceChar, digit]

/-- All characters are those of blocks. -/
def InBlock (text : Text) : Prop := ∀ c ∈ text, isBlockChar c = true

theorem InBlock.append {left right : Text} (inLeft : InBlock left) (inRight : InBlock right)
    : InBlock (left ++ right) := by
  intro c member
  rcases List.mem_append.mp member with first | second
  · exact inLeft c first
  · exact inRight c second

theorem inBlock_of_digits {text : Text} (digits : text.all Char.isDigit = true) : InBlock text :=
  fun c member => blockChar_of_digit (List.all_eq_true.mp digits c member)

-----------------------------------------------------------------------------------------
-- Numbers
-----------------------------------------------------------------------------------------

/-- One to three digits. -/
structure IsUgcToken (token : Text) : Prop where
  nonempty : token ≠ []
  short : token.length ≤ 3
  digits : token.all Char.isDigit = true

namespace IsUgcToken

variable {token : Text} (isToken : IsUgcToken token)
include isToken

theorem utf8Len_eq : utf8Len token = token.length :=
  IsAscii.utf8Len_eq fun c member =>
    utf8Size_of_isDigit (List.all_eq_true.mp isToken.digits c member)

theorem accepted : isOneToThreeDigitUgcToken token = true := by
  have positive := List.length_pos_iff.mpr isToken.nonempty
  have short := isToken.short
  simp only [isOneToThreeDigitUgcToken, isToken.utf8Len_eq, isToken.digits, Bool.and_true,
    Bool.and_eq_true, decide_eq_true_eq]
  omega

theorem noMark : '>' ∉ token := fun member =>
  absurd (List.all_eq_true.mp isToken.digits '>' member) (by decide)

end IsUgcToken

theorem isUgcToken_threePlaces {number : Nat} (bound : number ≤ 999)
    : IsUgcToken (threePlaces number) where
  nonempty := nofun
  short := le_rfl
  digits := threePlaces_digits bound

theorem isThreeDigitUgcToken_threePlaces {number : Nat} (bound : number ≤ 999)
    : isThreeDigitUgcToken (threePlaces number) = true := by
  rw [isThreeDigitUgcToken, (isUgcToken_threePlaces bound).utf8Len_eq, threePlaces_digits bound]
  rfl

theorem parseUgcNumber_threePlaces {number : Nat} (bound : number ≤ 999)
    : parseUgcNumber (threePlaces number) = some number := by
  rw [parseUgcNumber, if_pos (isThreeDigitUgcToken_threePlaces bound),
    parseUnsigned_digits (isUgcToken_threePlaces bound).nonempty (threePlaces_digits bound),
    digitsNat_threePlaces bound]
  rw [digitsNat_threePlaces bound]
  omega

namespace UgcRange

variable (range : UgcRange)

theorem first_le : range.first ≤ 999 := le_trans range.order range.bound

theorem length_endToken : range.endToken.length = range.shown := by
  have digits := range.digits
  rw [endToken, List.length_drop]
  show 3 - (3 - range.shown) = range.shown
  omega

theorem isUgcToken_end : IsUgcToken range.endToken where
  nonempty := by
    rw [← List.length_pos_iff, range.length_endToken]
    exact range.digits.1
  short := range.length_endToken.trans_le range.digits.2
  digits := List.all_eq_true.mpr fun c member =>
    List.all_eq_true.mp (threePlaces_digits range.bound) c (List.mem_of_mem_drop member)

/-- The digits that are shown are the last ones. -/
theorem digitsNat_endToken : digitsNat range.endToken = range.last % 10 ^ range.shown := by
  have split := digitsNat_append ((threePlaces range.last).take (3 - range.shown)) range.endToken
  rw [endToken, List.take_append_drop, digitsNat_threePlaces range.bound, ← endToken,
    range.length_endToken] at split
  have small : digitsNat range.endToken < 10 ^ range.shown := by
    rw [← range.length_endToken]
    exact digitsNat_lt range.isUgcToken_end.digits
  rw [split, Nat.mul_add_mod', Nat.mod_eq_of_lt small]

theorem parseUgcRangeEnd_eq
    : parseUgcRangeEnd range.first range.endToken = .ok (some range.last) := by
  have token := range.isUgcToken_end
  have order := range.order
  have bound := range.bound
  have digits := range.digits
  have value := range.digitsNat_endToken
  rw [parseUgcRangeEnd, token.accepted]
  simp only [Bool.not_true, Bool.false_eq_true, if_false, token.utf8Len_eq, range.length_endToken]
  by_cases whole : range.shown = 3
  · have same : range.endToken = threePlaces range.last := by
      rw [endToken, whole]
      rfl
    rw [if_pos whole, same, parseUgcNumber_threePlaces bound, Option.filter_some,
      if_pos (by simpa using order)]
    rfl
  · have read : parseUnsigned (2 ^ 16) range.endToken = some (range.last % 10 ^ range.shown) := by
      rw [parseUnsigned_digits token.nonempty token.digits, value]
      rw [value]
      have less := Nat.mod_le range.last (10 ^ range.shown)
      omega
    have front : range.first / 10 ^ range.shown * 10 ^ range.shown + range.last % 10 ^ range.shown
        = range.last := by
      rw [range.agree]
      exact Nat.div_add_mod' _ _
    have low := Nat.div_mul_le_self range.first (10 ^ range.shown)
    have fits : checkedU16 (range.first / 10 ^ range.shown * 10 ^ range.shown)
        = .ok (range.first / 10 ^ range.shown * 10 ^ range.shown) := if_pos (by omega)
    have sum : checkedU16 range.last = .ok range.last := if_pos (by omega)
    rw [if_neg whole, read]
    simp only [fits, ok_bind, front, sum, order, if_true]
    rfl

end UgcRange

end Emwin.Parser
