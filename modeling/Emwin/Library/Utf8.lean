import Mathlib.Algebra.Group.Int.Defs
import Mathlib.Algebra.GroupWithZero.Nat
import Mathlib.Data.List.Basic

/-! UTF-8 as the Rust standard library validates, decodes and encodes it.
Text is a list of characters. Decoding first cuts the bytes into items: characters, invalid
sequences (maximal subparts) and an incomplete sequence at the end. Strict decoding reports
the first item that is not a character; lossy decoding replaces each such item.
-/

namespace Library

abbrev Bytes := List UInt8
abbrev Text := List Char

instance : LawfulBEq Text := inferInstance

/-- A statement about the members of a list is decided over them, never over every value. -/
instance (priority := 5000) decidableListMembers {α : Type} (holds : α → Prop)
    [DecidablePred holds] (items : List α)
    : Decidable (∀ item, item ∈ items → holds item) :=
  List.decidableBAll holds items

/-- A statement about the member of an option, likewise. -/
instance (priority := 5000) decidableOptionMember {α : Type} (holds : α → Prop)
    [DecidablePred holds] (item? : Option α)
    : Decidable (∀ item, item ∈ item? → holds item) :=
  Option.decidableForallMem item?

/-- One decoded item with the number of bytes it covers. -/
inductive Utf8Item where
  | char (value : Char) (width : Nat)
  | invalid (width : Nat)
  | incomplete (width : Nat)
  deriving DecidableEq, Repr

def isContinuation (byte : UInt8) : Bool := 0x80 ≤ byte && byte ≤ 0xBF

/-- Allowed second bytes of a three-byte sequence; excludes overlong and surrogate forms. -/
def isSecondOfThree (lead byte : UInt8) : Bool :=
  if lead = 0xE0 then 0xA0 ≤ byte && byte ≤ 0xBF
  else if lead = 0xED then 0x80 ≤ byte && byte ≤ 0x9F
  else isContinuation byte

/-- Allowed second bytes of a four-byte sequence; excludes overlong and too large forms. -/
def isSecondOfFour (lead byte : UInt8) : Bool :=
  if lead = 0xF0 then 0x90 ≤ byte && byte ≤ 0xBF
  else if lead = 0xF4 then 0x80 ≤ byte && byte ≤ 0x8F
  else isContinuation byte

def codeOfTwo (b0 b1 : UInt8) : Nat := b0.toNat % 32 * 64 + b1.toNat % 64

def codeOfThree (b0 b1 b2 : UInt8) : Nat :=
  b0.toNat % 16 * 4096 + b1.toNat % 64 * 64 + b2.toNat % 64

def codeOfFour (b0 b1 b2 b3 : UInt8) : Nat :=
  b0.toNat % 8 * 262144 + b1.toNat % 64 * 4096 + b2.toNat % 64 * 64 + b3.toNat % 64

/-- The item that starts with `b0`. A byte that cannot continue the sequence ends it and is
not covered by the item.
-/
def firstItem (b0 : UInt8) (rest : Bytes) : Utf8Item :=
  if b0 < 0x80 then .char (Char.ofNat b0.toNat) 1
  else if 0xC2 ≤ b0 && b0 ≤ 0xDF then
    match rest with
    | [] => .incomplete 1
    | b1 :: _ =>
        if isContinuation b1 then .char (Char.ofNat (codeOfTwo b0 b1)) 2 else .invalid 1
  else if 0xE0 ≤ b0 && b0 ≤ 0xEF then
    match rest with
    | [] => .incomplete 1
    | b1 :: rest1 =>
        if isSecondOfThree b0 b1 then
          match rest1 with
          | [] => .incomplete 2
          | b2 :: _ =>
              if isContinuation b2 then .char (Char.ofNat (codeOfThree b0 b1 b2)) 3
              else .invalid 2
        else .invalid 1
  else if 0xF0 ≤ b0 && b0 ≤ 0xF4 then
    match rest with
    | [] => .incomplete 1
    | b1 :: rest1 =>
        if isSecondOfFour b0 b1 then
          match rest1 with
          | [] => .incomplete 2
          | b2 :: rest2 =>
              if isContinuation b2 then
                match rest2 with
                | [] => .incomplete 3
                | b3 :: _ =>
                    if isContinuation b3 then
                      .char (Char.ofNat (codeOfFour b0 b1 b2 b3)) 4
                    else .invalid 3
              else .invalid 2
        else .invalid 1
  else .invalid 1

def Utf8Item.width : Utf8Item → Nat
  | .char _ width => width
  | .invalid width => width
  | .incomplete width => width

/-- At most `fuel` items from the front of the bytes. -/
def utf8ItemsFuel : Nat → Bytes → List Utf8Item
  | 0, _ => []
  | _, [] => []
  | fuel + 1, b0 :: rest =>
      let item := firstItem b0 rest
      item :: utf8ItemsFuel fuel (rest.drop (item.width - 1))

/-- All items of a byte string; every item covers at least one byte. -/
def utf8Items (bytes : Bytes) : List Utf8Item := utf8ItemsFuel bytes.length bytes

/-- Why bytes are not UTF-8: the length of the valid prefix, and the length of the invalid
sequence unless the input just ended too early.
-/
structure Utf8Error where
  validUpTo : Nat
  errorLen : Option Nat
  deriving DecidableEq, Repr

/-- Display text of the error. -/
def Utf8Error.toText (error : Utf8Error) : Text :=
  match error.errorLen with
  | some len =>
      "invalid utf-8 sequence of ".toList ++ Nat.toDigits 10 len
      ++ " bytes from index ".toList ++ Nat.toDigits 10 error.validUpTo
  | none =>
      "incomplete utf-8 byte sequence from index ".toList
      ++ Nat.toDigits 10 error.validUpTo

/-- Read items as text; `offset` counts the bytes already read. -/
def textOfItems (offset : Nat) : List Utf8Item → Except Utf8Error Text
  | [] => .ok []
  | .char value width :: rest =>
      match textOfItems (offset + width) rest with
      | .ok text => .ok (value :: text)
      | .error error => .error error
  | .invalid width :: _ => .error { validUpTo := offset, errorLen := some width }
  | .incomplete _ :: _ => .error { validUpTo := offset, errorLen := none }

/-- Strict decoding. -/
def fromUtf8 (bytes : Bytes) : Except Utf8Error Text := textOfItems 0 (utf8Items bytes)

def replacementChar : Char := Char.ofNat 0xFFFD

/-- Lossy decoding: one replacement character for every item that is not a character. -/
def fromUtf8Lossy (bytes : Bytes) : Text :=
  (utf8Items bytes).map fun
    | .char value _ => value
    | _ => replacementChar

def toUtf8 (text : Text) : Bytes := text.flatMap String.utf8EncodeChar

/-- Number of bytes of the encoded text. -/
def utf8Len (text : Text) : Nat := (text.map Char.utf8Size).sum

theorem utf8ItemsFuel_of_le {fuel : Nat} {bytes : Bytes} (enough : bytes.length ≤ fuel)
    : utf8ItemsFuel fuel bytes = utf8Items bytes := by
  induction fuel using Nat.strongRecOn generalizing bytes with
  | _ fuel ih =>
      cases bytes with
      | nil => cases fuel <;> rfl
      | cons b0 rest =>
          cases fuel with
          | zero => simp at enough
          | succ fuel =>
              simp only [List.length_cons, Nat.add_le_add_iff_right] at enough
              have shorter : (rest.drop ((firstItem b0 rest).width - 1)).length ≤ rest.length := by
                simp
              have bounded := Nat.le_trans shorter enough
              simp only [utf8Items, List.length_cons, utf8ItemsFuel]
              rw [ih fuel (by omega) bounded]
              by_cases same : rest.length = fuel
              · rw [same, ih fuel (by omega) bounded]
              · rw [ih rest.length (by omega) shorter]

@[simp] theorem utf8Items_nil : utf8Items [] = [] := rfl

/-- The bytes after the first item are cut independently of it. -/
theorem utf8Items_cons (b0 : UInt8) (rest : Bytes)
    : utf8Items (b0 :: rest)
      = firstItem b0 rest :: utf8Items (rest.drop ((firstItem b0 rest).width - 1)) := by
  simp only [utf8Items, List.length_cons, utf8ItemsFuel]
  rw [utf8ItemsFuel_of_le (by simp)]
  rfl

theorem utf8Items_ascii {byte : UInt8} (ascii : byte < 0x80) (rest : Bytes)
    : utf8Items (byte :: rest) = .char (Char.ofNat byte.toNat) 1 :: utf8Items rest := by
  have item : firstItem byte rest = .char (Char.ofNat byte.toNat) 1 := by
    simp [firstItem, ascii]
  simp [utf8Items_cons, item, Utf8Item.width]

theorem isContinuation_ascii {byte : UInt8} (ascii : byte < 0x80)
    : isContinuation byte = false := by
  simp only [isContinuation, UInt8.lt_iff_toNat_lt, UInt8.le_iff_toNat_le] at *
  simp at *
  omega

theorem isSecondOfThree_ascii {byte : UInt8} (lead : UInt8) (ascii : byte < 0x80)
    : isSecondOfThree lead byte = false := by
  simp only [isSecondOfThree, isContinuation, UInt8.lt_iff_toNat_lt,
    UInt8.le_iff_toNat_le] at *
  split_ifs <;> simp at * <;> omega

theorem isSecondOfFour_ascii {byte : UInt8} (lead : UInt8) (ascii : byte < 0x80)
    : isSecondOfFour lead byte = false := by
  simp only [isSecondOfFour, isContinuation, UInt8.lt_iff_toNat_lt,
    UInt8.le_iff_toNat_le] at *
  split_ifs <;> simp at * <;> omega

/-- No item reaches over an ASCII byte. Witness: cases on how many bytes precede it; it is
neither a second byte nor a continuation byte of any sequence.
-/
theorem firstItem_width_ascii (b0 : UInt8) (before : Bytes) {byte : UInt8} (after : Bytes)
    (ascii : byte < 0x80)
    : (firstItem b0 (before ++ byte :: after)).width ≤ before.length + 1 := by
  have notCont := isContinuation_ascii ascii
  have notThree := isSecondOfThree_ascii b0 ascii
  have notFour := isSecondOfFour_ascii b0 ascii
  rcases before with _ | ⟨b1, _ | ⟨b2, _ | ⟨b3, before⟩⟩⟩ <;>
    simp only [firstItem, List.nil_append, List.cons_append, List.length_cons,
      List.length_nil, notCont, notThree, notFour, Bool.false_eq_true, if_false] <;>
    split_ifs <;> simp only [Utf8Item.width] <;> omega

/-- A final ASCII byte is the last item, whatever precedes it; by induction on the length. -/
theorem utf8Items_concat_ascii (before : Bytes) {byte : UInt8} (ascii : byte < 0x80)
    : ∃ items,
        utf8Items (before ++ [byte]) = items ++ [.char (Char.ofNat byte.toNat) 1] := by
  induction size : before.length using Nat.strongRecOn generalizing before with
  | _ bound ih =>
      cases before with
      | nil => exact ⟨[], by simp [utf8Items_ascii ascii]⟩
      | cons b0 rest =>
          have reach := firstItem_width_ascii b0 rest [] ascii
          rw [List.cons_append, utf8Items_cons,
            List.drop_append_of_le_length (by omega)]
          obtain ⟨items, rest⟩ := ih _ (by simp only [List.length_cons] at size; simp; omega)
            (rest.drop ((firstItem b0 (rest ++ [byte])).width - 1)) rfl
          exact ⟨_ :: items, by rw [rest]; rfl⟩

theorem textOfItems_concat {offset : Nat} {items : List Utf8Item} {value : Char}
    {width : Nat} {text : Text}
    (decoded : textOfItems offset (items ++ [.char value width]) = .ok text)
    : ∃ front, text = front ++ [value] := by
  induction items generalizing offset text with
  | nil =>
      obtain rfl : [value] = text := by simpa [textOfItems] using decoded
      exact ⟨[], rfl⟩
  | cons item items ih =>
      cases item with
      | char first width =>
          simp only [List.cons_append, textOfItems] at decoded
          split at decoded
          · next tail inner =>
              obtain ⟨front, rfl⟩ := ih inner
              obtain rfl : first :: (front ++ [value]) = text := by simpa using decoded
              exact ⟨first :: front, rfl⟩
          · cases decoded
      | invalid width => cases decoded
      | incomplete width => cases decoded

/-- Text decoded from bytes with a final ASCII byte ends with that character. -/
theorem fromUtf8_concat_ascii {before : Bytes} {byte : UInt8} {text : Text}
    (ascii : byte < 0x80) (decoded : fromUtf8 (before ++ [byte]) = .ok text)
    : ∃ front, text = front ++ [Char.ofNat byte.toNat] := by
  obtain ⟨items, cut⟩ := utf8Items_concat_ascii before ascii
  rw [fromUtf8, cut] at decoded
  exact textOfItems_concat decoded

theorem toNat_charOfNat {code : Nat} (valid : code.isValidChar)
    : (Char.ofNat code).toNat = code := by
  rw [Char.ofNat, dif_pos valid]
  rfl

theorem codeOfTwo_valid {b0 b1 : UInt8} (low : 0xC2 ≤ b0) (high : b0 ≤ 0xDF)
    : (codeOfTwo b0 b1).isValidChar ∧ 0x80 ≤ codeOfTwo b0 b1 := by
  simp only [UInt8.le_iff_toNat_le, UInt8.reduceToNat] at low high
  exact ⟨Or.inl (by simp only [codeOfTwo]; omega), by simp only [codeOfTwo]; omega⟩

theorem codeOfThree_valid {b0 b1 b2 : UInt8} (low : 0xE0 ≤ b0) (high : b0 ≤ 0xEF)
    (second : isSecondOfThree b0 b1 = true)
    : (codeOfThree b0 b1 b2).isValidChar ∧ 0x80 ≤ codeOfThree b0 b1 b2 := by
  simp only [isSecondOfThree, isContinuation, UInt8.le_iff_toNat_le, ← UInt8.toNat_inj,
    UInt8.reduceToNat] at low high second
  have outside : codeOfThree b0 b1 b2 < 0xD800 ∨ 0xDFFF < codeOfThree b0 b1 b2 := by
    simp only [codeOfThree]
    split_ifs at second <;> simp only [Bool.and_eq_true, decide_eq_true_eq] at second <;> omega
  have top : codeOfThree b0 b1 b2 < 0x110000 := by
    simp only [codeOfThree]
    omega
  refine ⟨outside.imp_right (fun above => ⟨above, top⟩), ?_⟩
  simp only [codeOfThree]
  split_ifs at second <;> simp only [Bool.and_eq_true, decide_eq_true_eq] at second <;> omega

theorem codeOfFour_valid {b0 b1 b2 b3 : UInt8} (low : 0xF0 ≤ b0) (high : b0 ≤ 0xF4)
    (second : isSecondOfFour b0 b1 = true)
    : (codeOfFour b0 b1 b2 b3).isValidChar ∧ 0x80 ≤ codeOfFour b0 b1 b2 b3 := by
  simp only [isSecondOfFour, isContinuation, UInt8.le_iff_toNat_le, ← UInt8.toNat_inj,
    UInt8.reduceToNat] at low high second
  have above : 0xDFFF < codeOfFour b0 b1 b2 b3 := by
    simp only [codeOfFour]
    split_ifs at second <;> simp only [Bool.and_eq_true, decide_eq_true_eq] at second <;> omega
  have top : codeOfFour b0 b1 b2 b3 < 0x110000 := by
    simp only [codeOfFour]
    split_ifs at second <;> simp only [Bool.and_eq_true, decide_eq_true_eq] at second <;> omega
  exact ⟨Or.inr ⟨above, top⟩, by omega⟩

/-- Sequences of several bytes encode only characters outside ASCII.
Witness: the allowed lead and second bytes keep each code in its own range.
-/
theorem firstItem_char_ascii {b0 : UInt8} {rest : Bytes} {value : Char} {width : Nat}
    (item : firstItem b0 rest = .char value width) (ascii : value.toNat < 0x80)
    : b0 = UInt8.ofNat value.toNat ∧ width = 1 := by
  have large {code : Nat} (valid : code.isValidChar ∧ 0x80 ≤ code)
      (same : Char.ofNat code = value)
      : False := by
    rw [← same, toNat_charOfNat valid.1] at ascii
    omega
  simp only [firstItem] at item
  split_ifs at item with one two three four
  · obtain ⟨rfl, rfl⟩ := Utf8Item.char.inj item
    have valid : b0.toNat.isValidChar := by
      rw [UInt8.lt_iff_toNat_lt] at one
      exact Or.inl (by simp at one; omega)
    simp [toNat_charOfNat valid]
  · simp only [Bool.and_eq_true, decide_eq_true_eq] at two
    rcases rest with _ | ⟨b1, rest⟩ <;> simp only [reduceCtorEq] at item
    split_ifs at item
    exact (large (codeOfTwo_valid two.1 two.2) (Utf8Item.char.inj item).1).elim
  · simp only [Bool.and_eq_true, decide_eq_true_eq] at three
    rcases rest with _ | ⟨b1, _ | ⟨b2, rest⟩⟩ <;> simp only [reduceCtorEq] at item <;>
      split_ifs at item with second
    exact (large (codeOfThree_valid three.1 three.2 second) (Utf8Item.char.inj item).1).elim
  · simp only [Bool.and_eq_true, decide_eq_true_eq] at four
    rcases rest with _ | ⟨b1, _ | ⟨b2, _ | ⟨b3, rest⟩⟩⟩ <;>
      simp only [reduceCtorEq] at item <;> split_ifs at item with second
    exact (large (codeOfFour_valid four.1 four.2 second) (Utf8Item.char.inj item).1).elim

/-- Text that starts with an ASCII character was decoded from bytes that start with it. -/
theorem textOfItems_cons_ascii {offset : Nat} {bytes : Bytes} {value : Char} {text : Text}
    (decoded : textOfItems offset (utf8Items bytes) = .ok (value :: text))
    (ascii : value.toNat < 0x80)
    : ∃ rest,
        bytes = UInt8.ofNat value.toNat :: rest
        ∧ textOfItems (offset + 1) (utf8Items rest) = .ok text := by
  cases bytes with
  | nil => simp [textOfItems] at decoded
  | cons b0 rest =>
      rw [utf8Items_cons] at decoded
      cases item : firstItem b0 rest with
      | char first width =>
          simp only [item, textOfItems, Utf8Item.width] at decoded
          split at decoded
          · next tail inner =>
              obtain ⟨rfl, rfl⟩ := List.cons.inj (Except.ok.inj decoded)
              obtain ⟨rfl, rfl⟩ := firstItem_char_ascii item ascii
              exact ⟨rest, rfl, inner⟩
          · cases decoded
      | invalid width => simp [item, textOfItems] at decoded
      | incomplete width => simp [item, textOfItems] at decoded

/-- Decoded text with an ASCII prefix comes from bytes with the same prefix, by induction
on the prefix.
-/
theorem fromUtf8_prefix_ascii {bytes : Bytes} {front text : Text}
    (decoded : fromUtf8 bytes = .ok (front ++ text))
    (ascii : front.all (fun c => decide (c.toNat < 0x80)) = true)
    : front.map (fun c => UInt8.ofNat c.toNat) <+: bytes := by
  unfold fromUtf8 at decoded
  generalize 0 = offset at decoded
  induction front generalizing offset bytes with
  | nil => exact List.nil_prefix
  | cons value front ih =>
      rw [List.all_cons, Bool.and_eq_true, decide_eq_true_eq] at ascii
      obtain ⟨rest, rfl, inner⟩ := textOfItems_cons_ascii decoded ascii.1
      have tail := ih ascii.2 _ inner
      exact List.cons_prefix_cons.mpr ⟨rfl, tail⟩

/-- Encoding produces a zero byte only for the NUL character. -/
theorem zero_mem_toUtf8 {text : Text} (zero : 0 ∈ toUtf8 text) : '\x00' ∈ text := by
  obtain ⟨value, member, inside⟩ := List.mem_flatMap.mp zero
  suffices value = '\x00' by rwa [← this]
  have code : value.toNat = 0 := by
    change value.val.toNat = 0
    simp only [String.utf8EncodeChar] at inside
    split_ifs at inside <;>
      simp only [List.mem_cons, List.not_mem_nil, or_false, ← UInt8.toNat_inj,
        UInt8.toNat_ofNat', UInt8.reduceToNat] at inside <;> omega
  rw [← Char.ofNat_toNat value, code]

end Library
