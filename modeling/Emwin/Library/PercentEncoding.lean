import Emwin.Library.Slices

/-! Percent encoding of bytes in a URL, and its decoding. -/

namespace Library

/-- A digit in upper case. -/
def hexDigit (value : Nat) : Char := Char.ofNat (if value < 10 then 48 + value else 55 + value)

/-- The value of a digit in either case. -/
def hexValue? (byte : UInt8) : Option Nat :=
  if 48 ≤ byte ∧ byte ≤ 57 then some (byte.toNat - 48)
  else if 65 ≤ byte ∧ byte ≤ 70 then some (byte.toNat - 55)
  else if 97 ≤ byte ∧ byte ≤ 102 then some (byte.toNat - 87)
  else none

/-- A byte as `%` and two digits. -/
def percentEscape (byte : UInt8) : Text :=
  ['%', hexDigit (byte.toNat / 16), hexDigit (byte.toNat % 16)]

/-- Bytes that are kept stand for themselves, the others are escaped. -/
def percentEncode (kept : UInt8 → Bool) (bytes : Bytes) : Text :=
  bytes.flatMap fun byte =>
    if kept byte then [Char.ofNat byte.toNat] else percentEscape byte

/-- The value of an escape, from its first byte and what follows it. -/
def escapedByte? (first : UInt8) (rest : Bytes) : Option UInt8 :=
  match rest with
  | high :: low :: _ =>
      if first = 0x25 then do
        let high ← hexValue? high
        let low ← hexValue? low
        return UInt8.ofNat (16 * high + low)
      else none
  | _ => none

/-- Decode what follows some bytes that were read as the digits of an escape. -/
def percentDecodeFrom : Nat → Bytes → Bytes
  | _, [] => []
  | skip + 1, _ :: rest => percentDecodeFrom skip rest
  | 0, byte :: rest =>
      match escapedByte? byte rest with
      | some value => value :: percentDecodeFrom 2 rest
      | none => byte :: percentDecodeFrom 0 rest

/-- Escapes give their byte; a `%` without two digits behind it stands for itself. -/
def percentDecode (bytes : Bytes) : Bytes := percentDecodeFrom 0 bytes

/-- Encoded characters are kept bytes, signs and digits. -/
theorem mem_percentEncode {kept : UInt8 → Bool} {bytes : Bytes} {c : Char}
    (member : c ∈ percentEncode kept bytes)
    : (∃ byte, kept byte = true ∧ c = Char.ofNat byte.toNat)
      ∨ c = '%'
      ∨ ∃ value < 16, c = hexDigit value := by
  obtain ⟨byte, -, inside⟩ := List.mem_flatMap.mp member
  have bound : byte.toNat < 256 := byte.toNat_lt
  split at inside
  · next keep => exact .inl ⟨byte, keep, List.mem_singleton.mp inside⟩
  · simp only [percentEscape, List.mem_cons, List.not_mem_nil, or_false] at inside
    rcases inside with sign | high | low
    · exact .inr (.inl sign)
    · exact .inr (.inr ⟨_, by omega, high⟩)
    · exact .inr (.inr ⟨_, by omega, low⟩)

theorem percentEncode_ne_nil {kept : UInt8 → Bool} {bytes : Bytes} (some : bytes ≠ [])
    : percentEncode kept bytes ≠ [] := by
  obtain ⟨byte, rest, rfl⟩ := List.exists_cons_of_ne_nil some
  rw [percentEncode, List.flatMap_cons]
  split <;> simp [percentEscape]

theorem hexDigit_spec {value : Nat} (small : value < 16)
    : (hexDigit value).utf8Size = 1
      ∧ hexValue? (UInt8.ofNat (hexDigit value).toNat) = some value := by
  have all : ∀ value < 16, (hexDigit value).utf8Size = 1
      ∧ hexValue? (UInt8.ofNat (hexDigit value).toNat) = some value := by
    decide
  exact all value small

/-- An escaped byte is read back. -/
theorem percentDecode_escape (byte : UInt8) (rest : Bytes)
    : percentDecode (toUtf8 (percentEscape byte) ++ rest) = byte :: percentDecode rest := by
  have bound : byte.toNat < 256 := byte.toNat_lt
  obtain ⟨highAscii, high⟩ := hexDigit_spec (show byte.toNat / 16 < 16 by omega)
  obtain ⟨lowAscii, low⟩ := hexDigit_spec (show byte.toNat % 16 < 16 by omega)
  have ascii : IsAscii (percentEscape byte) := by
    intro c member
    simp only [percentEscape, List.mem_cons, List.not_mem_nil, or_false] at member
    rcases member with rfl | rfl | rfl
    · rfl
    · exact highAscii
    · exact lowAscii
  have value : UInt8.ofNat (16 * (byte.toNat / 16) + byte.toNat % 16) = byte := by
    rw [Nat.div_add_mod, UInt8.ofNat_toNat]
  rw [toUtf8_ascii ascii, percentEscape]
  simp only [List.map_cons, List.map_nil, List.cons_append, List.nil_append, percentDecode]
  rw [percentDecodeFrom, escapedByte?, if_pos (by decide)]
  simp only [high, low, Option.bind_eq_bind, Option.bind_some, Option.pure_def, value]
  rfl

/-- A byte that starts no escape is read as it is. -/
theorem percentDecode_plain {byte : UInt8} (plain : byte ≠ 0x25) (rest : Bytes)
    : percentDecode (byte :: rest) = byte :: percentDecode rest := by
  have none : escapedByte? byte rest = none := by
    unfold escapedByte?
    split
    · rw [if_neg plain]
    · rfl
  rw [percentDecode, percentDecodeFrom, none]
  rfl

/-- Encoded bytes are read back if those kept are ASCII and no `%`, by induction on them. -/
theorem percentDecode_percentEncode {kept : UInt8 → Bool}
    (keeps : ∀ byte, kept byte = true → byte < 0x80 ∧ byte ≠ 0x25) (bytes : Bytes)
    : percentDecode (toUtf8 (percentEncode kept bytes)) = bytes := by
  induction bytes with
  | nil => rfl
  | cons byte bytes ih =>
      rw [percentEncode, List.flatMap_cons, toUtf8_append, ← percentEncode]
      split
      · next keep =>
          obtain ⟨ascii, plain⟩ := keeps byte keep
          rw [toUtf8_cons, encode_ofNat ascii]
          exact (percentDecode_plain plain _).trans (congrArg _ ih)
      · rw [percentDecode_escape, ih]

end Library
