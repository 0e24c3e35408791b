import Mathlib.Data.Nat.ModEq
import Emwin.Library.Text

/-! Data model of the QBT protocol: configuration, errors, segments, events and the
checksum and compression rules that the decoder applies to a body.
-/

namespace Emwin.Qbt
open Library

inductive QbtChecksumPolicy where
  | strictDrop
  deriving DecidableEq, Repr

inductive QbtV2CompressionPolicy where
  | requireZlibHeader
  | tryAlways
  deriving DecidableEq, Repr

structure QbtDecodeConfig where
  checksumPolicy : QbtChecksumPolicy := .strictDrop
  compressionPolicy : QbtV2CompressionPolicy := .requireZlibHeader
  maxV2BodySize : Nat := 1024
  deriving DecidableEq, Repr

/-- Nanoseconds relative to the Unix epoch. -/
abbrev SystemTime := Int

/-- Code that the decoder calls and that is not part of the repository.
`parseDateTime` is the date library's parse of the `/FD` format, giving Unix seconds and
nanoseconds of the parsed UTC instant; `inflate` is the zlib decoder with its error text;
`now` is the wall clock read when a timestamp cannot be parsed.
-/
structure Externals where
  parseDateTime : Text → Option (Int × Nat)
  inflate : Bytes → Except Text Bytes
  now : SystemTime

/-- The externals on one date and one zlib stream, that of the empty string. -/
def sampleExternals : Externals where
  parseDateTime text :=
    if text = "01/01/2024 01:00:00 AM".toList then some (1704070800, 0) else none
  inflate bytes :=
    if [0x78, 0x9C, 0x03, 0x00, 0x00, 0x00, 0x00, 0x01] <+: bytes then .ok []
    else .error "corrupt deflate stream".toList
  now := 0

inductive QbtProtocolError where
  | invalidHeader
  | invalidBodyLength (length : Nat)
  | unsupportedFrame
  | missingField (field : Text)
  | decompression (reason : Text)
  | checksumMismatch
  | invalidFrameType
  | invalidUtf8 (reason : Text)
  | utf8 (error : Utf8Error)
  deriving DecidableEq, Repr

/-- Display text of an error. -/
def QbtProtocolError.toText : QbtProtocolError → Text
  | .invalidHeader => "invalid frame header".toList
  | .invalidBodyLength length => "invalid body length: ".toList ++ Nat.toDigits 10 length
  | .unsupportedFrame => "unsupported frame".toList
  | .missingField field => "missing field: ".toList ++ field
  | .decompression reason => "decompression failed: ".toList ++ reason
  | .checksumMismatch => "checksum mismatch".toList
  | .invalidFrameType => "invalid frame type".toList
  | .invalidUtf8 reason => "invalid utf8 in frame: ".toList ++ reason
  | .utf8 error => "utf8 decode failed: ".toList ++ error.toText

inductive QbtProtocolVersion where
  | v1
  | v2
  deriving DecidableEq, Repr

structure QbtSegment where
  filename : Text
  blockNumber : UInt32
  totalBlocks : UInt32
  content : Bytes
  checksum : UInt32
  length : Nat
  version : QbtProtocolVersion
  timestampUtc : SystemTime
  deriving DecidableEq, Repr

abbrev Endpoint := Text × UInt16

structure QbtServerList where
  servers : List Endpoint := []
  satServers : List Endpoint := []
  deriving DecidableEq, Repr

inductive QbtProtocolWarning where
  | checksumMismatch (filename : Text) (blockNumber : UInt32)
  | decompressionFailed (filename : Text) (blockNumber : UInt32) (reason : Text)
  | decoderRecovered (error : Text)
  | malformedServerEntry (entry : Text)
  | timestampParseFallback (raw : Text)
  | handlerError (message : Text)
  | backpressureDrop
      (droppedSinceLastReport totalDroppedEvents decoderRecoveryEvents : UInt64)
  deriving DecidableEq, Repr

inductive QbtFrameEvent where
  | dataBlock (segment : QbtSegment)
  | serverListUpdate (list : QbtServerList)
  | warning (warning : QbtProtocolWarning)
  deriving DecidableEq, Repr

/-- The numbering check of decoder and assembler, over the numbers themselves. -/
theorem misnumbered_iff (number total : UInt32)
    : (total = 0 ∨ number = 0 ∨ number > total)
      ↔ ¬ (1 ≤ number.toNat ∧ number.toNat ≤ total.toNat) := by
  simp only [← UInt32.toNat_inj, UInt32.lt_iff_toNat_lt, gt_iff_lt, UInt32.toNat_zero]
  omega

/-- Segments of the data-block events, in order. -/
def dataBlocks (events : List QbtFrameEvent) : List QbtSegment :=
  events.filterMap fun
    | .dataBlock segment => some segment
    | _ => none

@[simp] theorem dataBlocks_append (left right : List QbtFrameEvent)
    : dataBlocks (left ++ right) = dataBlocks left ++ dataBlocks right :=
  List.filterMap_append

@[simp] theorem dataBlocks_warnings (warnings : List QbtProtocolWarning)
    : dataBlocks (warnings.map QbtFrameEvent.warning) = [] := by
  simp [dataBlocks]

/-- The XOR-`0xFF` wire transform, in both directions. -/
def xorFf (data : Bytes) : Bytes := data.map (· ^^^ 0xFF)

@[simp] theorem xorFf_append (left right : Bytes)
    : xorFf (left ++ right) = xorFf left ++ xorFf right :=
  List.map_append

@[simp] theorem xorFf_xorFf (data : Bytes) : xorFf (xorFf data) = data := by
  have twice (byte : UInt8) : byte ^^^ 0xFF ^^^ 0xFF = byte := by
    rw [UInt8.xor_assoc, UInt8.xor_self, UInt8.xor_zero]
  simp [xorFf, Function.comp_def, twice]

/-- Wrapping 32-bit byte sum, cut to its low 16 bits. -/
def calculateQbtChecksum (data : Bytes) : UInt16 :=
  (data.foldl (fun sum byte => sum + byte.toUInt32) (0 : UInt32) &&& 0xFFFF).toUInt16

def verifyChecksum (data : Bytes) (expected : Int) : Bool :=
  if expected < 0 then false
  else (calculateQbtChecksum data).toNat == (expected.toNat &&& 0xFFFF)

def hasZlibHeader (input : Bytes) : Bool :=
  input.take 2 == [0x78, 0x9C] || input.take 2 == [0x78, 0xDA]
  || input.take 2 == [0x78, 0x01]

def decompressZlib (externals : Externals) (input : Bytes)
    : Except QbtProtocolError Bytes :=
  match externals.inflate input with
  | .ok data => .ok data
  | .error reason => .error (.decompression reason)

/-- Whether the decoder tries to inflate a body under the configured policy. -/
def shouldAttempt (policy : QbtV2CompressionPolicy) (content : Bytes) : Bool :=
  match policy with
  | .requireZlibHeader => hasZlibHeader content
  | .tryAlways => true

/-- Sum of the bytes as numbers. -/
def byteSum (data : Bytes) : Nat := (data.map UInt8.toNat).sum

theorem foldl_byteSum (data : Bytes) (start : UInt32)
    : (data.foldl (fun sum byte => sum + byte.toUInt32) start).toNat
      = (start.toNat + byteSum data) % 2 ^ 32 := by
  induction data generalizing start with
  | nil =>
      have small := start.toNat_lt
      simp [byteSum]
  | cons byte rest ih =>
      rw [List.foldl_cons, ih]
      simp only [byteSum, List.map_cons, List.sum_cons, UInt32.toNat_add,
        UInt8.toNat_toUInt32]
      omega

/-- The 32-bit wrap of the running sum is invisible in the low 16 bits. -/
theorem calculateQbtChecksum_toNat (data : Bytes)
    : (calculateQbtChecksum data).toNat = byteSum data % 65536 := by
  have mask (n : Nat) : n &&& 65535 = n % 65536 := Nat.and_two_pow_sub_one_eq_mod n 16
  have sum := foldl_byteSum data 0
  simp only [calculateQbtChecksum, UInt32.toNat_toUInt16, UInt32.toNat_and, sum]
  simp only [UInt32.reduceToNat, mask]
  omega

/-- Checksum verification compares byte sum and announced value modulo `65536`. -/
theorem verifyChecksum_iff (data : Bytes) (expected : Nat)
    : verifyChecksum data expected = true ↔ byteSum data ≡ expected [MOD 65536] := by
  have mask (n : Nat) : n &&& 65535 = n % 65536 := Nat.and_two_pow_sub_one_eq_mod n 16
  simp [verifyChecksum, calculateQbtChecksum_toNat, mask, Nat.ModEq]

end Emwin.Qbt
