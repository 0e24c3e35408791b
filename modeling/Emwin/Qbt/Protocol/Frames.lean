import Emwin.Qbt.Protocol.CodecRuns

/-! What a data-block frame means: the segment that a header and a body stand for, and the
events that the decoder makes of them.
-/

namespace Emwin.Qbt
open Library QbtProtocolDecoder

/-- The payload of a received body: its inflated form where version and policy ask for it,
else the body itself. There is none if inflating fails.
-/
def payload? (externals : Externals) (policy : QbtV2CompressionPolicy)
    (version : QbtProtocolVersion) (body : Bytes)
    : Option Bytes :=
  if version = .v2 ∧ shouldAttempt policy body then (externals.inflate body).toOption
  else some body

/-- Text products lose the padding at the end of their payload. -/
def deliveredContent (filename : Text) (payload : Bytes) : Bytes :=
  if isTextOrWmo filename then trimTextPadding payload else payload

/-- Header and body are a valid frame for the segment. -/
structure BlockFrame (externals : Externals) (config : QbtDecodeConfig)
    (header body : Bytes) (segment : QbtSegment)
    : Prop where
  headerLength : header.length = headerSize
  /-- The header announces all fields of the segment but its content. -/
  parsed
    : ∃ pending,
        parseHeader externals header config.maxV2BodySize = .ok pending
        ∧ segment = pending.toSegment segment.content
  bodyLength : body.length = segment.length
  layout
    : (segment.version = .v1 ∧ segment.length = v1BodySize)
      ∨ (segment.version = .v2 ∧ 1 ≤ segment.length
          ∧ segment.length ≤ config.maxV2BodySize)
  numbered
    : 1 ≤ segment.blockNumber.toNat
      ∧ segment.blockNumber.toNat ≤ segment.totalBlocks.toNat
  notFill : isFillFile segment.filename = false
  verified
    : ∃ payload,
        payload? externals config.compressionPolicy segment.version body = some payload
        ∧ byteSum payload ≡ segment.checksum.toNat [MOD 65536]
        ∧ segment.content = deliveredContent segment.filename payload

/-- The two widths of the announced checksum compare alike, since only the low 16 bits
count.
-/
theorem verifyChecksum_expected (pending : PendingSegment) (data : Bytes)
    : verifyChecksum data (expectedChecksum pending) = true
      ↔ byteSum data ≡ pending.checksum.toNat [MOD 65536] := by
  have mask : (pending.checksum &&& 0xFFFF).toNat = pending.checksum.toNat % 65536 := by
    rw [UInt32.toNat_and]
    exact Nat.and_two_pow_sub_one_eq_mod pending.checksum.toNat 16
  simp only [expectedChecksum]
  split
  · rw [mask, verifyChecksum_iff]
    simp [Nat.ModEq]
  · rw [verifyChecksum_iff]

/-- The four drop rules as one condition, for a stored body. -/
theorem emitSegment_eq (pending : PendingSegment)
    : emitSegment pending
      = if pending.decompressionFailed
          ∨ ¬ (1 ≤ pending.blockNumber.toNat
                ∧ pending.blockNumber.toNat ≤ pending.totalBlocks.toNat)
          ∨ isFillFile pending.filename
        then []
        else if byteSum pending.content ≡ pending.checksum.toNat [MOD 65536] then
          [.dataBlock (pending.toSegment (deliveredContent pending.filename pending.content))]
        else [.warning (.checksumMismatch pending.filename pending.blockNumber)] := by
  simp only [emitSegment, misnumbered_iff, verifyChecksum_expected, deliveredContent]
  split_ifs <;> simp_all

theorem emitSegment_fill {pending : PendingSegment}
    (fill : isFillFile pending.filename = true)
    : emitSegment pending = [] := by
  rw [emitSegment_eq, if_pos (Or.inr (Or.inr fill))]

/-- A frame whose body inflates, or is stored as it is, holds its payload. -/
theorem storeBody_payload {externals : Externals} {policy : QbtV2CompressionPolicy}
    {pending : PendingSegment} {body payload : Bytes}
    (found : payload? externals policy pending.version body = some payload)
    : storeBody externals policy pending body = { pending with content := payload } := by
  simp only [payload?] at found
  simp only [storeBody, decompressZlib]
  split_ifs at found ⊢ with inflates
  · cases inflated : externals.inflate body with
    | ok data =>
        simp only [inflated, Except.toOption, Option.some.injEq] at found
        simp [found]
    | error reason => simp [inflated, Except.toOption] at found
  · simp [Option.some.inj found]

/-- A frame whose body fails to inflate is marked and emits nothing of its own. -/
theorem storeBody_failed {externals : Externals} {policy : QbtV2CompressionPolicy}
    {pending : PendingSegment} {body : Bytes}
    (failed : payload? externals policy pending.version body = none)
    : (storeBody externals policy pending body).decompressionFailed = true := by
  simp only [payload?] at failed
  split_ifs at failed with inflates
  cases inflated : externals.inflate body with
  | ok data => simp [inflated, Except.toOption] at failed
  | error reason => simp [storeBody, inflates, decompressZlib, inflated]

variable {externals : Externals} {config : QbtDecodeConfig} {header body : Bytes}
  {pending : PendingSegment} {segment : QbtSegment}

/-- A data block that a frame emits is valid for its header and body.
Witness: the drop rules leave only verified segments, and storing the body kept the header's
fields.
-/
theorem BlockFrame.of_emitted (size : header.length = headerSize)
    (parsed : parseHeader externals header config.maxV2BodySize = .ok pending)
    (bodySize : body.length = pending.length)
    (emitted
      : segment
        ∈ dataBlocks (emitSegment (storeBody externals config.compressionPolicy pending body)))
    : BlockFrame externals config header body segment := by
  have fresh := parseHeader_fresh parsed
  cases found : payload? externals config.compressionPolicy pending.version body with
  | none => simp [emitSegment, storeBody_failed found, dataBlocks] at emitted
  | some payload =>
      rw [storeBody_payload found, emitSegment_eq] at emitted
      simp only [fresh, Bool.false_eq_true, false_or] at emitted
      split at emitted
      · simp [dataBlocks] at emitted
      next kept =>
        obtain ⟨numbered, notFill⟩ := not_or.mp kept
        split at emitted
        · next verified =>
            simp only [dataBlocks, List.filterMap_cons, List.filterMap_nil,
              List.mem_singleton] at emitted
            subst emitted
            exact {
              headerLength := size
              parsed := ⟨pending, parsed, rfl⟩
              bodyLength := bodySize
              layout := parseHeader_layout parsed
              numbered := not_not.mp numbered
              notFill := Bool.not_eq_true _ ▸ notFill
              verified := ⟨payload, found, verified, rfl⟩
            }
        · simp [dataBlocks] at emitted

/-- At most one data block comes of a frame. -/
theorem dataBlocks_emitSegment (pending : PendingSegment)
    : dataBlocks (emitSegment pending) = []
      ∨ ∃ segment, dataBlocks (emitSegment pending) = [segment] := by
  rw [emitSegment_eq]
  split_ifs <;> simp [dataBlocks]

/-- A valid frame emits its segment, after the warnings of its header. -/
theorem BlockFrame.emits (frame : BlockFrame externals config header body segment)
    (parsed : parseHeader externals header config.maxV2BodySize = .ok pending)
    : (storeBody externals config.compressionPolicy pending body).warnings = pending.warnings
      ∧ emitSegment (storeBody externals config.compressionPolicy pending body)
        = [.dataBlock segment] := by
  obtain ⟨pending', parsed', fields⟩ := frame.parsed
  obtain rfl : pending' = pending := Except.ok.inj (parsed'.symm.trans parsed)
  obtain ⟨payload, found, verified, content⟩ := frame.verified
  have fresh := parseHeader_fresh parsed
  have numbered := frame.numbered
  have notFill := frame.notFill
  have filename : segment.filename = pending'.filename := congrArg QbtSegment.filename fields
  rw [filename] at content
  rw [content] at fields
  subst fields
  simp only [PendingSegment.toSegment] at found verified numbered notFill
  rw [storeBody_payload found, emitSegment_eq]
  simp [fresh, numbered, notFill, verified, PendingSegment.toSegment]

/-- A header line, padded with spaces to the size of a header. -/
def paddedHeader (line : Text) : Bytes :=
  toUtf8 line ++ List.replicate (headerSize - utf8Len line) 0x20

/-- The header of a single-block V2 frame with a body of five bytes. -/
def sampleHeader : Bytes :=
  paddedHeader
    "/PFHELLO.TXT /PN 1 /PT 1 /CS 372 /FD01/01/2024 01:00:00 AM /DL5 \r\n".toList

/-- Garbage, a sync marker and the frame of that header. -/
def sampleStream : Bytes :=
  toUtf8 "noise".toList ++ syncBytes ++ sampleHeader ++ toUtf8 "HELLO".toList

def sampleSegment : QbtSegment where
  filename := "HELLO.TXT".toList
  blockNumber := 1
  totalBlocks := 1
  content := toUtf8 "HELLO".toList
  checksum := 372
  length := 5
  version := .v2
  timestampUtc := 1704070800000000000

end Emwin.Qbt
