import Emwin.Library.Regex
import Emwin.Qbt.Protocol.Model

/-! The 80-byte data-block header: its pattern, its fields and the pending segment. -/

namespace Emwin.Qbt
open Library

def headerSize : Nat := 80
def v1BodySize : Nat := 1024

/-- Partially decoded data-block frame held between state-machine steps. -/
structure PendingSegment where
  filename : Text
  blockNumber : UInt32
  totalBlocks : UInt32
  checksum : UInt32
  length : Nat
  version : QbtProtocolVersion
  content : Bytes
  timestampUtc : SystemTime
  warnings : List QbtProtocolWarning
  decompressionFailed : Bool
  deriving DecidableEq, Repr

def isFilenameChar (c : Char) : Bool := c.isAlphanum || c == '.' || c == '_' || c == '-'

def isDateChar (c : Char) : Bool := c.isDigit || c == '/' || c == ':' || c == ' '

/-- The five mandatory fields. -/
def headerFields : List Regex := [
  .lit "/PF".toList, .group "pf" (.many1 isFilenameChar), .many isWhitespace,
  .lit "/PN".toList, .many isWhitespace, .group "pn" (.many1 Char.isDigit), .many isWhitespace,
  .lit "/PT".toList, .many isWhitespace, .group "pt" (.many1 Char.isDigit), .many isWhitespace,
  .lit "/CS".toList, .many isWhitespace, .group "cs" (.many1 Char.isDigit), .many isWhitespace,
  .lit "/FD".toList,
  .group "fd"
    (.concat [.many1 isDateChar, .cls (fun c => c == 'A' || c == 'P'), .lit ['M']]),
  .many isWhitespace
]

/-- The optional body length of a V2 frame. -/
def headerLength : Regex :=
  .opt (.concat [.lit "/DL".toList, .group "dl" (.many1 Char.isDigit), .many isWhitespace])

/-- Line end and padding. -/
def headerEnd : List Regex := [.lit "\r\n".toList, .many isWhitespace, .endOfText]

/-- The header pattern. Its leading anchor is the anchored reading of `Regex.captures?`. -/
def headerRegex : Regex := .concat (headerFields ++ [headerLength] ++ headerEnd)

def captureU32 (captures : List (String × Text)) (group : String) (fieldTag : Text)
    : Except QbtProtocolError UInt32 := do
  let digits ← okOr (.missingField fieldTag) (captureNamed group captures)
  let value ← okOr .invalidHeader (parseUnsigned (2 ^ 32) digits)
  return UInt32.ofNat value

def captureOptionalU32 (captures : List (String × Text)) (group : String)
    : Except QbtProtocolError (Option UInt32) :=
  match captureNamed group captures with
  | none => .ok none
  | some digits =>
      match parseUnsigned (2 ^ 32) digits with
      | none => .error .invalidHeader
      | some value => .ok (some (UInt32.ofNat value))

def parseFdTimestamp (externals : Externals) (fd : Text) : Option SystemTime :=
  (externals.parseDateTime fd).map fun (seconds, nanos) =>
    if seconds ≥ 0 then seconds * 1000000000 + nanos
    else -((seconds.natAbs * 1000000000 + nanos : Nat) : Int)

/-- Timestamp of the `/FD` field, or the wall clock and a warning. -/
def headerTimestamp (externals : Externals) (fd : Text)
    : SystemTime × List QbtProtocolWarning :=
  match parseFdTimestamp externals fd with
  | some timestamp => (timestamp, [])
  | none => (externals.now, [.timestampParseFallback fd])

/-- Version and body length that a header announces. -/
def bodyLayout (dl : Option UInt32) (maxV2BodySize : Nat)
    : Except QbtProtocolError (QbtProtocolVersion × Nat) :=
  match dl with
  | some dl =>
      let len := dl.toNat
      if len = 0 ∨ len > maxV2BodySize then .error (.invalidBodyLength len)
      else .ok (.v2, len)
  | none => .ok (.v1, v1BodySize)

def parseHeader (externals : Externals) (input : Bytes) (maxV2BodySize : Nat)
    : Except QbtProtocolError PendingSegment := do
  let header ← (fromUtf8 input).mapError (fun error => .invalidUtf8 error.toText)
  let captures ← okOr .invalidHeader (headerRegex.captures? header)
  let filename ← okOr (.missingField "/PF".toList) (captureNamed "pf" captures)
  let blockNumber ← captureU32 captures "pn" "/PN".toList
  let totalBlocks ← captureU32 captures "pt" "/PT".toList
  let checksum ← captureU32 captures "cs" "/CS".toList
  let fd ← okOr (.missingField "/FD".toList) (captureNamed "fd" captures)
  let time := headerTimestamp externals fd
  let dl ← captureOptionalU32 captures "dl"
  let layout ← bodyLayout dl maxV2BodySize
  return {
    filename, blockNumber, totalBlocks, checksum
    length := layout.2, version := layout.1, content := []
    timestampUtc := time.1, warnings := time.2, decompressionFailed := false
  }

/-- The header grammar reads these captures from the bytes of a header. -/
def HeaderCaptures (input : Bytes) (captures : List (String × Text)) : Prop :=
  ∃ text, fromUtf8 input = .ok text ∧ headerRegex.captures? text = some captures

/-- A header is accepted exactly when the grammar reads it, its number fields fit `u32`
and its body length is admissible; the pending segment then holds those fields.
-/
theorem parseHeader_ok_iff {externals : Externals} {input : Bytes} {maxV2BodySize : Nat}
    {pending : PendingSegment}
    : parseHeader externals input maxV2BodySize = .ok pending
      ↔ ∃ captures fd dl,
          HeaderCaptures input captures
          ∧ captureNamed "pf" captures = some pending.filename
          ∧ captureU32 captures "pn" "/PN".toList = .ok pending.blockNumber
          ∧ captureU32 captures "pt" "/PT".toList = .ok pending.totalBlocks
          ∧ captureU32 captures "cs" "/CS".toList = .ok pending.checksum
          ∧ captureNamed "fd" captures = some fd
          ∧ captureOptionalU32 captures "dl" = .ok dl
          ∧ bodyLayout dl maxV2BodySize = .ok (pending.version, pending.length)
          ∧ headerTimestamp externals fd = (pending.timestampUtc, pending.warnings)
          ∧ pending.content = []
          ∧ pending.decompressionFailed = false := by
  simp only [parseHeader, exceptBind_ok_iff, okOr_eq_ok, mapError_eq_ok, HeaderCaptures]
  constructor
  · rintro ⟨text, decoded, captures, matched, filename, pf, pn, pnOk, pt, ptOk, cs, csOk,
      fd, fdOk, dl, dlOk, layout, layoutOk, result⟩
    cases result
    exact ⟨captures, fd, dl, ⟨text, decoded, matched⟩, pf, pnOk, ptOk, csOk, fdOk, dlOk,
      layoutOk, rfl, rfl, rfl⟩
  · rintro ⟨captures, fd, dl, ⟨text, decoded, matched⟩, pf, pn, pt, cs, fdOk, dlOk,
      layout, time, content, failed⟩
    refine ⟨text, decoded, captures, matched, _, pf, _, pn, _, pt, _, cs, fd, fdOk, dl, dlOk,
      _, layout, ?_⟩
    rw [time, ← content, ← failed]
    rfl

/-- A header alone has not failed to inflate. -/
theorem parseHeader_fresh {externals : Externals} {input : Bytes} {maxV2BodySize : Nat}
    {pending : PendingSegment}
    (parsed : parseHeader externals input maxV2BodySize = .ok pending)
    : pending.decompressionFailed = false := by
  obtain ⟨_, _, _, _, _, _, _, _, _, _, _, _, _, fresh⟩ := parseHeader_ok_iff.mp parsed
  exact fresh

theorem captureU32_ne_invalidFrameType (captures : List (String × Text)) (group : String)
    (fieldTag : Text)
    : captureU32 captures group fieldTag ≠ .error .invalidFrameType := by
  refine exceptBind_ne_error (okOr_ne_error (by simp)) fun digits => ?_
  exact exceptBind_ne_error (okOr_ne_error (by simp)) fun value => by simp [pure, Except.pure]

/-- A refused header never counts as a frame of invalid type.
Witness: walk down the chain of field readers; none of them raises that error.
-/
theorem parseHeader_ne_invalidFrameType (externals : Externals) (input : Bytes)
    (maxV2BodySize : Nat)
    : parseHeader externals input maxV2BodySize ≠ .error .invalidFrameType := by
  unfold parseHeader
  refine exceptBind_ne_error ?_ fun text => ?_
  · cases decoded : fromUtf8 input <;> simp [Except.mapError]
  refine exceptBind_ne_error (okOr_ne_error (by simp)) fun captures => ?_
  refine exceptBind_ne_error (okOr_ne_error (by simp)) fun filename => ?_
  refine exceptBind_ne_error (captureU32_ne_invalidFrameType _ _ _) fun blockNumber => ?_
  refine exceptBind_ne_error (captureU32_ne_invalidFrameType _ _ _) fun totalBlocks => ?_
  refine exceptBind_ne_error (captureU32_ne_invalidFrameType _ _ _) fun checksum => ?_
  refine exceptBind_ne_error (okOr_ne_error (by simp)) fun fd => ?_
  refine exceptBind_ne_error ?_ fun dl => exceptBind_ne_error ?_ fun layout => by
    simp [pure, Except.pure]
  · simp only [captureOptionalU32]
    split
    · simp
    · split <;> simp
  · simp only [bodyLayout]
    split
    · split_ifs <;> simp
    · simp

/-- The grammar accepts only headers that start with the bytes of `/PF`. -/
theorem HeaderCaptures.startsWithPf {input : Bytes} {captures : List (String × Text)}
    (accepted : HeaderCaptures input captures)
    : [0x2F, 0x50, 0x46] <+: input := by
  obtain ⟨text, decoded, matched⟩ := accepted
  obtain ⟨found, member⟩ := Regex.mem_run_of_captures matched
  obtain ⟨left, leftMember, _, _, _⟩ := Regex.mem_run_seq.mp member
  have split := Regex.run_split leftMember
  rw [Regex.run_lit leftMember] at split
  rw [split] at decoded
  exact fromUtf8_prefix_ascii decoded (by decide)

/-- The grammar accepts only headers that end with white space.
Witness: the pattern ends with CRLF and white space up to the end of the text.
-/
theorem header_ends_with_whitespace {text : Text} {captures : List (String × Text)}
    (matched : headerRegex.captures? text = some captures)
    : ∃ front last, text = front ++ [last] ∧ isWhitespace last = true := by
  obtain ⟨found, member⟩ := Regex.mem_run_of_captures matched
  obtain ⟨suffix, ⟨front, same⟩, _, endMember, _⟩ := Regex.run_concat_suffix member
  obtain ⟨crlf, crlfMember, padded, paddedMember, _⟩ := Regex.mem_run_seq.mp endMember
  obtain ⟨padding, paddingMember, final, finalMember, _⟩ := Regex.mem_run_seq.mp paddedMember
  obtain ⟨stop, stopMember, _, _, _⟩ := Regex.mem_run_seq.mp finalMember
  obtain ⟨nothing, _, _⟩ := Regex.run_endOfText stopMember
  obtain ⟨paddingSplit, spaces⟩ := Regex.runMany_split paddingMember
  have suffixSplit : suffix = "\r\n".toList ++ padding.taken := by
    rw [Regex.run_split crlfMember, Regex.run_lit crlfMember, paddingSplit, nothing,
      List.append_nil]
  rcases List.eq_nil_or_concat padding.taken with empty | ⟨before, last, same'⟩
  · refine ⟨front ++ ['\r'], '\n', ?_, by decide⟩
    rw [← same, suffixSplit, empty]
    simp
  · refine ⟨front ++ "\r\n".toList ++ before, last, ?_, spaces last (by simp [same'])⟩
    rw [← same, suffixSplit, same']
    simp

/-- A header whose last byte is zero is refused: NUL is not white space. -/
theorem HeaderCaptures.not_zero_ended {before : Bytes} {captures : List (String × Text)}
    : ¬ HeaderCaptures (before ++ [0]) captures := by
  rintro ⟨text, decoded, matched⟩
  obtain ⟨front, rfl⟩ := fromUtf8_concat_ascii (by decide) decoded
  obtain ⟨front', last, same, space⟩ := header_ends_with_whitespace matched
  obtain ⟨_, nul⟩ := List.append_inj' same rfl
  obtain rfl := (List.cons.inj nul).1
  exact absurd space (by decide)

/-- The body that an accepted header announces: 1024 bytes, or a length within bounds. -/
theorem parseHeader_layout {externals : Externals} {input : Bytes} {maxV2BodySize : Nat}
    {pending : PendingSegment}
    (parsed : parseHeader externals input maxV2BodySize = .ok pending)
    : (pending.version = .v1 ∧ pending.length = v1BodySize)
      ∨ (pending.version = .v2 ∧ 1 ≤ pending.length ∧ pending.length ≤ maxV2BodySize) := by
  obtain ⟨captures, fd, dl, _, _, _, _, _, _, _, layout, _⟩ := parseHeader_ok_iff.mp parsed
  simp only [bodyLayout] at layout
  split at layout
  · split_ifs at layout with bad
    obtain ⟨version, length⟩ := Prod.mk.inj (Except.ok.inj layout)
    exact Or.inr ⟨version.symm, by omega, by omega⟩
  · obtain ⟨version, length⟩ := Prod.mk.inj (Except.ok.inj layout)
    exact Or.inl ⟨version.symm, length.symm⟩

end Emwin.Qbt
