import Emwin.Qbt.Protocol.CodecRuns

/-! Server-list frames on the wire: the encoder, and the scanner that captures frames from
an upstream byte stream.
-/

namespace Emwin.Qbt
open Library

def defaultScanBufferBytes : Nat := 65536

/-- First position of a needle; an empty needle is never found. -/
def findSubsequence (haystack needle : Bytes) : Option Nat :=
  if needle = [] ∨ haystack.length < needle.length then none
  else windowPosition needle haystack

/-- A position that was found splits the haystack around the needle. -/
theorem findSubsequence_split {haystack needle : Bytes} {start : Nat}
    (found : findSubsequence haystack needle = some start)
    : ∃ skipped after, haystack = skipped ++ (needle ++ after) ∧ skipped.length = start := by
  unfold findSubsequence at found
  split_ifs at found
  obtain ⟨split, bound⟩ := windowPosition_split found
  refine ⟨haystack.take start, haystack.drop (start + needle.length), ?_, ?_⟩
  · rw [← List.append_assoc]
    exact split
  · exact List.length_take_of_le (by omega)

/-- An XOR-encoded `/ServerList/` frame with one entry for each endpoint. -/
def buildServerListWire (servers : List Endpoint) : Bytes :=
  let entries := List.intercalate ['|']
    (servers.map fun server => server.1 ++ ':' :: Nat.toDigits 10 server.2.toNat)
  xorFf (toUtf8 (serverListPrefix ++ entries ++ ['\x00']))

structure QbtServerListWireScanner where
  decodedBuffer : Bytes
  maxBufferBytes : Nat
  deriving DecidableEq, Repr

namespace QbtServerListWireScanner

def new (maxBufferBytes : Nat) : QbtServerListWireScanner where
  decodedBuffer := []
  maxBufferBytes := max maxBufferBytes 1024

/-- The scanner with its default buffer. -/
def default : QbtServerListWireScanner := new defaultScanBufferBytes

/-- One turn of the capture loop: the first frame that is complete in the buffer. -/
def capture (buffer : Bytes) : Pass Bytes Bytes :=
  match findSubsequence buffer (toUtf8 serverListPrefix) with
  | none => { events := [], state := buffer, progressed := false }
  | some start =>
      match (buffer.drop start).findIdx? (· == 0) with
      | none => { events := [], state := buffer, progressed := false }
      | some endRel =>
          let frameEnd := start + endRel + 1
          { events := [xorFf ((buffer.take frameEnd).drop start)]
            state := buffer.drop frameEnd
            progressed := true }

/-- What one turn does: it waits, or it cuts off everything up to the end of a frame. -/
theorem capture_cases (buffer : Bytes)
    : capture buffer = ⟨[], buffer, false⟩
      ∨ ∃ skipped entries rest,
          buffer = skipped ++ (toUtf8 serverListPrefix ++ entries ++ 0 :: rest)
          ∧ 0 ∉ entries
          ∧ capture buffer
            = ⟨[xorFf (toUtf8 serverListPrefix ++ entries ++ [0])], rest, true⟩ := by
  have marker : 0 ∉ toUtf8 serverListPrefix := by decide
  unfold capture
  split
  · exact .inl rfl
  · next start found =>
      obtain ⟨skipped, after, rfl, rfl⟩ := findSubsequence_split found
      generalize toUtf8 serverListPrefix = needle at *
      -- the frame ends at the first zero byte behind the marker, if there is one
      by_cases zero : 0 ∈ after
      · obtain ⟨entries, rest, rfl, body⟩ := List.eq_append_cons_of_mem zero
        have ends : (needle ++ (entries ++ 0 :: rest)).findIdx? (· == 0)
            = some (needle ++ entries).length := by
          rw [← List.append_assoc]
          exact QbtProtocolDecoder.findIdx?_zero (by simp [marker, body])
        have length : skipped.length + (needle ++ entries).length + 1
            = (skipped ++ (needle ++ entries ++ [0])).length := by
          simp only [List.length_append, List.length_singleton]
          omega
        have cut : skipped ++ (needle ++ (entries ++ 0 :: rest))
            = skipped ++ (needle ++ entries ++ [0]) ++ rest := by simp
        refine .inr ⟨skipped, entries, rest, by simp, body, ?_⟩
        simp only [List.drop_left, ends]
        rw [length, cut, List.take_left, List.drop_left, List.drop_left]
      · have none : (needle ++ after).findIdx? (· == 0) = none :=
          QbtProtocolDecoder.findIdx?_unterminated (by simp [marker, zero])
        simp [none]

def captureLoop : DrainLoop Bytes Bytes where
  step := capture
  size := List.length
  shrinks := by
    intro buffer progressed
    obtain waits | ⟨skipped, entries, rest, rfl, -, taken⟩ := capture_cases buffer
    · rw [waits] at progressed
      cases progressed
    · rw [taken]
      simp only [List.length_append, List.length_cons]
      omega

theorem captureLoop_step : captureLoop.step = capture := rfl

/-- The loop stops when no frame is complete any more. -/
theorem captureLoop_idle (buffer : Bytes)
    : (capture (captureLoop.run buffer).2).progressed = false := by
  obtain ⟨last, -, stopped, result⟩ :
      ∃ last,
        True ∧ (capture last).progressed = false
        ∧ (captureLoop.run buffer).2 = (capture last).state :=
    captureLoop.run_last (fun _ _ => trivial) buffer trivial
  obtain waits | ⟨skipped, entries, rest, -, -, taken⟩ := capture_cases last
  · rw [result, waits, waits]
  · rw [taken] at stopped
    cases stopped

/-- What the loop has captured from a buffer, and what it has left of it: all of the buffer,
or what stands behind the latest frame.
-/
def Captured (buffer : Bytes) (frames : List Bytes) (rest : Bytes) : Prop :=
  frames = [] ∧ rest = buffer
  ∨ ∃ skipped entries,
      buffer = skipped ++ (toUtf8 serverListPrefix ++ entries ++ 0 :: rest)
      ∧ 0 ∉ entries
      ∧ frames.getLast? = some (xorFf (toUtf8 serverListPrefix ++ entries ++ [0]))

theorem captureLoop_captured (buffer : Bytes)
    : Captured buffer (captureLoop.run buffer).1 (captureLoop.run buffer).2 := by
  refine captureLoop.run_invariant (motive := Captured buffer) ?_ [] buffer (.inl ⟨rfl, rfl⟩)
  intro frames state before
  rw [captureLoop_step]
  obtain waits | ⟨skipped, entries, rest, split, body, taken⟩ := capture_cases state
  · rw [waits, List.append_nil]
    exact before
  · rw [taken]
    rcases before with ⟨-, rfl⟩ | ⟨earlier, older, rfl, -, -⟩
    · exact .inr ⟨skipped, entries, split, body, List.getLast?_concat⟩
    · refine .inr ⟨earlier ++ (toUtf8 serverListPrefix ++ older ++ 0 :: skipped), entries, ?_,
        body, List.getLast?_concat⟩
      rw [split]
      simp only [List.append_assoc, List.cons_append]

/-- Observe one wire chunk and report the latest frame completed by it. The front of a
buffer above its limit is forgotten first.
-/
def observeWireChunk (scanner : QbtServerListWireScanner) (wire : Bytes)
    : Option Bytes × QbtServerListWireScanner :=
  let extended := scanner.decodedBuffer ++ xorFf wire
  let kept := extended.drop (extended.length - scanner.maxBufferBytes)
  let (frames, rest) := captureLoop.run kept
  (frames.getLast?, { scanner with decodedBuffer := rest })

/-- What the scanner searches when it observes a chunk. -/
def searched (scanner : QbtServerListWireScanner) (wire : Bytes) : Bytes :=
  (scanner.decodedBuffer ++ xorFf wire).drop
    ((scanner.decodedBuffer ++ xorFf wire).length - scanner.maxBufferBytes)

section
variable {scanner : QbtServerListWireScanner} {wire frame : Bytes}

/-- The scanner keeps a part of what it searched that holds no complete frame. -/
theorem observeWireChunk_keeps (scanner : QbtServerListWireScanner) (wire : Bytes)
    : (scanner.observeWireChunk wire).2.decodedBuffer <:+ scanner.searched wire
      ∧ (capture (scanner.observeWireChunk wire).2.decodedBuffer).progressed = false := by
  refine ⟨?_, captureLoop_idle _⟩
  rcases captureLoop_captured (scanner.searched wire)
    with ⟨-, all⟩ | ⟨skipped, entries, split, -⟩
  · exact ⟨[], all⟩
  · refine ⟨skipped ++ (toUtf8 serverListPrefix ++ entries ++ [0]), ?_⟩
    rw [split]
    simp [observeWireChunk, searched]

/-- The frame reported is the last one that is complete in what the scanner searched. -/
theorem observeWireChunk_found (found : (scanner.observeWireChunk wire).1 = some frame)
    : ∃ skipped entries,
        scanner.searched wire
          = skipped
            ++ (toUtf8 serverListPrefix ++ entries
              ++ 0 :: (scanner.observeWireChunk wire).2.decodedBuffer)
        ∧ 0 ∉ entries
        ∧ frame = xorFf (toUtf8 serverListPrefix ++ entries ++ [0]) := by
  rcases captureLoop_captured (scanner.searched wire)
    with ⟨empty, -⟩ | ⟨skipped, entries, split, body, last⟩
  · have nothing : (scanner.observeWireChunk wire).1 = none :=
      (congrArg List.getLast? empty).trans List.getLast?_nil
    rw [nothing] at found
    cases found
  · exact ⟨skipped, entries, split, body, Option.some.inj (found.symm.trans last)⟩

end

end QbtServerListWireScanner

-----------------------------------------------------------------------------------------
-- The shape of a frame
-----------------------------------------------------------------------------------------

/-- Wire bytes that decode to one marked frame with its terminator and nothing else. -/
def IsServerListWire (wire : Bytes) : Prop :=
  ∃ entries, 0 ∉ entries ∧ xorFf wire = toUtf8 serverListPrefix ++ entries ++ [0]

/-- Every frame that the scanner reports has that shape, whatever it observed before. -/
theorem QbtServerListWireScanner.observeWireChunk_framed
    {scanner : QbtServerListWireScanner} {wire frame : Bytes}
    (found : (scanner.observeWireChunk wire).1 = some frame)
    : IsServerListWire frame := by
  obtain ⟨skipped, entries, -, body, rfl⟩ := observeWireChunk_found found
  exact ⟨entries, body, by simp⟩

/-- The encoder writes that shape when no host holds a NUL. -/
theorem buildServerListWire_framed {servers : List Endpoint}
    (noNul : ∀ server ∈ servers, '\x00' ∉ server.1)
    : IsServerListWire (buildServerListWire servers) := by
  refine ⟨toUtf8 (List.intercalate ['|']
    (servers.map fun server => server.1 ++ ':' :: Nat.toDigits 10 server.2.toNat)), ?_, ?_⟩
  · intro zero
    obtain bar | ⟨entry, listed, inside⟩ := mem_intercalate (zero_mem_toUtf8 zero)
    · simp at bar
    · obtain ⟨server, member, rfl⟩ := List.mem_map.mp listed
      rcases List.mem_append.mp inside with host | port
      · exact noNul server member host
      · rcases List.mem_cons.mp port with colon | digit
        · simp at colon
        · have digit := Nat.isDigit_of_mem_toDigits (by omega) (by omega) digit
          simp at digit
  · have nul : String.utf8EncodeChar '\x00' = [0] := by decide
    simp [buildServerListWire, toUtf8, nul]

/-- A frame on its own holds no sync marker: its only zero byte is its terminator. -/
theorem IsServerListWire.no_sync {wire : Bytes} (framed : IsServerListWire wire)
    : windowPosition syncBytes (xorFf wire) = none := by
  obtain ⟨entries, body, decoded⟩ := framed
  rw [windowPosition_eq_none_iff, decoded]
  intro sync
  have zeros := sync.sublist.count_le 0
  have marker : 0 ∉ toUtf8 serverListPrefix := by decide
  rw [List.count_append, List.count_append, List.count_eq_zero_of_not_mem marker,
    List.count_eq_zero_of_not_mem body] at zeros
  simp [syncBytes] at zeros

/-- A decoder that still searches for its first sync marker emits nothing for the frame. -/
theorem QbtProtocolDecoder.feed_unsynced (externals : Externals) (config : QbtDecodeConfig)
    {wire : Bytes} (framed : IsServerListWire wire)
    : (feed externals (.new config) wire).1 = [] :=
  congrArg Prod.fst (run_resync_missing framed.no_sync)

end Emwin.Qbt
