import Emwin.Library.StreamLoop
import Emwin.Qbt.Protocol.Header
import Emwin.Qbt.Protocol.ServerList

/-! The stateful QBT decoder: seven state handlers, error recovery and the feed loop. -/

namespace Emwin.Qbt
open Library

def syncBytes : Bytes := [0, 0, 0, 0, 0, 0]

/-- The bytes of `/PF`. -/
def pfBytes : Bytes := [0x2F, 0x50, 0x46]

/-- The bytes of `/Se`. -/
def seBytes : Bytes := [0x2F, 0x53, 0x65]

inductive DecoderState where
  | resync
  | startFrame
  | frameType
  | qbtServerList
  | blockHeader
  | blockBody
  | validate
  deriving DecidableEq, Repr

structure QbtProtocolDecoder where
  config : QbtDecodeConfig
  buffer : Bytes
  state : DecoderState
  pending : Option PendingSegment
  deriving DecidableEq, Repr

/-- What a state handler leaves behind: the decoder also keeps what it consumed before an
error.
-/
structure Handled where
  decoder : QbtProtocolDecoder
  out : List QbtFrameEvent := []
  result : Except QbtProtocolError Bool

def isTextOrWmo (filename : Text) : Bool :=
  let upper := toAsciiUppercase filename
  ".TXT".toList <:+ upper || ".WMO".toList <:+ upper

/-- Bytes that text products may be padded with. -/
def isTextPadding (byte : UInt8) : Bool :=
  byte == 0x00 || byte == 0x20 || byte == 0x09 || byte == 0x0D || byte == 0x0A

def trimTextPadding (content : Bytes) : Bytes :=
  (content.reverse.dropWhile isTextPadding).reverse

def isFillFile (filename : Text) : Bool := eqIgnoreAsciiCase filename "FILLFILE.TXT".toList

/-- The segment that a validated pending frame becomes. -/
def PendingSegment.toSegment (pending : PendingSegment) (content : Bytes) : QbtSegment where
  filename := pending.filename
  blockNumber := pending.blockNumber
  totalBlocks := pending.totalBlocks
  content := content
  checksum := pending.checksum
  length := pending.length
  version := pending.version
  timestampUtc := pending.timestampUtc

namespace QbtProtocolDecoder

def new (config : QbtDecodeConfig) : QbtProtocolDecoder where
  config := config
  buffer := []
  state := .resync
  pending := none

def reset (decoder : QbtProtocolDecoder) : QbtProtocolDecoder :=
  { decoder with buffer := [], pending := none, state := .resync }

-----------------------------------------------------------------------------------------
-- State handlers
-----------------------------------------------------------------------------------------

def findSync (decoder : QbtProtocolDecoder) : QbtProtocolDecoder × Bool :=
  if decoder.buffer.length < syncBytes.length then (decoder, false)
  else
    match windowPosition syncBytes decoder.buffer with
    | some idx =>
        let consume := idx + syncBytes.length
        ({ decoder with buffer := decoder.buffer.drop consume, state := .startFrame }, true)
    | none =>
        let keep := syncBytes.length - 1
        ({ decoder with buffer := decoder.buffer.drop (decoder.buffer.length - keep) }, false)

def skipPadding (decoder : QbtProtocolDecoder) : QbtProtocolDecoder × Bool :=
  let rest := decoder.buffer.dropWhile (· == 0)
  let skipped := decoder.buffer.length - rest.length
  if rest ≠ [] then ({ decoder with buffer := rest, state := .frameType }, true)
  else ({ decoder with buffer := rest }, decide (skipped > 0))

def detectFrameType (decoder : QbtProtocolDecoder) : QbtProtocolDecoder × Bool :=
  match decoder.buffer with
  | [] => (decoder, false)
  | first :: rest =>
      -- both fallbacks give up one byte and look for the next sync marker
      if first ≠ 0x2F then ({ decoder with buffer := rest, state := .resync }, true)
      else if decoder.buffer.length < 3 then (decoder, false)
      else if pfBytes <+: decoder.buffer then ({ decoder with state := .blockHeader }, true)
      else if seBytes <+: decoder.buffer
          ∨ toUtf8 serverListPrefix <+: decoder.buffer then
        ({ decoder with state := .qbtServerList }, true)
      else ({ decoder with buffer := rest, state := .resync }, true)

/-- The text of a server-list frame without its terminator, parsed. -/
def decodeServerList (frame : Bytes)
    : Except QbtProtocolError (QbtServerList × List QbtProtocolWarning) := do
  let content ← (fromUtf8 frame).mapError (fun (error : Utf8Error) => .invalidUtf8 error.toText)
  parseServerListFrame content

def processServerList (decoder : QbtProtocolDecoder) : Handled :=
  match decoder.buffer.findIdx? (· == 0) with
  | none => { decoder, result := .ok false }
  | some endIdx =>
      let frame := decoder.buffer.take endIdx
      let decoder := { decoder with buffer := decoder.buffer.drop (endIdx + 1) }
      match decodeServerList frame with
      | .error error => { decoder, result := .error error }
      | .ok (serverList, warnings) =>
          { decoder := { decoder with state := .startFrame }
            out := .serverListUpdate serverList :: warnings.map .warning
            result := .ok true }

def processBlockHeader (externals : Externals) (decoder : QbtProtocolDecoder) : Handled :=
  if decoder.buffer.length < headerSize then { decoder, result := .ok false }
  else
    let headerBytes := decoder.buffer.take headerSize
    let decoder := { decoder with buffer := decoder.buffer.drop headerSize }
    match parseHeader externals headerBytes decoder.config.maxV2BodySize with
    | .error error => { decoder, result := .error error }
    | .ok pending =>
        { decoder := { decoder with pending := some pending, state := .blockBody }
          result := .ok true }

/-- Store a received body, inflated where the version and the policy ask for it. -/
def storeBody (externals : Externals) (policy : QbtV2CompressionPolicy)
    (pending : PendingSegment) (body : Bytes)
    : PendingSegment :=
  if pending.version = .v2 ∧ shouldAttempt policy body then
    match decompressZlib externals body with
    | .ok decompressed => { pending with content := decompressed }
    | .error error =>
        { pending with
          content := body
          decompressionFailed := true
          warnings :=
            pending.warnings
            ++ [.decompressionFailed pending.filename pending.blockNumber error.toText] }
  else { pending with content := body }

def processBlockBody (externals : Externals) (decoder : QbtProtocolDecoder) : Handled :=
  match decoder.pending with
  | none => { decoder, result := .error .invalidFrameType }
  | some pending =>
      if decoder.buffer.length < pending.length then { decoder, result := .ok false }
      else
        let body := decoder.buffer.take pending.length
        let stored := storeBody externals decoder.config.compressionPolicy pending body
        { decoder :=
            { decoder with
              buffer := decoder.buffer.drop pending.length
              pending := some stored
              state := .validate }
          result := .ok true }

/-- Checksum value that a frame is compared with; V1 headers are cut to 16 bits. -/
def expectedChecksum (pending : PendingSegment) : Int :=
  if pending.version = .v1 then ((pending.checksum &&& 0xFFFF).toNat : Int)
  else (pending.checksum.toNat : Int)

/-- Events of a complete frame after its stored warnings. -/
def emitSegment (pending : PendingSegment) : List QbtFrameEvent :=
  if pending.decompressionFailed then []
  else if pending.totalBlocks = 0 ∨ pending.blockNumber = 0
      ∨ pending.blockNumber > pending.totalBlocks then []
  else if isFillFile pending.filename then []
  else if ¬ verifyChecksum pending.content (expectedChecksum pending) then
    [.warning (.checksumMismatch pending.filename pending.blockNumber)]
  else if isTextOrWmo pending.filename then
    [.dataBlock (pending.toSegment (trimTextPadding pending.content))]
  else [.dataBlock (pending.toSegment pending.content)]

def validateAndEmit (decoder : QbtProtocolDecoder) : Handled :=
  match decoder.pending with
  | none => { decoder, result := .error .invalidFrameType }
  | some pending =>
      { decoder := { decoder with pending := none, state := .startFrame }
        out := pending.warnings.map .warning ++ emitSegment pending
        result := .ok true }

def processBuffer (externals : Externals) (decoder : QbtProtocolDecoder) : Handled :=
  match decoder.state with
  | .resync => plain decoder.findSync
  | .startFrame => plain decoder.skipPadding
  | .frameType => plain decoder.detectFrameType
  | .qbtServerList => decoder.processServerList
  | .blockHeader => decoder.processBlockHeader externals
  | .blockBody => decoder.processBlockBody externals
  | .validate => decoder.validateAndEmit
where
  plain (moved : QbtProtocolDecoder × Bool) : Handled :=
    { decoder := moved.1, result := .ok moved.2 }

-----------------------------------------------------------------------------------------
-- Recovery and the feed loop
-----------------------------------------------------------------------------------------

/-- The loop body's reading of a handler result: an error becomes a warning, drops the
pending segment and returns to the sync search.
-/
def recover (handled : Handled) : Pass QbtProtocolDecoder QbtFrameEvent :=
  match handled.result with
  | .ok progressed =>
      { events := handled.out, state := handled.decoder, progressed }
  | .error error =>
      let events := handled.out ++ [.warning (.decoderRecovered error.toText)]
      let decoder : QbtProtocolDecoder :=
        { handled.decoder with pending := none, state := .resync }
      if error = .invalidFrameType ∧ decoder.buffer ≠ [] then
        { events, state := { decoder with buffer := decoder.buffer.drop 1 }, progressed := true }
      else { events, state := decoder, progressed := !decoder.buffer.isEmpty }

/-- Distance of a state from the sync search, for the loop's size. -/
def stateRank : DecoderState → Nat
  | .resync => 0
  | .blockHeader => 1
  | .qbtServerList => 1
  | .frameType => 2
  | .startFrame => 3
  | .validate => 4
  | .blockBody => 5

def loopSize (decoder : QbtProtocolDecoder) : Nat :=
  8 * decoder.buffer.length + stateRank decoder.state

/-- One pass of the feed loop. -/
def step (externals : Externals) (decoder : QbtProtocolDecoder)
    : Pass QbtProtocolDecoder QbtFrameEvent :=
  recover (decoder.processBuffer externals)

-----------------------------------------------------------------------------------------
-- The moves of the decoder
-----------------------------------------------------------------------------------------

/-- Everything one pass can do, with the condition under which it does it.
The decoder is written out as configuration, buffer, state and pending segment.
-/
inductive Move (externals : Externals)
    : QbtProtocolDecoder → Pass QbtProtocolDecoder QbtFrameEvent → Prop
  | syncFound {config buffer pending idx}
    (found : windowPosition syncBytes buffer = some idx)
    : Move externals ⟨config, buffer, .resync, pending⟩
        ⟨[], ⟨config, buffer.drop (idx + 6), .startFrame, pending⟩, true⟩
  | syncMissing {config buffer pending}
    (missing : windowPosition syncBytes buffer = none)
    : Move externals ⟨config, buffer, .resync, pending⟩
        ⟨[], ⟨config, buffer.drop (buffer.length - 5), .resync, pending⟩, false⟩
  | paddingSkipped {config buffer pending first rest}
    (skipped : buffer.dropWhile (· == 0) = first :: rest)
    : Move externals ⟨config, buffer, .startFrame, pending⟩
        ⟨[], ⟨config, first :: rest, .frameType, pending⟩, true⟩
  | paddingOnly {config buffer pending}
    (zeros : buffer.dropWhile (· == 0) = [])
    : Move externals ⟨config, buffer, .startFrame, pending⟩
        ⟨[], ⟨config, [], .startFrame, pending⟩, decide (0 < buffer.length)⟩
  | typeWaits {config buffer pending}
    (short : buffer.length < 3) (slash : ∀ first ∈ buffer.head?, first = 0x2F)
    : Move externals ⟨config, buffer, .frameType, pending⟩
        ⟨[], ⟨config, buffer, .frameType, pending⟩, false⟩
  | typeUnknown {config first rest pending}
    (unknown
      : first ≠ 0x2F
        ∨ (2 ≤ rest.length ∧ ¬ pfBytes <+: first :: rest ∧ ¬ seBytes <+: first :: rest))
    : Move externals ⟨config, first :: rest, .frameType, pending⟩
        ⟨[], ⟨config, rest, .resync, pending⟩, true⟩
  | typeBlock {config buffer pending} (marked : pfBytes <+: buffer)
    : Move externals ⟨config, buffer, .frameType, pending⟩
        ⟨[], ⟨config, buffer, .blockHeader, pending⟩, true⟩
  | typeServerList {config buffer pending} (marked : seBytes <+: buffer)
    : Move externals ⟨config, buffer, .frameType, pending⟩
        ⟨[], ⟨config, buffer, .qbtServerList, pending⟩, true⟩
  | listWaits {config buffer pending} (unterminated : 0 ∉ buffer)
    : Move externals ⟨config, buffer, .qbtServerList, pending⟩
        ⟨[], ⟨config, buffer, .qbtServerList, pending⟩, false⟩
  | listRead {config frame rest pending list warnings} (body : 0 ∉ frame)
    (decoded : decodeServerList frame = .ok (list, warnings))
    : Move externals ⟨config, frame ++ 0 :: rest, .qbtServerList, pending⟩
        ⟨.serverListUpdate list :: warnings.map .warning,
          ⟨config, rest, .startFrame, pending⟩, true⟩
  | listRefused {config frame rest pending error} (body : 0 ∉ frame)
    (refused : decodeServerList frame = .error error)
    : Move externals ⟨config, frame ++ 0 :: rest, .qbtServerList, pending⟩
        ⟨[.warning (.decoderRecovered error.toText)], ⟨config, rest, .resync, none⟩,
          !rest.isEmpty⟩
  | headerWaits {config buffer pending} (short : buffer.length < headerSize)
    : Move externals ⟨config, buffer, .blockHeader, pending⟩
        ⟨[], ⟨config, buffer, .blockHeader, pending⟩, false⟩
  | headerRead {config header rest pending next} (size : header.length = headerSize)
    (parsed : parseHeader externals header config.maxV2BodySize = .ok next)
    : Move externals ⟨config, header ++ rest, .blockHeader, pending⟩
        ⟨[], ⟨config, rest, .blockBody, some next⟩, true⟩
  | headerRefused {config header rest pending error} (size : header.length = headerSize)
    (refused : parseHeader externals header config.maxV2BodySize = .error error)
    : Move externals ⟨config, header ++ rest, .blockHeader, pending⟩
        ⟨[.warning (.decoderRecovered error.toText)], ⟨config, rest, .resync, none⟩,
          !rest.isEmpty⟩
  | bodyWaits {config buffer pending} (short : buffer.length < pending.length)
    : Move externals ⟨config, buffer, .blockBody, some pending⟩
        ⟨[], ⟨config, buffer, .blockBody, some pending⟩, false⟩
  | bodyRead {config body rest pending} (size : body.length = pending.length)
    : Move externals ⟨config, body ++ rest, .blockBody, some pending⟩
        ⟨[], ⟨config, rest, .validate,
            some (storeBody externals config.compressionPolicy pending body)⟩, true⟩
  | emitted {config buffer pending}
    : Move externals ⟨config, buffer, .validate, some pending⟩
        ⟨pending.warnings.map .warning ++ emitSegment pending,
          ⟨config, buffer, .startFrame, none⟩, true⟩
  | bodyMissing {config buffer state} (late : state = .blockBody ∨ state = .validate)
    : Move externals ⟨config, buffer, state, none⟩
        ⟨[.warning (.decoderRecovered QbtProtocolError.invalidFrameType.toText)],
          ⟨config, buffer.drop 1, .resync, none⟩, !buffer.isEmpty⟩

/-- The server-list parser and the header parser never report an invalid frame type, so
recovery drops no byte after them.
-/
theorem decodeServerList_ne_invalidFrameType (frame : Bytes)
    : decodeServerList frame ≠ .error .invalidFrameType := by
  refine exceptBind_ne_error ?_ fun content refused => ?_
  · cases decoded : fromUtf8 frame <;> simp [Except.mapError]
  · exact absurd (parseServerListFrame_error refused) (by simp)

theorem seBytes_prefix_serverListPrefix : seBytes <+: toUtf8 serverListPrefix := by decide

theorem findIdx?_zero {frame rest : Bytes} (body : 0 ∉ frame)
    : (frame ++ 0 :: rest).findIdx? (· == 0) = some frame.length := by
  induction frame with
  | nil => simp [List.findIdx?_cons]
  | cons byte frame ih =>
      simp only [List.mem_cons, not_or] at body
      simp [List.findIdx?_cons, Ne.symm body.1, ih body.2]

theorem findIdx?_unterminated {buffer : Bytes} (unterminated : 0 ∉ buffer)
    : buffer.findIdx? (· == 0) = none := by
  rw [List.findIdx?_eq_none_iff]
  intro byte member
  have nonzero : byte ≠ 0 := fun zero => unterminated (zero ▸ member)
  simpa using nonzero

/-- A move is the pass that the code takes, by evaluating the handler of its state. -/
theorem Move.step_eq {externals : Externals} {decoder : QbtProtocolDecoder}
    {pass : Pass QbtProtocolDecoder QbtFrameEvent} (move : Move externals decoder pass)
    : decoder.step externals = pass := by
  cases move with
  | @syncFound config buffer pending idx found =>
      have long := (windowPosition_split found).2
      simp only [syncBytes, List.length_cons, List.length_nil] at long found
      have enough : ¬ buffer.length < 6 := by omega
      simp [step, processBuffer, processBuffer.plain, findSync, recover, syncBytes, enough,
        found]
  | @syncMissing config buffer pending missing =>
      simp only [syncBytes] at missing
      by_cases short : buffer.length < 6
      · have none : buffer.length - 5 = 0 := by omega
        simp [step, processBuffer, processBuffer.plain, findSync, recover, syncBytes, short,
          none]
      · simp [step, processBuffer, processBuffer.plain, findSync, recover, syncBytes, short,
          missing]
  | @paddingSkipped config buffer pending first rest skipped =>
      simp [step, processBuffer, processBuffer.plain, skipPadding, recover, skipped]
  | @paddingOnly config buffer pending zeros =>
      simp [step, processBuffer, processBuffer.plain, skipPadding, recover, zeros]
  | @typeWaits config buffer pending short slash =>
      cases buffer with
      | nil => simp [step, processBuffer, processBuffer.plain, detectFrameType, recover]
      | cons first rest =>
          have slash : first = 0x2F := slash first rfl
          simp only [List.length_cons] at short
          simp [step, processBuffer, processBuffer.plain, detectFrameType, recover, slash,
            short]
  | @typeUnknown config first rest pending unknown =>
      by_cases slash : first = 0x2F
      · obtain ⟨long, notPf, notSe⟩ := unknown.resolve_left (by simp [slash])
        have notList : ¬ toUtf8 serverListPrefix <+: first :: rest :=
          fun marked => notSe (seBytes_prefix_serverListPrefix.trans marked)
        have enough : ¬ rest.length + 1 < 3 := by omega
        subst slash
        simp [step, processBuffer, processBuffer.plain, detectFrameType, recover, notPf, notSe,
          notList, enough]
      · simp [step, processBuffer, processBuffer.plain, detectFrameType, recover, slash]
  | @typeBlock config buffer pending marked =>
      obtain ⟨rest, rfl⟩ := marked
      have enough : ¬ rest.length + 1 + 1 + 1 < 3 := by omega
      simp [step, processBuffer, processBuffer.plain, detectFrameType, recover, pfBytes, enough]
  | @typeServerList config buffer pending marked =>
      obtain ⟨rest, rfl⟩ := marked
      have enough : ¬ rest.length + 1 + 1 + 1 < 3 := by omega
      simp [step, processBuffer, processBuffer.plain, detectFrameType, recover, pfBytes,
        seBytes, enough]
  | @listWaits config buffer pending unterminated =>
      simp [step, processBuffer, processServerList, recover, findIdx?_unterminated unterminated]
  | @listRead config frame rest pending list warnings body decoded =>
      simp [step, processBuffer, processServerList, recover, findIdx?_zero body, decoded]
  | @listRefused config frame rest pending error body refused =>
      have other : error ≠ .invalidFrameType :=
        fun same => decodeServerList_ne_invalidFrameType frame (same ▸ refused)
      simp [step, processBuffer, processServerList, recover, findIdx?_zero body, refused, other]
  | @headerWaits config buffer pending short =>
      simp [step, processBuffer, processBlockHeader, recover, short]
  | @headerRead config header rest pending next size parsed =>
      have enough : ¬ header.length + rest.length < header.length := by omega
      simp [step, processBuffer, processBlockHeader, recover, enough, ← size, parsed]
  | @headerRefused config header rest pending error size refused =>
      have other : error ≠ .invalidFrameType :=
        fun same => parseHeader_ne_invalidFrameType _ _ _ (same ▸ refused)
      have enough : ¬ header.length + rest.length < header.length := by omega
      simp [step, processBuffer, processBlockHeader, recover, enough, ← size, refused, other]
  | @bodyWaits config buffer pending short =>
      simp [step, processBuffer, processBlockBody, recover, short]
  | @bodyRead config body rest pending size =>
      have enough : ¬ body.length + rest.length < body.length := by omega
      simp [step, processBuffer, processBlockBody, recover, enough, ← size]
  | emitted => simp [step, processBuffer, validateAndEmit, recover]
  | @bodyMissing config buffer state late =>
      rcases late with rfl | rfl <;> cases buffer <;>
        simp [step, processBuffer, processBlockBody, validateAndEmit, recover]

/-- Every pass is a move, so the moves are complete; by cases on the state and on what the
handler finds in the buffer.
-/
theorem move_step (externals : Externals) (decoder : QbtProtocolDecoder)
    : Move externals decoder (decoder.step externals) := by
  suffices ∃ pass, Move externals decoder pass by
    obtain ⟨pass, move⟩ := this
    rwa [move.step_eq]
  obtain ⟨config, buffer, state, pending⟩ := decoder
  cases state with
  | resync =>
      cases found : windowPosition syncBytes buffer with
      | none => exact ⟨_, .syncMissing found⟩
      | some idx => exact ⟨_, .syncFound found⟩
  | startFrame =>
      cases skipped : buffer.dropWhile (· == 0) with
      | nil => exact ⟨_, .paddingOnly skipped⟩
      | cons first rest => exact ⟨_, .paddingSkipped skipped⟩
  | frameType =>
      by_cases waits : buffer.length < 3 ∧ ∀ first ∈ buffer.head?, first = 0x2F
      · exact ⟨_, .typeWaits waits.1 waits.2⟩
      by_cases block : pfBytes <+: buffer
      · exact ⟨_, .typeBlock block⟩
      by_cases list : seBytes <+: buffer
      · exact ⟨_, .typeServerList list⟩
      cases buffer with
      | nil => simp at waits
      | cons first rest =>
          refine ⟨_, .typeUnknown ?_⟩
          by_cases slash : first = 0x2F
          · have long : ¬ rest.length + 1 < 3 := by simpa [slash] using waits
            exact Or.inr ⟨by omega, block, list⟩
          · exact Or.inl slash
  | qbtServerList =>
      by_cases terminated : 0 ∈ buffer
      · obtain ⟨frame, rest, rfl, body⟩ := List.eq_append_cons_of_mem terminated
        cases decoded : decodeServerList frame with
        | ok read => exact ⟨_, .listRead body decoded⟩
        | error error => exact ⟨_, .listRefused body decoded⟩
      · exact ⟨_, .listWaits terminated⟩
  | blockHeader =>
      by_cases short : buffer.length < headerSize
      · exact ⟨_, .headerWaits short⟩
      have size : (buffer.take headerSize).length = headerSize := by simp; omega
      rw [← List.take_append_drop headerSize buffer]
      cases parsed : parseHeader externals (buffer.take headerSize) config.maxV2BodySize with
      | ok next => exact ⟨_, .headerRead size parsed⟩
      | error error => exact ⟨_, .headerRefused size parsed⟩
  | blockBody =>
      cases pending with
      | none => exact ⟨_, .bodyMissing (.inl rfl)⟩
      | some pending =>
          by_cases short : buffer.length < pending.length
          · exact ⟨_, .bodyWaits short⟩
          have size : (buffer.take pending.length).length = pending.length := by simp; omega
          rw [← List.take_append_drop pending.length buffer]
          exact ⟨_, .bodyRead size⟩
  | validate =>
      cases pending with
      | none => exact ⟨_, .bodyMissing (.inr rfl)⟩
      | some pending => exact ⟨_, .emitted⟩

/-- Every pass that continues shrinks the buffer or moves on to a later state. -/
theorem step_shrinks (externals : Externals) (decoder : QbtProtocolDecoder)
    (progressed : (decoder.step externals).progressed = true)
    : (decoder.step externals).state.loopSize < decoder.loopSize := by
  have move := move_step externals decoder
  generalize decoder.step externals = pass at move progressed
  cases move with
  | syncFound found =>
      have bound := (windowPosition_split found).2
      simp only [syncBytes, List.length_cons, List.length_nil] at bound
      simp only [loopSize, stateRank, List.length_drop]
      omega
  | @paddingSkipped config buffer pending first rest skipped =>
      have shorter := (List.dropWhile_suffix (l := buffer) (· == 0)).length_le
      rw [skipped] at shorter
      simp only [loopSize, stateRank]
      omega
  | paddingOnly zeros =>
      simp only [decide_eq_true_eq] at progressed
      simp only [loopSize, stateRank, List.length_nil]
      omega
  | headerRead size parsed =>
      simp only [headerSize] at size
      simp only [loopSize, stateRank, List.length_append, size]
      omega
  | @bodyMissing config buffer state late =>
      rcases late with rfl | rfl <;> simp only [loopSize, stateRank, List.length_drop] <;> omega
  | syncMissing | typeWaits | listWaits | headerWaits | bodyWaits => simp at progressed
  | typeUnknown | typeBlock | typeServerList | listRead | listRefused | headerRefused | bodyRead
  | emitted =>
      simp only [loopSize, stateRank, List.length_append, List.length_cons]
      omega

/-- The `loop` of `feed`. -/
def feedLoop (externals : Externals) : DrainLoop QbtProtocolDecoder QbtFrameEvent where
  step := step externals
  size := loopSize
  shrinks := step_shrinks externals

/-- Append decoded bytes to the buffer. -/
def extend (decoder : QbtProtocolDecoder) (decoded : Bytes) : QbtProtocolDecoder :=
  { decoder with buffer := decoder.buffer ++ decoded }

/-- Feed one chunk of wire bytes: the events and the decoder after it. Recovery keeps every
error inside, so feeding always succeeds.
-/
def feed (externals : Externals) (decoder : QbtProtocolDecoder) (chunk : Bytes)
    : List QbtFrameEvent × QbtProtocolDecoder :=
  (feedLoop externals).feed extend decoder (xorFf chunk)

end QbtProtocolDecoder

end Emwin.Qbt
