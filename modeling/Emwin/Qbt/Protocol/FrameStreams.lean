import Emwin.Qbt.Protocol.Chunking
import Emwin.Qbt.Protocol.Frames

/-! Well-formed streams of frames and the events that the decoder makes of them. -/

namespace Emwin.Qbt
open Library QbtProtocolDecoder

/-- A data-block frame on the wire, with the fields its header carries and the payload its
body stands for. A frame with a `/DL` field is a V2 frame.
-/
structure DataFrame where
  header : Bytes
  body : Bytes
  filename : Text
  blockNumber : UInt32
  totalBlocks : UInt32
  checksum : UInt32
  fd : Text
  timestampUtc : SystemTime
  dl : Option UInt32
  payload : Bytes

namespace DataFrame

def version (frame : DataFrame) : QbtProtocolVersion :=
  match frame.dl with
  | none => .v1
  | some _ => .v2

/-- The segment that the frame is delivered as. -/
def segment (frame : DataFrame) : QbtSegment where
  filename := frame.filename
  blockNumber := frame.blockNumber
  totalBlocks := frame.totalBlocks
  content := deliveredContent frame.filename frame.payload
  checksum := frame.checksum
  length := frame.body.length
  version := frame.version
  timestampUtc := frame.timestampUtc

/-- The header grammar reads the frame's fields from its header. -/
structure Captured (frame : DataFrame) (captures : List (String × Text)) : Prop where
  matched : HeaderCaptures frame.header captures
  filename : captureNamed "pf" captures = some frame.filename
  blockNumber : captureU32 captures "pn" "/PN".toList = .ok frame.blockNumber
  totalBlocks : captureU32 captures "pt" "/PT".toList = .ok frame.totalBlocks
  checksum : captureU32 captures "cs" "/CS".toList = .ok frame.checksum
  fd : captureNamed "fd" captures = some frame.fd
  dl : captureOptionalU32 captures "dl" = .ok frame.dl

/-- A frame whose header, numbers, body and checksum are in order. -/
structure Framed (externals : Externals) (config : QbtDecodeConfig) (frame : DataFrame)
    : Prop where
  headerLength : frame.header.length = headerSize
  captured : ∃ captures, frame.Captured captures
  dated : parseFdTimestamp externals frame.fd = some frame.timestampUtc
  numbered
    : 1 ≤ frame.blockNumber.toNat ∧ frame.blockNumber.toNat ≤ frame.totalBlocks.toNat
  bodyLength
    : match frame.dl with
      | none => frame.body.length = v1BodySize
      | some dl =>
          frame.body.length = dl.toNat ∧ 1 ≤ dl.toNat ∧ dl.toNat ≤ config.maxV2BodySize
  payload
    : payload? externals config.compressionPolicy frame.version frame.body
      = some frame.payload
  verified : byteSum frame.payload ≡ frame.checksum.toNat [MOD 65536]

/-- A frame that is to be delivered. -/
structure WellFormed (externals : Externals) (config : QbtDecodeConfig) (frame : DataFrame)
    : Prop extends Framed externals config frame where
  notFill : isFillFile frame.filename = false

variable {externals : Externals} {config : QbtDecodeConfig} {frame : DataFrame}

/-- What the header parser makes of a well-formed frame. -/
def pending (frame : DataFrame) : PendingSegment where
  filename := frame.filename
  blockNumber := frame.blockNumber
  totalBlocks := frame.totalBlocks
  checksum := frame.checksum
  length := frame.body.length
  version := frame.version
  content := []
  timestampUtc := frame.timestampUtc
  warnings := []
  decompressionFailed := false

theorem Framed.parsed (framed : frame.Framed externals config)
    : parseHeader externals frame.header config.maxV2BodySize = .ok frame.pending := by
  obtain ⟨captures, captured⟩ := framed.captured
  have layout : bodyLayout frame.dl config.maxV2BodySize
      = .ok (frame.pending.version, frame.pending.length) := by
    have bodyLength := framed.bodyLength
    simp only [pending, version]
    cases dl : frame.dl with
    | none =>
        simp only [dl] at bodyLength
        simp [bodyLayout, bodyLength]
    | some value =>
        simp only [dl] at bodyLength
        obtain ⟨length, positive, bounded⟩ := bodyLength
        have admissible : ¬ (value.toNat = 0 ∨ value.toNat > config.maxV2BodySize) := by omega
        simp [bodyLayout, length, admissible]
  have time : headerTimestamp externals frame.fd
      = (frame.pending.timestampUtc, frame.pending.warnings) := by
    simp [headerTimestamp, framed.dated, pending]
  exact parseHeader_ok_iff.mpr ⟨captures, frame.fd, frame.dl, captured.matched,
    captured.filename, captured.blockNumber, captured.totalBlocks, captured.checksum,
    captured.fd, captured.dl, layout, time, rfl, rfl⟩

theorem WellFormed.blockFrame (wellFormed : frame.WellFormed externals config)
    : BlockFrame externals config frame.header frame.body frame.segment where
  headerLength := wellFormed.headerLength
  parsed := ⟨frame.pending, wellFormed.parsed, rfl⟩
  bodyLength := rfl
  layout := parseHeader_layout wellFormed.parsed
  numbered := wellFormed.numbered
  notFill := wellFormed.notFill
  verified := ⟨frame.payload, wellFormed.payload, wellFormed.verified, rfl⟩

end DataFrame

/-- One frame of a stream: its run of sync zeros, then a data block, or the text of a server
list up to its terminating zero.
-/
inductive StreamFrame where
  | data (zeros : Nat) (frame : DataFrame)
  | serverList (zeros : Nat) (content : Text) (encoded : Bytes)

namespace StreamFrame

def bytes : StreamFrame → Bytes
  | data zeros frame => List.replicate zeros 0 ++ (frame.header ++ frame.body)
  | serverList zeros _ encoded => List.replicate zeros 0 ++ (encoded ++ [0])

/-- Events that a server list is delivered as: the list and then its entry warnings. -/
def serverListEvents (content : Text) : List QbtFrameEvent :=
  match parseServerListFrame content with
  | .ok (list, warnings) => .serverListUpdate list :: warnings.map .warning
  | .error _ => []

def events : StreamFrame → List QbtFrameEvent
  | data _ frame => [.dataBlock frame.segment]
  | serverList _ content _ => serverListEvents content

inductive WellFormed (externals : Externals) (config : QbtDecodeConfig)
    : StreamFrame → Prop
  | data {zeros frame} (sync : 6 ≤ zeros) (wellFormed : frame.WellFormed externals config)
    : WellFormed externals config (.data zeros frame)
  | serverList {zeros content encoded} (sync : 6 ≤ zeros)
    (utf8 : fromUtf8 encoded = .ok content) (marked : serverListPrefix <+: content)
    (body : 0 ∉ encoded)
    : WellFormed externals config (.serverList zeros content encoded)

end StreamFrame

variable {externals : Externals} {config : QbtDecodeConfig}

theorem dropWhile_slash {buffer : Bytes} {marker : Bytes} (nonzero : marker.head? = some 0x2F)
    (marked : marker <+: buffer)
    : ∃ rest, buffer = 0x2F :: rest ∧ buffer.dropWhile (· == 0) = 0x2F :: rest := by
  obtain ⟨tail, rfl⟩ := marked
  cases marker with
  | nil => simp at nonzero
  | cons first marker =>
      obtain rfl := Option.some.inj nonzero
      exact ⟨marker ++ tail, rfl, rfl⟩

/-- At the start of a frame, a `/PF` marker leads to the block header. -/
theorem run_startFrame_block {buffer : Bytes} (marked : pfBytes <+: buffer)
    : run externals ⟨config, buffer, .startFrame, none⟩
      = run externals ⟨config, buffer, .blockHeader, none⟩ := by
  obtain ⟨rest, same, skipped⟩ := dropWhile_slash rfl marked
  rw [run_startFrame_frame skipped, ← same]
  exact (Move.typeBlock marked).run_eq

theorem run_startFrame_list {buffer : Bytes} (marked : seBytes <+: buffer)
    : run externals ⟨config, buffer, .startFrame, none⟩
      = run externals ⟨config, buffer, .qbtServerList, none⟩ := by
  obtain ⟨rest, same, skipped⟩ := dropWhile_slash rfl marked
  rw [run_startFrame_frame skipped, ← same]
  exact (Move.typeServerList marked).run_eq

/-- A data frame is consumed whole, whatever its body holds and whatever follows it. -/
theorem DataFrame.Framed.run_frame {frame : DataFrame}
    (framed : frame.Framed externals config) (rest : Bytes)
    : run externals ⟨config, frame.header ++ frame.body ++ rest, .startFrame, none⟩
      = prepend (emitSegment { frame.pending with content := frame.payload })
          (run externals ⟨config, rest, .startFrame, none⟩) := by
  obtain ⟨captures, captured⟩ := framed.captured
  have marked : pfBytes <+: frame.header ++ frame.body ++ rest := by
    rw [List.append_assoc]
    exact captured.matched.startsWithPf.trans (List.prefix_append _ _)
  rw [run_startFrame_block marked, List.append_assoc,
    (Move.headerRead framed.headerLength framed.parsed).run_eq, (Move.bodyRead rfl).run_eq,
    @storeBody_payload _ _ frame.pending _ _ framed.payload, Move.emitted.run_eq]
  rfl

/-- A well-formed frame emits exactly its segment. -/
theorem DataFrame.WellFormed.run_frame {frame : DataFrame}
    (wellFormed : frame.WellFormed externals config) (rest : Bytes)
    : run externals ⟨config, frame.header ++ frame.body ++ rest, .startFrame, none⟩
      = prepend [.dataBlock frame.segment]
          (run externals ⟨config, rest, .startFrame, none⟩) := by
  have emitted := (wellFormed.blockFrame.emits wellFormed.parsed).2
  rw [@storeBody_payload _ _ frame.pending _ _ wellFormed.payload] at emitted
  rw [wellFormed.toFramed.run_frame, emitted]

/-- A fill file leaves no trace. -/
theorem DataFrame.Framed.run_fill {frame : DataFrame}
    (framed : frame.Framed externals config) (fill : isFillFile frame.filename = true)
    (rest : Bytes)
    : run externals ⟨config, frame.header ++ frame.body ++ rest, .startFrame, none⟩
      = run externals ⟨config, rest, .startFrame, none⟩ := by
  rw [framed.run_frame, emitSegment_fill fill, prepend_nil]

theorem run_serverList_frame {content : Text} {encoded : Bytes}
    (utf8 : fromUtf8 encoded = .ok content) (marked : serverListPrefix <+: content)
    (body : 0 ∉ encoded) (rest : Bytes)
    : run externals ⟨config, encoded ++ [0] ++ rest, .startFrame, none⟩
      = prepend (StreamFrame.serverListEvents content)
          (run externals ⟨config, rest, .startFrame, none⟩) := by
  obtain ⟨list, warnings, parsed⟩ := parseServerListFrame_ok marked
  have decoded : decodeServerList encoded = .ok (list, warnings) := by
    simp [decodeServerList, utf8, Except.mapError, bind, Except.bind, parsed]
  have front : seBytes <+: encoded := by
    obtain ⟨tail, rfl⟩ := marked
    exact seBytes_prefix_serverListPrefix.trans (fromUtf8_prefix_ascii utf8 (by decide))
  rw [List.append_assoc, run_startFrame_list (front.trans (List.prefix_append _ _)),
    List.singleton_append, (Move.listRead body decoded).run_eq,
    StreamFrame.serverListEvents, parsed]

/-- One frame of a stream, from the start of its sync zeros. -/
theorem StreamFrame.WellFormed.run_frame {frame : StreamFrame}
    (wellFormed : frame.WellFormed externals config) (rest : Bytes)
    : run externals ⟨config, frame.bytes ++ rest, .startFrame, none⟩
      = prepend frame.events (run externals ⟨config, rest, .startFrame, none⟩) := by
  cases wellFormed with
  | data sync wellFormed =>
      rw [bytes, List.append_assoc, run_startFrame_zeros _ (by simp), wellFormed.run_frame]
      rfl
  | serverList sync utf8 marked body =>
      rw [bytes, List.append_assoc, run_startFrame_zeros _ (by simp),
        run_serverList_frame utf8 marked body]
      rfl

/-- Frame after frame the decoder is back at the start of a frame, by induction on the
frames.
-/
theorem run_frames {frames : List StreamFrame}
    (wellFormed : ∀ frame ∈ frames, frame.WellFormed externals config)
    : run externals ⟨config, frames.flatMap StreamFrame.bytes, .startFrame, none⟩
      = (frames.flatMap StreamFrame.events, ⟨config, [], .startFrame, none⟩) := by
  induction frames with
  | nil => exact run_startFrame_padding rfl
  | cons frame frames ih =>
      have head := wellFormed frame (List.mem_cons_self ..)
      have tail := ih fun later member => wellFormed later (List.mem_cons_of_mem _ member)
      rw [List.flatMap_cons, head.run_frame, tail]
      simp [prepend]

theorem StreamFrame.WellFormed.starts_with_sync {frame : StreamFrame}
    (wellFormed : frame.WellFormed externals config)
    : ∃ zeros rest, 6 ≤ zeros ∧ frame.bytes = List.replicate zeros 0 ++ rest := by
  cases wellFormed with
  | data sync _ => exact ⟨_, _, sync, rfl⟩
  | serverList sync _ _ _ => exact ⟨_, _, sync, rfl⟩

/-- The sync search skips garbage without a marker and stops inside the first run of zeros.
Witness: the first marker starts no later than the zeros and ends after the garbage.
-/
theorem run_garbage {garbage : Bytes} (unmarked : ¬ syncBytes <:+: garbage) {zeros : Nat}
    (sync : 6 ≤ zeros) (rest : Bytes)
    : run externals ⟨config, garbage ++ (List.replicate zeros 0 ++ rest), .resync, none⟩
      = run externals ⟨config, List.replicate zeros 0 ++ rest, .startFrame, none⟩ := by
  have six : List.replicate zeros (0 : UInt8) ++ rest
      = syncBytes ++ (List.replicate (zeros - 6) 0 ++ rest) := by
    rw [show syncBytes = List.replicate 6 0 from rfl, ← List.append_assoc,
      ← List.replicate_add, Nat.add_sub_cancel' sync]
  obtain ⟨idx, found, early⟩ :=
    windowPosition_le syncBytes garbage (List.replicate (zeros - 6) 0 ++ rest)
  rw [← six] at found
  have late : garbage.length < idx + 6 := by
    by_contra inside
    exact unmarked (infix_of_windowPosition found (by simpa [syncBytes] using inside))
  have skipped : (garbage ++ (List.replicate zeros 0 ++ rest)).drop (idx + 6)
      = List.replicate (zeros - (idx + 6 - garbage.length)) 0 ++ rest := by
    rw [List.drop_append, List.drop_eq_nil_of_le late.le, List.nil_append,
      List.drop_append_of_le_length (by rw [List.length_replicate]; omega),
      List.drop_replicate]
  rw [run_resync_found found, skipped, run_startFrame_zeros _ (by simp),
    run_startFrame_zeros _ (by simp)]

/-- Completeness on well-formed streams: garbage without a sync marker, followed by frames,
decodes to exactly the events of the frames, in order and in any chunks.
-/
theorem feedAll_frames (externals : Externals) (config : QbtDecodeConfig) (garbage : Bytes)
    (frames : List StreamFrame) (chunks : List Bytes)
    (unmarked : ¬ syncBytes <:+: garbage)
    (wellFormed : ∀ frame ∈ frames, frame.WellFormed externals config)
    (wire : xorFf chunks.flatten = garbage ++ frames.flatMap StreamFrame.bytes)
    : (feedAll externals (.new config) chunks).1 = frames.flatMap StreamFrame.events := by
  have fed : feedAll externals (.new config) chunks
      = run externals ⟨config, garbage ++ frames.flatMap StreamFrame.bytes, .resync, none⟩ := by
    rw [(@Reachable.new externals config).atRest.feedAll_eq, feed, wire]
    rfl
  rw [fed]
  cases frames with
  | nil =>
      rw [List.flatMap_nil, List.append_nil,
        run_resync_missing (windowPosition_eq_none_iff.mpr unmarked)]
      rfl
  | cons frame frames =>
      obtain ⟨zeros, rest, sync, same⟩ :=
        (wellFormed frame (List.mem_cons_self ..)).starts_with_sync
      have decoded := run_frames wellFormed
      rw [List.flatMap_cons, same, List.append_assoc] at decoded ⊢
      rw [run_garbage unmarked sync, decoded]

/-- The frame of the sample header. -/
def sampleDataFrame : DataFrame where
  header := sampleHeader
  body := toUtf8 "HELLO".toList
  filename := "HELLO.TXT".toList
  blockNumber := 1
  totalBlocks := 1
  checksum := 372
  fd := "01/01/2024 01:00:00 AM".toList
  timestampUtc := 1704070800000000000
  dl := some 5
  payload := toUtf8 "HELLO".toList

theorem sampleDataFrame_wellFormed : sampleDataFrame.WellFormed sampleExternals {} where
  headerLength := by decide +kernel
  captured :=
    ⟨[("pf", "HELLO.TXT".toList), ("pn", ['1']), ("pt", ['1']), ("cs", "372".toList),
        ("fd", "01/01/2024 01:00:00 AM".toList), ("dl", ['5'])],
      {
        matched := ⟨
          "/PFHELLO.TXT /PN 1 /PT 1 /CS 372 /FD01/01/2024 01:00:00 AM /DL5 \r\n".toList
            ++ List.replicate 14 ' ',
          by decide +kernel, by decide +kernel
        ⟩
        filename := by decide +kernel
        blockNumber := by decide +kernel
        totalBlocks := by decide +kernel
        checksum := by decide +kernel
        fd := by decide +kernel
        dl := by decide +kernel
      }⟩
  dated := by decide +kernel
  numbered := by decide
  notFill := by decide +kernel
  bodyLength := ⟨by decide, by decide, by decide⟩
  payload := by decide +kernel
  verified := by decide

/-- Garbage, a data frame and a server list with a bad entry, cut inside the data frame. -/
theorem feedAll_frames_sample
    : (feedAll sampleExternals (.new {})
        [xorFf (toUtf8 "noise".toList ++ List.replicate 7 0 ++ sampleHeader ++ [0x48]),
          xorFf (toUtf8 "ELLO".toList ++ List.replicate 6 0
            ++ (toUtf8 "/ServerList/a:1|b".toList ++ [0]))]).1
      = [.dataBlock sampleSegment,
          .serverListUpdate { servers := [("a".toList, 1)] },
          .warning (.malformedServerEntry "b".toList)] := by
  rw [feedAll_frames sampleExternals {} (toUtf8 "noise".toList)
    [.data 7 sampleDataFrame,
      .serverList 6 "/ServerList/a:1|b".toList (toUtf8 "/ServerList/a:1|b".toList)]]
  · decide +kernel
  · decide +kernel
  · intro frame member
    rcases List.mem_cons.mp member with rfl | member
    · exact .data (by decide) sampleDataFrame_wellFormed
    · obtain rfl := List.mem_singleton.mp member
      exact .serverList (by decide) (by decide +kernel) (by decide) (by decide +kernel)
  · decide +kernel

/-- The zlib stream of the empty string, padded to a V1 body. -/
def zlibBody : Bytes :=
  [0x78, 0x9C, 0x03, 0x00, 0x00, 0x00, 0x00, 0x01] ++ List.replicate 1016 0

def zlibHeader : Bytes :=
  paddedHeader "/PFZLIB.DAT /PN 1 /PT 1 /CS 0 /FD01/01/2024 01:00:00 AM \r\n".toList

def fillHeader : Bytes :=
  paddedHeader
    "/PFfillfile.txt /PN 1 /PT 1 /CS 372 /FD01/01/2024 01:00:00 AM /DL5 \r\n".toList

/-- A zlib header alone does not decide whether a body is inflated, nor letter case whether
a file is a fill file: a V1 body that inflates to its checksum is compared as it is, a plain
V2 body is refused under `tryAlways`, and a fill file in lower case is dropped.
-/
theorem zlib_header_does_not_decide
    : (hasZlibHeader zlibBody = true ∧ zlibBody.length = v1BodySize
        ∧ sampleExternals.inflate zlibBody = .ok [] ∧ byteSum [] ≡ 0 [MOD 65536]
        ∧ parseHeader sampleExternals zlibHeader 1024
          = .ok
              { filename := "ZLIB.DAT".toList, blockNumber := 1, totalBlocks := 1
                checksum := 0, length := 1024, version := .v1, content := []
                timestampUtc := 1704070800000000000, warnings := []
                decompressionFailed := false }
        ∧ (feed sampleExternals (.new {}) (xorFf (syncBytes ++ zlibHeader ++ zlibBody))).1
          = [.warning (.checksumMismatch "ZLIB.DAT".toList 1)])
      ∧ (hasZlibHeader (toUtf8 "HELLO".toList) = false
        ∧ (feed sampleExternals (.new { compressionPolicy := .tryAlways })
            (xorFf sampleStream)).1
          = [.warning
              (.decompressionFailed "HELLO.TXT".toList 1
                "decompression failed: corrupt deflate stream".toList)])
      ∧ ("fillfile.txt".toList ≠ "FILLFILE.TXT".toList
        ∧ (feed sampleExternals (.new {})
            (xorFf (syncBytes ++ fillHeader ++ toUtf8 "HELLO".toList))).1
          = []) := by
  decide +kernel

end Emwin.Qbt
