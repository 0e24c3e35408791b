import Emwin.Library.Blocks
import Emwin.Qbt.File.AssemblerCompleteness
import Emwin.Qbt.Protocol.FrameStreams
import Emwin.Qbt.Protocol.SelfSync

/-! Text products from the wire to the assembled file, and what is lost at block borders. -/

namespace Emwin.Qbt
open Library QbtProtocolDecoder QbtFileAssembler

/-- Number of V1 bodies that a text fills. -/
def blockCount (text : Bytes) : Nat := (text.length + (v1BodySize - 1)) / v1BodySize

/-- A text cut into consecutive blocks of the V1 body size. -/
def textBlocks (text : Bytes) : List Bytes := cutBlocks v1BodySize (blockCount text) text

/-- A block padded with NUL bytes to a whole body. -/
def padBlock (block : Bytes) : Bytes := block ++ List.replicate (v1BodySize - block.length) 0

/-- The frame carries one block of a text product as a V1 frame. -/
structure EncodesBlock (filename fd : Text) (timestampUtc : SystemTime) (total index : Nat)
    (block : Bytes) (frame : DataFrame)
    : Prop where
  headerLength : frame.header.length = headerSize
  captured : ∃ captures, frame.Captured captures
  filename : frame.filename = filename
  number : frame.blockNumber.toNat = index + 1
  total : frame.totalBlocks.toNat = total
  checksum : byteSum (padBlock block) ≡ frame.checksum.toNat [MOD 65536]
  fd : frame.fd = fd
  timestampUtc : frame.timestampUtc = timestampUtc
  v1 : frame.dl = none
  body : frame.body = padBlock block
  payload : frame.payload = padBlock block

/-- The frames carry the blocks of the text, in order. -/
structure EncodesText (filename fd : Text) (timestampUtc : SystemTime) (text : Bytes)
    (frames : List DataFrame)
    : Prop where
  count : frames.length = (textBlocks text).length
  blocks
    : ∀ (index : Nat) (frame : DataFrame) (block : Bytes),
        frames[index]? = some frame
        → (textBlocks text)[index]? = some block
        → EncodesBlock filename fd timestampUtc (textBlocks text).length index block frame

/-- The decoded stream: a sync marker before each frame. -/
def wireStream (frames : List DataFrame) : Bytes :=
  frames.flatMap fun frame => syncBytes ++ (frame.header ++ frame.body)

/-- No block but the last ends in a byte that counts as padding. -/
def SeamsKept (text : Bytes) : Prop :=
  ∀ block ∈ (textBlocks text).dropLast, ∀ byte ∈ block.getLast?, isTextPadding byte = false

instance (text : Bytes) : Decidable (SeamsKept text) :=
  inferInstanceAs
    (Decidable
      (∀ block ∈ (textBlocks text).dropLast,
        ∀ byte ∈ block.getLast?, isTextPadding byte = false))

section Trimming

theorem trimTextPadding_isPrefix (content : Bytes) : trimTextPadding content <+: content := by
  rw [trimTextPadding, ← List.reverse_suffix, List.reverse_reverse]
  exact List.dropWhile_suffix _

/-- Trimming keeps a content exactly if it does not end in padding. -/
theorem trimTextPadding_eq_self_iff (content : Bytes)
    : trimTextPadding content = content
      ↔ ∀ byte ∈ content.getLast?, isTextPadding byte = false := by
  rcases List.eq_nil_or_concat content with rfl | ⟨front, last, rfl⟩
  · simp [trimTextPadding]
  rw [List.concat_eq_append]
  cases padded : isTextPadding last with
  | false => simp [trimTextPadding, padded]
  | true =>
      have shorter := (trimTextPadding_isPrefix front).length_le
      have dropped : trimTextPadding (front ++ [last]) = trimTextPadding front := by
        simp [trimTextPadding, padded]
      refine iff_of_false ?_ (by simp [padded])
      rw [dropped]
      intro same
      rw [same, List.length_append, List.length_singleton] at shorter
      omega

theorem trimTextPadding_padBlock (block : Bytes)
    : trimTextPadding (padBlock block) = trimTextPadding block := by
  simp only [trimTextPadding, padBlock, List.reverse_append, List.reverse_replicate]
  rw [List.dropWhile_append]
  simp [isTextPadding]

end Trimming

section Blocks

variable {text : Bytes}

theorem flatten_textBlocks (text : Bytes) : (textBlocks text).flatten = text := by
  refine flatten_cutBlocks ?_
  simp only [blockCount, v1BodySize]
  omega

theorem length_padBlock {block : Bytes} (member : block ∈ textBlocks text)
    : (padBlock block).length = v1BodySize := by
  have short := length_le_of_mem_cutBlocks member
  simp only [padBlock, List.length_append, List.length_replicate]
  omega

/-- A text that is not empty ends with its last block. -/
theorem textBlocks_last {last : UInt8} (ends : text.getLast? = some last)
    : ∃ inner block, textBlocks text = inner ++ [block] ∧ block.getLast? = some last := by
  have positive : 0 < text.length := by
    rw [List.length_pos_iff]
    rintro rfl
    cases ends
  obtain ⟨count, same⟩ : ∃ count, blockCount text = count + 1 :=
    Nat.exists_eq_succ_of_ne_zero (by simp only [blockCount, v1BodySize]; omega)
  have bounds := same
  simp only [blockCount, v1BodySize] at bounds
  obtain ⟨inner, block, cut, last'⟩ :=
    getLast?_cutBlocks (show v1BodySize * count < text.length by
      simp only [v1BodySize]; omega) (by simp only [v1BodySize]; omega)
  exact ⟨inner, block, by rw [textBlocks, same, cut], last'.trans ends⟩

/-- Trimming every block gives the text back exactly if no inner block ends in padding. -/
theorem flatten_trimmed_iff {last : UInt8} (ends : text.getLast? = some last)
    (unpadded : isTextPadding last = false)
    : ((textBlocks text).map trimTextPadding).flatten = text ↔ SeamsKept text := by
  obtain ⟨inner, block, cut, blockEnds⟩ := textBlocks_last ends
  have whole := flatten_map_eq_iff trimTextPadding_isPrefix (textBlocks text)
  rw [flatten_textBlocks] at whole
  rw [whole, SeamsKept, cut, List.dropLast_concat]
  simp only [trimTextPadding_eq_self_iff, List.forall_mem_append, List.forall_mem_singleton]
  refine and_iff_left ?_
  intro byte final
  rw [blockEnds] at final
  exact Option.some.inj final ▸ unpadded

end Blocks

section Encoding

variable {externals : Externals} {config : QbtDecodeConfig} {filename fd : Text}
  {timestampUtc : SystemTime} {text : Bytes} {frames : List DataFrame}

/-- Every frame of an encoding carries some block of the text. -/
theorem EncodesText.block_of_mem (encodes : EncodesText filename fd timestampUtc text frames)
    {frame : DataFrame} (member : frame ∈ frames)
    : ∃ index block,
        index < (textBlocks text).length ∧ block ∈ textBlocks text
        ∧ EncodesBlock filename fd timestampUtc (textBlocks text).length index block
            frame := by
  obtain ⟨index, inside, same⟩ := List.getElem_of_mem member
  rw [encodes.count] at inside
  refine ⟨index, (textBlocks text)[index], inside, List.getElem_mem inside, ?_⟩
  exact encodes.blocks index frame _ (List.getElem?_eq_some_iff.mpr ⟨_, same⟩)
    (List.getElem?_eq_getElem inside)

theorem EncodesText.framed (encodes : EncodesText filename fd timestampUtc text frames)
    (dated : parseFdTimestamp externals fd = some timestampUtc) {frame : DataFrame}
    (member : frame ∈ frames)
    : frame.Framed externals config := by
  obtain ⟨index, block, inside, ofText, encoded⟩ := encodes.block_of_mem member
  have version : frame.version = .v1 := by rw [DataFrame.version, encoded.v1]
  exact {
    headerLength := encoded.headerLength
    captured := encoded.captured
    dated := by rw [encoded.fd, encoded.timestampUtc, dated]
    numbered := by
      rw [encoded.number, encoded.total]
      omega
    bodyLength := by
      rw [encoded.v1, encoded.body]
      exact length_padBlock ofText
    payload := by simp [payload?, version, encoded.body, encoded.payload]
    verified := by
      rw [encoded.payload]
      exact encoded.checksum
  }

theorem dataBlocks_flatMap_data (frames : List DataFrame)
    : dataBlocks (frames.flatMap fun frame => (StreamFrame.data 6 frame).events)
      = frames.map DataFrame.segment := by
  induction frames with
  | nil => rfl
  | cons frame frames ih =>
      rw [List.flatMap_cons, dataBlocks_append, ih]
      rfl

/-- The decoder starts at the first frame of a wire stream. -/
theorem feedAll_wireStream {chunks : List Bytes} (wire : xorFf chunks.flatten = wireStream frames)
    : (feedAll externals (.new config) chunks).1
      = (run externals ⟨config, wireStream frames, .startFrame, none⟩).1 := by
  rw [(@Reachable.new externals config).atRest.feedAll_eq]
  cases frames with
  | nil =>
      have empty : xorFf chunks.flatten = [] := wire
      have short : ([] : Bytes).length ≤ 5 := Nat.zero_le 5
      rw [feed, empty]
      exact (congrArg Prod.fst (run_resync_short short)).trans
        (congrArg Prod.fst (run_startFrame_padding rfl)).symm
  | cons frame frames =>
      have marked : syncBytes <+: xorFf chunks.flatten := by
        rw [wire, wireStream, List.flatMap_cons, List.append_assoc]
        exact List.prefix_append _ _
      rw [← feed_sync_eq_new marked, feed, wire]
      rfl

/-- The decoder delivers the segments of the frames in order. -/
theorem EncodesText.dataBlocks_feedAll
    (encodes : EncodesText filename fd timestampUtc text frames)
    (dated : parseFdTimestamp externals fd = some timestampUtc)
    (notFill : isFillFile filename = false) {chunks : List Bytes}
    (wire : xorFf chunks.flatten = wireStream frames)
    : dataBlocks (feedAll externals (.new config) chunks).1
      = frames.map DataFrame.segment := by
  have wellFormed
      : ∀ frame ∈ frames.map (StreamFrame.data 6), frame.WellFormed externals config := by
    intro frame member
    obtain ⟨data, ofFrames, rfl⟩ := List.mem_map.mp member
    obtain ⟨_, _, _, _, encoded⟩ := encodes.block_of_mem ofFrames
    exact .data le_rfl ⟨encodes.framed dated ofFrames, encoded.filename ▸ notFill⟩
  have decoded := run_frames wellFormed
  rw [List.flatMap_map, List.flatMap_map] at decoded
  rw [feedAll_wireStream wire, wireStream]
  exact (congrArg (fun result => dataBlocks result.1) decoded).trans
    (dataBlocks_flatMap_data frames)

/-- A fill file is not delivered at all. -/
theorem EncodesText.feedAll_fill (encodes : EncodesText filename fd timestampUtc text frames)
    (dated : parseFdTimestamp externals fd = some timestampUtc)
    (fill : isFillFile filename = true) {chunks : List Bytes}
    (wire : xorFf chunks.flatten = wireStream frames)
    : (feedAll externals (.new config) chunks).1 = [] := by
  have skipped (frames : List DataFrame)
      (all : ∀ frame ∈ frames, frame.Framed externals config ∧ frame.filename = filename)
      : run externals ⟨config, wireStream frames, .startFrame, none⟩
        = ([], ⟨config, [], .startFrame, none⟩) := by
    induction frames with
    | nil => exact run_startFrame_padding rfl
    | cons frame frames ih =>
        obtain ⟨framed, named⟩ := all frame (List.mem_cons_self ..)
        rw [wireStream, List.flatMap_cons, List.append_assoc, run_startFrame_zeros _ rfl,
          framed.run_fill (named ▸ fill)]
        exact ih fun later member => all later (List.mem_cons_of_mem _ member)
  rw [feedAll_wireStream wire, skipped frames]
  intro frame member
  obtain ⟨_, _, _, _, encoded⟩ := encodes.block_of_mem member
  exact ⟨encodes.framed dated member, encoded.filename⟩

end Encoding

section Assembly

variable {toLowercase : Text → Text} {filename fd : Text} {timestampUtc : SystemTime}
  {text : Bytes} {frames : List DataFrame}

theorem fileKey_congr {left right : QbtSegment} (filename : left.filename = right.filename)
    (timestamp : left.timestampUtc = right.timestampUtc)
    : fileKey toLowercase left = fileKey toLowercase right := by
  simp only [fileKey, filename, timestamp]

theorem EncodesText.blocksOf {toLowercase : Text → Text}
    (encodes : EncodesText filename fd timestampUtc text frames)
    {first : DataFrame} (member : first ∈ frames)
    : BlocksOf toLowercase (fileKey toLowercase first.segment)
        (frames.map DataFrame.segment) := by
  obtain ⟨_, _, _, _, firstEncoded⟩ := encodes.block_of_mem member
  refine ⟨?_, ?_, ?_⟩
  · refine List.ext_getElem (by simp) ?_
    intro index inside _
    have inFrames : index < frames.length := by simpa using inside
    have inBlocks : index < (textBlocks text).length := encodes.count ▸ inFrames
    have encoded := encodes.blocks index frames[index] (textBlocks text)[index]
      (List.getElem?_eq_getElem inFrames) (List.getElem?_eq_getElem inBlocks)
    simp [DataFrame.segment, encoded.number, Nat.add_comm]
  · intro block ofBlocks
    obtain ⟨frame, ofFrames, rfl⟩ := List.mem_map.mp ofBlocks
    obtain ⟨_, _, _, _, encoded⟩ := encodes.block_of_mem ofFrames
    rw [List.length_map, encodes.count]
    exact encoded.total
  · intro block ofBlocks
    obtain ⟨frame, ofFrames, rfl⟩ := List.mem_map.mp ofBlocks
    obtain ⟨_, _, _, _, encoded⟩ := encodes.block_of_mem ofFrames
    exact fileKey_congr (encoded.filename.trans firstEncoded.filename.symm)
      (encoded.timestampUtc.trans firstEncoded.timestampUtc.symm)

/-- The segments of the frames as a file that a sender has split. -/
def EncodesText.splitFile (toLowercase : Text → Text)
    (encodes : EncodesText filename fd timestampUtc text frames)
    (notFill : isFillFile filename = false) (nonempty : frames ≠ [])
    : SplitFile toLowercase where
  key := fileKey toLowercase (frames.head nonempty).segment
  blocks := frames.map DataFrame.segment
  nonempty := by simpa using nonempty
  blocksOf := encodes.blocksOf (List.head_mem nonempty)
  notFill := by
    intro block member
    obtain ⟨frame, ofFrames, rfl⟩ := List.mem_map.mp member
    obtain ⟨_, _, _, _, encoded⟩ := encodes.block_of_mem ofFrames
    exact (congrArg isFillFile encoded.filename).trans notFill

/-- The contents of the delivered segments are the trimmed blocks of the text. -/
theorem EncodesText.contents (encodes : EncodesText filename fd timestampUtc text frames)
    (textName : isTextOrWmo filename = true)
    : (frames.map DataFrame.segment).map QbtSegment.content
      = (textBlocks text).map trimTextPadding := by
  refine List.ext_getElem (by simp [encodes.count]) ?_
  intro index inside inside'
  have inFrames : index < frames.length := by simpa using inside
  have inBlocks : index < (textBlocks text).length := by simpa using inside'
  have encoded := encodes.blocks index frames[index] (textBlocks text)[index]
    (List.getElem?_eq_getElem inFrames) (List.getElem?_eq_getElem inBlocks)
  simp [DataFrame.segment, deliveredContent, encoded.filename, textName, encoded.payload,
    trimTextPadding_padBlock]

/-- If all calls are for one file, its last push is the call before. -/
theorem lastPush_le {calls : List PushCall} {file : SplitFile toLowercase}
    {inflightTtl : Duration} (blocks : ∀ call ∈ calls, call.segment ∈ file.blocks)
    (prompt : calls.IsChain fun earlier later => later.now - earlier.now ≤ inflightTtl)
    {index : Nat} {call : PushCall} (found : calls[index]? = some call) {last : Instant}
    (pushed : last ∈ file.lastPush (calls.take index))
    : call.now - last ≤ inflightTtl := by
  have all : (calls.take index).filter (fun call => call.segment ∈ file.blocks)
      = calls.take index :=
    List.filter_eq_self.mpr fun call member =>
      decide_eq_true (blocks call (List.mem_of_mem_take member))
  obtain ⟨inside, rfl⟩ := List.getElem?_eq_some_iff.mp found
  rw [SplitFile.lastPush, all] at pushed
  cases index with
  | zero => simp at pushed
  | succ index =>
      rw [List.take_add_one, List.getElem?_eq_getElem (by omega), Option.toList_some,
        List.getLast?_concat] at pushed
      obtain rfl := Option.some.inj pushed
      exact List.isChain_iff_getElem.mp prompt index inside

/-- The segments of one file, pushed promptly one after another, return the file once. -/
theorem pushAll_single {duplicateCacheSize maxInflightFiles : Nat} {inflightTtl : Duration}
    {calls : List PushCall} {file : SplitFile toLowercase}
    (fits : 1 ≤ maxInflightFiles) (cached : 1 ≤ duplicateCacheSize)
    (pushes : received calls = file.blocks)
    (prompt : calls.IsChain fun earlier later => later.now - earlier.now ≤ inflightTtl)
    : (pushAll toLowercase (.idle duplicateCacheSize maxInflightFiles inflightTtl)
        calls).1.filterMap id
      = [file.completed] := by
  have blocks (call : PushCall) (member : call ∈ calls) : call.segment ∈ file.blocks := by
    rw [← pushes]
    exact List.mem_map_of_mem member
  have distinct : ([file].map SplitFile.key).Nodup := List.nodup_singleton _
  have segments (call : PushCall) (member : call ∈ calls)
      : ∃ other ∈ [file], call.segment ∈ other.blocks :=
    ⟨file, List.mem_singleton_self _, blocks call member⟩
  have timely (index : Nat) (call : PushCall) (found : calls[index]? = some call)
      : TimelyAt inflightTtl [file] (calls.take index) call := by
    intro other member _ last pushed
    obtain rfl := List.mem_singleton.mp member
    exact lastPush_le blocks prompt found pushed
  have complete : file.Complete (received calls) := by
    intro block ofFile
    rwa [pushes]
  refine filterMap_eq_singleton ?_ ?_
  · intro entry member
    obtain ⟨index, inside, rfl⟩ := List.getElem_of_mem member
    rw [length_pushAll] at inside
    have output :=
      pushAll_returned distinct fits cached segments timely (List.getElem?_eq_getElem inside)
        (List.mem_singleton_self _) (blocks _ (List.getElem_mem inside))
    obtain ⟨_, same⟩ := List.getElem?_eq_some_iff.mp output
    rw [same]
    split
    · exact Or.inr rfl
    · exact Or.inl rfl
  · obtain ⟨index, ⟨call, found, block, output⟩, unique⟩ :=
      existsUnique_returned distinct fits cached segments timely
        (List.mem_singleton_self _) complete
    refine ⟨index, output, ?_⟩
    intro other otherOutput
    obtain ⟨inside, _⟩ := List.getElem?_eq_some_iff.mp otherOutput
    rw [length_pushAll] at inside
    exact unique other ⟨calls[other], List.getElem?_eq_getElem inside,
      blocks _ (List.getElem_mem inside), otherOutput⟩

/-- The segments of an encoded text, pushed promptly, give the text back if and only if it is
no fill file and no block but its last ends in a padding byte.
-/
theorem EncodesText.assembled_iff {externals : Externals} {config : QbtDecodeConfig}
    {duplicateCacheSize maxInflightFiles : Nat} {inflightTtl : Duration} {last : UInt8}
    {chunks : List Bytes} {calls : List PushCall}
    (encodes : EncodesText filename fd timestampUtc text frames)
    (ends : text.getLast? = some last) (unpadded : isTextPadding last = false)
    (textName : isTextOrWmo filename = true)
    (dated : parseFdTimestamp externals fd = some timestampUtc)
    (wire : xorFf chunks.flatten = wireStream frames)
    (pushes : received calls = dataBlocks (feedAll externals (.new config) chunks).1)
    (prompt
      : calls.IsChain fun earlier later => later.now - earlier.now ≤ max inflightTtl 1000000)
    : (∃ file,
        (pushAll toLowercase (.withLimits duplicateCacheSize maxInflightFiles inflightTtl)
          calls).1.filterMap id
        = [file]
        ∧ file.data = text)
      ↔ isFillFile filename = false ∧ SeamsKept text := by
  cases fill : isFillFile filename with
  | true =>
      rw [encodes.feedAll_fill dated fill wire] at pushes
      have none : calls = [] := List.map_eq_nil_iff.mp pushes
      refine iff_of_false ?_ (by simp)
      rintro ⟨file, output, _⟩
      rw [none] at output
      cases output
  | false =>
      rw [encodes.dataBlocks_feedAll dated fill wire] at pushes
      have nonempty : frames ≠ [] := by
        obtain ⟨inner, block, cut, _⟩ := textBlocks_last ends
        have count := encodes.count
        rw [cut, List.length_append, List.length_singleton] at count
        exact List.ne_nil_of_length_eq_add_one count
      have output :=
        pushAll_single (le_max_right maxInflightFiles 1) (le_max_right duplicateCacheSize 1)
          (show received calls = (encodes.splitFile toLowercase fill nonempty).blocks from pushes)
          prompt
      have data
          : (encodes.splitFile toLowercase fill nonempty).completed.data
            = ((textBlocks text).map trimTextPadding).flatten := by
        rw [← encodes.contents textName]
        exact List.flatMap_def
      rw [withLimits, output, and_iff_right rfl, ← flatten_trimmed_iff ends unpadded, ← data]
      constructor
      · rintro ⟨other, same, whole⟩
        rwa [← List.cons.inj same |>.1] at whole
      · intro whole
        exact ⟨_, rfl, whole⟩

end Assembly

/-- What a text product is worth after the wire: encoded as V1 frames, decoded in any chunks
and assembled promptly, it comes back as exactly one file with the same bytes if and only if
it is no fill file and no block but its last ends in a padding byte.
Witness: the decoder trims every block on its own, so the assembled file is the
concatenation of the trimmed blocks.
-/
theorem text_delivered_iff (externals : Externals) (config : QbtDecodeConfig)
    (toLowercase : Text → Text) (duplicateCacheSize maxInflightFiles : Nat)
    (inflightTtl : Duration) (filename fd : Text) (timestampUtc : SystemTime) (text : Bytes)
    (last : UInt8) (frames : List DataFrame) (chunks : List Bytes) (calls : List PushCall)
    (ends : text.getLast? = some last) (unpadded : isTextPadding last = false)
    (textName : isTextOrWmo filename = true)
    (dated : parseFdTimestamp externals fd = some timestampUtc)
    (encodes : EncodesText filename fd timestampUtc text frames)
    (wire : xorFf chunks.flatten = wireStream frames)
    (pushes : received calls = dataBlocks (feedAll externals (.new config) chunks).1)
    (prompt
      : calls.IsChain fun earlier later => later.now - earlier.now ≤ max inflightTtl 1000000)
    : (∃ file,
        (pushAll toLowercase (.withLimits duplicateCacheSize maxInflightFiles inflightTtl)
          calls).1.filterMap id
        = [file]
        ∧ file.data = text)
      ↔ isFillFile filename = false ∧ SeamsKept text := by
  exact encodes.assembled_iff ends unpadded textName dated wire pushes prompt

/-- The header line of one block of a text product. -/
def sampleLine (number total checksum : Nat) : Text :=
  "/PFHELLO.TXT /PN ".toList ++ Nat.toDigits 10 number ++ " /PT ".toList
    ++ Nat.toDigits 10 total ++ " /CS ".toList ++ Nat.toDigits 10 checksum
    ++ " /FD01/01/2024 01:00:00 AM \r\n".toList

/-- What the header grammar reads from that line. -/
def sampleCaptures (number total checksum : Nat) : List (String × Text) := [
  ("pf", "HELLO.TXT".toList), ("pn", Nat.toDigits 10 number),
  ("pt", Nat.toDigits 10 total), ("cs", Nat.toDigits 10 checksum),
  ("fd", "01/01/2024 01:00:00 AM".toList)
]

/-- The frame of one block of a text product. -/
def sampleTextFrame (number total : Nat) (block : Bytes) : DataFrame where
  header := paddedHeader (sampleLine number total (byteSum block))
  body := padBlock block
  filename := "HELLO.TXT".toList
  blockNumber := UInt32.ofNat number
  totalBlocks := UInt32.ofNat total
  checksum := UInt32.ofNat (byteSum block)
  fd := "01/01/2024 01:00:00 AM".toList
  timestampUtc := 1704070800000000000
  dl := none
  payload := padBlock block

/-- The frames of a text product, one for each block. -/
def sampleTextFrames (text : Bytes) : List DataFrame :=
  (textBlocks text).mapIdx fun index block =>
    sampleTextFrame (index + 1) (textBlocks text).length block

/-- Two blocks and no padding at their border. -/
def keptText : Bytes := List.replicate 1024 0x41 ++ [0x42]

/-- Two blocks, the first of them ending in a space. -/
def spacedText : Bytes := List.replicate 1023 0x41 ++ [0x20, 0x42]

/-- The calls that push the segments of two frames. -/
def sampleTextCalls (text : Bytes) : List PushCall :=
  (sampleTextFrames text).map fun frame => ⟨frame.segment, 5, .listed⟩

/-- The grammar reads the sample line's fields and their numbers are in range. -/
def SampleChecked (total number : Nat) (block : Bytes) : Prop :=
  (fromUtf8 (sampleTextFrame number total block).header).toOption.bind headerRegex.captures?
    = some (sampleCaptures number total (byteSum block))
  ∧ (sampleTextFrame number total block).header.length = headerSize
  ∧ captureU32 (sampleCaptures number total (byteSum block)) "pn" "/PN".toList
    = .ok (UInt32.ofNat number)
  ∧ captureU32 (sampleCaptures number total (byteSum block)) "pt" "/PT".toList
    = .ok (UInt32.ofNat total)
  ∧ captureU32 (sampleCaptures number total (byteSum block)) "cs" "/CS".toList
    = .ok (UInt32.ofNat (byteSum block))
  ∧ number < UInt32.size ∧ total < UInt32.size ∧ byteSum block < UInt32.size

instance (total number : Nat) (block : Bytes) : Decidable (SampleChecked total number block) :=
  inferInstanceAs (Decidable (_ ∧ _ ∧ _ ∧ _ ∧ _ ∧ _ ∧ _ ∧ _))

theorem SampleChecked.encodesBlock {total index : Nat} {block : Bytes}
    (checked : SampleChecked total (index + 1) block)
    : EncodesBlock "HELLO.TXT".toList "01/01/2024 01:00:00 AM".toList 1704070800000000000
        total index block (sampleTextFrame (index + 1) total block) := by
  obtain ⟨matched, length, pn, pt, cs, numberSmall, totalSmall, sumSmall⟩ := checked
  obtain ⟨text, decoded, captured⟩ := Option.bind_eq_some_iff.mp matched
  have utf8 : fromUtf8 (sampleTextFrame (index + 1) total block).header = .ok text := by
    cases read : fromUtf8 (sampleTextFrame (index + 1) total block).header with
    | ok value => rw [read] at decoded; exact congrArg _ (Option.some.inj decoded)
    | error error => rw [read] at decoded; cases decoded
  exact {
    headerLength := length
    captured := ⟨_, ⟨text, utf8, captured⟩, rfl, pn, pt, cs, rfl, rfl⟩
    filename := rfl
    number := UInt32.toNat_ofNat_of_lt' numberSmall
    total := UInt32.toNat_ofNat_of_lt' totalSmall
    checksum := by
      rw [sampleTextFrame, UInt32.toNat_ofNat_of_lt' sumSmall]
      simp [padBlock, byteSum, Nat.ModEq]
    fd := rfl
    timestampUtc := rfl
    v1 := rfl
    body := rfl
    payload := rfl
  }

theorem sampleTextFrames_encode {text first second : Bytes}
    (cut : textBlocks text = [first, second]) (firstChecked : SampleChecked 2 1 first)
    (secondChecked : SampleChecked 2 2 second)
    : EncodesText "HELLO.TXT".toList "01/01/2024 01:00:00 AM".toList 1704070800000000000
        text (sampleTextFrames text) where
  count := by simp [sampleTextFrames]
  blocks := by
    intro index frame block frameAt blockAt
    rw [sampleTextFrames, cut] at frameAt
    rw [cut] at blockAt ⊢
    match index with
    | 0 =>
        obtain rfl := Option.some.inj blockAt
        obtain rfl := Option.some.inj frameAt
        exact firstChecked.encodesBlock
    | 1 =>
        obtain rfl := Option.some.inj blockAt
        obtain rfl := Option.some.inj frameAt
        exact secondChecked.encodesBlock
    | index + 2 => simp at blockAt

theorem keptText_encodes
    : EncodesText "HELLO.TXT".toList "01/01/2024 01:00:00 AM".toList 1704070800000000000
        keptText (sampleTextFrames keptText) :=
  sampleTextFrames_encode
    (show textBlocks keptText = [List.replicate 1024 0x41, [0x42]] by decide +kernel)
    (by decide +kernel) (by decide +kernel)

/-- A text without padding at its block border comes back. -/
theorem text_delivered_kept
    : ∃ file,
        (pushAll asciiLowercase (.withLimits 16 16 0) (sampleTextCalls keptText)).1.filterMap
          id
        = [file]
        ∧ file.data = keptText := by
  have wire : xorFf [xorFf (wireStream (sampleTextFrames keptText))].flatten
      = wireStream (sampleTextFrames keptText) := by
    simp
  have delivered :=
    text_delivered_iff sampleExternals {} asciiLowercase 16 16 0 "HELLO.TXT".toList
      "01/01/2024 01:00:00 AM".toList 1704070800000000000 keptText 0x42
      (sampleTextFrames keptText) _ (sampleTextCalls keptText) (by decide +kernel)
      (by decide) (by decide +kernel) (by decide +kernel) keptText_encodes wire
      (by
        rw [keptText_encodes.dataBlocks_feedAll (by decide +kernel) (by decide +kernel) wire]
        simp [received, sampleTextCalls, Function.comp_def])
      (by decide +kernel)
  exact delivered.mpr ⟨by decide +kernel, by decide +kernel⟩

/-- A space at the end of a block is lost in the middle of the file. -/
theorem text_loses_seam
    : EncodesText "HELLO.TXT".toList "01/01/2024 01:00:00 AM".toList 1704070800000000000
        spacedText (sampleTextFrames spacedText)
      ∧ dataBlocks
          (feed sampleExternals (.new {}) (xorFf (wireStream (sampleTextFrames spacedText)))).1
        = received (sampleTextCalls spacedText)
      ∧ (pushAll asciiLowercase (.withLimits 16 16 0)
          (sampleTextCalls spacedText)).1.filterMap id
        = [{ filename := "HELLO.TXT".toList
             data := List.replicate 1023 0x41 ++ [0x42]
             timestampUtc := 1704070800000000000 }]
      ∧ List.replicate 1023 0x41 ++ [0x42] ≠ spacedText := by
  refine ⟨?_, by decide +kernel, by decide +kernel, by decide +kernel⟩
  exact sampleTextFrames_encode
    (show textBlocks spacedText = [List.replicate 1023 0x41 ++ [0x20], [0x42]] by
      decide +kernel)
    (by decide +kernel) (by decide +kernel)

end Emwin.Qbt
