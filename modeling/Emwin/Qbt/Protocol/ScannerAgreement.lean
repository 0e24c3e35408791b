import Emwin.Qbt.Protocol.FrameStreams
import Emwin.Qbt.Protocol.ScannerRuns

/-! The server-list scanner beside the decoder: both read the same stream, one frame by frame
and the other searching for markers.
-/

namespace Emwin.Qbt
open Library QbtProtocolDecoder QbtServerListWireScanner

-----------------------------------------------------------------------------------------
-- Streams that the decoder accepts
-----------------------------------------------------------------------------------------

/-- A frame with the zeros before it: a data block, or the text of a server list up to its
terminating zero.
-/
inductive WireFrame where
  | data (zeros : Nat) (header body : Bytes)
  | serverList (zeros : Nat) (text : Bytes)

namespace WireFrame

def bytes : WireFrame → Bytes
  | data zeros header body => List.replicate zeros 0 ++ (header ++ body)
  | serverList zeros text => List.replicate zeros 0 ++ (text ++ [0])

/-- The decoder reads the frame to its end: a header announces the body, whatever the body
holds, and a server list parses.
-/
inductive Accepted (externals : Externals) (config : QbtDecodeConfig) : WireFrame → Prop
  | data {zeros header body pending} (size : header.length = headerSize)
    (parsed : parseHeader externals header config.maxV2BodySize = .ok pending)
    (whole : body.length = pending.length)
    : Accepted externals config (.data zeros header body)
  | serverList {zeros text list warnings} (body : 0 ∉ text)
    (decoded : decodeServerList text = .ok (list, warnings))
    : Accepted externals config (.serverList zeros text)

/-- The wire bytes of a server-list frame. -/
def list? : WireFrame → Option Bytes
  | data _ _ _ => none
  | serverList _ text => some (xorFf (text ++ [0]))

/-- The list that a server-list frame announces. -/
def announced : WireFrame → Option QbtServerList
  | data _ _ _ => none
  | serverList _ text => (decodeServerList text).toOption.map Prod.fst

/-- A sync marker and the frames after it. -/
def stream (frames : List WireFrame) : Bytes := syncBytes ++ frames.flatMap bytes

end WireFrame

/-- The server list of an event that updates it. -/
def QbtFrameEvent.update? : QbtFrameEvent → Option QbtServerList
  | .serverListUpdate list => some list
  | _ => none

variable {externals : Externals} {config : QbtDecodeConfig}

theorem decodeServerList_ok {text : Bytes} {list : QbtServerList}
    {warnings : List QbtProtocolWarning} (decoded : decodeServerList text = .ok (list, warnings))
    : toUtf8 serverListPrefix <+: text := by
  obtain ⟨content, utf8, parsed⟩ := exceptBind_ok_iff.mp decoded
  have utf8 := mapError_eq_ok.mp utf8
  by_cases marked : serverListPrefix <+: content
  · obtain ⟨tail, rfl⟩ := marked
    exact fromUtf8_prefix_ascii utf8 (by decide)
  · simp [parseServerListFrame, marked] at parsed

/-- No frame of a data block updates the server list. -/
theorem update?_emitSegment (pending : PendingSegment)
    : (emitSegment pending).filterMap QbtFrameEvent.update? = [] := by
  rw [emitSegment_eq]
  split_ifs <;> simp [QbtFrameEvent.update?]

theorem update?_warnings (warnings : List QbtProtocolWarning)
    : (warnings.map QbtFrameEvent.warning).filterMap QbtFrameEvent.update? = [] := by
  simp [List.filterMap_map, Function.comp_def, QbtFrameEvent.update?]

namespace WireFrame

/-- The decoder reads an accepted frame and announces its list, by cases on the frame. -/
theorem Accepted.run_frame {frame : WireFrame} (accepted : frame.Accepted externals config)
    (rest : Bytes)
    : ∃ events,
        run externals ⟨config, frame.bytes ++ rest, .startFrame, none⟩
          = prepend events (run externals ⟨config, rest, .startFrame, none⟩)
        ∧ events.filterMap QbtFrameEvent.update? = frame.announced.toList := by
  cases accepted with
  | @data zeros header body pending size parsed whole =>
      obtain ⟨captures, _, _, captured, _⟩ := parseHeader_ok_iff.mp parsed
      have marked : pfBytes <+: header ++ body ++ rest := by
        rw [List.append_assoc]
        exact captured.startsWithPf.trans (List.prefix_append _ _)
      refine ⟨(storeBody externals config.compressionPolicy pending body).warnings.map .warning
        ++ emitSegment (storeBody externals config.compressionPolicy pending body), ?_, ?_⟩
      · rw [bytes, List.append_assoc, run_startFrame_zeros _ (by simp),
          run_startFrame_block marked, List.append_assoc,
          (Move.headerRead size parsed).run_eq, (Move.bodyRead whole).run_eq,
          Move.emitted.run_eq]
        rfl
      · rw [List.filterMap_append, update?_emitSegment, update?_warnings]
        rfl
  | @serverList zeros text list warnings body decoded =>
      have front : seBytes <+: text :=
        seBytes_prefix_serverListPrefix.trans (decodeServerList_ok decoded)
      refine ⟨.serverListUpdate list :: warnings.map .warning, ?_, ?_⟩
      · rw [bytes, List.append_assoc, run_startFrame_zeros _ (by simp), List.append_assoc,
          run_startFrame_list (front.trans (List.prefix_append _ _)), List.singleton_append,
          (Move.listRead body decoded).run_eq]
      · rw [List.filterMap_cons, update?_warnings, announced, decoded]
        rfl

/-- The updates of the decoder are the lists of the frames, by induction on the frames. -/
theorem updates_run {frames : List WireFrame}
    (accepted : ∀ frame ∈ frames, frame.Accepted externals config)
    : (run externals ⟨config, frames.flatMap bytes, .startFrame, none⟩).1.filterMap
        QbtFrameEvent.update?
      = frames.filterMap announced := by
  induction frames with
  | nil => rw [List.flatMap_nil, run_startFrame_padding rfl]; rfl
  | cons frame frames ih =>
      obtain ⟨events, decoded, updates⟩ :=
        (accepted frame (List.mem_cons_self ..)).run_frame (frames.flatMap bytes)
      rw [List.flatMap_cons, decoded, prepend, List.filterMap_append, updates,
        ih fun later member => accepted later (List.mem_cons_of_mem _ member),
        List.filterMap_cons]
      cases frame.announced <;> rfl

theorem updates_feedAll {frames : List WireFrame} {chunks : List Bytes}
    (accepted : ∀ frame ∈ frames, frame.Accepted externals config)
    (wire : xorFf chunks.flatten = stream frames)
    : (feedAll externals (.new config) chunks).1.filterMap QbtFrameEvent.update?
      = frames.filterMap announced := by
  have fed : feedAll externals (.new config) chunks
      = run externals ⟨config, stream frames, .resync, none⟩ := by
    rw [(@Reachable.new externals config).atRest.feedAll_eq, feed, wire]
    rfl
  have sync : windowPosition syncBytes (stream frames) = some 0 :=
    windowPosition_of_start (List.prefix_append ..)
  have behind : (stream frames).drop (0 + 6) = frames.flatMap bytes := rfl
  rw [fed, run_resync_found sync, behind, updates_run accepted]

-----------------------------------------------------------------------------------------
-- Where the bytes of a stream come from
-----------------------------------------------------------------------------------------

/-- What a byte of a stream belongs to; the end of a server list remembers its text. -/
inductive Origin where
  | padding
  | data
  | list
  | listEnd (text : Bytes)
  deriving DecidableEq

namespace Origin

/-- The text that ends with the byte. -/
def listText : Origin → List (UInt8 × Origin)
  | listEnd text => text.map (·, list)
  | _ => []

/-- The frame that ends with the byte. -/
def frame? : Origin → Option Bytes
  | listEnd text => some (xorFf (text ++ [0]))
  | _ => none

end Origin

def tagged : WireFrame → List (UInt8 × Origin)
  | data zeros header body =>
      List.replicate zeros (0, .padding) ++ (header ++ body).map (·, .data)
  | serverList zeros text =>
      List.replicate zeros (0, .padding) ++ (text.map (·, .list) ++ [(0, .listEnd text)])

def taggedStream (frames : List WireFrame) : List (UInt8 × Origin) :=
  syncBytes.map (·, .padding) ++ frames.flatMap tagged

/-- The tagged byte is zero. -/
abbrev zeroByte : UInt8 × Origin → Bool := isZero ∘ Prod.fst

theorem map_fst_tagged (frame : WireFrame) : frame.tagged.map Prod.fst = frame.bytes := by
  cases frame <;> simp [tagged, bytes, Function.comp_def]

theorem map_fst_taggedStream (frames : List WireFrame)
    : (taggedStream frames).map Prod.fst = stream frames := by
  simp [taggedStream, stream, List.map_flatMap, map_fst_tagged, Function.comp_def]

theorem length_taggedStream (frames : List WireFrame)
    : (taggedStream frames).length = (stream frames).length := by
  rw [← map_fst_taggedStream, List.length_map]

theorem filterMap_frame? (frames : List WireFrame)
    : (taggedStream frames).filterMap (fun byte => byte.2.frame?) = frames.filterMap list? := by
  have padding : ∀ zeros, (List.replicate zeros ((0 : UInt8), Origin.padding)).filterMap
      (fun byte => byte.2.frame?) = [] := by
    intro zeros
    rw [List.filterMap_eq_nil_iff]
    intro byte member
    rw [List.eq_of_mem_replicate member]
    rfl
  rw [taggedStream, List.filterMap_append, List.filterMap_flatMap,
    List.filterMap_eq_flatMap_toList list?]
  have sync : (syncBytes.map fun byte => (byte, Origin.padding)).filterMap
      (fun byte => byte.2.frame?) = [] := rfl
  rw [sync, List.nil_append]
  congr 1
  funext frame
  cases frame with
  | data zeros header body =>
      rw [tagged, List.filterMap_append, padding, List.filterMap_map]
      simp [Origin.frame?, list?]
  | serverList zeros text =>
      rw [tagged, List.filterMap_append, padding, List.filterMap_append, List.filterMap_map]
      simp [Origin.frame?, list?]

/-- A byte that is no padding stands in one of the frames. -/
theorem taggedStream_split {frames : List WireFrame} {before after : List (UInt8 × Origin)}
    {byte : UInt8 × Origin} (split : taggedStream frames = before ++ byte :: after)
    (placed : byte.2 ≠ .padding)
    : ∃ earlier frame later front back,
        frames = earlier ++ frame :: later
        ∧ frame.tagged = front ++ byte :: back
        ∧ before = taggedStream earlier ++ front := by
  rcases List.append_eq_append_iff.mp split with ⟨more, rfl, tail⟩ | ⟨more, same, tail⟩
  · obtain ⟨earlier, frame, later, front, back, rfl, inside, rfl⟩ :=
      flatMap_eq_append_cons tail
    exact ⟨earlier, frame, later, front, back, rfl, inside, by simp [taggedStream]⟩
  · cases more with
    | nil =>
        obtain ⟨earlier, frame, later, front, back, rfl, inside, none⟩ :=
          @flatMap_eq_append_cons _ _ tagged frames [] after byte tail.symm
        refine ⟨earlier, frame, later, front, back, rfl, inside, ?_⟩
        rw [taggedStream, List.append_assoc, ← none, same]
        simp
    | cons first more =>
        obtain ⟨rfl, -⟩ := List.cons.inj tail
        have member : byte ∈ syncBytes.map fun byte => (byte, Origin.padding) := by
          rw [same]
          simp
        obtain ⟨_, _, rfl⟩ := List.mem_map.mp member
        exact absurd rfl placed

/-- The byte that ends a server list is the end of its frame. -/
theorem tagged_listEnd {frame : WireFrame} {front back : List (UInt8 × Origin)}
    {byte : UInt8 × Origin} {text : Bytes} (split : frame.tagged = front ++ byte :: back)
    (ends : byte.2 = .listEnd text)
    : ∃ zeros, frame = .serverList zeros text ∧ front.length = zeros + text.length := by
  have member : byte ∈ frame.tagged := by simp [split]
  cases frame with
  | data zeros header body =>
      rcases List.mem_append.mp member with padding | inside
      · rw [List.eq_of_mem_replicate padding] at ends
        cases ends
      · obtain ⟨_, _, rfl⟩ := List.mem_map.mp inside
        cases ends
  | serverList zeros content =>
      rw [tagged, ← List.append_assoc] at split
      rcases List.eq_nil_or_concat back with rfl | ⟨more, last, rfl⟩
      · obtain ⟨rfl, same⟩ := List.append_inj' split rfl
        obtain rfl := (List.cons.inj same).1
        cases ends
        exact ⟨zeros, rfl, by simp⟩
      · rw [List.concat_eq_append, ← List.cons_append, ← List.append_assoc] at split
        obtain ⟨same, -⟩ := List.append_inj' split rfl
        have inside : byte ∈ front ++ byte :: more := by simp
        rw [← same] at inside
        rcases List.mem_append.mp inside with padding | inner
        · rw [List.eq_of_mem_replicate padding] at ends
          cases ends
        · obtain ⟨_, _, rfl⟩ := List.mem_map.mp inner
          cases ends

/-- The position lies in the header or the body of a data frame. -/
def InDataFrame (frames : List WireFrame) (position : Nat) : Prop :=
  ∃ earlier zeros header body later,
    frames = earlier ++ .data zeros header body :: later
    ∧ (stream earlier).length + zeros ≤ position
    ∧ position < (stream earlier).length + zeros + (header ++ body).length

theorem inDataFrame_iff {frames : List WireFrame} {before after : List (UInt8 × Origin)}
    {byte : UInt8 × Origin} (split : taggedStream frames = before ++ byte :: after)
    : InDataFrame frames before.length ↔ byte.2 = .data := by
  constructor
  · rintro ⟨earlier, zeros, header, body, later, rfl, lower, upper⟩
    have here : (taggedStream (earlier ++ .data zeros header body :: later))[before.length]?
        = some byte := by
      rw [split, List.getElem?_append_right le_rfl, Nat.sub_self]
      rfl
    have parts : taggedStream (earlier ++ .data zeros header body :: later)
        = (taggedStream earlier ++ List.replicate zeros (0, .padding))
          ++ ((header ++ body).map (·, Origin.data) ++ later.flatMap tagged) := by
      simp [taggedStream, tagged]
    rw [parts, List.getElem?_append_right (by simp [length_taggedStream]; omega),
      List.getElem?_append_left (by
        simp only [List.length_append, List.length_map, List.length_replicate,
          length_taggedStream] at upper ⊢
        omega)] at here
    obtain ⟨_, _, rfl⟩ := List.mem_map.mp (List.mem_of_getElem? here)
    rfl
  · intro data
    obtain ⟨earlier, frame, later, front, back, rfl, inside, rfl⟩ :=
      taggedStream_split split (by simp [data])
    have member : byte ∈ frame.tagged := by simp [inside]
    cases frame with
    | serverList zeros content =>
        rcases List.mem_append.mp member with padding | inner
        · rw [List.eq_of_mem_replicate padding] at data
          cases data
        · rcases List.mem_append.mp inner with text | last
          · obtain ⟨_, _, rfl⟩ := List.mem_map.mp text
            cases data
          · rw [List.mem_singleton.mp last] at data
            cases data
    | data zeros header body =>
        have here : (WireFrame.data zeros header body).tagged[front.length]? = some byte := by
          rw [inside, List.getElem?_append_right le_rfl, Nat.sub_self]
          rfl
        have length := congrArg List.length inside
        refine ⟨earlier, zeros, header, body, later, rfl, ?_, ?_⟩
        · rw [List.length_append, length_taggedStream]
          by_contra early
          rw [tagged, List.getElem?_append_left (by simp; omega)] at here
          rw [List.eq_of_mem_replicate (List.mem_of_getElem? here)] at data
          cases data
        · rw [List.length_append, length_taggedStream]
          simp only [tagged, List.length_append, List.length_replicate, List.length_map,
            List.length_cons] at length ⊢
          omega

-----------------------------------------------------------------------------------------
-- The runs of a stream
-----------------------------------------------------------------------------------------

/-- A run of a stream is the rest of a data frame, with the text of a server list behind it if
that is what its zero byte ends.
-/
def Shaped (run : List (UInt8 × Origin)) (last : UInt8 × Origin) : Prop :=
  ∃ front, (∀ byte ∈ front, byte.2 = .data) ∧ run = front ++ last.2.listText

/-- Bytes that are data, or zeros of padding. -/
def Plain (bytes : List (UInt8 × Origin)) : Prop :=
  ∀ byte ∈ bytes, byte.2 = .data ∨ byte.2 = .padding ∧ byte.1 = 0

theorem Plain.data_of_free {bytes : List (UInt8 × Origin)} (plain : Plain bytes)
    (free : Free zeroByte bytes)
    : ∀ byte ∈ bytes, byte.2 = .data := by
  intro byte member
  refine (plain byte member).resolve_right ?_
  rintro ⟨-, zero⟩
  have clash := free byte member
  simp [isZero, zero] at clash

theorem Plain.shaped {bytes : List (UInt8 × Origin)} (plain : Plain bytes)
    : (∀ run ∈ closedRuns zeroByte bytes, Shaped run.1 run.2)
      ∧ ∀ byte ∈ openRun zeroByte bytes, byte.2 = .data := by
  constructor
  · rintro ⟨run, last⟩ member
    rw [← cutRuns_zero (closedRuns zeroByte bytes)] at member
    obtain ⟨before, run, rest, rfl, -, free, -, rfl⟩ := mem_cutRuns member
    have inside : Plain run := fun byte within => plain byte (by simp [within])
    refine ⟨run, inside.data_of_free free, ?_⟩
    rcases plain last (by simp) with data | ⟨padding, -⟩
    · simp [data, Origin.listText]
    · simp [padding, Origin.listText]
  · obtain ⟨closed, split, -, free⟩ := openRun_split zeroByte bytes
    have inside : Plain (openRun zeroByte bytes) := by
      intro byte within
      refine plain byte ?_
      rw [split]
      exact List.mem_append_right _ within
    exact inside.data_of_free free

theorem plain_padding (zeros : Nat) : Plain (List.replicate zeros (0, .padding)) := by
  intro byte member
  rw [List.eq_of_mem_replicate member]
  exact .inr ⟨rfl, rfl⟩

theorem Plain.append {left right : List (UInt8 × Origin)} (plain : Plain left)
    (later : Plain right)
    : Plain (left ++ right) := by
  intro byte member
  rcases List.mem_append.mp member with old | new
  · exact plain byte old
  · exact later byte new

/-- Behind an open run of data, every frame has runs of that shape and leaves an open run of
data; by cases on the frame.
-/
theorem Accepted.shaped {frame : WireFrame} (accepted : frame.Accepted externals config)
    {opened : List (UInt8 × Origin)} (data : ∀ byte ∈ opened, byte.2 = .data)
    : (∀ run ∈ closedRuns zeroByte (opened ++ frame.tagged), Shaped run.1 run.2)
      ∧ ∀ byte ∈ openRun zeroByte (opened ++ frame.tagged), byte.2 = .data := by
  have plain : Plain opened := fun byte member => .inl (data byte member)
  cases accepted with
  | @data zeros header body pending size parsed whole =>
      refine (plain.append ((plain_padding zeros).append ?_)).shaped
      intro byte member
      obtain ⟨_, _, rfl⟩ := List.mem_map.mp member
      exact .inl rfl
  | @serverList zeros text list warnings body decoded =>
      obtain ⟨runs, rest⟩ := (plain.append (plain_padding zeros)).shaped
      obtain ⟨-, -, -, free⟩ := openRun_split zeroByte
        (opened ++ List.replicate zeros (0, .padding))
      have textFree : Free zeroByte (text.map (·, Origin.list)) := by
        intro byte member
        obtain ⟨value, inside, rfl⟩ := List.mem_map.mp member
        exact free_isZero.mpr body value inside
      have ends : zeroByte (0, .listEnd text) = true := rfl
      have closes := closedRuns_stop (free.append textFree) ends []
      obtain ⟨closedParts, openPart⟩ := @closedRuns_append _ zeroByte
        (opened ++ List.replicate zeros (0, .padding))
        (text.map (·, .list) ++ [(0, .listEnd text)])
      rw [← List.append_assoc] at closedParts openPart
      rw [tagged, ← List.append_assoc, ← List.append_assoc, closedParts, openPart,
        ← List.append_assoc, closes.1, closes.2]
      refine ⟨?_, nofun⟩
      intro run member
      rcases List.mem_append.mp member with old | new
      · exact runs run old
      · obtain rfl := List.mem_singleton.mp new
        exact ⟨_, rest, rfl⟩

/-- Every run of a stream has that shape, by induction on the frames. -/
theorem taggedStream_shaped {frames : List WireFrame}
    (accepted : ∀ frame ∈ frames, frame.Accepted externals config)
    : (∀ run ∈ closedRuns zeroByte (taggedStream frames), Shaped run.1 run.2)
      ∧ ∀ byte ∈ openRun zeroByte (taggedStream frames), byte.2 = .data := by
  induction frames using List.reverseRecOn with
  | nil =>
      have sync : taggedStream [] = List.replicate 6 (0, .padding) := rfl
      rw [sync]
      exact (plain_padding 6).shaped
  | append_singleton frames frame ih =>
      obtain ⟨runs, rest⟩ := ih fun earlier member => accepted earlier (by simp [member])
      obtain ⟨later, opens⟩ := (accepted frame (by simp)).shaped rest
      have parts : taggedStream (frames ++ [frame]) = taggedStream frames ++ frame.tagged := by
        simp [taggedStream]
      rw [parts, (closedRuns_append _ _).1, (closedRuns_append _ _).2]
      refine ⟨?_, opens⟩
      intro run member
      rcases List.mem_append.mp member with old | new
      · exact runs run old
      · exact later run new

-----------------------------------------------------------------------------------------
-- One run in the scanner's window
-----------------------------------------------------------------------------------------

/-- A marker in the run starts in a server list, never in a data frame. -/
def MarkedInLists (run : List (UInt8 × Origin)) : Prop :=
  ∀ before behind,
    run = before ++ behind
    → toUtf8 serverListPrefix <+: behind.map Prod.fst
    → ∀ first ∈ behind.head?, first.2 ≠ .data

/-- The first marker of a run of data, if it holds one, starts in the data. -/
theorem frameOf_data {front : List (UInt8 × Origin)} (data : ∀ byte ∈ front, byte.2 = .data)
    : frameOf (front.map Prod.fst) = none ↔ MarkedInLists front := by
  rw [frameOf, markedEnd, Option.map_eq_none_iff, Option.map_eq_none_iff,
    windowPosition_eq_none_iff]
  constructor
  · intro absent before behind split marked
    refine absurd (marked.isInfix.trans ?_) absent
    rw [split, List.map_append]
    exact (List.suffix_append _ _).isInfix
  · rintro clean ⟨left, right, same⟩
    obtain ⟨before, behind, rfl, -, tail⟩ :=
      List.map_eq_append_iff.mp ((List.append_assoc ..).symm.trans same).symm
    have marked : toUtf8 serverListPrefix <+: behind.map Prod.fst := ⟨right, tail.symm⟩
    cases behind with
    | nil => exact marker_ne_nil (List.prefix_nil.mp marked)
    | cons first behind => exact clean before _ rfl marked first rfl (data first (by simp))

/-- The text of a server list is captured unless a marker starts in the data before it. -/
theorem frameOf_list {front : List (UInt8 × Origin)} {text : Bytes}
    (data : ∀ byte ∈ front, byte.2 = .data) (marked : toUtf8 serverListPrefix <+: text)
    : frameOf ((front ++ text.map (·, Origin.list)).map Prod.fst) = some (xorFf (text ++ [0]))
      ↔ MarkedInLists (front ++ text.map (·, Origin.list)) := by
  have bytes : (front ++ text.map (·, Origin.list)).map Prod.fst = front.map Prod.fst ++ text := by
    simp [Function.comp_def]
  obtain ⟨tail, rfl⟩ := marked
  obtain ⟨index, found, bound⟩ := windowPosition_le (toUtf8 serverListPrefix)
    (front.map Prod.fst) tail
  generalize toUtf8 serverListPrefix ++ tail = text at *
  rw [List.length_map] at bound
  have exact : frameOf ((front ++ text.map (·, Origin.list)).map Prod.fst)
        = some (xorFf (text ++ [0]))
      ↔ index = front.length := by
    rw [bytes, frameOf, markedEnd, found, Option.map_some, Option.map_some,
      Option.some.injEq]
    constructor
    · intro same
      have same := congrArg (fun wire => (xorFf wire).length) same
      simp only [xorFf_xorFf, List.length_append, List.length_drop, List.length_map,
        List.length_singleton] at same
      omega
    · rintro rfl
      rw [List.drop_left' (by simp)]
  rw [exact]
  constructor
  · rintro rfl before behind split marked first head
    -- the marker starts behind the data
    have late : front.length ≤ before.length := by
      by_contra early
      refine windowPosition_first found (Nat.lt_of_not_le early) ?_
      rw [← bytes, split, List.map_append, List.drop_left' (by simp)]
      exact marked
    obtain ⟨more, rfl, same⟩ : ∃ more, before = front ++ more
        ∧ text.map (·, Origin.list) = more ++ behind := by
      rcases List.append_eq_append_iff.mp split with ⟨more, same, tail⟩ | ⟨more, same, tail⟩
      · exact ⟨more, same, tail⟩
      · obtain rfl : more = [] := by
          have length := congrArg List.length same
          rw [List.length_append] at length
          exact List.eq_nil_of_length_eq_zero (by omega)
        exact ⟨[], by simpa using same.symm, by simpa using tail.symm⟩
    have member : first ∈ text.map (·, Origin.list) := by
      rw [same]
      exact List.mem_append_right _ (List.mem_of_mem_head? head)
    obtain ⟨_, _, rfl⟩ := List.mem_map.mp member
    simp
  · intro clean
    by_contra early
    have inside : index < front.length := by omega
    have marked : toUtf8 serverListPrefix
        <+: ((front ++ text.map (·, Origin.list)).drop index).map Prod.fst := by
      rw [List.map_drop, bytes]
      exact prefix_drop_of_windowPosition found
    have start : ((front ++ text.map (·, Origin.list)).drop index).head? = front[index]? := by
      rw [List.head?_drop, List.getElem?_append_left inside]
    refine clean _ _ (List.take_append_drop index _).symm marked front[index] ?_
      (data _ (List.getElem_mem inside))
    rw [start]
    exact List.getElem?_eq_getElem inside

/-- A server list is captured in some form whatever stands before it. -/
theorem frameOf_isSome {run : List (UInt8 × Origin)} {last : UInt8 × Origin}
    (shaped : Shaped run last)
    (marked : ∀ text, last.2 = .listEnd text → toUtf8 serverListPrefix <+: text)
    (listed : last.2.frame?.isSome)
    : (frameOf (run.map Prod.fst)).isSome := by
  obtain ⟨front, -, rfl⟩ := shaped
  cases origin : last.2 with
  | listEnd text =>
      obtain ⟨tail, rfl⟩ := marked text origin
      obtain ⟨index, found, -⟩ := windowPosition_le (toUtf8 serverListPrefix)
        (front.map Prod.fst) tail
      have bytes : (front ++ (Origin.listEnd (toUtf8 serverListPrefix ++ tail)).listText).map
          Prod.fst = front.map Prod.fst ++ (toUtf8 serverListPrefix ++ tail) := by
        simp [Origin.listText, Function.comp_def]
      rw [bytes, frameOf, markedEnd, found]
      rfl
  | padding | data | list =>
      rw [origin] at listed
      cases listed

theorem frameOf_shaped {run : List (UInt8 × Origin)} {last : UInt8 × Origin}
    (shaped : Shaped run last)
    (marked : ∀ text, last.2 = .listEnd text → toUtf8 serverListPrefix <+: text)
    : frameOf (run.map Prod.fst) = last.2.frame? ↔ MarkedInLists run := by
  obtain ⟨front, data, rfl⟩ := shaped
  cases origin : last.2 with
  | listEnd text => exact frameOf_list data (marked text origin)
  | padding | data | list =>
      simp only [Origin.listText, Origin.frame?, List.append_nil]
      exact frameOf_data data

-----------------------------------------------------------------------------------------
-- Scanner and decoder
-----------------------------------------------------------------------------------------

/-- A marker at the first position, with the next zero byte at the second. -/
def LookAlike (bytes : Bytes) (start stop : Nat) : Prop :=
  ∃ entries,
    0 ∉ entries
    ∧ toUtf8 serverListPrefix ++ entries ++ [0] <+: bytes.drop start
    ∧ stop = start + (toUtf8 serverListPrefix ++ entries).length

/-- No server list is pushed out of the buffer before its end has come. -/
def Held (limit : Nat) (chunks : List Bytes) (frames : List WireFrame) : Prop :=
  ∀ earlier zeros text later,
    frames = earlier ++ .serverList zeros text :: later
    → InView limit chunks ((stream earlier).length + zeros)
        ((stream earlier).length + zeros + text.length)

/-- No look-alike that is in view when its end comes starts in a data frame. -/
def DataUnmarked (limit : Nat) (chunks : List Bytes) (frames : List WireFrame) : Prop :=
  ∀ start stop,
    LookAlike (stream frames) start stop
    → InView limit chunks start stop
    → ¬ InDataFrame frames start

section
variable {frames : List WireFrame} {limit : Nat} {pieces : List (List (UInt8 × Origin))}
  {part : List (UInt8 × Origin)} {last : UInt8 × Origin}

/-- A run that the window shows still has the shape, as no server list is cut. -/
theorem shaped_view (accepted : ∀ frame ∈ frames, frame.Accepted externals config)
    (whole : pieces.flatten = taggedStream frames)
    (held
      : ∀ earlier zeros text later,
          frames = earlier ++ .serverList zeros text :: later
          → InView limit pieces ((stream earlier).length + zeros)
              ((stream earlier).length + zeros + text.length))
    (member : (part, last) ∈ views zeroByte limit [] pieces)
    : Shaped part last := by
  obtain ⟨past, chunk, later, front, run, rest, rfl, split, closed, free, stops, bound, rfl⟩ :=
    mem_views .nil member
  rw [List.nil_append] at split bound
  have all : taggedStream frames = front ++ (run ++ last :: (rest ++ later.flatten)) := by
    rw [← whole, List.flatten_append, List.flatten_cons, ← List.append_assoc, split]
    simp
  obtain ⟨data, isData, shape⟩ := (taggedStream_shaped accepted).1 (run, last) (by
    rw [all]
    exact mem_closedRuns_of_split closed free stops)
  have shape : run = data ++ last.2.listText := shape
  obtain ⟨count, counted⟩ : ∃ count, count = run.length + 1 + rest.length - limit := ⟨_, rfl⟩
  rw [← counted]
  -- the cut leaves the text of a server list whole
  have dropped : run.drop count = data.drop count ++ last.2.listText := by
    cases origin : last.2 with
    | listEnd text =>
        rw [origin] at shape
        obtain ⟨earlier, frame, after, inner, back, rfl, inside, before⟩ :=
          taggedStream_split (all.trans (List.append_assoc ..).symm) (by simp [origin])
        obtain ⟨zeros, rfl, length⟩ := tagged_listEnd inside origin
        obtain ⟨past', chunk', later', same, lower, upper, near⟩ :=
          held earlier zeros text after rfl
        have position := congrArg List.length before
        have runLength := congrArg List.length shape
        have splitLength := congrArg List.length split
        simp only [List.length_append, List.length_cons, length_taggedStream, Origin.listText,
          List.length_map] at position runLength splitLength bound
        have endHere : front.length + run.length < (past.flatten ++ chunk).length := by
          rw [List.length_append]
          omega
        have endThere : past'.flatten.length ≤ front.length + run.length := by omega
        have here := chunk_unique same bound endHere endThere (by omega)
        rw [← here, List.length_append] at near
        rw [shape, List.drop_append_of_le_length (by omega)]
    | padding | data | list => simp [shape, origin, Origin.listText]
  exact ⟨data.drop count, fun byte inside => isData byte (List.mem_of_mem_drop inside), dropped⟩

/-- The stops of the views are the zero bytes of the stream. -/
theorem map_snd_stream_views (whole : pieces.flatten = taggedStream frames)
    : (views zeroByte limit [] pieces).map Prod.snd = (taggedStream frames).filter zeroByte := by
  rw [map_snd_views limit .nil, List.nil_append, whole]

/-- A server list that ends in the stream begins with the marker. -/
theorem marked_of_view (accepted : ∀ frame ∈ frames, frame.Accepted externals config)
    (whole : pieces.flatten = taggedStream frames)
    (member : (part, last) ∈ views zeroByte limit [] pieces) {text : Bytes}
    (ends : last.2 = .listEnd text)
    : toUtf8 serverListPrefix <+: text := by
  have inside : last ∈ (taggedStream frames).filter zeroByte := by
    rw [← map_snd_stream_views whole]
    exact List.mem_map_of_mem member
  obtain ⟨before, after, split⟩ := List.append_of_mem (List.mem_filter.mp inside).1
  obtain ⟨earlier, frame, later, front, back, rfl, tags, -⟩ :=
    taggedStream_split split (by simp [ends])
  obtain ⟨zeros, rfl, -⟩ := tagged_listEnd tags ends
  cases accepted _ (List.mem_append_right earlier (List.mem_cons_self ..)) with
  | serverList body decoded => exact decodeServerList_ok decoded

/-- Only zero bytes end a server list. -/
theorem frame?_filter (frames : List WireFrame)
    : ((taggedStream frames).filter zeroByte).filterMap (fun byte => byte.2.frame?)
      = frames.filterMap list? := by
  rw [← filterMap_frame?, List.filterMap_filter]
  refine List.filterMap_congr fun byte member => ?_
  split
  · rfl
  · next nonzero =>
      cases origin : byte.2 with
      | listEnd text =>
          obtain ⟨before, after, split⟩ := List.append_of_mem member
          obtain ⟨earlier, frame, later, front, back, rfl, tags, -⟩ :=
            taggedStream_split split (by simp [origin])
          obtain ⟨zeros, rfl, -⟩ := tagged_listEnd tags origin
          have inside : byte ∈ (WireFrame.serverList zeros text).tagged := by simp [tags]
          refine absurd ?_ nonzero
          rcases List.mem_append.mp inside with padding | inner
          · rw [List.eq_of_mem_replicate padding]
            rfl
          · rcases List.mem_append.mp inner with listed | last
            · obtain ⟨_, _, rfl⟩ := List.mem_map.mp listed
              cases origin
            · rw [List.mem_singleton.mp last]
              rfl
      | padding | data | list => rfl

/-- A marker in a view starts a look-alike in view. -/
theorem lookAlike_of_view (whole : pieces.flatten = taggedStream frames)
    (member : (part, last) ∈ views zeroByte limit [] pieces)
    {before behind : List (UInt8 × Origin)} (cut : part = before ++ behind)
    (marked : toUtf8 serverListPrefix <+: behind.map Prod.fst)
    : ∃ skipped after,
        taggedStream frames = skipped ++ (behind ++ last :: after)
        ∧ LookAlike (stream frames) skipped.length (skipped.length + behind.length)
        ∧ InView limit pieces skipped.length (skipped.length + behind.length) := by
  obtain ⟨past, chunk, later, front, run, rest, rfl, split, closed, free, stops, bound, same⟩ :=
    mem_views .nil member
  rw [List.nil_append] at split bound
  obtain ⟨entries, tail⟩ := marked
  have some : 1 ≤ behind.length := by
    have length := congrArg List.length tail
    rw [List.length_append, List.length_map] at length
    have marker : (toUtf8 serverListPrefix).length = 12 := by decide
    omega
  obtain ⟨count, counted⟩ : ∃ count, count = run.length + 1 + rest.length - limit := ⟨_, rfl⟩
  rw [← counted] at same
  have inner : run = run.take count ++ (before ++ behind) := by
    rw [← cut, same, List.take_append_drop]
  have splitLength := congrArg List.length split
  have runLength := congrArg List.length inner
  have partLength := congrArg List.length (same.symm.trans cut)
  simp only [List.length_append, List.length_cons, List.length_drop]
    at splitLength runLength partLength bound
  refine ⟨front ++ run.take count ++ before, rest ++ later.flatten, ?_, ?_, ?_⟩
  · rw [← whole, List.flatten_append, List.flatten_cons, ← List.append_assoc, split]
    nth_rewrite 1 [inner]
    simp
  · refine ⟨entries, ?_, ?_, ?_⟩
    · intro zero
      have inside : (0 : UInt8) ∈ behind.map Prod.fst := by
        rw [← tail]
        exact List.mem_append_right _ zero
      obtain ⟨byte, within, nul⟩ := List.mem_map.mp inside
      have clash := free byte (by rw [inner]; simp [within])
      simp [isZero, nul] at clash
    · rw [← map_fst_taggedStream, ← whole, List.flatten_append, List.flatten_cons,
        ← List.append_assoc, split]
      nth_rewrite 2 [inner]
      have nul : last.1 = 0 := by simpa [isZero] using stops
      rw [tail, ← List.map_drop]
      refine ⟨(rest ++ later.flatten).map Prod.fst, ?_⟩
      have parts : front ++ (run.take count ++ (before ++ behind) ++ last :: rest) ++ later.flatten
          = (front ++ run.take count ++ before) ++ (behind ++ last :: (rest ++ later.flatten)) := by
        simp
      rw [parts, List.drop_left]
      simp [nul]
    · rw [tail, List.length_map]
  · refine ⟨past, chunk, later, rfl, ?_, ?_, ?_⟩
    · simp only [List.length_append]
      omega
    · simp only [List.length_append]
      omega
    · simp only [List.length_append]
      omega

/-- Markers in the views start in server lists exactly if no look-alike in view starts in a
data frame.
-/
theorem markedInLists_iff (whole : pieces.flatten = taggedStream frames)
    : (∀ view ∈ views zeroByte limit [] pieces, MarkedInLists view.1)
      ↔ ∀ start stop,
          LookAlike (stream frames) start stop
          → InView limit pieces start stop
          → ¬ InDataFrame frames start := by
  constructor
  · rintro clean start stop ⟨entries, free, ⟨tail, marked⟩, rfl⟩
      ⟨past, chunk, later, rfl, lower, upper, near⟩ inData
    -- the look-alike as a part of the tagged stream
    have inside : start ≤ (stream frames).length := by
      by_contra beyond
      rw [List.drop_eq_nil_of_le (by omega)] at marked
      simp at marked
    have bytes : (taggedStream frames).map Prod.fst
        = (stream frames).take start
          ++ ((toUtf8 serverListPrefix ++ entries) ++ 0 :: tail) := by
      rw [map_fst_taggedStream]
      nth_rewrite 1 [← List.take_append_drop start (stream frames)]
      rw [← marked]
      simp
    obtain ⟨skipped, behind, split, front, back⟩ := List.map_eq_append_iff.mp bytes
    obtain ⟨part, ended, rfl, text, rest⟩ := List.map_eq_append_iff.mp back
    obtain ⟨last, after, rfl, nul, -⟩ := List.map_eq_cons_iff.mp rest
    have position : skipped.length = start := by
      have length := congrArg List.length front
      rwa [List.length_map, List.length_take_of_le inside] at length
    have partLength : part.length = (toUtf8 serverListPrefix ++ entries).length := by
      rw [← text, List.length_map]
    -- it has come with the chunk, within the window
    have upTo : skipped ++ part ++ [last] <+: taggedStream frames :=
      ⟨after, by rw [split]; simp⟩
    have come : past.flatten ++ chunk <+: taggedStream frames := by
      refine ⟨later.flatten, ?_⟩
      rw [← whole, List.flatten_append, List.flatten_cons, List.append_assoc]
    obtain ⟨rest, read⟩ := List.prefix_of_prefix_length_le upTo come (by
      simp only [List.length_append, List.length_singleton] at upper partLength ⊢
      omega)
    have partFree : Free zeroByte part := by
      intro byte member
      refine free_isZero.mpr ?_ byte.1 (text ▸ List.mem_map_of_mem member)
      simp [marker_foreign, free]
    have readLength := congrArg List.length read
    simp only [List.length_append, List.length_singleton] at readLength near lower partLength
    obtain ⟨run, member, part_suffix⟩ :=
      @suffix_views _ zeroByte limit [] past later chunk skipped part rest last partFree
        (by rw [List.nil_append, ← read]; simp) (by simp [isZero, nul])
        (by rw [List.nil_append, List.length_append]; omega) (by omega)
    obtain ⟨before, rfl⟩ := part_suffix
    cases part with
    | nil =>
        have empty := congrArg List.length text
        have marker : (toUtf8 serverListPrefix).length = 12 := by decide
        rw [List.length_append] at empty
        simp at empty
        omega
    | cons first part =>
        refine clean _ member before _ rfl (text ▸ List.prefix_append _ _) first rfl ?_
        rw [List.cons_append] at split
        exact (inDataFrame_iff split).mp (position ▸ inData)
  · rintro unmarked ⟨part, last⟩ member before behind cut marked first head data
    obtain ⟨skipped, after, split, alike, view⟩ := lookAlike_of_view whole member cut marked
    cases behind with
    | nil => cases head
    | cons byte behind =>
        obtain rfl := Option.some.inj head
        rw [List.cons_append] at split
        exact unmarked _ _ alike view ((inDataFrame_iff split).mpr data)

end

/-- The decoder announces exactly the server-list frames of an accepted stream, in any chunks.
The scanner captures exactly these frames, if none is pushed out of its buffer, when and only
when no look-alike in view starts in a data frame.
-/
theorem scanner_agrees_iff (externals : Externals) (config : QbtDecodeConfig)
    (maxBufferBytes : Nat) (frames : List WireFrame) (chunks : List Bytes)
    (accepted : ∀ frame ∈ frames, frame.Accepted externals config)
    (wire : xorFf chunks.flatten = stream frames)
    (held : Held (max maxBufferBytes 1024) chunks frames)
    : (feedAll externals (.new config) chunks).1.filterMap QbtFrameEvent.update?
        = frames.filterMap announced
      ∧ ((QbtServerListWireScanner.new maxBufferBytes).capturedAll chunks = frames.filterMap list?
        ↔ DataUnmarked (max maxBufferBytes 1024) chunks frames) := by
  refine ⟨updates_feedAll accepted wire, ?_⟩
  rw [capturedAll_new]
  obtain ⟨pieces, whole, cut⟩
      : ∃ pieces : List (List (UInt8 × Origin)),
          pieces.flatten = taggedStream frames
          ∧ pieces.map (List.map Prod.fst) = chunks.map xorFf := by
    apply exists_pieces
    rw [map_fst_taggedStream, ← wire, xorFf_flatten]
  generalize max maxBufferBytes 1024 = limit at *
  have inView : ∀ start stop, InView limit chunks start stop ↔ InView limit pieces start stop := by
    intro start stop
    rw [← inView_map Prod.fst, cut]
    exact (inView_map _).symm
  have shaped : ∀ view ∈ views zeroByte limit [] pieces, Shaped view.1 view.2 := by
    intro view member
    refine shaped_view accepted whole ?_ member
    intro earlier zeros text later split
    exact (inView _ _).mp (held earlier zeros text later split)
  have marked : ∀ view ∈ views zeroByte limit [] pieces, ∀ text,
      view.2.2 = .listEnd text → toUtf8 serverListPrefix <+: text := by
    intro view member text ends
    exact marked_of_view accepted whole member ends
  -- both sides as choices from the views
  have captures : (views isZero limit [] (chunks.map xorFf)).filterMap (fun run => frameOf run.1)
      = (views zeroByte limit [] pieces).filterMap
          fun view => frameOf (view.1.map Prod.fst) := by
    have mapped := views_map Prod.fst isZero limit [] pieces
    rw [List.map_nil, cut] at mapped
    rw [mapped, List.filterMap_map]
    rfl
  have lists : frames.filterMap list?
      = (views zeroByte limit [] pieces).filterMap fun view => view.2.2.frame? := by
    rw [← frame?_filter, ← @map_snd_stream_views frames limit pieces whole, List.filterMap_map]
    rfl
  have more : ∀ view ∈ views zeroByte limit [] pieces,
      view.2.2.frame?.isSome → (frameOf (view.1.map Prod.fst)).isSome :=
    fun view member => frameOf_isSome (shaped view member) (marked view member)
  have agree : ∀ view ∈ views zeroByte limit [] pieces,
      frameOf (view.1.map Prod.fst) = view.2.2.frame? ↔ MarkedInLists view.1 :=
    fun view member => frameOf_shaped (shaped view member) (marked view member)
  rw [captures, lists, filterMap_eq_iff more, forall₂_congr agree, markedInLists_iff whole]
  simp only [DataUnmarked, inView]

/-- The sample frame, and a server list with a bad entry. -/
def sampleFrames : List WireFrame :=
  [.data 0 sampleHeader (toUtf8 "HELLO".toList),
    .serverList 6 (toUtf8 "/ServerList/a:1|b".toList)]

/-- Their stream, cut inside the server list. -/
def sampleChunks : List Bytes :=
  [xorFf ((stream sampleFrames).take 100), xorFf ((stream sampleFrames).drop 100)]

theorem sampleFrames_accepted
    : ∀ frame ∈ sampleFrames, frame.Accepted sampleExternals {} := by
  intro frame member
  rcases List.mem_cons.mp member with rfl | member
  · exact .data (by decide +kernel) sampleDataFrame_wellFormed.parsed (by decide +kernel)
  · obtain rfl := List.mem_singleton.mp member
    exact .serverList (by decide +kernel)
      (show decodeServerList (toUtf8 "/ServerList/a:1|b".toList)
        = .ok ({ servers := [("a".toList, 1)] }, [.malformedServerEntry "b".toList]) by
          decide +kernel)

theorem sampleChunks_held : Held (max defaultScanBufferBytes 1024) sampleChunks sampleFrames := by
  intro earlier zeros text later split
  obtain ⟨rfl, rfl, rfl⟩
      : earlier = [.data 0 sampleHeader (toUtf8 "HELLO".toList)] ∧ zeros = 6
        ∧ text = toUtf8 "/ServerList/a:1|b".toList := by
    rcases earlier with _ | ⟨first, _ | ⟨second, rest⟩⟩
    · cases split
    · cases split
      exact ⟨rfl, rfl, rfl⟩
    · simp [sampleFrames] at split
  exact ⟨[xorFf ((stream sampleFrames).take 100)], xorFf ((stream sampleFrames).drop 100), [],
    rfl, by decide +kernel, by decide +kernel, by decide +kernel⟩

theorem sampleChunks_agree
    : (feedAll sampleExternals (.new {}) sampleChunks).1.filterMap QbtFrameEvent.update?
        = sampleFrames.filterMap announced
      ∧ (QbtServerListWireScanner.new defaultScanBufferBytes).capturedAll sampleChunks
        = sampleFrames.filterMap list?
      ∧ DataUnmarked (max defaultScanBufferBytes 1024) sampleChunks sampleFrames := by
  have captured : (QbtServerListWireScanner.new defaultScanBufferBytes).capturedAll sampleChunks
      = sampleFrames.filterMap list? := by
    decide +kernel
  have agrees := scanner_agrees_iff sampleExternals {} defaultScanBufferBytes sampleFrames
    sampleChunks sampleFrames_accepted (by decide +kernel) sampleChunks_held
  exact ⟨agrees.1, captured, agrees.2.mp captured⟩

/-- A body that looks like a server list, with its header. -/
def lookAlikeBody : Bytes := toUtf8 "/ServerList/a:1\x00".toList

def lookAlikeHeader : Bytes :=
  paddedHeader
    "/PFHELLO.TXT /PN 1 /PT 1 /CS 1341 /FD01/01/2024 01:00:00 AM /DL16 \r\n".toList

/-- A data block whose body looks like a server list: the decoder delivers the block and
announces no list, the scanner takes the body for one.
-/
theorem lookAlikeBody_captured
    : (WireFrame.data 0 lookAlikeHeader lookAlikeBody).Accepted sampleExternals {}
      ∧ Held (max defaultScanBufferBytes 1024)
          [xorFf (stream [.data 0 lookAlikeHeader lookAlikeBody])]
          [.data 0 lookAlikeHeader lookAlikeBody]
      ∧ (feedAll sampleExternals (.new {})
            [xorFf (stream [.data 0 lookAlikeHeader lookAlikeBody])]).1.map
          (fun event => match event with
            | .dataBlock segment => some segment.content
            | _ => none)
        = [some (toUtf8 "/ServerList/a:1".toList)]
      ∧ [WireFrame.data 0 lookAlikeHeader lookAlikeBody].filterMap list? = []
      ∧ (QbtServerListWireScanner.new defaultScanBufferBytes).capturedAll
            [xorFf (stream [.data 0 lookAlikeHeader lookAlikeBody])]
        = [xorFf lookAlikeBody] := by
  refine ⟨?_, ?_, by decide +kernel, rfl, by decide +kernel⟩
  · exact .data (by decide +kernel)
      (show parseHeader sampleExternals lookAlikeHeader 1024
        = .ok
            { filename := "HELLO.TXT".toList, blockNumber := 1, totalBlocks := 1
              checksum := 1341, length := 16, version := .v2, content := []
              timestampUtc := 1704070800000000000, warnings := []
              decompressionFailed := false } by decide +kernel)
      (by decide +kernel)
  · intro earlier zeros text later split
    rcases earlier with _ | ⟨first, rest⟩
    · cases split
    · simp at split

end WireFrame

end Emwin.Qbt
