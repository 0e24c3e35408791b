import Emwin.Library.Runs
import Emwin.Qbt.Protocol.ServerListWire

/-! What the server-list scanner captures from a stream: it depends on the zero bytes and on
how far its buffer reaches back when one comes, not on the rest of its state.
-/

namespace Emwin.Qbt
open Library

/-- Zero bytes end server lists. -/
def isZero (byte : UInt8) : Bool := byte == 0

theorem free_isZero {bytes : Bytes} : Free isZero bytes ↔ 0 ∉ bytes := by
  constructor
  · intro free zero
    have clash := free 0 zero
    simp [isZero] at clash
  · intro none byte member
    have nonzero : byte ≠ 0 := fun zero => none (zero ▸ member)
    simpa [isZero] using nonzero

theorem findSubsequence_eq {haystack needle : Bytes} (some : needle ≠ [])
    : findSubsequence haystack needle = windowPosition needle haystack := by
  unfold findSubsequence
  split_ifs with short
  · rcases short with empty | short
    · exact absurd empty some
    · symm
      rw [windowPosition_eq_none_iff]
      intro inside
      have length := inside.length_le
      omega
  · rfl

namespace QbtServerListWireScanner

/-- The end of a run from its first marker on. -/
def markedEnd (run : Bytes) : Option Bytes :=
  (windowPosition (toUtf8 serverListPrefix) run).map run.drop

/-- The frame that a run closed by a zero byte is captured as. -/
def frameOf (run : Bytes) : Option Bytes := (markedEnd run).map fun text => xorFf (text ++ [0])

/-- The frames captured while a chunk is observed; the last of them is reported. -/
def captured (scanner : QbtServerListWireScanner) (wire : Bytes) : List Bytes :=
  (captureLoop.run (scanner.searched wire)).1

theorem observeWireChunk_reports (scanner : QbtServerListWireScanner) (wire : Bytes)
    : (scanner.observeWireChunk wire).1 = (scanner.captured wire).getLast? := rfl

/-- The frames captured from chunk after chunk. -/
def capturedAll : QbtServerListWireScanner → List Bytes → List Bytes
  | _, [] => []
  | scanner, wire :: later =>
      scanner.captured wire ++ (scanner.observeWireChunk wire).2.capturedAll later

theorem marker_foreign : 0 ∉ toUtf8 serverListPrefix := by decide

theorem marker_ne_nil : toUtf8 serverListPrefix ≠ [] := by decide

theorem frameOf_nil : frameOf [] = none := by decide

-----------------------------------------------------------------------------------------
-- The capture loop, run by run
-----------------------------------------------------------------------------------------

theorem capture_unmarked {buffer : Bytes}
    (absent : windowPosition (toUtf8 serverListPrefix) buffer = none)
    : capture buffer = ⟨[], buffer, false⟩ := by
  simp only [capture, findSubsequence_eq marker_ne_nil, absent]

theorem capture_unterminated {buffer : Bytes} (free : 0 ∉ buffer)
    : capture buffer = ⟨[], buffer, false⟩ := by
  unfold capture
  split
  · rfl
  · next start found =>
      have none : 0 ∉ buffer.drop start := fun zero => free (List.mem_of_mem_drop zero)
      rw [QbtProtocolDecoder.findIdx?_unterminated none]

theorem capture_marked {run rest : Bytes} {start : Nat} (free : 0 ∉ run)
    (found : windowPosition (toUtf8 serverListPrefix) run = some start)
    : capture (run ++ 0 :: rest) = ⟨[xorFf (run.drop start ++ [0])], rest, true⟩ := by
  have inside : start ≤ run.length := by
    have bound := (windowPosition_split found).2
    omega
  have ends : ((run ++ 0 :: rest).drop start).findIdx? (· == 0)
      = some (run.drop start).length := by
    rw [List.drop_append_of_le_length inside]
    exact QbtProtocolDecoder.findIdx?_zero fun zero => free (List.mem_of_mem_drop zero)
  have length : start + (run.drop start).length + 1 = (run ++ [0]).length := by
    simp only [List.length_drop, List.length_append, List.length_singleton]
    omega
  have cut : run ++ 0 :: rest = run ++ [0] ++ rest := by simp
  simp only [capture, findSubsequence_eq marker_ne_nil, windowPosition_append _ found, ends,
    length]
  rw [cut, List.take_left, List.drop_left, List.drop_append_of_le_length inside]

/-- A run without a marker does not change what is captured behind it. -/
theorem capture_skip {run rest : Bytes}
    (absent : windowPosition (toUtf8 serverListPrefix) run = none)
    : (capture (run ++ 0 :: rest)).events = (capture rest).events
      ∧ (capture (run ++ 0 :: rest)).progressed = (capture rest).progressed
      ∧ ((capture rest).progressed = true
        → (capture (run ++ 0 :: rest)).state = (capture rest).state) := by
  have search := windowPosition_skip rest absent marker_foreign
  cases found : windowPosition (toUtf8 serverListPrefix) rest with
  | none =>
      rw [found] at search
      rw [capture_unmarked found, capture_unmarked search]
      exact ⟨rfl, rfl, nofun⟩
  | some start =>
      rw [found, Option.map_some] at search
      have behind : (run ++ 0 :: rest).drop (start + (run.length + 1)) = rest.drop start := by
        rw [Nat.add_comm, ← List.drop_drop]
        congr 1
        rw [List.drop_append, List.drop_eq_nil_of_le (by omega)]
        simp
      simp only [capture, findSubsequence_eq marker_ne_nil, found, search, behind]
      cases ends : (rest.drop start).findIdx? (· == 0) with
      | none => exact ⟨rfl, rfl, nofun⟩
      | some stop =>
          have shift : start + (run.length + 1) + stop + 1
              = (run ++ [0]).length + (start + stop + 1) := by
            simp only [List.length_append, List.length_singleton]
            omega
          have cut : run ++ 0 :: rest = run ++ [0] ++ rest := by simp
          refine ⟨?_, rfl, fun _ => ?_⟩
          · dsimp only
            rw [shift, cut, List.take_length_add_append, List.drop_append,
              List.drop_eq_nil_of_le (by simp)]
            simp only [List.nil_append, List.length_append, List.length_singleton]
            rw [show start + (run.length + 1) - (run.length + 1) = start by omega]
          · dsimp only
            rw [shift, cut, List.drop_length_add_append]

/-- The loop captures one frame from each closed run that holds a marker, by induction on the
runs.
-/
theorem captureLoop_runs (buffer : Bytes)
    : (captureLoop.run buffer).1
      = (closedRuns isZero buffer).filterMap fun run => frameOf run.1 := by
  induction buffer using runs_induction isZero with
  | free run free =>
      have stopped := capture_unterminated (free_isZero.mp free)
      have halts : (captureLoop.step run).progressed = false := by
        rw [captureLoop_step, stopped]
      rw [captureLoop.run_of_stopped halts, captureLoop_step, stopped,
        (closedRuns_free free).1]
      rfl
  | stopped run last rest free stops ih =>
      obtain rfl : last = 0 := by simpa [isZero] using stops
      rw [(closedRuns_stop free stops rest).1, List.filterMap_cons, ← ih]
      cases found : windowPosition (toUtf8 serverListPrefix) run with
      | none =>
          have unmarked : frameOf run = none := by simp [frameOf, markedEnd, found]
          obtain ⟨events, progressed, state⟩ := @capture_skip run rest found
          rw [unmarked]
          dsimp only
          rw [captureLoop.run_eq, captureLoop.run_eq rest, captureLoop_step, events, progressed]
          split
          · next moves => rw [state moves]
          · rfl
      | some start =>
          have taken := @capture_marked run rest start (free_isZero.mp free) found
          have marked : frameOf run = some (xorFf (run.drop start ++ [0])) := by
            simp [frameOf, markedEnd, found]
          have moves : (captureLoop.step (run ++ 0 :: rest)).progressed = true := by
            rw [captureLoop_step, taken]
          rw [captureLoop.run_of_progressed moves, captureLoop_step, taken, marked]
          rfl

/-- A part of a buffer at its end holds no complete frame if the buffer holds none. -/
theorem captureLoop_idle_suffix {buffer part : Bytes} (idle : (captureLoop.run buffer).1 = [])
    (inside : part <:+ buffer)
    : (captureLoop.run part).1 = [] := by
  obtain ⟨before, rfl⟩ := inside
  rw [captureLoop_runs] at idle ⊢
  have cut : part = (before ++ part).drop before.length := by simp
  rw [cut, filterMap_closedRuns_drop frameOf_nil, List.filterMap_eq_nil_iff]
  rintro ⟨rest, last⟩ member
  obtain ⟨front, run, tail, split, closed, free, stops, rfl⟩ := mem_cutRuns member
  have whole : frameOf run = none := by
    refine List.filterMap_eq_nil_iff.mp idle (run, last) ?_
    rw [split]
    exact mem_closedRuns_of_split closed free stops
  simp only [frameOf, markedEnd, Option.map_eq_none_iff, windowPosition_eq_none_iff] at whole ⊢
  exact fun inner => whole (inner.trans (List.drop_suffix _ _).isInfix)

-----------------------------------------------------------------------------------------
-- The buffer between chunks
-----------------------------------------------------------------------------------------

/-- A buffer that serves as well as the open run of the whole stream would: it holds no
complete frame, and all of the open run or as much as it can.
-/
structure Trails (limit : Nat) (buffer opened : Bytes) : Prop where
  idle : (captureLoop.run buffer).1 = []
  free : Free isZero opened
  inside : ∃ closed, Closed isZero closed ∧ buffer <:+ closed ++ opened
  whole : opened <:+ buffer ∨ buffer.length = limit

theorem captureLoop_append_free {left right : Bytes} (free : Free isZero right)
    (closed : Closed isZero left)
    : (captureLoop.run (left ++ right)).1 = (captureLoop.run left).1 := by
  rw [captureLoop_runs, captureLoop_runs, (closedRuns_append left right).1,
    openRun_of_closed closed, List.nil_append, (closedRuns_free free).1, List.append_nil]

theorem rtake_append_of_le {left right : Bytes} {limit : Nat} (enough : limit ≤ right.length)
    : (left ++ right).rtake limit = right.rtake limit := by
  unfold List.rtake
  rw [List.length_append, List.drop_append, List.drop_eq_nil_of_le (by omega), List.nil_append]
  congr 1
  omega

/-- With the next chunk the buffer and the open run show the same frames. -/
theorem Trails.shows {limit : Nat} {buffer opened : Bytes} (trails : Trails limit buffer opened)
    (chunk : Bytes)
    : (captureLoop.run ((buffer ++ chunk).rtake limit)).1
      = (captureLoop.run ((opened ++ chunk).rtake limit)).1 := by
  obtain ⟨closed, ends, inside⟩ := trails.inside
  by_cases all : opened <:+ buffer
  · obtain ⟨front, rfl⟩ := all
    rw [List.append_assoc]
    by_cases enough : limit ≤ (opened ++ chunk).length
    · rw [rtake_append_of_le enough]
    · -- the closed part in front of the open run shows nothing
      have shut : Closed isZero front := by
        refine ends.of_suffix ?_
        obtain ⟨before, same⟩ := inside
        rw [← List.append_assoc] at same
        exact ⟨before, List.append_cancel_right same⟩
      have idle : (captureLoop.run front).1 = [] := by
        rw [← captureLoop_append_free trails.free shut]
        exact trails.idle
      have short : (opened ++ chunk).rtake limit = opened ++ chunk := by
        unfold List.rtake
        rw [Nat.sub_eq_zero_of_le (by omega), List.drop_zero]
      have long : (front ++ (opened ++ chunk)).rtake limit
          = front.rtake (limit - (opened ++ chunk).length) ++ (opened ++ chunk) := by
        unfold List.rtake
        rw [List.drop_append_of_le_length (by simp only [List.length_append] at *; omega)]
        congr 2
        simp only [List.length_append] at *
        omega
      have part : front.rtake (limit - (opened ++ chunk).length) <:+ front :=
        List.drop_suffix ..
      have none := captureLoop_idle_suffix idle part
      rw [short, long]
      rw [captureLoop_runs] at none ⊢
      rw [captureLoop_runs, (closedRuns_append _ (opened ++ chunk)).1,
        openRun_of_closed (shut.of_suffix part), List.filterMap_append, none]
      rfl
  · have full : buffer.length = limit := trails.whole.resolve_left all
    have short : buffer <:+ opened := by
      refine (List.suffix_or_suffix_of_suffix inside
        (List.suffix_append closed opened)).resolve_right all
    obtain ⟨front, rfl⟩ := short
    have enough : limit ≤ (buffer ++ chunk).length := by
      rw [List.length_append]
      omega
    rw [List.append_assoc, rtake_append_of_le enough]

/-- The buffer goes on serving after the chunk. -/
theorem Trails.observe {scanner : QbtServerListWireScanner} {opened : Bytes}
    (trails : Trails scanner.maxBufferBytes scanner.decodedBuffer opened) (wire : Bytes)
    : Trails scanner.maxBufferBytes (scanner.observeWireChunk wire).2.decodedBuffer
        (openRun isZero (opened ++ xorFf wire)) := by
  obtain ⟨closed, ends, inside⟩ := trails.inside
  obtain ⟨shut, split, stops, free⟩ := openRun_split isZero (opened ++ xorFf wire)
  obtain ⟨kept, waits⟩ := scanner.observeWireChunk_keeps wire
  have searched : scanner.searched wire <:+ scanner.decodedBuffer ++ xorFf wire :=
    List.drop_suffix ..
  have within : scanner.decodedBuffer ++ xorFf wire
      <:+ closed ++ shut ++ openRun isZero (opened ++ xorFf wire) := by
    rw [List.append_assoc, ← split, ← List.append_assoc]
    obtain ⟨before, same⟩ := inside
    exact ⟨before, by rw [← List.append_assoc, same]⟩
  have result := (kept.trans searched).trans within
  refine ⟨?_, free, ⟨closed ++ shut, ends.append stops, result⟩, ?_⟩
  · rw [captureLoop.run_of_stopped waits]
    rcases capture_cases (scanner.observeWireChunk wire).2.decodedBuffer with
      idle | ⟨skipped, entries, rest, -, -, taken⟩
    · rw [captureLoop_step, idle]
    · rw [taken] at waits
      cases waits
  · rcases captureLoop_captured (scanner.searched wire) with
      ⟨-, same⟩ | ⟨skipped, entries, cut, -, -⟩
    · -- nothing was captured: all that was searched is kept
      have same : (scanner.observeWireChunk wire).2.decodedBuffer = scanner.searched wire := same
      rw [same]
      by_cases full : scanner.maxBufferBytes ≤ (scanner.decodedBuffer ++ xorFf wire).length
      · refine .inr ?_
        simp only [QbtServerListWireScanner.searched, List.length_drop]
        omega
      · have all : scanner.searched wire = scanner.decodedBuffer ++ xorFf wire := by
          unfold QbtServerListWireScanner.searched
          rw [Nat.sub_eq_zero_of_le (by omega), List.drop_zero]
        have before : opened <:+ scanner.decodedBuffer := by
          refine trails.whole.resolve_right fun length => full ?_
          rw [← length, List.length_append]
          omega
        rw [all]
        obtain ⟨front, same⟩ := before
        refine .inl (List.IsSuffix.trans ⟨shut, split.symm⟩ ⟨front, ?_⟩)
        rw [← List.append_assoc, same]
    · -- the buffer begins behind a zero byte, so the open run is in it
      have cut : scanner.searched wire
          = skipped ++ (toUtf8 serverListPrefix ++ entries
            ++ 0 :: (scanner.observeWireChunk wire).2.decodedBuffer) := cut
      have behind : 0 :: (scanner.observeWireChunk wire).2.decodedBuffer
          <:+ closed ++ shut ++ openRun isZero (opened ++ xorFf wire) := by
        refine List.IsSuffix.trans ?_ (searched.trans within)
        rw [cut]
        exact ⟨skipped ++ (toUtf8 serverListPrefix ++ entries), by simp⟩
      refine .inl ?_
      rcases List.suffix_or_suffix_of_suffix result (List.suffix_append (closed ++ shut) _) with
        short | enough
      · rcases List.suffix_or_suffix_of_suffix behind
          (List.suffix_append (closed ++ shut) _) with inOpen | covers
        · have clash := free 0 (inOpen.mem (by simp))
          simp [isZero] at clash
        · rcases List.suffix_cons_iff.mp covers with whole | part
          · have clash := free 0 (by rw [whole]; simp)
            simp [isZero] at clash
          · exact part
      · exact enough

/-- A new scanner captures the frames of the runs that its window shows, chunk by chunk. -/
theorem Trails.capturedAll {scanner : QbtServerListWireScanner} {opened : Bytes}
    (trails : Trails scanner.maxBufferBytes scanner.decodedBuffer opened)
    (chunks : List Bytes)
    : scanner.capturedAll chunks
      = (views isZero scanner.maxBufferBytes opened (chunks.map xorFf)).filterMap
          fun run => frameOf run.1 := by
  induction chunks generalizing scanner opened with
  | nil => rfl
  | cons wire later ih =>
      have rest
          : (scanner.observeWireChunk wire).2.capturedAll later
            = (views isZero scanner.maxBufferBytes (openRun isZero (opened ++ xorFf wire))
                (later.map xorFf)).filterMap fun run => frameOf run.1 :=
        @ih (scanner.observeWireChunk wire).2 _ (trails.observe wire)
      rw [QbtServerListWireScanner.capturedAll, List.map_cons, views, List.filterMap_append,
        ← filterMap_closedRuns_drop frameOf_nil, ← captureLoop_runs, rest]
      exact congrArg (· ++ _) (trails.shows (xorFf wire))

theorem capturedAll_new (maxBufferBytes : Nat) (chunks : List Bytes)
    : (new maxBufferBytes).capturedAll chunks
      = (views isZero (max maxBufferBytes 1024) [] (chunks.map xorFf)).filterMap
          fun run => frameOf run.1 := by
  have fresh : Trails (max maxBufferBytes 1024) [] [] :=
    ⟨by decide +kernel, .nil, ⟨[], .inl rfl, List.nil_suffix⟩, .inl List.nil_suffix⟩
  exact @Trails.capturedAll (new maxBufferBytes) [] fresh chunks

end QbtServerListWireScanner

end Emwin.Qbt
