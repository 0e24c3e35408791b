import Emwin.Qbt.Protocol.ScannerRuns

/-! The scanner with its bounded buffer finds what a scan of the whole stream does. -/

namespace Emwin.Qbt.QbtServerListWireScanner
open Library

/-- Observe chunks one after another: the result of every call and the scanner after it. -/
def observeAll (scanner : QbtServerListWireScanner)
    : List Bytes → List (Option Bytes × QbtServerListWireScanner)
  | [] => []
  | wire :: later =>
      scanner.observeWireChunk wire :: (scanner.observeWireChunk wire).2.observeAll later

/-- A scan from left to right, between frames or inside of the one that it has taken so far: the
next marker starts a frame, and the next zero byte ends it.
-/
def scanFrom : Option Bytes → Bytes → List Bytes
  | _, [] => []
  | none, byte :: rest =>
      if toUtf8 serverListPrefix <+: byte :: rest then scanFrom (some [byte]) rest
      else scanFrom none rest
  | some taken, byte :: rest =>
      if byte = 0 then xorFf (taken ++ [0]) :: scanFrom none rest
      else scanFrom (some (taken ++ [byte])) rest

/-- The frames of a whole decoded stream, as they are on the wire. -/
def scanStream (stream : Bytes) : List Bytes := scanFrom none stream

-----------------------------------------------------------------------------------------
-- The scan of a whole stream, run by run
-----------------------------------------------------------------------------------------

/-- A frame goes on through the next zero byte, by induction on what comes before it. -/
theorem scanFrom_taken {run : Bytes} (free : 0 ∉ run) (taken rest : Bytes)
    : scanFrom (some taken) (run ++ 0 :: rest)
      = xorFf (taken ++ run ++ [0]) :: scanFrom none rest := by
  induction run generalizing taken with
  | nil => simp [scanFrom]
  | cons byte run ih =>
      rw [List.mem_cons, not_or] at free
      rw [List.cons_append, scanFrom, if_neg (Ne.symm free.1), ih free.2]
      simp

theorem scanFrom_unterminated {run : Bytes} (free : 0 ∉ run) (taken : Bytes)
    : scanFrom (some taken) run = [] := by
  induction run generalizing taken with
  | nil => rfl
  | cons byte run ih =>
      rw [List.mem_cons, not_or] at free
      rw [scanFrom, if_neg (Ne.symm free.1), ih free.2]

/-- No marker goes on over a zero byte. -/
theorem marker_prefix_iff (run rest : Bytes)
    : toUtf8 serverListPrefix <+: run ++ 0 :: rest ↔ toUtf8 serverListPrefix <+: run := by
  refine ⟨fun starts => ?_, fun starts => starts.trans (List.prefix_append _ _)⟩
  have closed : run ++ [0] <+: run ++ 0 :: rest := ⟨rest, by simp⟩
  have none {longer : Bytes} (inside : run ++ [0] <+: longer) : longer ≠ toUtf8 serverListPrefix := by
    rintro rfl
    exact marker_foreign (inside.subset (by simp))
  rcases List.prefix_or_prefix_of_prefix starts closed with within | beyond
  · rcases List.prefix_concat_iff.mp within with same | within
    · exact absurd same.symm (none List.prefix_rfl)
    · exact within
  · exact absurd rfl (none beyond)

/-- A run closed by a zero byte gives its frame, by induction on the run. -/
theorem scanFrom_run {run : Bytes} (free : 0 ∉ run) (rest : Bytes)
    : scanFrom none (run ++ 0 :: rest) = (frameOf run).toList ++ scanFrom none rest := by
  induction run with
  | nil =>
      have foreign : ¬ toUtf8 serverListPrefix <+: 0 :: rest := by
        rw [← List.nil_append (0 :: rest), marker_prefix_iff]
        decide
      rw [List.nil_append, scanFrom, if_neg foreign, frameOf_nil]
      rfl
  | cons byte run ih =>
      rw [List.mem_cons, not_or] at free
      have inRun := marker_prefix_iff (byte :: run) rest
      rw [List.cons_append] at inRun ⊢
      rw [scanFrom]
      by_cases first : toUtf8 serverListPrefix <+: byte :: run
      · rw [if_pos (inRun.mpr first), scanFrom_taken free.2]
        rw [frameOf, markedEnd, windowPosition_of_start first]
        rfl
      · have later : frameOf (byte :: run) = frameOf run := by
          rw [frameOf, frameOf, markedEnd, markedEnd, windowPosition, if_neg first,
            Option.map_map (List.drop · _)]
          rfl
        rw [if_neg (mt inRun.mp first), ih free.2, later]

theorem scanFrom_open {run : Bytes} (free : 0 ∉ run) : scanFrom none run = [] := by
  induction run with
  | nil => rfl
  | cons byte run ih =>
      rw [List.mem_cons, not_or] at free
      rw [scanFrom]
      split
      · exact scanFrom_unterminated free.2 _
      · exact ih free.2

/-- The code's loop over a whole stream is this scan, by induction on the runs. -/
theorem scanStream_eq (stream : Bytes) : scanStream stream = (captureLoop.run stream).1 := by
  rw [captureLoop_runs, scanStream]
  induction stream using runs_induction isZero with
  | free run free =>
      rw [scanFrom_open (free_isZero.mp free), (closedRuns_free free).1]
      rfl
  | stopped run last rest free stops ih =>
      obtain rfl : last = 0 := by simpa [isZero] using stops
      rw [scanFrom_run (free_isZero.mp free), ih, (closedRuns_stop free stops rest).1,
        List.filterMap_cons]
      cases frameOf run <;> rfl

-----------------------------------------------------------------------------------------
-- The bounded buffer
-----------------------------------------------------------------------------------------

/-- The buffer stays within its limit, by induction on the chunks. -/
theorem observeAll_length_le (scanner : QbtServerListWireScanner) (chunks : List Bytes)
    : ∀ outcome ∈ scanner.observeAll chunks,
        outcome.2.decodedBuffer.length ≤ scanner.maxBufferBytes := by
  induction chunks generalizing scanner with
  | nil => intro outcome member; cases member
  | cons wire later ih =>
      intro outcome member
      rcases List.mem_cons.mp member with rfl | member
      · refine (observeWireChunk_keeps scanner wire).1.length_le.trans ?_
        simp only [searched, List.length_drop]
        omega
      · exact ih (scanner.observeWireChunk wire).2 outcome member

/-- The last result of the calls is the last frame captured, by induction on the chunks. -/
theorem getLast_observeAll (scanner : QbtServerListWireScanner) (chunks : List Bytes)
    : ((scanner.observeAll chunks).filterMap Prod.fst).getLast?
      = (scanner.capturedAll chunks).getLast? := by
  induction chunks generalizing scanner with
  | nil => rfl
  | cons wire later ih =>
      rw [observeAll, capturedAll, List.getLast?_append, ← ih, List.filterMap_cons,
        observeWireChunk_reports]
      cases last : (scanner.captured wire).getLast? with
      | none => simp
      | some frame => rw [List.getLast?_cons, Option.or_some]

theorem frameOf_length {run frame : Bytes} (marked : frameOf run = some frame)
    : ∃ start,
        windowPosition (toUtf8 serverListPrefix) run = some start
        ∧ frame.length = run.length - start + 1 := by
  obtain ⟨text, ends, rfl⟩ := Option.map_eq_some_iff.mp marked
  obtain ⟨start, found, rfl⟩ := Option.map_eq_some_iff.mp ends
  exact ⟨start, found, by simp [xorFf]⟩

/-- A cut in front of the marker is not seen. -/
theorem frameOf_drop {run : Bytes} {count : Nat}
    (before : ∀ frame ∈ frameOf run, count + frame.length ≤ run.length + 1)
    : frameOf (run.drop count) = frameOf run := by
  cases marked : frameOf run with
  | none =>
      simp only [frameOf, markedEnd, Option.map_eq_none_iff, windowPosition_eq_none_iff] at marked ⊢
      exact fun inner => marked (inner.trans (List.drop_suffix _ _).isInfix)
  | some frame =>
      obtain ⟨start, found, length⟩ := frameOf_length marked
      have bound := before frame marked
      have inside := (windowPosition_split found).2
      have early : count ≤ start := by omega
      rw [← marked]
      unfold frameOf markedEnd
      rw [windowPosition_drop found early, found, Option.map_some, Option.map_some, List.drop_drop,
        Nat.add_sub_cancel' early]
      rfl

/-- If every frame of the whole stream fits the buffer together with a chunk, then the last frame
that the calls return is the last frame of the whole stream, and the buffer stays within its limit.
-/
theorem scanStream_observed {maxBufferBytes chunkBytes : Nat} (enough : 1024 ≤ maxBufferBytes)
    {chunks : List Bytes} (small : ∀ chunk ∈ chunks, chunk.length ≤ chunkBytes)
    (fits
      : ∀ frame ∈ scanStream (xorFf chunks.flatten), frame.length + chunkBytes ≤ maxBufferBytes)
    : (((new maxBufferBytes).observeAll chunks).filterMap Prod.fst).getLast?
        = (scanStream (xorFf chunks.flatten)).getLast?
      ∧ ∀ outcome ∈ (new maxBufferBytes).observeAll chunks,
          outcome.2.decodedBuffer.length ≤ maxBufferBytes := by
  have limit : max maxBufferBytes 1024 = maxBufferBytes := max_eq_left enough
  have stream : xorFf chunks.flatten = (chunks.map xorFf).flatten := List.map_flatten
  rw [scanStream_eq, stream, captureLoop_runs] at fits
  constructor
  · rw [getLast_observeAll, capturedAll_new, limit, scanStream_eq, stream, captureLoop_runs]
    refine congrArg List.getLast? (@filterMap_views _ _ isZero frameOf maxBufferBytes chunkBytes []
      (chunks.map xorFf) .nil ?_ ?_)
    · intro read member
      obtain ⟨chunk, present, rfl⟩ := List.mem_map.mp member
      rw [xorFf, List.length_map]
      exact small chunk present
    · intro run member count bound
      refine frameOf_drop fun frame marked => ?_
      obtain ⟨start, found, length⟩ := frameOf_length marked
      have fit := fits frame (List.mem_filterMap.mpr ⟨run, member, marked⟩)
      omega
  · intro outcome member
    have bound := observeAll_length_le (new maxBufferBytes) chunks outcome member
    rwa [show (new maxBufferBytes).maxBufferBytes = maxBufferBytes from limit] at bound

/-- Two frames, the second one cut inside its marker. -/
theorem twoFrames_observed
    : (((new 1024).observeAll
          [xorFf (toUtf8 "x/ServerList/a:1\x00/Ser".toList),
            xorFf (toUtf8 "verList/b:2\x00".toList)]).filterMap Prod.fst).getLast?
      = some (xorFf (toUtf8 "/ServerList/b:2\x00".toList)) := by
  refine (@scanStream_observed 1024 24 (by decide) _ ?_ ?_).1.trans (by decide +kernel)
  · decide
  · decide +kernel

end Emwin.Qbt.QbtServerListWireScanner
