import Emwin.Library.Recent
import Emwin.Qbt.Relay.Runtime

/-! Server lists from upstream: when a cached frame comes from one connection. -/

namespace Emwin.Qbt
open Library
open QbtServerListWireScanner (capture)

/-- What upstream has sent: on the connection that was made last, on each one before, and
the frames that were handed to the cache.
-/
structure UpstreamRecord where
  current : Bytes := []
  earlier : List Bytes := []
  handed : List Bytes := []
  deriving DecidableEq, Repr

namespace UpstreamRecord

/-- The byte streams of all connections. -/
def streams (record : UpstreamRecord) : List Bytes := record.earlier ++ [record.current]

/-- A new connection has sent nothing yet. -/
def connect (record : UpstreamRecord) : UpstreamRecord :=
  { record with current := [], earlier := record.streams }

/-- Bytes were read, and the scanner may have found a frame in them. -/
def read (record : UpstreamRecord) (bytes : Bytes) (found : Option Bytes) : UpstreamRecord :=
  { record with current := record.current ++ bytes, handed := record.handed ++ found.toList }

end UpstreamRecord

namespace Relay

/-- The record after a step. -/
def noteUpstream (relay : Relay) (action : RelayAction) (record : UpstreamRecord)
    : UpstreamRecord :=
  match action with
  | .upstream (.connect true) => record.connect
  | .upstream (.read bytes) =>
      if bytes = [] then record
      else record.read bytes (relay.upstream.scanner.observeWireChunk bytes).1
  | _ => record

/-- The relay with a record of what upstream has sent. -/
def upstreamRecorded (config : QbtRelayConfig)
    : Machine (Relay × UpstreamRecord) RelayAction :=
  (machine config).record {} noteUpstream

/-- The last complete frame in what the scanner searches at a read does not begin in bytes
that an earlier connection left there.
-/
def BeginsOnConnection (recorded : Relay × UpstreamRecord) : RelayAction → Prop
  | .upstream (.read bytes) =>
      ∀ skipped entries rest,
        recorded.1.upstream.scanner.searched bytes
          = skipped ++ (toUtf8 serverListPrefix ++ entries ++ 0 :: rest)
        → 0 ∉ entries
        → (capture rest).progressed = false
        → (recorded.1.upstream.scanner.searched bytes).length
            - (recorded.2.current ++ bytes).length
          ≤ skipped.length
  | _ => True

/-- Every frame that was handed on is a piece of one connection's stream, and the cache holds
the last of them, or the list that the relay built itself.
-/
structure ListsTraced (config : QbtRelayConfig) (relay : Relay) (record : UpstreamRecord)
    : Prop where
  handed
    : ∀ frame ∈ record.handed,
        IsServerListWire frame ∧ ∃ stream ∈ record.streams, frame <:+: stream
  cached
    : relay.state.latestServerListWire
      = record.handed.getLast?.getD (buildServerListWire config.upstreamServers)

/-- The scanner's buffer ends with what it was sent last. -/
def BufferTraced (relay : Relay) (record : UpstreamRecord) : Prop :=
  SameEnd relay.upstream.scanner.decodedBuffer (xorFf record.current)

-----------------------------------------------------------------------------------------
-- Steps that the scanner does not see
-----------------------------------------------------------------------------------------

section
variable {config : QbtRelayConfig} {relay next : Relay} {action : RelayAction}

/-- No step of a session touches the cache, by cases on the step. -/
theorem SessionStep.wire {index : Nat} {session : Session} {result : QbtRelayState × Session}
    (step : SessionStep config relay index session action result)
    : result.1.latestServerListWire = relay.state.latestServerListWire := by
  cases step with
  | check clock phase =>
      have unfinished : session.phase ≠ .ended := by simp [phase]
      exact (Session.check_serves config relay.shutdown clock.instant relay.state
        unfinished).wire
  | shutdownSeen phase => rfl
  | read clock result phase =>
      have unfinished : session.phase ≠ .ended := by simp [phase]
      exact (Session.onRead_serves clock relay.state result unfinished).wire
  | receive received nextChunk phase given =>
      have unfinished : session.phase ≠ .ended := by simp [phase]
      exact (Session.onReceived_serves relay.state received nextChunk unfinished).wire
  | finish reason phase ended => rfl
  | write move written => exact (Session.write_serves written).wire

/-- Everything a step does to the scanner and the cache: it reads bytes, or nothing. -/
theorem step_scanner (taken : relay.step config action = some next)
    : (∃ bytes, bytes ≠ [] ∧ action = .upstream (.read bytes) ∧ next = relay.observe bytes)
      ∨ (∀ bytes, bytes ≠ [] → action ≠ .upstream (.read bytes))
        ∧ next.upstream.scanner = relay.upstream.scanner
        ∧ next.state.latestServerListWire = relay.state.latestServerListWire := by
  cases step_taken taken with
  | @upstream move next moved =>
      rcases upstreamStep_cases moved with
        ⟨bytes, some, rfl, rfl⟩
        | ⟨unread, phase, serverIndex, attempts, successes, fails, disconnects, rfl⟩
      · exact .inl ⟨bytes, some, rfl, rfl⟩
      · refine .inr ⟨fun bytes some same => ?_, rfl, rfl⟩
        exact unread bytes some (RelayAction.upstream.inj same)
  | accepted peer clock =>
      refine .inr ⟨nofun, ?_⟩
      unfold accept
      split <;> exact ⟨rfl, rfl⟩
  | flagged shutdown acceptEnded control =>
      refine .inr ⟨?_, rfl, rfl⟩
      rcases control with rfl | rfl | rfl <;> exact nofun
  | session found step =>
      refine .inr ⟨?_, rfl, step.wire⟩
      cases step <;> exact nofun
  | ticked paused => exact .inr ⟨nofun, rfl, rfl⟩

theorem noteUpstream_unread (record : UpstreamRecord)
    (unread : ∀ bytes, bytes ≠ [] → action ≠ .upstream (.read bytes))
    : noteUpstream relay action record = record
      ∨ noteUpstream relay action record = record.connect := by
  unfold noteUpstream
  split
  · exact .inr rfl
  · next bytes =>
      by_cases empty : bytes = []
      · exact .inl (if_pos empty)
      · exact absurd rfl (unread bytes empty)
  · exact .inl rfl

-----------------------------------------------------------------------------------------
-- Tracing the buffer and the frames
-----------------------------------------------------------------------------------------

variable {record : UpstreamRecord}

/-- What the scanner searches ends as the connection's stream does. -/
theorem BufferTraced.searched (traced : BufferTraced relay record) (bytes : Bytes)
    : SameEnd (relay.upstream.scanner.searched bytes) (xorFf (record.current ++ bytes)) := by
  rw [xorFf_append]
  exact (traced.append (xorFf bytes)).of_suffix (List.drop_suffix _ _)

theorem BufferTraced.step (traced : BufferTraced relay record)
    (taken : relay.step config action = some next)
    : BufferTraced next (noteUpstream relay action record) := by
  rcases step_scanner taken with ⟨bytes, some, rfl, rfl⟩ | ⟨unread, scanner, -⟩
  · rw [noteUpstream, if_neg some]
    have kept := (relay.upstream.scanner.observeWireChunk_keeps bytes).1
    exact (traced.searched bytes).of_suffix kept
  · unfold BufferTraced
    rw [scanner]
    rcases noteUpstream_unread record unread with same | connected
    · rw [same]
      exact traced
    · rw [connected]
      exact .inr (List.nil_suffix)

/-- A frame that begins on the connection is a piece of its stream. -/
theorem BufferTraced.frame {bytes frame : Bytes} (traced : BufferTraced relay record)
    (begins : BeginsOnConnection (relay, record) (.upstream (.read bytes)))
    (found : (relay.upstream.scanner.observeWireChunk bytes).1 = some frame)
    : frame <:+: record.current ++ bytes := by
  obtain ⟨skipped, entries, split, body, rfl⟩ :=
    QbtServerListWireScanner.observeWireChunk_found found
  have idle := (relay.upstream.scanner.observeWireChunk_keeps bytes).2
  have late := begins skipped entries _ split body idle
  have same := traced.searched bytes
  generalize (relay.upstream.scanner.observeWireChunk bytes).2.decodedBuffer = rest at *
  have pieces : skipped ++ (toUtf8 serverListPrefix ++ entries ++ 0 :: rest)
      = skipped ++ ((toUtf8 serverListPrefix ++ entries ++ [0]) ++ rest) := by simp
  rw [split, pieces] at same late
  have length : (xorFf (record.current ++ bytes)).length = (record.current ++ bytes).length :=
    List.length_map _
  obtain ⟨front, back, stream⟩ := same.infix_of_late (length ▸ late)
  refine ⟨xorFf front, xorFf back, ?_⟩
  rw [← xorFf_append, ← xorFf_append, stream, xorFf_xorFf]

theorem ListsTraced.step {given : QbtRelayConfig} (lists : ListsTraced given relay record)
    (traced : BufferTraced relay record) (begins : BeginsOnConnection (relay, record) action)
    (taken : relay.step config action = some next)
    : ListsTraced given next (noteUpstream relay action record) := by
  rcases step_scanner taken with ⟨bytes, some, rfl, rfl⟩ | ⟨unread, -, wire⟩
  · rw [noteUpstream, if_neg some]
    constructor
    · intro frame member
      rcases List.mem_append.mp member with old | new
      · obtain ⟨framed, stream, listed, piece⟩ := lists.handed frame old
        refine ⟨framed, ?_⟩
        rcases List.mem_append.mp listed with before | now
        · exact ⟨stream, List.mem_append_left _ before, piece⟩
        · rw [List.mem_singleton.mp now] at piece
          exact ⟨_, List.mem_append_right _ (List.mem_singleton_self _),
            piece.trans (List.prefix_append _ _).isInfix⟩
      · have found := Option.mem_toList.mp new
        exact ⟨QbtServerListWireScanner.observeWireChunk_framed found, _,
          List.mem_append_right _ (List.mem_singleton_self _), traced.frame begins found⟩
    · rw [observe_cache, lists.cached, UpstreamRecord.read]
      cases (relay.upstream.scanner.observeWireChunk bytes).1 with
      | none => simp
      | some frame => simp
  · rcases noteUpstream_unread record unread with same | connected
    · rw [same]
      exact ⟨lists.handed, wire.trans lists.cached⟩
    · rw [connected]
      refine ⟨fun frame member => ?_, wire.trans lists.cached⟩
      obtain ⟨framed, stream, listed, piece⟩ := lists.handed frame member
      exact ⟨framed, stream, List.mem_append_left _ listed, piece⟩

end

-----------------------------------------------------------------------------------------
-- Whole runs
-----------------------------------------------------------------------------------------

/-- In a run whose last complete frames all begin on their connection, every frame handed on
is a piece of one connection's stream, from the marker to its first NUL.
-/
theorem lists_from_one_connection {config : QbtRelayConfig} {relay : Relay}
    {record : UpstreamRecord}
    (run : (upstreamRecorded config).Reaches BeginsOnConnection (relay, record))
    : ListsTraced config relay record := by
  have traced : BufferTraced relay record ∧ ListsTraced config relay record := by
    refine run.recorded
      (motive := fun relay record => BufferTraced relay record ∧ ListsTraced config relay record)
      ?_ ?_
    · intro relay started
      rw [started.2]
      exact ⟨.inl List.nil_suffix, nofun, rfl⟩
    · intro relay record action next traced begins step
      exact ⟨traced.1.step step, traced.2.step traced.1 begins step⟩
  exact traced.2

/-- One connection that sends one list. -/
theorem lists_from_one_connection_sample
    : ∃ relay record,
        (upstreamRecorded sampleRelayConfig).Reaches BeginsOnConnection (relay, record)
        ∧ record.handed = [buildServerListWire [("b".toList, 2)]]
        ∧ ListsTraced sampleRelayConfig relay record := by
  have computed : ((upstreamRecorded sampleRelayConfig).takes (start sampleRelayConfig, {})
      upstreamAnswers).map (fun ready =>
        (ready.1.upstream.scanner.decodedBuffer,
          ((upstreamRecorded sampleRelayConfig).step ready
            (.upstream (.read (buildServerListWire [("b".toList, 2)])))).map
            (fun recorded => recorded.2.handed)))
      = some ([], some [buildServerListWire [("b".toList, 2)]]) := by
    decide +kernel
  obtain ⟨⟨ready, before⟩, taken, facts⟩ := Option.map_eq_some_iff.mp computed
  obtain ⟨buffer, later⟩ := Prod.mk.inj facts
  obtain ⟨⟨relay, record⟩, read, handed⟩ := Option.map_eq_some_iff.mp later
  have connected
      : (upstreamRecorded sampleRelayConfig).Reaches BeginsOnConnection (ready, before) := by
    refine .takes (.start ⟨sampleRelayConfig_starts, rfl⟩) (fun state => ?_) taken
    simp [upstreamAnswers, BeginsOnConnection]
  -- nothing is left from an earlier connection
  have begins : BeginsOnConnection (ready, before)
      (.upstream (.read (buildServerListWire [("b".toList, 2)]))) := by
    intro skipped entries rest _ _ _
    simp only at buffer
    rw [QbtServerListWireScanner.searched, buffer, List.nil_append, List.length_drop,
      xorFf, List.length_map, List.length_append]
    omega
  have run := connected.step begins read
  exact ⟨relay, record, run, handed, lists_from_one_connection run⟩

/-- Upstream closes the connection and is connected to again. -/
def upstreamReconnects : List RelayAction :=
  .upstream (.read []) :: .upstream .rested :: upstreamAnswers

/-- A connection ends inside a list and the next one starts with a text that ends with a NUL:
the cache gets a list that neither of them has sent.
-/
theorem list_from_two_connections
    : ∃ relay record,
        (upstreamRecorded sampleRelayConfig).Reachable (relay, record)
        ∧ record.handed = [buildServerListWire [("a".toList, 1), ("bc".toList, 2)]]
        ∧ relay.state.latestServerListWire
          = buildServerListWire [("a".toList, 1), ("bc".toList, 2)]
        ∧ ¬ ListsTraced sampleRelayConfig relay record := by
  have computed : ((upstreamRecorded sampleRelayConfig).takes (start sampleRelayConfig, {})
      (upstreamAnswers ++ .upstream (.read (xorFf (toUtf8 "/ServerList/a:1|b".toList)))
        :: upstreamReconnects ++ [.upstream (.read (xorFf (toUtf8 "c:2\x00".toList)))])).map
        (fun recorded => (recorded.2.handed, recorded.1.state.latestServerListWire,
          decide (∃ stream ∈ recorded.2.streams,
            buildServerListWire [("a".toList, 1), ("bc".toList, 2)] <:+: stream)))
      = some ([buildServerListWire [("a".toList, 1), ("bc".toList, 2)]],
          buildServerListWire [("a".toList, 1), ("bc".toList, 2)], false) := by
    decide +kernel
  obtain ⟨⟨relay, record⟩, taken, facts⟩ := Option.map_eq_some_iff.mp computed
  simp only [Prod.mk.injEq] at facts
  obtain ⟨handed, cached, foreign⟩ := facts
  refine ⟨relay, record, .takes (.start ⟨sampleRelayConfig_starts, rfl⟩) (by simp) taken,
    handed, cached, fun lists => ?_⟩
  obtain ⟨-, piece⟩ := lists.handed _ (handed ▸ List.mem_singleton_self _)
  exact of_decide_eq_false foreign piece

end Relay

end Emwin.Qbt
