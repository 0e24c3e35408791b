import Mathlib.Algebra.BigOperators.Group.Finset.Basic
import Emwin.Qbt.Relay.Runtime

/-! Chunks on their way through the relay: where one is counted, and which of them a step
moves.
-/

namespace Emwin.Qbt
open Library

-----------------------------------------------------------------------------------------
-- One session
-----------------------------------------------------------------------------------------

/-- A chunk's length as the counters see it. -/
def chunkBytes (chunk : Bytes) : UInt64 := UInt64.ofNat chunk.length

/-- Count a chunk that was dropped. -/
def QbtRelayState.addDropped (state : QbtRelayState) (bytes : UInt64) : QbtRelayState :=
  { state with
    metrics :=
      { state.metrics with bytesDroppedTotal := state.metrics.bytesDroppedTotal + bytes } }

/-- Two states that agree on everything that counts chunks or decides about them. -/
structure SameTraffic (left right : QbtRelayState) : Prop where
  attempted : left.metrics.bytesAttemptedTotal = right.metrics.bytesAttemptedTotal
  forwarded : left.metrics.bytesForwardedTotal = right.metrics.bytesForwardedTotal
  dropped : left.metrics.bytesDroppedTotal = right.metrics.bytesDroppedTotal
  paused : left.metrics.forwardingPaused = right.metrics.forwardingPaused
  window : left.qualityWindow = right.qualityWindow

theorem SameTraffic.refl (state : QbtRelayState) : SameTraffic state state :=
  ⟨rfl, rfl, rfl, rfl, rfl⟩

namespace Session

/-- The chunks that the session has accepted and that are not settled: the one that is being
written, then the queue.
-/
def inflight (session : Session) : List Bytes :=
  match session.writer with
  | .writing chunk => chunk :: session.queue
  | _ => session.queue

/-- A writer that has ended left no queue, and a session that has ended waited for it. -/
structure Orderly (session : Session) : Prop where
  queue : session.writer = .ended → session.queue = []
  writer : session.phase = .ended → session.writer = .ended

/-- A step that is not about chunks. -/
structure Quiet (state : QbtRelayState) (session : Session)
    (result : QbtRelayState × Session)
    : Prop where
  same : SameTraffic state result.1
  inflight : result.2.inflight = session.inflight

/-- Everything the upstream receiver's branch does to chunks: it queues one, refuses it and
counts that, or loses it because it got its permits and its writer has ended.
-/
inductive Receives (state : QbtRelayState) (session : Session) (received : Received)
    : QbtRelayState × Session → Prop
  | quiet {result} (quiet : Quiet state session result)
    : Receives state session received result
  | queued {result} (chunk : Bytes) (given : received = .chunk chunk)
    (flows : state.metrics.forwardingPaused = false)
    (same : SameTraffic (state.addAttempted (chunkBytes chunk)) result.1)
    (inflight : result.2.inflight = session.inflight ++ [chunk])
    : Receives state session received result
  | refused {result} (chunk : Bytes) (given : received = .chunk chunk)
    (flows : state.metrics.forwardingPaused = false)
    (same
      : SameTraffic
          ((state.addAttempted (chunkBytes chunk)).addDropped (chunkBytes chunk)) result.1)
    (inflight : result.2.inflight = session.inflight)
    : Receives state session received result
  | lost {result} (chunk : Bytes) (given : received = .chunk chunk)
    (flows : state.metrics.forwardingPaused = false)
    (granted : permitsFor chunk ≤ session.permits) (ended : session.writer = .ended)
    (same : SameTraffic (state.addAttempted (chunkBytes chunk)) result.1)
    (inflight : result.2.inflight = session.inflight)
    : Receives state session received result

/-- Everything a move of the writer does to chunks: it settles the one it writes, and a
failure takes the queue with it.
-/
inductive Writes (state : QbtRelayState) (session : Session)
    : WriterMove → QbtRelayState × Session → Prop
  | took {result} (quiet : Quiet state session result) : Writes state session .take result
  | closed {result} (quiet : Quiet state session result) : Writes state session .close result
  | wrote {result} (chunk : Bytes)
    (same : SameTraffic (state.addForwarded (chunkBytes chunk)) result.1)
    (inflight : session.inflight = chunk :: result.2.inflight)
    : Writes state session .wrote result
  | failed {result} (taken : Nat) (chunk : Bytes)
    (same : SameTraffic (state.addDropped (chunkBytes chunk)) result.1)
    (inflight : session.inflight = chunk :: session.queue)
    (gone : result.2.inflight = [])
    : Writes state session (.failed taken) result

variable {state : QbtRelayState} {session : Session}

theorem start_inflight (config : QbtRelayConfig) (clientId : UInt64) (peer : Text)
    (sent now : Nat)
    : (start config clientId peer sent now).inflight = [] := by
  by_cases big : config.clientBufferBytes > maxPermits <;> simp [start, inflight, big]

theorem check_quiet (config : QbtRelayConfig) (shutdown : Bool) (now : Nat)
    : Quiet state session (session.check config shutdown now state) := by
  unfold check
  split_ifs <;> exact ⟨⟨rfl, rfl, rfl, rfl, rfl⟩, rfl⟩

theorem onRead_quiet (clock : Clock) (result : ClientRead)
    : Quiet state session (session.onRead clock state result) := by
  unfold onRead
  split
  · exact ⟨.refl _, rfl⟩
  · split
    · exact ⟨.refl _, rfl⟩
    · dsimp only
      split <;> exact ⟨⟨rfl, rfl, rfl, rfl, rfl⟩, rfl⟩
  · exact ⟨.refl _, rfl⟩
  · exact ⟨.refl _, rfl⟩

/-- A queued chunk is the last one in flight. -/
theorem inflight_append (session : Session) (chunk : Bytes) (phase : SessionPhase)
    (permits nextChunk : Nat)
    : { session with
          phase, permits, nextChunk, queue := session.queue ++ [chunk] }.inflight
      = session.inflight ++ [chunk] := by
  unfold inflight
  split <;> simp_all

theorem onReceived_receives (result : Received) (nextChunk : Nat)
    : Receives state session result ({ session with nextChunk }.onReceived state result) := by
  cases result with
  | chunk bytes =>
      simp only [onReceived, forward]
      by_cases paused : state.metrics.forwardingPaused = true
      · rw [if_pos paused]
        exact .quiet ⟨.refl _, rfl⟩
      · rw [if_neg paused]
        have flows : state.metrics.forwardingPaused = false := by simpa using paused
        split_ifs with short ended full
        · exact .refused bytes rfl flows ⟨rfl, rfl, rfl, rfl, rfl⟩ rfl
        · exact .lost bytes rfl flows (Nat.not_lt.mp short) ended ⟨rfl, rfl, rfl, rfl, rfl⟩ rfl
        · exact .refused bytes rfl flows ⟨rfl, rfl, rfl, rfl, rfl⟩ rfl
        · exact .queued bytes rfl flows ⟨rfl, rfl, rfl, rfl, rfl⟩
            (inflight_append session bytes _ _ _)
  | lagged => exact .quiet ⟨⟨rfl, rfl, rfl, rfl, rfl⟩, rfl⟩
  | closed => exact .quiet ⟨.refl _, rfl⟩

theorem write_writes {move : WriterMove} {next : QbtRelayState × Session}
    (taken : session.write state move = some next)
    : Writes state session move next := by
  cases move with
  | take =>
      simp only [write] at taken
      split at taken
      · next chunk rest waiting queue =>
          cases taken
          exact .took ⟨.refl _, by simp [inflight, waiting, queue]⟩
      · cases taken
  | wrote =>
      simp only [write] at taken
      split at taken
      · next chunk writing =>
          cases taken
          exact .wrote chunk ⟨rfl, rfl, rfl, rfl, rfl⟩ (by simp [inflight, writing])
      · cases taken
  | failed written =>
      simp only [write] at taken
      split at taken
      · next chunk writing =>
          cases taken
          exact .failed written chunk ⟨rfl, rfl, rfl, rfl, rfl⟩ (by simp [inflight, writing])
            rfl
      · cases taken
  | close =>
      simp only [write] at taken
      split at taken
      · next waiting queue =>
          split_ifs at taken
          cases taken
          exact .closed ⟨.refl _, by simp [inflight, endWriter, waiting, queue]⟩
      · cases taken

/-- A step of a task that goes on and leaves its writer alone. -/
theorem Orderly.goesOn {after : Session} (before : session.Orderly)
    (queue : after.queue = session.queue) (writer : after.writer = session.writer)
    (unfinished : after.phase ≠ .ended)
    : after.Orderly :=
  ⟨fun ended => by rw [queue, before.queue (writer ▸ ended)],
    fun ended => absurd ended unfinished⟩

theorem start_orderly (config : QbtRelayConfig) (clientId : UInt64) (peer : Text)
    (sent now : Nat)
    : (start config clientId peer sent now).Orderly := by
  by_cases big : config.clientBufferBytes > maxPermits <;> constructor <;> simp [start, big]

theorem check_orderly (before : session.Orderly) (config : QbtRelayConfig) (shutdown : Bool)
    (now : Nat) (state : QbtRelayState)
    : (session.check config shutdown now state).2.Orderly := by
  unfold check
  split_ifs <;> exact before.goesOn rfl rfl nofun

theorem onRead_orderly (before : session.Orderly) (clock : Clock) (state : QbtRelayState)
    (result : ClientRead)
    : (session.onRead clock state result).2.Orderly := by
  unfold onRead
  split
  · exact before.goesOn rfl rfl nofun
  · split
    · exact before.goesOn rfl rfl nofun
    · dsimp only
      split <;> exact before.goesOn rfl rfl nofun
  · exact before.goesOn rfl rfl nofun
  · exact before.goesOn rfl rfl nofun

/-- A chunk is queued only while its writer runs. -/
theorem onReceived_orderly (before : session.Orderly) (state : QbtRelayState)
    (result : Received) (nextChunk : Nat)
    : ({ session with nextChunk }.onReceived state result).2.Orderly := by
  cases result with
  | chunk bytes =>
      simp only [onReceived, forward]
      split_ifs with paused short ended full
      · exact before.goesOn rfl rfl (by simp)
      · exact before.goesOn rfl rfl (by simp [leave])
      · exact before.goesOn rfl rfl (by simp [leave])
      · exact before.goesOn rfl rfl (by simp [leave])
      · exact ⟨fun stopped => absurd stopped ended, by simp⟩
  | lagged | closed => exact before.goesOn rfl rfl (by simp [onReceived, leave])

theorem write_orderly {move : WriterMove} {next : QbtRelayState × Session}
    (before : session.Orderly) (taken : session.write state move = some next)
    : next.2.Orderly := by
  cases move with
  | take =>
      simp only [write] at taken
      split at taken
      · next chunk rest waiting queue =>
          cases taken
          exact ⟨by simp, fun ended => absurd (before.writer ended) (by simp [waiting])⟩
      · cases taken
  | wrote =>
      simp only [write] at taken
      split at taken
      · next chunk writing =>
          cases taken
          exact ⟨by simp, fun ended => absurd (before.writer ended) (by simp [writing])⟩
      · cases taken
  | failed written =>
      simp only [write] at taken
      split at taken
      · cases taken
        exact ⟨fun _ => rfl, fun _ => rfl⟩
      · cases taken
  | close =>
      simp only [write] at taken
      split at taken
      · split_ifs at taken
        cases taken
        exact ⟨fun _ => rfl, fun _ => rfl⟩
      · cases taken

end Session

-----------------------------------------------------------------------------------------
-- Amounts of many sessions
-----------------------------------------------------------------------------------------

/-- The amounts of the first sessions together. -/
def total (count : Nat) (amount : Nat → Nat) : Nat :=
  ∑ index ∈ Finset.range count, amount index

section
variable {count index : Nat}

/-- A change at one session changes the total by as much. -/
theorem total_change (before after : Nat → Nat) (present : index < count)
    (elsewhere : ∀ other, other ≠ index → after other = before other)
    : total count after + before index = total count before + after index := by
  have member : index ∈ Finset.range count := Finset.mem_range.mpr present
  have others
      : ∑ other ∈ (Finset.range count).erase index, after other
        = ∑ other ∈ (Finset.range count).erase index, before other :=
    Finset.sum_congr rfl fun other inside => elsewhere other (Finset.ne_of_mem_erase inside)
  unfold total
  rw [← Finset.add_sum_erase _ _ member, ← Finset.add_sum_erase _ _ member, others]
  omega

/-- New sessions without an amount do not count. -/
theorem total_grow {more : Nat} {before : Nat → Nat} (grown : count ≤ more)
    (idle : ∀ index, count ≤ index → before index = 0)
    : total more before = total count before := by
  refine (Finset.sum_subset (Finset.range_mono grown) fun index _ outside => ?_).symm
  exact idle index (by simpa using outside)

end

-----------------------------------------------------------------------------------------
-- The whole relay
-----------------------------------------------------------------------------------------

namespace Relay

/-- The chunks in flight of the session with the given index. -/
def inflight (relay : Relay) (index : Nat) : List Bytes :=
  match relay.sessions[index]? with
  | some session => session.inflight
  | none => []

/-- A step that changes the chunks in flight of one session. -/
structure Shifts (relay next : Relay) (index : Nat) (chunks : List Bytes) : Prop where
  present : index < relay.sessions.length
  length : next.sessions.length = relay.sessions.length
  here : next.inflight index = chunks
  elsewhere : ∀ other, other ≠ index → next.inflight other = relay.inflight other

/-- The session receives a chunk next while forwarding is not paused, and counts it. -/
def Attempts (relay : Relay) (index : Nat) (chunk : Bytes) : Prop :=
  ∃ session next,
    relay.sessions[index]? = some session
    ∧ relay.received session.nextChunk = some (.chunk chunk, next)
    ∧ relay.state.metrics.forwardingPaused = false

/-- The session will lose the chunk that it receives next. -/
def Strands (relay : Relay) (index : Nat) : Prop :=
  ∃ session chunk next,
    relay.sessions[index]? = some session
    ∧ relay.received session.nextChunk = some (.chunk chunk, next)
    ∧ relay.state.metrics.forwardingPaused = false
    ∧ permitsFor chunk ≤ session.permits
    ∧ session.writer = .ended

/-- Everything a step of the relay does to chunks. -/
inductive Effect (relay : Relay) : RelayAction → Relay → Prop
  | quiet {action next} (timeless : ∀ paused, action ≠ .qualityTick paused)
    (idle : ∀ index move, action = .write index move → move = .take ∨ move = .close)
    (same : SameTraffic relay.state next.state)
    (grown : relay.sessions.length ≤ next.sessions.length)
    (inflight : ∀ index, next.inflight index = relay.inflight index)
    : Effect relay action next
  | queued {next} (index : Nat) (chunk : Bytes) (attempts : relay.Attempts index chunk)
    (same : SameTraffic (relay.state.addAttempted (chunkBytes chunk)) next.state)
    (shifts : Shifts relay next index (relay.inflight index ++ [chunk]))
    : Effect relay (.receive index) next
  | refused {next} (index : Nat) (chunk : Bytes) (attempts : relay.Attempts index chunk)
    (same
      : SameTraffic
          ((relay.state.addAttempted (chunkBytes chunk)).addDropped (chunkBytes chunk))
          next.state)
    (shifts : Shifts relay next index (relay.inflight index))
    : Effect relay (.receive index) next
  | lost {next} (index : Nat) (chunk : Bytes) (attempts : relay.Attempts index chunk)
    (strands : relay.Strands index)
    (same : SameTraffic (relay.state.addAttempted (chunkBytes chunk)) next.state)
    (shifts : Shifts relay next index (relay.inflight index))
    : Effect relay (.receive index) next
  | wrote {next} (index : Nat) (chunk : Bytes) (rest : List Bytes)
    (front : relay.inflight index = chunk :: rest)
    (same : SameTraffic (relay.state.addForwarded (chunkBytes chunk)) next.state)
    (shifts : Shifts relay next index rest)
    : Effect relay (.write index .wrote) next
  | failed {next} (index taken : Nat) (chunk : Bytes) (session : Session)
    (found : relay.sessions[index]? = some session)
    (front : relay.inflight index = chunk :: session.queue)
    (same : SameTraffic (relay.state.addDropped (chunkBytes chunk)) next.state)
    (shifts : Shifts relay next index [])
    : Effect relay (.write index (.failed taken)) next
  | ticked (paused : Bool)
    : Effect relay (.qualityTick paused)
        { relay with
          state := { relay.state with
            qualityWindow := relay.state.qualityWindow.rotate
            metrics := { relay.state.metrics with forwardingPaused := paused } } }

section
variable {config : QbtRelayConfig} {relay next : Relay} {index : Nat} {session : Session}

theorem inflight_of_length_le (outside : relay.sessions.length ≤ index)
    : relay.inflight index = [] := by
  simp [inflight, outside]

theorem inflight_of_found (found : relay.sessions[index]? = some session)
    : relay.inflight index = session.inflight := by
  simp [inflight, found]

/-- Replacing a session changes the chunks in flight of that one only. -/
theorem shifts_set (found : relay.sessions[index]? = some session) (state : QbtRelayState)
    (after : Session)
    : Shifts relay { relay with state, sessions := relay.sessions.set index after } index
        after.inflight := by
  have present : index < relay.sessions.length := (List.getElem?_eq_some_iff.mp found).1
  refine ⟨present, List.length_set, ?_, ?_⟩
  · simp [inflight, List.getElem?_set_self present]
  · intro other distinct
    simp only [inflight, List.getElem?_set_ne (Ne.symm distinct)]

/-- A session that stays as it is, for all that chunks are concerned. -/
theorem Shifts.unmoved (shifts : Shifts relay next index (relay.inflight index))
    (other : Nat)
    : next.inflight other = relay.inflight other := by
  by_cases same : other = index
  · rw [same, shifts.here]
  · exact shifts.elsewhere other same

/-- A quiet step of a session is a quiet step of the relay. -/
theorem Effect.ofQuiet {action : RelayAction} {state : QbtRelayState} {after : Session}
    (timeless : ∀ paused, action ≠ .qualityTick paused)
    (idle : ∀ index move, action = .write index move → move = .take ∨ move = .close)
    (found : relay.sessions[index]? = some session)
    (quiet : session.Quiet relay.state (state, after))
    : Effect relay action
        { relay with state, sessions := relay.sessions.set index after } := by
  have shifts := shifts_set found state after
  have kept : after.inflight = relay.inflight index := by
    rw [inflight_of_found found]
    exact quiet.inflight
  rw [kept] at shifts
  exact .quiet timeless idle quiet.same shifts.length.ge shifts.unmoved

theorem accept_effect (peer : Text) (clock : Clock)
    : Effect relay (.accept peer clock) (relay.accept config peer clock) := by
  unfold accept Metrics.takeSlot
  split
  · exact .quiet nofun nofun ⟨rfl, rfl, rfl, rfl, rfl⟩ le_rfl fun _ => rfl
  · next metrics taken =>
      split_ifs at taken
      cases taken
      refine .quiet nofun nofun ⟨rfl, rfl, rfl, rfl, rfl⟩ (by simp) fun index => ?_
      rcases Nat.lt_trichotomy index relay.sessions.length with inside | rfl | outside
      · simp [inflight, List.getElem?_append_left inside]
      · simp [inflight, Session.start_inflight]
      · simp [inflight, outside.le, List.getElem?_append_right,
          show index - relay.sessions.length ≠ 0 by omega]

theorem upstreamStep_effect {move : UpstreamMove}
    (taken : relay.upstreamStep config move = some next)
    : Effect relay (.upstream move) next := by
  rcases upstreamStep_cases taken with
    ⟨bytes, -, -, rfl⟩ | ⟨-, phase, serverIndex, attempts, successes, fails, disconnects, rfl⟩
  · refine .quiet nofun nofun ?_ le_rfl fun _ => rfl
    unfold observe
    dsimp only
    split <;> exact ⟨rfl, rfl, rfl, rfl, rfl⟩
  · exact .quiet nofun nofun ⟨rfl, rfl, rfl, rfl, rfl⟩ le_rfl fun _ => rfl

/-- What a session's step does to chunks, by cases on the step. -/
theorem SessionStep.effect {action : RelayAction} {result : QbtRelayState × Session}
    (found : relay.sessions[index]? = some session)
    (step : SessionStep config relay index session action result)
    : Effect relay action
        { relay with state := result.1, sessions := relay.sessions.set index result.2 } := by
  have here := inflight_of_found found
  have shifts := shifts_set found result.1 result.2
  cases step with
  | check clock phase =>
      exact .ofQuiet nofun nofun found
        (Session.check_quiet config relay.shutdown clock.instant)
  | shutdownSeen phase => exact .ofQuiet nofun nofun found ⟨.refl _, rfl⟩
  | read clock result phase => exact .ofQuiet nofun nofun found (Session.onRead_quiet clock result)
  | receive received position phase given =>
      have receives : session.Receives relay.state received _ :=
        Session.onReceived_receives received position
      cases receives with
      | quiet quiet => exact .ofQuiet nofun nofun found quiet
      | queued chunk taken flows same inflight =>
          subst taken
          exact .queued index chunk ⟨session, position, found, given, flows⟩ same
            (by rwa [here, ← inflight])
      | refused chunk taken flows same inflight =>
          subst taken
          exact .refused index chunk ⟨session, position, found, given, flows⟩ same
            (by rwa [here, ← inflight])
      | lost chunk taken flows granted ended same inflight =>
          subst taken
          exact .lost index chunk ⟨session, position, found, given, flows⟩
            ⟨session, chunk, position, found, given, flows, granted, ended⟩ same
            (by rwa [here, ← inflight])
  | finish reason phase ended =>
      exact .ofQuiet nofun nofun found ⟨⟨rfl, rfl, rfl, rfl, rfl⟩, rfl⟩
  | write move acted =>
      cases Session.write_writes acted with
      | took quiet =>
          refine .ofQuiet nofun ?_ found quiet
          rintro _ _ ⟨⟩
          exact .inl rfl
      | closed quiet =>
          refine .ofQuiet nofun ?_ found quiet
          rintro _ _ ⟨⟩
          exact .inr rfl
      | wrote chunk same inflight =>
          exact .wrote index chunk _ (here.trans inflight) same shifts
      | failed written chunk same inflight gone =>
          exact .failed index written chunk session found (here.trans inflight) same
            (gone ▸ shifts)

/-- Every step has one of the effects, by cases on the step. -/
theorem step_effect {action : RelayAction} (taken : relay.step config action = some next)
    : Effect relay action next := by
  cases step_taken taken with
  | upstream moved => exact upstreamStep_effect moved
  | accepted peer clock => exact accept_effect peer clock
  | flagged shutdown acceptEnded control =>
      rcases control with rfl | rfl | rfl <;>
        exact .quiet nofun nofun (.refl _) le_rfl fun _ => rfl
  | session found step => exact step.effect found
  | ticked paused => exact .ticked paused

/-- Every session is in order. -/
def Orderly (relay : Relay) : Prop := ∀ session ∈ relay.sessions, session.Orderly

theorem Orderly.set {after : Session} (before : relay.Orderly) (orderly : after.Orderly)
    (state : QbtRelayState) (index : Nat)
    : Orderly { relay with state, sessions := relay.sessions.set index after } := by
  intro session member
  rcases List.mem_or_eq_of_mem_set member with old | rfl
  · exact before session old
  · exact orderly

theorem Orderly.accept (before : relay.Orderly) (peer : Text) (clock : Clock)
    : (relay.accept config peer clock).Orderly := by
  unfold Relay.accept
  split
  · exact before
  · intro session member
    rcases List.mem_append.mp member with old | new
    · exact before session old
    · rw [List.mem_singleton.mp new]
      exact Session.start_orderly _ _ _ _ _

/-- A session stays in order in its own steps, by cases on the step. -/
theorem SessionStep.orderly {action : RelayAction} {result : QbtRelayState × Session}
    (step : SessionStep config relay index session action result) (before : session.Orderly)
    : result.2.Orderly := by
  cases step with
  | check clock phase =>
      exact Session.check_orderly before config relay.shutdown clock.instant relay.state
  | shutdownSeen phase => exact before.goesOn rfl rfl nofun
  | read clock result phase => exact Session.onRead_orderly before clock relay.state result
  | receive received position phase given =>
      exact Session.onReceived_orderly before relay.state received position
  | finish reason phase ended => exact ⟨before.queue, fun _ => ended⟩
  | write move written => exact Session.write_orderly before written

/-- Every step keeps the sessions in order, by cases on the step. -/
theorem Orderly.step {action : RelayAction} (before : relay.Orderly)
    (taken : relay.step config action = some next)
    : next.Orderly := by
  cases step_taken taken with
  | upstream moved =>
      rcases upstreamStep_cases moved with
        ⟨bytes, -, -, rfl⟩ | ⟨-, phase, serverIndex, attempts, successes, fails, disconnects, rfl⟩
      · exact before
      · exact before
  | accepted peer clock => exact before.accept peer clock
  | flagged shutdown acceptEnded control => exact before
  | @session action index session result found step =>
      exact before.set (step.orderly (before session (List.mem_of_getElem? found))) result.1 index
  | ticked paused => exact before

end

end Relay

end Emwin.Qbt
