import Emwin.Qbt.Relay.Traffic

/-! What a client gets: the chunks broadcast since its session subscribed, without a gap. -/

namespace Emwin.Qbt
open Library

-----------------------------------------------------------------------------------------
-- One session
-----------------------------------------------------------------------------------------

namespace Session

/-- Bytes that the session has queued for its client, the chunk that is being written
included.
-/
def queuedBytes (session : Session) : Nat := (session.inflight.map List.length).sum

/-- A session that subscribed when `first` chunks had been sent. What it has written and has
in flight continues without a gap, and while nothing was refused it is everything up to the
receiver's position. Every chunk in flight holds its permits.
-/
structure Follows (budget : Nat) (sent : List Bytes) (first : Nat) (session : Session)
    : Prop where
  subscribed : first ≤ sent.length
  position : session.phase.looping → first ≤ session.nextChunk ∧ session.nextChunk ≤ sent.length
  contiguous : session.written ++ session.inflight.flatten <+: (sent.drop first).flatten
  complete
    : session.phase.looping
      → session.writer ≠ .ended
      → session.written ++ session.inflight.flatten
        = ((sent.drop first).take (session.nextChunk - first)).flatten
  permits : session.permits + (session.inflight.map permitsFor).sum = budget
  small : ∀ chunk ∈ session.inflight, chunk.length ≤ upstreamReadBufferBytes

/-- A step that neither receives nor settles a chunk. The loop may only be left. -/
structure Stays (session after : Session) : Prop where
  inflight : after.inflight = session.inflight
  written : after.written = session.written
  permits : after.permits = session.permits
  loops
    : after.phase.looping
      → session.phase.looping
        ∧ after.nextChunk = session.nextChunk
        ∧ (after.writer ≠ .ended → session.writer ≠ .ended)

variable {budget first : Nat} {sent : List Bytes} {session after : Session}

theorem Follows.stays (follows : session.Follows budget sent first)
    (stays : session.Stays after)
    : after.Follows budget sent first := by
  refine ⟨follows.subscribed, ?_, ?_, ?_, ?_, ?_⟩
  · intro looping
    obtain ⟨before, position, -⟩ := stays.loops looping
    rw [position]
    exact follows.position before
  · rw [stays.inflight, stays.written]
    exact follows.contiguous
  · intro looping running
    obtain ⟨before, position, writer⟩ := stays.loops looping
    rw [stays.inflight, stays.written, position]
    exact follows.complete before (writer running)
  · rw [stays.inflight, stays.permits]
    exact follows.permits
  · rw [stays.inflight]
    exact follows.small

/-- More chunks from upstream change nothing for the session. -/
theorem Follows.broadcast (follows : session.Follows budget sent first) (chunk : Bytes)
    : session.Follows budget (sent ++ [chunk]) first := by
  have later : (sent ++ [chunk]).drop first = sent.drop first ++ [chunk] :=
    List.drop_append_of_le_length follows.subscribed
  refine { follows with subscribed := ?_, position := ?_, contiguous := ?_, complete := ?_ }
  · simp only [List.length_append]
    exact Nat.le_add_right_of_le follows.subscribed
  · intro looping
    have position := follows.position looping
    simp only [List.length_append]
    omega
  · rw [later, List.flatten_append]
    exact follows.contiguous.trans (List.prefix_append _ _)
  · intro looping running
    have position := follows.position looping
    rw [later, List.take_append_of_le_length (by simp only [List.length_drop]; omega)]
    exact follows.complete looping running

theorem start_follows (config : QbtRelayConfig) (clientId : UInt64) (peer : Text)
    (sent : List Bytes) (now : Nat)
    : (start config clientId peer sent.length now).Follows config.clientBufferBytes sent
        sent.length := by
  refine ⟨le_rfl, fun _ => ⟨le_rfl, le_rfl⟩, ?_, ?_, ?_, ?_⟩
  · rw [start_inflight]
    exact List.nil_prefix
  · intro _ _
    rw [start_inflight]
    simp [start]
  · rw [start_inflight]
    rfl
  · simp [start_inflight]

-----------------------------------------------------------------------------------------
-- The steps of the session task
-----------------------------------------------------------------------------------------

theorem leave_stays (session : Session) (reason : DisconnectReason)
    : session.Stays (session.leave reason) :=
  ⟨rfl, rfl, rfl, nofun⟩

theorem check_stays (config : QbtRelayConfig) (shutdown : Bool) (now : Nat)
    (state : QbtRelayState) (phase : session.phase = .checking)
    : session.Stays (session.check config shutdown now state).2 := by
  unfold check
  split_ifs
  · exact leave_stays session _
  · exact leave_stays session _
  · exact leave_stays session _
  · exact ⟨rfl, rfl, rfl, fun _ => ⟨by simp [phase, SessionPhase.looping], rfl, id⟩⟩

theorem onRead_stays (clock : Clock) (state : QbtRelayState) (result : ClientRead)
    (phase : session.phase = .selecting)
    : session.Stays (session.onRead clock state result).2 := by
  have looping : session.phase.looping := by simp [phase, SessionPhase.looping]
  unfold onRead
  split
  · exact leave_stays session _
  · split
    · exact ⟨rfl, rfl, rfl, nofun⟩
    · dsimp only
      split <;> exact ⟨rfl, rfl, rfl, fun _ => ⟨looping, rfl, id⟩⟩
  · exact leave_stays session _
  · exact ⟨rfl, rfl, rfl, fun _ => ⟨looping, rfl, id⟩⟩

/-- The receiver gives the chunk at its position and goes on by one. -/
theorem received_chunk {relay : Relay} {position nextChunk : Nat} {chunk : Bytes}
    (given : relay.received position = some (.chunk chunk, nextChunk))
    : relay.sent[position]? = some chunk ∧ nextChunk = position + 1 := by
  unfold Relay.received at given
  split at given
  · cases given
  · split at given
    · next next present =>
        cases given
        exact ⟨present, rfl⟩
    · split at given <;> cases given

/-- One more chunk is taken from the chunks since the subscription. -/
theorem take_flatten_succ {position : Nat} {chunk : Bytes} (present : sent[position]? = some chunk)
    (since : first ≤ position)
    : ((sent.drop first).take (position + 1 - first)).flatten
      = ((sent.drop first).take (position - first)).flatten ++ chunk := by
  have here : (sent.drop first)[position - first]? = some chunk := by
    rw [List.getElem?_drop, Nat.add_sub_cancel' since]
    exact present
  rw [Nat.sub_add_comm since, List.take_add_one, here]
  simp

/-- A chunk that is queued is the one after everything queued before it. -/
theorem Follows.queued {chunk : Bytes} (follows : session.Follows budget sent first)
    (looping : session.phase.looping) (running : session.writer ≠ .ended)
    (present : sent[session.nextChunk]? = some chunk)
    (fits : chunk.length ≤ upstreamReadBufferBytes)
    (granted : permitsFor chunk ≤ session.permits)
    : Follows budget sent first
        { session with
          phase := .checking
          nextChunk := session.nextChunk + 1
          permits := session.permits - permitsFor chunk
          queue := session.queue ++ [chunk] } := by
  have since := (follows.position looping).1
  have inside : session.nextChunk < sent.length := (List.getElem?_eq_some_iff.mp present).1
  have inflight := inflight_append session chunk .checking
    (session.permits - permitsFor chunk) (session.nextChunk + 1)
  have written
      : session.written ++ (session.inflight ++ [chunk]).flatten
        = ((sent.drop first).take (session.nextChunk + 1 - first)).flatten := by
    rw [take_flatten_succ present since, ← follows.complete looping running]
    simp
  refine ⟨follows.subscribed, fun _ => ⟨?_, ?_⟩, ?_, ?_, ?_, ?_⟩
  · exact Nat.le_succ_of_le since
  · exact inside
  · rw [inflight, written]
    obtain ⟨rest, split⟩ := List.take_prefix (session.nextChunk + 1 - first) (sent.drop first)
    refine ⟨rest.flatten, ?_⟩
    rw [← List.flatten_append, split]
  · intro _ _
    rw [inflight]
    exact written
  · rw [inflight, List.map_append, List.sum_append]
    have kept := follows.permits
    simp only [List.map_cons, List.map_nil, List.sum_singleton]
    omega
  · rw [inflight]
    intro other member
    rcases List.mem_append.mp member with old | new
    · exact follows.small other old
    · rw [List.mem_singleton.mp new]
      exact fits

/-- A chunk that is refused ends the loop, by cases on what the receiver gives. -/
theorem Follows.onReceived {relay : Relay} {received : Received} {nextChunk : Nat}
    (follows : session.Follows budget relay.sent first) (looping : session.phase.looping)
    (small : ∀ chunk ∈ relay.sent, chunk.length ≤ upstreamReadBufferBytes)
    (flows : relay.state.metrics.forwardingPaused = false)
    (given : relay.received session.nextChunk = some (received, nextChunk))
    : ({ session with nextChunk }.onReceived relay.state received).2.Follows budget
        relay.sent first := by
  cases received with
  | chunk chunk =>
      obtain ⟨present, rfl⟩ := received_chunk given
      simp only [Session.onReceived, forward, flows, Bool.false_eq_true, if_false]
      split_ifs with short ended full
      · exact follows.stays ⟨rfl, rfl, rfl, by simp [Session.leave, SessionPhase.looping]⟩
      · exact follows.stays ⟨rfl, rfl, rfl, by simp [Session.leave, SessionPhase.looping]⟩
      · exact follows.stays ⟨rfl, rfl, rfl, by simp [Session.leave, SessionPhase.looping]⟩
      · exact follows.queued looping ended present (small chunk (List.mem_of_getElem? present))
          (Nat.not_lt.mp short)
  | lagged | closed =>
      exact follows.stays
        ⟨rfl, rfl, rfl, by simp [Session.onReceived, Session.leave, SessionPhase.looping]⟩

-----------------------------------------------------------------------------------------
-- The moves of the writer
-----------------------------------------------------------------------------------------

/-- The chunk being written passes from the chunks in flight to the written bytes. -/
theorem Follows.wrote {chunk : Bytes} (follows : session.Follows budget sent first)
    (writing : session.writer = .writing chunk)
    : Follows budget sent first
        { session with
          writer := .waiting
          permits := session.permits + permitsFor chunk
          written := session.written ++ chunk } := by
  have front : session.inflight = chunk :: session.queue := by simp [inflight, writing]
  have moved
      : session.written ++ chunk ++ session.queue.flatten
        = session.written ++ session.inflight.flatten := by
    simp [front]
  refine ⟨follows.subscribed, follows.position, ?_, ?_, ?_, ?_⟩
  · exact moved ▸ follows.contiguous
  · intro looping _
    exact moved.trans (follows.complete looping (by simp [writing]))
  · have kept := follows.permits
    rw [front, List.map_cons, List.sum_cons] at kept
    rw [← kept]
    simp only [inflight]
    omega
  · intro other member
    exact follows.small other (front ▸ List.mem_cons_of_mem chunk member)

/-- A failed write passes on a part of its chunk and nothing after it. -/
theorem Follows.failed {chunk : Bytes} (follows : session.Follows budget sent first)
    (writing : session.writer = .writing chunk) (taken : Nat)
    : Follows budget sent first
        { session with
          permits := session.permits + permitsFor chunk
          written := session.written ++ chunk.take taken }.endWriter := by
  have front : session.inflight = chunk :: session.queue := by simp [inflight, writing]
  refine ⟨follows.subscribed, follows.position, ?_, fun _ stopped => absurd rfl stopped, ?_,
    by simp [endWriter, inflight]⟩
  · refine List.IsPrefix.trans ?_ follows.contiguous
    refine ⟨chunk.drop taken ++ session.queue.flatten, ?_⟩
    rw [front]
    simp only [endWriter, inflight, List.flatten_nil, List.append_nil, List.flatten_cons,
      List.append_assoc]
    rw [← List.append_assoc (chunk.take taken), List.take_append_drop]
  · have kept := follows.permits
    rw [front, List.map_cons, List.sum_cons] at kept
    simp only [endWriter, inflight, List.map_nil, List.sum_nil]
    omega

theorem Follows.write {state : QbtRelayState} {move : WriterMove}
    {next : QbtRelayState × Session} (follows : session.Follows budget sent first)
    (taken : session.write state move = some next)
    : next.2.Follows budget sent first := by
  cases move with
  | take =>
      simp only [Session.write] at taken
      split at taken
      · next chunk rest waiting queue =>
          cases taken
          refine follows.stays ⟨?_, rfl, rfl, fun looping => ⟨looping, rfl, fun _ => ?_⟩⟩
          · simp [inflight, waiting, queue]
          · simp [waiting]
      · cases taken
  | wrote =>
      simp only [Session.write] at taken
      split at taken
      · next chunk writing =>
          cases taken
          exact follows.wrote writing
      · cases taken
  | failed written =>
      simp only [Session.write] at taken
      split at taken
      · next chunk writing =>
          cases taken
          exact follows.failed writing written
      · cases taken
  | close =>
      simp only [Session.write] at taken
      split at taken
      · next waiting queue =>
          split_ifs at taken with looping
          cases taken
          refine follows.stays ⟨?_, rfl, ?_, fun loops => absurd loops looping⟩
          · simp [inflight, endWriter, waiting, queue]
          · simp [endWriter, queue]
      · cases taken

/-- Permits count bytes, as no chunk is longer than the upstream read buffer. -/
theorem Follows.queuedBytes_le (follows : session.Follows budget sent first)
    : session.queuedBytes ≤ budget := by
  have lengths : session.inflight.map permitsFor = session.inflight.map List.length := by
    refine List.map_congr_left fun chunk member => Nat.mod_eq_of_lt ?_
    have small := follows.small chunk member
    simp only [upstreamReadBufferBytes] at small
    omega
  have kept := follows.permits
  rw [lengths] at kept
  unfold queuedBytes
  omega

end Session

-----------------------------------------------------------------------------------------
-- The whole relay
-----------------------------------------------------------------------------------------

namespace Relay

/-- Note for each session how many chunks had been sent when it subscribed. -/
def noteSubscription (config : QbtRelayConfig) (relay : Relay) (action : RelayAction)
    (subscribed : List Nat)
    : List Nat :=
  match action with
  | .accept _ _ =>
      match relay.state.metrics.takeSlot config.maxClients with
      | none => subscribed
      | some _ => subscribed ++ [relay.sent.length]
  | _ => subscribed

/-- Every session follows the chunks since its subscription. -/
structure Follows (budget : Nat) (relay : Relay) (subscribed : List Nat) : Prop where
  small : ∀ chunk ∈ relay.sent, chunk.length ≤ upstreamReadBufferBytes
  length : subscribed.length = relay.sessions.length
  sessions
    : ∀ (index : Nat) (session : Session) (first : Nat),
        relay.sessions[index]? = some session
        → subscribed[index]? = some first
        → session.Follows budget relay.sent first

section
variable {config : QbtRelayConfig} {relay next : Relay} {subscribed : List Nat} {budget : Nat}

/-- A read from upstream fits the read buffer. -/
theorem upstreamRead_small {bytes : Bytes}
    (taken : relay.upstreamStep config (.read bytes) = some next)
    : bytes.length ≤ upstreamReadBufferBytes := by
  simp only [upstreamStep] at taken
  split_ifs at taken with reading
  · exact reading.2
  · exact reading.2

theorem Follows.upstream {move : UpstreamMove} (follows : relay.Follows budget subscribed)
    (taken : relay.upstreamStep config move = some next)
    : next.Follows budget subscribed := by
  rcases upstreamStep_cases taken with
    ⟨bytes, -, rfl, rfl⟩ | ⟨-, phase, serverIndex, attempts, successes, fails, disconnects, rfl⟩
  · refine ⟨?_, follows.length, ?_⟩
    · intro chunk member
      rcases List.mem_append.mp member with old | new
      · exact follows.small chunk old
      · rw [List.mem_singleton.mp new]
        exact upstreamRead_small taken
    · intro index session first found since
      exact (follows.sessions index session first found since).broadcast bytes
  · exact ⟨follows.small, follows.length, follows.sessions⟩

theorem Follows.accept (follows : relay.Follows config.clientBufferBytes subscribed)
    (peer : Text) (clock : Clock)
    : (relay.accept config peer clock).Follows config.clientBufferBytes
        (noteSubscription config relay (.accept peer clock) subscribed) := by
  simp only [Relay.accept, noteSubscription]
  cases relay.state.metrics.takeSlot config.maxClients with
  | none => exact ⟨follows.small, follows.length, follows.sessions⟩
  | some metrics =>
      refine ⟨follows.small, by simp [follows.length], ?_⟩
      intro index session first found since
      rcases Nat.lt_trichotomy index relay.sessions.length with old | new | beyond
      · rw [List.getElem?_append_left old] at found
        rw [List.getElem?_append_left (follows.length ▸ old)] at since
        exact follows.sessions index session first found since
      · subst new
        rw [List.getElem?_concat_length] at found
        rw [← follows.length, List.getElem?_concat_length] at since
        cases found
        cases since
        exact Session.start_follows _ _ _ _ _
      · have outside := (List.getElem?_eq_some_iff.mp found).1
        simp only [List.length_append, List.length_singleton] at outside
        omega

/-- A session keeps following in its own steps, by cases on the step. -/
theorem SessionStep.follows {index first : Nat} {session : Session} {action : RelayAction}
    {result : QbtRelayState × Session}
    (step : SessionStep config relay index session action result)
    (small : ∀ chunk ∈ relay.sent, chunk.length ≤ upstreamReadBufferBytes)
    (flows : relay.state.metrics.forwardingPaused = false)
    (follows : session.Follows budget relay.sent first)
    : result.2.Follows budget relay.sent first := by
  cases step with
  | check clock phase => exact follows.stays (Session.check_stays _ _ _ _ phase)
  | shutdownSeen phase => exact follows.stays (Session.leave_stays session _)
  | read clock result phase => exact follows.stays (Session.onRead_stays _ _ _ phase)
  | receive received position phase given =>
      have looping : session.phase.looping := by simp [phase, SessionPhase.looping]
      exact follows.onReceived looping small flows given
  | finish reason phase ended => exact follows.stays ⟨rfl, rfl, rfl, nofun⟩
  | write move written => exact follows.write written

/-- Every step keeps the sessions following, by cases on the step. -/
theorem Follows.step {action : RelayAction}
    (follows : relay.Follows config.clientBufferBytes subscribed)
    (flows : relay.state.metrics.forwardingPaused = false)
    (taken : relay.step config action = some next)
    : next.Follows config.clientBufferBytes
        (noteSubscription config relay action subscribed) := by
  cases step_taken taken with
  | upstream moved => exact follows.upstream moved
  | accepted peer clock => exact follows.accept peer clock
  | flagged shutdown acceptEnded control =>
      rcases control with rfl | rfl | rfl <;>
        exact ⟨follows.small, follows.length, follows.sessions⟩
  | @session action index session result found step =>
      have noted : noteSubscription config relay action subscribed = subscribed := by
        cases step <;> rfl
      rw [noted]
      refine ⟨follows.small, by simp [follows.length], ?_⟩
      intro other after first present since
      by_cases same : other = index
      · subst same
        have inside : other < relay.sessions.length := (List.getElem?_eq_some_iff.mp found).1
        rw [List.getElem?_set_self inside] at present
        cases present
        exact step.follows follows.small flows
          (follows.sessions other session first found since)
      · rw [List.getElem?_set_ne (Ne.symm same)] at present
        exact follows.sessions other after first present since
  | ticked paused => exact ⟨follows.small, follows.length, follows.sessions⟩

end

/-- In every run in which forwarding is never paused, every session has subscribed at some
point, and what its client got is a prefix of what was broadcast from there on. A session
that is in its loop with a running writer has queued or written all that it received: the
receiver's position says how far that is. What is queued stays within the buffer.
-/
theorem client_gets_contiguous_bytes (config : QbtRelayConfig) {relay : Relay}
    {subscribed : List Nat}
    (run
      : ((machine config).record [] (noteSubscription config.normalized)).Reaches
          (fun recorded _ => recorded.1.state.metrics.forwardingPaused = false)
          (relay, subscribed))
    {index : Nat} {session : Session} (found : relay.sessions[index]? = some session)
    : ∃ first,
        subscribed[index]? = some first
        ∧ first ≤ relay.sent.length
        ∧ session.written <+: (relay.sent.drop first).flatten
        ∧ (session.phase.looping
          → session.writer ≠ .ended
          → session.written ++ session.inflight.flatten
            = ((relay.sent.drop first).take (session.nextChunk - first)).flatten)
        ∧ session.queuedBytes ≤ config.normalized.clientBufferBytes := by
  have follows : relay.Follows config.normalized.clientBufferBytes subscribed := by
    refine Machine.Reaches.recorded
      (motive := fun relay subscribed =>
        relay.Follows config.normalized.clientBufferBytes subscribed) ?_ ?_ run
    · intro relay started
      rw [started.2]
      exact ⟨nofun, rfl, nofun⟩
    · intro relay subscribed action next before flows taken
      exact before.step flows taken
  have inside : index < subscribed.length := by
    rw [follows.length]
    exact (List.getElem?_eq_some_iff.mp found).1
  have since := List.getElem?_eq_getElem inside
  have here := follows.sessions index session _ found since
  refine ⟨_, since, here.subscribed, ?_, here.complete, here.queuedBytes_le⟩
  exact (List.prefix_append _ _).trans here.contiguous

/-- One chunk is written and the next one is queued. -/
def clientFollows : List RelayAction :=
  clientWaits ++ clientLogsOn :: upstreamAnswers ++ upstreamSends 1
    ++ [.receive 0, .write 0 .take, .write 0 .wrote] ++ upstreamSends 2 ++ [.receive 0]

theorem clientFollows_contiguous
    : ∃ relay subscribed session,
        ((machine sampleRelayConfig).record []
            (noteSubscription sampleRelayConfig.normalized)).Reaches
          (fun recorded _ => recorded.1.state.metrics.forwardingPaused = false)
          (relay, subscribed)
        ∧ relay.sessions[0]? = some session
        ∧ session.written = [1]
        ∧ session.inflight = [[2]]
        ∧ ∃ first,
            subscribed[0]? = some first
            ∧ first ≤ relay.sent.length
            ∧ session.written <+: (relay.sent.drop first).flatten
            ∧ (session.phase.looping
              → session.writer ≠ .ended
              → session.written ++ session.inflight.flatten
                = ((relay.sent.drop first).take (session.nextChunk - first)).flatten)
            ∧ session.queuedBytes ≤ sampleRelayConfig.normalized.clientBufferBytes := by
  have computed
      : (((machine sampleRelayConfig).record []
          (noteSubscription sampleRelayConfig.normalized)).takesWhile
          (fun recorded _ => !recorded.1.state.metrics.forwardingPaused)
          (start sampleRelayConfig, []) clientFollows).map
          (fun recorded =>
            recorded.1.sessions.map fun session => (session.written, session.inflight))
        = some [([1], [[2]])] := by
    decide +kernel
  obtain ⟨⟨relay, subscribed⟩, taken, sessions⟩ := Option.map_eq_some_iff.mp computed
  obtain ⟨session, found, values⟩
      : ∃ session, relay.sessions[0]? = some session
          ∧ (session.written, session.inflight) = ([1], [[2]]) := by
    have first := congrArg (·[0]?) sessions
    simpa using first
  have started
      : ((machine sampleRelayConfig).record []
            (noteSubscription sampleRelayConfig.normalized)).Reaches
          (fun recorded _ => recorded.1.state.metrics.forwardingPaused = false)
          (start sampleRelayConfig, []) :=
    .start ⟨sampleRelayConfig_starts, rfl⟩
  have run := started.takesWhile (fun recorded _ flows => by simpa using flows) taken
  exact ⟨relay, subscribed, session, run, found, congrArg Prod.fst values,
    congrArg Prod.snd values, client_gets_contiguous_bytes sampleRelayConfig run found⟩

end Relay

end Emwin.Qbt
