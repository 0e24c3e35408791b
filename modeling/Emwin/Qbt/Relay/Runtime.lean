import Emwin.Library.Machine
import Emwin.Qbt.Relay.Session

/-! The relay runtime: upstream loop, accept loop, client sessions and their writers, in any
interleaving.
-/

namespace Emwin.Qbt
open Library

def upstreamReadBufferBytes : Nat := 8192
def upstreamChannelCapacity : Nat := 4096

inductive UpstreamPhase where
  | head
  | connecting
  | authenticating
  | reading
  | resting
  | ended
  deriving DecidableEq, Repr

/-- The upstream loop; the scanner lives as long as the loop, not as one connection. -/
structure UpstreamLoop where
  phase : UpstreamPhase := .head
  serverIndex : Nat := 0
  scanner : QbtServerListWireScanner := .default
  deriving DecidableEq, Repr

/-- The whole runtime. `sent` are the chunks broadcast so far, `sessions` all session tasks
ever spawned, in the order of their spawning.
-/
structure Relay where
  state : QbtRelayState
  shutdown : Bool := false
  upstream : UpstreamLoop := {}
  acceptEnded : Bool := false
  sent : List Bytes := []
  sessions : List Session := []

inductive UpstreamMove where
  | attempt
  | connect (succeeded : Bool)
  | logon (succeeded : Bool)
  | reauth (succeeded : Bool)
  | read (bytes : Bytes)
  | readFailed
  | rested
  | stop
  deriving DecidableEq, Repr

/-- One step of one task, with what its environment gives it. The quality monitor's verdict
is such an input.
-/
inductive RelayAction where
  | shutdown
  | upstream (move : UpstreamMove)
  | accept (peer : Text) (clock : Clock)
  | acceptFailed
  | acceptStopped
  | check (index : Nat) (clock : Clock)
  | shutdownSeen (index : Nat)
  | read (index : Nat) (clock : Clock) (result : ClientRead)
  | receive (index : Nat)
  | finish (index : Nat)
  | write (index : Nat) (move : WriterMove)
  | qualityTick (paused : Bool)
  deriving DecidableEq, Repr

namespace Relay

/-- The runtime right after its tasks were spawned. -/
def start (config : QbtRelayConfig) : Relay where
  state := .new config

-----------------------------------------------------------------------------------------
-- The upstream loop
-----------------------------------------------------------------------------------------

/-- The upstream connection is lost; the loop rests before it connects again. -/
def disconnected (relay : Relay) (next : UpstreamPhase) : Relay :=
  { relay with
    upstream := { relay.upstream with phase := next }
    state := { relay.state with
      metrics := { relay.state.metrics with
        upstreamDisconnectTotal := relay.state.metrics.upstreamDisconnectTotal + 1 } } }

/-- A chunk from upstream: the scanner sees it first, then every session. -/
def observe (relay : Relay) (bytes : Bytes) : Relay :=
  let counted := { relay.state with
    metrics := { relay.state.metrics with
      bytesInTotal := relay.state.metrics.bytesInTotal + UInt64.ofNat bytes.length } }
  let (found, scanner) := relay.upstream.scanner.observeWireChunk bytes
  { relay with
    upstream := { relay.upstream with scanner }
    state := match found with
      | some frame => counted.setLatestServerListWire frame
      | none => counted
    sent := relay.sent ++ [bytes] }

def upstreamStep (config : QbtRelayConfig) (relay : Relay) : UpstreamMove → Option Relay
  | .attempt =>
      if relay.upstream.phase = .head ∧ ¬ relay.shutdown then
        some { relay with
          upstream := { relay.upstream with
            phase := .connecting
            serverIndex := (relay.upstream.serverIndex + 1) % config.upstreamServers.length }
          state := { relay.state with
            metrics := { relay.state.metrics with
              upstreamConnectionAttemptsTotal :=
                relay.state.metrics.upstreamConnectionAttemptsTotal + 1 } } }
      else none
  | .connect true =>
      if relay.upstream.phase = .connecting then
        some { relay with
          upstream := { relay.upstream with phase := .authenticating }
          state := { relay.state with
            metrics := { relay.state.metrics with
              upstreamConnectionSuccessTotal :=
                relay.state.metrics.upstreamConnectionSuccessTotal + 1 } } }
      else none
  | .connect false =>
      if relay.upstream.phase = .connecting then
        some { relay with
          upstream := { relay.upstream with phase := .resting }
          state := { relay.state with
            metrics := { relay.state.metrics with
              upstreamConnectionFailTotal :=
                relay.state.metrics.upstreamConnectionFailTotal + 1 } } }
      else none
  | .logon succeeded =>
      if relay.upstream.phase = .authenticating then
        -- a failed first logon goes on with the next server without a rest
        if succeeded then some { relay with upstream := { relay.upstream with phase := .reading } }
        else some (relay.disconnected .head)
      else none
  | .reauth succeeded =>
      if relay.upstream.phase = .reading then
        if succeeded then some relay else some (relay.disconnected .resting)
      else none
  | .read bytes =>
      if relay.upstream.phase = .reading ∧ bytes.length ≤ upstreamReadBufferBytes then
        if bytes = [] then some (relay.disconnected .resting) else some (relay.observe bytes)
      else none
  | .readFailed =>
      if relay.upstream.phase = .reading then some (relay.disconnected .resting) else none
  | .rested =>
      if relay.upstream.phase = .resting then
        some { relay with upstream := { relay.upstream with phase := .head } }
      else none
  | .stop =>
      if relay.shutdown ∧ relay.upstream.phase ∈ [.head, .reading, .resting] then
        some { relay with upstream := { relay.upstream with phase := .ended } }
      else none

-----------------------------------------------------------------------------------------
-- Accepting clients and serving them
-----------------------------------------------------------------------------------------

/-- The accept loop's turn for a new connection. A client over capacity is answered with
the cached server list and not served.
-/
def accept (config : QbtRelayConfig) (relay : Relay) (peer : Text) (clock : Clock) : Relay :=
  match relay.state.metrics.takeSlot config.maxClients with
  | none =>
      { relay with
        state := { relay.state with
          metrics := { relay.state.metrics with
            downstreamConnectionsRejectedOverCapacityTotal :=
              relay.state.metrics.downstreamConnectionsRejectedOverCapacityTotal + 1 } } }
  | some metrics =>
      let session :=
        Session.start config relay.state.nextClientId peer relay.sent.length clock.instant
      { relay with
        state := { relay.state with
          metrics := { metrics with
            downstreamConnectionsAcceptedTotal :=
              metrics.downstreamConnectionsAcceptedTotal + 1 }
          nextClientId := relay.state.nextClientId + 1 }
        sessions := relay.sessions ++ [session] }

/-- Let one session, or its writer, take a step. -/
def onSession (relay : Relay) (index : Nat)
    (act : Session → Option (QbtRelayState × Session))
    : Option Relay :=
  match relay.sessions[index]? with
  | none => none
  | some session =>
      match act session with
      | none => none
      | some (state, session) =>
          some { relay with state, sessions := relay.sessions.set index session }

/-- A turn of the broadcast receiver at a position: the next chunk, or a report that the
channel has overwritten it, or that it will never come. Nothing otherwise.
-/
def received (relay : Relay) (position : Nat) : Option (Received × Nat) :=
  if position + upstreamChannelCapacity < relay.sent.length then
    some (.lagged, relay.sent.length - upstreamChannelCapacity)
  else
    match relay.sent[position]? with
    | some chunk => some (.chunk chunk, position + 1)
    | none =>
        if relay.upstream.phase = .ended ∧ relay.acceptEnded then some (.closed, position)
        else none

def step (config : QbtRelayConfig) (relay : Relay) : RelayAction → Option Relay
  | .shutdown => some { relay with shutdown := true }
  | .upstream move => relay.upstreamStep config move
  | .accept peer clock =>
      if relay.acceptEnded then none else some (relay.accept config peer clock)
  | .acceptFailed => if relay.acceptEnded then none else some { relay with acceptEnded := true }
  | .acceptStopped => if relay.shutdown then some { relay with acceptEnded := true } else none
  | .check index clock =>
      relay.onSession index fun session =>
        if session.phase = .checking then
          some (session.check config relay.shutdown clock.instant relay.state)
        else none
  | .shutdownSeen index =>
      relay.onSession index fun session =>
        if session.phase = .selecting ∧ relay.shutdown then
          some (relay.state, session.leave .shutdown)
        else none
  | .read index clock result =>
      relay.onSession index fun session =>
        if session.phase = .selecting ∧ fitsBuffer result then
          some (session.onRead clock relay.state result)
        else none
  | .receive index =>
      relay.onSession index fun session =>
        if session.phase = .selecting ∧ session.isAuthenticated then
          (relay.received session.nextChunk).map fun (result, nextChunk) =>
            { session with nextChunk }.onReceived relay.state result
        else none
  | .finish index =>
      relay.onSession index fun session =>
        match session.phase, session.writer with
        | .closing _, .ended => some (session.finish relay.state)
        | _, _ => none
  | .write index move => relay.onSession index fun session => session.write relay.state move
  | .qualityTick paused =>
      some { relay with
        state := { relay.state with
          qualityWindow := relay.state.qualityWindow.rotate
          metrics := { relay.state.metrics with forwardingPaused := paused } } }
where
  fitsBuffer : ClientRead → Bool
    | .bytes wire => wire.length ≤ clientReadBufferBytes
    | _ => true

-----------------------------------------------------------------------------------------
-- The moves of the relay
-----------------------------------------------------------------------------------------

/-- Everything one step can do to the client slots and to the cached server list. -/
inductive Move (config : QbtRelayConfig) (relay : Relay) (action : RelayAction)
    : Relay → Prop
  | elsewhere {next} (sessions : next.sessions = relay.sessions)
    (active
      : next.state.metrics.downstreamActiveClients
        = relay.state.metrics.downstreamActiveClients)
    (wire : next.state.latestServerListWire = relay.state.latestServerListWire)
    : Move config relay action next
  | observed (bytes : Bytes) : Move config relay action (relay.observe bytes)
  | accepted (peer : Text) (clock : Clock)
    : Move config relay action (relay.accept config peer clock)
  | served {index session state after} (found : relay.sessions[index]? = some session)
    (serves
      : session.Serves
          (∃ clock wire, action = .read index clock (.bytes wire)
            ∧ ¬ session.authParser.Fits wire)
          relay.state (state, after))
    : Move config relay action
        { relay with state, sessions := relay.sessions.set index after }
  | finished {index session} (found : relay.sessions[index]? = some session)
    (unfinished : session.phase ≠ .ended)
    : Move config relay action
        { relay with
          state := (session.finish relay.state).1
          sessions := relay.sessions.set index (session.finish relay.state).2 }

theorem onSession_eq_some {relay next : Relay} {index : Nat}
    {act : Session → Option (QbtRelayState × Session)}
    (taken : relay.onSession index act = some next)
    : ∃ session result,
        relay.sessions[index]? = some session
        ∧ act session = some result
        ∧ next
          = { relay with
              state := result.1
              sessions := relay.sessions.set index result.2 } := by
  unfold onSession at taken
  split at taken
  · cases taken
  · next session found =>
      split at taken
      · cases taken
      · next state after acted =>
          exact ⟨session, (state, after), found, acted, (Option.some.inj taken).symm⟩

/-- Everything a move of the upstream loop can do: it observes what it has read, or only its
own place and the counters of connections change.
-/
theorem upstreamStep_cases {config : QbtRelayConfig} {relay next : Relay}
    {move : UpstreamMove} (taken : relay.upstreamStep config move = some next)
    : (∃ bytes, bytes ≠ [] ∧ move = .read bytes ∧ next = relay.observe bytes)
      ∨ (∀ bytes, bytes ≠ [] → move ≠ .read bytes)
        ∧ ∃ phase serverIndex attempts successes fails disconnects,
            next
            = { relay with
                upstream := { relay.upstream with phase, serverIndex }
                state := { relay.state with
                  metrics := { relay.state.metrics with
                    upstreamConnectionAttemptsTotal := attempts
                    upstreamConnectionSuccessTotal := successes
                    upstreamConnectionFailTotal := fails
                    upstreamDisconnectTotal := disconnects } } } := by
  cases move with
  | read bytes =>
      simp only [upstreamStep] at taken
      split_ifs at taken with reading empty
      · cases taken
        refine .inr ⟨fun other some same => ?_, _, _, _, _, _, _, rfl⟩
        exact some ((UpstreamMove.read.inj same).symm.trans empty)
      · exact .inl ⟨bytes, empty, rfl, (Option.some.inj taken).symm⟩
  | connect succeeded =>
      refine .inr ⟨nofun, ?_⟩
      cases succeeded <;> simp only [upstreamStep] at taken <;> split_ifs at taken <;>
        cases taken <;> exact ⟨_, _, _, _, _, _, rfl⟩
  | _ =>
      refine .inr ⟨nofun, ?_⟩
      simp only [upstreamStep] at taken
      split_ifs at taken <;> cases taken <;> exact ⟨_, _, _, _, _, _, rfl⟩

/-- What one session does in a step of the relay, and when it can. -/
inductive SessionStep (config : QbtRelayConfig) (relay : Relay) (index : Nat)
    (session : Session)
    : RelayAction → QbtRelayState × Session → Prop
  | check (clock : Clock) (phase : session.phase = .checking)
    : SessionStep config relay index session (.check index clock)
        (session.check config relay.shutdown clock.instant relay.state)
  | shutdownSeen (phase : session.phase = .selecting)
    : SessionStep config relay index session (.shutdownSeen index)
        (relay.state, session.leave .shutdown)
  | read (clock : Clock) (result : ClientRead) (phase : session.phase = .selecting)
    : SessionStep config relay index session (.read index clock result)
        (session.onRead clock relay.state result)
  | receive (result : Received) (nextChunk : Nat) (phase : session.phase = .selecting)
    (given : relay.received session.nextChunk = some (result, nextChunk))
    : SessionStep config relay index session (.receive index)
        ({ session with nextChunk }.onReceived relay.state result)
  | finish (reason : DisconnectReason) (phase : session.phase = .closing reason)
    (ended : session.writer = .ended)
    : SessionStep config relay index session (.finish index) (session.finish relay.state)
  | write (move : WriterMove) {result} (written : session.write relay.state move = some result)
    : SessionStep config relay index session (.write index move) result

/-- Everything one step can be. -/
inductive Taken (config : QbtRelayConfig) (relay : Relay) : RelayAction → Relay → Prop
  | upstream {move next} (taken : relay.upstreamStep config move = some next)
    : Taken config relay (.upstream move) next
  | accepted (peer : Text) (clock : Clock)
    : Taken config relay (.accept peer clock) (relay.accept config peer clock)
  | flagged {action} (shutdown acceptEnded : Bool)
    (control : action = .shutdown ∨ action = .acceptFailed ∨ action = .acceptStopped)
    : Taken config relay action { relay with shutdown, acceptEnded }
  | session {action index session result} (found : relay.sessions[index]? = some session)
    (step : SessionStep config relay index session action result)
    : Taken config relay action
        { relay with state := result.1, sessions := relay.sessions.set index result.2 }
  | ticked (paused : Bool)
    : Taken config relay (.qualityTick paused)
        { relay with
          state := { relay.state with
            qualityWindow := relay.state.qualityWindow.rotate
            metrics := { relay.state.metrics with forwardingPaused := paused } } }

/-- The step function read as a relation, by cases on the action. -/
theorem step_taken {config : QbtRelayConfig} {relay next : Relay} {action : RelayAction}
    (taken : relay.step config action = some next)
    : Taken config relay action next := by
  cases action with
  | shutdown =>
      cases taken
      exact .flagged true relay.acceptEnded (.inl rfl)
  | upstream move => exact .upstream taken
  | accept peer clock =>
      simp only [step] at taken
      split_ifs at taken
      cases taken
      exact .accepted peer clock
  | acceptFailed =>
      simp only [step] at taken
      split_ifs at taken
      cases taken
      exact .flagged relay.shutdown true (.inr (.inl rfl))
  | acceptStopped =>
      simp only [step] at taken
      split_ifs at taken
      cases taken
      exact .flagged relay.shutdown true (.inr (.inr rfl))
  | check index clock =>
      obtain ⟨session, result, found, acted, rfl⟩ := onSession_eq_some taken
      split_ifs at acted with phase
      obtain rfl := Option.some.inj acted
      exact .session found (.check clock phase)
  | shutdownSeen index =>
      obtain ⟨session, result, found, acted, rfl⟩ := onSession_eq_some taken
      split_ifs at acted with phase
      obtain rfl := Option.some.inj acted
      exact .session found (.shutdownSeen phase.1)
  | read index clock read =>
      obtain ⟨session, result, found, acted, rfl⟩ := onSession_eq_some taken
      split_ifs at acted with phase
      obtain rfl := Option.some.inj acted
      exact .session found (.read clock read phase.1)
  | receive index =>
      obtain ⟨session, result, found, acted, rfl⟩ := onSession_eq_some taken
      split_ifs at acted with phase
      obtain ⟨⟨received, nextChunk⟩, given, rfl⟩ := Option.map_eq_some_iff.mp acted
      exact .session found (.receive received nextChunk phase.1 given)
  | finish index =>
      obtain ⟨session, result, found, acted, rfl⟩ := onSession_eq_some taken
      split at acted
      · next reason phase ended =>
          obtain rfl := Option.some.inj acted
          exact .session found (.finish reason phase ended)
      · cases acted
  | write index move =>
      obtain ⟨session, result, found, acted, rfl⟩ := onSession_eq_some taken
      exact .session found (.write move acted)
  | qualityTick paused =>
      cases taken
      exact .ticked paused

/-- A frame that was found replaces the cached one. -/
theorem observe_cache (relay : Relay) (bytes : Bytes)
    : (relay.observe bytes).state.latestServerListWire
      = (relay.upstream.scanner.observeWireChunk bytes).1.getD
          relay.state.latestServerListWire := by
  unfold observe
  dsimp only
  split
  · next found => rw [found, Option.getD_some, QbtRelayState.setLatestServerListWire]
  · next missing => rw [missing, Option.getD_none]

/-- A session step starts in a phase that has not ended, and keeps what is not its own. -/
theorem SessionStep.move {config : QbtRelayConfig} {relay : Relay} {index : Nat}
    {session : Session} {action : RelayAction} {result : QbtRelayState × Session}
    (found : relay.sessions[index]? = some session)
    (step : SessionStep config relay index session action result)
    : Move config relay action
        { relay with state := result.1, sessions := relay.sessions.set index result.2 } := by
  cases step with
  | check clock phase =>
      have unfinished : session.phase ≠ .ended := by simp [phase]
      exact .served found ((Session.check_serves config relay.shutdown clock.instant
        relay.state unfinished).safe _)
  | shutdownSeen phase =>
      exact .served found ((Session.leave_serves .shutdown (by simp [phase])).safe _)
  | read clock result phase =>
      have unfinished : session.phase ≠ .ended := by simp [phase]
      have serves := Session.onRead_serves clock relay.state result unfinished
      refine .served found { serves with panicked := fun panicked => ?_ }
      rcases serves.panicked panicked with before | ⟨wire, rfl, noisy⟩
      · exact .inl before
      · exact .inr ⟨clock, wire, rfl, noisy⟩
  | receive result nextChunk phase given =>
      have unfinished : session.phase ≠ .ended := by simp [phase]
      exact .served found ((Session.onReceived_serves relay.state result nextChunk
        unfinished).safe _)
  | finish reason phase ended => exact .finished found (by simp [phase])
  | write move written => exact .served found ((Session.write_serves written).safe _)

/-- Every step is a move, by cases on the step. -/
theorem step_move {config : QbtRelayConfig} {relay next : Relay} {action : RelayAction}
    (taken : relay.step config action = some next)
    : Move config relay action next := by
  cases step_taken taken with
  | upstream moved =>
      rcases upstreamStep_cases moved with
        ⟨bytes, -, -, rfl⟩ | ⟨-, phase, serverIndex, attempts, successes, fails, disconnects, rfl⟩
      · exact .observed bytes
      · exact .elsewhere rfl rfl rfl
  | accepted peer clock => exact .accepted peer clock
  | flagged shutdown acceptEnded control => exact .elsewhere rfl rfl rfl
  | session found step => exact step.move found
  | ticked paused => exact .elsewhere rfl rfl rfl

/-- The relay as a machine: the configuration is normalized and must be valid. -/
def machine (config : QbtRelayConfig) : Machine Relay RelayAction where
  Start relay := config.normalized.validate = .ok () ∧ relay = start config
  step := step config.normalized

/-- What holds right after the tasks were spawned and survives every allowed step holds
throughout every run.
-/
theorem run_invariant {config : QbtRelayConfig} {Allowed : Relay → RelayAction → Prop}
    {motive : Relay → Prop} (initial : motive (start config))
    (preserved
      : ∀ relay action next,
          motive relay
          → Allowed relay action
          → relay.step config.normalized action = some next
          → motive next)
    {relay : Relay} (run : (machine config).Reaches Allowed relay)
    : motive relay := by
  refine run.invariant ?_ preserved
  intro first started
  rw [started.2]
  exact initial

/-- A relay for one client. -/
def sampleRelayConfig : QbtRelayConfig where
  email := "relay@example.com".toList
  upstreamServers := [("a".toList, 1)]
  maxClients := 1
  authTimeout := 720 * second
  clientBufferBytes := 65536
  qualityWindowSecs := 30

theorem sampleRelayConfig_starts
    : (machine sampleRelayConfig).Start (start sampleRelayConfig) :=
  ⟨by decide +kernel, rfl⟩

/-- A client connects and its session waits for its first bytes. -/
def clientWaits : List RelayAction :=
  [.accept [] { instant := 0, unixSecs := 0 }, .check 0 { instant := 0, unixSecs := 0 }]

/-- The client logs on. -/
def clientLogsOn : RelayAction :=
  .read 0 { instant := 1, unixSecs := 1 }
    (.bytes (xorFf (toUtf8 (buildLogonMessage "u@x".toList))))

/-- The upstream server answers, takes the logon and is read from. -/
def upstreamAnswers : List RelayAction :=
  [.upstream .attempt, .upstream (.connect true), .upstream (.logon true)]

/-- One byte comes from upstream while the client waits for the next turn of its loop. -/
def upstreamSends (byte : UInt8) : List RelayAction :=
  [.upstream (.read [byte]), .check 0 { instant := 1, unixSecs := 1 }]

end Relay

end Emwin.Qbt
