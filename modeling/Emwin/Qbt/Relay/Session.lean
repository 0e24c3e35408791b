import Emwin.Qbt.Relay.Auth
import Emwin.Qbt.Relay.State

/-! One downstream client: its session task and the writer task that it feeds. -/

namespace Emwin.Qbt
open Library

def initialAuthTimeoutSecs : Nat := 30
def clientWriterQueueCapacity : Nat := 1024
def clientReadBufferBytes : Nat := 2048

/-- Most permits that a semaphore of the async runtime can hold; creating a larger one
panics.
-/
def maxPermits : Nat := 2 ^ 61 - 1

inductive DisconnectReason where
  | clientClosed
  | initialAuthTimeout
  | reauthTimeout
  | shutdown
  | clientReadError
  | slowClientBufferExceeded
  | writerChannelClosed
  | writerQueueFull
  | broadcastLagged
  | upstreamChannelClosed
  deriving DecidableEq, Repr

/-- Where a session task stands. A session that left its loop waits for its writer before it
ends; a task that panicked never gets there.
-/
inductive SessionPhase where
  | checking
  | selecting
  | closing (reason : DisconnectReason)
  | ended
  | panicked
  deriving DecidableEq, Repr

inductive Writer where
  | waiting
  | writing (chunk : Bytes)
  | ended
  deriving DecidableEq, Repr

/-- A monotonic clock reading and the wall clock at the same moment. -/
structure Clock where
  instant : Nat
  unixSecs : UInt64
  deriving DecidableEq, Repr

structure Session where
  clientId : UInt64
  peer : Text
  phase : SessionPhase
  authParser : AuthParser
  connectedAt : Nat
  lastAuth : Nat
  email : Text
  isAuthenticated : Bool
  nextChunk : Nat
  permits : Nat
  queue : List Bytes
  writer : Writer
  written : Bytes
  deriving DecidableEq, Repr

/-- What a read of the client's socket gives within its second. -/
inductive ClientRead where
  | bytes (wire : Bytes)
  | failed
  | timedOut
  deriving DecidableEq, Repr

/-- What the session's receiver of upstream chunks gives. -/
inductive Received where
  | chunk (bytes : Bytes)
  | lagged
  | closed
  deriving DecidableEq, Repr

inductive WriterMove where
  | take
  | wrote
  | failed (taken : Nat)
  | close
  deriving DecidableEq, Repr

namespace SessionPhase

/-- The task still runs; also while it waits for its writer. -/
def running : SessionPhase → Bool
  | .ended => false
  | .panicked => false
  | _ => true

/-- The sending side of the writer queue still exists. -/
def looping : SessionPhase → Bool
  | .checking => true
  | .selecting => true
  | _ => false

end SessionPhase

/-- Permits for one chunk; the length is cast to 32 bits. -/
def permitsFor (chunk : Bytes) : Nat := chunk.length % 2 ^ 32

namespace Session

/-- A session task that was just spawned, with a receiver at the end of the chunks sent so
far. Its first step creates the semaphore.
-/
def start (config : QbtRelayConfig) (clientId : UInt64) (peer : Text) (sent now : Nat)
    : Session where
  clientId := clientId
  peer := peer
  phase := if config.clientBufferBytes > maxPermits then .panicked else .checking
  authParser := {}
  connectedAt := now
  lastAuth := now
  email := []
  isAuthenticated := false
  nextChunk := sent
  permits := config.clientBufferBytes
  queue := []
  writer := if config.clientBufferBytes > maxPermits then .ended else .waiting
  written := []

def leave (session : Session) (reason : DisconnectReason) : Session :=
  { session with phase := .closing reason }

/-- The tests at the head of the session loop. -/
def check (config : QbtRelayConfig) (shutdown : Bool) (now : Nat) (state : QbtRelayState)
    (session : Session)
    : QbtRelayState × Session :=
  let timedOut := { state with
    metrics := { state.metrics with
      downstreamDisconnectAuthTimeoutTotal :=
        state.metrics.downstreamDisconnectAuthTimeoutTotal + 1 } }
  -- the reason is only set by the branch that sees the change itself
  if shutdown then (state, session.leave .clientClosed)
  else if !session.isAuthenticated
      && now - session.connectedAt ≥ initialAuthTimeoutSecs * second then
    (timedOut, session.leave .initialAuthTimeout)
  else if session.isAuthenticated && now - session.lastAuth ≥ config.authTimeout then
    (timedOut, session.leave .reauthTimeout)
  else (state, { session with phase := .selecting })

/-- A complete logon was read: the client enters the client table. -/
def authenticate (clock : Clock) (state : QbtRelayState) (session : Session) (email : Text)
    : QbtRelayState × Session :=
  let client : QbtRelayClientMeta :=
    { email
      peer := session.peer
      connectedAtUnixSecs := clock.unixSecs
      lastAuthUnixSecs := clock.unixSecs }
  ({ state with clients := state.clients.insert session.clientId client },
    { session with email, lastAuth := clock.instant, isAuthenticated := true })

/-- The branch of the client's socket. -/
def onRead (clock : Clock) (state : QbtRelayState) (session : Session)
    : ClientRead → QbtRelayState × Session
  | .bytes [] => (state, session.leave .clientClosed)
  | .bytes wire =>
      match session.authParser.consume wire with
      | none => (state, { session with phase := .panicked })
      | some (found, authParser) =>
          let session := { session with authParser, phase := .checking }
          match found with
          | some email => session.authenticate clock state email
          | none => (state, session)
  | .failed => (state, session.leave .clientReadError)
  | .timedOut => (state, { session with phase := .checking })

/-- Count a chunk that the client was too slow for. -/
def dropSlow (state : QbtRelayState) (chunk : Bytes) : QbtRelayState :=
  { state with
    metrics := { state.metrics with
      downstreamDisconnectSlowClientTotal :=
        state.metrics.downstreamDisconnectSlowClientTotal + 1
      bytesDroppedTotal :=
        state.metrics.bytesDroppedTotal + UInt64.ofNat chunk.length } }

/-- Hand one upstream chunk to the writer. -/
def forward (state : QbtRelayState) (session : Session) (chunk : Bytes)
    : QbtRelayState × Session :=
  if state.metrics.forwardingPaused then (state, { session with phase := .checking })
  else
    let state := state.addAttempted (UInt64.ofNat chunk.length)
    if session.permits < permitsFor chunk then
      (dropSlow state chunk, session.leave .slowClientBufferExceeded)
    else if session.writer = .ended then (state, session.leave .writerChannelClosed)
    else if session.queue.length ≥ clientWriterQueueCapacity then
      (dropSlow state chunk, session.leave .writerQueueFull)
    else
      (state,
        { session with
          phase := .checking
          permits := session.permits - permitsFor chunk
          queue := session.queue ++ [chunk] })

/-- The branch of the upstream receiver. -/
def onReceived (state : QbtRelayState) (session : Session)
    : Received → QbtRelayState × Session
  | .chunk bytes => session.forward state bytes
  | .lagged =>
      ({ state with
        metrics := { state.metrics with
          downstreamDisconnectLaggedTotal :=
            state.metrics.downstreamDisconnectLaggedTotal + 1 } },
        session.leave .broadcastLagged)
  | .closed => (state, session.leave .upstreamChannelClosed)

/-- The end of a session task, once its writer has ended. -/
def finish (state : QbtRelayState) (session : Session) : QbtRelayState × Session :=
  ({ state with
    clients := state.clients.erase session.clientId
    metrics := state.metrics.releaseSlot },
    { session with phase := .ended })

/-- The writer ends and drops its queue with the permits of the queued chunks. -/
def endWriter (session : Session) : Session :=
  { session with
    writer := .ended
    permits := session.permits + (session.queue.map permitsFor).sum
    queue := [] }

/-- One move of the writer task; a failed write may have passed on a part of its chunk. -/
def write (state : QbtRelayState) (session : Session)
    : WriterMove → Option (QbtRelayState × Session)
  | .take =>
      match session.writer, session.queue with
      | .waiting, chunk :: rest =>
          some (state, { session with writer := .writing chunk, queue := rest })
      | _, _ => none
  | .wrote =>
      match session.writer with
      | .writing chunk =>
          some (state.addForwarded (UInt64.ofNat chunk.length),
            { session with
              writer := .waiting
              permits := session.permits + permitsFor chunk
              written := session.written ++ chunk })
      | _ => none
  | .failed taken =>
      match session.writer with
      | .writing chunk =>
          some ({ state with
              metrics := { state.metrics with
                bytesDroppedTotal :=
                  state.metrics.bytesDroppedTotal + UInt64.ofNat chunk.length } },
            { session with
              permits := session.permits + permitsFor chunk
              written := session.written ++ chunk.take taken }.endWriter)
      | _ => none
  | .close =>
      match session.writer, session.queue with
      | .waiting, [] => if session.phase.looping then none else some (state, session.endWriter)
      | _, _ => none

-----------------------------------------------------------------------------------------
-- What a step of a session leaves alone
-----------------------------------------------------------------------------------------

/-- A step of a session or of its writer that takes or releases no slot and leaves the
cached server list alone. It panics only for the given cause.
-/
structure Serves (cause : Prop) (state : QbtRelayState) (session : Session)
    (result : QbtRelayState × Session)
    : Prop where
  active : result.1.metrics.downstreamActiveClients = state.metrics.downstreamActiveClients
  wire : result.1.latestServerListWire = state.latestServerListWire
  ended : result.2.phase = .ended ↔ session.phase = .ended
  panicked : result.2.phase = .panicked → session.phase = .panicked ∨ cause

variable {state : QbtRelayState} {session : Session}

/-- A step that cannot panic needs no cause. -/
theorem Serves.safe {result : QbtRelayState × Session} (cause : Prop)
    (serves : Serves False state session result)
    : Serves cause state session result :=
  { active := serves.active
    wire := serves.wire
    ended := serves.ended
    panicked := fun panicked => .inl ((serves.panicked panicked).resolve_right id) }

theorem leave_serves (reason : DisconnectReason) (unfinished : session.phase ≠ .ended)
    : Serves False state session (state, session.leave reason) :=
  ⟨rfl, rfl, by simp [leave, unfinished], by simp [leave]⟩

theorem check_serves (config : QbtRelayConfig) (shutdown : Bool) (now : Nat)
    (state : QbtRelayState) (unfinished : session.phase ≠ .ended)
    : Serves False state session (session.check config shutdown now state) := by
  unfold check
  split_ifs <;> exact ⟨rfl, rfl, by simp [leave, unfinished], by simp [leave]⟩

/-- Reading panics only inside the logon parser. -/
theorem onRead_serves (clock : Clock) (state : QbtRelayState) (result : ClientRead)
    (unfinished : session.phase ≠ .ended)
    : Serves (∃ wire, result = .bytes wire ∧ ¬ session.authParser.Fits wire) state session
        (session.onRead clock state result) := by
  unfold onRead
  split
  · exact ⟨rfl, rfl, by simp [leave, unfinished], by simp [leave]⟩
  · next wire _ =>
      split
      · next panics =>
          refine ⟨rfl, rfl, by simp [unfinished], fun _ => .inr ⟨wire, rfl, ?_⟩⟩
          rw [← AuthParser.consume_isSome_iff, panics]
          simp
      · dsimp only
        split <;> exact ⟨rfl, rfl, by simp [authenticate, unfinished], by simp [authenticate]⟩
  · exact ⟨rfl, rfl, by simp [leave, unfinished], by simp [leave]⟩
  · exact ⟨rfl, rfl, by simp [unfinished], by simp⟩

theorem onReceived_serves (state : QbtRelayState) (result : Received) (nextChunk : Nat)
    (unfinished : session.phase ≠ .ended)
    : Serves False state session ({ session with nextChunk }.onReceived state result) := by
  cases result with
  | chunk bytes =>
      simp only [onReceived, forward]
      split_ifs <;> exact ⟨rfl, rfl, by simp [leave, unfinished], by simp [leave]⟩
  | lagged | closed =>
      simp only [onReceived]
      exact ⟨rfl, rfl, by simp [leave, unfinished], by simp [leave]⟩

/-- The writer works on its own: the session task does not move. -/
theorem write_serves {move : WriterMove} {next : QbtRelayState × Session}
    (taken : session.write state move = some next)
    : Serves False state session next := by
  cases move <;> simp only [write] at taken <;> split at taken
  all_goals (try split at taken)
  all_goals (try cases taken)
  all_goals exact ⟨rfl, rfl, .rfl, .inl⟩

end Session

end Emwin.Qbt
