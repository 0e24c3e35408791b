import Emwin.Library.Machine
import Emwin.Qbt.Client.ServerListManager
import Emwin.Qbt.Protocol.CodecRuns

/-! The receiver's connection loop: endpoints, connections, and server lists that arrive
inside a session.
-/

namespace Emwin.Qbt
open Library

def sessionReadBufferBytes : Nat := 8192

structure QbtReceiverConfig where
  email : Text
  servers : List Endpoint
  serverListPath : Option Text
  followServerListUpdates : Bool
  decode : QbtDecodeConfig
  deriving DecidableEq, Repr

def QbtReceiverConfig.validate (config : QbtReceiverConfig)
    : Except QbtReceiverConfigError Unit :=
  if trim config.email = [] then .error .emptyEmail
  else if config.servers = [] then .error .noServers
  else .ok ()

inductive LoopPhase where
  | head
  | sleeping
  | connecting (endpoint : Endpoint)
  | connected (endpoint : Endpoint) (decoder : QbtProtocolDecoder)
  | ended
  deriving DecidableEq, Repr

/-- The loop's state. `failed` is a record of the endpoints excluded since the list in force
took effect; the code does not read it.
-/
structure ConnectionLoop where
  serverList : ServerListManager
  shutdown : Bool := false
  phase : LoopPhase := .head
  failed : List Endpoint := []
  deriving DecidableEq, Repr

/-- Entropy and the outcome of writing the file, for one update. -/
structure UpdateContext where
  seed : UInt64
  written : Except QbtReceiverError Unit

/-- One step of the loop, with what its environment gives it. -/
inductive LoopAction where
  | shutdown
  | ask
  | wake
  | connect (succeeded : Bool)
  | read (chunk : Bytes) (contexts : Nat → UpdateContext)
  | sessionEnds
  | stop

namespace ConnectionLoop

/-- The state before the first turn. A persisted list is loaded only when server lists are
followed.
-/
def start (config : QbtReceiverConfig) (nonce seed loadSeed : UInt64)
    (stored : Option (Except QbtReceiverError PersistedServerList))
    : ConnectionLoop :=
  let serverList := ServerListManager.new nonce seed config.serverListPath config.servers
  { serverList :=
      if config.followServerListUpdates then (serverList.load loadSeed stored).2
      else serverList }

/-- Exclude an endpoint that failed or was lost. -/
def markBad (config : QbtReceiverConfig) (endpoint : Endpoint) (loop : ConnectionLoop)
    : ConnectionLoop :=
  if config.followServerListUpdates then
    { loop with
      serverList := loop.serverList.markBadEndpoint endpoint
      failed := endpoint :: loop.failed }
  else loop

/-- Apply one server list; the record starts anew when the list takes effect. -/
def applyUpdate (context : UpdateContext) (list : QbtServerList) (loop : ConnectionLoop)
    : ConnectionLoop :=
  { loop with
    serverList := (loop.serverList.applyServerList context.seed context.written list).2
    failed := if list.servers = [] ∧ list.satServers = [] then loop.failed else [] }

/-- Apply the server lists among the events of one read. -/
def applyUpdates (contexts : Nat → UpdateContext)
    : Nat → List QbtFrameEvent → ConnectionLoop → ConnectionLoop
  | _, [], loop => loop
  | index, .serverListUpdate list :: rest, loop =>
      applyUpdates contexts (index + 1) rest (loop.applyUpdate (contexts index) list)
  | index, _ :: rest, loop => applyUpdates contexts index rest loop

/-- The part of the loop that asks for an endpoint. -/
def ask (loop : ConnectionLoop) : ConnectionLoop :=
  match loop.serverList.nextEndpoint with
  | (some endpoint, serverList) => { loop with serverList, phase := .connecting endpoint }
  | (none, serverList) => { loop with serverList, phase := .sleeping }

def step (externals : Externals) (config : QbtReceiverConfig) (loop : ConnectionLoop)
    : LoopAction → Option ConnectionLoop
  | .shutdown => some { loop with shutdown := true }
  | .ask => if loop.phase = .head ∧ ¬ loop.shutdown then some loop.ask else none
  | .wake => if loop.phase = .sleeping then some { loop with phase := .head } else none
  | .connect succeeded =>
      match loop.phase with
      | .connecting endpoint =>
          if succeeded then
            some { loop with phase := .connected endpoint (.new config.decode) }
          else some (markBad config endpoint { loop with phase := .head })
      | _ => none
  | .read chunk contexts =>
      match loop.phase with
      | .connected endpoint decoder =>
          if chunk ≠ [] ∧ chunk.length ≤ sessionReadBufferBytes then
            let (events, decoder) := decoder.feed externals chunk
            let loop := { loop with phase := .connected endpoint decoder }
            if config.followServerListUpdates then some (loop.applyUpdates contexts 0 events)
            else some loop
          else none
      | _ => none
  | .sessionEnds =>
      match loop.phase with
      | .connected endpoint _ =>
          let loop := { loop with phase := .head }
          if loop.shutdown then some loop else some (loop.markBad config endpoint)
      | _ => none
  | .stop =>
      if loop.phase = .head ∧ loop.shutdown then some { loop with phase := .ended } else none

/-- The loop as a machine, for every valid configuration, entropy and persisted list. -/
def machine (externals : Externals) (config : QbtReceiverConfig)
    : Machine ConnectionLoop LoopAction where
  Start loop :=
    config.validate = .ok ()
    ∧ ∃ nonce seed loadSeed stored, loop = start config nonce seed loadSeed stored
  step := step externals config

-----------------------------------------------------------------------------------------
-- The moves of the loop
-----------------------------------------------------------------------------------------

/-- A step that excludes an endpoint: a connection fails, or a session ends on its own. -/
def Excludes (loop : ConnectionLoop) (action : LoopAction) (endpoint : Endpoint) : Prop :=
  (action = .connect false ∧ loop.phase = .connecting endpoint)
  ∨ (action = .sessionEnds ∧ loop.shutdown = false
    ∧ ∃ decoder, loop.phase = .connected endpoint decoder)

/-- Everything one step can do to the endpoints. -/
inductive Move (config : QbtReceiverConfig) (loop : ConnectionLoop) (action : LoopAction)
    : ConnectionLoop → Prop
  | elsewhere {next} (serverList : next.serverList = loop.serverList)
    (failed : next.failed = loop.failed)
    : Move config loop action next
  | asked : Move config loop action loop.ask
  | updated (phase : LoopPhase) (contexts : Nat → UpdateContext)
    (events : List QbtFrameEvent)
    : Move config loop action ({ loop with phase }.applyUpdates contexts 0 events)
  | excluded {endpoint} (excludes : Excludes loop action endpoint)
    : Move config loop action (markBad config endpoint { loop with phase := .head })

/-- Every step is a move, by cases on the action. -/
theorem step_move {externals : Externals} {config : QbtReceiverConfig}
    {loop next : ConnectionLoop} {action : LoopAction}
    (taken : loop.step externals config action = some next)
    : Move config loop action next := by
  cases action with
  | shutdown =>
      cases taken
      exact .elsewhere rfl rfl
  | ask =>
      simp only [step] at taken
      split_ifs at taken
      cases taken
      exact .asked
  | wake | stop =>
      simp only [step] at taken
      split_ifs at taken
      cases taken
      exact .elsewhere rfl rfl
  | connect succeeded =>
      simp only [step] at taken
      split at taken
      · next endpoint phase =>
          cases succeeded with
          | true =>
              cases taken
              exact .elsewhere rfl rfl
          | false =>
              cases taken
              exact .excluded (.inl ⟨rfl, phase⟩)
      · cases taken
  | read chunk contexts =>
      simp only [step] at taken
      split at taken
      · split_ifs at taken <;> cases taken
        · exact .updated _ contexts _
        · exact .elsewhere rfl rfl
      · cases taken
  | sessionEnds =>
      simp only [step] at taken
      split at taken
      · next endpoint decoder phase =>
          split_ifs at taken with shutdown <;> cases taken
          · exact .elsewhere rfl rfl
          · exact .excluded (.inr ⟨rfl, by simpa using shutdown, decoder, phase⟩)
      · cases taken

end ConnectionLoop

end Emwin.Qbt
