import Emwin.Library.Brackets
import Emwin.Library.Simulations
import Emwin.Qbt.Client.EndpointPool
import Emwin.Qbt.Client.EventSender
import Emwin.Qbt.File.Assembler

/-! The receiver as its consumer sees it: the connection loop with the sessions' watchdog,
the telemetry counters, and every event that the loop tries to send.
-/

namespace Emwin.Qbt
open Library

structure Watchdog where
  timeout : Duration
  maxExceptions : UInt32
  exceptionCount : UInt32 := 0
  lastData : Instant
  deriving DecidableEq

namespace Watchdog

/-- The timeout is at least one second. -/
def new (timeoutSecs : UInt64) (maxExceptions : UInt32) (now : Instant) : Watchdog where
  timeout := max timeoutSecs.toNat 1 * 1000000000
  maxExceptions := maxExceptions
  lastData := now

def shouldCloseAt (watchdog : Watchdog) (now : Instant) : Bool :=
  watchdog.exceptionCount > watchdog.maxExceptions
  || decide (now - watchdog.lastData > watchdog.timeout)

def onDataReceived (watchdog : Watchdog) (now : Instant) : Watchdog :=
  { watchdog with exceptionCount := 0, lastData := now }

def onException (watchdog : Watchdog) : Watchdog :=
  { watchdog with exceptionCount := watchdog.exceptionCount + 1 }

end Watchdog

/-- The configuration with what the loop reads besides the endpoints. -/
structure ReceiverConfig extends QbtReceiverConfig where
  reconnectDelaySecs : UInt64
  watchdogTimeoutSecs : UInt64
  maxExceptions : UInt32
  deriving DecidableEq

/-- What the receiver sends: an event or an error. -/
abbrev Offer := Except QbtReceiverError QbtReceiverEvent

def endpointLabel (endpoint : Endpoint) : Text :=
  endpoint.1 ++ ':' :: Nat.toDigits 10 endpoint.2.toNat

def isDecoderRecovery : QbtFrameEvent → Bool
  | .warning (.decoderRecovered _) => true
  | _ => false

def isDataBlock : QbtFrameEvent → Bool
  | .dataBlock _ => true
  | _ => false

def isServerListUpdate : QbtFrameEvent → Bool
  | .serverListUpdate _ => true
  | _ => false

def isChecksumMismatch : QbtFrameEvent → Bool
  | .warning (.checksumMismatch ..) => true
  | _ => false

def isDecompressionFailure : QbtFrameEvent → Bool
  | .warning (.decompressionFailed ..) => true
  | _ => false

/-- The number of events of a kind as a 64-bit number; no list in memory is longer. -/
def countEvents (kind : QbtFrameEvent → Bool) (events : List QbtFrameEvent) : UInt64 :=
  saturated (events.countP kind)

/-- One more. -/
def bump (counter : UInt64) : UInt64 := saturatingAdd counter 1

/-- What a session keeps besides its endpoint and its decoder. -/
structure ConnectedSession where
  watchdog : Watchdog
  loggedOn : Bool := false
  deriving DecidableEq

/-- The receiver's task. `loop` is the connection loop with its phase, `sink` the snapshot
that other tasks can read. `offered` is a record of everything that the task tried to send;
the code does not read it.
-/
structure Receiver where
  loop : ConnectionLoop
  sender : EventSender
  counters : SessionCounters := {}
  sink : QbtReceiverTelemetrySnapshot × SessionCounters := ({}, {})
  session : Option ConnectedSession := none
  wakesAt : Instant := 0
  clock : Instant := 0
  offered : List Offer := []

/-- One step of the task or of its environment. `failures` gives the messages of the handlers
that fail on each event of a read, in the order of the handlers.
-/
inductive ReceiverAction where
  | shutdown
  | elapse (time : Duration)
  | consume
  | closeStream
  | ask
  | wake
  | connect (result : Except Text Unit)
  | logon (written : Except Text Unit)
  | telemetryTick
  | read (result : Except Text Bytes) (contexts : Nat → UpdateContext)
      (failures : Nat → List Text)
  | readTimeout
  | noticeShutdown
  | stop

namespace Receiver

/-- Try to send an event or an error. -/
def offer (item : Offer) (receiver : Receiver) : Receiver :=
  { receiver with
    sender := receiver.sender.send item
    offered := receiver.offered ++ [item] }

def offerAll (items : List Offer) (receiver : Receiver) : Receiver :=
  items.foldl (fun receiver item => receiver.offer item) receiver

def count (change : SessionCounters → SessionCounters) (receiver : Receiver) : Receiver :=
  { receiver with counters := change receiver.counters }

/-- Make the counters visible to other tasks. -/
def updateTelemetrySink (receiver : Receiver) : Receiver :=
  { receiver with sink := (receiver.sender.telemetry.snapshot, receiver.counters) }

/-- A task before its first turn, on a fresh channel of any capacity. An error from loading
the persisted list is sent at once.
-/
def start (config : ReceiverConfig) (capacity : Nat) (positive : 0 < capacity)
    (nonce seed loadSeed : UInt64)
    (stored : Option (Except QbtReceiverError PersistedServerList))
    : Receiver :=
  let fresh : Receiver :=
    { loop := .start config.toQbtReceiverConfig nonce seed loadSeed stored
      sender := { channel := .new capacity positive } }
  if config.followServerListUpdates then
    let serverList := ServerListManager.new nonce seed config.serverListPath config.servers
    match (serverList.load loadSeed stored).1 with
    | .ok () => fresh
    | .error error => fresh.offer (.error error)
  else fresh

/-- The loop asks for an endpoint; without one it sleeps. -/
def asked (config : ReceiverConfig) (loop : ConnectionLoop) (receiver : Receiver) : Receiver :=
  let receiver := { receiver with loop }.count fun counters =>
    { counters with connectionAttemptsTotal := bump counters.connectionAttemptsTotal }
  let receiver := receiver.updateTelemetrySink
  match loop.phase with
  | .sleeping =>
      let receiver := receiver.offer (.error (.lifecycle "no servers configured".toList))
      { receiver.updateTelemetrySink with
        wakesAt := receiver.clock + max config.reconnectDelaySecs.toNat 1 * 1000000000 }
  | _ => receiver

/-- A connection stands, and its session begins. -/
def connected (config : ReceiverConfig) (endpoint : Endpoint) (loop : ConnectionLoop)
    (receiver : Receiver)
    : Receiver :=
  let receiver := { receiver with loop }.count fun counters =>
    { counters with connectionSuccessTotal := bump counters.connectionSuccessTotal }
  let receiver := (receiver.offer (.ok (.connected (endpointLabel endpoint)))).updateTelemetrySink
  { receiver with
    session := some
      { watchdog := .new config.watchdogTimeoutSecs config.maxExceptions receiver.clock } }

/-- A connection fails. -/
def refused (reason : Text) (loop : ConnectionLoop) (receiver : Receiver) : Receiver :=
  let receiver := { receiver with loop }.count fun counters =>
    { counters with connectionFailTotal := bump counters.connectionFailTotal }
  (receiver.offer (.error (.io reason))).updateTelemetrySink

/-- The session is over, with an error or without one. -/
def left (result : Except QbtReceiverError Unit) (loop : ConnectionLoop) (receiver : Receiver)
    : Receiver :=
  let receiver :=
    match result with
    | .ok () => receiver
    | .error error => receiver.offer (.error error)
  let receiver := { receiver with loop, session := none }.count fun counters =>
    { counters with disconnectTotal := bump counters.disconnectTotal }
  (receiver.offer (.ok .disconnected)).updateTelemetrySink

def leave (externals : Externals) (config : ReceiverConfig)
    (result : Except QbtReceiverError Unit) (receiver : Receiver)
    : Option Receiver :=
  (receiver.loop.step externals config.toQbtReceiverConfig .sessionEnds).map fun loop =>
    receiver.left result loop

/-- The errors of applying the server lists among the events of one read. -/
def updateErrors (contexts : Nat → UpdateContext)
    : Nat → List QbtFrameEvent → ConnectionLoop → List QbtReceiverError
  | _, [], _ => []
  | index, .serverListUpdate list :: rest, loop =>
      let later := updateErrors contexts (index + 1) rest (loop.applyUpdate (contexts index) list)
      match (loop.serverList.applyServerList (contexts index).seed (contexts index).written
        list).1 with
      | .ok () => later
      | .error error => error :: later
  | index, _ :: rest, loop => updateErrors contexts index rest loop

/-- The counters after a read. -/
def countRead (chunk : Bytes) (events : List QbtFrameEvent) (counters : SessionCounters)
    : SessionCounters :=
  { counters with
    bytesInTotal := saturatingAdd counters.bytesInTotal (saturated chunk.length)
    frameEventsTotal := saturatingAdd counters.frameEventsTotal (saturated events.length)
    dataBlocksEmittedTotal :=
      saturatingAdd counters.dataBlocksEmittedTotal (countEvents isDataBlock events)
    serverListUpdatesTotal :=
      saturatingAdd counters.serverListUpdatesTotal (countEvents isServerListUpdate events)
    checksumMismatchTotal :=
      saturatingAdd counters.checksumMismatchTotal (countEvents isChecksumMismatch events)
    decompressionFailedTotal :=
      saturatingAdd counters.decompressionFailedTotal
        (countEvents isDecompressionFailure events) }

/-- Count the decoder recoveries among the events of a read. -/
def countRecoveries (events : List QbtFrameEvent) (receiver : Receiver) : Receiver :=
  { receiver with
    sender :=
      ((receiver.sender.step (.recovered (countEvents isDecoderRecovery events))).getD
        receiver.sender) }

/-- A handler fails on an event. -/
def handlerFailed (message : Text) (receiver : Receiver) : Receiver :=
  let receiver := receiver.count fun counters =>
    { counters with handlerFailuresTotal := bump counters.handlerFailuresTotal }
  receiver.offer (.ok (.frame (.warning (.handlerError message))))

/-- Send the events, each after the warnings of the handlers that fail on it. -/
def dispatchEvents (failures : Nat → List Text)
    : Nat → List QbtFrameEvent → Receiver → Receiver
  | _, [], receiver => receiver
  | index, event :: rest, receiver =>
      let receiver := (failures index).foldl (fun receiver message =>
        receiver.handlerFailed message) receiver
      dispatchEvents failures (index + 1) rest (receiver.offer (.ok (.frame event)))

/-- Bytes were read, and the decoder found events in them. -/
def received (config : ReceiverConfig) (contexts : Nat → UpdateContext)
    (failures : Nat → List Text) (session : ConnectedSession) (chunk : Bytes)
    (events : List QbtFrameEvent) (loop : ConnectionLoop) (receiver : Receiver)
    : Receiver :=
  let before := receiver.loop
  let receiver :=
    { receiver with
      loop
      session := some
        { session with watchdog := session.watchdog.onDataReceived receiver.clock } }
  let receiver := (receiver.count (countRead chunk events)).countRecoveries events
  let receiver :=
    if config.followServerListUpdates then
      receiver.offerAll ((updateErrors contexts 0 events before).map .error)
    else receiver
  (receiver.dispatchEvents failures 0 events).updateTelemetrySink

/-- What a read gives: bytes, the end of the stream, or an error. -/
def readStep (externals : Externals) (config : ReceiverConfig)
    (contexts : Nat → UpdateContext) (failures : Nat → List Text) (session : ConnectedSession)
    (receiver : Receiver)
    : Except Text Bytes → Option Receiver
  | .ok [] => receiver.leave externals config (.ok ())
  | .ok (first :: rest) =>
      match receiver.loop.phase with
      | .connected _ decoder =>
          (receiver.loop.step externals config.toQbtReceiverConfig
            (.read (first :: rest) contexts)).map fun loop =>
              receiver.received config contexts failures session (first :: rest)
                (decoder.feed externals (first :: rest)).1 loop
      | _ => none
  | .error reason =>
      let receiver :=
        { receiver with session := some { session with watchdog := session.watchdog.onException } }
      let receiver := receiver.count fun counters =>
        { counters with
          watchdogExceptionEventsTotal := bump counters.watchdogExceptionEventsTotal }
      receiver.updateTelemetrySink.leave externals config (.error (.io reason))

/-- A logon message is written, or cannot be. -/
def logonStep (externals : Externals) (config : ReceiverConfig) (session : ConnectedSession)
    (receiver : Receiver)
    : Except Text Unit → Option Receiver
  | .ok () =>
      let receiver := receiver.count fun counters =>
        { counters with authLogonSentTotal := bump counters.authLogonSentTotal }
      some { receiver.updateTelemetrySink with session := some { session with loggedOn := true } }
  | .error reason => receiver.leave externals config (.error (.io reason))

/-- Nothing was read for a second. -/
def timeoutStep (externals : Externals) (config : ReceiverConfig) (session : ConnectedSession)
    (receiver : Receiver)
    : Option Receiver :=
  if session.watchdog.shouldCloseAt receiver.clock then
    let receiver := receiver.count fun counters =>
      { counters with watchdogTimeoutsTotal := bump counters.watchdogTimeoutsTotal }
    receiver.updateTelemetrySink.leave externals config
      (.error (.lifecycle "watchdog timeout".toList))
  else some receiver

/-- The steps of a session; only a logon message can precede all others. -/
def sessionStep (externals : Externals) (config : ReceiverConfig) (session : ConnectedSession)
    (receiver : Receiver)
    : ReceiverAction → Option Receiver
  | .logon written => receiver.logonStep externals config session written
  | .telemetryTick =>
      if session.loggedOn then
        let receiver := receiver.count fun counters =>
          { counters with
            telemetryEventsEmittedTotal := bump counters.telemetryEventsEmittedTotal }
        let snapshot := receiver.sender.telemetry.snapshot
        some (receiver.offer (.ok (.telemetry snapshot receiver.counters))).updateTelemetrySink
      else none
  | .read result contexts failures =>
      if session.loggedOn then
        receiver.readStep externals config contexts failures session result
      else none
  | .readTimeout =>
      if session.loggedOn then receiver.timeoutStep externals config session else none
  | .noticeShutdown =>
      if session.loggedOn ∧ receiver.loop.shutdown then
        receiver.leave externals config (.ok ())
      else none
  | _ => none

def step (externals : Externals) (config : ReceiverConfig) (receiver : Receiver)
    (action : ReceiverAction)
    : Option Receiver :=
  let turn := receiver.loop.step externals config.toQbtReceiverConfig
  match action with
  | .shutdown => (turn .shutdown).map fun loop => { receiver with loop }
  | .elapse time => some { receiver with clock := receiver.clock + time }
  | .consume =>
      (receiver.sender.step .receive).map fun sender => { receiver with sender }
  | .closeStream =>
      (receiver.sender.step .close).map fun sender => { receiver with sender }
  | .ask => (turn .ask).map fun loop => receiver.asked config loop
  | .wake =>
      if receiver.wakesAt ≤ receiver.clock ∨ receiver.loop.shutdown then
        (turn .wake).map fun loop => { receiver with loop }
      else none
  | .connect (.ok ()) =>
      match receiver.loop.phase with
      | .connecting endpoint =>
          (turn (.connect true)).map fun loop => receiver.connected config endpoint loop
      | _ => none
  | .connect (.error reason) =>
      (turn (.connect false)).map fun loop => receiver.refused reason loop
  | .stop =>
      (turn .stop).map fun loop => { receiver with loop }.updateTelemetrySink
  | action =>
      match receiver.session with
      | some session => receiver.sessionStep externals config session action
      | none => none

/-- The task for every valid configuration, entropy, persisted list and channel. -/
def machine (externals : Externals) (config : ReceiverConfig)
    : Machine Receiver ReceiverAction where
  Start receiver :=
    config.validate = .ok ()
    ∧ ∃ capacity positive nonce seed loadSeed stored,
        receiver = start config capacity positive nonce seed loadSeed stored
  step := step externals config

end Receiver

end Emwin.Qbt
