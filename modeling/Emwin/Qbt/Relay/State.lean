import Emwin.Library.KeyedMap
import Emwin.Library.Saturating
import Emwin.Qbt.Protocol.ServerListWire

/-! Shared state of the relay: configuration, counters, client table, quality window and the
cached server-list frame.
-/

namespace Emwin.Qbt
open Library

/-- Nanoseconds in one second; instants and durations count nanoseconds. -/
def second : Nat := 1000000000

structure QbtRelayConfig where
  email : Text
  upstreamServers : List Endpoint
  maxClients : UInt64
  authTimeout : Nat
  clientBufferBytes : Nat
  qualityWindowSecs : Nat
  deriving DecidableEq, Repr

inductive QbtRelayError where
  | config (reason : Text)
  deriving DecidableEq, Repr

namespace QbtRelayConfig

def normalized (config : QbtRelayConfig) : QbtRelayConfig :=
  { config with
    maxClients := max config.maxClients 1
    authTimeout := max config.authTimeout second
    clientBufferBytes := max config.clientBufferBytes 1
    qualityWindowSecs := max config.qualityWindowSecs 1 }

def validate (config : QbtRelayConfig) : Except QbtRelayError Unit :=
  if trim config.email = [] then .error (.config "email must not be empty".toList)
  else if config.upstreamServers = [] then
    .error (.config "at least one upstream server is required".toList)
  else .ok ()

end QbtRelayConfig

/-- Counters of the relay; atomic additions wrap. -/
structure Metrics where
  upstreamConnectionAttemptsTotal : UInt64 := 0
  upstreamConnectionSuccessTotal : UInt64 := 0
  upstreamConnectionFailTotal : UInt64 := 0
  upstreamDisconnectTotal : UInt64 := 0
  downstreamConnectionsAcceptedTotal : UInt64 := 0
  downstreamConnectionsRejectedOverCapacityTotal : UInt64 := 0
  downstreamDisconnectAuthTimeoutTotal : UInt64 := 0
  downstreamDisconnectSlowClientTotal : UInt64 := 0
  downstreamDisconnectLaggedTotal : UInt64 := 0
  downstreamActiveClients : UInt64 := 0
  bytesInTotal : UInt64 := 0
  bytesAttemptedTotal : UInt64 := 0
  bytesForwardedTotal : UInt64 := 0
  bytesDroppedTotal : UInt64 := 0
  forwardingPaused : Bool := false
  deriving DecidableEq, Repr

namespace Metrics

/-- The accept loop's `fetch_update`: one more active client, unless all slots are taken. -/
def takeSlot (metrics : Metrics) (maxClients : UInt64) : Option Metrics :=
  if metrics.downstreamActiveClients < maxClients then
    some { metrics with downstreamActiveClients := metrics.downstreamActiveClients + 1 }
  else none

def releaseSlot (metrics : Metrics) : Metrics :=
  { metrics with downstreamActiveClients := metrics.downstreamActiveClients - 1 }

end Metrics

structure QbtRelayClientMeta where
  email : Text
  peer : Text
  connectedAtUnixSecs : UInt64
  lastAuthUnixSecs : UInt64
  deriving DecidableEq, Repr

structure QualityBucket where
  attempted : UInt64 := 0
  forwarded : UInt64 := 0
  deriving DecidableEq, Repr

/-- A ring of buckets; the current bucket always exists. -/
structure QualityWindow where
  buckets : List QualityBucket
  index : Nat
  inRange : index < buckets.length

namespace QualityWindow

def new (size : Nat) : QualityWindow where
  buckets := List.replicate (max size 1) {}
  index := 0
  inRange := by
    rw [List.length_replicate]
    omega

def rotate (window : QualityWindow) : QualityWindow where
  buckets := window.buckets.set ((window.index + 1) % window.buckets.length) {}
  index := (window.index + 1) % window.buckets.length
  inRange := by
    rw [List.length_set]
    exact Nat.mod_lt _ (Nat.zero_lt_of_lt window.inRange)

/-- Change the current bucket. -/
def updateCurrent (window : QualityWindow) (change : QualityBucket → QualityBucket)
    : QualityWindow where
  buckets := window.buckets.modify window.index change
  index := window.index
  inRange := by
    rw [List.length_modify]
    exact window.inRange

def addAttempted (window : QualityWindow) (bytes : UInt64) : QualityWindow :=
  window.updateCurrent fun bucket =>
    { bucket with attempted := saturatingAdd bucket.attempted bytes }

def addForwarded (window : QualityWindow) (bytes : UInt64) : QualityWindow :=
  window.updateCurrent fun bucket =>
    { bucket with forwarded := saturatingAdd bucket.forwarded bytes }

end QualityWindow

structure QbtRelayState where
  metrics : Metrics
  clients : KeyedMap UInt64 QbtRelayClientMeta
  nextClientId : UInt64
  qualityWindow : QualityWindow
  latestServerListWire : Bytes

namespace QbtRelayState

def fromUpstreamServers (servers : List Endpoint) (qualityWindowSecs : Nat)
    : QbtRelayState where
  metrics := {}
  clients := ∅
  nextClientId := 1
  qualityWindow := .new qualityWindowSecs
  latestServerListWire := buildServerListWire servers

def new (config : QbtRelayConfig) : QbtRelayState :=
  fromUpstreamServers config.upstreamServers config.qualityWindowSecs

def addAttempted (state : QbtRelayState) (bytes : UInt64) : QbtRelayState :=
  { state with
    metrics :=
      { state.metrics with bytesAttemptedTotal := state.metrics.bytesAttemptedTotal + bytes }
    qualityWindow := state.qualityWindow.addAttempted bytes }

def addForwarded (state : QbtRelayState) (bytes : UInt64) : QbtRelayState :=
  { state with
    metrics :=
      { state.metrics with bytesForwardedTotal := state.metrics.bytesForwardedTotal + bytes }
    qualityWindow := state.qualityWindow.addForwarded bytes }

def setLatestServerListWire (state : QbtRelayState) (bytes : Bytes) : QbtRelayState :=
  { state with latestServerListWire := bytes }

end QbtRelayState

end Emwin.Qbt
