import Emwin.Qbt.Client.EventSender
import Emwin.Qbt.File.Assembler

/-! What the receivers hand on: products, connections, telemetry, warnings and errors. -/

namespace Emwin.WxWire
open Library
open Qbt (SystemTime)

structure WxWireReceiverTelemetrySnapshot where
  startsTotal : UInt64 := 0
  stopsTotal : UInt64 := 0
  decodedMessagesTotal : UInt64 := 0
  filesEmittedTotal : UInt64 := 0
  warningEventsTotal : UInt64 := 0
  handlerFailuresTotal : UInt64 := 0
  eventQueueDropTotal : UInt64 := 0
  backpressureWarningEmittedTotal : UInt64 := 0
  idleReconnectsTotal : UInt64 := 0
  reconnectAttemptsTotal : UInt64 := 0
  connectAttemptsTotal : UInt64 := 0
  telemetryEventsEmittedTotal : UInt64 := 0
  deriving DecidableEq, Repr

inductive WxWireReceiverWarning where
  | missingNwwsNamespace
  | emptyBody
  | timestampParseFallback (raw : Text)
  | decoderRecovered (error : Text)
  | handlerError (message : Text)
  | backpressureDrop (droppedSinceLastReport totalDroppedEvents : UInt64)
  | transportError (message : Text)
  deriving DecidableEq, Repr

structure WxWireReceiverFile where
  filename : Text
  data : Bytes
  subject : Text
  id : Text
  issueUtc : SystemTime
  ttaaii : Text
  cccc : Text
  awipsid : Text
  delayStampUtc : Option SystemTime
  deriving DecidableEq, Repr

inductive WxWireReceiverFrameEvent where
  | file (file : WxWireReceiverFile)
  | warning (warning : WxWireReceiverWarning)
  deriving DecidableEq, Repr

/-- Errors by their messages; no consumer looks at more of one. -/
inductive WxWireReceiverError where
  | config (message : Text)
  | decode (message : Text)
  | lifecycle (message : Text)
  | transport (message : Text)
  deriving DecidableEq, Repr

end Emwin.WxWire

namespace Emwin.Ingest
open Library Qbt WxWire

inductive ProductOrigin where
  | qbt
  | wxWire (messageId subject : Text) (delayStampUtc : Option SystemTime)
  deriving DecidableEq, Repr

structure ReceivedProduct where
  filename : Text
  data : Bytes
  sourceTimestampUtc : SystemTime
  origin : ProductOrigin
  deriving DecidableEq, Repr

def ReceivedProduct.fromCompleted (value : QbtCompletedFile) : ReceivedProduct where
  filename := value.filename
  data := value.data
  sourceTimestampUtc := value.timestampUtc
  origin := .qbt

inductive IngestTelemetry where
  | qbt (snapshot : QbtReceiverTelemetrySnapshot) (counters : SessionCounters)
  | wxWire (snapshot : WxWireReceiverTelemetrySnapshot)
  deriving DecidableEq, Repr

inductive IngestWarning where
  | qbt (warning : QbtProtocolWarning)
  | wxWire (warning : WxWireReceiverWarning)
  deriving DecidableEq, Repr

inductive IngestEvent where
  | product (product : ReceivedProduct)
  | connected (endpoint : Text)
  | disconnected
  | telemetry (telemetry : IngestTelemetry)
  | warning (warning : IngestWarning)
  deriving DecidableEq, Repr

inductive IngestError where
  | qbt (error : QbtReceiverError)
  | wxWire (error : WxWireReceiverError)
  deriving DecidableEq, Repr

abbrev IngestItem := Except IngestError IngestEvent

end Emwin.Ingest
