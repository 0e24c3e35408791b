import Emwin.Qbt.Client.ReceiverRuns
import Emwin.Qbt.Protocol.Chunking

/-! What the receiver's task makes of the bytes of its connections: the frames it sends and
what it counts depend on the bytes of each connection, not on how the reads cut them.
-/

namespace Emwin.Qbt
open Library RuntimeSupport

namespace EventSender

/-- Sending counts no decoder recovery. -/
theorem send_recoveries (sender : EventSender) (item : Offer)
    : (sender.send item).telemetry.snapshot.decoderRecoveryEventsTotal
      = sender.telemetry.snapshot.decoderRecoveryEventsTotal := by
  simp only [send, trySendEvent]
  apply trySendWithBackpressureWarning_context
    (motive := fun _ (snapshot : QbtReceiverTelemetrySnapshot) =>
      snapshot.decoderRecoveryEventsTotal
      = sender.telemetry.snapshot.decoderRecoveryEventsTotal)
  · intro tracker snapshot same
    exact same
  · intro tracker snapshot err same
    exact same
  · rfl

theorem foldl_send_recoveries (sender : EventSender) (items : List Offer)
    : (items.foldl EventSender.send sender).telemetry.snapshot.decoderRecoveryEventsTotal
      = sender.telemetry.snapshot.decoderRecoveryEventsTotal := by
  induction items generalizing sender with
  | nil => rfl
  | cons item rest ih => rw [List.foldl_cons, ih, send_recoveries]

end EventSender

namespace Receiver

variable {externals : Externals} {config : ReceiverConfig} {receiver next : Receiver}
  {action : ReceiverAction} {streams : List Bytes}

/-- The bytes of each connection so far, the newest connection first. -/
def noteBytes (_ : Receiver) (action : ReceiverAction) (streams : List Bytes) : List Bytes :=
  match action, streams with
  | .connect (.ok ()), streams => [] :: streams
  | .read (.ok (first :: rest)) _ _, current :: past => (current ++ first :: rest) :: past
  | _, streams => streams

/-- A new decoder on all bytes of a connection at once. -/
def decoding (externals : Externals) (config : ReceiverConfig) (stream : Bytes)
    : List QbtFrameEvent × QbtProtocolDecoder :=
  QbtProtocolDecoder.feed externals (.new config.decode) stream

/-- The events in the bytes of all connections, in order. -/
def decodedEvents (externals : Externals) (config : ReceiverConfig) (streams : List Bytes)
    : List QbtFrameEvent :=
  streams.reverse.flatMap fun stream => (decoding externals config stream).1

/-- A handler's failure is the task's own event. -/
def isHandlerError : QbtFrameEvent → Bool
  | .warning (.handlerError _) => true
  | _ => false

def frame? : Offer → Option QbtFrameEvent
  | .ok (.frame event) => some event
  | _ => none

/-- The frames among the items, without the failures of handlers. -/
def contents (items : List Offer) : List QbtFrameEvent :=
  (items.filterMap frame?).filter (!isHandlerError ·)

theorem contents_append (items more : List Offer)
    : contents (items ++ more) = contents items ++ contents more := by
  rw [contents, List.filterMap_append, List.filter_append, contents, contents]

/-- The counters of what was read add up the bytes and the events. -/
structure Tallied (receiver : Receiver) (bytes : Nat) (events : List QbtFrameEvent)
    : Prop where
  bytesIn : receiver.counters.bytesInTotal = saturated bytes
  frames : receiver.counters.frameEventsTotal = saturated events.length
  dataBlocks
    : receiver.counters.dataBlocksEmittedTotal = saturated (events.countP isDataBlock)
  serverLists
    : receiver.counters.serverListUpdatesTotal
      = saturated (events.countP isServerListUpdate)
  mismatches
    : receiver.counters.checksumMismatchTotal
      = saturated (events.countP isChecksumMismatch)
  failures
    : receiver.counters.decompressionFailedTotal
      = saturated (events.countP isDecompressionFailure)
  recoveries
    : receiver.sender.telemetry.snapshot.decoderRecoveryEventsTotal
      = saturated (events.countP isDecoderRecovery)

/-- The counters of what was read. -/
def readCounters (receiver : Receiver) : List UInt64 := [
  receiver.counters.bytesInTotal,
  receiver.counters.frameEventsTotal,
  receiver.counters.dataBlocksEmittedTotal,
  receiver.counters.serverListUpdatesTotal,
  receiver.counters.checksumMismatchTotal,
  receiver.counters.decompressionFailedTotal,
  receiver.sender.telemetry.snapshot.decoderRecoveryEventsTotal
]

/-- What the task knows of its connections' bytes: it has sent their frames and counted them,
and the decoder of a connection that stands has consumed its bytes.
-/
structure Reads (externals : Externals) (config : ReceiverConfig) (receiver : Receiver)
    (streams : List Bytes)
    : Prop where
  sent
    : contents receiver.offered
      = (decodedEvents externals config streams).filter (!isHandlerError ·)
  tallied
    : Tallied receiver (streams.map List.length).sum (decodedEvents externals config streams)
  decoded
    : ∀ endpoint decoder,
        receiver.loop.phase = .connected endpoint decoder
        → ∃ current past,
            streams = current :: past ∧ decoder = (decoding externals config current).2

/-- Decoding goes on where it stopped. -/
theorem decoding_append (externals : Externals) (config : ReceiverConfig)
    (stream more : Bytes)
    : decoding externals config (stream ++ more)
      = prepend (decoding externals config stream).1
          ((decoding externals config stream).2.feed externals more) := by
  have split := (QbtProtocolDecoder.atRest_resync externals config.decode).feedAll_eq
    [stream, more]
  simp only [List.flatten_cons, List.flatten_nil, List.append_nil] at split
  simp only [decoding, QbtProtocolDecoder.new]
  rw [← split]
  simp [QbtProtocolDecoder.feedAll, prepend]

/-- The newest connection's events come last. -/
theorem decodedEvents_cons (stream : Bytes) (past : List Bytes)
    : decodedEvents externals config (stream :: past)
      = decodedEvents externals config past ++ (decoding externals config stream).1 := by
  simp [decodedEvents]

/-- What a read sends are its events and failures of handlers, by induction on the events. -/
theorem contents_dispatched (failures : Nat → List Text) (index : Nat)
    (events : List QbtFrameEvent)
    : contents (dispatched failures index events) = events.filter (!isHandlerError ·) := by
  induction events generalizing index with
  | nil => rfl
  | cons event rest ih =>
      have warnings : contents ((failures index).map handlerWarning) = [] := by
        simp [contents, handlerWarning, frame?, isHandlerError, List.filterMap_map,
          Function.comp_def]
      have here : contents [.ok (.frame event)] = [event].filter (!isHandlerError ·) := rfl
      rw [dispatched, contents_append, warnings, List.nil_append, ← List.singleton_append,
        contents_append, here, ih, ← List.filter_append, List.singleton_append]

theorem contents_readOffers (contexts : Nat → UpdateContext) (failures : Nat → List Text)
    (events : List QbtFrameEvent) (loop : ConnectionLoop)
    : contents (readOffers config contexts failures events loop)
      = events.filter (!isHandlerError ·) := by
  rw [readOffers, contents_append, contents_dispatched]
  split
  · simp [contents, frame?, List.filterMap_map, Function.comp_def]
  · rfl

/-- Nothing was read, and no connection was made. -/
theorem Reads.same (reads : Reads externals config receiver streams)
    (sent : contents next.offered = contents receiver.offered)
    (counters : next.readCounters = receiver.readCounters)
    (decoded
      : ∀ endpoint decoder,
          next.loop.phase = .connected endpoint decoder
          → receiver.loop.phase = .connected endpoint decoder)
    : Reads externals config next streams := by
  obtain ⟨bytesIn, frames, dataBlocks, serverLists, mismatches, failures, recoveries⟩ :=
    reads.tallied
  simp only [readCounters, List.cons.injEq, and_true] at counters
  obtain ⟨bytes, count, blocks, lists, sums, broken, recovered⟩ := counters
  exact
    { sent := sent.trans reads.sent
      tallied :=
        { bytesIn := bytes.trans bytesIn
          frames := count.trans frames
          dataBlocks := blocks.trans dataBlocks
          serverLists := lists.trans serverLists
          mismatches := sums.trans mismatches
          failures := broken.trans failures
          recoveries := recovered.trans recoveries }
      decoded := fun endpoint decoder stands =>
        reads.decoded endpoint decoder (decoded endpoint decoder stands) }

theorem decoding_nil (externals : Externals) (config : ReceiverConfig)
    : decoding externals config [] = ([], .new config.decode) :=
  ((QbtProtocolDecoder.atRest_resync externals config.decode).feedAll_eq []).symm

/-- A new connection has no bytes yet. -/
theorem Reads.connected (reads : Reads externals config receiver streams)
    (endpoint : Endpoint) {loop : ConnectionLoop}
    (stands : loop.phase = .connected endpoint (.new config.decode))
    : Reads externals config (receiver.connected config endpoint loop) ([] :: streams) := by
  have nothing : decodedEvents externals config ([] :: streams)
      = decodedEvents externals config streams := by
    rw [decodedEvents_cons, decoding_nil, List.append_nil]
  have ⟨bytesIn, frames, dataBlocks, serverLists, mismatches, failures, recoveries⟩ :=
    reads.tallied
  refine ⟨?_, ?_, ?_⟩
  · rw [nothing, ← reads.sent]
    exact (contents_append _ _).trans (List.append_nil _)
  · rw [nothing, List.map_cons, List.sum_cons, List.length_nil, Nat.zero_add]
    exact ⟨bytesIn, frames, dataBlocks, serverLists, mismatches, failures,
      (EventSender.send_recoveries _ _).trans recoveries⟩
  · intro other decoder standing
    refine ⟨[], streams, rfl, ?_⟩
    have same := stands.symm.trans standing
    rw [decoding_nil]
    exact (LoopPhase.connected.inj same).2.symm

/-- A read is counted with its bytes and its events. -/
theorem Tallied.received {bytes : Nat} {events : List QbtFrameEvent}
    (tallied : Tallied receiver bytes events) (config : ReceiverConfig)
    (contexts : Nat → UpdateContext) (failures : Nat → List Text) (session : ConnectedSession)
    (chunk : Bytes) (found : List QbtFrameEvent) (loop : ConnectionLoop)
    : Tallied (receiver.received config contexts failures session chunk found loop)
        (bytes + chunk.length) (events ++ found) := by
  obtain ⟨sent, sends, same⟩ :=
    received_sends config contexts failures session chunk found loop receiver
  have counters : sent.counters
      = { countRead chunk found receiver.counters with
          handlerFailuresTotal := sent.counters.handlerFailuresTotal } :=
    congrArg Receiver.counters sends.same
  have recovered : sent.sender.telemetry.snapshot.decoderRecoveryEventsTotal
      = saturatingAdd receiver.sender.telemetry.snapshot.decoderRecoveryEventsTotal
          (countEvents isDecoderRecovery found) := by
    rw [sends.sender, EventSender.foldl_send_recoveries]
    rfl
  have counted (kind : QbtFrameEvent → Bool)
      : saturatingAdd (saturated (events.countP kind)) (countEvents kind found)
        = saturated ((events ++ found).countP kind) := by
    rw [countEvents, saturatingAdd_amount, List.countP_append]
  obtain ⟨bytesIn, frames, dataBlocks, serverLists, mismatches, broken, recoveries⟩ := tallied
  rw [same]
  refine ⟨?_, ?_, ?_, ?_, ?_, ?_, ?_⟩
  · rw [← saturatingAdd_amount, ← bytesIn]
    exact congrArg SessionCounters.bytesInTotal counters
  · rw [List.length_append, ← saturatingAdd_amount, ← frames]
    exact congrArg SessionCounters.frameEventsTotal counters
  · rw [← counted, ← dataBlocks]
    exact congrArg SessionCounters.dataBlocksEmittedTotal counters
  · rw [← counted, ← serverLists]
    exact congrArg SessionCounters.serverListUpdatesTotal counters
  · rw [← counted, ← mismatches]
    exact congrArg SessionCounters.checksumMismatchTotal counters
  · rw [← counted, ← broken]
    exact congrArg SessionCounters.decompressionFailedTotal counters
  · rw [← counted, ← recoveries]
    exact recovered

/-- A read adds its bytes to those of the connection, and its events to what was sent. -/
theorem Reads.received (reads : Reads externals config receiver streams)
    {endpoint : Endpoint} {decoder : QbtProtocolDecoder} {first : UInt8} {rest : Bytes}
    {loop : ConnectionLoop} (contexts : Nat → UpdateContext) (failures : Nat → List Text)
    (session : ConnectedSession) (stood : receiver.loop.phase = .connected endpoint decoder)
    (stands
      : loop.phase = .connected endpoint (decoder.feed externals (first :: rest)).2)
    : Reads externals config
        (receiver.received config contexts failures session (first :: rest)
          (decoder.feed externals (first :: rest)).1 loop)
        (noteBytes receiver (.read (.ok (first :: rest)) contexts failures) streams) := by
  obtain ⟨current, past, rfl, rfl⟩ := reads.decoded endpoint decoder stood
  have decoded := decoding_append externals config current (first :: rest)
  generalize (decoding externals config current).2.feed externals (first :: rest) = fed
    at stands decoded ⊢
  have events : decodedEvents externals config ((current ++ first :: rest) :: past)
      = decodedEvents externals config (current :: past) ++ fed.1 := by
    rw [decodedEvents_cons, decodedEvents_cons, decoded, prepend, List.append_assoc]
  have bytes : (((current ++ first :: rest) :: past).map List.length).sum
      = ((current :: past).map List.length).sum + (first :: rest).length := by
    simp only [List.map_cons, List.sum_cons, List.length_append]
    omega
  have tallied :=
    reads.tallied.received config contexts failures session (first :: rest) fed.1 loop
  obtain ⟨sent, sends, same⟩ := received_sends config contexts failures session
    (first :: rest) fed.1 loop receiver
  rw [same] at tallied ⊢
  have offered : sent.offered
      = receiver.offered ++ readOffers config contexts failures fed.1 receiver.loop :=
    congrArg Receiver.offered sends.same
  have loops : sent.loop = loop := congrArg Receiver.loop sends.same
  rw [noteBytes]
  refine ⟨?_, by rwa [events, bytes], ?_⟩
  · rw [events, List.filter_append, ← reads.sent]
    show contents sent.offered = _
    rw [offered, contents_append, contents_readOffers]
  · intro other decoder standing
    refine ⟨_, past, rfl, ?_⟩
    have standing : loop.phase = .connected other decoder := loops ▸ standing
    rw [decoded]
    exact (LoopPhase.connected.inj (standing.symm.trans stands)).2

/-- Every move keeps the account of the bytes, by cases on the move. -/
theorem Reads.move (reads : Reads externals config receiver streams)
    (move : Move externals config receiver action next)
    : Reads externals config next (noteBytes receiver action streams) := by
  cases move with
  | shutdown phase => exact reads.same rfl rfl fun _ _ stands => phase ▸ stands
  | elapse time => exact reads.same rfl rfl fun _ _ stands => stands
  | @consume sender taken =>
      obtain ⟨channel, -, rfl⟩ := Option.map_eq_some_iff.mp taken
      exact reads.same rfl rfl fun _ _ stands => stands
  | @closeStream sender taken =>
      cases taken
      exact reads.same rfl rfl fun _ _ stands => stands
  | @asked loop idle found =>
      rcases found with sleeping | ⟨endpoint, connecting⟩
      · simp only [Receiver.asked, sleeping]
        refine reads.same ?_ ?_ ?_
        · exact (contents_append _ _).trans (List.append_nil _)
        · simp only [readCounters, offer, count, updateTelemetrySink,
            EventSender.send_recoveries]
        · intro endpoint decoder stands
          cases sleeping.symm.trans stands
      · simp only [Receiver.asked, connecting]
        refine reads.same rfl rfl ?_
        intro endpoint decoder stands
        cases connecting.symm.trans stands
  | woken slept idle =>
      refine reads.same rfl rfl ?_
      intro endpoint decoder stands
      cases idle.symm.trans stands
  | @connected endpoint loop waited stands => exact reads.connected endpoint stands
  | refused waited idle =>
      refine reads.same ?_ ?_ ?_
      · exact (contents_append _ _).trans (List.append_nil _)
      · simp only [readCounters, Receiver.refused, offer, count, updateTelemetrySink,
          EventSender.send_recoveries]
      · intro endpoint decoder stands
        cases idle.symm.trans stands
  | loggedOn inside => exact reads.same rfl rfl fun _ _ stands => stands
  | ticked inside =>
      refine reads.same ?_ ?_ fun _ _ stands => stands
      · exact (contents_append _ _).trans (List.append_nil _)
      · simp only [readCounters, offer, count, updateTelemetrySink,
          EventSender.send_recoveries]
  | @received endpoint decoder first rest contexts failures session loop inside stood stands =>
      exact reads.received contexts failures session stood stands
  | waited inside calm => exact reads.same rfl rfl fun _ _ stands => stands
  | @left action before endpoint decoder session loop ends settled result inside stood idle
      reason =>
      have unread : noteBytes receiver action streams = streams := by
        unfold noteBytes
        split <;> first | rfl | cases ends
      rw [unread, left_eq, settled.same]
      refine reads.same ?_ ?_ ?_
      · refine (contents_append _ _).trans ?_
        cases result <;> exact List.append_nil _
      · simp only [readCounters, updateTelemetrySink, EventSender.foldl_send_recoveries]
      · intro endpoint decoder stands
        cases idle.symm.trans stands
  | stopped idle ended =>
      refine reads.same rfl rfl ?_
      intro endpoint decoder stands
      cases ended.symm.trans stands

theorem start_reads (initial : (machine externals config).Start receiver)
    : Reads externals config receiver [] := by
  obtain ⟨idle, -, counters, -, telemetry, errors, offered⟩ := start_eq initial
  refine ⟨?_, ?_, ?_⟩
  · rw [offered]
    simp [contents, frame?, List.filterMap_map, Function.comp_def, decodedEvents]
  · constructor <;> first | rw [counters]; rfl | rw [telemetry]; rfl
  · intro endpoint decoder stands
    cases idle.symm.trans stands

/-- Every run keeps the account of the bytes. -/
theorem reachable_reads
    (run : ((machine externals config).record [] noteBytes).Reachable (receiver, streams))
    : Reads externals config receiver streams := by
  refine run.recorded
    (motive := fun receiver streams => Reads externals config receiver streams) ?_ ?_
  · intro receiver initial
    exact start_reads initial
  · intro receiver streams action next reads _ taken
    exact reads.move (step_move taken)

/-- In every run, the frames that the task has sent are those in the bytes of its connections,
each connection decoded on its own and at once, whatever the reads were; and the counters add
up these bytes and events.
-/
theorem frames_of_bytes (externals : Externals) (config : ReceiverConfig)
    (receiver : Receiver) (streams : List Bytes)
    (run : ((machine externals config).record [] noteBytes).Reachable (receiver, streams))
    : contents receiver.offered
        = (decodedEvents externals config streams).filter (!isHandlerError ·)
      ∧ Tallied receiver (streams.map List.length).sum
          (decodedEvents externals config streams) := by
  have reads := reachable_reads run
  exact ⟨reads.sent, reads.tallied⟩

/-- A server list as it comes over the wire. -/
def sampleStream : Bytes :=
  xorFf ([0, 0, 0, 0, 0, 0] ++ toUtf8 "/ServerList/b:2".toList ++ [0])

/-- The task connects and logs on, and reads the list in two parts. -/
def readingActions : List ReceiverAction := [
  .ask,
  .connect (.ok ()),
  .logon (.ok ()),
  .read (.ok (sampleStream.take 10)) (fun _ => ⟨5, .ok ()⟩) (fun _ => []),
  .read (.ok (sampleStream.drop 10)) (fun _ => ⟨5, .ok ()⟩) (fun _ => [])
]

/-- A list that was cut by the reads is sent as one frame. -/
theorem frames_of_bytes_list
    : ∃ receiver,
        ((machine sampleExternals sampleConfig).record [] noteBytes).Reachable
          (receiver, [sampleStream])
        ∧ contents receiver.offered = [.serverListUpdate { servers := [("b".toList, 2)] }] := by
  have computed
      : (((machine sampleExternals sampleConfig).record [] noteBytes).takes (sampleStart, [])
          readingActions).map Prod.snd
        = some [sampleStream] := by
    decide +kernel
  have decoded : (decodedEvents sampleExternals sampleConfig [sampleStream]).filter
      (!isHandlerError ·) = [.serverListUpdate { servers := [("b".toList, 2)] }] := by
    decide +kernel
  obtain ⟨⟨receiver, streams⟩, taken, rfl⟩ := Option.map_eq_some_iff.mp computed
  have run : ((machine sampleExternals sampleConfig).record [] noteBytes).Reachable
      (receiver, [sampleStream]) :=
    .takes (.start ⟨sampleStart_starts, rfl⟩) (by simp) taken
  refine ⟨receiver, run, ?_⟩
  rw [(frames_of_bytes sampleExternals sampleConfig receiver _ run).1, decoded]

-----------------------------------------------------------------------------------------
-- What reaches the consumer
-----------------------------------------------------------------------------------------

/-- As long as no drop was counted, none is to be reported, and the open channel has taken
exactly what was offered.
-/
structure Lossless (sender : EventSender) (offered : List Offer) : Prop where
  shown
    : sender.telemetry.snapshot.eventQueueDropTotal
      = sender.telemetry.backpressure.eventQueueDropTotal
  calm
    : sender.telemetry.backpressure.eventQueueDropTotal = 0
      → sender.telemetry.backpressure.hasPendingReport = false
  taken
    : sender.telemetry.backpressure.eventQueueDropTotal = 0
      → sender.channel.closed = false
      → sender.channel.sent = offered

theorem recordSendFailure_ne_zero (tracker : BackpressureTracker)
    : (tracker.recordSendFailure .full).eventQueueDropTotal ≠ 0 := by
  intro none
  have sum := congrArg UInt64.toNat none
  rw [BackpressureTracker.recordSendFailure, saturatingAdd_toNat] at sum
  have size : UInt64.size = 2 ^ 64 := rfl
  simp only [UInt64.reduceToNat] at sum
  omega

/-- One send keeps the channel's account, by cases on what it did. -/
theorem Lossless.send {sender : EventSender} {offered : List Offer}
    (lossless : Lossless sender offered) (item : Offer)
    : Lossless (sender.send item) (offered ++ [item]) := by
  have ⟨shown, calm, taken⟩ := lossless
  have called := EventSender.trySendEvent_call sender.channel item sender.telemetry
  refine ⟨EventSender.trySendEvent_shown shown, ?_, ?_⟩
  all_goals
    simp only [EventSender.send]
    generalize (trySendEvent sender.channel item sender.telemetry).1 = channel at called ⊢
    generalize (trySendEvent sender.channel item sender.telemetry).2.backpressure = tracker
      at called ⊢
    generalize transcript sender.channel item sender.telemetry.backpressure _ = done at called
    intro none
  · cases called with
    | refused closed | delivered isOpen quiet room => exact calm none
    | dropped isOpen quiet full => exact absurd none (recordSendFailure_ne_zero _)
    | reported isOpen pending room more => rfl
    | reportedOnly isOpen pending room full => exact absurd none (recordSendFailure_ne_zero _)
    | overflowed isOpen pending full => exact absurd none (recordSendFailure_ne_zero _)
  · intro isOpen
    cases called with
    | refused closed => exact absurd isOpen (by simp [closed])
    | delivered isOpen quiet room => rw [Channel.put_sent, taken none isOpen]
    | dropped isOpen quiet full => exact absurd none (recordSendFailure_ne_zero _)
    | reported wasOpen pending room more =>
        rw [calm none] at pending
        cases pending
    | reportedOnly isOpen pending room full => exact absurd none (recordSendFailure_ne_zero _)
    | overflowed isOpen pending full => exact absurd none (recordSendFailure_ne_zero _)

theorem Lossless.sendAll {sender : EventSender} {offered : List Offer}
    (lossless : Lossless sender offered) (items : List Offer)
    : Lossless (items.foldl EventSender.send sender) (offered ++ items) := by
  induction items generalizing sender offered with
  | nil => rwa [List.append_nil]
  | cons item rest ih =>
      have later := ih (lossless.send item)
      rwa [List.append_assoc] at later

/-- Every move keeps the channel's account, by cases on the move. -/
theorem Lossless.move (lossless : Lossless receiver.sender receiver.offered)
    (move : Move externals config receiver action next)
    : Lossless next.sender next.offered := by
  have ⟨shown, calm, taken⟩ := lossless
  cases move with
  | shutdown | elapse | woken | loggedOn | waited | stopped => exact lossless
  | @consume sender received =>
      obtain ⟨channel, popped, rfl⟩ := Option.map_eq_some_iff.mp received
      obtain ⟨sent, closed⟩ := Channel.recv_sent popped
      exact ⟨shown, calm, fun none isOpen => sent.trans (taken none (closed ▸ isOpen))⟩
  | @closeStream sender closed =>
      cases closed
      exact ⟨shown, calm, fun _ isOpen => absurd isOpen (by simp [Channel.close])⟩
  | @asked loop idle found =>
      rcases found with sleeping | ⟨endpoint, connecting⟩
      · simp only [Receiver.asked, sleeping]
        exact lossless.send _
      · simp only [Receiver.asked, connecting]
        exact lossless
  | connected waited stands => exact lossless.send _
  | refused waited idle => exact lossless.send _
  | ticked inside => exact lossless.send _
  | @received endpoint decoder first rest contexts failures session loop inside stood stands =>
      obtain ⟨sent, sends, same⟩ := received_sends config contexts failures session
        (first :: rest) (decoder.feed externals (first :: rest)).1 loop receiver
      have offered : sent.offered = receiver.offered ++ _ :=
        congrArg Receiver.offered sends.same
      rw [same]
      show Lossless sent.sender sent.offered
      rw [offered, sends.sender]
      refine Lossless.sendAll ?_ _
      exact ⟨shown, calm, taken⟩
  | @left action before endpoint decoder session loop ends settled result inside stood idle
      reason =>
      rw [left_eq, settled.same]
      exact lossless.sendAll _

theorem reachable_lossless (run : (machine externals config).Reachable receiver)
    : Lossless receiver.sender receiver.offered := by
  refine run.invariant
    (motive := fun receiver => Lossless receiver.sender receiver.offered) ?_ ?_
  · intro receiver initial
    have fresh (capacity : Nat) (positive : 0 < capacity)
        : Lossless { channel := .new capacity positive } [] := ⟨rfl, fun _ => rfl, fun _ _ => rfl⟩
    obtain ⟨capacity, positive, nonce, seed, loadSeed, stored, rfl | ⟨error, rfl⟩⟩ :=
      start_cases initial
    · exact fresh capacity positive
    · exact (fresh capacity positive).send _
  · intro receiver action next lossless _ taken
    exact lossless.move (step_move taken)

/-- In every run, as long as the counter of dropped events is zero, a consumer that keeps its
stream is given everything that the task sends, in order and with nothing added.
-/
theorem nothing_lost (externals : Externals) (config : ReceiverConfig) (receiver : Receiver)
    (run : (machine externals config).Reachable receiver)
    (undropped : receiver.sender.telemetry.snapshot.eventQueueDropTotal = 0)
    (isOpen : receiver.sender.channel.closed = false)
    : receiver.sender.channel.sent = receiver.offered := by
  have lossless := reachable_lossless run
  exact lossless.taken (lossless.shown ▸ undropped) isOpen

/-- The frame of the sample reaches the consumer. -/
theorem nothing_lost_list
    : ∃ receiver,
        (machine sampleExternals sampleConfig).Reachable receiver
        ∧ receiver.offered.length = 2
        ∧ receiver.sender.channel.sent = receiver.offered := by
  have computed
      : ((machine sampleExternals sampleConfig).takes sampleStart readingActions).map
          (fun receiver => (receiver.offered.length,
            receiver.sender.telemetry.snapshot.eventQueueDropTotal,
            receiver.sender.channel.closed))
        = some (2, 0, false) := by
    decide +kernel
  obtain ⟨receiver, taken, facts⟩ := Option.map_eq_some_iff.mp computed
  simp only [Prod.mk.injEq] at facts
  obtain ⟨length, undropped, isOpen⟩ := facts
  have run : (machine sampleExternals sampleConfig).Reachable receiver :=
    .takes (.start sampleStart_starts) (by simp) taken
  exact ⟨receiver, run, length,
    nothing_lost sampleExternals sampleConfig receiver run undropped isOpen⟩

end Receiver

end Emwin.Qbt
