import Emwin.RuntimeSupport.Backpressure
import Emwin.Qbt.Client.ServerListManager

/-! The receiver's events on their way to the consumer, and the number of those that were
lost.
-/

namespace Emwin.Qbt
open Library RuntimeSupport

/-- The counters that sending an event reads or changes. -/
structure QbtReceiverTelemetrySnapshot where
  decoderRecoveryEventsTotal : UInt64 := 0
  backpressureWarningEmittedTotal : UInt64 := 0
  eventQueueDropTotal : UInt64 := 0
  deriving DecidableEq, Repr

/-- The other counters of the snapshot. -/
structure SessionCounters where
  connectionAttemptsTotal : UInt64 := 0
  connectionSuccessTotal : UInt64 := 0
  connectionFailTotal : UInt64 := 0
  disconnectTotal : UInt64 := 0
  watchdogTimeoutsTotal : UInt64 := 0
  watchdogExceptionEventsTotal : UInt64 := 0
  authLogonSentTotal : UInt64 := 0
  bytesInTotal : UInt64 := 0
  frameEventsTotal : UInt64 := 0
  dataBlocksEmittedTotal : UInt64 := 0
  serverListUpdatesTotal : UInt64 := 0
  checksumMismatchTotal : UInt64 := 0
  decompressionFailedTotal : UInt64 := 0
  handlerFailuresTotal : UInt64 := 0
  telemetryEventsEmittedTotal : UInt64 := 0
  deriving DecidableEq, Repr

structure RuntimeTelemetry where
  snapshot : QbtReceiverTelemetrySnapshot := {}
  backpressure : BackpressureTracker := {}
  deriving DecidableEq, Repr

inductive QbtReceiverEvent where
  | frame (event : QbtFrameEvent)
  | connected (endpoint : Text)
  | disconnected
  | telemetry (snapshot : QbtReceiverTelemetrySnapshot) (counters : SessionCounters)
  deriving DecidableEq, Repr

abbrev EventChannel := Channel (Except QbtReceiverError QbtReceiverEvent)

/-- The warning about dropped events. -/
def backpressureWarning (decoderRecoveryEvents : UInt64) (tracker : BackpressureTracker)
    : QbtReceiverEvent :=
  .frame (.warning (.backpressureDrop tracker.droppedSinceLastReport
    tracker.eventQueueDropTotal decoderRecoveryEvents))

def trySendEvent (channel : EventChannel) (event : Except QbtReceiverError QbtReceiverEvent)
    (telemetry : RuntimeTelemetry)
    : EventChannel × RuntimeTelemetry :=
  let decoderRecoveryEvents := telemetry.snapshot.decoderRecoveryEventsTotal
  let (channel, backpressure, snapshot) :=
    trySendWithBackpressureWarning channel event telemetry.backpressure
      (backpressureWarning decoderRecoveryEvents)
      (fun snapshot => { snapshot with
        backpressureWarningEmittedTotal :=
          saturatingAdd snapshot.backpressureWarningEmittedTotal 1 })
      (fun tracker snapshot => { snapshot with
        eventQueueDropTotal := tracker.eventQueueDropTotal })
      telemetry.snapshot
  (channel, { snapshot, backpressure })

/-- The sending side of the receiver's event channel. -/
structure EventSender where
  channel : EventChannel
  telemetry : RuntimeTelemetry := {}

/-- One event, a turn of the consumer, or decoder recoveries counted between two events. -/
inductive SenderAction where
  | send (event : Except QbtReceiverError QbtReceiverEvent)
  | receive
  | close
  | recovered (count : UInt64)

namespace EventSender

def send (sender : EventSender) (event : Except QbtReceiverError QbtReceiverEvent)
    : EventSender :=
  let (channel, telemetry) := trySendEvent sender.channel event sender.telemetry
  { channel, telemetry }

def step (sender : EventSender) : SenderAction → Option EventSender
  | .send event => some (sender.send event)
  | .receive => sender.channel.recv.map fun channel => { sender with channel }
  | .close => some { sender with channel := sender.channel.close }
  | .recovered count =>
      some { sender with
        telemetry := { sender.telemetry with
          snapshot := { sender.telemetry.snapshot with
            decoderRecoveryEventsTotal :=
              saturatingAdd sender.telemetry.snapshot.decoderRecoveryEventsTotal count } } }

/-- Senders with fresh telemetry on a fresh channel of any capacity. -/
def machine : Machine EventSender SenderAction where
  Start sender := ∃ capacity positive, sender = { channel := .new capacity positive }
  step := step

abbrev Entries := List (Entry QbtReceiverError QbtReceiverEvent)

/-- Write down what a call does. -/
def note (sender : EventSender) (action : SenderAction) (entries : Entries) : Entries :=
  match action with
  | .send event =>
      entries ++ transcript sender.channel event sender.telemetry.backpressure
        (backpressureWarning sender.telemetry.snapshot.decoderRecoveryEventsTotal)
  | _ => entries

/-- The number of events that were lost because the channel was full. -/
def lost (entries : Entries) : Nat :=
  entries.countP fun
    | .dropped _ => true
    | _ => false

-----------------------------------------------------------------------------------------
-- Counting the lost events
-----------------------------------------------------------------------------------------

/-- Every warning gives the number of events lost before it. -/
def Truthful (entries : Entries) : Prop :=
  ∀ earlier tracker warning,
    earlier ++ [.warned tracker warning] <+: entries
    → ∃ since total recoveries,
        warning = .frame (.warning (.backpressureDrop since total recoveries))
        ∧ total.toNat = lost earlier

/-- The total is the number of lost events, in the tracker, in the telemetry, and in every
warning at its place in the channel.
-/
structure Counted (sender : EventSender) (entries : Entries) : Prop where
  sent : sender.channel.sent = entries.filterMap Entry.posted
  total : sender.telemetry.backpressure.eventQueueDropTotal.toNat = lost entries
  shown
    : sender.telemetry.snapshot.eventQueueDropTotal
      = sender.telemetry.backpressure.eventQueueDropTotal
  truthful : Truthful entries

/-- A call does not find both a report to send and a full channel, and the total has not
reached the largest 64-bit number.
-/
def Clear (sender : EventSender) : SenderAction → Prop
  | .send _ =>
      (sender.telemetry.backpressure.hasPendingReport = true
        → sender.channel.closed = false
        → sender.channel.HasRoom)
      ∧ sender.telemetry.backpressure.eventQueueDropTotal.toNat < UInt64.size - 1
  | _ => True

theorem lost_append (left right : Entries) : lost (left ++ right) = lost left + lost right :=
  List.countP_append

/-- Only a warning has a total to give. -/
theorem Truthful.concat {entries : Entries}
    {entry : Entry QbtReceiverError QbtReceiverEvent} (truthful : Truthful entries)
    (last
      : ∀ tracker warning,
          entry = .warned tracker warning
          → ∃ since total recoveries,
              warning = .frame (.warning (.backpressureDrop since total recoveries))
              ∧ total.toNat = lost entries)
    : Truthful (entries ++ [entry]) := by
  intro earlier tracker warning starts
  rcases List.prefix_concat_iff.mp starts with whole | inside
  · obtain ⟨rfl, same⟩ := List.append_inj' whole rfl
    exact last tracker warning (List.singleton_inj.mp same).symm
  · exact truthful earlier tracker warning inside

/-- Below the limit a failure adds one to the total. -/
theorem recordSendFailure_total {tracker : BackpressureTracker}
    (below : tracker.eventQueueDropTotal.toNat < UInt64.size - 1)
    : (tracker.recordSendFailure .full).eventQueueDropTotal.toNat
      = tracker.eventQueueDropTotal.toNat + 1 := by
  simp only [BackpressureTracker.recordSendFailure, saturatingAdd_toNat, UInt64.reduceToNat]
  omega

/-- A call counts every lost event once, unless it has to report into a full channel; by
cases on what it did.
-/
theorem call_counts {channel next : EventChannel}
    {event : Except QbtReceiverError QbtReceiverEvent} {recoveries : UInt64}
    {tracker after : BackpressureTracker} {entries done : Entries}
    (called
      : Call channel event tracker (backpressureWarning recoveries tracker) next after done)
    (room
      : tracker.hasPendingReport = true → channel.closed = false → channel.HasRoom)
    (below : tracker.eventQueueDropTotal.toNat < UInt64.size - 1)
    (total : tracker.eventQueueDropTotal.toNat = lost entries) (truthful : Truthful entries)
    : after.eventQueueDropTotal.toNat = lost (entries ++ done)
      ∧ Truthful (entries ++ done) := by
  have warned
      : Truthful (entries ++ [.warned tracker (backpressureWarning recoveries tracker)]) := by
    refine truthful.concat ?_
    rintro _ _ ⟨⟩
    exact ⟨_, _, _, rfl, total⟩
  cases called with
  | refused closed | delivered isOpen calm free =>
      exact ⟨by simpa [lost] using total, truthful.concat (by simp)⟩
  | dropped isOpen calm full =>
      refine ⟨?_, truthful.concat (by simp)⟩
      rw [recordSendFailure_total below, lost_append, total]
      rfl
  | reported isOpen pending free more =>
      rw [List.append_cons]
      exact ⟨by simpa [lost, BackpressureTracker.clearPendingReport] using total,
        warned.concat (by simp)⟩
  | reportedOnly isOpen pending free full =>
      rw [List.append_cons]
      refine ⟨?_, warned.concat (by simp)⟩
      have again : (tracker.clearPendingReport.recordSendFailure .full).eventQueueDropTotal.toNat
          = tracker.eventQueueDropTotal.toNat + 1 := recordSendFailure_total below
      rw [again, lost_append, lost_append, total]
      rfl
  | overflowed isOpen pending full => exact absurd (room pending isOpen) full

/-- The telemetry shows the tracker's total, after every call. -/
theorem trySendEvent_shown {channel : EventChannel}
    {event : Except QbtReceiverError QbtReceiverEvent} {telemetry : RuntimeTelemetry}
    (shown
      : telemetry.snapshot.eventQueueDropTotal = telemetry.backpressure.eventQueueDropTotal)
    : (trySendEvent channel event telemetry).2.snapshot.eventQueueDropTotal
      = (trySendEvent channel event telemetry).2.backpressure.eventQueueDropTotal := by
  unfold trySendEvent
  apply trySendWithBackpressureWarning_context
    (motive := fun tracker (snapshot : QbtReceiverTelemetrySnapshot) =>
      snapshot.eventQueueDropTotal = tracker.eventQueueDropTotal)
  · intro tracker snapshot same
    exact same
  · intro tracker snapshot err _
    rfl
  · exact shown

theorem trySendEvent_call (channel : EventChannel)
    (event : Except QbtReceiverError QbtReceiverEvent) (telemetry : RuntimeTelemetry)
    : Call channel event telemetry.backpressure
        (backpressureWarning telemetry.snapshot.decoderRecoveryEventsTotal
          telemetry.backpressure)
        (trySendEvent channel event telemetry).1
        (trySendEvent channel event telemetry).2.backpressure
        (transcript channel event telemetry.backpressure
          (backpressureWarning telemetry.snapshot.decoderRecoveryEventsTotal)) := by
  unfold trySendEvent
  apply trySendWithBackpressureWarning_call

/-- In every run whose calls are clear, each state's total is the number of events lost so
far, and so is the total of every warning sent.
-/
theorem drops_counted {sender : EventSender} {entries : Entries}
    (run
      : (machine.record [] note).Reaches (fun recorded => recorded.1.Clear)
          (sender, entries))
    : Counted sender entries := by
  refine run.recorded ?_ ?_
  · intro sender started
    obtain ⟨capacity, positive, rfl⟩ := started
    refine ⟨rfl, rfl, rfl, ?_⟩
    intro earlier tracker warning starts
    simp at starts
  · intro sender entries action next counted clear stepped
    obtain ⟨sent, total, shown, truthful⟩ := counted
    cases action with
    | send event =>
        cases stepped
        have called := trySendEvent_call sender.channel event sender.telemetry
        obtain ⟨total, truthful⟩ := call_counts called clear.1 clear.2 total truthful
        refine ⟨?_, total, trySendEvent_shown shown, truthful⟩
        rw [note, List.filterMap_append]
        exact called.sent.trans (congrArg (· ++ _) sent)
    | receive =>
        obtain ⟨channel, received, rfl⟩ := Option.map_eq_some_iff.mp stepped
        exact ⟨(Channel.recv_sent received).1.trans sent, total, shown, truthful⟩
    | close | recovered count =>
        cases stepped
        exact ⟨sent, total, shown, truthful⟩

/-- A sender on a channel of one slot, before its first event. -/
def sampleSender : EventSender where
  channel := .new 1 (by decide)

theorem sampleSender_starts : (machine.record [] note).Start (sampleSender, []) :=
  ⟨⟨1, by decide, rfl⟩, rfl⟩

/-- One event gets through and the next one is lost: the total is one. -/
theorem drops_counted_once
    : Counted ((sampleSender.send (.ok .disconnected)).send (.ok .disconnected))
        [.delivered (.ok .disconnected), .dropped (.ok .disconnected)] := by
  let action : SenderAction := .send (.ok .disconnected)
  have clearFirst : sampleSender.Clear action := ⟨by decide, by decide⟩
  have first : (machine.record [] note).Reaches (fun recorded => recorded.1.Clear)
      (sampleSender.send (.ok .disconnected), [.delivered (.ok .disconnected)]) :=
    .step (.start sampleSender_starts) clearFirst rfl
  have clearSecond : (sampleSender.send (.ok .disconnected)).Clear action :=
    ⟨by decide, by decide⟩
  have second : (machine.record [] note).Reaches (fun recorded => recorded.1.Clear)
      ((sampleSender.send (.ok .disconnected)).send (.ok .disconnected),
        [.delivered (.ok .disconnected), .dropped (.ok .disconnected)]) :=
    .step first clearSecond rfl
  exact drops_counted second

/-- A third event finds the channel still full and a report to send: the report fails as
well and is counted as an event, so the total is three where two events were lost.
-/
theorem failed_report_counted
    : ∃ sender entries,
        (machine.record [] note).Reachable (sender, entries)
        ∧ sender.channel.closed = false
        ∧ sender.telemetry.backpressure.eventQueueDropTotal = 3
        ∧ sender.telemetry.snapshot.eventQueueDropTotal = 3
        ∧ lost entries = 2 := by
  have start : (machine.record [] note).Reachable (sampleSender, []) :=
    .start sampleSender_starts
  let events : List SenderAction := List.replicate 3 (.send (.ok .disconnected))
  have taken : (machine.record [] note).takes (sampleSender, []) events = some _ := rfl
  refine ⟨_, _, start.takes (by simp) taken, ?_⟩
  decide

end EventSender

end Emwin.Qbt
