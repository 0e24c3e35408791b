import Emwin.Library.Channel
import Emwin.Library.Machine
import Emwin.Library.Saturating

/-! Sending events into a bounded channel: the counters of dropped events, and the warnings
that report them.
-/

namespace Emwin.RuntimeSupport
open Library

variable {ε α τ : Type}

structure BackpressureTracker where
  eventQueueDropTotal : UInt64 := 0
  droppedSinceLastReport : UInt64 := 0
  deriving DecidableEq, Repr

namespace BackpressureTracker

def hasPendingReport (tracker : BackpressureTracker) : Bool :=
  tracker.droppedSinceLastReport > 0

def clearPendingReport (tracker : BackpressureTracker) : BackpressureTracker :=
  { tracker with droppedSinceLastReport := 0 }

/-- Count a failed send, if the queue was full. -/
def recordSendFailure (tracker : BackpressureTracker) : TrySendError → BackpressureTracker
  | .full =>
      { eventQueueDropTotal := saturatingAdd tracker.eventQueueDropTotal 1
        droppedSinceLastReport := saturatingAdd tracker.droppedSinceLastReport 1 }
  | .closed => tracker

end BackpressureTracker

/-- Send an event, after a warning about the drops that were not reported yet. The callbacks
change a context of the caller.
-/
def trySendWithBackpressureWarning (channel : Channel (Except ε α)) (event : Except ε α)
    (tracker : BackpressureTracker) (buildWarning : BackpressureTracker → α)
    (onWarningSent : τ → τ) (onDrop : BackpressureTracker → τ → τ) (context : τ)
    : Channel (Except ε α) × BackpressureTracker × τ :=
  let (channel, tracker, context) :=
    if tracker.hasPendingReport then
      match channel.trySend (.ok (buildWarning tracker)) with
      | .ok channel => (channel, tracker.clearPendingReport, onWarningSent context)
      | .error err =>
          let tracker := tracker.recordSendFailure err
          (channel, tracker, onDrop tracker context)
    else (channel, tracker, context)
  match channel.trySend event with
  | .ok channel => (channel, tracker, context)
  | .error err =>
      let tracker := tracker.recordSendFailure err
      (channel, tracker, onDrop tracker context)

-----------------------------------------------------------------------------------------
-- What one call does
-----------------------------------------------------------------------------------------

/-- What became of an item that a call tried to send. A warning that could not be sent is
built again by a later call.
-/
inductive Entry (ε α : Type) where
  | warned (tracker : BackpressureTracker) (warning : α)
  | delivered (event : Except ε α)
  | dropped (event : Except ε α)
  | refused (event : Except ε α)
  deriving DecidableEq

/-- The item that went into the channel, if one did. -/
def Entry.posted : Entry ε α → Option (Except ε α)
  | .warned _ warning => some (.ok warning)
  | .delivered event => some event
  | _ => none

/-- The entries of one call, in the order of its sends. -/
def transcript (channel : Channel (Except ε α)) (event : Except ε α)
    (tracker : BackpressureTracker) (buildWarning : BackpressureTracker → α)
    : List (Entry ε α) :=
  let (reports, channel) :=
    if tracker.hasPendingReport then
      match channel.trySend (.ok (buildWarning tracker)) with
      | .ok channel => ([.warned tracker (buildWarning tracker)], channel)
      | .error _ => ([], channel)
    else ([], channel)
  match channel.trySend event with
  | .ok _ => reports ++ [.delivered event]
  | .error .full => reports ++ [.dropped event]
  | .error .closed => reports ++ [.refused event]

/-- Everything one call can do to the channel and to the tracker, with its entries. -/
inductive Call (channel : Channel (Except ε α)) (event : Except ε α)
    (tracker : BackpressureTracker) (warning : α)
    : Channel (Except ε α) → BackpressureTracker → List (Entry ε α) → Prop
  | refused (closed : channel.closed = true)
    : Call channel event tracker warning channel tracker [.refused event]
  | delivered (isOpen : channel.closed = false) (calm : tracker.hasPendingReport = false)
    (room : channel.HasRoom)
    : Call channel event tracker warning (channel.put event room) tracker
        [.delivered event]
  | dropped (isOpen : channel.closed = false) (calm : tracker.hasPendingReport = false)
    (full : ¬ channel.HasRoom)
    : Call channel event tracker warning channel (tracker.recordSendFailure .full)
        [.dropped event]
  | reported (isOpen : channel.closed = false) (pending : tracker.hasPendingReport = true)
    (room : channel.HasRoom) (more : (channel.put (.ok warning) room).HasRoom)
    : Call channel event tracker warning ((channel.put (.ok warning) room).put event more)
        tracker.clearPendingReport [.warned tracker warning, .delivered event]
  | reportedOnly (isOpen : channel.closed = false) (pending : tracker.hasPendingReport = true)
    (room : channel.HasRoom) (full : ¬ (channel.put (.ok warning) room).HasRoom)
    : Call channel event tracker warning (channel.put (.ok warning) room)
        (tracker.clearPendingReport.recordSendFailure .full)
        [.warned tracker warning, .dropped event]
  | overflowed (isOpen : channel.closed = false) (pending : tracker.hasPendingReport = true)
    (full : ¬ channel.HasRoom)
    : Call channel event tracker warning channel
        ((tracker.recordSendFailure .full).recordSendFailure .full) [.dropped event]

variable {channel : Channel (Except ε α)} {event : Except ε α}
  {tracker : BackpressureTracker} {buildWarning : BackpressureTracker → α}

/-- A call does one of these, by cases on a pending report and on the free slots. -/
theorem trySendWithBackpressureWarning_call (channel : Channel (Except ε α))
    (event : Except ε α) (tracker : BackpressureTracker)
    (buildWarning : BackpressureTracker → α) (onWarningSent : τ → τ)
    (onDrop : BackpressureTracker → τ → τ) (context : τ)
    : Call channel event tracker (buildWarning tracker)
        (trySendWithBackpressureWarning channel event tracker buildWarning onWarningSent
          onDrop context).1
        (trySendWithBackpressureWarning channel event tracker buildWarning onWarningSent
          onDrop context).2.1
        (transcript channel event tracker buildWarning) := by
  unfold trySendWithBackpressureWarning transcript
  by_cases closed : channel.closed = true
  · split_ifs <;> simp only [Channel.trySend_closed closed] <;> exact .refused closed
  have isOpen : channel.closed = false := by simpa using closed
  by_cases room : channel.HasRoom
  · split_ifs with pending
    · have stillOpen : (channel.put (.ok (buildWarning tracker)) room).closed = false := isOpen
      by_cases more : (channel.put (.ok (buildWarning tracker)) room).HasRoom
      · simp only [Channel.trySend_room isOpen room, Channel.trySend_room stillOpen more]
        exact .reported isOpen pending room more
      · simp only [Channel.trySend_room isOpen room, Channel.trySend_full stillOpen more]
        exact .reportedOnly isOpen pending room more
    · simp only [Channel.trySend_room isOpen room]
      exact .delivered isOpen (by simpa using pending) room
  · split_ifs with pending <;> simp only [Channel.trySend_full isOpen room]
    · exact .overflowed isOpen pending room
    · exact .dropped isOpen (by simpa using pending) room

/-- The entries of a call say what it put into the channel. -/
theorem Call.sent {warning : α} {next : Channel (Except ε α)} {after : BackpressureTracker}
    {done : List (Entry ε α)} (called : Call channel event tracker warning next after done)
    : next.sent = channel.sent ++ done.filterMap Entry.posted := by
  cases called <;> simp [Entry.posted, List.filterMap_cons]

/-- A relation between tracker and context that both callbacks keep survives the call. -/
theorem trySendWithBackpressureWarning_context {motive : BackpressureTracker → τ → Prop}
    {onWarningSent : τ → τ} {onDrop : BackpressureTracker → τ → τ} {context : τ}
    (sent
      : ∀ tracker context,
          motive tracker context → motive tracker.clearPendingReport (onWarningSent context))
    (failed
      : ∀ tracker context err,
          motive tracker context
          → motive (tracker.recordSendFailure err)
              (onDrop (tracker.recordSendFailure err) context))
    (before : motive tracker context)
    : motive
        (trySendWithBackpressureWarning channel event tracker buildWarning onWarningSent
          onDrop context).2.1
        (trySendWithBackpressureWarning channel event tracker buildWarning onWarningSent
          onDrop context).2.2 := by
  unfold trySendWithBackpressureWarning
  split_ifs
  · rcases channel.trySend (.ok (buildWarning tracker)) with err | reported <;> dsimp only
    · split
      · exact failed _ _ _ before
      · exact failed _ _ _ (failed _ _ _ before)
    · split
      · exact sent _ _ before
      · exact failed _ _ _ (sent _ _ before)
  · dsimp only
    split
    · exact before
    · exact failed _ _ _ before

end Emwin.RuntimeSupport
