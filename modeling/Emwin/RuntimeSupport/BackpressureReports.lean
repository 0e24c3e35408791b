import Emwin.RuntimeSupport.Backpressure

/-! The warnings about dropped events add up to the drops, and each of them stands where the
consumer misses something.
-/

namespace Emwin.RuntimeSupport
open Library

variable {ε α : Type}

/-- The sending side of an event channel, with its tracker. -/
structure Outbox (ε α : Type) where
  channel : Channel (Except ε α)
  tracker : BackpressureTracker := {}
  deriving DecidableEq

/-- A call with an event and its way to build a warning, or a turn of the consumer. -/
inductive OutboxAction (ε α : Type) where
  | send (event : Except ε α) (buildWarning : BackpressureTracker → α)
  | receive
  | close

/-- What happened in a run: the entries of all calls, and the events as they were submitted. -/
structure Journal (ε α : Type) where
  entries : List (Entry ε α) := []
  submitted : List (Except ε α) := []
  deriving DecidableEq

namespace Outbox

def send (outbox : Outbox ε α) (event : Except ε α) (buildWarning : BackpressureTracker → α)
    : Outbox ε α :=
  let (channel, tracker, _) :=
    trySendWithBackpressureWarning outbox.channel event outbox.tracker buildWarning id
      (fun _ => id) ()
  { channel, tracker }

def step (outbox : Outbox ε α) : OutboxAction ε α → Option (Outbox ε α)
  | .send event buildWarning => some (outbox.send event buildWarning)
  | .receive => outbox.channel.recv.map fun channel => { outbox with channel }
  | .close => some { outbox with channel := outbox.channel.close }

/-- Outboxes with a fresh tracker on a fresh channel of any capacity. -/
def machine : Machine (Outbox ε α) (OutboxAction ε α) where
  Start outbox := ∃ capacity positive, outbox = { channel := .new capacity positive }
  step := step

/-- Write down what a call does. -/
def note (outbox : Outbox ε α) (action : OutboxAction ε α) (journal : Journal ε α)
    : Journal ε α :=
  match action with
  | .send event buildWarning =>
      { entries :=
          journal.entries ++ transcript outbox.channel event outbox.tracker buildWarning
        submitted := journal.submitted ++ [event] }
  | _ => journal

end Outbox

-----------------------------------------------------------------------------------------
-- Reading the journal
-----------------------------------------------------------------------------------------

namespace Entry

/-- The event that went into the channel, if one did. -/
def delivered? : Entry ε α → Option (Except ε α)
  | .delivered event => some event
  | _ => none

/-- The drops that a warning reports. -/
def reported : Entry ε α → Option Nat
  | .warned tracker _ => some tracker.droppedSinceLastReport.toNat
  | _ => none

/-- The total that a warning gives. -/
def reportedTotal : Entry ε α → Option Nat
  | .warned tracker _ => some tracker.eventQueueDropTotal.toNat
  | _ => none

/-- Some event was dropped, and none got through after it. -/
def Owed (entries : List (Entry ε α)) : Prop :=
  ∃ earlier event later,
    entries = earlier ++ .dropped event :: later
    ∧ ∀ entry ∈ later, entry.delivered? = none

/-- Every first event after a drop comes right behind a warning. -/
def Announced (entries : List (Entry ε α)) : Prop :=
  ∀ before event,
    before ++ [.delivered event] <+: entries
    → Owed before
    → ∃ shorter tracker warning, before = shorter ++ [.warned tracker warning]

/-- Only a drop makes a report owed, and only a delivery ends that. -/
theorem owed_concat {entries : List (Entry ε α)} {entry : Entry ε α}
    : Owed (entries ++ [entry])
      ↔ (∃ event, entry = .dropped event) ∨ (Owed entries ∧ entry.delivered? = none) := by
  constructor
  · rintro ⟨earlier, event, later, split, calm⟩
    rcases List.eq_nil_or_concat later with rfl | ⟨before, last, rfl⟩
    · exact .inl ⟨event, (List.append_inj' split rfl).2 |> List.singleton_inj.mp⟩
    · rw [List.concat_eq_append, ← List.cons_append, ← List.append_assoc] at split
      obtain ⟨rfl, same⟩ := List.append_inj' split rfl
      obtain rfl := List.singleton_inj.mp same
      refine .inr ⟨⟨earlier, event, before, rfl, ?_⟩, calm _ (by simp)⟩
      intro other member
      exact calm other (by simp [member])
  · rintro (⟨event, rfl⟩ | ⟨⟨earlier, event, later, rfl, calm⟩, quiet⟩)
    · exact ⟨entries, event, [], rfl, by simp⟩
    · refine ⟨earlier, event, later ++ [entry], by simp, ?_⟩
      intro other member
      rcases List.mem_append.mp member with inside | last
      · exact calm other inside
      · exact List.mem_singleton.mp last ▸ quiet

/-- One more entry needs a look only if it is a delivery. -/
theorem Announced.concat {entries : List (Entry ε α)} {entry : Entry ε α}
    (announced : Announced entries)
    (last
      : Owed entries
        → ∀ event,
            entry = .delivered event
            → ∃ shorter tracker warning, entries = shorter ++ [.warned tracker warning])
    : Announced (entries ++ [entry]) := by
  intro before event starts owed
  rcases List.prefix_concat_iff.mp starts with whole | inside
  · obtain ⟨rfl, same⟩ := List.append_inj' whole rfl
    exact last owed event (List.singleton_inj.mp same).symm
  · exact announced before event inside owed

end Entry

-----------------------------------------------------------------------------------------
-- The counters
-----------------------------------------------------------------------------------------

namespace BackpressureTracker

/-- The total has not reached the largest 64-bit number. -/
def Below (tracker : BackpressureTracker) : Prop :=
  tracker.eventQueueDropTotal.toNat < UInt64.size - 1

theorem hasPendingReport_iff {tracker : BackpressureTracker}
    : tracker.hasPendingReport = true ↔ 0 < tracker.droppedSinceLastReport.toNat := by
  simp [hasPendingReport, UInt64.lt_iff_toNat_lt]

/-- A failure leaves a report to send. -/
theorem recordSendFailure_pending (tracker : BackpressureTracker)
    : (tracker.recordSendFailure .full).hasPendingReport = true := by
  rw [hasPendingReport_iff]
  simp only [recordSendFailure, saturatingAdd_toNat, UInt64.size, UInt64.reduceToNat]
  omega

theorem Below.of_failure {tracker : BackpressureTracker}
    (below : (tracker.recordSendFailure .full).Below)
    : tracker.Below := by
  simp only [Below, recordSendFailure, saturatingAdd_toNat, UInt64.size,
    UInt64.reduceToNat] at *
  omega

/-- Below the limit a failure counts by one in both counters. -/
theorem recordSendFailure_counts {tracker : BackpressureTracker}
    (covered : tracker.droppedSinceLastReport.toNat ≤ tracker.eventQueueDropTotal.toNat)
    (below : (tracker.recordSendFailure .full).Below)
    : (tracker.recordSendFailure .full).eventQueueDropTotal.toNat
        = tracker.eventQueueDropTotal.toNat + 1
      ∧ (tracker.recordSendFailure .full).droppedSinceLastReport.toNat
        = tracker.droppedSinceLastReport.toNat + 1 := by
  simp only [Below, recordSendFailure, saturatingAdd_toNat, UInt64.size,
    UInt64.reduceToNat] at *
  omega

end BackpressureTracker

/-- The reports made so far and the drops not reported yet are all the drops. -/
structure Balanced (tracker : BackpressureTracker) (entries : List (Entry ε α)) : Prop where
  sum
    : (entries.filterMap Entry.reported).sum + tracker.droppedSinceLastReport.toNat
      = tracker.eventQueueDropTotal.toNat
  earlier
    : ∀ total ∈ entries.filterMap Entry.reportedTotal,
        total + tracker.droppedSinceLastReport.toNat ≤ tracker.eventQueueDropTotal.toNat
  rising : (entries.filterMap Entry.reportedTotal).Pairwise (· < ·)

namespace Balanced

variable {tracker : BackpressureTracker} {entries : List (Entry ε α)}

theorem covered (balanced : Balanced tracker entries)
    : tracker.droppedSinceLastReport.toNat ≤ tracker.eventQueueDropTotal.toNat := by
  have sum := balanced.sum
  omega

/-- Entries of events do not touch the reports. -/
theorem settled {entry : Entry ε α} (balanced : Balanced tracker entries)
    (event : entry.reported = none ∧ entry.reportedTotal = none)
    : Balanced tracker (entries ++ [entry]) where
  sum := by simpa [event.1] using balanced.sum
  earlier := by simpa [event.2] using balanced.earlier
  rising := by simpa [event.2] using balanced.rising

/-- A full queue adds to both sides. -/
theorem failed (balanced : Balanced tracker entries)
    (below : (tracker.recordSendFailure .full).Below)
    : Balanced (tracker.recordSendFailure .full) entries := by
  obtain ⟨total, since⟩ :=
    BackpressureTracker.recordSendFailure_counts balanced.covered below
  refine ⟨?_, ?_, balanced.rising⟩
  · rw [total, since, ← balanced.sum]
    omega
  · intro reported member
    have earlier := balanced.earlier reported member
    omega

/-- A warning moves the pending drops to the reports; its total is above all earlier ones
because something was dropped since.
-/
theorem warned (warning : α) (balanced : Balanced tracker entries)
    (pending : tracker.hasPendingReport = true)
    : Balanced tracker.clearPendingReport (entries ++ [.warned tracker warning]) := by
  have since := BackpressureTracker.hasPendingReport_iff.mp pending
  refine ⟨?_, ?_, ?_⟩
  · simpa [Entry.reported, BackpressureTracker.clearPendingReport] using balanced.sum
  · intro total member
    simp only [List.filterMap_append, List.mem_append] at member
    rcases member with before | now
    · have earlier := balanced.earlier total before
      simp only [BackpressureTracker.clearPendingReport, UInt64.reduceToNat]
      omega
    · obtain rfl : total = tracker.eventQueueDropTotal.toNat := by
        simpa [Entry.reportedTotal] using now
      simp [BackpressureTracker.clearPendingReport]
  · simp only [List.filterMap_append, List.pairwise_append]
    refine ⟨balanced.rising, by simp [Entry.reportedTotal], ?_⟩
    intro total before last now
    obtain rfl : last = tracker.eventQueueDropTotal.toNat := by
      simpa [Entry.reportedTotal] using now
    have earlier := balanced.earlier total before
    omega

/-- A call keeps the balance, by cases on what it did. -/
theorem call {channel next : Channel (Except ε α)} {event : Except ε α} {warning : α}
    {after : BackpressureTracker} {done : List (Entry ε α)}
    (called : Call channel event tracker warning next after done)
    (balanced : tracker.Below → Balanced tracker entries) (below : after.Below)
    : Balanced after (entries ++ done) := by
  cases called with
  | refused closed | delivered isOpen calm room => exact (balanced below).settled ⟨rfl, rfl⟩
  | dropped isOpen calm full => exact ((balanced below.of_failure).failed below).settled ⟨rfl, rfl⟩
  | reported isOpen pending room more =>
      rw [List.append_cons]
      exact ((balanced below).warned warning pending).settled ⟨rfl, rfl⟩
  | reportedOnly isOpen pending room full =>
      rw [List.append_cons]
      have warned := (balanced below.of_failure).warned warning pending
      exact (warned.failed below).settled ⟨rfl, rfl⟩
  | overflowed isOpen pending full =>
      have once := (balanced below.of_failure.of_failure).failed below.of_failure
      exact (once.failed below).settled ⟨rfl, rfl⟩

end Balanced

-----------------------------------------------------------------------------------------
-- The order of the items
-----------------------------------------------------------------------------------------

/-- What the channel has accepted is what the journal says, in the order of submission. -/
structure Orderly (channel : Channel (Except ε α)) (tracker : BackpressureTracker)
    (journal : Journal ε α)
    : Prop where
  posted : channel.sent = journal.entries.filterMap Entry.posted
  submitted : (journal.entries.filterMap Entry.delivered?).Sublist journal.submitted
  owed : Entry.Owed journal.entries → tracker.hasPendingReport = true
  announced : Entry.Announced journal.entries

/-- A call keeps the order, by cases on what it did. -/
theorem Orderly.call {channel next : Channel (Except ε α)} {event : Except ε α} {warning : α}
    {tracker after : BackpressureTracker} {journal : Journal ε α}
    {done : List (Entry ε α)} (called : Call channel event tracker warning next after done)
    (orderly : Orderly channel tracker journal)
    : Orderly next after
        { entries := journal.entries ++ done, submitted := journal.submitted ++ [event] } := by
  obtain ⟨posted, submitted, owed, announced⟩ := orderly
  have posted : next.sent = (journal.entries ++ done).filterMap Entry.posted := by
    rw [called.sent, posted, List.filterMap_append]
  -- an event that did not get through leaves the accepted ones as they are
  have passedOver := submitted.trans (List.sublist_append_left _ [event])
  cases called with
  | refused closed =>
      refine ⟨posted,
        by simpa [Entry.delivered?, List.filterMap_cons] using passedOver, ?_,
        announced.concat (by simp)⟩
      intro still
      rw [Entry.owed_concat] at still
      simp only [reduceCtorEq, exists_false, false_or] at still
      exact owed still.1
  | delivered isOpen calm room =>
      refine ⟨posted,
        by simpa [Entry.delivered?, List.filterMap_cons] using submitted.append_right [event], ?_,
        announced.concat ?_⟩
      · intro still
        simp [Entry.owed_concat, Entry.delivered?] at still
      · intro still
        simp [owed still] at calm
  | dropped isOpen calm full =>
      exact ⟨posted,
        by simpa [Entry.delivered?, List.filterMap_cons] using passedOver,
        fun _ => tracker.recordSendFailure_pending, announced.concat (by simp)⟩
  | reported isOpen pending room more =>
      rw [List.append_cons] at posted ⊢
      refine ⟨posted,
        by simpa [Entry.delivered?, List.filterMap_cons] using submitted.append_right [event], ?_,
        (announced.concat (by simp)).concat ?_⟩
      · intro still
        rw [Entry.owed_concat] at still
        simp [Entry.delivered?] at still
      · intro _ _ _
        exact ⟨journal.entries, tracker, warning, rfl⟩
  | reportedOnly isOpen pending room full =>
      rw [List.append_cons] at posted ⊢
      exact ⟨posted,
        by simpa [Entry.delivered?, List.filterMap_cons] using passedOver,
        fun _ => tracker.clearPendingReport.recordSendFailure_pending,
        (announced.concat (by simp)).concat (by simp)⟩
  | overflowed isOpen pending full =>
      exact ⟨posted,
        by simpa [Entry.delivered?, List.filterMap_cons] using passedOver,
        fun _ => (tracker.recordSendFailure .full).recordSendFailure_pending,
        announced.concat (by simp)⟩

-----------------------------------------------------------------------------------------
-- Runs
-----------------------------------------------------------------------------------------

namespace Outbox

/-- Balance and order hold in every recorded run, by induction on its steps. -/
theorem recorded_invariants {outbox : Outbox ε α} {journal : Journal ε α}
    (run : (machine.record {} note).Reachable (outbox, journal))
    : (outbox.tracker.Below → Balanced outbox.tracker journal.entries)
      ∧ Orderly outbox.channel outbox.tracker journal := by
  refine run.recorded
    (motive := fun outbox journal =>
      (outbox.tracker.Below → Balanced outbox.tracker journal.entries)
      ∧ Orderly outbox.channel outbox.tracker journal) ?_ ?_
  · intro outbox opened
    obtain ⟨capacity, positive, rfl⟩ := opened
    refine ⟨fun _ => ⟨rfl, by simp, by simp⟩, rfl, by simp, ?_, ?_⟩
    · rintro ⟨earlier, event, later, split, -⟩
      simp at split
    · intro before event starts
      simp at starts
  · intro outbox journal action next held _ stepped
    obtain ⟨balanced, orderly⟩ := held
    cases action with
    | send event buildWarning =>
        cases stepped
        have called := trySendWithBackpressureWarning_call outbox.channel event outbox.tracker
          buildWarning id (fun _ => id) ()
        exact ⟨Balanced.call called balanced, orderly.call called⟩
    | receive =>
        obtain ⟨channel, received, rfl⟩ := Option.map_eq_some_iff.mp stepped
        have same := (Channel.recv_sent received).1
        exact ⟨balanced, { orderly with posted := same.trans orderly.posted }⟩
    | close =>
        cases stepped
        exact ⟨balanced, { orderly with }⟩

/-- In every run the reports and the drops not reported yet add up to all drops; a first
event after a drop comes right behind a warning; the totals of the warnings rise; and the
accepted events keep the order in which they were submitted.
-/
theorem reports_add_up {outbox : Outbox ε α} {journal : Journal ε α}
    (run : (machine.record {} note).Reachable (outbox, journal))
    (below : outbox.tracker.eventQueueDropTotal.toNat < UInt64.size - 1)
    : outbox.channel.sent = journal.entries.filterMap Entry.posted
      ∧ (journal.entries.filterMap Entry.reported).sum
          + outbox.tracker.droppedSinceLastReport.toNat
        = outbox.tracker.eventQueueDropTotal.toNat
      ∧ Entry.Announced journal.entries
      ∧ (journal.entries.filterMap Entry.reportedTotal).Pairwise (· < ·)
      ∧ (journal.entries.filterMap Entry.delivered?).Sublist journal.submitted := by
  obtain ⟨balanced, orderly⟩ := recorded_invariants run
  have balanced := balanced below
  exact ⟨orderly.posted, balanced.sum, orderly.announced, balanced.rising, orderly.submitted⟩

/-- A channel of two slots: the third event is dropped, and after two receives the fourth
comes behind a warning.
-/
def sampleOutbox : Outbox Unit Nat where
  channel :=
    { capacity := 2
      sent := [.ok 1, .ok 2, .ok 100, .ok 4]
      received := 2
      positive := by decide
      behind := by decide
      bounded := by decide }
  tracker := { eventQueueDropTotal := 1, droppedSinceLastReport := 0 }

def sampleJournal : Journal Unit Nat where
  entries :=
    [.delivered (.ok 1), .delivered (.ok 2), .dropped (.ok 3), .warned ⟨1, 1⟩ 100,
      .delivered (.ok 4)]
  submitted := [.ok 1, .ok 2, .ok 3, .ok 4]

/-- A call with a number as its event; the warning is always the same. -/
def sendNumber (number : Nat) : OutboxAction Unit Nat := .send (.ok number) fun _ => 100

theorem sampleOutbox_reached
    : (machine.record {} note).Reachable (sampleOutbox, sampleJournal) := by
  have start : (machine.record {} note).Reachable
      (({ channel := .new 2 (by decide) } : Outbox Unit Nat), {}) :=
    .start ⟨⟨2, by decide, rfl⟩, rfl⟩
  have taken : (machine.record {} note).takes ({ channel := .new 2 (by decide) }, {})
      [sendNumber 1, sendNumber 2, sendNumber 3, .receive, .receive, sendNumber 4]
      = some (sampleOutbox, sampleJournal) := by
    decide +kernel
  exact start.takes (by simp) taken

theorem reports_add_up_sample
    : sampleOutbox.tracker.eventQueueDropTotal.toNat < UInt64.size - 1
      ∧ sampleOutbox.channel.sent = sampleJournal.entries.filterMap Entry.posted
      ∧ (sampleJournal.entries.filterMap Entry.reported).sum
          + sampleOutbox.tracker.droppedSinceLastReport.toNat
        = sampleOutbox.tracker.eventQueueDropTotal.toNat
      ∧ Entry.Announced sampleJournal.entries
      ∧ (sampleJournal.entries.filterMap Entry.reportedTotal).Pairwise (· < ·)
      ∧ (sampleJournal.entries.filterMap Entry.delivered?).Sublist sampleJournal.submitted :=
  ⟨by decide, reports_add_up sampleOutbox_reached (by decide)⟩

end Outbox

end Emwin.RuntimeSupport
