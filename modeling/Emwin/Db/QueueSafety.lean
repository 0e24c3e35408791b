import Emwin.Db.RuntimeRuns

/-! Safety of the persistence queue: permits match the pending requests, requests leave in the
order they came, and every accepted request is accounted for.
-/

namespace Emwin.Db
open Library

namespace Worker

variable {M : Type}

/-- One while the worker has a permit that it has not used yet. -/
def holding : Worker M → Nat
  | .acquired => 1
  | _ => 0

/-- The request that is being persisted. -/
def inHand : Worker M → List (PersistRequest M)
  | .persisting request _ => [request]
  | _ => []

/-- The worker will look for a permit (again). -/
def comesBack : Worker M → Bool
  | .waiting | .persisting _ _ => true
  | _ => false

end Worker

namespace Departure

variable {M : Type}

/-- The request, if the worker popped it. -/
def popped? : Departure M → Option (PersistRequest M)
  | .evicted _ => none
  | .popped request => some request

theorem countP_isEvicted (departed : List (Departure M))
    : departed.length = departed.countP isEvicted + (departed.filterMap popped?).length := by
  induction departed with
  | nil => rfl
  | cons departure rest ih =>
      cases departure with
      | evicted request =>
          rw [List.countP_cons_of_pos rfl, List.filterMap_cons_none rfl, List.length_cons, ih]
          omega
      | popped request =>
          rw [List.countP_cons_of_neg Bool.false_ne_true,
            List.filterMap_cons_some (f := popped?) rfl, List.length_cons, List.length_cons, ih,
            Nat.add_assoc]

end Departure

/-- The request was persisted. -/
def FinishedRequest.persisted {M : Type} (finished : FinishedRequest M) : Bool :=
  finished.result.isOk

variable {M : Type} {runtime next : PersistenceRuntime M} {history noted : RuntimeHistory M}

-----------------------------------------------------------------------------------------
-- Permits
-----------------------------------------------------------------------------------------

/-- The deque fits, permits and pending requests match while the queue is open, and a closed
queue is empty and has a permit left for a worker that comes back.
-/
structure PermitsMatch (runtime : PersistenceRuntime M) : Prop where
  fits : runtime.queue.pending.length ≤ runtime.queue.capacity
  permits
    : runtime.queue.closed = false
      → runtime.queue.available + runtime.worker.holding = runtime.queue.pending.length
  emptied : runtime.queue.closed = true → runtime.queue.pending = []
  wakes
    : runtime.queue.closed = true
      → runtime.worker.comesBack = true
      → 0 < runtime.queue.available
  checks : runtime.worker = .checking → runtime.queue.closed = true
  stops : ∀ stats, runtime.worker = .stopped stats → runtime.queue.closed = true

theorem PermitsMatch.initial (config : PersistenceConfig)
    : PermitsMatch (.spawn config : PersistenceRuntime M) where
  fits := Nat.zero_le _
  permits _ := rfl
  emptied _ := rfl
  wakes closed := absurd closed Bool.false_ne_true
  checks checks := absurd checks (by simp [PersistenceRuntime.spawn])
  stops stats stops := absurd stops (by simp [PersistenceRuntime.spawn])

/-- A worker in the middle of a request goes on with it or comes back for a permit; neither
touches deque and permits.
-/
theorem PermitsMatch.busy (before : PermitsMatch runtime)
    {request : PersistRequest M} {progress : Progress}
    (busy : runtime.worker = .persisting request progress)
    (pending : next.queue.pending = runtime.queue.pending)
    (closed : next.queue.closed = runtime.queue.closed)
    (available : next.queue.available = runtime.queue.available)
    (capacity : next.queue.capacity = runtime.queue.capacity)
    (worker : next.worker.comesBack = true)
    : PermitsMatch next := by
  have holding : next.worker.holding = runtime.worker.holding := by
    rw [busy]
    rcases now : next.worker with _ | _ | _ | _ | _ <;>
      first | rfl | exact absurd worker (by simp [now, Worker.comesBack])
  constructor
  · rw [pending, capacity]
    exact before.fits
  · rw [pending, closed, available, holding]
    exact before.permits
  · rw [pending, closed]
    exact before.emptied
  · rw [closed, available]
    exact fun isClosed _ => before.wakes isClosed (by rw [busy]; rfl)
  · intro checks
    exact absurd worker (by simp [checks, Worker.comesBack])
  · intro stats stops
    exact absurd worker (by simp [stops, Worker.comesBack])

theorem turn_comesBack (request : PersistRequest M) (turn : Turn)
    : (runtime.turn request turn).worker.comesBack = true := by
  cases turn with
  | awaits progress => rfl
  | returns result => rfl

/-- Every move keeps permits and requests together, by cases on the move. -/
theorem PermitsMatch.move (before : PermitsMatch runtime)
    (move : Moves runtime history next noted)
    : PermitsMatch next := by
  have ⟨fits, permits, emptied, wakes, checks, stops⟩ := before
  cases move with
  | idle => exact before
  | @evicted oldest rest request isOpen full front =>
      have size : (rest ++ [request]).length = runtime.queue.pending.length := by simp [front]
      refine ⟨size ▸ fits, fun _ => size ▸ permits isOpen, ?_, ?_, checks, stops⟩
      · exact fun closed => absurd (isOpen.symm.trans closed) Bool.false_ne_true
      · exact fun closed => absurd (isOpen.symm.trans closed) Bool.false_ne_true
  | queued request isOpen room =>
      have balance := permits isOpen
      refine ⟨?_, fun _ => ?_, ?_, ?_, checks, stops⟩
      · simp only [List.length_append, List.length_singleton]
        omega
      · simp only [List.length_append, List.length_singleton]
        omega
      · exact fun closed => absurd (isOpen.symm.trans closed) Bool.false_ne_true
      · exact fun closed => absurd (isOpen.symm.trans closed) Bool.false_ne_true
  | closed isOpen =>
      refine ⟨Nat.zero_le _, ?_, fun _ => rfl, fun _ _ => Nat.succ_pos _, fun _ => rfl,
        fun _ _ => rfl⟩
      exact fun closed => absurd closed.symm Bool.false_ne_true
  | acquired waits permit =>
      refine ⟨fits, fun isOpen => ?_, emptied, ?_, ?_, ?_⟩
      · have balance := permits isOpen
        simp only [waits, Worker.holding] at balance ⊢
        omega
      · exact fun _ back => absurd back (by simp [Worker.comesBack])
      · exact fun impossible => absurd impossible (by simp)
      · exact fun _ impossible => absurd impossible (by simp)
  | @popped request rest holds front =>
      refine ⟨?_, fun isOpen => ?_, fun closed => ?_, fun closed => ?_, ?_, ?_⟩
      · rw [front, List.length_cons] at fits
        exact Nat.le_of_succ_le fits
      · have balance := permits isOpen
        simp only [holds, front, Worker.holding, List.length_cons] at balance ⊢
        omega
      · exact absurd (emptied closed) (by simp [front])
      · exact absurd (emptied closed) (by simp [front])
      · exact fun impossible => absurd impossible (by simp)
      · exact fun _ impossible => absurd impossible (by simp)
  | foundNothing holds empty =>
      -- while the queue is open the permit in hand stands for a pending request
      have closed : runtime.queue.closed = true := by
        by_contra isOpen
        have balance := permits (by simpa using isOpen)
        simp [holds, empty, Worker.holding] at balance
      refine ⟨fits, ?_, emptied, ?_, fun _ => closed, ?_⟩
      · exact fun isOpen => absurd (isOpen.symm.trans closed) Bool.false_ne_true
      · exact fun _ back => absurd back (by simp [Worker.comesBack])
      · exact fun _ impossible => absurd impossible (by simp)
  | stopped inspects isClosed =>
      have closed := checks inspects
      refine ⟨fits, ?_, emptied, ?_, ?_, fun _ _ => closed⟩
      · exact fun isOpen => absurd (isOpen.symm.trans closed) Bool.false_ne_true
      · exact fun _ back => absurd back (by simp [Worker.comesBack])
      · exact fun impossible => absurd impossible (by simp)
  | resumed inspects isOpen =>
      have closed := checks inspects
      have empty := emptied closed
      exact absurd isOpen (by simp [SharedQueue.isClosed, closed, empty])
  | @called request progress call turn busy answers =>
      refine before.busy busy ?_ ?_ ?_ ?_ (turn_comesBack request turn)
      all_goals cases turn with
      | awaits progress => rfl
      | returns result => cases result <;> rfl
  | retries busy later => exact before.busy busy rfl rfl rfl rfl rfl

-----------------------------------------------------------------------------------------
-- Order
-----------------------------------------------------------------------------------------

/-- The accepted requests are, in this order, those that left the deque, those that closing
dropped and those still pending; the popped ones are finished or in hand.
-/
structure Ordered (runtime : PersistenceRuntime M) (history : RuntimeHistory M) : Prop where
  arrivals
    : history.accepted
      = history.departed.map Departure.request ++ history.dropped ++ runtime.queue.pending
  dropless : runtime.queue.closed = false → history.dropped = []
  pops
    : history.departed.filterMap Departure.popped?
      = history.finished.map FinishedRequest.request ++ runtime.worker.inHand

/-- Every move keeps the order, by cases on the move. -/
theorem Ordered.move (permits : PermitsMatch runtime) (before : Ordered runtime history)
    (move : Moves runtime history next noted)
    : Ordered next noted := by
  have ⟨arrivals, dropless, pops⟩ := before
  cases move with
  | idle => exact before
  | evicted request isOpen full front =>
      refine ⟨?_, dropless, ?_⟩
      · simp [arrivals, dropless isOpen, front, Departure.request]
      · simp [pops, Departure.popped?]
  | queued request isOpen room => exact ⟨by simp [arrivals], dropless, pops⟩
  | closed isOpen =>
      refine ⟨?_, fun closed => absurd closed.symm Bool.false_ne_true, pops⟩
      simp [arrivals, dropless isOpen]
  | acquired waits permit => exact ⟨arrivals, dropless, by simp [pops, waits, Worker.inHand]⟩
  | @popped request rest holds front =>
      have isOpen : runtime.queue.closed = false := by
        by_contra closed
        exact absurd (permits.emptied (by simpa using closed)) (by simp [front])
      refine ⟨?_, dropless, ?_⟩
      · simp [arrivals, dropless isOpen, front, Departure.request]
      · simp [pops, holds, Worker.inHand, Departure.popped?]
  | foundNothing holds empty => exact ⟨arrivals, dropless, by simp [pops, holds, Worker.inHand]⟩
  | stopped checks closed => exact ⟨arrivals, dropless, by simp [pops, checks, Worker.inHand]⟩
  | resumed checks isOpen => exact ⟨arrivals, dropless, by simp [pops, checks, Worker.inHand]⟩
  | @called request progress call turn busy answers =>
      cases turn with
      | awaits progress => exact ⟨arrivals, dropless, by rw [busy] at pops; exact pops⟩
      | returns result =>
          obtain ⟨pending, closed, -⟩ := count_frame runtime.queue result
          refine ⟨pending ▸ arrivals, closed ▸ dropless, ?_⟩
          simp [pops, busy, RuntimeHistory.called, PersistenceRuntime.turn, Worker.inHand]
  | retries busy later => exact ⟨arrivals, dropless, by rw [busy] at pops; exact pops⟩

-----------------------------------------------------------------------------------------
-- Counters
-----------------------------------------------------------------------------------------

/-- Every counter is the number of what it counts, as far as 64 bits can hold it. -/
structure Counted (stats : PersistenceStats) (history : RuntimeHistory M) : Prop where
  enqueued : stats.enqueuedTotal = saturated history.accepted.length
  evicted : stats.evictedTotal = saturated (history.departed.countP Departure.isEvicted)
  persisted
    : stats.persistedTotal = saturated (history.finished.countP FinishedRequest.persisted)
  failed
    : stats.failedTotal
      = saturated (history.finished.countP fun finished => !finished.persisted)

theorem saturatingAdd_one (n : Nat) : saturatingAdd (saturated n) 1 = saturated (n + 1) :=
  saturatingAdd_saturated n 1

/-- Every move keeps the counters exact, by cases on the move. -/
theorem Counted.move (before : Counted runtime.queue.stats history)
    (move : Moves runtime history next noted)
    : Counted next.queue.stats noted := by
  have ⟨enqueued, evicted, persisted, failed⟩ := before
  cases move with
  | evicted request isOpen full front =>
      refine ⟨?_, ?_, persisted, failed⟩
      · simp [enqueued, saturatingAdd_one]
      · simp [evicted, saturatingAdd_one, Departure.isEvicted]
  | queued request isOpen room =>
      exact ⟨by simp [enqueued, saturatingAdd_one], evicted, persisted, failed⟩
  | popped holds front =>
      exact ⟨enqueued, by simp [evicted, Departure.isEvicted], persisted, failed⟩
  | @called request progress call turn busy answers =>
      cases turn with
      | awaits progress => exact ⟨enqueued, evicted, persisted, failed⟩
      | returns result =>
          obtain ⟨-, -, -, -, sameEnqueued, sameEvicted⟩ := count_frame runtime.queue result
          refine ⟨sameEnqueued.trans enqueued, sameEvicted.trans evicted, ?_, ?_⟩
          · cases result <;>
              simp [PersistenceRuntime.turn, SharedQueue.count, RuntimeHistory.called, persisted,
                saturatingAdd_one, FinishedRequest.persisted, Except.isOk, Except.toBool]
          · cases result <;>
              simp [PersistenceRuntime.turn, SharedQueue.count, RuntimeHistory.called, failed,
                saturatingAdd_one, FinishedRequest.persisted, Except.isOk, Except.toBool]
  | _ => exact ⟨enqueued, evicted, persisted, failed⟩

-----------------------------------------------------------------------------------------
-- Safety of the queue
-----------------------------------------------------------------------------------------

/-- All three invariants hold in every state of every run. -/
theorem queue_invariants (run : (runtimeRuns M).Reachable (runtime, history))
    : PermitsMatch runtime ∧ Ordered runtime history ∧ Counted runtime.queue.stats history := by
  refine runtimeRuns_invariant
    (motive := fun runtime history =>
      PermitsMatch runtime ∧ Ordered runtime history ∧ Counted runtime.queue.stats history)
    ?_ ?_ run
  · intro config
    refine ⟨.initial config, ⟨rfl, fun _ => rfl, rfl⟩, ⟨rfl, rfl, rfl, rfl⟩⟩
  · intro runtime history next noted before move
    obtain ⟨permits, ordered, counted⟩ := before
    exact ⟨permits.move move, ordered.move permits move, counted.move move⟩

/-- The accepted requests, by what became of them. -/
theorem Ordered.accounted (ordered : Ordered runtime history)
    : history.accepted.length
      = history.departed.countP Departure.isEvicted
        + history.finished.countP FinishedRequest.persisted
        + history.finished.countP (fun finished => !finished.persisted)
        + runtime.queue.pending.length
        + runtime.worker.inHand.length
        + history.dropped.length := by
  have popped := congrArg List.length ordered.pops
  have departed := Departure.countP_isEvicted history.departed
  have finished :=
    List.length_eq_countP_add_countP FinishedRequest.persisted (l := history.finished)
  rw [ordered.arrivals]
  simp only [List.length_append, List.length_map, Bool.not_eq_true, Bool.decide_eq_false]
    at popped finished ⊢
  omega

/-- The counters add up as long as the number of accepted requests fits 64 bits. -/
theorem Ordered.totals (ordered : Ordered runtime history)
    (counted : Counted runtime.queue.stats history)
    (fits : history.accepted.length < UInt64.size)
    : runtime.queue.stats.enqueuedTotal.toNat
      = runtime.queue.stats.evictedTotal.toNat
        + runtime.queue.stats.persistedTotal.toNat
        + runtime.queue.stats.failedTotal.toNat
        + runtime.queue.pending.length
        + runtime.worker.inHand.length
        + history.dropped.length := by
  have accounted := ordered.accounted
  rw [counted.enqueued, counted.evicted, counted.persisted, counted.failed]
  simp only [saturated_toNat]
  omega

/-- What the queue promises in every state of every run. -/
structure QueueSafe (runtime : PersistenceRuntime M) (history : RuntimeHistory M) : Prop where
  /-- The deque never exceeds its capacity. -/
  fits : runtime.queue.pending.length ≤ runtime.queue.capacity
  /-- No wakeup is lost and none is spurious. -/
  permits
    : runtime.queue.closed = false
      → runtime.queue.available + runtime.worker.holding = runtime.queue.pending.length
  /-- Requests leave in the order in which they were accepted, popped or evicted. -/
  arrivals
    : history.accepted
      = history.departed.map Departure.request ++ history.dropped ++ runtime.queue.pending
  /-- Every accepted request is accounted for. -/
  accounted
    : history.accepted.length
      = history.departed.countP Departure.isEvicted
        + history.finished.countP FinishedRequest.persisted
        + history.finished.countP (fun finished => !finished.persisted)
        + runtime.queue.pending.length
        + runtime.worker.inHand.length
        + history.dropped.length
  /-- The counters hold these numbers, up to the largest 64-bit number. -/
  counted : Counted runtime.queue.stats history
  /-- The counters add up until they saturate. -/
  totals
    : history.accepted.length < UInt64.size
      → runtime.queue.stats.enqueuedTotal.toNat
        = runtime.queue.stats.evictedTotal.toNat
          + runtime.queue.stats.persistedTotal.toNat
          + runtime.queue.stats.failedTotal.toNat
          + runtime.queue.pending.length
          + runtime.worker.inHand.length
          + history.dropped.length
  /-- A closed queue is empty and stays closed. -/
  emptied : runtime.queue.closed = true → runtime.queue.pending = []
  closes
    : runtime.queue.closed = true
      → ∀ action next, runtime.step action = some next → next.queue.closed = true
  /-- A closed queue accepts nothing. -/
  rejects
    : runtime.queue.closed = true
      → ∀ request,
          runtime.queue.enqueue request = (runtime.queue, ⟨false, none, 0⟩)
  /-- A worker that comes back to a closed queue gets a permit, finds nothing and stops. -/
  wakes
    : runtime.queue.closed = true
      → runtime.worker = .waiting
      → ∃ next, runtime.step .acquire = some next
  findsNothing
    : runtime.queue.closed = true
      → ∀ next, runtime.step .pop = some next → next.worker = .checking
  stops
    : runtime.queue.closed = true
      → ∀ next,
          runtime.step .check = some next
          → next.worker = .stopped runtime.queue.statsSnapshot

/-- Closing is for good, by cases on the move. -/
theorem Moves.closed_stays (move : Moves runtime history next noted)
    (closed : runtime.queue.closed = true)
    : next.queue.closed = true := by
  cases move with
  | closed isOpen => rfl
  | @called request progress call turn busy answers =>
      cases turn with
      | awaits progress => exact closed
      | returns result => exact (count_frame runtime.queue result).2.1.trans closed
  | _ => exact closed

theorem capacity_positive (run : (runtimeRuns M).Reachable (runtime, history))
    : 0 < runtime.queue.capacity := by
  refine runtimeRuns_invariant (motive := fun runtime _ => 0 < runtime.queue.capacity) ?_ ?_ run
  · intro config
    simp [PersistenceRuntime.spawn]
  · intro runtime history next noted before move
    exact move.capacity ▸ before

/-- The queue is safe in every state of every run, whatever the producers, the worker, the
writer and the sink do and whenever the queue is closed.
-/
theorem queue_safe (run : (runtimeRuns M).Reachable (runtime, history))
    : QueueSafe runtime history := by
  obtain ⟨permits, ordered, counted⟩ := queue_invariants run
  have positive := capacity_positive run
  exact {
    fits := permits.fits
    permits := permits.permits
    arrivals := ordered.arrivals
    accounted := ordered.accounted
    counted := counted
    totals := ordered.totals counted
    emptied := permits.emptied
    closes := by
      intro closed action next taken
      have move : Moves runtime history _ _ := moves_of_step positive taken
      exact move.closed_stays closed
    rejects := by
      intro closed request
      simp [SharedQueue.enqueue, closed, permits.emptied closed]
    wakes := by
      intro closed waits
      have permit := permits.wakes closed (by rw [waits]; rfl)
      simp [PersistenceRuntime.step, waits, permit]
    findsNothing := by
      intro closed next taken
      rcases holds : runtime.worker with _ | _ | _ | _ | _ <;>
        simp only [PersistenceRuntime.step, holds, reduceCtorEq] at taken
      simp only [SharedQueue.popRequest, permits.emptied closed, List.head?_nil,
        Option.some.injEq] at taken
      rw [← taken]
    stops := by
      intro closed next taken
      rcases checks : runtime.worker with _ | _ | _ | _ | _ <;>
        simp only [PersistenceRuntime.step, checks, reduceCtorEq] at taken
      have ended : runtime.queue.isClosed = true := by
        simp [SharedQueue.isClosed, closed, permits.emptied closed]
      rw [if_pos ended] at taken
      rw [← Option.some.inj taken]
  }

/-- A request without blobs. -/
def bareRequest (key : Text) : PersistRequest Unit := ⟨key, (), []⟩

/-- A queue of one place. -/
def narrowConfig : PersistenceConfig := .new 1

/-- The second request evicts the first and is persisted; closing drops the third, and the
worker stops.
-/
def evictedPersistedDropped : List (RuntimeAction Unit) :=
  [.enqueue (bareRequest ['a']), .enqueue (bareRequest ['b']), .acquire, .pop,
    .committed (.ok ()), .enqueue (bareRequest ['c']), .close, .acquire, .pop, .check]

theorem queue_safe_when_stopped
    : ∃ runtime history,
        (runtimeRuns Unit).Reachable (runtime, history)
        ∧ history.accepted = [bareRequest ['a'], bareRequest ['b'], bareRequest ['c']]
        ∧ history.departed = [.evicted (bareRequest ['a']), .popped (bareRequest ['b'])]
        ∧ runtime.worker
          = .stopped
              { queueCapacity := 1, enqueuedTotal := 3, evictedTotal := 1, persistedTotal := 1 }
        ∧ QueueSafe runtime history := by
  have computed : ((runtimeRuns Unit).takes (.spawn narrowConfig, {})
      evictedPersistedDropped).map
        (fun reached => (reached.2.accepted, reached.2.departed, reached.1.worker))
      = some ([bareRequest ['a'], bareRequest ['b'], bareRequest ['c']],
          [.evicted (bareRequest ['a']), .popped (bareRequest ['b'])],
          .stopped
            { queueCapacity := 1, enqueuedTotal := 3, evictedTotal := 1,
              persistedTotal := 1 }) := by
    decide +kernel
  obtain ⟨⟨runtime, history⟩, taken, facts⟩ := Option.map_eq_some_iff.mp computed
  obtain ⟨accepted, departed, stopped⟩ := by simpa only [Prod.mk.injEq] using facts
  have run : (runtimeRuns Unit).Reachable (runtime, history) :=
    .takes (.start ⟨⟨narrowConfig, rfl⟩, rfl⟩) (by simp) taken
  exact ⟨runtime, history, run, accepted, departed, stopped, queue_safe run⟩

/-- The narrow queue, full, with its counters. -/
def narrowRuntime (enqueuedTotal evictedTotal : UInt64) : PersistenceRuntime Unit where
  config := narrowConfig
  queue :=
    { pending := [bareRequest []]
      stats := { enqueuedTotal, evictedTotal }
      available := 1
      capacity := 1 }

/-- Enqueue calls alone, by induction on their number. -/
theorem enqueues_reach (n : Nat)
    : ∃ history,
        (runtimeRuns Unit).Reachable
          (narrowRuntime (saturated (n + 1)) (saturated n), history)
        ∧ history.accepted.length = n + 1
        ∧ history.dropped = [] := by
  induction n with
  | zero =>
      have start : (runtimeRuns Unit).Reachable (.spawn narrowConfig, {}) :=
        .start ⟨⟨narrowConfig, rfl⟩, rfl⟩
      have taken : (runtimeRuns Unit).step (.spawn narrowConfig, {}) (.enqueue (bareRequest []))
          = some (narrowRuntime 1 0, { accepted := [bareRequest []] }) := rfl
      exact ⟨_, .step start trivial taken, rfl, rfl⟩
  | succ n ih =>
      obtain ⟨history, reached, accepted, dropped⟩ := ih
      have taken (enqueued evicted : UInt64)
          : (runtimeRuns Unit).step (narrowRuntime enqueued evicted, history)
              (.enqueue (bareRequest []))
            = some (narrowRuntime (saturatingAdd enqueued 1) (saturatingAdd evicted 1),
              { history with
                accepted := history.accepted ++ [bareRequest []]
                departed := history.departed ++ [.evicted (bareRequest [])] }) := rfl
      have later := Machine.Reaches.step reached trivial (taken _ _)
      rw [saturatingAdd_one, saturatingAdd_one] at later
      exact ⟨_, later, by simp [accepted], dropped⟩

/-- After 2 ^ 64 requests for one place the counter of accepted requests is behind. -/
theorem saturated_totals_differ
    : ∃ runtime history,
        (runtimeRuns Unit).Reachable (runtime, history)
        ∧ history.accepted.length = 2 ^ 64
        ∧ runtime.queue.stats.enqueuedTotal.toNat
          ≠ runtime.queue.stats.evictedTotal.toNat
            + runtime.queue.stats.persistedTotal.toNat
            + runtime.queue.stats.failedTotal.toNat
            + runtime.queue.pending.length
            + runtime.worker.inHand.length
            + history.dropped.length := by
  obtain ⟨history, reached, accepted, dropped⟩ := enqueues_reach (2 ^ 64 - 1)
  refine ⟨_, history, reached, by simpa using accepted, ?_⟩
  simp only [narrowRuntime, saturated_toNat, dropped]
  decide

end Emwin.Db
