import Emwin.Db.Runtime

/-! Runs of the persistence runtime: everything one step can do, and what is remembered of the
steps so far.
-/

namespace Emwin.Db
open Library

/-- How a request leaves the deque while the queue is open. -/
inductive Departure (M : Type) where
  | evicted (request : PersistRequest M)
  | popped (request : PersistRequest M)
  deriving DecidableEq, Repr

namespace Departure

variable {M : Type}

def request : Departure M → PersistRequest M
  | .evicted request | .popped request => request

def isEvicted : Departure M → Bool
  | .evicted _ => true
  | .popped _ => false

end Departure

/-- A call of the writer or of the sink with its result, and whether the queue was closed when
the worker looked at the result.
-/
inductive Call (M : Type) where
  | write (entry : BlobEntry) (result : PersistResult StoredBlob) (closed : Bool)
  | commit (persisted : PersistedRequest M) (result : PersistResult Unit) (closed : Bool)
  deriving DecidableEq, Repr

/-- A request that the worker is through with, the calls made for it, and its result. -/
structure FinishedRequest (M : Type) where
  request : PersistRequest M
  calls : List (Call M)
  result : PersistResult Unit

/-- What a run has done so far: the accepted requests, those that left the deque and those
that closing dropped, each in order, the calls made for the request in hand, and the requests
that are finished.
-/
structure RuntimeHistory (M : Type) where
  accepted : List (PersistRequest M) := []
  departed : List (Departure M) := []
  dropped : List (PersistRequest M) := []
  calls : List (Call M) := []
  finished : List (FinishedRequest M) := []

namespace RuntimeHistory

variable {M : Type}

/-- A call has returned; with the last one its request is finished. -/
def called (history : RuntimeHistory M) (request : PersistRequest M) (call : Call M)
    : Turn → RuntimeHistory M
  | .awaits _ => { history with calls := history.calls ++ [call] }
  | .returns result =>
      { history with
        calls := []
        finished := history.finished ++ [⟨request, history.calls ++ [call], result⟩] }

end RuntimeHistory

namespace PersistenceRuntime

variable {M : Type}

/-- What a step adds to the history. -/
def note (runtime : PersistenceRuntime M) (action : RuntimeAction M)
    (history : RuntimeHistory M)
    : RuntimeHistory M :=
  match action with
  | .enqueue request =>
      if (runtime.queue.enqueue request).2.accepted then
        { history with
          accepted := history.accepted ++ [request]
          departed := history.departed ++ (runtime.queue.evicted.map .evicted).toList }
      else history
  | .close =>
      if runtime.queue.closed then history
      else { history with dropped := history.dropped ++ runtime.queue.pending }
  | .pop =>
      { history with
        departed := history.departed ++ (runtime.queue.popRequest.2.map .popped).toList }
  | .written result =>
      match runtime.worker with
      | .persisting request (.writing attempt stored entry rest) =>
          history.called request (.write entry result runtime.queue.closed)
            (Db.written runtime.config runtime.queue.shouldAbortRetry attempt stored rest result)
      | _ => history
  | .committed result =>
      match runtime.worker with
      | .persisting request (.committing attempt stored) =>
          history.called request
            (.commit ⟨request.requestKey, request.metadata, stored⟩ result runtime.queue.closed)
            (Db.committed runtime.config runtime.queue.shouldAbortRetry attempt stored result)
      | _ => history
  | .acquire | .check | .delayOver => history

end PersistenceRuntime

/-- The runtime with its history. -/
def runtimeRuns (M : Type) : Machine (PersistenceRuntime M × RuntimeHistory M) (RuntimeAction M) :=
  (runtimeMachine M).record {} PersistenceRuntime.note

-----------------------------------------------------------------------------------------
-- Everything one step can do
-----------------------------------------------------------------------------------------

section
variable {M : Type}

/-- The call that a request waits for, and where its result leads. -/
inductive Answers (config : PersistenceConfig) (closed : Bool) (request : PersistRequest M)
    : Progress → Call M → Turn → Prop
  | write {attempt stored entry rest} (result : PersistResult StoredBlob)
    : Answers config closed request (.writing attempt stored entry rest)
        (.write entry result closed) (written config closed attempt stored rest result)
  | commit {attempt stored} (result : PersistResult Unit)
    : Answers config closed request (.committing attempt stored)
        (.commit ⟨request.requestKey, request.metadata, stored⟩ result closed)
        (committed config closed attempt stored result)

/-- Where a request goes on when its delay is over. -/
inductive Retries (request : PersistRequest M) : Progress → Progress → Prop
  | write {attempt delay}
    : Retries request (.writeDelay attempt delay)
        (writeBlobs (nextAttempt attempt) [] request.blobs)
  | commit {attempt delay stored}
    : Retries request (.commitDelay attempt delay stored)
        (.committing (nextAttempt attempt) stored)

/-- The steps of the runtime, each with what it changes in the runtime and in its history. -/
inductive Moves (runtime : PersistenceRuntime M) (history : RuntimeHistory M)
    : PersistenceRuntime M → RuntimeHistory M → Prop
  | idle : Moves runtime history runtime history
  | evicted {oldest rest} (request : PersistRequest M) (isOpen : runtime.queue.closed = false)
    (full : runtime.queue.pending.length = runtime.queue.capacity)
    (front : runtime.queue.pending = oldest :: rest)
    : Moves runtime history
        { runtime with
          queue.pending := rest ++ [request]
          queue.stats.evictedTotal := saturatingAdd runtime.queue.stats.evictedTotal 1
          queue.stats.enqueuedTotal := saturatingAdd runtime.queue.stats.enqueuedTotal 1 }
        { history with
          accepted := history.accepted ++ [request]
          departed := history.departed ++ [.evicted oldest] }
  | queued (request : PersistRequest M) (isOpen : runtime.queue.closed = false)
    (room : runtime.queue.pending.length ≠ runtime.queue.capacity)
    : Moves runtime history
        { runtime with
          queue.pending := runtime.queue.pending ++ [request]
          queue.stats.enqueuedTotal := saturatingAdd runtime.queue.stats.enqueuedTotal 1
          queue.available := runtime.queue.available + 1 }
        { history with accepted := history.accepted ++ [request] }
  | closed (isOpen : runtime.queue.closed = false)
    : Moves runtime history
        { runtime with
          queue.closed := true
          queue.pending := []
          queue.available := runtime.queue.available + 1 }
        { history with dropped := history.dropped ++ runtime.queue.pending }
  | acquired (waits : runtime.worker = .waiting) (permit : 0 < runtime.queue.available)
    : Moves runtime history
        { runtime with
          queue.available := runtime.queue.available - 1, worker := .acquired }
        history
  | popped {request rest} (holds : runtime.worker = .acquired)
    (front : runtime.queue.pending = request :: rest)
    : Moves runtime history
        { runtime with
          queue.pending := rest
          worker := .persisting request (writeBlobs 0 [] request.blobs) }
        { history with departed := history.departed ++ [.popped request] }
  | foundNothing (holds : runtime.worker = .acquired) (empty : runtime.queue.pending = [])
    : Moves runtime history { runtime with worker := .checking } history
  | stopped (checks : runtime.worker = .checking) (closed : runtime.queue.isClosed = true)
    : Moves runtime history
        { runtime with worker := .stopped runtime.queue.statsSnapshot } history
  | resumed (checks : runtime.worker = .checking) (isOpen : runtime.queue.isClosed = false)
    : Moves runtime history { runtime with worker := .waiting } history
  | called {request progress call turn} (busy : runtime.worker = .persisting request progress)
    (answers : Answers runtime.config runtime.queue.closed request progress call turn)
    : Moves runtime history (runtime.turn request turn) (history.called request call turn)
  | retries {request progress later} (busy : runtime.worker = .persisting request progress)
    (retries : Retries request progress later)
    : Moves runtime history { runtime with worker := .persisting request later } history

variable {runtime next : PersistenceRuntime M} {history : RuntimeHistory M}

/-- An enqueue call is rejected, evicts the front, or adds a request and a permit. -/
theorem moves_enqueue (positive : 0 < runtime.queue.capacity) (request : PersistRequest M)
    : Moves runtime history { runtime with queue := (runtime.queue.enqueue request).1 }
        (runtime.note (.enqueue request) history) := by
  rcases isOpen : runtime.queue.closed with _ | _
  · by_cases full : runtime.queue.pending.length = runtime.queue.capacity
    · rcases front : runtime.queue.pending with _ | ⟨oldest, rest⟩
      · rw [front] at full
        exact absurd full (by simpa using positive.ne)
      · have move : Moves runtime history _ _ := Moves.evicted request isOpen full front
        rw [front] at full
        simpa [PersistenceRuntime.note, SharedQueue.enqueue, SharedQueue.evicted, isOpen, full,
          front] using move
    · have move : Moves runtime history _ _ := Moves.queued request isOpen full
      simpa [PersistenceRuntime.note, SharedQueue.enqueue, SharedQueue.evicted, isOpen, full]
        using move
  · simpa [PersistenceRuntime.note, SharedQueue.enqueue, isOpen] using Moves.idle

/-- Every step is one of the moves, by cases on the action. -/
theorem moves_of_step {action : RuntimeAction M} (positive : 0 < runtime.queue.capacity)
    (taken : runtime.step action = some next)
    : Moves runtime history next (runtime.note action history) := by
  cases action with
  | enqueue request =>
      obtain rfl := Option.some.inj taken
      exact moves_enqueue positive request
  | close =>
      obtain rfl := Option.some.inj taken
      rcases isOpen : runtime.queue.closed with _ | _
      · have move : Moves runtime history _ _ := .closed isOpen
        simpa [PersistenceRuntime.note, SharedQueue.close, isOpen] using move
      · simpa [PersistenceRuntime.note, SharedQueue.close, isOpen] using Moves.idle
  | acquire =>
      rcases waits : runtime.worker with _ | _ | _ | _ | _ <;>
        simp only [PersistenceRuntime.step, waits, reduceCtorEq] at taken
      split_ifs at taken with permit
      obtain rfl := Option.some.inj taken
      exact .acquired waits permit
  | pop =>
      rcases holds : runtime.worker with _ | _ | _ | _ | _ <;>
        simp only [PersistenceRuntime.step, holds, reduceCtorEq] at taken
      rcases front : runtime.queue.pending with _ | ⟨request, rest⟩
      · simp only [SharedQueue.popRequest, front, List.head?_nil, Option.some.injEq] at taken
        obtain rfl := taken
        have move : Moves runtime history _ _ := Moves.foundNothing holds front
        simpa [PersistenceRuntime.note, SharedQueue.popRequest, front] using front ▸ move
      · simp only [SharedQueue.popRequest, front, List.head?_cons, Option.some.injEq] at taken
        obtain rfl := taken
        have move : Moves runtime history _ _ := Moves.popped holds front
        simpa [PersistenceRuntime.note, SharedQueue.popRequest, front] using move
  | check =>
      rcases checks : runtime.worker with _ | _ | _ | _ | _ <;>
        simp only [PersistenceRuntime.step, checks, reduceCtorEq] at taken
      split_ifs at taken with closed
      · obtain rfl := Option.some.inj taken
        exact .stopped checks closed
      · obtain rfl := Option.some.inj taken
        exact .resumed checks (by simpa using closed)
  | written result =>
      rcases writes : runtime.worker with _ | _ | _ | ⟨request, _ | _ | _ | _⟩ | _ <;>
        simp only [PersistenceRuntime.step, writes, reduceCtorEq] at taken
      obtain rfl := Option.some.inj taken
      simp only [PersistenceRuntime.note, writes]
      exact .called writes (.write result)
  | committed result =>
      rcases commits : runtime.worker with _ | _ | _ | ⟨request, _ | _ | _ | _⟩ | _ <;>
        simp only [PersistenceRuntime.step, commits, reduceCtorEq] at taken
      obtain rfl := Option.some.inj taken
      simp only [PersistenceRuntime.note, commits]
      exact .called commits (.commit result)
  | delayOver =>
      rcases waits : runtime.worker with _ | _ | _ | ⟨request, _ | _ | _ | _⟩ | _ <;>
        simp only [PersistenceRuntime.step, waits, reduceCtorEq] at taken
      · obtain rfl := Option.some.inj taken
        exact .retries waits .write
      · obtain rfl := Option.some.inj taken
        exact .retries waits .commit

/-- Counting a result leaves everything but the counters as it is. -/
theorem count_frame (queue : SharedQueue M) (result : PersistResult Unit)
    : (queue.count result).pending = queue.pending
      ∧ (queue.count result).closed = queue.closed
      ∧ (queue.count result).available = queue.available
      ∧ (queue.count result).capacity = queue.capacity
      ∧ (queue.count result).stats.enqueuedTotal = queue.stats.enqueuedTotal
      ∧ (queue.count result).stats.evictedTotal = queue.stats.evictedTotal := by
  cases result with
  | ok value => exact ⟨rfl, rfl, rfl, rfl, rfl, rfl⟩
  | error err => exact ⟨rfl, rfl, rfl, rfl, rfl, rfl⟩

theorem turn_capacity (request : PersistRequest M) (turn : Turn)
    : (runtime.turn request turn).queue.capacity = runtime.queue.capacity := by
  cases turn with
  | awaits progress => rfl
  | returns result => exact (count_frame runtime.queue result).2.2.2.1

/-- No move changes the capacity, by cases on the move. -/
theorem Moves.capacity {noted : RuntimeHistory M} (move : Moves runtime history next noted)
    : next.queue.capacity = runtime.queue.capacity := by
  cases move with
  | called busy answers => exact turn_capacity _ _
  | _ => rfl

/-- What holds of a new runtime and survives every move holds in every state of every run. -/
theorem runtimeRuns_invariant {motive : PersistenceRuntime M → RuntimeHistory M → Prop}
    (initial : ∀ config, motive (.spawn config) {})
    (preserved
      : ∀ runtime history next noted,
          motive runtime history
          → Moves runtime history next noted
          → motive next noted)
    (run : (runtimeRuns M).Reachable (runtime, history))
    : motive runtime history := by
  -- the capacity never changes, so it stays positive beside the invariant
  have both : motive runtime history ∧ 0 < runtime.queue.capacity := by
    refine run.recorded
      (motive := fun runtime history => motive runtime history ∧ 0 < runtime.queue.capacity)
      ?_ ?_
    · rintro _ ⟨config, rfl⟩
      exact ⟨initial config, by simp [PersistenceRuntime.spawn]⟩
    · intro runtime history action next before _ taken
      have move : Moves runtime history _ _ := moves_of_step before.2 taken
      refine ⟨preserved _ _ _ _ before.1 move, ?_⟩
      exact move.capacity ▸ before.2
  exact both.1

end

end Emwin.Db
