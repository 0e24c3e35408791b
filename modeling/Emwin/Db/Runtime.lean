import Emwin.Db.Model
import Emwin.Library.Machine
import Emwin.Library.Saturating

/-! The persistence queue, its producers and the worker that drains it. -/

namespace Emwin.Db
open Library

/-- `std::time::Duration`, in nanoseconds. -/
abbrev Duration := Nat

/-- `Duration::MAX`. -/
def durationMax : Duration := (UInt64.size - 1) * 10 ^ 9 + 999999999

structure PersistenceConfig where
  queueCapacity : Nat
  retryInitialDelay : Duration := 10 ^ 9
  retryMaxDelay : Duration := 60 * 10 ^ 9
  deriving DecidableEq, Repr

def PersistenceConfig.new (queueCapacity : Nat) : PersistenceConfig :=
  { queueCapacity := max queueCapacity 1 }

def retryDelay (config : PersistenceConfig) (attempt : UInt32) : Duration :=
  let multiplier := 2 ^ min attempt.toNat 6
  min (min (config.retryInitialDelay * multiplier) durationMax) config.retryMaxDelay

-----------------------------------------------------------------------------------------
-- The queue
-----------------------------------------------------------------------------------------

structure PersistenceStats where
  queueLen : Nat := 0
  queueCapacity : Nat := 0
  enqueuedTotal : UInt64 := 0
  evictedTotal : UInt64 := 0
  persistedTotal : UInt64 := 0
  failedTotal : UInt64 := 0
  deriving DecidableEq, Repr

structure EnqueueResult where
  accepted : Bool
  evictedOldestKey : Option Text
  queueLen : Nat
  deriving DecidableEq, Repr

/-- The deque behind the mutex, and the permits of the semaphore beside it. -/
structure SharedQueue (M : Type) where
  pending : List (PersistRequest M) := []
  closed : Bool := false
  stats : PersistenceStats := {}
  available : Nat := 0
  capacity : Nat
  deriving DecidableEq, Repr

namespace SharedQueue

variable {M : Type}

/-- What enqueueing takes off a full deque: its front. -/
def evicted (queue : SharedQueue M) : Option (PersistRequest M) :=
  if queue.pending.length = queue.capacity then queue.pending.head? else none

/-- `PersistenceProducer::enqueue`. The mutex is held for the whole call. The semaphore is
outside it, but a permit that the worker takes before the call returns is of no use to it
until then: popping waits for the mutex.
-/
def enqueue (queue : SharedQueue M) (request : PersistRequest M)
    : SharedQueue M × EnqueueResult :=
  if queue.closed then
    (queue, ⟨false, none, queue.pending.length⟩)
  else
    let (evictedOldestKey, queue) :=
      if queue.pending.length = queue.capacity then
        (queue.evicted.map (·.requestKey),
          { queue with
            pending := queue.pending.tail
            stats.evictedTotal := saturatingAdd queue.stats.evictedTotal 1 })
      else
        (none,
          { queue with
            stats.enqueuedTotal := saturatingAdd queue.stats.enqueuedTotal 1
            available := queue.available + 1 })
    let queue := { queue with pending := queue.pending ++ [request] }
    let queue :=
      if evictedOldestKey.isSome then
        { queue with stats.enqueuedTotal := saturatingAdd queue.stats.enqueuedTotal 1 }
      else queue
    (queue, ⟨true, evictedOldestKey, queue.pending.length⟩)

def statsSnapshot (queue : SharedQueue M) : PersistenceStats :=
  { queue.stats with queueLen := queue.pending.length, queueCapacity := queue.capacity }

/-- `PersistenceProducer::close`, with the number of dropped requests. -/
def close (queue : SharedQueue M) : SharedQueue M × Nat :=
  if queue.closed then (queue, 0)
  else
    ({ queue with closed := true, pending := [], available := queue.available + 1 },
      queue.pending.length)

def popRequest (queue : SharedQueue M) : SharedQueue M × Option (PersistRequest M) :=
  ({ queue with pending := queue.pending.tail }, queue.pending.head?)

def isClosed (queue : SharedQueue M) : Bool := queue.closed && queue.pending.isEmpty

def shouldAbortRetry (queue : SharedQueue M) : Bool := queue.closed

/-- What the worker counts once a request is finished. -/
def count (queue : SharedQueue M) : PersistResult Unit → SharedQueue M
  | .ok () =>
      { queue with stats.persistedTotal := saturatingAdd queue.stats.persistedTotal 1 }
  | .error _ => { queue with stats.failedTotal := saturatingAdd queue.stats.failedTotal 1 }

end SharedQueue

-----------------------------------------------------------------------------------------
-- Persisting one request
-----------------------------------------------------------------------------------------

/-- Where `persist_request_with_retry` waits: for the writer, for the sink, or for the delay
before the next attempt with either of them.
-/
inductive Progress where
  | writing (attempt : UInt32) (stored : List StoredBlob) (entry : BlobEntry)
    (rest : List BlobEntry)
  | writeDelay (attempt : UInt32) (delay : Duration)
  | committing (attempt : UInt32) (stored : List StoredBlob)
  | commitDelay (attempt : UInt32) (delay : Duration) (stored : List StoredBlob)
  deriving DecidableEq, Repr

/-- An await point reached, or the result of the call. -/
inductive Turn where
  | awaits (progress : Progress)
  | returns (result : PersistResult Unit)
  deriving DecidableEq, Repr

/-- The loop of `write_blobs` from the next blob on; the metadata follows the last one. -/
def writeBlobs (attempt : UInt32) (stored : List StoredBlob) : List BlobEntry → Progress
  | [] => .committing 0 stored
  | entry :: rest => .writing attempt stored entry rest

def nextAttempt (attempt : UInt32) : UInt32 :=
  if attempt.toNat + 1 < UInt32.size then attempt + 1 else attempt

/-- The writer returns for the blob it was given. -/
def written (config : PersistenceConfig) (abort : Bool) (attempt : UInt32)
    (stored : List StoredBlob) (rest : List BlobEntry)
    : PersistResult StoredBlob → Turn
  | .ok blob => .awaits (writeBlobs attempt (stored ++ [blob]) rest)
  | .error err =>
      if err.isRetryable && !abort then .awaits (.writeDelay attempt (retryDelay config attempt))
      else .returns (.error err)

/-- The metadata sink returns. -/
def committed (config : PersistenceConfig) (abort : Bool) (attempt : UInt32)
    (stored : List StoredBlob)
    : PersistResult Unit → Turn
  | .ok () => .returns (.ok ())
  | .error err =>
      if err.isRetryable && !abort then
        .awaits (.commitDelay attempt (retryDelay config attempt) stored)
      else .returns (.error err)

-----------------------------------------------------------------------------------------
-- The worker and the runtime
-----------------------------------------------------------------------------------------

/-- Where `run_worker` is: before a permit, between permit and pop, between an empty pop and
the check for the end, inside a request, or ended with its final statistics.
-/
inductive Worker (M : Type) where
  | waiting
  | acquired
  | checking
  | persisting (request : PersistRequest M) (progress : Progress)
  | stopped (stats : PersistenceStats)
  deriving DecidableEq, Repr

structure PersistenceRuntime (M : Type) where
  config : PersistenceConfig
  queue : SharedQueue M
  worker : Worker M := .waiting
  deriving DecidableEq, Repr

/-- One call of a producer, closing the queue, or one step of the worker. -/
inductive RuntimeAction (M : Type) where
  | enqueue (request : PersistRequest M)
  | close
  | acquire
  | pop
  | check
  | written (result : PersistResult StoredBlob)
  | committed (result : PersistResult Unit)
  | delayOver
  deriving DecidableEq, Repr

namespace PersistenceRuntime

variable {M : Type}

def spawn (config : PersistenceConfig) : PersistenceRuntime M where
  config
  queue := { capacity := max config.queueCapacity 1 }

/-- The worker goes on inside a request, or counts its result and returns to the queue. -/
def turn (runtime : PersistenceRuntime M) (request : PersistRequest M)
    : Turn → PersistenceRuntime M
  | .awaits progress => { runtime with worker := .persisting request progress }
  | .returns result =>
      { runtime with queue := runtime.queue.count result, worker := .waiting }

/-- One step; no state where the worker is elsewhere. Only `close` of the whole semaphore
would make `acquire` fail, which the runtime never does.
-/
def step (runtime : PersistenceRuntime M)
    : RuntimeAction M → Option (PersistenceRuntime M)
  | .enqueue request => some { runtime with queue := (runtime.queue.enqueue request).1 }
  | .close => some { runtime with queue := runtime.queue.close.1 }
  | .acquire =>
      match runtime.worker with
      | .waiting =>
          if 0 < runtime.queue.available then
            some { runtime with
              queue.available := runtime.queue.available - 1, worker := .acquired }
          else none
      | _ => none
  | .pop =>
      match runtime.worker with
      | .acquired =>
          match runtime.queue.popRequest with
          | (queue, some request) =>
              some { runtime with
                queue, worker := .persisting request (writeBlobs 0 [] request.blobs) }
          | (queue, none) => some { runtime with queue, worker := .checking }
      | _ => none
  | .check =>
      match runtime.worker with
      | .checking =>
          if runtime.queue.isClosed then
            some { runtime with worker := .stopped runtime.queue.statsSnapshot }
          else some { runtime with worker := .waiting }
      | _ => none
  | .written result =>
      match runtime.worker with
      | .persisting request (.writing attempt stored _ rest) =>
          some (runtime.turn request
            (Db.written runtime.config runtime.queue.shouldAbortRetry attempt stored rest result))
      | _ => none
  | .committed result =>
      match runtime.worker with
      | .persisting request (.committing attempt stored) =>
          some (runtime.turn request
            (Db.committed runtime.config runtime.queue.shouldAbortRetry attempt stored result))
      | _ => none
  | .delayOver =>
      match runtime.worker with
      | .persisting request (.writeDelay attempt _) =>
          some { runtime with
            worker := .persisting request (writeBlobs (nextAttempt attempt) [] request.blobs) }
      | .persisting request (.commitDelay attempt _ stored) =>
          some { runtime with
            worker := .persisting request (.committing (nextAttempt attempt) stored) }
      | _ => none

end PersistenceRuntime

/-- The runtime as a machine, started with any configuration. -/
def runtimeMachine (M : Type) : Machine (PersistenceRuntime M) (RuntimeAction M) where
  Start runtime := ∃ config, runtime = .spawn config
  step := PersistenceRuntime.step

end Emwin.Db
