import Emwin.Db.QueueSafety

/-! Blobs before metadata: what the calls made for one request look like, however the writer
and the sink behave and whenever the queue is closed.
-/

namespace Emwin.Db
open Library

namespace Call

variable {M : Type}

def isWrite : Call M → Bool
  | .write _ _ _ => true
  | .commit _ _ _ => false

/-- A blob written successfully, with its reference. -/
def stored? : Call M → Option (BlobEntry × StoredBlob)
  | .write entry (.ok stored) _ => some (entry, stored)
  | _ => none

/-- A successful call of the sink. -/
def succeeded : Call M → Bool
  | .commit _ (.ok ()) _ => true
  | _ => false

/-- A call that failed for good: the error is not retryable, or the queue is closed. -/
def failedForGood : Call M → Bool
  | .write _ (.error err) closed | .commit _ (.error err) closed =>
      !err.isRetryable || closed
  | _ => false

/-- A call of the sink for this request. -/
def commits (persisted : PersistedRequest M) : Call M → Prop
  | .write _ _ _ => False
  | .commit given _ _ => given = persisted

end Call

section
variable {M : Type} {request : PersistRequest M} {calls : List (Call M)}

/-- The calls end with one pass over the blobs, all of them written, with these references. -/
def PassEnds (blobs : List BlobEntry) (stored : List StoredBlob) (calls : List (Call M)) : Prop :=
  ∃ earlier pass,
    calls = earlier ++ pass
    ∧ pass.map Call.stored? = (blobs.zip stored).map some
    ∧ blobs.length = stored.length

/-- The order of the calls made for a request. -/
structure BlobsFirst (request : PersistRequest M) (calls : List (Call M)) : Prop where
  /-- A call of the sink follows a complete pass, with other calls of the sink at most in
  between, and is given the references of that pass.
  -/
  commitsPass
    : ∀ before persisted result closed after,
        calls = before ++ .commit persisted result closed :: after
        → ∃ writes commits,
            before = writes ++ commits
            ∧ PassEnds request.blobs persisted.blobs writes
            ∧ (∀ call ∈ commits, call.isWrite = false)
            ∧ persisted.requestKey = request.requestKey
            ∧ persisted.metadata = request.metadata
  /-- No blob is written after a call of the sink. -/
  noLaterWrite
    : ∀ before call after,
        calls = before ++ call :: after
        → call.isWrite = false
        → ∀ later ∈ after, later.isWrite = false
  /-- Nothing follows a successful call of the sink. -/
  successLast
    : ∀ before call after,
        calls = before ++ call :: after → call.succeeded = true → after = []
  /-- Nothing follows a call that failed for good. -/
  failureLast
    : ∀ before call after,
        calls = before ++ call :: after → call.failedForGood = true → after = []

/-- The metadata was committed. -/
def Committed (calls : List (Call M)) : Prop := ∃ call ∈ calls, call.succeeded = true

-----------------------------------------------------------------------------------------
-- The shape of the calls at every await point
-----------------------------------------------------------------------------------------

/-- After this call the worker may make another one. -/
def Call.goesOn (call : Call M) : Bool := !call.succeeded && !call.failedForGood

/-- The calls are writes first, then calls of the sink after a complete pass. -/
structure WritesThenCommits (request : PersistRequest M) (stored : List StoredBlob)
    (calls : List (Call M))
    : Prop where
  split
    : ∃ writes commits,
        calls = writes ++ commits
        ∧ (∀ call ∈ writes, call.isWrite = true)
        ∧ PassEnds request.blobs stored writes
        ∧ ∀ call ∈ commits,
            call.commits ⟨request.requestKey, request.metadata, stored⟩

/-- The calls so far, by where the worker waits. -/
def Underway (request : PersistRequest M) (calls : List (Call M)) : Progress → Prop
  | .writing _ stored entry rest =>
      (∀ call ∈ calls, call.isWrite = true)
      ∧ ∃ blobs, request.blobs = blobs ++ entry :: rest ∧ PassEnds blobs stored calls
  | .writeDelay _ _ => ∀ call ∈ calls, call.isWrite = true
  | .committing _ stored | .commitDelay _ _ stored => WritesThenCommits request stored calls

/-- A pass starts with no blob written. -/
theorem PassEnds.none (calls : List (Call M)) : PassEnds [] [] calls :=
  ⟨calls, [], by simp⟩

/-- One more blob of the pass is written. -/
theorem PassEnds.snoc {blobs : List BlobEntry} {stored : List StoredBlob}
    (pass : PassEnds blobs stored calls) (entry : BlobEntry) (blob : StoredBlob) (closed : Bool)
    : PassEnds (blobs ++ [entry]) (stored ++ [blob])
        (calls ++ [.write entry (.ok blob) closed]) := by
  obtain ⟨earlier, writes, rfl, written, sizes⟩ := pass
  refine ⟨earlier, writes ++ [.write entry (.ok blob) closed], by simp, ?_, by simp [sizes]⟩
  simp [written, List.zip_append sizes, Call.stored?]

/-- Going on with the blobs that are left, or with the metadata after the last one. -/
theorem underway_writeBlobs {stored : List StoredBlob} {blobs rest : List BlobEntry}
    (attempt : UInt32) (writes : ∀ call ∈ calls, call.isWrite = true)
    (split : request.blobs = blobs ++ rest) (pass : PassEnds blobs stored calls)
    : Underway request calls (writeBlobs attempt stored rest) := by
  cases rest with
  | nil =>
      refine ⟨calls, [], by simp, writes, ?_, by simp⟩
      rw [split, List.append_nil]
      exact pass
  | cons entry rest => exact ⟨writes, blobs, split, pass⟩

theorem mem_concat_of {P : Call M → Prop} {call : Call M} (all : ∀ each ∈ calls, P each)
    (last : P call)
    : ∀ each ∈ calls ++ [call], P each := by
  simpa [or_imp, forall_and] using ⟨all, last⟩

/-- One more call of the sink. -/
theorem WritesThenCommits.snoc {stored : List StoredBlob}
    (shape : WritesThenCommits request stored calls) {call : Call M}
    (again : call.commits ⟨request.requestKey, request.metadata, stored⟩)
    : WritesThenCommits request stored (calls ++ [call]) := by
  obtain ⟨writes, commits, rfl, allWrites, pass, allCommits⟩ := shape.split
  exact ⟨writes, commits ++ [call], by simp, allWrites, pass, mem_concat_of allCommits again⟩

variable {config : PersistenceConfig} {closed : Bool} {progress : Progress} {call : Call M}

/-- A call whose result leads to another await point keeps the shape, by cases on the call
and its result.
-/
theorem Underway.awaits {later : Progress} (shape : Underway request calls progress)
    (answers : Answers config closed request progress call (.awaits later))
    : Underway request (calls ++ [call]) later ∧ call.goesOn = true := by
  generalize turned : Turn.awaits later = turn at answers
  cases answers with
  | @write attempt stored entry rest result =>
      obtain ⟨writes, blobs, split, pass⟩ := shape
      have allWrites : ∀ each ∈ calls ++ [.write entry result closed], each.isWrite = true :=
        mem_concat_of writes rfl
      cases result with
      | ok blob =>
          obtain rfl := Turn.awaits.inj turned
          exact ⟨underway_writeBlobs attempt allWrites (by simpa using split)
            (pass.snoc entry blob closed), rfl⟩
      | error err =>
          rw [written] at turned
          split_ifs at turned with retries
          obtain rfl := Turn.awaits.inj turned
          refine ⟨allWrites, ?_⟩
          simpa [Call.goesOn, Call.succeeded, Call.failedForGood] using retries
  | @commit attempt stored result =>
      cases result with
      | ok value => exact absurd turned (by simp [committed])
      | error err =>
          rw [committed] at turned
          split_ifs at turned with retries
          obtain rfl := Turn.awaits.inj turned
          refine ⟨WritesThenCommits.snoc shape rfl, ?_⟩
          simpa [Call.goesOn, Call.succeeded, Call.failedForGood] using retries

/-- The delay before the next attempt adds no call. -/
theorem Underway.retries {later : Progress} (shape : Underway request calls progress)
    (retries : Retries request progress later)
    : Underway request calls later := by
  cases retries with
  | write => exact underway_writeBlobs _ shape (List.nil_append _).symm (.none calls)
  | commit => exact shape

/-- The calls are writes, or writes and then calls of the sink. -/
theorem Underway.shape (shape : Underway request calls progress)
    : (∀ call ∈ calls, call.isWrite = true)
      ∨ ∃ stored, WritesThenCommits request stored calls := by
  cases progress with
  | writing attempt stored entry rest => exact .inl shape.1
  | writeDelay attempt delay => exact .inl shape
  | committing attempt stored => exact .inr ⟨stored, shape⟩
  | commitDelay attempt delay stored => exact .inr ⟨stored, shape⟩

/-- The last call has the shape too. -/
theorem Underway.last {turn : Turn} (shape : Underway request calls progress)
    (answers : Answers config closed request progress call turn)
    : (∀ each ∈ calls ++ [call], each.isWrite = true)
      ∨ ∃ stored, WritesThenCommits request stored (calls ++ [call]) := by
  cases answers with
  | write result => exact .inl (mem_concat_of shape.1 rfl)
  | commit result => exact .inr ⟨_, WritesThenCommits.snoc shape rfl⟩

/-- A call whose result ends the request succeeded exactly if the request is persisted. -/
theorem Answers.returns {result : PersistResult Unit}
    (answers : Answers config closed request progress call (.returns result))
    : result.isOk = call.succeeded := by
  generalize turned : Turn.returns result = turn at answers
  cases answers with
  | write written =>
      cases written with
      | ok blob => exact absurd turned (by simp [Db.written])
      | error err =>
          rw [Db.written] at turned
          split_ifs at turned with retries
          rw [Turn.returns.inj turned]
          rfl
  | commit committed =>
      cases committed with
      | ok value =>
          rw [Turn.returns.inj turned]
          rfl
      | error err =>
          rw [Db.committed] at turned
          split_ifs at turned with retries
          rw [Turn.returns.inj turned]
          rfl

-----------------------------------------------------------------------------------------
-- From the shape of the calls to their order
-----------------------------------------------------------------------------------------

/-- A call that is no write lies behind the writes, by the two ways to split an append. -/
theorem split_behind_writes {writes commits before after : List (Call M)}
    (allWrites : ∀ each ∈ writes, each.isWrite = true)
    (split : writes ++ commits = before ++ call :: after) (commit : call.isWrite = false)
    : ∃ between, before = writes ++ between ∧ commits = between ++ call :: after := by
  rcases List.append_eq_append_iff.mp split with ⟨between, front, back⟩ | ⟨between, front, back⟩
  · exact ⟨between, front, back⟩
  · cases between with
    | nil => exact ⟨[], by simpa using front.symm, by simpa using back.symm⟩
    | cons first rest =>
        obtain ⟨rfl, -⟩ := List.cons.inj back
        have write := allWrites call (by simp [front])
        exact absurd (write.symm.trans commit) (by simp)

theorem isWrite_of_commits {persisted : PersistedRequest M} (commits : call.commits persisted)
    : call.isWrite = false := by
  cases call with
  | write entry result closed => exact commits.elim
  | commit given result closed => rfl

/-- The order of the calls, from their shape and from what the worker does after a call. -/
theorem blobsFirst_of_shape
    (shape
      : (∀ call ∈ calls, call.isWrite = true)
        ∨ ∃ stored, WritesThenCommits request stored calls)
    (goesOn
      : ∀ before call after, calls = before ++ call :: after → call.goesOn = false → after = [])
    : BlobsFirst request calls := by
  have behind {before after : List (Call M)} {call : Call M}
      (split : calls = before ++ call :: after) (commit : call.isWrite = false)
      : ∃ stored writes between,
          before = writes ++ between
          ∧ PassEnds request.blobs stored writes
          ∧ ∀ each ∈ between ++ call :: after,
              each.commits ⟨request.requestKey, request.metadata, stored⟩ := by
    rcases shape with writes | ⟨stored, shape⟩
    · have write := writes call (by simp [split])
      exact absurd (write.symm.trans commit) (by simp)
    · obtain ⟨writes, commits, whole, allWrites, pass, allCommits⟩ := shape.split
      obtain ⟨between, front, back⟩ :=
        split_behind_writes allWrites (whole.symm.trans split) commit
      exact ⟨stored, writes, between, front, pass, back ▸ allCommits⟩
  constructor
  · intro before persisted result closed after split
    obtain ⟨stored, writes, between, front, pass, allCommits⟩ := behind split rfl
    have same : persisted = ⟨request.requestKey, request.metadata, stored⟩ :=
      allCommits (.commit persisted result closed) (by simp)
    subst same
    refine ⟨writes, between, front, pass, ?_, rfl, rfl⟩
    intro each member
    exact isWrite_of_commits (allCommits each (by simp [member]))
  · intro before call after split commit later member
    obtain ⟨stored, writes, between, -, -, allCommits⟩ := behind split commit
    exact isWrite_of_commits (allCommits later (by simp [member]))
  · intro before call after split succeeded
    exact goesOn before call after split (by simp [Call.goesOn, succeeded])
  · intro before call after split failed
    exact goesOn before call after split (by simp [Call.goesOn, failed])

/-- The calls at an await point are in order, and the metadata is not committed yet. -/
theorem Underway.ordered (shape : Underway request calls progress)
    (goesOn : ∀ call ∈ calls, call.goesOn = true)
    : BlobsFirst request calls ∧ ¬ Committed calls := by
  constructor
  · refine blobsFirst_of_shape shape.shape ?_
    intro before call after split stops
    exact absurd (stops.symm.trans (goesOn call (by simp [split]))) (by simp)
  · rintro ⟨call, member, succeeded⟩
    exact absurd (goesOn call member) (by simp [Call.goesOn, succeeded])

/-- The calls of a finished request are in order, and its result tells whether the metadata
was committed.
-/
theorem Underway.finished {result : PersistResult Unit} (shape : Underway request calls progress)
    (goesOn : ∀ call ∈ calls, call.goesOn = true)
    (answers : Answers config closed request progress call (.returns result))
    : BlobsFirst request (calls ++ [call])
      ∧ (result.isOk = true ↔ Committed (calls ++ [call])) := by
  constructor
  · refine blobsFirst_of_shape (shape.last answers) ?_
    intro before each after split stops
    rcases List.eq_nil_or_concat after with none | ⟨front, last, rfl⟩
    · exact none
    · have inside : calls = before ++ each :: front := by
        have regrouped : calls ++ [call] = (before ++ each :: front) ++ [last] := by
          simpa using split
        exact (List.append_inj' regrouped rfl).1
      exact absurd (stops.symm.trans (goesOn each (by simp [inside]))) (by simp)
  · rw [answers.returns]
    constructor
    · intro succeeded
      exact ⟨call, by simp, succeeded⟩
    · rintro ⟨each, member, succeeded⟩
      rcases List.mem_append.mp member with earlier | last
      · exact absurd (goesOn each earlier) (by simp [Call.goesOn, succeeded])
      · rwa [List.mem_singleton.mp last] at succeeded

end

-----------------------------------------------------------------------------------------
-- Runs
-----------------------------------------------------------------------------------------

variable {M : Type} {runtime next : PersistenceRuntime M} {history noted : RuntimeHistory M}

/-- The calls for the request in hand have their shape, there are none without a request, and
the calls of every finished request were in order.
-/
structure CallsInOrder (runtime : PersistenceRuntime M) (history : RuntimeHistory M) : Prop where
  current
    : ∀ request progress,
        runtime.worker = .persisting request progress
        → Underway request history.calls progress ∧ ∀ call ∈ history.calls, call.goesOn = true
  between : runtime.worker.inHand = [] → history.calls = []
  finished
    : ∀ finished ∈ history.finished,
        BlobsFirst finished.request finished.calls
        ∧ (finished.persisted = true ↔ Committed finished.calls)

/-- A worker without a request stays without calls. -/
theorem CallsInOrder.without (before : CallsInOrder runtime history)
    (idle : runtime.worker.inHand = []) (still : next.worker.inHand = [])
    : CallsInOrder next history := by
  refine ⟨?_, fun _ => before.between idle, before.finished⟩
  intro request progress busy
  exact absurd still (by simp [busy, Worker.inHand])

/-- A step beside the worker. -/
theorem CallsInOrder.beside (before : CallsInOrder runtime history)
    (worker : next.worker = runtime.worker) (calls : noted.calls = history.calls)
    (finished : noted.finished = history.finished)
    : CallsInOrder next noted := by
  refine ⟨?_, ?_, finished ▸ before.finished⟩
  · rw [worker, calls]
    exact before.current
  · rw [worker, calls]
    exact before.between

/-- A call of the writer or of the sink, by cases on where its result leads. -/
theorem CallsInOrder.called (before : CallsInOrder runtime history)
    {request : PersistRequest M} {progress : Progress} {call : Call M} {turn : Turn}
    (busy : runtime.worker = .persisting request progress)
    (answers : Answers runtime.config runtime.queue.closed request progress call turn)
    : CallsInOrder (runtime.turn request turn) (history.called request call turn) := by
  obtain ⟨shape, goesOn⟩ := before.current request progress busy
  cases turn with
  | awaits later =>
      obtain ⟨underway, goes⟩ := shape.awaits answers
      refine ⟨?_, fun idle => absurd idle (by simp [PersistenceRuntime.turn, Worker.inHand]),
        before.finished⟩
      intro other waits held
      obtain ⟨rfl, rfl⟩ := Worker.persisting.inj held
      exact ⟨underway, mem_concat_of goesOn goes⟩
  | returns result =>
      refine ⟨fun _ _ held => absurd held (by simp [PersistenceRuntime.turn]), fun _ => rfl, ?_⟩
      intro finished member
      rcases List.mem_append.mp member with earlier | last
      · exact before.finished finished earlier
      · rw [List.mem_singleton.mp last]
        exact shape.finished goesOn answers

/-- Every move keeps the calls in order, by cases on the move. -/
theorem CallsInOrder.move (before : CallsInOrder runtime history)
    (move : Moves runtime history next noted)
    : CallsInOrder next noted := by
  cases move with
  | idle => exact before
  | evicted request isOpen full front => exact before.beside rfl rfl rfl
  | queued request isOpen room => exact before.beside rfl rfl rfl
  | closed isOpen => exact before.beside rfl rfl rfl
  | acquired waits permit => exact before.without (by rw [waits]; rfl) rfl
  | @popped request rest holds front =>
      have none : history.calls = [] := before.between (by rw [holds]; rfl)
      refine ⟨?_, fun idle => absurd idle (by simp [Worker.inHand]), before.finished⟩
      intro other waits held
      obtain ⟨rfl, rfl⟩ := Worker.persisting.inj held
      simp only [none]
      exact ⟨underway_writeBlobs 0 (by simp) (List.nil_append _).symm (.none []), by simp⟩
  | foundNothing holds empty => exact before.without (by rw [holds]; rfl) rfl
  | stopped checks closed => exact before.without (by rw [checks]; rfl) rfl
  | resumed checks isOpen => exact before.without (by rw [checks]; rfl) rfl
  | called busy answers => exact before.called busy answers
  | retries busy later =>
      obtain ⟨shape, goesOn⟩ := before.current _ _ busy
      refine ⟨?_, fun idle => absurd idle (by simp [Worker.inHand]), before.finished⟩
      intro other waits held
      obtain ⟨rfl, rfl⟩ := Worker.persisting.inj held
      exact ⟨shape.retries later, goesOn⟩

theorem calls_in_order (run : (runtimeRuns M).Reachable (runtime, history))
    : CallsInOrder runtime history := by
  refine runtimeRuns_invariant (motive := CallsInOrder) ?_ ?_ run
  · intro config
    exact ⟨fun _ _ busy => absurd busy (by simp [PersistenceRuntime.spawn]), fun _ => rfl,
      by simp⟩
  · intro runtime history next noted before move
    exact before.move move

/-- What holds of the calls made for requests, in every state of every run. -/
structure ProtocolKept (runtime : PersistenceRuntime M) (history : RuntimeHistory M) : Prop where
  /-- The calls for the request in hand are in order; its metadata is not committed yet. -/
  underway
    : ∀ request progress,
        runtime.worker = .persisting request progress
        → BlobsFirst request history.calls ∧ ¬ Committed history.calls
  /-- The calls for a finished request are in order; it counts as persisted exactly if its
  metadata was committed.
  -/
  finished
    : ∀ finished ∈ history.finished,
        BlobsFirst finished.request finished.calls
        ∧ (finished.persisted = true ↔ Committed finished.calls)
  /-- Every popped request is finished once or in hand. -/
  once
    : history.departed.filterMap Departure.popped?
      = history.finished.map FinishedRequest.request ++ runtime.worker.inHand
  /-- The finished requests are what the two counters count. -/
  persisted
    : runtime.queue.stats.persistedTotal
      = saturated (history.finished.countP FinishedRequest.persisted)
  failed
    : runtime.queue.stats.failedTotal
      = saturated (history.finished.countP fun finished => !finished.persisted)

/-- Blobs come before metadata in every run, whatever the writer and the sink return and
whenever the queue is closed.
-/
theorem protocol_kept (run : (runtimeRuns M).Reachable (runtime, history))
    : ProtocolKept runtime history := by
  obtain ⟨-, ordered, counted⟩ := queue_invariants run
  have calls := calls_in_order run
  refine ⟨?_, calls.finished, ordered.pops, counted.persisted, counted.failed⟩
  intro request progress busy
  obtain ⟨shape, goesOn⟩ := calls.current request progress busy
  exact shape.ordered goesOn

def sampleBlob : BlobEntry := ⟨.payload, ['p'], [1], none⟩

def sampleStored : StoredBlob := ⟨.filesystem, .payload, ['p'], 1, none⟩

def sampleRequest : PersistRequest Unit := ⟨['k'], (), [sampleBlob]⟩

/-- The writer fails once and then the sink fails twice, the second time with the queue
closed.
-/
def sinkFailsWhenClosed : List (RuntimeAction Unit) :=
  [.enqueue sampleRequest, .acquire, .pop, .written (.error (.io .timedOut)), .delayOver,
    .written (.ok sampleStored), .committed (.error (.sqlx .poolTimedOut)), .delayOver, .close,
    .committed (.error (.sqlx .poolTimedOut))]

theorem protocol_kept_when_closed
    : ∃ runtime history,
        (runtimeRuns Unit).Reachable (runtime, history)
        ∧ history.finished.map FinishedRequest.calls
          = [[.write sampleBlob (.error (.io .timedOut)) false,
              .write sampleBlob (.ok sampleStored) false,
              .commit ⟨['k'], (), [sampleStored]⟩ (.error (.sqlx .poolTimedOut)) false,
              .commit ⟨['k'], (), [sampleStored]⟩ (.error (.sqlx .poolTimedOut)) true]]
        ∧ runtime.queue.stats.failedTotal = 1
        ∧ ProtocolKept runtime history := by
  have computed : ((runtimeRuns Unit).takes (.spawn narrowConfig, {}) sinkFailsWhenClosed).map
        (fun reached =>
          (reached.2.finished.map FinishedRequest.calls, reached.1.queue.stats.failedTotal))
      = some
          ([[.write sampleBlob (.error (.io .timedOut)) false,
              .write sampleBlob (.ok sampleStored) false,
              .commit ⟨['k'], (), [sampleStored]⟩ (.error (.sqlx .poolTimedOut)) false,
              .commit ⟨['k'], (), [sampleStored]⟩ (.error (.sqlx .poolTimedOut)) true]], 1) := by
    decide +kernel
  obtain ⟨⟨runtime, history⟩, taken, facts⟩ := Option.map_eq_some_iff.mp computed
  obtain ⟨calls, failed⟩ := Prod.mk.inj facts
  have run : (runtimeRuns Unit).Reachable (runtime, history) :=
    .takes (.start ⟨⟨narrowConfig, rfl⟩, rfl⟩) (by simp) taken
  exact ⟨runtime, history, run, calls, failed, protocol_kept run⟩

end Emwin.Db
