import Emwin.Db.Runtime
import Emwin.Ingest.QbtAdapter
import Emwin.Live.FilePipeline
import Emwin.Live.RetainedFiles
import Emwin.Live.Server

/-! The ingest task of the live server beside everything that goes on at the same time: SSE
clients, reads of retained files, and the persistence worker.
-/

namespace Emwin.Live
open Library Db Ingest
open Qbt (QbtFrameEvent QbtReceiverError QbtReceiverConfigError QbtReceiverTelemetrySnapshot
  SessionCounters QbtCompletedFile Receiver received pushAll dataBlocks)
open WxWire (WxWireReceiverTelemetrySnapshot WxWireReceiverFrameEvent WxWireReceiverError)

inductive TelemetryPayload where
  | unavailable
  | qbt (snapshot : QbtReceiverTelemetrySnapshot) (counters : SessionCounters)
  | wxWire (snapshot : WxWireReceiverTelemetrySnapshot)
  deriving DecidableEq, Repr

/-- What the ingest task publishes; a completed file is told by its metadata. -/
inductive EventKind (M : Type) where
  | connected (endpoint : Text)
  | disconnected
  | qbtFrame (event : QbtFrameEvent)
  | wxWireFrame (event : WxWireReceiverFrameEvent)
  | fileComplete (metadata : M)
  | telemetry (payload : TelemetryPayload)
  | error (message : Text)
  deriving DecidableEq, Repr

def receiverConfigErrorText : QbtReceiverConfigError → Text
  | .emptyEmail => "email must not be empty".toList
  | .noServers => "at least one server is required".toList

def receiverErrorText : QbtReceiverError → Text
  | .config error => "invalid config: ".toList ++ receiverConfigErrorText error
  | .protocol error => "protocol error: ".toList ++ error.toText
  | .io reason => "io error: ".toList ++ reason
  | .lifecycle reason => "client lifecycle error: ".toList ++ reason

def wxWireErrorText : WxWireReceiverError → Text
  | .config message | .decode message | .lifecycle message | .transport message => message

def ingestErrorText : IngestError → Text
  | .qbt error => "QBT receiver error: ".toList ++ receiverErrorText error
  | .wxWire error => "Weather Wire receiver error: ".toList ++ wxWireErrorText error

def telemetryPayload : IngestTelemetry → TelemetryPayload
  | .qbt snapshot counters => .qbt snapshot counters
  | .wxWire snapshot => .wxWire snapshot

def warningEvent {M : Type} : IngestWarning → EventKind M
  | .qbt warning => .qbtFrame (.warning warning)
  | .wxWire warning => .wxWireFrame (.warning warning)

inductive ArchivePostProcessError where
  | invalidArchive
  | emptyArchive
  | invalidEntry
  | directoryEntry
  | emptyEntryPath
  | unsafeEntryPath
  | readEntry
  deriving DecidableEq, Repr

/-- An entry of an archive: its path, unless that leads outside, and its contents, unless they
cannot be read.
-/
structure ArchiveEntry where
  isDir : Bool
  enclosedName : Option Text
  contents : Option Bytes
  deriving DecidableEq, Repr

def isArchiveFilename (filename : Text) : Bool :=
  match rsplitOnce '.' filename with
  | some (_, ext) => eqIgnoreAsciiCase ext "zip".toList || eqIgnoreAsciiCase ext "zis".toList
  | none => false

def normalizeEntryPath (path : Text) : Except ArchivePostProcessError Text :=
  if path = [] then .error .emptyEntryPath
  else
    let filename := path.map fun c => if c = '\\' then '/' else c
    if filename = [] ∨ filename.head? = some '/' then .error .unsafeEntryPath
    else .ok filename

/-- `openArchive` is the reader of archives; it may find an entry broken. -/
def postProcessArchive (openArchive : Bytes → Option (List (Option ArchiveEntry)))
    (enabled : Bool) (filename : Text) (data : Bytes)
    : Except ArchivePostProcessError (Text × Bytes) :=
  if !enabled || !isArchiveFilename filename then .ok (filename, data)
  else
    match openArchive data with
    | none => .error .invalidArchive
    | some [] => .error .emptyArchive
    | some (none :: _) => .error .invalidEntry
    | some (some entry :: _) =>
        if entry.isDir then .error .directoryEntry
        else do
          let path ← okOr .unsafeEntryPath entry.enclosedName
          let deliveredFilename ← normalizeEntryPath path
          let extracted ← okOr .readEntry entry.contents
          return (deliveredFilename, extracted)

/-- What the handler calls: the reader of archives, the metadata of a file, and its JSON text.
Building the metadata enriches the product, which stops with a panic on some texts.
-/
structure Handlers (M E : Type) where
  postProcessArchives : Bool
  openArchive : Bytes → Option (List (Option ArchiveEntry))
  buildMetadata : Text → UInt64 → ProductOrigin → Bytes → Option M
  metadataJsonBytes : M → Except E Bytes

/-- What ends the ingest task while it handles an item. -/
inductive IngestStop (E : Type) where
  | failed (err : E)
  | panicked
  deriving DecidableEq, Repr

/-- The builder of a store that is called after the metadata was built. -/
def given {M : Type} (_ : Text) (_ : UInt64) (metadata : M) (_ : Bytes) : M := metadata

/-- The product that is delivered for a product. -/
def Handlers.delivered {M E : Type} (handlers : Handlers M E) (product : ReceivedProduct)
    : Except ArchivePostProcessError (Text × Bytes) :=
  postProcessArchive handlers.openArchive handlers.postProcessArchives product.filename
    product.data

/-- The shared state of the server and its tasks. The ingest task runs until it stops or
fails.
-/
structure LiveServer (T M : Type) where
  upstreamEndpoint : Option Text := none
  telemetry : TelemetryPayload := .unavailable
  dataBlocksTotal : UInt64 := 0
  retainedFiles : RetainedFiles M
  events : AppState T (EventKind M)
  persistence : Option (PersistenceRuntime M)
  ingesting : Bool := true

/-- Seconds since the epoch, zero for a time before it. -/
def timestampSeconds (time : Qbt.SystemTime) : UInt64 :=
  if 0 ≤ time then UInt64.ofNat (time.toNat / 1000000000) else 0

variable {T M E : Type}

namespace LiveServer

def publish (server : LiveServer T M) (kind : EventKind M) : LiveServer T M :=
  { server with events := server.events.publish kind }

/-- `enqueue_completed_product`; without a queue there is nothing to do. -/
def enqueueCompletedProduct (handlers : Handlers M E) (filename : Text) (data : Bytes)
    (metadata : M) (server : LiveServer T M)
    : Except E (LiveServer T M) :=
  match server.persistence with
  | none => .ok server
  | some runtime =>
      (buildPersistRequest handlers.metadataJsonBytes filename data metadata).map
        fun request =>
          { server with
            persistence :=
              some { runtime with queue := (runtime.queue.enqueue request).1 } }

/-- A product: it is unpacked, retained, queued and published. The store evicts what is too old
before it builds the metadata, and is not touched any more if that panics.
-/
def handleProduct (handlers : Handlers M E) (now completedAt : Qbt.SystemTime)
    (product : ReceivedProduct) (server : LiveServer T M)
    : LiveServer T M × Except (IngestStop E) Unit :=
  let timestampUtc := timestampSeconds product.sourceTimestampUtc
  let server :=
    if product.origin = .qbt then
      { server with dataBlocksTotal := server.dataBlocksTotal + 1 }
    else server
  match handlers.delivered product with
  | .error _ => (server, .ok ())
  | .ok (filename, data) =>
      match handlers.buildMetadata filename timestampUtc product.origin data with
      | none =>
          ({ server with retainedFiles := server.retainedFiles.evictExpired now },
            .error .panicked)
      | some metadata =>
          let (metadata, retainedFiles) :=
            server.retainedFiles.insert given now filename data timestampUtc metadata completedAt
          let server := { server with retainedFiles }
          match server.enqueueCompletedProduct handlers filename data metadata with
          | .error err => (server, .error (.failed err))
          | .ok server => (server.publish (.fileComplete metadata), .ok ())

def handleIngestEvent (handlers : Handlers M E) (now completedAt : Qbt.SystemTime)
    (server : LiveServer T M)
    : IngestItem → LiveServer T M × Except (IngestStop E) Unit
  | .ok (.connected endpoint) =>
      ({ server with upstreamEndpoint := some endpoint }.publish (.connected endpoint), .ok ())
  | .ok .disconnected =>
      ({ server with upstreamEndpoint := none }.publish .disconnected, .ok ())
  | .ok (.telemetry telemetry) =>
      ({ server with telemetry := telemetryPayload telemetry }.publish
        (.telemetry (telemetryPayload telemetry)), .ok ())
  | .ok (.product product) => server.handleProduct handlers now completedAt product
  | .ok (.warning warning) => (server.publish (warningEvent warning), .ok ())
  | .error err => (server.publish (.error (ingestErrorText err)), .ok ())

def start (maxClients : UInt64) (maxRetainedFiles fileRetentionSecs : Nat)
    (persistence : Option PersistenceConfig)
    : LiveServer T M where
  retainedFiles := .new (max maxRetainedFiles 1) (max fileRetentionSecs 1 * 1000000000)
  events := .start maxClients
  persistence := persistence.map .spawn

end LiveServer

/-- One event for the ingest task, its end, or a step of another task. -/
inductive LiveAction (T M : Type) where
  | ingest (item : IngestItem) (now completedAt : Qbt.SystemTime)
  | stopIngest
  | serve (action : ServerAction T (EventKind M))
  | files (now : Qbt.SystemTime) (call : RetainedFiles.Call M)
  | persist (action : RuntimeAction M)

namespace LiveServer

/-- One step of one task. Only the ingest task publishes, inserts files and enqueues; an error
or a panic of the handler ends it.
-/
def step (handlers : Handlers M E) (matchesFilter : EventFilter T → EventKind M → Bool)
    (server : LiveServer T M)
    : LiveAction T M → Option (LiveServer T M)
  | .ingest item now completedAt =>
      if server.ingesting then
        match server.handleIngestEvent handlers now completedAt item with
        | (server, .ok ()) => some server
        | (server, .error _) => some { server with ingesting := false }
      else none
  | .stopIngest => some { server with ingesting := false }
  | .serve (.publish _) => none
  | .serve action =>
      (server.events.step matchesFilter action).map fun events => { server with events }
  | .files _ (.insert ..) => none
  | .files now call =>
      some { server with retainedFiles := server.retainedFiles.after given (now, call) }
  | .persist (.enqueue _) => none
  | .persist action =>
      server.persistence.bind fun runtime =>
        (runtime.step action).map fun runtime => { server with persistence := some runtime }

/-- The server for every limit, with or without persistence. -/
def machine (handlers : Handlers M E) (matchesFilter : EventFilter T → EventKind M → Bool)
    : Machine (LiveServer T M) (LiveAction T M) where
  Start server :=
    ∃ maxClients maxRetainedFiles fileRetentionSecs persistence,
      server = start maxClients maxRetainedFiles fileRetentionSecs persistence
  step := step handlers matchesFilter

/-- An item with the time at which its file was completed. -/
abbrev Handled := IngestItem × Qbt.SystemTime

/-- The items that the ingest task has taken. -/
def noteHandled (_ : LiveServer T M) (action : LiveAction T M) (handled : List Handled)
    : List Handled :=
  match action with
  | .ingest item _ completedAt => handled ++ [(item, completedAt)]
  | _ => handled

-----------------------------------------------------------------------------------------
-- What the items amount to
-----------------------------------------------------------------------------------------

/-- The file that a product is stored as, if its metadata can be built. -/
def insertion? (handlers : Handlers M E) (handled : Handled)
    : Option (Text × RetainedFile M) :=
  match handled with
  | (.ok (.product product), completedAt) =>
      match handlers.delivered product with
      | .error _ => none
      | .ok (filename, data) =>
          (handlers.buildMetadata filename (timestampSeconds product.sourceTimestampUtc)
            product.origin data).map fun metadata => (filename, { data, completedAt, metadata })
  | _ => none

/-- The item ends the ingest task: the metadata of its file cannot be built, or, with
persistence, has no text.
-/
def stops (handlers : Handlers M E) (persisting : Bool) : IngestItem → Bool
  | .ok (.product product) =>
      match handlers.delivered product with
      | .error _ => false
      | .ok (filename, data) =>
          match handlers.buildMetadata filename (timestampSeconds product.sourceTimestampUtc)
            product.origin data with
          | none => true
          | some metadata => persisting && !(handlers.metadataJsonBytes metadata).isOk
  | _ => false

/-- What is published for an item. With persistence, the metadata of a file must have a text.
-/
def published? (handlers : Handlers M E) (persisting : Bool) (handled : Handled)
    : Option (EventKind M) :=
  match handled.1 with
  | .ok (.connected endpoint) => some (.connected endpoint)
  | .ok .disconnected => some .disconnected
  | .ok (.telemetry telemetry) => some (.telemetry (telemetryPayload telemetry))
  | .ok (.product _) =>
      (insertion? handlers handled).bind fun (_, file) =>
        if persisting && !(handlers.metadataJsonBytes file.metadata).isOk then none
        else some (.fileComplete file.metadata)
  | .ok (.warning warning) => some (warningEvent warning)
  | .error err => some (.error (ingestErrorText err))

/-- The endpoint after an item. -/
def endpointAfter (endpoint : Option Text) : IngestItem → Option Text
  | .ok (.connected endpoint) => some endpoint
  | .ok .disconnected => none
  | _ => endpoint

/-- The telemetry after an item. -/
def telemetryAfter (payload : TelemetryPayload) : IngestItem → TelemetryPayload
  | .ok (.telemetry telemetry) => telemetryPayload telemetry
  | _ => payload

def isQbtProduct : IngestItem → Bool
  | .ok (.product product) => product.origin = .qbt
  | _ => false

/-- The shared state tells what the items of the ingest task amount to, and nothing that the
other tasks do changes that. At most the last item that was taken ends the task.
-/
structure Ingested (handlers : Handlers M E) (server : LiveServer T M)
    (handled : List Handled)
    : Prop where
  published
    : server.events.sent.map BroadcastEvent.kind
      = handled.filterMap (published? handlers server.persistence.isSome)
  endpoint
    : server.upstreamEndpoint = (handled.map Prod.fst).foldl endpointAfter none
  telemetry
    : server.telemetry = (handled.map Prod.fst).foldl telemetryAfter .unavailable
  dataBlocks
    : server.dataBlocksTotal = UInt64.ofNat ((handled.map Prod.fst).countP isQbtProduct)
  retained
    : ∃ maxEntries ttl calls,
        server.retainedFiles = RetainedFiles.afterAll given (.new maxEntries ttl) calls
        ∧ RetainedFiles.insertions given calls = handled.filterMap (insertion? handlers)
  running
    : ∀ item ∈ if server.ingesting then handled else handled.dropLast,
        stops handlers server.persistence.isSome item.1 = false

variable {handlers : Handlers M E} {matchesFilter : EventFilter T → EventKind M → Bool}
  {server next : LiveServer T M} {handled : List Handled} {item : IngestItem}
  {now completedAt : Qbt.SystemTime}

/-- Everything that handling an item does. -/
structure Handles (handlers : Handlers M E) (server : LiveServer T M) (latest : Handled)
    (next : LiveServer T M)
    : Prop where
  persists : next.persistence.isSome = server.persistence.isSome
  published
    : next.events
      = (published? handlers server.persistence.isSome latest).toList.foldl AppState.publish
          server.events
  endpoint : next.upstreamEndpoint = endpointAfter server.upstreamEndpoint latest.1
  telemetry : next.telemetry = telemetryAfter server.telemetry latest.1
  dataBlocks
    : next.dataBlocksTotal = server.dataBlocksTotal + if isQbtProduct latest.1 then 1 else 0
  retained
    : ∃ calls,
        next.retainedFiles = RetainedFiles.afterAll given server.retainedFiles calls
        ∧ RetainedFiles.insertions given calls = (insertion? handlers latest).toList

/-- A request is queued if there is a queue, unless the metadata has no text. -/
theorem enqueueCompletedProduct_cases (handlers : Handlers M E) (filename : Text)
    (data : Bytes) (metadata : M) (server : LiveServer T M)
    : (∃ err,
        server.enqueueCompletedProduct handlers filename data metadata = .error err
        ∧ (server.persistence.isSome && !(handlers.metadataJsonBytes metadata).isOk) = true)
      ∨ ∃ persistence,
          server.enqueueCompletedProduct handlers filename data metadata
            = .ok { server with persistence }
          ∧ persistence.isSome = server.persistence.isSome
          ∧ (server.persistence.isSome && !(handlers.metadataJsonBytes metadata).isOk)
            = false := by
  unfold enqueueCompletedProduct buildPersistRequest
  cases runs : server.persistence with
  | none =>
      have same : { server with persistence := none } = server := by rw [← runs]
      exact .inr ⟨none, congrArg Except.ok same.symm, rfl, rfl⟩
  | some runtime =>
      cases serialized : handlers.metadataJsonBytes metadata with
      | error err => exact .inl ⟨err, rfl, rfl⟩
      | ok bytes => exact .inr ⟨_, rfl, rfl, rfl⟩

/-- A product is counted, and if it can be unpacked it is retained; it is published unless
its request cannot be built.
-/
theorem handleProduct_handles (product : ReceivedProduct)
    : Handles handlers server (.ok (.product product), completedAt)
        (server.handleProduct handlers now completedAt product).1 := by
  have counted
      : (if product.origin = .qbt then
          { server with dataBlocksTotal := server.dataBlocksTotal + 1 }
        else server)
        = { server with
            dataBlocksTotal :=
              server.dataBlocksTotal
              + if isQbtProduct (.ok (.product product)) then 1 else 0 } := by
    by_cases ours : product.origin = .qbt <;> simp [ours, isQbtProduct]
  unfold handleProduct
  rw [counted]
  cases unpacked : handlers.delivered product with
  | error reason =>
      have nothing : insertion? handlers (.ok (.product product), completedAt) = none := by
        simp [insertion?, unpacked]
      refine ⟨rfl, ?_, rfl, rfl, rfl, [], rfl, by rw [nothing]; rfl⟩
      simp [published?, nothing]
  | ok delivered =>
      obtain ⟨filename, data⟩ := delivered
      dsimp only
      cases built : handlers.buildMetadata filename
        (timestampSeconds product.sourceTimestampUtc) product.origin data with
      | none =>
          have nothing : insertion? handlers (.ok (.product product), completedAt) = none := by
            simp [insertion?, unpacked, built]
          refine ⟨rfl, ?_, rfl, rfl, rfl, [(now, .len)], rfl, by rw [nothing]; rfl⟩
          simp [published?, nothing]
      | some metadata =>
          have inserted
              : insertion? handlers (.ok (.product product), completedAt)
                = some (filename, { data, completedAt, metadata }) := by
            simp [insertion?, unpacked, built]
          have retained (files : RetainedFiles M)
              : ∃ calls,
                  (files.insert given now filename data
                      (timestampSeconds product.sourceTimestampUtc) metadata completedAt).2
                    = RetainedFiles.afterAll given files calls
                  ∧ RetainedFiles.insertions given calls
                    = (insertion? handlers (.ok (.product product), completedAt)).toList := by
            refine ⟨[(now, .insert filename data (timestampSeconds product.sourceTimestampUtc)
              metadata completedAt)], rfl, ?_⟩
            rw [inserted]
            rfl
          rcases enqueueCompletedProduct_cases handlers filename data metadata _ with
            ⟨err, failed, untold⟩ | ⟨persistence, queued, persists, told⟩
          · dsimp only [RetainedFiles.insert, given]
            rw [failed]
            refine ⟨rfl, ?_, rfl, rfl, rfl, retained _⟩
            have nothing : published? handlers server.persistence.isSome
                (.ok (.product product), completedAt) = none := by
              simp only [published?, inserted, Option.bind_some]
              exact if_pos untold
            rw [nothing]
            rfl
          · dsimp only [RetainedFiles.insert, given]
            rw [queued]
            refine ⟨persists, ?_, rfl, rfl, rfl, retained _⟩
            have told : published? handlers server.persistence.isSome
                (.ok (.product product), completedAt)
                = some (.fileComplete metadata) := by
              simp only [published?, inserted, Option.bind_some]
              exact if_neg (ne_true_of_eq_false told)
            rw [told]
            rfl

/-- Everything that handling any item does, by cases on the item. -/
theorem handleIngestEvent_handles (item : IngestItem)
    : Handles handlers server (item, completedAt)
        (server.handleIngestEvent handlers now completedAt item).1 := by
  rcases item with err | event
  · exact ⟨rfl, rfl, rfl, rfl, (UInt64.add_zero _).symm, [], rfl, rfl⟩
  · cases event with
    | product product => exact handleProduct_handles product
    | connected endpoint =>
        exact ⟨rfl, rfl, rfl, rfl, (UInt64.add_zero _).symm, [], rfl, rfl⟩
    | disconnected => exact ⟨rfl, rfl, rfl, rfl, (UInt64.add_zero _).symm, [], rfl, rfl⟩
    | telemetry snapshot => exact ⟨rfl, rfl, rfl, rfl, (UInt64.add_zero _).symm, [], rfl, rfl⟩
    | warning warning => exact ⟨rfl, rfl, rfl, rfl, (UInt64.add_zero _).symm, [], rfl, rfl⟩

/-- The handler goes on unless the item ends the task; what the task notes is not its own. -/
theorem handleIngestEvent_isOk (handlers : Handlers M E) (now completedAt : Qbt.SystemTime)
    (server : LiveServer T M) (item : IngestItem)
    : (server.handleIngestEvent handlers now completedAt item).2.isOk
        = !stops handlers server.persistence.isSome item
      ∧ (server.handleIngestEvent handlers now completedAt item).1.ingesting
        = server.ingesting := by
  rcases item with err | event
  · exact ⟨rfl, rfl⟩
  · cases event with
    | product product =>
        simp only [handleIngestEvent, handleProduct, stops]
        generalize counted : (if product.origin = .qbt then _ else server) = server'
        have kept : server'.persistence = server.persistence
            ∧ server'.ingesting = server.ingesting := by
          rw [← counted]
          split_ifs <;> exact ⟨rfl, rfl⟩
        cases handlers.delivered product with
        | error reason => exact ⟨rfl, kept.2⟩
        | ok delivered =>
            dsimp only
            cases handlers.buildMetadata delivered.1
              (timestampSeconds product.sourceTimestampUtc) product.origin delivered.2 with
            | none => exact ⟨rfl, kept.2⟩
            | some metadata =>
                dsimp only [RetainedFiles.insert, given]
                rcases enqueueCompletedProduct_cases handlers delivered.1 delivered.2 metadata _
                  with ⟨err, failed, untold⟩ | ⟨persistence, queued, -, told⟩
                · rw [failed]
                  dsimp only at untold
                  rw [kept.1] at untold
                  rw [untold]
                  exact ⟨rfl, kept.2⟩
                · rw [queued]
                  dsimp only at told
                  rw [kept.1] at told
                  rw [told]
                  exact ⟨rfl, kept.2⟩
    | connected endpoint => exact ⟨rfl, rfl⟩
    | disconnected => exact ⟨rfl, rfl⟩
    | telemetry telemetry => exact ⟨rfl, rfl⟩
    | warning warning => exact ⟨rfl, rfl⟩

/-- An item that was handled is accounted for. -/
theorem Ingested.handle {latest : Handled} (ingested : Ingested handlers server handled)
    (handles : Handles handlers server latest next) (before : server.ingesting = true)
    (goesOn
      : next.ingesting = true → stops handlers server.persistence.isSome latest.1 = false)
    : Ingested handlers next (handled ++ [latest]) where
  published := by
    rw [handles.published, handles.persists, List.filterMap_append, ← ingested.published]
    cases found : published? handlers server.persistence.isSome latest <;>
      simp [found, AppState.publish]
  endpoint := by
    rw [handles.endpoint, ingested.endpoint, List.map_append, List.foldl_append]
    rfl
  telemetry := by
    rw [handles.telemetry, ingested.telemetry, List.map_append, List.foldl_append]
    rfl
  dataBlocks := by
    rw [handles.dataBlocks, ingested.dataBlocks, List.map_append, List.countP_append,
      UInt64.ofNat_add]
    congr 1
    by_cases ours : isQbtProduct latest.1 <;> simp [ours]
  retained := by
    obtain ⟨maxEntries, ttl, calls, files, insertions⟩ := ingested.retained
    obtain ⟨more, after, added⟩ := handles.retained
    refine ⟨maxEntries, ttl, calls ++ more, ?_, ?_⟩
    · rw [after, files, RetainedFiles.afterAll, RetainedFiles.afterAll,
        RetainedFiles.afterAll, List.foldl_append]
    · rw [RetainedFiles.insertions, List.filterMap_append, List.filterMap_append]
      rw [RetainedFiles.insertions] at insertions added
      rw [insertions, added]
      cases found : insertion? handlers latest <;> simp [found]
  running := by
    have earlier := ingested.running
    rw [before, if_pos rfl] at earlier
    rw [handles.persists]
    split_ifs with still
    · rw [List.forall_mem_append]
      exact ⟨earlier, by simpa using goesOn still⟩
    · rw [List.dropLast_concat]
      exact earlier

/-- Requests and streams publish nothing, by cases on the action. -/
theorem step_sent {state after : AppState T (EventKind M)}
    {action : ServerAction T (EventKind M)} (quiet : ∀ kind, action ≠ .publish kind)
    (taken : state.step matchesFilter action = some after)
    : after.sent = state.sent := by
  cases action with
  | publish kind => exact absurd rfl (quiet kind)
  | shutdown => exact Option.some.inj taken ▸ rfl
  | request query lastEventId =>
      obtain rfl := Option.some.inj taken
      unfold AppState.request
      cases query with
      | error message => rfl
      | ok query =>
          dsimp only
          split <;> rfl
  | validate index =>
      simp only [AppState.step] at taken
      split at taken
      · split at taken
        · exact Option.some.inj taken ▸ rfl
        · cases taken
      · cases taken
  | receive index =>
      obtain ⟨client, stream, found, live, received⟩ := onStream_eq_some taken
      obtain ⟨⟨received, position⟩, gives, rfl⟩ := Option.map_eq_some_iff.mp received
      dsimp only
      split <;> rfl
  | shutdownSeen index =>
      obtain ⟨client, stream, found, live, taken⟩ := onStream_eq_some taken
      split_ifs at taken
      exact Option.some.inj taken ▸ rfl
  | dropped index =>
      obtain ⟨client, stream, found, live, taken⟩ := onStream_eq_some taken
      exact Option.some.inj taken ▸ rfl

/-- What the other tasks do leaves the account alone. -/
structure Unrelated (handlers : Handlers M E) (server next : LiveServer T M) : Prop where
  persists : next.persistence.isSome = server.persistence.isSome
  sent : next.events.sent = server.events.sent
  endpoint : next.upstreamEndpoint = server.upstreamEndpoint
  telemetry : next.telemetry = server.telemetry
  dataBlocks : next.dataBlocksTotal = server.dataBlocksTotal
  retained
    : ∃ calls,
        next.retainedFiles = RetainedFiles.afterAll given server.retainedFiles calls
        ∧ RetainedFiles.insertions given calls = []
  ingesting : next.ingesting = server.ingesting ∨ next.ingesting = false

theorem Ingested.keep (ingested : Ingested handlers server handled)
    (unrelated : Unrelated handlers server next)
    : Ingested handlers next handled where
  published := by rw [unrelated.sent, unrelated.persists, ingested.published]
  endpoint := by rw [unrelated.endpoint, ingested.endpoint]
  telemetry := by rw [unrelated.telemetry, ingested.telemetry]
  dataBlocks := by rw [unrelated.dataBlocks, ingested.dataBlocks]
  retained := by
    obtain ⟨maxEntries, ttl, calls, files, insertions⟩ := ingested.retained
    obtain ⟨more, after, nothing⟩ := unrelated.retained
    refine ⟨maxEntries, ttl, calls ++ more, ?_, ?_⟩
    · rw [after, files, RetainedFiles.afterAll, RetainedFiles.afterAll,
        RetainedFiles.afterAll, List.foldl_append]
    · rw [RetainedFiles.insertions] at insertions nothing ⊢
      rw [List.filterMap_append, insertions, nothing, List.append_nil]
  running := by
    have before := ingested.running
    rw [unrelated.persists]
    rcases unrelated.ingesting with same | stopped
    · rw [same]
      exact before
    · rw [stopped, if_neg Bool.false_ne_true]
      intro item member
      refine before item ?_
      split_ifs
      · exact List.mem_of_mem_dropLast member
      · exact member

/-- An item of the ingest task is handled, and the task goes on unless the item ends it. -/
theorem step_ingest
    (taken : server.step handlers matchesFilter (.ingest item now completedAt) = some next)
    : Handles handlers server (item, completedAt) next
      ∧ server.ingesting = true
      ∧ next.ingesting = !stops handlers server.persistence.isSome item := by
  obtain ⟨ok, same⟩ :=
    handleIngestEvent_isOk handlers now completedAt server item
  have handles : Handles handlers server (item, completedAt)
      (server.handleIngestEvent handlers now completedAt item).1 :=
    handleIngestEvent_handles item
  simp only [step] at taken
  split_ifs at taken with before
  split at taken
  · next after result =>
      rw [result] at handles ok same
      obtain rfl := Option.some.inj taken
      exact ⟨handles, before, by rw [← ok, same, before]; rfl⟩
  · next after err result =>
      rw [result] at handles ok
      obtain rfl := Option.some.inj taken
      exact ⟨⟨handles.persists, handles.published, handles.endpoint, handles.telemetry,
        handles.dataBlocks, handles.retained⟩, before, ok⟩

theorem step_serve {action : ServerAction T (EventKind M)}
    (quiet : ∀ kind, action ≠ .publish kind)
    : server.step handlers matchesFilter (.serve action)
      = (server.events.step matchesFilter action).map fun events => { server with events } := by
  cases action with
  | publish kind => exact absurd rfl (quiet kind)
  | _ => rfl

theorem step_persist {action : RuntimeAction M} (calm : ∀ request, action ≠ .enqueue request)
    : server.step handlers matchesFilter (.persist action)
      = server.persistence.bind fun runtime =>
          (runtime.step action).map fun runtime =>
            { server with persistence := some runtime } := by
  cases action with
  | enqueue request => exact absurd rfl (calm request)
  | _ => rfl

/-- A step of another task is unrelated, and at most one step of the SSE server; by cases on
the action.
-/
theorem step_other {action : LiveAction T M}
    (other : ∀ item now completedAt, action ≠ .ingest item now completedAt)
    (taken : server.step handlers matchesFilter action = some next)
    : Unrelated handlers server next
      ∧ ∃ labels,
          (serverMachine matchesFilter).takes server.events labels = some next.events := by
  cases action with
  | ingest item now completedAt => exact absurd rfl (other item now completedAt)
  | stopIngest =>
      obtain rfl := Option.some.inj taken
      exact ⟨⟨rfl, rfl, rfl, rfl, rfl, ⟨[], rfl, rfl⟩, .inr rfl⟩, [], rfl⟩
  | serve action =>
      have quiet (kind : EventKind M) : action ≠ .publish kind := by
        rintro rfl
        cases taken
      rw [step_serve quiet] at taken
      obtain ⟨events, stepped, rfl⟩ := Option.map_eq_some_iff.mp taken
      refine ⟨⟨rfl, step_sent quiet stepped, rfl, rfl, rfl, ⟨[], rfl, rfl⟩, .inl rfl⟩, [action], ?_⟩
      rw [Machine.takes]
      exact Option.bind_eq_some_iff.mpr ⟨events, stepped, rfl⟩
  | files now call =>
      cases call with
      | insert filename data timestampUtc origin completedAt => cases taken
      | list =>
          obtain rfl := Option.some.inj taken
          exact ⟨⟨rfl, rfl, rfl, rfl, rfl, ⟨[(now, .list)], rfl, rfl⟩, .inl rfl⟩, [], rfl⟩
      | get filename =>
          obtain rfl := Option.some.inj taken
          exact ⟨⟨rfl, rfl, rfl, rfl, rfl, ⟨[(now, .get filename)], rfl, rfl⟩, .inl rfl⟩, [], rfl⟩
      | len =>
          obtain rfl := Option.some.inj taken
          exact ⟨⟨rfl, rfl, rfl, rfl, rfl, ⟨[(now, .len)], rfl, rfl⟩, .inl rfl⟩, [], rfl⟩
  | persist action =>
      have calm (request : PersistRequest M) : action ≠ .enqueue request := by
        rintro rfl
        cases taken
      rw [step_persist calm] at taken
      obtain ⟨runtime, runs, stepped⟩ := Option.bind_eq_some_iff.mp taken
      obtain ⟨after, -, rfl⟩ := Option.map_eq_some_iff.mp stepped
      exact ⟨⟨by rw [runs]; rfl, rfl, rfl, rfl, rfl, ⟨[], rfl, rfl⟩, .inl rfl⟩, [], rfl⟩

-----------------------------------------------------------------------------------------
-- Runs
-----------------------------------------------------------------------------------------

/-- Publishing is a step of the SSE server, by induction on the events. -/
theorem takes_publish (kinds : List (EventKind M)) (events : AppState T (EventKind M))
    : (serverMachine matchesFilter).takes events (kinds.map .publish)
      = some (kinds.foldl AppState.publish events) := by
  induction kinds generalizing events with
  | nil => rfl
  | cons kind rest ih => exact ih (events.publish kind)

/-- The whole server is the SSE server, seen by its events. -/
def eventsSimulation (handlers : Handlers M E)
    (matchesFilter : EventFilter T → EventKind M → Bool)
    : Simulation (machine handlers matchesFilter) (serverMachine matchesFilter) where
  view := LiveServer.events
  start := by
    rintro server ⟨maxClients, maxRetainedFiles, fileRetentionSecs, persistence, rfl⟩
    exact ⟨maxClients, rfl⟩
  step := by
    intro server action next taken
    have taken : server.step handlers matchesFilter action = some next := taken
    cases action with
    | ingest item now completedAt =>
        have published := (step_ingest taken).1.published
        exact ⟨_, (takes_publish _ _).trans (congrArg some published.symm)⟩
    | stopIngest => exact (step_other (by simp) taken).2
    | serve action => exact (step_other (by simp) taken).2
    | files now call => exact (step_other (by simp) taken).2
    | persist action => exact (step_other (by simp) taken).2

/-- Every step keeps the account, by cases on the action. -/
theorem Ingested.step {action : LiveAction T M} (ingested : Ingested handlers server handled)
    (taken : server.step handlers matchesFilter action = some next)
    : Ingested handlers next (noteHandled server action handled) := by
  cases action with
  | ingest item now completedAt =>
      obtain ⟨handles, before, after⟩ := step_ingest taken
      exact ingested.handle handles before fun still => by simpa [still] using after
  | stopIngest => exact ingested.keep (step_other (by simp) taken).1
  | serve action => exact ingested.keep (step_other (by simp) taken).1
  | files now call => exact ingested.keep (step_other (by simp) taken).1
  | persist action => exact ingested.keep (step_other (by simp) taken).1

/-- In a stream whose connections are in order, there is an endpoint exactly inside a
connection; by induction on the items.
-/
theorem endpoint_of_readAll {endpoint : Option Text} {inside : Bool} (items : List IngestItem)
    (reads : Mark.readAll endpoint.isSome (items.map Ingest.mark) = some inside)
    : (items.foldl endpointAfter endpoint).isSome = inside := by
  induction items generalizing endpoint with
  | nil => exact Option.some.inj reads
  | cons item rest ih =>
      obtain ⟨between, here, later⟩ := Option.bind_eq_some_iff.mp reads
      have shown : (endpointAfter endpoint item).isSome = between := by
        rcases item with err | event
        · cases endpoint <;> exact Option.some.inj here
        · cases event <;> cases endpoint <;> cases here <;> rfl
      rw [← shown] at later
      exact ih later

/-- Every run keeps the account. -/
theorem reachable_ingested
    (run : ((machine handlers matchesFilter).record [] noteHandled).Reachable (server, handled))
    : Ingested handlers server handled := by
  refine run.recorded
    (motive := fun server handled => Ingested handlers server handled) ?_ ?_
  · rintro server ⟨maxClients, maxRetainedFiles, fileRetentionSecs, persistence, rfl⟩
    exact ⟨rfl, rfl, rfl, rfl, ⟨_, _, [], rfl, rfl⟩, nofun⟩
  · intro server handled action next ingested _ taken
    exact ingested.step taken

/-- In every run of the server, in any order of its tasks' steps: what was published, the
endpoint and the telemetry shown, the count of products and the files inserted are those of
the items that the ingest task has taken, in their order; an endpoint is shown exactly inside
a connection, if the items have their connections in order; and what clients see is a run of
the SSE server.
-/
theorem ingested_in_order (handlers : Handlers M E)
    (matchesFilter : EventFilter T → EventKind M → Bool) (server : LiveServer T M)
    (handled : List Handled)
    (run : ((machine handlers matchesFilter).record [] noteHandled).Reachable (server, handled))
    : Ingested handlers server handled
      ∧ (∀ inside,
          Mark.readAll false ((handled.map Prod.fst).map Ingest.mark) = some inside
          → server.upstreamEndpoint.isSome = inside)
      ∧ (serverMachine matchesFilter).Reachable server.events := by
  have ingested := reachable_ingested run
  refine ⟨ingested, ?_, (eventsSimulation handlers matchesFilter).reachable run.unrecorded⟩
  intro inside reads
  rw [ingested.endpoint]
  exact endpoint_of_readAll _ reads

/-- Files are told by their names, and no archive is unpacked. -/
def plainHandlers : Handlers Text Text where
  postProcessArchives := false
  openArchive _ := none
  buildMetadata filename _ _ _ := some filename
  metadataJsonBytes metadata := .ok (toUtf8 metadata)

def everyEvent (_ : EventFilter Unit) (_ : EventKind Text) : Bool := true

/-- A connection and a product. -/
def sampleItems : List IngestItem := [
  .ok (.connected "a:1".toList),
  .ok (.product ⟨"A.TXT".toList, [0x41], 7000000000, .qbt⟩)
]

/-- The product of the sample is published, counted and retained, and its server shown. -/
theorem ingested_in_order_product
    : ∃ server : LiveServer Unit Text,
        (machine plainHandlers everyEvent).Reachable server
        ∧ server.events.sent.map BroadcastEvent.kind
          = [.connected "a:1".toList, .fileComplete "A.TXT".toList]
        ∧ server.dataBlocksTotal = 1
        ∧ server.upstreamEndpoint.isSome = true := by
  have initial : (machine plainHandlers everyEvent).Start (start 4 8 0 none) :=
    ⟨4, 8, 0, none, rfl⟩
  obtain ⟨server, taken⟩ : ∃ server,
      ((machine plainHandlers everyEvent).record [] noteHandled).takes (start 4 8 0 none, [])
        (sampleItems.map fun item => .ingest item 9 9)
      = some (server, sampleItems.map fun item => (item, 9)) :=
    ⟨_, rfl⟩
  have run
      : ((machine plainHandlers everyEvent).record [] noteHandled).Reachable
          (server, sampleItems.map fun item => (item, 9)) :=
    .takes (.start ⟨initial, rfl⟩) (by simp) taken
  obtain ⟨ingested, shown, -⟩ := ingested_in_order plainHandlers everyEvent server _ run
  have silent (persisting : Bool)
      : (sampleItems.map fun item => (item, (9 : Qbt.SystemTime))).filterMap
          (published? plainHandlers persisting)
        = [.connected "a:1".toList, .fileComplete "A.TXT".toList] := by
    cases persisting <;> rfl
  exact ⟨server, run.unrecorded, by rw [ingested.published, silent],
    ingested.dataBlocks.trans rfl, shown true rfl⟩

/-- Every product of the adapter is counted. -/
theorem countP_isQbtProduct (items : List IngestItem)
    : items.countP isQbtProduct
      = (products items).countP fun product => decide (product.origin = .qbt) := by
  induction items with
  | nil => rfl
  | cons item rest ih =>
      rcases item with err | event
      · exact ih
      · cases event with
        | product product =>
            rw [List.countP_cons, ih]
            exact (List.countP_cons).symm
        | connected endpoint => exact ih
        | disconnected => exact ih
        | telemetry snapshot => exact ih
        | warning warning => exact ih

/-- The ingest task takes whatever does not end it, by induction on the items. -/
theorem takes_ingest (handlers : Handlers M E)
    (matchesFilter : EventFilter T → EventKind M → Bool) (now completedAt : Qbt.SystemTime)
    {items : List IngestItem} (ingesting : server.ingesting = true)
    (calm : ∀ item ∈ items, stops handlers server.persistence.isSome item = false)
    : ∃ last,
        ((machine handlers matchesFilter).record [] noteHandled).takes (server, handled)
          (items.map fun item => .ingest item now completedAt)
        = some (last, handled ++ items.map fun item => (item, completedAt)) := by
  induction items generalizing server handled with
  | nil => exact ⟨server, by rw [List.map_nil, List.map_nil, List.append_nil]; rfl⟩
  | cons item rest ih =>
      rw [List.forall_mem_cons] at calm
      obtain ⟨next, taken⟩ : ∃ next,
          server.step handlers matchesFilter (.ingest item now completedAt) = some next := by
        simp only [step, ingesting, if_true]
        split <;> exact ⟨_, rfl⟩
      obtain ⟨handles, -, goesOn⟩ := step_ingest taken
      rw [calm.1] at goesOn
      have stepped
          : ((machine handlers matchesFilter).record [] noteHandled).step (server, handled)
              (.ingest item now completedAt)
            = some (next, handled ++ [(item, completedAt)]) :=
        congrArg (Option.map fun next => (next, handled ++ [(item, completedAt)])) taken
      obtain ⟨last, later⟩ := ih goesOn (by rw [handles.persists]; exact calm.2)
      refine ⟨last, ?_⟩
      rw [List.map_cons, Machine.takes, stepped, Option.bind_some, later, List.map_cons,
        List.append_assoc, List.singleton_append]

/-- No item ends the task of a server without persistence that tells files by their names. -/
theorem stops_plainHandlers (item : IngestItem) : stops plainHandlers false item = false := by
  rcases item with err | event
  · rfl
  · cases event with
    | product product => simp [stops, plainHandlers, Handlers.delivered, postProcessArchive]
    | _ => rfl

/-- From the connections to the clients: a server that has taken everything from a receiver
without a dropped event shows an endpoint exactly while a connection stands, and has counted
and tried to deliver, in order, the files that the segments in the bytes of the connections
complete.
-/
theorem server_follows_connections (externals : Qbt.Externals) (config : Qbt.ReceiverConfig)
    (toLowercase : Text → Text) (receiver : Receiver) (streams : List Bytes)
    (connected
      : ((Receiver.machine externals config).record [] Receiver.noteBytes).Reachable
          (receiver, streams))
    (undropped : receiver.sender.telemetry.snapshot.eventQueueDropTotal = 0)
    (isOpen : receiver.sender.channel.closed = false)
    (items : List Polled) (polls : items.map Polled.item = receiver.sender.channel.sent)
    (handlers : Handlers M E) (matchesFilter : EventFilter T → EventKind M → Bool)
    (server : LiveServer T M) (handled : List Handled)
    (run : ((machine handlers matchesFilter).record [] noteHandled).Reachable (server, handled))
    (fed : handled.map Prod.fst = adaptQbtEvents toLowercase items)
    : server.upstreamEndpoint.isSome = receiver.loop.phase.inSession
      ∧ received (calls items)
        = dataBlocks (Receiver.decodedEvents externals config streams)
      ∧ ∃ files : List QbtCompletedFile,
          files
            = (pushAll toLowercase (.new defaultDuplicateCacheSize)
                (calls items)).1.filterMap id
          ∧ products (handled.map Prod.fst) = files.map .fromCompleted
          ∧ server.dataBlocksTotal = UInt64.ofNat files.length := by
  have polls : items.map Polled.item ++ [] = receiver.sender.channel.sent := by
    rw [List.append_nil, polls]
  have ingested := reachable_ingested run
  obtain ⟨inside, reads, final⟩ := readAll_of_run connected undropped isOpen polls
  rw [← fed] at reads
  have delivered := products_scanQbtEvents toLowercase
    (.new defaultDuplicateCacheSize) items
  have shown : ((handled.map Prod.fst).foldl endpointAfter none).isSome = inside :=
    endpoint_of_readAll _ reads
  refine ⟨?_, ?_, _, rfl, ?_, ?_⟩
  · rw [ingested.endpoint, shown, final rfl]
  · have pushed := received_calls_of_run connected undropped isOpen polls
    exact (List.append_nil _).symm.trans pushed
  · rw [fed]
    exact delivered
  · rw [ingested.dataBlocks, countP_isQbtProduct, fed]
    unfold adaptQbtEvents
    rw [delivered, List.countP_map]
    congr 1
    exact List.countP_eq_length.mpr fun _ _ => rfl

/-- The text of the sample reaches a server: it shows the receiver's server. -/
theorem server_follows_connections_text
    : ∃ (receiver : Receiver) (server : LiveServer Unit Text),
        receiver.sender.channel.closed = false
        ∧ server.upstreamEndpoint.isSome = receiver.loop.phase.inSession
        ∧ received (calls (polledAtOnce receiver.sender.channel.sent))
          = dataBlocks
              (Receiver.decodedEvents Qbt.sampleExternals Receiver.sampleConfig
                [textStream]) := by
  obtain ⟨receiver, connected, undropped, isOpen⟩ := sampleText_run
  have initial : (machine plainHandlers everyEvent).Start (start 4 8 0 none) :=
    ⟨4, 8, 0, none, rfl⟩
  obtain ⟨server, taken⟩ :=
    takes_ingest plainHandlers everyEvent 9 9
      (show (start 4 8 0 none : LiveServer Unit Text).ingesting = true from rfl)
      (fun item (_ : item ∈ adaptQbtEvents Qbt.QbtFileAssembler.asciiLowercase
        (polledAtOnce receiver.sender.channel.sent)) => stops_plainHandlers item)
  have run : ((machine plainHandlers everyEvent).record [] noteHandled).Reachable (server, _) :=
    .takes (.start ⟨initial, rfl⟩) (by simp) taken
  obtain ⟨shown, pushed, -⟩ :=
    server_follows_connections Qbt.sampleExternals Receiver.sampleConfig
      Qbt.QbtFileAssembler.asciiLowercase receiver [textStream] connected undropped isOpen _
      (item_polledAtOnce _) plainHandlers everyEvent server _ run (by simp [Function.comp_def])
  exact ⟨receiver, server, isOpen, shown, pushed⟩

end LiveServer

end Emwin.Live
