import Emwin.Ingest.Model
import Emwin.Library.Simulations
import Emwin.Qbt.Client.ReceiverFrames
import Emwin.Qbt.File.TextDelivery

/-! The stream of products: what the QBT receiver sends becomes products, connections and
warnings, and the products are those in the bytes of the connections.
-/

namespace Emwin.Ingest
open Library Qbt QbtFileAssembler

/-- An item that the adapter takes from the receiver, with the clock reading and the
iteration order of the push that it may lead to.
-/
structure Polled where
  item : Offer
  now : Instant
  order : IterationOrder Text InflightFile

def defaultDuplicateCacheSize : Nat := 100

/-- A segment is pushed, which never fails. -/
def mapQbtFrameEvent (toLowercase : Text → Text) (polled : Polled)
    (assembler : QbtFileAssembler)
    : QbtFrameEvent → Option IngestItem × QbtFileAssembler
  | .dataBlock segment =>
      let (file, assembler) := assembler.push toLowercase polled.order polled.now segment
      (file.map fun file => .ok (.product (.fromCompleted file)), assembler)
  | .warning warning => (some (.ok (.warning (.qbt warning))), assembler)
  | .serverListUpdate _ => (none, assembler)

def mapQbtEvent (toLowercase : Text → Text) (polled : Polled) (assembler : QbtFileAssembler)
    : Option IngestItem × QbtFileAssembler :=
  match polled.item with
  | .ok (.connected endpoint) => (some (.ok (.connected endpoint)), assembler)
  | .ok .disconnected => (some (.ok .disconnected), assembler)
  | .ok (.telemetry snapshot counters) =>
      (some (.ok (.telemetry (.qbt snapshot counters))), assembler)
  | .ok (.frame frame) => mapQbtFrameEvent toLowercase polled assembler frame
  | .error err => (some (.error (.qbt err)), assembler)

/-- The items one after another, with the assembler at the end. -/
def scanQbtEvents (toLowercase : Text → Text)
    : QbtFileAssembler → List Polled → List IngestItem × QbtFileAssembler
  | assembler, [] => ([], assembler)
  | assembler, polled :: rest =>
      let mapped := mapQbtEvent toLowercase polled assembler
      prepend mapped.1.toList (scanQbtEvents toLowercase mapped.2 rest)

def adaptQbtEvents (toLowercase : Text → Text) (polled : List Polled) : List IngestItem :=
  (scanQbtEvents toLowercase (.new defaultDuplicateCacheSize) polled).1

-----------------------------------------------------------------------------------------
-- Products
-----------------------------------------------------------------------------------------

/-- The push that an item leads to. -/
def Polled.call? (polled : Polled) : Option PushCall :=
  match polled.item with
  | .ok (.frame (.dataBlock segment)) =>
      some { segment, now := polled.now, order := polled.order }
  | _ => none

/-- The pushes that the items lead to. -/
def calls (polled : List Polled) : List PushCall := polled.filterMap Polled.call?

def product? : IngestItem → Option ReceivedProduct
  | .ok (.product product) => some product
  | _ => none

/-- The products among the items. -/
def products (items : List IngestItem) : List ReceivedProduct := items.filterMap product?

variable {toLowercase : Text → Text} {assembler : QbtFileAssembler} {polled : Polled}

/-- An item that is no segment leaves the assembler alone and gives no product. -/
theorem mapQbtEvent_other (other : polled.call? = none)
    : (mapQbtEvent toLowercase polled assembler).2 = assembler
      ∧ products (mapQbtEvent toLowercase polled assembler).1.toList = [] := by
  obtain ⟨item, now, order⟩ := polled
  rcases item with error | event
  · exact ⟨rfl, rfl⟩
  · cases event with
    | frame frame =>
        cases frame with
        | dataBlock segment => cases other
        | warning warning => exact ⟨rfl, rfl⟩
        | serverListUpdate list => exact ⟨rfl, rfl⟩
    | connected endpoint => exact ⟨rfl, rfl⟩
    | disconnected => exact ⟨rfl, rfl⟩
    | telemetry snapshot counters => exact ⟨rfl, rfl⟩

/-- A segment is pushed, and the file that it completes is a product. -/
theorem mapQbtEvent_call {call : PushCall} (pushes : polled.call? = some call)
    : (mapQbtEvent toLowercase polled assembler).2
        = (assembler.push toLowercase call.order call.now call.segment).2
      ∧ products (mapQbtEvent toLowercase polled assembler).1.toList
        = (assembler.push toLowercase call.order call.now call.segment).1.toList.map
            .fromCompleted := by
  obtain ⟨item, now, order⟩ := polled
  simp only [Polled.call?] at pushes
  split at pushes
  · obtain rfl := Option.some.inj pushes
    refine ⟨rfl, ?_⟩
    simp only [mapQbtEvent, mapQbtFrameEvent]
    cases (assembler.push toLowercase order now _).1 <;> rfl
  · cases pushes

/-- The products are the files that the pushes return, by induction on the items. -/
theorem products_scanQbtEvents (toLowercase : Text → Text) (assembler : QbtFileAssembler)
    (polled : List Polled)
    : products (scanQbtEvents toLowercase assembler polled).1
      = ((pushAll toLowercase assembler (calls polled)).1.filterMap id).map
          .fromCompleted := by
  induction polled generalizing assembler with
  | nil => rfl
  | cons first rest ih =>
      have split
          : products (scanQbtEvents toLowercase assembler (first :: rest)).1
            = products (mapQbtEvent toLowercase first assembler).1.toList
              ++ products (scanQbtEvents toLowercase
                  (mapQbtEvent toLowercase first assembler).2 rest).1 :=
        List.filterMap_append
      cases pushes : first.call? with
      | none =>
          obtain ⟨same, nothing⟩ := mapQbtEvent_other pushes
          rw [split, nothing, same, List.nil_append, ih, calls, calls,
            List.filterMap_cons_none pushes]
      | some call =>
          obtain ⟨after, completed⟩ := mapQbtEvent_call pushes
          rw [split, completed, after, ih, calls, calls, List.filterMap_cons_some pushes,
            pushAll, prepend, List.filterMap_append, List.map_append]
          cases (assembler.push toLowercase call.order call.now call.segment).1 <;> rfl

/-- The segments that are pushed are those among the frames of the items. -/
theorem received_calls (polled : List Polled)
    : received (calls polled)
      = dataBlocks (Receiver.contents (polled.map Polled.item)) := by
  induction polled with
  | nil => rfl
  | cons first rest ih =>
      obtain ⟨item, now, order⟩ := first
      rcases item with error | event
      · exact ih
      · cases event with
        | frame frame =>
            cases frame with
            | dataBlock segment => exact congrArg (segment :: ·) ih
            | warning warning => cases warning <;> exact ih
            | serverListUpdate list => exact ih
        | connected endpoint => exact ih
        | disconnected => exact ih
        | telemetry snapshot => exact ih

/-- Failures of handlers carry no segment. -/
theorem dataBlocks_filter_handlerError (events : List QbtFrameEvent)
    : dataBlocks (events.filter (!Receiver.isHandlerError ·)) = dataBlocks events := by
  induction events with
  | nil => rfl
  | cons event rest ih =>
      cases event with
      | dataBlock segment => exact congrArg (segment :: ·) ih
      | serverListUpdate list => exact ih
      | warning warning => cases warning <;> exact ih

-----------------------------------------------------------------------------------------
-- Connections
-----------------------------------------------------------------------------------------

/-- Products, telemetry and warnings belong inside a connection, errors anywhere. -/
def mark : IngestItem → Mark
  | .ok (.connected _) => .opening
  | .ok .disconnected => .closing
  | .ok (.product _) => .inner
  | .ok (.telemetry _) => .inner
  | .ok (.warning _) => .inner
  | .error _ => .neutral

/-- An item is passed on with its mark, or it belongs inside a connection. -/
theorem mapQbtEvent_mark (toLowercase : Text → Text) (polled : Polled)
    (assembler : QbtFileAssembler)
    : (mapQbtEvent toLowercase polled assembler).1.toList.map mark = [Receiver.mark polled.item]
      ∨ (mapQbtEvent toLowercase polled assembler).1 = none
        ∧ Receiver.mark polled.item = .inner := by
  obtain ⟨item, now, order⟩ := polled
  rcases item with error | event
  · exact .inl rfl
  · cases event with
    | frame frame =>
        cases frame with
        | dataBlock segment =>
            simp only [mapQbtEvent, mapQbtFrameEvent]
            cases (assembler.push toLowercase order now segment).1 with
            | none => exact .inr ⟨rfl, rfl⟩
            | some file => exact .inl rfl
        | warning warning => exact .inl rfl
        | serverListUpdate list => exact .inr ⟨rfl, rfl⟩
    | connected endpoint => exact .inl rfl
    | disconnected => exact .inl rfl
    | telemetry snapshot counters => exact .inl rfl

/-- The adapter keeps connections in order, by induction on the items. -/
theorem readAll_scanQbtEvents {inside after : Bool} (polled : List Polled)
    (reads
      : Mark.readAll inside (polled.map fun polled => Receiver.mark polled.item) = some after)
    : Mark.readAll inside ((scanQbtEvents toLowercase assembler polled).1.map mark)
      = some after := by
  induction polled generalizing inside assembler with
  | nil => exact reads
  | cons first rest ih =>
      obtain ⟨next, here, later⟩ := Option.bind_eq_some_iff.mp reads
      rw [scanQbtEvents, prepend, List.map_append]
      rcases mapQbtEvent_mark toLowercase first assembler with passed | ⟨dropped, inner⟩
      · rw [passed, List.singleton_append, Mark.readAll, here, Option.bind_some]
        exact ih later
      · -- nothing is read in its place, and reading it changes nothing
        have here : Mark.read inside .inner = some next := inner ▸ here
        have same : inside = next := by
          cases inside with
          | true => exact Option.some.inj here
          | false => cases here
        rw [dropped, same]
        exact ih later

-----------------------------------------------------------------------------------------
-- From the bytes of the connections
-----------------------------------------------------------------------------------------

section Runs

variable {externals : Externals} {config : ReceiverConfig} {receiver : Receiver}
  {streams : List Bytes} {toLowercase : Text → Text} {items : List Polled}
  {waiting : List Offer}

/-- As long as nothing was dropped, the segments that are pushed and those that wait in the
channel are those in the bytes of the connections.
-/
theorem received_calls_of_run
    (run
      : ((Receiver.machine externals config).record [] Receiver.noteBytes).Reachable
          (receiver, streams))
    (undropped : receiver.sender.telemetry.snapshot.eventQueueDropTotal = 0)
    (isOpen : receiver.sender.channel.closed = false)
    (polls : items.map Polled.item ++ waiting = receiver.sender.channel.sent)
    : received (calls items) ++ dataBlocks (Receiver.contents waiting)
      = dataBlocks (Receiver.decodedEvents externals config streams) := by
  have lossless := Receiver.reachable_lossless run.unrecorded
  rw [lossless.taken (lossless.shown ▸ undropped) isOpen] at polls
  rw [received_calls, ← dataBlocks_append, ← Receiver.contents_append, polls,
    (Receiver.reachable_reads run).sent, dataBlocks_filter_handlerError]

/-- The adapter's connections are in order, and once nothing waits its stream is inside a
connection exactly if one stands.
-/
theorem readAll_of_run
    (run
      : ((Receiver.machine externals config).record [] Receiver.noteBytes).Reachable
          (receiver, streams))
    (undropped : receiver.sender.telemetry.snapshot.eventQueueDropTotal = 0)
    (isOpen : receiver.sender.channel.closed = false)
    (polls : items.map Polled.item ++ waiting = receiver.sender.channel.sent)
    : ∃ inside,
        Mark.readAll false ((adaptQbtEvents toLowercase items).map mark) = some inside
        ∧ (waiting = [] → inside = receiver.loop.phase.inSession) := by
  have lossless := Receiver.reachable_lossless run.unrecorded
  rw [lossless.taken (lossless.shown ▸ undropped) isOpen] at polls
  obtain ⟨results, recorded⟩ := run.unrecorded.withRecord {} Receiver.noteResults
  have bracketed := (Receiver.reachable_consistent recorded).bracketed
  rw [Receiver.marks, ← polls, List.map_append, Mark.readAll_append, List.map_map]
    at bracketed
  obtain ⟨inside, here, rest⟩ := Option.bind_eq_some_iff.mp bracketed
  refine ⟨inside, readAll_scanQbtEvents items here, ?_⟩
  rintro rfl
  exact Option.some.inj rest

end Runs

/-- In every run in which nothing was dropped, however far the consumer has come: the segments
that the adapter has pushed, with those that still wait, are those in the bytes of the
connections; its products are the files that these pushes complete; and it reports products,
telemetry and warnings only between a connection and its end, which it reports too.
-/
theorem products_of_bytes (externals : Externals) (config : ReceiverConfig)
    (toLowercase : Text → Text) (receiver : Receiver) (streams : List Bytes)
    (run
      : ((Receiver.machine externals config).record [] Receiver.noteBytes).Reachable
          (receiver, streams))
    (undropped : receiver.sender.telemetry.snapshot.eventQueueDropTotal = 0)
    (isOpen : receiver.sender.channel.closed = false)
    (items : List Polled) (waiting : List Offer)
    (polls : items.map Polled.item ++ waiting = receiver.sender.channel.sent)
    : received (calls items) ++ dataBlocks (Receiver.contents waiting)
        = dataBlocks (Receiver.decodedEvents externals config streams)
      ∧ products (adaptQbtEvents toLowercase items)
        = ((pushAll toLowercase (.new defaultDuplicateCacheSize)
            (calls items)).1.filterMap id).map .fromCompleted
      ∧ ∃ inside,
          Mark.readAll false ((adaptQbtEvents toLowercase items).map mark) = some inside
          ∧ (waiting = [] → inside = receiver.loop.phase.inSession) := by
  exact ⟨received_calls_of_run run undropped isOpen polls, products_scanQbtEvents ..,
    readAll_of_run run undropped isOpen polls⟩

/-- The bytes of a connection that carries a text of two blocks. -/
def textStream : Bytes := xorFf (wireStream (sampleTextFrames keptText))

/-- The task connects and logs on, and reads the text in two parts. -/
def textActions : List ReceiverAction := [
  .ask,
  .connect (.ok ()),
  .logon (.ok ()),
  .read (.ok (textStream.take 1500)) (fun _ => ⟨5, .ok ()⟩) (fun _ => []),
  .read (.ok (textStream.drop 1500)) (fun _ => ⟨5, .ok ()⟩) (fun _ => [])
]

/-- All items at one time. -/
def polledAtOnce (items : List Offer) : List Polled :=
  items.map fun item => { item, now := 0, order := .listed }

theorem item_polledAtOnce (items : List Offer)
    : (polledAtOnce items).map Polled.item = items := by
  simp [polledAtOnce, Function.comp_def]

theorem sampleText_run
    : ∃ receiver,
        ((Receiver.machine sampleExternals Receiver.sampleConfig).record []
          Receiver.noteBytes).Reachable (receiver, [textStream])
        ∧ receiver.sender.telemetry.snapshot.eventQueueDropTotal = 0
        ∧ receiver.sender.channel.closed = false := by
  have computed
      : (((Receiver.machine sampleExternals Receiver.sampleConfig).record []
          Receiver.noteBytes).takes (Receiver.sampleStart, []) textActions).map
          (fun recorded => (recorded.2,
            recorded.1.sender.telemetry.snapshot.eventQueueDropTotal,
            recorded.1.sender.channel.closed))
        = some ([textStream], 0, false) := by
    decide +kernel
  obtain ⟨⟨receiver, streams⟩, taken, facts⟩ := Option.map_eq_some_iff.mp computed
  simp only [Prod.mk.injEq] at facts
  obtain ⟨rfl, undropped, isOpen⟩ := facts
  exact ⟨receiver, .takes (.start ⟨Receiver.sampleStart_starts, rfl⟩) (by simp) taken,
    undropped, isOpen⟩

/-- The blocks of the sample are pushed. -/
theorem products_of_bytes_text
    : ∃ receiver : Receiver,
        receiver.sender.channel.closed = false
        ∧ received (calls (polledAtOnce receiver.sender.channel.sent))
          = dataBlocks
              (Receiver.decodedEvents sampleExternals Receiver.sampleConfig [textStream]) := by
  obtain ⟨receiver, run, undropped, isOpen⟩ := sampleText_run
  obtain ⟨pushed, _⟩ :=
    products_of_bytes sampleExternals Receiver.sampleConfig asciiLowercase receiver
      [textStream] run undropped isOpen (polledAtOnce receiver.sender.channel.sent) []
      (by rw [item_polledAtOnce, List.append_nil])
  exact ⟨receiver, isOpen, (List.append_nil _).symm.trans pushed⟩

/-- From the socket to the product: a text that a connection carries as V1 frames, read in
any pieces and polled promptly, is the only product, with the same bytes, if and only if it is
no fill file and no block but its last ends in a padding byte.
-/
theorem text_ingested_iff (externals : Externals) (config : ReceiverConfig)
    (toLowercase : Text → Text) (receiver : Receiver) (stream : Bytes)
    (run
      : ((Receiver.machine externals config).record [] Receiver.noteBytes).Reachable
          (receiver, [stream]))
    (undropped : receiver.sender.telemetry.snapshot.eventQueueDropTotal = 0)
    (isOpen : receiver.sender.channel.closed = false)
    (items : List Polled) (polls : items.map Polled.item = receiver.sender.channel.sent)
    (prompt
      : (calls items).IsChain fun earlier later =>
          later.now - earlier.now ≤ defaultInflightTtl)
    (filename fd : Text) (timestampUtc : SystemTime) (text : Bytes) (last : UInt8)
    (frames : List DataFrame) (ends : text.getLast? = some last)
    (unpadded : isTextPadding last = false) (textName : isTextOrWmo filename = true)
    (dated : parseFdTimestamp externals fd = some timestampUtc)
    (encodes : EncodesText filename fd timestampUtc text frames)
    (wire : xorFf stream = wireStream frames)
    : (∃ product, products (adaptQbtEvents toLowercase items) = [product] ∧ product.data = text)
      ↔ isFillFile filename = false ∧ SeamsKept text := by
  have wire : xorFf [stream].flatten = wireStream frames := by
    rwa [List.flatten_singleton]
  have pushes
      : received (calls items)
        = dataBlocks (QbtProtocolDecoder.feedAll externals (.new config.decode) [stream]).1 := by
    have pushed :=
      received_calls_of_run run undropped isOpen
        (show items.map Polled.item ++ [] = _ by rw [List.append_nil, polls])
    simpa [Receiver.contents, Receiver.decodedEvents, Receiver.decoding, dataBlocks,
      QbtProtocolDecoder.feedAll, prepend] using pushed
  have delivered
      : (∃ file,
          (pushAll toLowercase (.new defaultDuplicateCacheSize) (calls items)).1.filterMap id
          = [file]
          ∧ file.data = text)
        ↔ isFillFile filename = false ∧ SeamsKept text :=
    encodes.assembled_iff ends unpadded textName dated wire pushes
      (prompt.imp fun _ _ close => close.trans (le_max_left _ _))
  rw [← delivered, adaptQbtEvents, products_scanQbtEvents]
  constructor
  · rintro ⟨product, one, whole⟩
    obtain ⟨file, same, rfl⟩ := List.map_eq_singleton_iff.mp one
    exact ⟨file, same, whole⟩
  · rintro ⟨file, one, whole⟩
    exact ⟨.fromCompleted file, List.map_eq_singleton_iff.mpr ⟨file, one, rfl⟩, whole⟩

/-- The text of the sample arrives. -/
theorem text_ingested_kept
    : ∃ (receiver : Receiver) (product : ReceivedProduct),
        receiver.sender.channel.closed = false
        ∧ products
            (adaptQbtEvents asciiLowercase (polledAtOnce receiver.sender.channel.sent))
          = [product]
        ∧ product.data = keptText := by
  obtain ⟨receiver, run, undropped, isOpen⟩ := sampleText_run
  have still (call : PushCall)
      (member : call ∈ calls (polledAtOnce receiver.sender.channel.sent))
      : call.now = 0 := by
    obtain ⟨polled, inItems, pushes⟩ := List.mem_filterMap.mp member
    obtain ⟨item, -, rfl⟩ := List.mem_map.mp inItems
    simp only [Polled.call?] at pushes
    split at pushes
    · exact Option.some.inj pushes ▸ rfl
    · cases pushes
  obtain ⟨product, one, whole⟩ :=
    (text_ingested_iff sampleExternals Receiver.sampleConfig asciiLowercase receiver textStream
      run undropped isOpen _ (item_polledAtOnce _)
      (List.isChain_iff_getElem.mpr fun index inside => by
        rw [still _ (List.getElem_mem _), Nat.zero_sub]
        exact Nat.zero_le _)
      "HELLO.TXT".toList "01/01/2024 01:00:00 AM".toList 1704070800000000000 keptText 0x42
      (sampleTextFrames keptText) (by decide +kernel) (by decide) (by decide +kernel)
      (by decide +kernel) keptText_encodes (by simp [textStream])).mpr
      ⟨by decide +kernel, by decide +kernel⟩
  exact ⟨receiver, product, isOpen, one, whole⟩

end Emwin.Ingest
