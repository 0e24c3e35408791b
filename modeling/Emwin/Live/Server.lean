import Emwin.Live.EventsQuery
import Emwin.Library.Machine
import Emwin.Library.Utf8

/-! The live server as far as its SSE clients go: event ids, the broadcast channel, and the
handler of `GET /events` with the streams that it opens.
-/

namespace Emwin.Live
open Library

def eventChannelCapacity : Nat := 4096

structure BroadcastEvent (K : Type) where
  id : UInt64
  kind : K
  deriving DecidableEq, Repr

/-- What a turn of the broadcast receiver gives. -/
inductive Received (K : Type) where
  | event (event : BroadcastEvent K)
  | lagged (dropped : Nat)
  | closed
  deriving DecidableEq, Repr

/-- What a stream sends to its client: an event with its id, or the report of a gap. -/
inductive SseEvent (K : Type) where
  | event (event : BroadcastEvent K)
  | warning (dropped : Nat)
  deriving DecidableEq, Repr

/-- A stream with the position of its receiver. -/
structure StreamState (T : Type) where
  next : Nat
  lastId : UInt64
  filter : EventFilter T
  deriving DecidableEq, Repr

inductive StatusCode where
  | badRequest
  | tooManyRequests
  deriving DecidableEq, Repr

/-- Where a request stands. The stream of one that ended is kept as it was. -/
inductive Phase (T : Type) where
  | handling (query : EventsQuery T)
  | answered (status : StatusCode) (message : Text)
  | streaming (stream : StreamState T)
  | ended (stream : StreamState T)
  deriving DecidableEq, Repr

/-- A request, with a record of what its receiver returned and its client was sent. -/
structure Client (T K : Type) where
  lastEventId : Option Bytes
  tookSlot : Bool
  subscribed : Nat
  phase : Phase T
  received : List (Received K) := []
  yielded : List (SseEvent K) := []
  deriving DecidableEq, Repr

/-- The shared state, with every event sent and every request so far. -/
structure AppState (T K : Type) where
  connectedClients : UInt64 := 0
  maxClients : UInt64
  nextEventId : UInt64 := 1
  sent : List (BroadcastEvent K) := []
  shutdown : Bool := false
  clients : List (Client T K) := []
  deriving DecidableEq, Repr

variable {T K : Type}

-----------------------------------------------------------------------------------------
-- The handler
-----------------------------------------------------------------------------------------

/-- `HeaderValue::to_str`: visible ASCII characters and tabs only. -/
def toStr (value : Bytes) : Option Text :=
  if value.all fun byte => (32 ≤ byte && byte < 127) || byte = 9 then
    some (value.map fun byte => Char.ofNat byte.toNat)
  else none

/-- The id after which a client wants to go on; zero if it names none. -/
def lastId (lastEventId : Option Bytes) : UInt64 :=
  UInt64.ofNat (((lastEventId.bind toStr).bind (parseUnsigned (2 ^ 64))).getD 0)

/-- A turn of the stream's loop: the stream ends, goes on, or yields. -/
def StreamState.turn (matchesFilter : EventFilter T → K → Bool) (stream : StreamState T)
    : Received K → Option (StreamState T × Option (SseEvent K))
  | .event event =>
      if event.id ≤ stream.lastId then some (stream, none)
      else if !matchesFilter stream.filter event.kind then some (stream, none)
      else some ({ stream with lastId := event.id }, some (.event event))
  | .closed => none
  | .lagged dropped => some (stream, some (.warning dropped))

namespace AppState

/-- `run_server`: at least one client is allowed. -/
def start (maxClients : UInt64) : AppState T K where
  maxClients := max maxClients 1

/-- `publish`; there is one publisher, the ingest task. -/
def publish (state : AppState T K) (kind : K) : AppState T K :=
  { state with
    nextEventId := state.nextEventId + 1
    sent := state.sent ++ [⟨state.nextEventId, kind⟩] }

/-- A turn of the receiver at a position. The channel never closes under a stream, which holds
the state and with it the sender.
-/
def received (state : AppState T K) (position : Nat) : Option (Received K × Nat) :=
  if position + eventChannelCapacity < state.sent.length then
    some (.lagged (state.sent.length - eventChannelCapacity - position),
      state.sent.length - eventChannelCapacity)
  else (state.sent[position]?).map fun event => (.event event, position + 1)

/-- The first part of `events_handler`: take a slot and subscribe. A query that the extractor
cannot read is answered before that.
-/
def request (state : AppState T K) (query : Except Text (EventsQuery T))
    (lastEventId : Option Bytes)
    : AppState T K :=
  match query with
  | .error message =>
      { state with
        clients := state.clients
          ++ [⟨lastEventId, false, state.sent.length, .answered .badRequest message, [], []⟩] }
  | .ok query =>
      if state.connectedClients < state.maxClients then
        { state with
          connectedClients := state.connectedClients + 1
          clients := state.clients
            ++ [⟨lastEventId, true, state.sent.length, .handling query, [], []⟩] }
      else
        { state with
          clients := state.clients
            ++ [⟨lastEventId, false, state.sent.length,
              .answered .tooManyRequests "client limit reached".toList, [], []⟩] }

/-- The rest of `events_handler`: check the query, and open the stream. Only the stream has a
guard that releases the slot.
-/
def validated (client : Client T K) (query : EventsQuery T) : Client T K :=
  match query.compile with
  | .error message => { client with phase := .answered .badRequest message }
  | .ok filter =>
      { client with
        phase := .streaming ⟨client.subscribed, lastId client.lastEventId, filter⟩ }

/-- Drop a stream and with it its guard. -/
def release (state : AppState T K) (index : Nat) (client : Client T K)
    (stream : StreamState T)
    : AppState T K :=
  { state with
    connectedClients := state.connectedClients - 1
    clients := state.clients.set index { client with phase := .ended stream } }

/-- The turn of a client's stream. -/
def receive (matchesFilter : EventFilter T → K → Bool) (state : AppState T K) (index : Nat)
    (client : Client T K) (stream : StreamState T)
    : Option (AppState T K) :=
  (state.received stream.next).map fun (received, next) =>
    let client := { client with received := client.received ++ [received] }
    match { stream with next }.turn matchesFilter received with
    | none => state.release index client { stream with next }
    | some (stream, item) =>
        { state with
          clients := state.clients.set index
            { client with
              phase := .streaming stream
              yielded := client.yielded ++ item.toList } }

end AppState

/-- What happens at the server. `dropped` is a client that goes away. -/
inductive ServerAction (T K : Type) where
  | publish (kind : K)
  | shutdown
  | request (query : Except Text (EventsQuery T)) (lastEventId : Option Bytes)
  | validate (index : Nat)
  | receive (index : Nat)
  | shutdownSeen (index : Nat)
  | dropped (index : Nat)

namespace AppState

def step (matchesFilter : EventFilter T → K → Bool) (state : AppState T K)
    : ServerAction T K → Option (AppState T K)
  | .publish kind => some (state.publish kind)
  | .shutdown => some { state with shutdown := true }
  | .request query lastEventId => some (state.request query lastEventId)
  | .validate index =>
      match state.clients[index]? with
      | some client =>
          match client.phase with
          | .handling query =>
              some { state with clients := state.clients.set index (validated client query) }
          | _ => none
      | none => none
  | .receive index => onStream state index (state.receive matchesFilter index)
  | .shutdownSeen index =>
      onStream state index fun client stream =>
        if state.shutdown then some (state.release index client stream) else none
  | .dropped index =>
      onStream state index fun client stream => some (state.release index client stream)
where
  onStream (state : AppState T K) (index : Nat)
      (act : Client T K → StreamState T → Option (AppState T K))
      : Option (AppState T K) :=
    match state.clients[index]? with
    | some client =>
        match client.phase with
        | .streaming stream => act client stream
        | _ => none
    | none => none

end AppState

/-- The server as a machine; a restarted server starts over. -/
def serverMachine (matchesFilter : EventFilter T → K → Bool)
    : Machine (AppState T K) (ServerAction T K) where
  Start state := ∃ maxClients, state = .start maxClients
  step := AppState.step matchesFilter

-----------------------------------------------------------------------------------------
-- Everything one step can do
-----------------------------------------------------------------------------------------

/-- A client whose phase changes, with the change of the counter that goes with it. -/
inductive Turns (matchesFilter : EventFilter T → K → Bool) (state : AppState T K)
    : Client T K → UInt64 → Client T K → Prop
  | invalid {client query message} (handled : client.phase = .handling query)
    (error : query.compile = .error message)
    : Turns matchesFilter state client state.connectedClients
        { client with phase := .answered .badRequest message }
  | opened {client query filter} (handled : client.phase = .handling query)
    (valid : query.compile = .ok filter)
    : Turns matchesFilter state client state.connectedClients
        { client with
          phase := .streaming ⟨client.subscribed, lastId client.lastEventId, filter⟩ }
  | received {client stream received next turned item} (live : client.phase = .streaming stream)
    (found : state.received stream.next = some (received, next))
    (turns : { stream with next }.turn matchesFilter received = some (turned, item))
    : Turns matchesFilter state client state.connectedClients
        { client with
          phase := .streaming turned
          received := client.received ++ [received]
          yielded := client.yielded ++ item.toList }
  | ended {client stream} (live : client.phase = .streaming stream)
    : Turns matchesFilter state client (state.connectedClients - 1)
        { client with phase := .ended stream }

/-- What a step does to the clients. -/
inductive Moves (matchesFilter : EventFilter T → K → Bool) (state : AppState T K)
    (action : ServerAction T K)
    : AppState T K → Prop
  | published (kind : K) : Moves matchesFilter state action (state.publish kind)
  | shutdown : Moves matchesFilter state action { state with shutdown := true }
  | refused {client : Client T K} {status message} (slotless : client.tookSlot = false)
    (answer : client.phase = .answered status message)
    : Moves matchesFilter state action { state with clients := state.clients ++ [client] }
  | granted {query lastEventId} (asked : action = .request (.ok query) lastEventId)
    (free : state.connectedClients < state.maxClients)
    : Moves matchesFilter state action
        { state with
          connectedClients := state.connectedClients + 1
          clients := state.clients
            ++ [⟨lastEventId, true, state.sent.length, .handling query, [], []⟩] }
  | turned {index client connectedClients after} (found : state.clients[index]? = some client)
    (turns : Turns matchesFilter state client connectedClients after)
    : Moves matchesFilter state action
        { state with connectedClients, clients := state.clients.set index after }

section
variable {matchesFilter : EventFilter T → K → Bool} {state next : AppState T K} {index : Nat}

theorem onStream_eq_some {act : Client T K → StreamState T → Option (AppState T K)}
    (taken : AppState.step.onStream state index act = some next)
    : ∃ client stream,
        state.clients[index]? = some client
        ∧ client.phase = .streaming stream
        ∧ act client stream = some next := by
  unfold AppState.step.onStream at taken
  split at taken
  · next client found =>
      split at taken
      · next stream live => exact ⟨client, stream, found, live, taken⟩
      · exact absurd taken (by simp)
  · exact absurd taken (by simp)

/-- The channel never closes under a stream. -/
theorem received_ne_closed {position : Nat} {received : Received K} {after : Nat}
    (found : state.received position = some (received, after))
    : received ≠ .closed := by
  unfold AppState.received at found
  split_ifs at found with lags
  · obtain ⟨rfl, -⟩ := Prod.mk.inj (Option.some.inj found)
    simp
  · obtain ⟨event, -, same⟩ := Option.map_eq_some_iff.mp found
    obtain ⟨rfl, -⟩ := Prod.mk.inj same
    simp

theorem turn_isSome (matchesFilter : EventFilter T → K → Bool) (stream : StreamState T)
    {received : Received K} (isOpen : received ≠ .closed)
    : ∃ turned item, stream.turn matchesFilter received = some (turned, item) := by
  cases received with
  | event event =>
      simp only [StreamState.turn]
      split_ifs <;> simp
  | lagged dropped => exact ⟨_, _, rfl⟩
  | closed => exact absurd rfl isOpen

/-- Every step is one of the moves, by cases on the action. -/
theorem moves_of_step {action : ServerAction T K}
    (taken : state.step matchesFilter action = some next)
    : Moves matchesFilter state action next := by
  cases action with
  | publish kind => exact Option.some.inj taken ▸ .published kind
  | shutdown => exact Option.some.inj taken ▸ .shutdown
  | request query lastEventId =>
      obtain rfl := Option.some.inj taken
      unfold AppState.request
      cases query with
      | error message => exact .refused rfl rfl
      | ok query =>
          by_cases free : state.connectedClients < state.maxClients
          · simp only [free, if_true]
            exact .granted rfl free
          · simp only [free, if_false]
            exact .refused rfl rfl
  | validate index =>
      simp only [AppState.step] at taken
      split at taken
      · next client found =>
          split at taken
          · next query handled =>
              obtain rfl := Option.some.inj taken
              cases compiled : query.compile with
              | error message =>
                  simpa [AppState.validated, compiled]
                    using Moves.turned found (.invalid handled compiled)
              | ok filter =>
                  simpa [AppState.validated, compiled]
                    using Moves.turned found (.opened handled compiled)
          · exact absurd taken (by simp)
      · exact absurd taken (by simp)
  | receive index =>
      obtain ⟨client, stream, found, live, received⟩ := onStream_eq_some taken
      obtain ⟨⟨received, after⟩, gives, rfl⟩ := Option.map_eq_some_iff.mp received
      obtain ⟨turned, item, turns⟩ :=
        turn_isSome matchesFilter { stream with next := after } (received_ne_closed gives)
      simp only [turns]
      exact .turned found (.received live gives turns)
  | shutdownSeen index =>
      obtain ⟨client, stream, found, live, taken⟩ := onStream_eq_some taken
      split_ifs at taken with shutdown
      obtain rfl := Option.some.inj taken
      exact .turned found (.ended live)
  | dropped index =>
      obtain ⟨client, stream, found, live, taken⟩ := onStream_eq_some taken
      obtain rfl := Option.some.inj taken
      exact .turned found (.ended live)

end

/-- The filter that lets every event pass. -/
def matchesAll (_ : EventFilter Unit) (_ : Nat) : Bool := true

end Emwin.Live
