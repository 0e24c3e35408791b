import Emwin.Live.Server
import Emwin.Library.Floor

/-! Which events reach an SSE client. -/

namespace Emwin.Live
open Library

variable {T K : Type}

namespace Received

/-- How many published events a turn of the receiver moves over. -/
def span : Received K → Nat
  | .event _ => 1
  | .lagged dropped => dropped
  | .closed => 0

/-- Of the events ahead of the receiver, the one that the turn is about. -/
def reads (published : List (BroadcastEvent K)) : Received K → List (BroadcastEvent K)
  | .event _ => published.head?.toList
  | .lagged _ | .closed => []

end Received

/-- Of the events published since a subscription, those that the receiver has come to and has
not reported as lagged.
-/
def polled : List (BroadcastEvent K) → List (Received K) → List (BroadcastEvent K)
  | _, [] => []
  | published, first :: rest =>
      first.reads published ++ polled (published.drop first.span) rest

/-- How far some turns move the receiver. -/
def advance (received : List (Received K)) : Nat := (received.map Received.span).sum

/-- The number of an event, by which streams compare. -/
def BroadcastEvent.number (event : BroadcastEvent K) : Nat := event.id.toNat

def SseEvent.event? : SseEvent K → Option (BroadcastEvent K)
  | .event sent => some sent
  | .warning _ => none

/-- The events that a client was sent. -/
def Client.events (client : Client T K) : List (BroadcastEvent K) :=
  client.yielded.filterMap SseEvent.event?

-----------------------------------------------------------------------------------------
-- What a receiver comes to
-----------------------------------------------------------------------------------------

section
variable {published more : List (BroadcastEvent K)}

theorem advance_cons (first : Received K) (rest : List (Received K))
    : advance (first :: rest) = first.span + advance rest := by
  simp [advance]

theorem advance_concat (received : List (Received K)) (last : Received K)
    : advance (received ++ [last]) = advance received + last.span := by
  simp [advance]

theorem reads_append {turn : Received K} (inside : turn.span ≤ published.length)
    : turn.reads (published ++ more) = turn.reads published := by
  cases turn with
  | event found =>
      cases published with
      | nil => simp [Received.span] at inside
      | cons first rest => rfl
  | lagged dropped => rfl
  | closed => rfl

/-- What is published later does not matter, by induction on the turns. -/
theorem polled_append {received : List (Received K)}
    (inside : advance received ≤ published.length)
    : polled (published ++ more) received = polled published received := by
  induction received generalizing published with
  | nil => rfl
  | cons first rest ih =>
      rw [advance_cons] at inside
      have fits : first.span ≤ published.length := by omega
      rw [polled, polled, reads_append fits, List.drop_append_of_le_length fits, ih]
      rw [List.length_drop]
      omega

/-- One turn more, by induction on the turns before it. -/
theorem polled_concat (received : List (Received K)) (last : Received K)
    : polled published (received ++ [last])
      = polled published received ++ last.reads (published.drop (advance received)) := by
  induction received generalizing published with
  | nil => simp [polled, advance]
  | cons first rest ih =>
      rw [List.cons_append, polled, polled, ih, List.drop_drop, advance_cons, List.append_assoc]

end

-----------------------------------------------------------------------------------------
-- Streams
-----------------------------------------------------------------------------------------

section
variable {matchesFilter : EventFilter T → K → Bool} {state next : AppState T K}

/-- The events that the filter of a stream accepts. -/
def StreamState.accepts (matchesFilter : EventFilter T → K → Bool) (stream : StreamState T)
    (event : BroadcastEvent K)
    : Bool :=
  matchesFilter stream.filter event.kind

/-- How a stream stands to what was published since its subscription: the receiver's position,
the floor, and what the client was sent.
-/
structure Follows (matchesFilter : EventFilter T → K → Bool) (state : AppState T K)
    (client : Client T K) (stream : StreamState T)
    : Prop where
  position : stream.next = client.subscribed + advance client.received
  inside : stream.next ≤ state.sent.length
  floor
    : stream.lastId.toNat
      = floorAfter BroadcastEvent.number (stream.accepts matchesFilter)
          (lastId client.lastEventId).toNat
          (polled (state.sent.drop client.subscribed) client.received)
  events
    : client.events
      = passing BroadcastEvent.number (stream.accepts matchesFilter)
          (lastId client.lastEventId).toNat
          (polled (state.sent.drop client.subscribed) client.received)

/-- A client that has a stream follows what is published, and one that has none yet was sent
nothing.
-/
def Client.Follows (matchesFilter : EventFilter T → K → Bool) (state : AppState T K)
    (client : Client T K)
    : Prop :=
  match client.phase with
  | .handling _ =>
      client.subscribed ≤ state.sent.length ∧ client.received = [] ∧ client.yielded = []
  | .answered _ _ => True
  | .streaming stream | .ended stream => Live.Follows matchesFilter state client stream

/-- What a turn of the receiver gives: it moves on by its span, within what was sent. -/
theorem received_spec {position after : Nat} {received : Received K}
    (found : state.received position = some (received, after))
    : after = position + received.span
      ∧ after ≤ state.sent.length
      ∧ (∀ event, received = .event event →
          received.reads (state.sent.drop position) = [event]) := by
  unfold AppState.received at found
  split_ifs at found with lags
  · obtain ⟨rfl, rfl⟩ := Prod.mk.inj (Option.some.inj found)
    simp only [Received.span]
    refine ⟨by omega, by omega, by simp⟩
  · obtain ⟨event, there, same⟩ := Option.map_eq_some_iff.mp found
    obtain ⟨rfl, rfl⟩ := Prod.mk.inj same
    obtain ⟨less, -⟩ := List.getElem?_eq_some_iff.mp there
    refine ⟨rfl, less, ?_⟩
    rintro _ ⟨rfl⟩
    simp [Received.reads, List.head?_drop, there]

/-- A turn of the stream on an event: it passes above the floor if the filter accepts it. -/
theorem turn_event {stream turned : StreamState T} {event : BroadcastEvent K}
    {item : Option (SseEvent K)}
    (turns : stream.turn matchesFilter (.event event) = some (turned, item))
    : turned.next = stream.next
      ∧ turned.filter = stream.filter
      ∧ turned.lastId.toNat
        = (if decide (stream.lastId.toNat < event.number) && stream.accepts matchesFilter event
          then event.number else stream.lastId.toNat)
      ∧ item.toList.filterMap SseEvent.event?
        = if decide (stream.lastId.toNat < event.number) && stream.accepts matchesFilter event
          then [event] else [] := by
  unfold StreamState.accepts
  simp only [StreamState.turn] at turns
  split_ifs at turns with low rejected
  · obtain ⟨rfl, rfl⟩ := Prod.mk.inj (Option.some.inj turns)
    have below : ¬ stream.lastId.toNat < event.number := not_lt.mpr (UInt64.le_iff_toNat_le.mp low)
    simp [below]
  · obtain ⟨rfl, rfl⟩ := Prod.mk.inj (Option.some.inj turns)
    have silent : matchesFilter stream.filter event.kind = false := by simpa using rejected
    simp [silent]
  · obtain ⟨rfl, rfl⟩ := Prod.mk.inj (Option.some.inj turns)
    have above : stream.lastId.toNat < event.number := by
      rwa [UInt64.le_iff_toNat_le, not_le] at low
    have accepted : matchesFilter stream.filter event.kind = true := by simpa using rejected
    refine ⟨rfl, rfl, ?_, ?_⟩
    · rw [if_pos (by simp [above, accepted])]
      rfl
    · rw [if_pos (by simp [above, accepted])]
      rfl

variable {client : Client T K} {stream : StreamState T}

/-- The receiver has not moved beyond what was published since the subscription. -/
theorem Follows.advance_le (follows : Live.Follows matchesFilter state client stream)
    : advance client.received ≤ (state.sent.drop client.subscribed).length := by
  have position := follows.position
  have inside := follows.inside
  rw [List.length_drop]
  omega

theorem Follows.publish (follows : Live.Follows matchesFilter state client stream) (kind : K)
    : Live.Follows matchesFilter (state.publish kind) client stream := by
  have position := follows.position
  have inside := follows.inside
  have same : polled ((state.publish kind).sent.drop client.subscribed) client.received
      = polled (state.sent.drop client.subscribed) client.received := by
    unfold AppState.publish
    rw [List.drop_append_of_le_length (by omega), polled_append follows.advance_le]
  refine ⟨position, ?_, ?_, ?_⟩
  · simp only [AppState.publish, List.length_append, List.length_singleton]
    omega
  · rw [same]
    exact follows.floor
  · rw [same]
    exact follows.events

/-- A stream follows through every turn, by cases on what its receiver gives. -/
theorem Follows.receive (follows : Live.Follows matchesFilter state client stream)
    {received : Received K} {after : Nat} {turned : StreamState T} {item : Option (SseEvent K)}
    (found : state.received stream.next = some (received, after))
    (turns : { stream with next := after }.turn matchesFilter received = some (turned, item))
    : Live.Follows matchesFilter state
        { client with
          phase := .streaming turned
          received := client.received ++ [received]
          yielded := client.yielded ++ item.toList }
        turned := by
  obtain ⟨moved, inside, reads⟩ := received_spec found
  have ahead : (state.sent.drop client.subscribed).drop (advance client.received)
      = state.sent.drop stream.next := by
    rw [List.drop_drop, follows.position]
  have position : after = client.subscribed + advance (client.received ++ [received]) := by
    rw [moved, follows.position, advance_concat, Nat.add_assoc]
  have grown : polled (state.sent.drop client.subscribed) (client.received ++ [received])
      = polled (state.sent.drop client.subscribed) client.received
        ++ received.reads (state.sent.drop stream.next) := by
    rw [polled_concat, ahead]
  cases received with
  | event event =>
      obtain ⟨next, filter, floor, items⟩ := turn_event turns
      have accepts : turned.accepts matchesFilter = stream.accepts matchesFilter := by
        funext event
        rw [StreamState.accepts, filter, StreamState.accepts]
      rw [reads event rfl] at grown
      refine ⟨next.trans position, next.trans_le inside, ?_, ?_⟩
      · rw [floor, accepts, grown, floorAfter_concat, ← follows.floor]
        rfl
      · rw [Client.events, List.filterMap_append, items, accepts, grown, passing_concat,
          ← follows.floor, ← follows.events]
        rfl
  | lagged dropped =>
      obtain ⟨rfl, rfl⟩ := Prod.mk.inj (Option.some.inj turns)
      rw [Received.reads, List.append_nil] at grown
      refine ⟨position, inside, ?_, ?_⟩
      · rw [grown]
        exact follows.floor
      · rw [grown, Client.events, List.filterMap_append]
        exact (List.append_nil client.events).trans follows.events
  | closed => exact absurd rfl (received_ne_closed found)

theorem Client.Follows.of_sent {client : Client T K} (follows : client.Follows matchesFilter state)
    (same : next.sent = state.sent)
    : client.Follows matchesFilter next := by
  unfold Client.Follows at follows ⊢
  cases phase : client.phase with
  | handling query => simpa [phase, same] using follows
  | answered status message => trivial
  | streaming stream =>
      simp only [phase] at follows
      exact ⟨follows.position, same ▸ follows.inside, same ▸ follows.floor, same ▸ follows.events⟩
  | ended stream =>
      simp only [phase] at follows
      exact ⟨follows.position, same ▸ follows.inside, same ▸ follows.floor, same ▸ follows.events⟩

/-- Every client follows through every move, by cases on the move. -/
theorem follows_move {action : ServerAction T K}
    (before : ∀ client ∈ state.clients, client.Follows matchesFilter state)
    (move : Moves matchesFilter state action next)
    : ∀ client ∈ next.clients, client.Follows matchesFilter next := by
  cases move with
  | published kind =>
      intro client member
      have follows := before client member
      unfold Client.Follows at follows ⊢
      cases phase : client.phase with
      | handling query =>
          simp only [phase] at follows
          refine ⟨?_, follows.2⟩
          simp only [AppState.publish, List.length_append, List.length_singleton]
          omega
      | answered status message => trivial
      | streaming stream =>
          simp only [phase] at follows
          exact follows.publish kind
      | ended stream =>
          simp only [phase] at follows
          exact follows.publish kind
  | shutdown => exact fun client member => (before client member).of_sent rfl
  | @refused client status message slotless answer =>
      intro other member
      rcases List.mem_append.mp member with earlier | new
      · exact (before other earlier).of_sent rfl
      · obtain rfl := List.mem_singleton.mp new
        simp [Client.Follows, answer]
  | granted asked free =>
      intro other member
      rcases List.mem_append.mp member with earlier | new
      · exact (before other earlier).of_sent rfl
      · obtain rfl := List.mem_singleton.mp new
        exact ⟨le_rfl, rfl, rfl⟩
  | @turned index client connectedClients after found turns =>
      intro other member
      rcases List.mem_or_eq_of_mem_set member with earlier | rfl
      · exact (before other earlier).of_sent rfl
      · have follows := before client (List.mem_of_getElem? found)
        suffices kept : other.Follows matchesFilter state from kept.of_sent rfl
        unfold Client.Follows at follows
        cases turns with
        | invalid handled error => trivial
        | opened handled valid =>
            simp only [handled] at follows
            obtain ⟨inside, received, yielded⟩ := follows
            constructor
            · simp [received, advance]
            · exact inside
            · simp [received, polled, floorAfter]
            · simp [Client.events, received, yielded, polled, passing]
        | received live found turns =>
            simp only [live] at follows
            exact follows.receive found turns
        | ended live =>
            simp only [live] at follows
            exact ⟨follows.position, follows.inside, follows.floor, follows.events⟩

end

-----------------------------------------------------------------------------------------
-- Delivery
-----------------------------------------------------------------------------------------

section
variable {matchesFilter : EventFilter T → K → Bool} {state : AppState T K}
  {client : Client T K} {stream : StreamState T}

/-- The stream of a request, live or ended. -/
def Phase.stream? : Phase T → Option (StreamState T)
  | .streaming stream | .ended stream => some stream
  | .handling _ | .answered _ _ => none

theorem reachable_follows (run : (serverMachine matchesFilter).Reachable state)
    (member : client ∈ state.clients) (opened : client.phase.stream? = some stream)
    : Live.Follows matchesFilter state client stream := by
  have follows : ∀ client ∈ state.clients, client.Follows matchesFilter state := by
    refine run.invariant
      (motive := fun state => ∀ client ∈ state.clients, client.Follows matchesFilter state) ?_ ?_
    · rintro _ ⟨maxClients, rfl⟩
      simp [AppState.start]
    · intro state action next before _ taken
      exact follows_move before (moves_of_step taken)
  have own := follows client member
  unfold Client.Follows at own
  cases phase : client.phase with
  | handling query => simp [phase, Phase.stream?] at opened
  | answered status message => simp [phase, Phase.stream?] at opened
  | streaming live =>
      simp only [phase] at own
      obtain rfl : live = stream := by simpa [phase, Phase.stream?] using opened
      exact own
  | ended last =>
      simp only [phase] at own
      obtain rfl : last = stream := by simpa [phase, Phase.stream?] using opened
      exact own

/-- The events published since the client subscribed that its receiver has come to, has not
reported as lagged, and that match the filter.
-/
def due (matchesFilter : EventFilter T → K → Bool) (state : AppState T K) (client : Client T K)
    (stream : StreamState T)
    : List (BroadcastEvent K) :=
  (polled (state.sent.drop client.subscribed) client.received).filter
    fun event => matchesFilter stream.filter event.kind

/-- The client received exactly the events due, in order, with increasing ids. -/
structure DeliversAll (matchesFilter : EventFilter T → K → Bool) (state : AppState T K)
    (client : Client T K) (stream : StreamState T)
    : Prop where
  complete : client.events = due matchesFilter state client stream
  increasing : (client.events.map BroadcastEvent.id).Pairwise (· < ·)

/-- The id that the client named, or zero, is below the ids of the events due, and these
increase.
-/
def FloorBelow (matchesFilter : EventFilter T → K → Bool) (state : AppState T K)
    (client : Client T K) (stream : StreamState T)
    : Prop :=
  (lastId client.lastEventId :: (due matchesFilter state client stream).map
    BroadcastEvent.id).Pairwise (· < ·)

/-- In every state of every run a client has received every event due exactly if the id that
it named is below theirs.
-/
theorem delivers_all_iff (run : (serverMachine matchesFilter).Reachable state)
    (member : client ∈ state.clients) (opened : client.phase.stream? = some stream)
    : DeliversAll matchesFilter state client stream
      ↔ FloorBelow matchesFilter state client stream := by
  have follows := reachable_follows run member opened
  have complete : client.events = due matchesFilter state client stream
      ↔ ((lastId client.lastEventId).toNat
        :: (due matchesFilter state client stream).map BroadcastEvent.number).Pairwise
          (· < ·) := by
    rw [follows.events]
    exact passing_eq_filter_iff _ _
  have above : ((lastId client.lastEventId).toNat
      :: client.events.map BroadcastEvent.number).Pairwise (· < ·) := by
    rw [follows.events]
    exact passing_increasing _ _
  have numbers : FloorBelow matchesFilter state client stream
      ↔ ((lastId client.lastEventId).toNat
        :: (due matchesFilter state client stream).map BroadcastEvent.number).Pairwise
          (· < ·) := by
    simp only [FloorBelow, List.pairwise_cons, List.pairwise_map, List.forall_mem_map,
      UInt64.lt_iff_toNat_lt, BroadcastEvent.number]
  constructor
  · intro delivers
    exact numbers.mpr (complete.mp delivers.complete)
  · intro below
    refine ⟨complete.mpr (numbers.mp below), ?_⟩
    have increasing := (List.pairwise_cons.mp above).2
    simpa only [List.pairwise_map, UInt64.lt_iff_toNat_lt, BroadcastEvent.number] using increasing

-----------------------------------------------------------------------------------------
-- Clients of the same process
-----------------------------------------------------------------------------------------

/-- Events are numbered from one, modulo the size of the counter. -/
structure Numbered (state : AppState T K) : Prop where
  next : state.nextEventId.toNat = (state.sent.length + 1) % 2 ^ 64
  ids
    : ∀ position event,
        state.sent[position]? = some event → event.number = (position + 1) % 2 ^ 64

theorem reachable_numbered (run : (serverMachine matchesFilter).Reachable state)
    : Numbered state := by
  refine run.invariant ?_ ?_
  · rintro _ ⟨maxClients, rfl⟩
    exact ⟨rfl, by simp [AppState.start]⟩
  · intro state action next before _ taken
    cases moves_of_step taken with
    | published kind =>
        refine ⟨?_, ?_⟩
        · simp only [AppState.publish, UInt64.toNat_add, before.next, List.length_append,
            List.length_singleton]
          exact Nat.mod_add_mod _ _ _
        · intro position event found
          rcases lt_or_ge position state.sent.length with earlier | last
          · refine before.ids position event ?_
            rwa [AppState.publish, List.getElem?_append_left earlier] at found
          · rw [AppState.publish, List.getElem?_append_right last] at found
            rw [List.getElem?_singleton] at found
            split_ifs at found with zero
            obtain rfl := Option.some.inj found
            have same : position = state.sent.length := by omega
            rw [same]
            exact before.next
    | shutdown => exact ⟨before.next, before.ids⟩
    | refused slotless answer => exact ⟨before.next, before.ids⟩
    | granted asked free => exact ⟨before.next, before.ids⟩
    | turned found turns => exact ⟨before.next, before.ids⟩

/-- What the receiver comes to is part of what was published, by induction on the turns. -/
theorem polled_sublist (published : List (BroadcastEvent K)) (received : List (Received K))
    : (polled published received).Sublist published := by
  induction received generalizing published with
  | nil => exact List.nil_sublist published
  | cons first rest ih =>
      have later := ih (published.drop first.span)
      cases first with
      | event found =>
          cases published with
          | nil => exact later
          | cons next ahead => exact later.cons_cons next
      | lagged dropped => exact later.trans (List.drop_sublist dropped published)
      | closed => exact later

/-- A client that names an id which this process has given to an event, or none, misses
nothing as long as the counter has not wrapped.
-/
theorem floorBelow_of_issued (run : (serverMachine matchesFilter).Reachable state)
    (fits : state.sent.length < 2 ^ 64 - 1)
    (issued : (lastId client.lastEventId).toNat ≤ client.subscribed)
    : FloorBelow matchesFilter state client stream := by
  have numbered := reachable_numbered run
  have number {position : Nat} {event : BroadcastEvent K}
      (found : state.sent[position]? = some event)
      : event.number = position + 1 := by
    obtain ⟨inside, -⟩ := List.getElem?_eq_some_iff.mp found
    rw [numbered.ids position event found]
    exact Nat.mod_eq_of_lt (by omega)
  have all : (lastId client.lastEventId
      :: (state.sent.drop client.subscribed).map BroadcastEvent.id).Pairwise (· < ·) := by
    refine List.pairwise_cons.mpr ⟨?_, ?_⟩
    · intro id member
      obtain ⟨event, there, rfl⟩ := List.mem_map.mp member
      obtain ⟨position, found⟩ := List.mem_iff_getElem?.mp there
      rw [List.getElem?_drop] at found
      have above := number found
      rw [UInt64.lt_iff_toNat_lt]
      change _ < event.number
      omega
    · rw [List.pairwise_map, List.pairwise_iff_getElem]
      intro first second firstInside secondInside less
      have firstNumber := number (List.getElem?_drop ▸ List.getElem?_eq_getElem firstInside)
      have secondNumber := number (List.getElem?_drop ▸ List.getElem?_eq_getElem secondInside)
      rw [UInt64.lt_iff_toNat_lt]
      change BroadcastEvent.number _ < BroadcastEvent.number _
      omega
  refine all.sublist (List.Sublist.cons_cons _ (List.Sublist.map _ ?_))
  exact List.filter_sublist.trans (polled_sublist _ _)

end

/-- The filter of a query without parameters. -/
def openFilter : EventFilter Unit := ⟨(), none, none, ⟨none, none⟩⟩

/-- A client that names the id of the event before it subscribed. -/
def clientResumes : List (ServerAction Unit Nat) :=
  [.publish 10, .request (.ok { others := () }) (some [0x31]), .validate 0, .publish 11,
    .receive 0]

def resumedClient : Client Unit Nat where
  lastEventId := some [0x31]
  tookSlot := true
  subscribed := 1
  phase := .streaming ⟨2, 2, openFilter⟩
  received := [.event ⟨2, 11⟩]
  yielded := [.event ⟨2, 11⟩]

theorem delivers_all_when_resumed
    : ∃ state : AppState Unit Nat,
        (serverMachine matchesAll).Reachable state
        ∧ resumedClient ∈ state.clients
        ∧ DeliversAll matchesAll state resumedClient ⟨2, 2, openFilter⟩ := by
  have computed : ((serverMachine matchesAll).takes (.start 1) clientResumes).map
      (fun state => (state.sent.length, state.clients))
      = some (2, [resumedClient]) := by
    decide +kernel
  obtain ⟨state, taken, seen⟩ := Option.map_eq_some_iff.mp computed
  obtain ⟨length, clients⟩ := Prod.mk.inj seen
  have run : (serverMachine matchesAll).Reachable state :=
    .takes (.start ⟨1, rfl⟩) (by simp) taken
  have member : resumedClient ∈ state.clients := by simp [clients]
  refine ⟨state, run, member, ?_⟩
  refine (delivers_all_iff run member rfl).mpr (floorBelow_of_issued run ?_ ?_)
  · rw [length]
    decide
  · decide +kernel

/-- A client that comes back to a restarted server with the id of an event before the restart. -/
def clientOutlivesServer : List (ServerAction Unit Nat) :=
  [.request (.ok { others := () }) (some [0x35]), .validate 0, .publish 10, .receive 0]

def outlivingClient : Client Unit Nat where
  lastEventId := some [0x35]
  tookSlot := true
  subscribed := 0
  phase := .streaming ⟨1, 5, openFilter⟩
  received := [.event ⟨1, 10⟩]
  yielded := []

theorem event_missed_after_restart
    : ∃ state : AppState Unit Nat,
        (serverMachine matchesAll).Reachable state
        ∧ outlivingClient ∈ state.clients
        ∧ due matchesAll state outlivingClient ⟨1, 5, openFilter⟩ = [⟨1, 10⟩]
        ∧ ¬ DeliversAll matchesAll state outlivingClient ⟨1, 5, openFilter⟩ := by
  have computed : ((serverMachine matchesAll).takes (.start 1) clientOutlivesServer).map
      (fun state => (state.sent, state.clients))
      = some ([⟨1, 10⟩], [outlivingClient]) := by
    decide +kernel
  obtain ⟨state, taken, seen⟩ := Option.map_eq_some_iff.mp computed
  obtain ⟨sent, clients⟩ := Prod.mk.inj seen
  have missed : due matchesAll state outlivingClient ⟨1, 5, openFilter⟩ = [⟨1, 10⟩] := by
    rw [due, sent]
    rfl
  refine ⟨state, .takes (.start ⟨1, rfl⟩) (by simp) taken, by simp [clients], missed, ?_⟩
  intro delivers
  have complete : [] = [(⟨1, 10⟩ : BroadcastEvent Nat)] := delivers.complete.trans missed
  simp at complete

end Emwin.Live
