import Emwin.Live.Server
import Emwin.Library.Slots

/-! Slots of the SSE clients: who holds one, and when none is lost. -/

namespace Emwin.Live
open Library

variable {T K : Type}

namespace Client

def isHandling (client : Client T K) : Bool := client.phase matches .handling _

def isLive (client : Client T K) : Bool := client.phase matches .streaming _

def isEnded (client : Client T K) : Bool := client.phase matches .ended _

/-- A request that took a slot holds it until its stream is dropped. -/
def holdsSlot (client : Client T K) : Bool := client.tookSlot && !client.isEnded

/-- A request that took a slot and was answered with an error. -/
def leaks (client : Client T K) : Bool :=
  client.tookSlot && client.phase matches .answered _ _

end Client

namespace AppState

/-- Number of live SSE streams. -/
def liveStreams (state : AppState T K) : Nat := state.clients.countP Client.isLive

/-- Number of requests between taking a slot and their answer. -/
def inHandler (state : AppState T K) : Nat := state.clients.countP Client.isHandling

/-- Number of slots that no stream will release. -/
def leaked (state : AppState T K) : Nat := state.clients.countP Client.leaks

end AppState

/-- The counter agrees with the slots held, the slots fit the limit, and every request but
those answered at once took one.
-/
structure SlotsCounted (state : AppState T K) : Prop where
  counted : state.connectedClients.toNat = state.clients.countP Client.holdsSlot
  bounded : state.clients.countP Client.holdsSlot ≤ state.maxClients.toNat
  served
    : ∀ client ∈ state.clients,
        client.isHandling = true ∨ client.isLive = true → client.tookSlot = true

-----------------------------------------------------------------------------------------
-- One step
-----------------------------------------------------------------------------------------

section
variable {matchesFilter : EventFilter T → K → Bool} {state next : AppState T K}
  {action : ServerAction T K} {client after : Client T K} {connectedClients : UInt64}

/-- A turn of a client releases its slot with the counter, or changes neither. -/
theorem Turns.slots (turns : Turns matchesFilter state client connectedClients after)
    (served : client.isHandling = true ∨ client.isLive = true → client.tookSlot = true)
    : after.tookSlot = client.tookSlot
      ∧ (connectedClients = state.connectedClients ∧ after.holdsSlot = client.holdsSlot
        ∨ connectedClients = state.connectedClients - 1
          ∧ client.holdsSlot = true
          ∧ after.holdsSlot = false) := by
  cases turns with
  | invalid handled error =>
      exact ⟨rfl, .inl ⟨rfl, by simp [Client.holdsSlot, Client.isEnded, handled]⟩⟩
  | opened handled valid =>
      exact ⟨rfl, .inl ⟨rfl, by simp [Client.holdsSlot, Client.isEnded, handled]⟩⟩
  | received live found turns =>
      exact ⟨rfl, .inl ⟨rfl, by simp [Client.holdsSlot, Client.isEnded, live]⟩⟩
  | ended live =>
      have took := served (.inr (by simp [Client.isLive, live]))
      refine ⟨rfl, .inr ⟨rfl, ?_, ?_⟩⟩
      · simp [Client.holdsSlot, Client.isEnded, took, live]
      · simp [Client.holdsSlot, Client.isEnded]

/-- A client serves after a turn only if it did before. -/
theorem Turns.serves (turns : Turns matchesFilter state client connectedClients after)
    : client.isHandling = true ∨ client.isLive = true := by
  cases turns with
  | invalid handled error => exact .inl (by simp [Client.isHandling, handled])
  | opened handled valid => exact .inl (by simp [Client.isHandling, handled])
  | received live found turns => exact .inr (by simp [Client.isLive, live])
  | ended live => exact .inr (by simp [Client.isLive, live])

/-- Every move keeps counter and slots together, by cases on the move. -/
theorem SlotsCounted.move (before : SlotsCounted state)
    (move : Moves matchesFilter state action next)
    : SlotsCounted next := by
  cases move with
  | published kind => exact ⟨before.counted, before.bounded, before.served⟩
  | shutdown => exact ⟨before.counted, before.bounded, before.served⟩
  | @refused client status message slotless answer =>
      have holds : client.holdsSlot = false := by simp [Client.holdsSlot, slotless]
      refine ⟨?_, ?_, ?_⟩
      · simpa [holds] using before.counted
      · simpa [holds] using before.bounded
      · intro other member serves
        rcases List.mem_append.mp member with earlier | new
        · exact before.served other earlier serves
        · obtain rfl := List.mem_singleton.mp new
          simp [Client.isHandling, Client.isLive, answer] at serves
  | granted asked free =>
      obtain ⟨counted, bounded⟩ := counted_succ before.counted free
      refine ⟨?_, ?_, ?_⟩
      · simpa [Client.holdsSlot, Client.isEnded] using counted
      · simpa [Client.holdsSlot, Client.isEnded] using bounded
      · intro other member serves
        rcases List.mem_append.mp member with earlier | new
        · exact before.served other earlier serves
        · obtain rfl := List.mem_singleton.mp new
          rfl
  | @turned index client connectedClients after found turns =>
      have served := before.served client (List.mem_of_getElem? found)
      obtain ⟨took, slots⟩ := turns.slots served
      have stillServed : ∀ other ∈ state.clients.set index after,
          other.isHandling = true ∨ other.isLive = true → other.tookSlot = true := by
        intro other member serves
        rcases List.mem_or_eq_of_mem_set member with earlier | rfl
        · exact before.served other earlier serves
        · rw [took]
          exact served turns.serves
      rcases slots with ⟨rfl, same⟩ | ⟨rfl, held, released⟩
      · have count := countP_set_same found same
        exact ⟨before.counted.trans count.symm, count.trans_le before.bounded, stillServed⟩
      · have count := countP_set_released found held released
        refine ⟨counted_pred (before.counted.trans count.symm), ?_, stillServed⟩
        exact Nat.le_of_succ_le (count.trans_le before.bounded)

/-- The slots by what became of their requests, by induction on the requests. -/
theorem countP_holdsSlot {clients : List (Client T K)}
    (served
      : ∀ client ∈ clients,
          client.isHandling = true ∨ client.isLive = true → client.tookSlot = true)
    : clients.countP Client.holdsSlot
      = clients.countP Client.isLive + clients.countP Client.isHandling
        + clients.countP Client.leaks := by
  induction clients with
  | nil => rfl
  | cons client rest ih =>
      have counts := ih fun other member => served other (by simp [member])
      have took := served client (by simp)
      simp only [List.countP_cons, counts]
      have one : (if client.holdsSlot then 1 else 0)
          = (if client.isLive then 1 else 0) + (if client.isHandling then 1 else 0)
            + (if client.leaks then 1 else 0) := by
        cases slot : client.tookSlot <;> cases phase : client.phase <;>
          simp_all [Client.holdsSlot, Client.isLive, Client.isHandling, Client.isEnded,
            Client.leaks]
      omega

end

-----------------------------------------------------------------------------------------
-- Whole runs
-----------------------------------------------------------------------------------------

section
variable {matchesFilter : EventFilter T → K → Bool} {state : AppState T K}

theorem reachable_slotsCounted (run : (serverMachine matchesFilter).Reachable state)
    : SlotsCounted state := by
  refine run.invariant ?_ ?_
  · rintro _ ⟨maxClients, rfl⟩
    exact ⟨rfl, Nat.zero_le _, by simp [AppState.start]⟩
  · intro state action next counted _ taken
    exact counted.move (moves_of_step taken)

/-- In every run the counter is the number of live streams, of requests being handled, and of
requests that took a slot and were answered with an error.
-/
theorem connected_eq (run : (serverMachine matchesFilter).Reachable state)
    : state.connectedClients.toNat = state.liveStreams + state.inHandler + state.leaked
      ∧ state.connectedClients ≤ state.maxClients := by
  have slots := reachable_slotsCounted run
  refine ⟨slots.counted.trans (countP_holdsSlot slots.served), ?_⟩
  rw [UInt64.le_iff_toNat_le, slots.counted]
  exact slots.bounded

/-- Every request that gets a slot has a valid query. -/
def GrantedWhenValid (state : AppState T K) (action : ServerAction T K) : Prop :=
  ∀ query lastEventId,
    action = .request (.ok query) lastEventId
    → state.connectedClients < state.maxClients
    → query.Valid

/-- The queries being handled are valid, and an error leaves no slot behind. -/
def Client.Orderly (client : Client T K) : Prop :=
  (∀ query, client.phase = .handling query → query.Valid) ∧ client.leaks = false

theorem orderly_move {action : ServerAction T K} {next : AppState T K}
    (before : ∀ client ∈ state.clients, client.Orderly)
    (granted : GrantedWhenValid state action) (move : Moves matchesFilter state action next)
    : ∀ client ∈ next.clients, client.Orderly := by
  cases move with
  | published kind => exact before
  | shutdown => exact before
  | @refused client status message slotless answer =>
      intro other member
      rcases List.mem_append.mp member with earlier | new
      · exact before other earlier
      · obtain rfl := List.mem_singleton.mp new
        exact ⟨by simp [answer], by simp [Client.leaks, slotless]⟩
  | @granted query lastEventId asked free =>
      intro other member
      rcases List.mem_append.mp member with earlier | new
      · exact before other earlier
      · obtain rfl := List.mem_singleton.mp new
        refine ⟨?_, by simp [Client.leaks]⟩
        rintro _ ⟨rfl⟩
        exact granted query lastEventId asked free
  | @turned index client connectedClients after found turns =>
      intro other member
      rcases List.mem_or_eq_of_mem_set member with earlier | rfl
      · exact before other earlier
      · cases turns with
        | @invalid query message handled error =>
            have valid := (before client (List.mem_of_getElem? found)).1 query handled
            obtain ⟨filter, ok⟩ := compile_ok_iff.mpr valid
            rw [error] at ok
            exact absurd ok (by simp)
        | opened handled valid => exact ⟨by simp, by simp [Client.leaks]⟩
        | received live found turns => exact ⟨by simp, by simp [Client.leaks]⟩
        | ended live => exact ⟨by simp, by simp [Client.leaks]⟩

/-- The counter is the number of live streams, with the requests that are being handled, and
within the limit; a request that was answered with an error did not change it.
-/
structure SlotsConserved (state : AppState T K) : Prop where
  counted : state.connectedClients.toNat = state.liveStreams + state.inHandler
  settled : state.inHandler = 0 → state.connectedClients.toNat = state.liveStreams
  bounded : state.connectedClients ≤ state.maxClients
  refused
    : ∀ client ∈ state.clients,
        ∀ status message,
          client.phase = .answered status message → client.tookSlot = false

/-- No slot is lost in a run in which every request that gets one has a valid query. -/
theorem slots_conserved (run : (serverMachine matchesFilter).Reaches GrantedWhenValid state)
    : SlotsConserved state := by
  have orderly : ∀ client ∈ state.clients, client.Orderly := by
    refine run.invariant (motive := fun state => ∀ client ∈ state.clients, client.Orderly) ?_ ?_
    · rintro _ ⟨maxClients, rfl⟩
      simp [AppState.start]
    · intro state action next before granted taken
      exact orderly_move before granted (moves_of_step taken)
  obtain ⟨total, bounded⟩ := connected_eq run.reachable
  have none : state.leaked = 0 := by
    refine List.countP_eq_zero.mpr ?_
    intro client member
    simp [(orderly client member).2]
  have counted : state.connectedClients.toNat = state.liveStreams + state.inHandler := by
    rw [total, none, Nat.add_zero]
  refine ⟨counted, ?_, bounded, ?_⟩
  · intro idle
    rw [counted, idle, Nat.add_zero]
  · intro client member status message answered
    simpa [Client.leaks, answered] using (orderly client member).2

end

/-- The only slot is taken by a client that goes away, and then by another one. -/
def clientReturns : List (ServerAction Unit Nat) :=
  [.request (.ok { others := () }) none, .validate 0, .request (.ok { others := () }) none,
    .dropped 0, .request (.ok { others := () }) none, .validate 2]

theorem slots_conserved_after_return
    : ∃ state : AppState Unit Nat,
        (serverMachine matchesAll).Reaches GrantedWhenValid state
        ∧ state.liveStreams = 1
        ∧ state.clients.map Client.tookSlot = [true, false, true]
        ∧ SlotsConserved state := by
  have computed : ((serverMachine matchesAll).takes (.start 1) clientReturns).map
      (fun state => (state.liveStreams, state.clients.map Client.tookSlot))
      = some (1, [true, false, true]) := by
    decide +kernel
  obtain ⟨state, taken, seen⟩ := Option.map_eq_some_iff.mp computed
  have run : (serverMachine matchesAll).Reaches GrantedWhenValid state := by
    refine .takes (.start ⟨1, rfl⟩) ?_ taken
    rintro state label member query lastEventId rfl -
    obtain ⟨blank, -⟩ : query = { others := () } ∧ lastEventId = none := by
      simpa [clientReturns] using member
    exact compile_ok_iff.mp ⟨_, by rw [blank]; rfl⟩
  obtain ⟨live, took⟩ := Prod.mk.inj seen
  exact ⟨state, run, live, took, slots_conserved run⟩

/-- One request whose sizes cross uses up the only slot for good. -/
def sizesCrossed : List (ServerAction Unit Nat) :=
  [.request (.ok { others := (), minSize := some 2, maxSize := some 1 }) none, .validate 0,
    .request (.ok { others := () }) none]

theorem slot_lost_to_invalid_query
    : ∃ state : AppState Unit Nat,
        (serverMachine matchesAll).Reachable state
        ∧ state.clients.map Client.phase
          = [.answered .badRequest sizesMessage,
            .answered .tooManyRequests "client limit reached".toList]
        ∧ state.liveStreams = 0
        ∧ state.connectedClients = 1 := by
  have computed : ((serverMachine matchesAll).takes (.start 1) sizesCrossed).map
      (fun state => (state.clients.map Client.phase, state.liveStreams, state.connectedClients))
      = some ([.answered .badRequest sizesMessage,
          .answered .tooManyRequests "client limit reached".toList], 0, 1) := by
    decide +kernel
  obtain ⟨state, taken, seen⟩ := Option.map_eq_some_iff.mp computed
  obtain ⟨phases, live, connected⟩ : _ ∧ _ ∧ _ := by simpa using seen
  exact ⟨state, .takes (.start ⟨1, rfl⟩) (by simp) taken, phases, live, connected⟩

end Emwin.Live
