import Mathlib.Data.Char
import Mathlib.Data.List.Lex
import Emwin.Library.Shuffle
import Emwin.Qbt.Protocol.Model

/-! The client's server list: which endpoints are known and which are still available. -/

namespace Emwin.Qbt
open Library

inductive QbtReceiverConfigError where
  | emptyEmail
  | noServers
  deriving DecidableEq, Repr

inductive QbtReceiverError where
  | config (error : QbtReceiverConfigError)
  | protocol (error : QbtProtocolError)
  | io (reason : Text)
  | lifecycle (reason : Text)
  deriving DecidableEq, Repr

/-- A server list as it is stored on disk. -/
structure PersistedServerList where
  servers : List Endpoint
  satServers : List Endpoint
  version : Text
  deriving DecidableEq, Repr

/-- Endpoints are sorted by host, then by port. -/
def endpointLe (left right : Endpoint) : Prop :=
  left.1 < right.1 ∨ left.1 = right.1 ∧ left.2 ≤ right.2

instance : DecidableRel endpointLe := fun left right =>
  inferInstanceAs (Decidable (left.1 < right.1 ∨ left.1 = right.1 ∧ left.2 ≤ right.2))

instance : Std.Total endpointLe where
  total left right := by
    rcases lt_trichotomy (α := List Char) left.1 right.1 with before | same | after
    · exact .inl (.inl before)
    · rcases UInt16.le_total left.2 right.2 with le | ge
      · exact .inl (.inr ⟨same, le⟩)
      · exact .inr (.inr ⟨same.symm, ge⟩)
    · exact .inr (.inl after)

instance : IsTrans Endpoint endpointLe where
  trans left middle right first second := by
    rcases first with before | ⟨same, le⟩
    · rcases second with later | ⟨same, -⟩
      · exact .inl (List.lt_trans before later)
      · exact .inl (same ▸ before)
    · rcases second with later | ⟨again, more⟩
      · exact .inl (same ▸ later)
      · exact .inr ⟨same.trans again, UInt16.le_trans le more⟩

instance : Std.Antisymm endpointLe where
  antisymm left right first second := by
    rcases first with before | ⟨same, le⟩
    · rcases second with after | ⟨same, -⟩
      · exact absurd after (List.lt_asymm before)
      · exact absurd (same ▸ before) (List.lt_irrefl left.1)
    · rcases second with after | ⟨-, ge⟩
      · exact absurd (same ▸ after) (List.lt_irrefl right.1)
      · exact Prod.ext same (UInt16.le_antisymm le ge)

def sortDedupEndpoints (endpoints : List Endpoint) : List Endpoint :=
  sortDedup endpointLe endpoints

/-- One turn of the xorshift generator. -/
def xorshift (state : UInt64) : UInt64 :=
  let state := state ^^^ (state <<< 13)
  let state := state ^^^ (state >>> 7)
  state ^^^ (state <<< 17)

/-- Shuffle a list that has something to shuffle, and step the nonce. -/
def shuffleEndpoints (nonce : UInt64) (endpoints : List Endpoint) : List Endpoint × UInt64 :=
  if endpoints.length < 2 then (endpoints, nonce)
  else
    let nonce := nonce + 0x9E3779B97F4A7C15
    let state := nonce ^^^ UInt64.ofNat endpoints.length
    (shuffleDown xorshift UInt64.toNat (endpoints.length - 1) state endpoints, nonce)

theorem shuffleEndpoints_perm (nonce : UInt64) (endpoints : List Endpoint)
    : (shuffleEndpoints nonce endpoints).1.Perm endpoints := by
  unfold shuffleEndpoints
  split
  · exact .rfl
  · exact shuffleDown_perm _ _ _ _ _

structure ServerListManager where
  path : Option Text
  current : QbtServerList
  primaryAvailable : List Endpoint
  satelliteAvailable : List Endpoint
  shuffleNonce : UInt64
  deriving DecidableEq, Repr

namespace ServerListManager

/-- Make every endpoint of the current list available again; `seed` is fresh entropy. -/
def rebuildAvailable (seed : UInt64) (manager : ServerListManager) : ServerListManager :=
  let nonce := manager.shuffleNonce ^^^ seed
  let (primary, nonce) := shuffleEndpoints nonce (sortDedupEndpoints manager.current.servers)
  let (satellite, nonce) :=
    shuffleEndpoints nonce (sortDedupEndpoints manager.current.satServers)
  { manager with
    primaryAvailable := primary
    satelliteAvailable := satellite
    shuffleNonce := nonce }

def new (nonce seed : UInt64) (path : Option Text) (defaultServers : List Endpoint)
    : ServerListManager :=
  rebuildAvailable seed
    { path
      current := { servers := defaultServers }
      primaryAvailable := []
      satelliteAvailable := []
      shuffleNonce := nonce }

/-- Load a persisted list. `stored` is what stands at the path: nothing, an unreadable or
unparsable file, or a list.
-/
def load (seed : UInt64) (stored : Option (Except QbtReceiverError PersistedServerList))
    (manager : ServerListManager)
    : Except QbtReceiverError Unit × ServerListManager :=
  match manager.path, stored with
  | none, _ => (.ok (), manager)
  | some _, none => (.ok (), manager)
  | some _, some (.error error) => (.error error, manager)
  | some _, some (.ok persisted) =>
      if persisted.servers ≠ [] ∨ persisted.satServers ≠ [] then
        let current : QbtServerList :=
          { servers := persisted.servers, satServers := persisted.satServers }
        (.ok (), rebuildAvailable seed { manager with current })
      else (.ok (), manager)

/-- Save the list; `written` is what writing the file gives. -/
def save (written : Except QbtReceiverError Unit) (manager : ServerListManager)
    : Except QbtReceiverError Unit :=
  match manager.path with
  | none => .ok ()
  | some _ => written

/-- A server list from the feed replaces the current one; an empty list is refused. -/
def applyServerList (seed : UInt64) (written : Except QbtReceiverError Unit)
    (list : QbtServerList) (manager : ServerListManager)
    : Except QbtReceiverError Unit × ServerListManager :=
  if list.servers = [] ∧ list.satServers = [] then
    (.error (.lifecycle "server list update contained no valid endpoints".toList), manager)
  else
    let manager := rebuildAvailable seed { manager with current := list }
    (manager.save written, manager)

/-- The next endpoint goes to the back of its queue; satellites only without a primary. -/
def nextEndpoint (manager : ServerListManager) : Option Endpoint × ServerListManager :=
  match manager.primaryAvailable with
  | endpoint :: rest =>
      (some endpoint, { manager with primaryAvailable := rest ++ [endpoint] })
  | [] =>
      match manager.satelliteAvailable with
      | endpoint :: rest =>
          (some endpoint, { manager with satelliteAvailable := rest ++ [endpoint] })
      | [] => (none, manager)

def markBadEndpoint (endpoint : Endpoint) (manager : ServerListManager) : ServerListManager :=
  { manager with
    primaryAvailable := manager.primaryAvailable.filter (· ≠ endpoint)
    satelliteAvailable := manager.satelliteAvailable.filter (· ≠ endpoint) }

-----------------------------------------------------------------------------------------
-- Which endpoints are available
-----------------------------------------------------------------------------------------

/-- Endpoints of the list in force. -/
def known (manager : ServerListManager) : List Endpoint :=
  manager.current.servers ++ manager.current.satServers

/-- A queue holds exactly the listed endpoints that have not failed. -/
def Queued (listed failed queue : List Endpoint) : Prop :=
  ∀ endpoint, endpoint ∈ queue ↔ endpoint ∈ listed ∧ endpoint ∉ failed

section
variable {listed failed rest : List Endpoint} {endpoint : Endpoint}

theorem Queued.shuffled (nonce : UInt64) (listed : List Endpoint)
    : Queued listed [] (shuffleEndpoints nonce (sortDedupEndpoints listed)).1 := by
  intro endpoint
  rw [(shuffleEndpoints_perm _ _).mem_iff, sortDedupEndpoints, mem_sortDedup]
  simp

theorem Queued.rotated (queued : Queued listed failed (endpoint :: rest))
    : Queued listed failed (rest ++ [endpoint]) := by
  intro other
  rw [← queued other, List.mem_append, List.mem_singleton, List.mem_cons, or_comm]

theorem Queued.filtered (queued : Queued listed failed rest) (endpoint : Endpoint)
    : Queued listed (endpoint :: failed) (rest.filter (· ≠ endpoint)) := by
  intro other
  simp only [List.mem_filter, queued other, ne_eq, decide_not, Bool.not_eq_true',
    decide_eq_false_iff_not, List.mem_cons, not_or]
  tauto

end

/-- Both queues hold the endpoints of the list in force that have not failed. -/
structure Tracks (manager : ServerListManager) (failed : List Endpoint) : Prop where
  primary : Queued manager.current.servers failed manager.primaryAvailable
  satellite : Queued manager.current.satServers failed manager.satelliteAvailable

/-- A list with at least one endpoint has just been put into effect. -/
def JustBuilt (manager : ServerListManager) : Prop :=
  ∃ (seed : UInt64) (before : ServerListManager),
    ¬ (before.current.servers = [] ∧ before.current.satServers = [])
    ∧ manager = before.rebuildAvailable seed

variable {manager : ServerListManager} {failed : List Endpoint}

theorem Tracks.nextEndpoint (tracks : manager.Tracks failed)
    : manager.nextEndpoint.2.Tracks failed := by
  unfold ServerListManager.nextEndpoint
  split
  · next endpoint rest queue => exact ⟨(queue ▸ tracks.primary).rotated, tracks.satellite⟩
  · split
    · next endpoint rest queue => exact ⟨tracks.primary, (queue ▸ tracks.satellite).rotated⟩
    · exact tracks

theorem Tracks.markBadEndpoint (tracks : manager.Tracks failed) (endpoint : Endpoint)
    : (manager.markBadEndpoint endpoint).Tracks (endpoint :: failed) :=
  ⟨tracks.primary.filtered endpoint, tracks.satellite.filtered endpoint⟩

theorem nextEndpoint_known (manager : ServerListManager)
    : manager.nextEndpoint.2.known = manager.known := by
  unfold ServerListManager.nextEndpoint
  split
  · rfl
  · split <;> rfl

theorem nextEndpoint_isSome_iff (manager : ServerListManager)
    : manager.nextEndpoint.1.isSome
      ↔ ∃ endpoint,
          endpoint ∈ manager.primaryAvailable ∨ endpoint ∈ manager.satelliteAvailable := by
  unfold ServerListManager.nextEndpoint
  split
  · next endpoint rest queue =>
      simp only [Option.isSome_some, true_iff]
      exact ⟨endpoint, .inl (by simp [queue])⟩
  · next none =>
      split
      · next endpoint rest queue =>
          simp only [Option.isSome_some, true_iff]
          exact ⟨endpoint, .inr (by simp [queue])⟩
      · next empty => simp [none, empty]

/-- The manager offers an endpoint exactly while one of the list in force has not failed. -/
theorem Tracks.offers_iff (tracks : manager.Tracks failed)
    : manager.nextEndpoint.1.isSome ↔ ∃ endpoint ∈ manager.known, endpoint ∉ failed := by
  rw [nextEndpoint_isSome_iff]
  apply exists_congr
  intro endpoint
  rw [tracks.primary endpoint, tracks.satellite endpoint, ← or_and_right, known,
    List.mem_append]

/-- Nothing of a list that has just taken effect has failed. -/
theorem rebuildAvailable_tracks (seed : UInt64) (manager : ServerListManager)
    : (manager.rebuildAvailable seed).Tracks [] :=
  ⟨.shuffled _ _, .shuffled _ _⟩

theorem JustBuilt.tracks (built : manager.JustBuilt) : manager.Tracks [] := by
  obtain ⟨seed, before, -, rfl⟩ := built
  exact before.rebuildAvailable_tracks seed

theorem JustBuilt.known_ne_nil (built : manager.JustBuilt) : manager.known ≠ [] := by
  obtain ⟨seed, before, valid, rfl⟩ := built
  simpa [known, rebuildAvailable] using valid

theorem new_justBuilt (nonce seed : UInt64) (path : Option Text) {servers : List Endpoint}
    (nonempty : servers ≠ [])
    : (new nonce seed path servers).JustBuilt :=
  ⟨seed, _, fun empty => nonempty empty.1, rfl⟩

/-- Loading keeps the list or puts a persisted one into effect. -/
theorem load_cases (seed : UInt64)
    (stored : Option (Except QbtReceiverError PersistedServerList))
    (manager : ServerListManager)
    : (manager.load seed stored).2 = manager ∨ (manager.load seed stored).2.JustBuilt := by
  unfold load
  split
  · exact .inl rfl
  · exact .inl rfl
  · exact .inl rfl
  · split_ifs with valid
    · refine .inr ⟨seed, _, ?_, rfl⟩
      rintro ⟨noServers, noSatellites⟩
      rcases valid with servers | satellites
      · exact servers noServers
      · exact satellites noSatellites
    · exact .inl rfl

/-- An update keeps the list when it is empty, and takes effect otherwise. -/
theorem applyServerList_justBuilt (seed : UInt64) (written : Except QbtReceiverError Unit)
    {list : QbtServerList} (manager : ServerListManager)
    (valid : ¬ (list.servers = [] ∧ list.satServers = []))
    : (manager.applyServerList seed written list).2.JustBuilt := by
  unfold applyServerList
  rw [if_neg valid]
  exact ⟨seed, _, valid, rfl⟩

end ServerListManager

end Emwin.Qbt
