import Emwin.Library.Machine
import Emwin.Qbt.Client.ServerListManager

/-! The server-list manager over any sequence of calls: what is available, in which order it
is handed out, and what a list that takes effect brings back.
-/

namespace Emwin.Qbt
open Library

namespace ServerListManager

/-- One call, with entropy and with what the file system gives it. -/
inductive ManagerCall where
  | apply (seed : UInt64) (written : Except QbtReceiverError Unit) (list : QbtServerList)
  | load (seed : UInt64) (stored : Option (Except QbtReceiverError PersistedServerList))
  | next
  | markBad (endpoint : Endpoint)

def call (manager : ServerListManager) : ManagerCall → ServerListManager
  | .apply seed written list => (manager.applyServerList seed written list).2
  | .load seed stored => (manager.load seed stored).2
  | .next => manager.nextEndpoint.2
  | .markBad endpoint => manager.markBadEndpoint endpoint

/-- The call brings a list with at least one endpoint into effect: an update does, even if it
cannot be saved; loading does if such a list is stored.
-/
def takesEffect (manager : ServerListManager) : ManagerCall → Bool
  | .apply _ _ list => list.servers ≠ [] ∨ list.satServers ≠ []
  | .load _ (some (.ok persisted)) =>
      manager.path.isSome ∧ (persisted.servers ≠ [] ∨ persisted.satServers ≠ [])
  | _ => false

/-- New managers with any default servers. -/
def machine : Machine ServerListManager ManagerCall where
  Start manager := ∃ nonce seed path servers, manager = new nonce seed path servers
  step manager call := some (manager.call call)

/-- The endpoints marked bad since a list last took effect. -/
def note (manager : ServerListManager) (call : ManagerCall) (marked : List Endpoint)
    : List Endpoint :=
  if manager.takesEffect call then []
  else
    match call with
    | .markBad endpoint => endpoint :: marked
    | _ => marked

/-- Ask for a number of endpoints, one after another. -/
def nextEndpoints : Nat → ServerListManager → List (Option Endpoint)
  | 0, _ => []
  | count + 1, manager =>
      manager.nextEndpoint.1 :: nextEndpoints count manager.nextEndpoint.2

-----------------------------------------------------------------------------------------
-- Lists that take effect
-----------------------------------------------------------------------------------------

variable {manager : ServerListManager} {marked : List Endpoint}

/-- Both queues hold each endpoint of their list once, in some order. -/
structure Full (manager : ServerListManager) : Prop where
  primary : manager.primaryAvailable.Perm manager.current.servers.dedup
  satellite : manager.satelliteAvailable.Perm manager.current.satServers.dedup

/-- The shuffle loses and invents nothing. -/
theorem rebuildAvailable_full (seed : UInt64) (manager : ServerListManager)
    : (manager.rebuildAvailable seed).Full :=
  ⟨(shuffleEndpoints_perm _ _).trans (sortDedup_perm_dedup _),
    (shuffleEndpoints_perm _ _).trans (sortDedup_perm_dedup _)⟩

/-- A call that takes effect rebuilds both queues from its list. -/
theorem call_of_takesEffect {call : ManagerCall} (effect : manager.takesEffect call = true)
    : ∃ seed before, manager.call call = rebuildAvailable seed before := by
  cases call with
  | apply seed written list =>
      have valid : ¬ (list.servers = [] ∧ list.satServers = []) := by
        rw [not_and_or]
        simpa [takesEffect] using effect
      simp only [ServerListManager.call, applyServerList, if_neg valid]
      exact ⟨_, _, rfl⟩
  | load seed stored =>
      rcases stored with - | error | persisted
      · cases effect
      · cases effect
      · obtain ⟨path, valid⟩ : manager.path.isSome
            ∧ (persisted.servers ≠ [] ∨ persisted.satServers ≠ []) := by
          simpa [takesEffect] using effect
        obtain ⟨path, found⟩ := Option.isSome_iff_exists.mp path
        simp only [ServerListManager.call, load, found, if_pos valid]
        exact ⟨_, _, rfl⟩
  | next => cases effect
  | markBad endpoint => cases effect

/-- A call to apply or load that does not take effect changes nothing. -/
theorem call_of_not_takesEffect {call : ManagerCall}
    (idle : manager.takesEffect call = false)
    : manager.call call = manager
      ∨ call = .next
      ∨ ∃ endpoint, call = .markBad endpoint := by
  cases call with
  | apply seed written list =>
      have empty : list.servers = [] ∧ list.satServers = [] := by
        simpa [takesEffect] using idle
      simp only [ServerListManager.call, applyServerList, if_pos empty, true_or]
  | load seed stored =>
      refine .inl ?_
      simp only [ServerListManager.call, load]
      split
      · rfl
      · rfl
      · rfl
      · next path persisted found =>
          have empty : ¬ (persisted.servers ≠ [] ∨ persisted.satServers ≠ []) := by
            simpa [takesEffect, found] using idle
          rw [if_neg empty]
  | next => exact .inr (.inl rfl)
  | markBad endpoint => exact .inr (.inr ⟨endpoint, rfl⟩)

-----------------------------------------------------------------------------------------
-- Handing out endpoints
-----------------------------------------------------------------------------------------

/-- Asking returns the front of the primary queue in its order, by induction on the front. -/
theorem nextEndpoints_front {front back : List Endpoint}
    (queue : manager.primaryAvailable = front ++ back)
    : manager.nextEndpoints front.length = front.map some := by
  induction front generalizing manager back with
  | nil => rfl
  | cons endpoint rest ih =>
      have asked : manager.nextEndpoint
          = (some endpoint,
              { manager with primaryAvailable := rest ++ back ++ [endpoint] }) := by
        simp only [nextEndpoint, queue, List.cons_append]
      simp only [List.length_cons, nextEndpoints, asked, List.map_cons]
      rw [ih (List.append_assoc rest back [endpoint])]

/-- An endpoint comes from the front of a queue, and from that of the satellites only without
a primary.
-/
theorem nextEndpoint_source {endpoint : Endpoint}
    (returned : manager.nextEndpoint.1 = some endpoint)
    : endpoint ∈ manager.primaryAvailable
      ∨ manager.primaryAvailable = [] ∧ endpoint ∈ manager.satelliteAvailable := by
  unfold nextEndpoint at returned
  split at returned
  · next first rest queue =>
      obtain rfl := Option.some.inj returned
      simp [queue]
  · next none =>
      split at returned
      · next first rest queue =>
          obtain rfl := Option.some.inj returned
          simp [none, queue]
      · cases returned

/-- Both queues hold the endpoints that are listed and not marked, each of them once. -/
structure Pooled (manager : ServerListManager) (marked : List Endpoint) : Prop where
  tracks : manager.Tracks marked
  primaryNodup : manager.primaryAvailable.Nodup
  satelliteNodup : manager.satelliteAvailable.Nodup

theorem rebuildAvailable_pooled (seed : UInt64) (manager : ServerListManager)
    : (manager.rebuildAvailable seed).Pooled [] := by
  have full := manager.rebuildAvailable_full seed
  exact ⟨manager.rebuildAvailable_tracks seed,
    full.primary.nodup_iff.mpr (List.nodup_dedup _),
    full.satellite.nodup_iff.mpr (List.nodup_dedup _)⟩

theorem Pooled.nextEndpoint (pooled : manager.Pooled marked)
    : manager.nextEndpoint.2.Pooled marked := by
  refine ⟨pooled.tracks.nextEndpoint, ?_, ?_⟩ <;> unfold ServerListManager.nextEndpoint
  · split
    · next endpoint rest queue =>
        have nodup := pooled.primaryNodup
        rw [queue] at nodup
        exact (List.perm_append_singleton endpoint rest).nodup_iff.mpr nodup
    · split <;> exact pooled.primaryNodup
  · split
    · exact pooled.satelliteNodup
    · split
      · next endpoint rest queue =>
          have nodup := pooled.satelliteNodup
          rw [queue] at nodup
          exact (List.perm_append_singleton endpoint rest).nodup_iff.mpr nodup
      · exact pooled.satelliteNodup

theorem Pooled.markBadEndpoint (pooled : manager.Pooled marked) (endpoint : Endpoint)
    : (manager.markBadEndpoint endpoint).Pooled (endpoint :: marked) :=
  ⟨pooled.tracks.markBadEndpoint endpoint, pooled.primaryNodup.filter _,
    pooled.satelliteNodup.filter _⟩

/-- Every call keeps the queues, by cases on whether a list takes effect. -/
theorem Pooled.call (pooled : manager.Pooled marked) (call : ManagerCall)
    : (manager.call call).Pooled (manager.note call marked) := by
  unfold note
  split
  · next effect =>
      obtain ⟨seed, before, same⟩ := call_of_takesEffect effect
      rw [same]
      exact before.rebuildAvailable_pooled seed
  · next idle =>
      have idle : manager.takesEffect call = false := by simpa using idle
      cases call with
      | next => exact pooled.nextEndpoint
      | markBad endpoint => exact pooled.markBadEndpoint endpoint
      | apply seed written list | load seed stored =>
          rcases call_of_not_takesEffect idle with same | asked | ⟨endpoint, marks⟩
          · rw [same]
            exact pooled
          · cases asked
          · cases marks

/-- The queues of every reachable manager, by induction on the calls. -/
theorem reachable_pooled (run : (machine.record [] note).Reachable (manager, marked))
    : manager.Pooled marked := by
  refine run.recorded ?_ ?_
  · intro manager created
    obtain ⟨nonce, seed, path, servers, rfl⟩ := created
    exact rebuildAvailable_pooled _ _
  · intro manager marked call next pooled _ stepped
    cases stepped
    exact pooled.call call

/-- The manager in every state that calls can reach: its queues hold endpoints of the list in
force, each once; a list that takes effect fills them; as many calls as there are primaries
return each primary once; satellites wait for the primaries; a marked endpoint does not
return before a list takes effect; and an empty update fails and changes nothing.
-/
theorem endpoints_managed (run : (machine.record [] note).Reachable (manager, marked))
    : (manager.primaryAvailable.Nodup ∧ manager.satelliteAvailable.Nodup)
      ∧ (∀ endpoint ∈ manager.primaryAvailable, endpoint ∈ manager.current.servers)
      ∧ (∀ endpoint ∈ manager.satelliteAvailable, endpoint ∈ manager.current.satServers)
      ∧ (∀ call, manager.takesEffect call = true → (manager.call call).Full)
      ∧ manager.nextEndpoints manager.primaryAvailable.length
        = manager.primaryAvailable.map some
      ∧ (∀ endpoint,
          manager.nextEndpoint.1 = some endpoint
          → endpoint ∉ marked
            ∧ (endpoint ∈ manager.primaryAvailable
              ∨ manager.primaryAvailable = [] ∧ endpoint ∈ manager.satelliteAvailable))
      ∧ ∀ seed written,
          ∃ error, manager.applyServerList seed written {} = (.error error, manager) := by
  have pooled := reachable_pooled run
  refine ⟨⟨pooled.primaryNodup, pooled.satelliteNodup⟩, ?_, ?_, ?_, ?_, ?_, ?_⟩
  · intro endpoint member
    exact ((pooled.tracks.primary endpoint).mp member).1
  · intro endpoint member
    exact ((pooled.tracks.satellite endpoint).mp member).1
  · intro call effect
    obtain ⟨seed, before, same⟩ := call_of_takesEffect effect
    rw [same]
    exact before.rebuildAvailable_full seed
  · exact nextEndpoints_front (List.append_nil _).symm
  · intro endpoint returned
    have source := nextEndpoint_source returned
    refine ⟨?_, source⟩
    rcases source with primary | ⟨-, satellite⟩
    · exact ((pooled.tracks.primary endpoint).mp primary).2
    · exact ((pooled.tracks.satellite endpoint).mp satellite).2
  · intro seed written
    exact ⟨_, rfl⟩

/-- Two default servers, the first of them marked bad. -/
def sampleManager (path : Option Text) : ServerListManager :=
  (new 0 0 path [("a".toList, 1), ("b".toList, 2)]).markBadEndpoint ("a".toList, 1)

theorem sampleManager_reached (path : Option Text)
    : (machine.record [] note).Reachable (sampleManager path, [("a".toList, 1)]) := by
  have start
      : (machine.record [] note).Reachable
          (new 0 0 path [("a".toList, 1), ("b".toList, 2)], []) :=
    .start ⟨⟨0, 0, path, _, rfl⟩, rfl⟩
  have taken
      : (machine.record [] note).step
          (new 0 0 path [("a".toList, 1), ("b".toList, 2)], [])
          (.markBad ("a".toList, 1))
        = some (sampleManager path, [("a".toList, 1)]) := rfl
  exact start.step trivial taken

theorem endpoints_managed_sample
    : (sampleManager none).primaryAvailable = [("b".toList, 2)]
      ∧ (sampleManager none).primaryAvailable.Nodup
      ∧ (sampleManager none).nextEndpoints (sampleManager none).primaryAvailable.length
        = (sampleManager none).primaryAvailable.map some := by
  obtain ⟨⟨nodup, -⟩, -, -, -, rotation, -⟩ := endpoints_managed (sampleManager_reached none)
  exact ⟨by decide +kernel, nodup, rotation⟩

/-- Loading without a path succeeds and brings nothing back, so the queue is not the list in
force. An update that cannot be saved fails and yet brings a marked endpoint back.
-/
theorem effect_is_not_success
    : (((sampleManager none).load 0 none).1 = .ok ()
        ∧ ¬ ((sampleManager none).load 0 none).2.primaryAvailable.Perm
              ((sampleManager none).load 0 none).2.current.servers.dedup)
      ∧ (((sampleManager (some "servers.json".toList)).applyServerList 0
            (.error (.io "disk full".toList)) { servers := [("a".toList, 1)] }).1
          = .error (.io "disk full".toList)
        ∧ ((sampleManager (some "servers.json".toList)).applyServerList 0
            (.error (.io "disk full".toList))
            { servers := [("a".toList, 1)] }).2.nextEndpoint.1
          = some ("a".toList, 1)) := by
  decide +kernel

end ServerListManager

end Emwin.Qbt
