import Emwin.Qbt.Client.ConnectionLoop

/-! When the connection loop can still be given an endpoint. -/

namespace Emwin.Qbt
open Library

namespace ConnectionLoop

/-- Some endpoint of the list in force has not failed since it took effect. -/
def HasSpare (loop : ConnectionLoop) : Prop :=
  ∃ endpoint ∈ loop.serverList.known, endpoint ∉ loop.failed

/-- A step that excludes an endpoint leaves another one of the list in force. -/
def Spares (loop : ConnectionLoop) (action : LoopAction) : Prop :=
  ∀ endpoint,
    Excludes loop action endpoint
    → ∃ other ∈ loop.serverList.known, other ≠ endpoint ∧ other ∉ loop.failed

section
variable {config : QbtReceiverConfig} {loop next : ConnectionLoop} {action : LoopAction}

-----------------------------------------------------------------------------------------
-- Lists that take effect
-----------------------------------------------------------------------------------------

/-- The loop starts with a list that was just put into effect. -/
theorem start_justBuilt (valid : config.validate = .ok ()) (nonce seed loadSeed : UInt64)
    (stored : Option (Except QbtReceiverError PersistedServerList))
    : (start config nonce seed loadSeed stored).serverList.JustBuilt := by
  have servers : config.servers ≠ [] := by
    unfold QbtReceiverConfig.validate at valid
    split_ifs at valid with _ empty
    exact empty
  have configured :=
    ServerListManager.new_justBuilt nonce seed config.serverListPath servers
  unfold start
  dsimp only
  split
  · rcases ServerListManager.load_cases loadSeed stored
      (.new nonce seed config.serverListPath config.servers) with kept | built
    · rw [kept]
      exact configured
    · exact built
  · exact configured

/-- An update changes nothing that matters here, or puts its list into effect. -/
theorem applyUpdate_cases (context : UpdateContext) (list : QbtServerList)
    (loop : ConnectionLoop)
    : loop.applyUpdate context list = loop
      ∨ ((loop.applyUpdate context list).serverList.JustBuilt
        ∧ (loop.applyUpdate context list).failed = []) := by
  by_cases empty : list.servers = [] ∧ list.satServers = []
  · left
    simp [applyUpdate, ServerListManager.applyServerList, empty]
  · right
    refine ⟨ServerListManager.applyServerList_justBuilt _ _ _ empty, ?_⟩
    simp [applyUpdate, empty]

/-- What every update preserves holds after all of them, by induction on the events. -/
theorem applyUpdates_invariant {motive : ConnectionLoop → Prop}
    (built : ∀ loop, loop.serverList.JustBuilt → loop.failed = [] → motive loop)
    (contexts : Nat → UpdateContext) (index : Nat) (events : List QbtFrameEvent)
    (before : motive loop)
    : motive (loop.applyUpdates contexts index events) := by
  induction events generalizing index loop with
  | nil => exact before
  | cons event rest ih =>
      cases event with
      | serverListUpdate list =>
          apply ih
          rcases applyUpdate_cases (contexts index) list loop with same | ⟨taken, none⟩
          · rw [same]
            exact before
          · exact built _ taken none
      | dataBlock segment => exact ih index before
      | warning warning => exact ih index before

-----------------------------------------------------------------------------------------
-- The record agrees with the queues
-----------------------------------------------------------------------------------------

/-- Every move keeps queues and record together, by cases on the move. -/
theorem Move.tracks (follow : config.followServerListUpdates = true)
    (move : Move config loop action next) (tracks : loop.serverList.Tracks loop.failed)
    : next.serverList.Tracks next.failed := by
  cases move with
  | elsewhere serverList failed =>
      rw [serverList, failed]
      exact tracks
  | asked =>
      have asked := tracks.nextEndpoint
      unfold ask
      split <;> next taken => simpa [taken] using asked
  | updated phase contexts events =>
      apply applyUpdates_invariant (motive := fun loop => loop.serverList.Tracks loop.failed)
      · intro loop built none
        exact none ▸ built.tracks
      · exact tracks
  | @excluded endpoint excludes =>
      unfold markBad
      rw [if_pos follow]
      exact tracks.markBadEndpoint endpoint

-----------------------------------------------------------------------------------------
-- A spare endpoint survives
-----------------------------------------------------------------------------------------

theorem hasSpare_of_justBuilt (built : loop.serverList.JustBuilt) (none : loop.failed = [])
    : loop.HasSpare := by
  obtain ⟨endpoint, member⟩ := List.exists_mem_of_ne_nil _ built.known_ne_nil
  exact ⟨endpoint, member, by simp [none]⟩

/-- A spare endpoint survives every step that leaves one, by cases on the move. -/
theorem Move.hasSpare (follow : config.followServerListUpdates = true)
    (move : Move config loop action next) (spares : Spares loop action)
    (spare : loop.HasSpare)
    : next.HasSpare := by
  cases move with
  | elsewhere serverList failed =>
      unfold HasSpare
      rw [serverList, failed]
      exact spare
  | asked =>
      have known := loop.serverList.nextEndpoint_known
      unfold ask
      split <;> next taken => simpa [HasSpare, ← known, taken] using spare
  | updated phase contexts events =>
      apply applyUpdates_invariant (motive := HasSpare)
      · intro loop built none
        exact hasSpare_of_justBuilt built none
      · exact spare
  | @excluded endpoint excludes =>
      obtain ⟨other, listed, different, unfailed⟩ := spares endpoint excludes
      unfold markBad
      rw [if_pos follow]
      exact ⟨other, listed, by simp [different, unfailed]⟩

end

-----------------------------------------------------------------------------------------
-- Whole runs
-----------------------------------------------------------------------------------------

/-- The loop can be given an endpoint exactly while one of the list in force has not failed
since that list took effect; so it always can be in a run that never excludes the last one.
-/
theorem endpoint_offered (externals : Externals) (config : QbtReceiverConfig)
    (follow : config.followServerListUpdates = true)
    : (∀ loop,
        (machine externals config).Reachable loop
        → (loop.serverList.nextEndpoint.1.isSome ↔ loop.HasSpare))
      ∧ ∀ loop,
          (machine externals config).Reaches Spares loop
          → loop.serverList.nextEndpoint.1.isSome := by
  have offered : ∀ loop, (machine externals config).Reachable loop
      → (loop.serverList.nextEndpoint.1.isSome ↔ loop.HasSpare) := by
    intro loop run
    have tracks : loop.serverList.Tracks loop.failed := by
      refine run.invariant (motive := fun loop => loop.serverList.Tracks loop.failed) ?_ ?_
      · rintro _ ⟨valid, nonce, seed, loadSeed, stored, rfl⟩
        exact (start_justBuilt valid nonce seed loadSeed stored).tracks
      · intro state action next before _ taken
        exact (step_move taken).tracks follow before
    exact tracks.offers_iff
  refine ⟨offered, ?_⟩
  intro loop run
  rw [offered loop run.reachable]
  refine run.invariant ?_ ?_
  · rintro _ ⟨valid, nonce, seed, loadSeed, stored, rfl⟩
    exact hasSpare_of_justBuilt (start_justBuilt valid nonce seed loadSeed stored) rfl
  · intro state action next before spares taken
    exact (step_move taken).hasSpare follow spares before

/-- A receiver with one configured server that follows server lists. -/
def sampleReceiverConfig : QbtReceiverConfig where
  email := "user@example.com".toList
  servers := [("a".toList, 1)]
  serverListPath := none
  followServerListUpdates := true
  decode := {}

/-- The same receiver with a second server. -/
def pairedReceiverConfig : QbtReceiverConfig :=
  { sampleReceiverConfig with servers := [("a".toList, 1), ("b".toList, 2)] }

/-- The loop asks for an endpoint and cannot connect to it. -/
def connectionFails : List LoopAction := [.ask, .connect false]

/-- The loops of both receivers before their first turn. -/
def sampleLoop : ConnectionLoop := start sampleReceiverConfig 1 2 3 none
def pairedLoop : ConnectionLoop := start pairedReceiverConfig 1 2 3 none

/-- With two servers the first failure leaves one. -/
theorem endpoint_offered_pair
    : ∃ loop,
        (machine sampleExternals pairedReceiverConfig).Reaches Spares loop
        ∧ loop.failed = [("b".toList, 2)]
        ∧ loop.serverList.nextEndpoint.1.isSome := by
  have started : (machine sampleExternals pairedReceiverConfig).Start pairedLoop :=
    ⟨by decide +kernel, 1, 2, 3, none, rfl⟩
  have computed : ((machine sampleExternals pairedReceiverConfig).takes pairedLoop
      [.ask]).map (fun asked => (asked.phase, asked.serverList.known, asked.failed))
      = some (.connecting ("b".toList, 2), [("a".toList, 1), ("b".toList, 2)], []) := by
    decide +kernel
  obtain ⟨asked, taken, facts⟩ := Option.map_eq_some_iff.mp computed
  simp only [Prod.mk.injEq] at facts
  obtain ⟨phase, known, unfailed⟩ := facts
  have asks : (machine sampleExternals pairedReceiverConfig).Reaches Spares asked := by
    refine .takes (.start started) ?_ taken
    rintro state action member endpoint (⟨rfl, -⟩ | ⟨rfl, -⟩) <;> simp at member
  have spares : Spares asked (.connect false) := by
    rintro endpoint (⟨-, connecting⟩ | ⟨wrong, -⟩)
    · obtain rfl := LoopPhase.connecting.inj (phase ▸ connecting)
      exact ⟨("a".toList, 1), by simp [known], by simp, by simp [unfailed]⟩
    · cases wrong
  have fails : (machine sampleExternals pairedReceiverConfig).step asked (.connect false)
      = some (markBad pairedReceiverConfig ("b".toList, 2) { asked with phase := .head }) := by
    simp [machine, step, phase]
  have run := asks.step spares fails
  refine ⟨_, run, ?_, (endpoint_offered sampleExternals pairedReceiverConfig rfl).2 _ run⟩
  exact congrArg (("b".toList, 2) :: ·) unfailed

/-- One failed connection to the only server, and the loop asks in vain. -/
theorem one_failure_strands
    : ∃ loop,
        (machine sampleExternals sampleReceiverConfig).Reachable loop
        ∧ loop.phase = .head
        ∧ loop.shutdown = false
        ∧ loop.serverList.nextEndpoint.1 = none := by
  have started : (machine sampleExternals sampleReceiverConfig).Start sampleLoop :=
    ⟨by decide +kernel, 1, 2, 3, none, rfl⟩
  have computed : ((machine sampleExternals sampleReceiverConfig).takes sampleLoop
      connectionFails).map (fun loop =>
        (loop.phase, loop.shutdown, loop.serverList.nextEndpoint.1))
      = some (.head, false, none) := by
    decide +kernel
  obtain ⟨loop, taken, facts⟩ := Option.map_eq_some_iff.mp computed
  simp only [Prod.mk.injEq] at facts
  exact ⟨loop, .takes (.start started) (by simp) taken, facts⟩

end ConnectionLoop

end Emwin.Qbt
