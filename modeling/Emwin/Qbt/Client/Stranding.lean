import Emwin.Qbt.Client.ReceiverRuns

/-! A receiver that has lost its last endpoint: the connection loop is never given another
one, so it never connects again.
-/

namespace Emwin.Qbt
open Library

namespace ConnectionLoop

variable {externals : Externals} {config : QbtReceiverConfig} {loop next : ConnectionLoop}
  {action : LoopAction}

/-- No connection stands or is being made, and every endpoint of the list in force has
failed.
-/
structure Stranded (loop : ConnectionLoop) : Prop where
  idle : loop.phase = .head ∨ loop.phase = .sleeping ∨ loop.phase = .ended
  spent : ¬ loop.HasSpare

/-- In every run of a loop that follows lists, the record agrees with the queues. -/
theorem reachable_tracks (follow : config.followServerListUpdates = true)
    (run : (machine externals config).Reachable loop)
    : loop.serverList.Tracks loop.failed := by
  refine run.invariant (motive := fun loop => loop.serverList.Tracks loop.failed) ?_ ?_
  · rintro _ ⟨valid, nonce, seed, loadSeed, stored, rfl⟩
    exact (start_justBuilt valid nonce seed loadSeed stored).tracks
  · intro state action next before _ taken
    exact (step_move taken).tracks follow before

/-- A stranded loop stays stranded, by cases on the action: it asks in vain, sleeps, wakes, or
ends.
-/
theorem Stranded.step (stranded : loop.Stranded)
    (tracks : loop.serverList.Tracks loop.failed)
    (taken : loop.step externals config action = some next)
    : next.Stranded := by
  obtain ⟨idle, spent⟩ := stranded
  cases action with
  | shutdown =>
      cases taken
      exact ⟨idle, spent⟩
  | ask =>
      simp only [ConnectionLoop.step] at taken
      split_ifs at taken
      cases taken
      have known := loop.serverList.nextEndpoint_known
      have nothing : ¬ loop.serverList.nextEndpoint.1.isSome :=
        fun offered => spent (tracks.offers_iff.mp offered)
      unfold ask
      split
      · next endpoint serverList asked => simp [asked] at nothing
      · next serverList asked =>
          refine ⟨.inr (.inl rfl), ?_⟩
          simpa [HasSpare, ← known, asked] using spent
  | wake =>
      simp only [ConnectionLoop.step] at taken
      split_ifs at taken
      cases taken
      exact ⟨.inl rfl, spent⟩
  | stop =>
      simp only [ConnectionLoop.step] at taken
      split_ifs at taken
      cases taken
      exact ⟨.inr (.inr rfl), spent⟩
  | connect succeeded | read chunk contexts | sessionEnds =>
      rcases idle with phase | phase | phase <;> simp [ConnectionLoop.step, phase] at taken

end ConnectionLoop

namespace Receiver

variable {externals : Externals} {config : ReceiverConfig} {receiver next last : Receiver}
  {action : ReceiverAction}

-----------------------------------------------------------------------------------------
-- The connection loop inside the task
-----------------------------------------------------------------------------------------

theorem leave_loop {last : Receiver} {result : Except QbtReceiverError Unit}
    (taken : last.leave externals config result = some next) (same : last.loop = receiver.loop)
    : receiver.loop.step externals config.toQbtReceiverConfig .sessionEnds = some next.loop := by
  obtain ⟨loop, turned, rfl⟩ := Option.map_eq_some_iff.mp taken
  rw [← same, turned, left_eq]
  rfl

/-- A step inside a session is at most one step of the loop, by cases on the action. -/
theorem sessionStep_loop {session : ConnectedSession}
    (taken : receiver.sessionStep externals config session action = some next)
    : next.loop = receiver.loop
      ∨ ∃ label,
          receiver.loop.step externals config.toQbtReceiverConfig label = some next.loop := by
  cases action with
  | logon written =>
      cases written with
      | error reason =>
          simp only [sessionStep, logonStep] at taken
          exact .inr ⟨.sessionEnds, leave_loop taken rfl⟩
      | ok written =>
          cases taken
          exact .inl rfl
  | telemetryTick =>
      simp only [sessionStep] at taken
      split_ifs at taken
      cases taken
      exact .inl rfl
  | read result contexts failures =>
      simp only [sessionStep] at taken
      split_ifs at taken
      cases result with
      | error reason =>
          simp only [readStep] at taken
          exact .inr ⟨.sessionEnds, leave_loop taken rfl⟩
      | ok chunk =>
          cases chunk with
          | nil =>
              simp only [readStep] at taken
              exact .inr ⟨.sessionEnds, leave_loop taken rfl⟩
          | cons first rest =>
              simp only [readStep] at taken
              split at taken
              · next endpoint decoder stood =>
                  obtain ⟨loop, turned, rfl⟩ := Option.map_eq_some_iff.mp taken
                  obtain ⟨sent, sends, same⟩ := received_sends config contexts failures session
                    (first :: rest) (decoder.feed externals (first :: rest)).1 loop receiver
                  have loops : sent.loop = loop := congrArg Receiver.loop sends.same
                  rw [same]
                  exact .inr ⟨_, turned.trans (congrArg some loops.symm)⟩
              · cases taken
  | readTimeout =>
      simp only [sessionStep, timeoutStep] at taken
      split_ifs at taken
      · exact .inr ⟨.sessionEnds, leave_loop taken rfl⟩
      · cases taken
        exact .inl rfl
  | noticeShutdown =>
      simp only [sessionStep] at taken
      split_ifs at taken
      exact .inr ⟨.sessionEnds, leave_loop taken rfl⟩
  | _ => cases taken

/-- A step of the task is at most one step of its connection loop, by cases on the action. -/
theorem step_loop (taken : receiver.step externals config action = some next)
    : next.loop = receiver.loop
      ∨ ∃ label,
          receiver.loop.step externals config.toQbtReceiverConfig label = some next.loop := by
  cases action with
  | shutdown =>
      simp only [step, Option.map_eq_some_iff] at taken
      obtain ⟨loop, turned, rfl⟩ := taken
      exact .inr ⟨_, turned⟩
  | elapse time =>
      cases taken
      exact .inl rfl
  | consume =>
      obtain ⟨sender, received, rfl⟩ := Option.map_eq_some_iff.mp taken
      exact .inl rfl
  | closeStream =>
      simp only [step, Option.map_eq_some_iff] at taken
      obtain ⟨sender, closed, rfl⟩ := taken
      exact .inl rfl
  | ask =>
      obtain ⟨loop, turned, rfl⟩ := Option.map_eq_some_iff.mp taken
      refine .inr ⟨_, turned.trans (congrArg some ?_)⟩
      unfold asked
      dsimp only
      split <;> rfl
  | wake =>
      simp only [step] at taken
      split_ifs at taken
      obtain ⟨loop, turned, rfl⟩ := Option.map_eq_some_iff.mp taken
      exact .inr ⟨_, turned⟩
  | connect result =>
      cases result with
      | error reason =>
          obtain ⟨loop, turned, rfl⟩ := Option.map_eq_some_iff.mp taken
          exact .inr ⟨_, turned⟩
      | ok succeeded =>
          simp only [step] at taken
          split at taken
          · obtain ⟨loop, turned, rfl⟩ := Option.map_eq_some_iff.mp taken
            exact .inr ⟨_, turned⟩
          · cases taken
  | stop =>
      obtain ⟨loop, turned, rfl⟩ := Option.map_eq_some_iff.mp taken
      exact .inr ⟨_, turned⟩
  | logon _ | telemetryTick | read _ _ _ | readTimeout | noticeShutdown =>
      simp only [step] at taken
      split at taken
      · exact sessionStep_loop taken
      · cases taken

/-- The task is a connection loop, seen by its endpoints. -/
def loopSimulation (externals : Externals) (config : ReceiverConfig)
    : Simulation (machine externals config)
        (ConnectionLoop.machine externals config.toQbtReceiverConfig) where
  view := Receiver.loop
  start := by
    rintro receiver ⟨valid, capacity, positive, nonce, seed, loadSeed, stored, rfl⟩
    refine ⟨valid, nonce, seed, loadSeed, stored, ?_⟩
    unfold start
    dsimp only
    split
    · split <;> rfl
    · rfl
  step receiver action next taken := by
    rcases step_loop taken with same | ⟨label, turned⟩
    · exact ⟨[], congrArg some same.symm⟩
    · exact ⟨[label], by simp [Machine.takes, ConnectionLoop.machine, turned]⟩

-----------------------------------------------------------------------------------------
-- No way back
-----------------------------------------------------------------------------------------

/-- A step that starts and ends without a connection to come reports none, by cases on the
move.
-/
theorem Move.unconnected (move : Move externals config receiver action next)
    (stranded : receiver.loop.Stranded)
    : next.marks.count .opening = receiver.marks.count .opening := by
  have apart {phase : LoopPhase} (found : receiver.loop.phase = phase)
      (busy : phase.inSession = true ∨ phase.isConnecting = true)
      : False := by
    rw [← found] at busy
    rcases stranded.idle with phase | phase | phase <;> simp [phase, LoopPhase.inSession,
      LoopPhase.isConnecting] at busy
  cases move with
  | shutdown | elapse | consume | closeStream | woken | loggedOn | waited | stopped => rfl
  | @asked loop idle found =>
      rcases found with sleeping | ⟨endpoint, connecting⟩
      · simp only [Receiver.asked, sleeping]
        simp [marks, offer, count, updateTelemetrySink, mark]
      · simp only [Receiver.asked, connecting]
        rfl
  | connected waited stands => exact (apart waited (.inr rfl)).elim
  | refused waited idle => exact (apart waited (.inr rfl)).elim
  | ticked inside => simp [marks, offer, count, updateTelemetrySink, mark]
  | received inside stood stands => exact (apart stood (.inl rfl)).elim
  | left ends settled result inside stood idle reason => exact (apart stood (.inl rfl)).elim

/-- A task that follows server lists and has lost every endpoint of its list never reports a
connection again, however it goes on: without a connection no new list arrives, and failed
endpoints never come back.
-/
theorem stranded_for_good (externals : Externals) (config : ReceiverConfig)
    (follow : config.followServerListUpdates = true) (receiver last : Receiver)
    (run : (machine externals config).Reachable receiver) (stranded : receiver.loop.Stranded)
    (labels : List ReceiverAction)
    (path : (machine externals config).Path (fun _ _ => True) receiver labels last)
    : last.loop.Stranded
      ∧ last.marks.count .opening = receiver.marks.count .opening := by
  have kept : (machine externals config).Reachable last
      ∧ last.loop.Stranded
      ∧ last.marks.count .opening = receiver.marks.count .opening := by
    refine path.invariant (motive := fun _ last =>
      (machine externals config).Reachable last
      ∧ last.loop.Stranded
      ∧ last.marks.count .opening = receiver.marks.count .opening) ?_ ?_
    · exact ⟨run, stranded, rfl⟩
    · rintro labels state label next ⟨reached, stuck, opened⟩ - taken
      refine ⟨.step reached trivial taken, ?_, ?_⟩
      · have tracks := ConnectionLoop.reachable_tracks follow
          ((loopSimulation externals config).reachable reached)
        rcases step_loop taken with same | ⟨label, turned⟩
        · rwa [same]
        · exact stuck.step tracks turned
      · rw [(step_move taken).unconnected stuck, opened]
  exact kept.2

/-- The only endpoint refuses the connection. -/
def refusedActions : List ReceiverAction := [.ask, .connect (.error "refused".toList)]

/-- The task then asks in vain. -/
theorem stranded_for_good_refused
    : ∃ receiver last,
        (machine sampleExternals sampleConfig).Reachable receiver
        ∧ receiver.step sampleExternals sampleConfig .ask = some last
        ∧ last.loop.Stranded
        ∧ last.marks.count .opening = receiver.marks.count .opening := by
  have computed
      : ((machine sampleExternals sampleConfig).takes sampleStart refusedActions).map
          (fun receiver => (decide (receiver.loop.phase = .head),
            receiver.loop.serverList.known.all (· ∈ receiver.loop.failed),
            (receiver.step sampleExternals sampleConfig .ask).isSome))
        = some (true, true, true) := by
    decide +kernel
  obtain ⟨receiver, taken, facts⟩ := Option.map_eq_some_iff.mp computed
  simp only [Prod.mk.injEq] at facts
  obtain ⟨phase, spent, stepped⟩ := facts
  obtain ⟨last, stepped⟩ := Option.isSome_iff_exists.mp stepped
  have run : (machine sampleExternals sampleConfig).Reachable receiver :=
    .takes (.start sampleStart_starts) (by simp) taken
  have stranded : receiver.loop.Stranded :=
    ⟨.inl (of_decide_eq_true phase), by simpa [ConnectionLoop.HasSpare] using spent⟩
  have stuck := stranded_for_good sampleExternals sampleConfig rfl receiver last run stranded
    [.ask] (.step .start trivial stepped)
  exact ⟨receiver, last, run, stepped, stuck⟩

end Receiver

end Emwin.Qbt
