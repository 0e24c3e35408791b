import Emwin.Qbt.Relay.QualityWindow
import Emwin.Qbt.Relay.Traffic

/-! The quality monitor inside the running relay: its ratio over all interleavings, and the
end of a pause.
-/

namespace Emwin.Qbt
open Library

/-- The configured threshold below which forwarding pauses; any 64-bit float. -/
inductive PauseThreshold where
  | nan
  | infinite (negative : Bool)
  | finite (value : ℚ)
  deriving DecidableEq

namespace PauseThreshold

/-- `clamp(0.0, 1.0)`, which keeps a NaN. -/
def normalized : PauseThreshold → PauseThreshold
  | .nan => .nan
  | .infinite negative => .finite (if negative then 0 else 1)
  | .finite value => .finite (if value < 0 then 0 else if 1 < value then 1 else value)

/-- The ratio is smaller than the threshold; nothing is smaller than a NaN. -/
def above (ratio : ℚ) : PauseThreshold → Bool
  | .nan => false
  | .infinite negative => !negative
  | .finite value => ratio < value

end PauseThreshold

/-- The double nearest to 0.97. -/
def qualityResumeThreshold : ℚ := roundDouble (97 / 100)

/-- The monitor's decision at a tick: whether forwarding is paused from now on. -/
def monitorDecision (threshold : PauseThreshold) (paused : Bool) (ratio : ℚ) : Bool :=
  if !paused && threshold.above ratio then true
  else if paused && qualityResumeThreshold ≤ ratio then false
  else paused

/-- A full ratio pauses nothing and ends a pause. -/
theorem monitorDecision_one (threshold : PauseThreshold) (paused : Bool)
    : monitorDecision threshold.normalized paused 1 = false := by
  have resumes : qualityResumeThreshold ≤ 1 := by
    have rounded := roundDouble_mono (x := 97 / 100) (y := 1) (by norm_num) (by norm_num)
    rwa [roundDouble_one] at rounded
  have calm : threshold.normalized.above 1 = false := by
    cases threshold with
    | nan => rfl
    | infinite negative => cases negative <;> decide
    | finite value =>
        simp only [PauseThreshold.normalized, PauseThreshold.above, decide_eq_false_iff_not,
          not_lt]
        split_ifs <;> linarith
  cases paused <;> simp [monitorDecision, calm, resumes]

namespace Relay

/-- What the monitor decides at a tick, after it has moved its window on. -/
def decision (relay : Relay) (threshold : PauseThreshold) : Bool :=
  monitorDecision threshold.normalized relay.state.metrics.forwardingPaused
    relay.state.qualityWindow.rotate.ratio

/-- A tick carries the monitor's own decision. -/
def Monitored (threshold : PauseThreshold) (relay : Relay) : RelayAction → Prop
  | .qualityTick paused => paused = relay.decision threshold
  | _ => True

/-- The step does not attempt to forward anything. -/
def Calm (relay : Relay) : RelayAction → Prop
  | .receive index => ∀ chunk, ¬ relay.Attempts index chunk
  | _ => True

/-- A step of a lull: the monitor does its work and nothing is attempted. -/
def Lull (threshold : PauseThreshold) (relay : Relay) (action : RelayAction) : Prop :=
  relay.Calm action ∧ relay.Monitored threshold action

def isTick : RelayAction → Bool
  | .qualityTick _ => true
  | _ => false

end Relay

-----------------------------------------------------------------------------------------
-- A window that forgets
-----------------------------------------------------------------------------------------

namespace QualityWindow

/-- The newest buckets have seen no attempt. -/
def Cleared (window : QualityWindow) (count : Nat) : Prop :=
  ∀ bucket ∈ window.contents.rtake count, bucket.attempted = 0

section
variable {window : QualityWindow} {count : Nat}

theorem Cleared.rotate (cleared : window.Cleared count) : window.rotate.Cleared (count + 1) := by
  intro bucket inside
  rw [contents_rotate, List.rtake_concat_succ, List.mem_append] at inside
  rcases inside with older | fresh
  · exact cleared bucket (mem_rtake_of_mem_rtake_tail older)
  · rw [List.mem_singleton.mp fresh]

theorem Cleared.addForwarded (cleared : window.Cleared count) (bytes : UInt64)
    : (window.addForwarded bytes).Cleared count := by
  obtain ⟨older, current, split⟩ := window.exists_contents_eq
  unfold Cleared at *
  rw [split] at cleared
  rw [QualityWindow.addForwarded, contents_updateCurrent split]
  cases count with
  | zero => simp [List.rtake]
  | succ count =>
      rw [List.rtake_concat_succ] at *
      intro bucket inside
      rcases List.mem_append.mp inside with old | last
      · exact cleared bucket (List.mem_append_left _ old)
      · rw [List.mem_singleton.mp last]
        exact cleared current (List.mem_append_right _ (List.mem_singleton_self _))

/-- A window whose buckets have all been cleared has nothing to complain about. -/
theorem Cleared.ratio (cleared : window.Cleared count) (all : window.buckets.length ≤ count)
    : window.ratio = 1 := by
  have whole : window.contents.rtake count = window.contents := by
    rw [List.rtake, window.length_contents, Nat.sub_eq_zero_of_le all, List.drop_zero]
  have nothing : window.attemptedSum = 0 := by
    have zeros : window.contents.map (fun bucket => bucket.attempted.toNat)
        = window.contents.map fun _ => 0 := by
      refine List.map_congr_left fun bucket inside => ?_
      rw [cleared bucket (whole.symm ▸ inside)]
      rfl
    rw [attemptedSum_eq, zeros]
    simp [saturated]
  rw [QualityWindow.ratio, qualityRatio, if_pos nothing]

end

theorem length_rotate (window : QualityWindow)
    : window.rotate.buckets.length = window.buckets.length :=
  List.length_set

theorem length_updateCurrent (window : QualityWindow) (change : QualityBucket → QualityBucket)
    : (window.updateCurrent change).buckets.length = window.buckets.length :=
  List.length_modify _ _ _

end QualityWindow

namespace Relay

section
variable {config : QbtRelayConfig} {relay next : Relay} {action : RelayAction}

/-- The window keeps its size, by cases on the effect. -/
theorem Effect.window_length (effect : Effect relay action next)
    : next.state.qualityWindow.buckets.length = relay.state.qualityWindow.buckets.length := by
  cases effect with
  | quiet timeless idle same grown inflight => rw [← same.window]
  | queued index chunk attempts same shifts =>
      rw [← same.window]
      exact QualityWindow.length_updateCurrent _ _
  | refused index chunk attempts same shifts =>
      rw [← same.window]
      exact QualityWindow.length_updateCurrent _ _
  | lost index chunk attempts strands same shifts =>
      rw [← same.window]
      exact QualityWindow.length_updateCurrent _ _
  | wrote index chunk rest front same shifts =>
      rw [← same.window]
      exact QualityWindow.length_updateCurrent _ _
  | failed index written chunk session found front same shifts => rw [← same.window]; rfl
  | ticked paused => exact QualityWindow.length_rotate _

theorem reachable_window_length (run : (machine config).Reachable relay)
    : relay.state.qualityWindow.buckets.length = config.normalized.qualityWindowSecs := by
  refine run_invariant
    (motive := fun relay =>
      relay.state.qualityWindow.buckets.length = config.normalized.qualityWindowSecs) ?_ ?_ run
  · exact List.length_replicate
  · intro relay action next length _ taken
    rw [(step_effect taken).window_length, length]

/-- A lull after some ticks: as many of the newest buckets are cleared, and forwarding goes
on once all of them are.
-/
structure Resting (size : Nat) (actions : List RelayAction) (relay : Relay) : Prop where
  length : relay.state.qualityWindow.buckets.length = size
  cleared : relay.state.qualityWindow.Cleared (actions.countP isTick)
  flows : size ≤ actions.countP isTick → relay.state.metrics.forwardingPaused = false

/-- Between ticks a lull stays what it is. -/
theorem Resting.between {size : Nat} {actions : List RelayAction}
    (resting : Resting size actions relay) (untimed : isTick action = false)
    (length
      : next.state.qualityWindow.buckets.length = relay.state.qualityWindow.buckets.length)
    (cleared : next.state.qualityWindow.Cleared (actions.countP isTick))
    (paused : relay.state.metrics.forwardingPaused = next.state.metrics.forwardingPaused)
    : Resting size (actions ++ [action]) next := by
  have count : (actions ++ [action]).countP isTick = actions.countP isTick := by
    simp [untimed]
  refine ⟨length.trans resting.length, count ▸ cleared, fun enough => ?_⟩
  rw [← paused]
  exact resting.flows (count ▸ enough)

/-- A calm step keeps the lull, by cases on the effect. -/
theorem Resting.effect {size : Nat} {actions : List RelayAction} {threshold : PauseThreshold}
    (resting : Resting size actions relay) (calm : relay.Calm action)
    (monitored : relay.Monitored threshold action) (effect : Effect relay action next)
    : Resting size (actions ++ [action]) next := by
  have length := effect.window_length
  cases effect with
  | quiet timeless idle same grown inflight =>
      have untimed : isTick action = false := by
        cases action with
        | qualityTick paused => exact absurd rfl (timeless paused)
        | _ => rfl
      exact resting.between untimed length (same.window ▸ resting.cleared) same.paused
  | queued index chunk attempts same shifts => exact absurd attempts (calm chunk)
  | refused index chunk attempts same shifts => exact absurd attempts (calm chunk)
  | lost index chunk attempts strands same shifts => exact absurd attempts (calm chunk)
  | wrote index chunk rest front same shifts =>
      have cleared := resting.cleared.addForwarded (chunkBytes chunk)
      exact resting.between rfl length (same.window ▸ cleared) same.paused
  | failed index written chunk session found front same shifts =>
      exact resting.between rfl length (same.window ▸ resting.cleared) same.paused
  | ticked paused =>
      have count : (actions ++ [RelayAction.qualityTick paused]).countP isTick
          = actions.countP isTick + 1 := by
        simp [isTick]
      have cleared := resting.cleared.rotate
      refine ⟨length.trans resting.length, count ▸ cleared, fun enough => ?_⟩
      rw [count] at enough
      have full : relay.state.qualityWindow.rotate.ratio = 1 := by
        apply cleared.ratio
        rw [QualityWindow.length_rotate, resting.length]
        exact enough
      change paused = false
      rw [monitored, decision, full, monitorDecision_one]

/-- A pause ends. From every reachable relay, whatever its window holds: once the monitor
has ticked as often as the window has buckets and nothing was attempted meanwhile, forwarding
is not paused, and it stays so for the rest of the lull.
-/
theorem pause_ends {threshold : PauseThreshold} {actions : List RelayAction}
    (run : (machine config).Reachable relay)
    (lull : (machine config).Path (Lull threshold) relay actions next)
    (enough : config.normalized.qualityWindowSecs ≤ actions.countP isTick)
    : next.state.metrics.forwardingPaused = false := by
  have resting : Resting config.normalized.qualityWindowSecs actions next := by
    refine lull.invariant
      (motive := fun actions relay =>
        Resting config.normalized.qualityWindowSecs actions relay) ?_ ?_
    · refine ⟨reachable_window_length run, ?_, ?_⟩
      · simp [QualityWindow.Cleared, List.rtake]
      · intro none
        have positive : 1 ≤ config.normalized.qualityWindowSecs := le_max_right _ _
        rw [List.countP_nil] at none
        omega
    · intro actions relay action next resting allowed taken
      exact resting.effect allowed.1 allowed.2 (step_effect taken)
  exact resting.flows enough

end

/-- A relay with a window of two seconds. -/
def shortWindow : QbtRelayConfig := { sampleRelayConfig with qualityWindowSecs := 2 }

theorem shortWindow_starts : (machine shortWindow).Start (start shortWindow) :=
  ⟨by decide +kernel, rfl⟩

/-- A chunk that is not written pauses a relay with the threshold 0.95; two ticks later the
pause is over.
-/
theorem pause_ends_stalled
    : ∃ relay next,
        (machine shortWindow).Reachable relay
        ∧ relay.state.metrics.forwardingPaused = true
        ∧ (machine shortWindow).Path (Lull (.finite (roundDouble (95 / 100)))) relay
            [.qualityTick false, .qualityTick false] next
        ∧ next.state.metrics.forwardingPaused = false := by
  have computed : ((machine shortWindow).takes (start shortWindow)
      (clientWaits ++ clientLogsOn :: upstreamAnswers ++ upstreamSends 1
        ++ [.receive 0, .qualityTick true])).map (fun relay =>
        (relay.state.metrics.forwardingPaused,
          relay.decision (.finite (roundDouble (95 / 100))),
          ((machine shortWindow).step relay (.qualityTick false)).map
            (decision · (.finite (roundDouble (95 / 100))))))
      = some (true, false, some false) := by
    decide +kernel
  obtain ⟨relay, taken, facts⟩ := Option.map_eq_some_iff.mp computed
  simp only [Prod.mk.injEq] at facts
  obtain ⟨paused, first, later⟩ := facts
  obtain ⟨middle, tick, second⟩ := Option.map_eq_some_iff.mp later
  have run : (machine shortWindow).Reachable relay :=
    .takes (.start shortWindow_starts) (by simp) taken
  have once : (machine shortWindow).Path (Lull (.finite (roundDouble (95 / 100)))) relay
      ([] ++ [.qualityTick false]) middle :=
    .step .start ⟨trivial, first.symm⟩ tick
  have twice := once.step
    (show Lull (.finite (roundDouble (95 / 100))) middle (.qualityTick false) from
      ⟨trivial, second.symm⟩) rfl
  exact ⟨relay, _, run, paused, twice, pause_ends run twice (by decide)⟩

end Relay

end Emwin.Qbt
