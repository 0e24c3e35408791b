import Emwin.Qbt.Relay.QualityMonitor

/-! The quality ratio over all interleavings of the relay: when it is a ratio. -/

namespace Emwin.Qbt
open Library

-----------------------------------------------------------------------------------------
-- Bounds of the ratio
-----------------------------------------------------------------------------------------

theorem qualityRatio_nonneg (attempted forwarded : UInt64)
    : 0 ≤ qualityRatio attempted forwarded := by
  unfold qualityRatio
  split_ifs
  · exact zero_le_one
  · apply roundDouble_nonneg
    exact div_nonneg (roundDouble_nonneg (by positivity)) (roundDouble_nonneg (by positivity))

theorem qualityRatio_le_one {attempted forwarded : UInt64} (le : forwarded ≤ attempted)
    : qualityRatio attempted forwarded ≤ 1 := by
  unfold qualityRatio
  split_ifs
  · exact le_rfl
  · apply roundDouble_div_le_one (by positivity)
    exact_mod_cast UInt64.le_iff_toNat_le.mp le

theorem qualityMilli_le {ratio : ℚ} (nonneg : 0 ≤ ratio) (le : ratio ≤ 1)
    : qualityMilli ratio ≤ 1000 := by
  have scaled : roundDouble (ratio * 1000) ≤ 1000 := by
    have rounded := roundDouble_mono (x := ratio * 1000) (y := 1000) (by positivity) (by linarith)
    rwa [show (1000 : ℚ) = (1000 : ℕ) by norm_num, roundDouble_natCast (by norm_num)] at rounded
  have floor : ⌊roundDouble (ratio * 1000) + 1 / 2⌋₊ ≤ 1000 := by
    apply Nat.lt_succ_iff.mp
    rw [Nat.floor_lt' (by norm_num)]
    push_cast
    linarith
  have thousand : saturated 1000 = 1000 := by decide
  exact thousand ▸ saturated_mono floor

namespace QualityWindow

/-- The sums do not cross if no bucket's bytes do. -/
theorem forwardedSum_le {window : QualityWindow}
    (covered : ∀ bucket ∈ window.contents, bucket.forwarded ≤ bucket.attempted)
    : window.forwardedSum ≤ window.attemptedSum := by
  rw [forwardedSum_eq, attemptedSum_eq]
  apply saturated_mono
  apply List.sum_le_sum
  intro bucket inside
  exact UInt64.le_iff_toNat_le.mp (covered bucket inside)

end QualityWindow

-----------------------------------------------------------------------------------------
-- Chunks that wait across a tick
-----------------------------------------------------------------------------------------

/-- Bytes of chunks as the window counts them. -/
def chunkSum (chunks : List Bytes) : Nat :=
  (chunks.map fun chunk => (chunkBytes chunk).toNat).sum

@[simp] theorem chunkSum_nil : chunkSum [] = 0 := rfl

@[simp] theorem chunkSum_cons (chunk : Bytes) (rest : List Bytes)
    : chunkSum (chunk :: rest) = (chunkBytes chunk).toNat + chunkSum rest := by
  simp [chunkSum]

theorem chunkSum_concat (chunks : List Bytes) (chunk : Bytes)
    : chunkSum (chunks ++ [chunk]) = chunkSum chunks + (chunkBytes chunk).toNat := by
  simp [chunkSum]

namespace Relay

/-- For every session, how many of its chunks in flight were attempted before the last
tick; these are the first ones.
-/
def noteStale (relay : Relay) (action : RelayAction) (stale : Nat → Nat) : Nat → Nat :=
  match action with
  | .qualityTick _ => fun index => (relay.inflight index).length
  | .write index .wrote => Function.update stale index (stale index - 1)
  | .write index (.failed _) => Function.update stale index 0
  | _ => stale

/-- The relay with a record of the chunks that wait across a tick. -/
def staleRecorded (config : QbtRelayConfig) : Machine (Relay × (Nat → Nat)) RelayAction :=
  (machine config).record (fun _ => 0) noteStale

/-- A chunk is written in the interval in which it was attempted. -/
def WritesPromptly (recorded : Relay × (Nat → Nat)) : RelayAction → Prop
  | .write index .wrote => recorded.2 index = 0
  | _ => True

/-- Bytes in flight that were attempted since the last tick. -/
def freshBytes (relay : Relay) (stale : Nat → Nat) : Nat :=
  total relay.sessions.length fun index => chunkSum ((relay.inflight index).drop (stale index))

/-- What the current bucket counts as forwarded, together with the bytes that it may still
count, was attempted while it was current; the older buckets are settled.
-/
structure BucketsCovered (relay : Relay) (stale : Nat → Nat) : Prop where
  known : ∀ index, stale index ≤ (relay.inflight index).length
  covered
    : ∃ older attempted forwarded,
        relay.state.qualityWindow.contents = older ++ [.counting attempted forwarded]
        ∧ (∀ bucket ∈ older, bucket.forwarded ≤ bucket.attempted)
        ∧ forwarded + relay.freshBytes stale ≤ attempted

section
variable {config : QbtRelayConfig} {relay next : Relay} {action : RelayAction}
  {stale : Nat → Nat}

theorem BucketsCovered.window (covered : BucketsCovered relay stale)
    : ∀ bucket ∈ relay.state.qualityWindow.contents, bucket.forwarded ≤ bucket.attempted := by
  obtain ⟨older, attempted, forwarded, split, settled, balance⟩ := covered.covered
  rw [split]
  intro bucket inside
  rcases List.mem_append.mp inside with old | current
  · exact settled bucket old
  · rw [List.mem_singleton.mp current]
    exact saturated_mono (by omega)

/-- The fresh bytes change with the chunks of the one session. -/
theorem Shifts.fresh {index : Nat} {chunks : List Bytes} {after : Nat → Nat}
    (shifts : Shifts relay next index chunks)
    (elsewhere : ∀ other, other ≠ index → after other = stale other)
    : next.freshBytes after + chunkSum ((relay.inflight index).drop (stale index))
      = relay.freshBytes stale + chunkSum (chunks.drop (after index)) := by
  have change := total_change
    (fun index => chunkSum ((relay.inflight index).drop (stale index)))
    (fun index => chunkSum ((next.inflight index).drop (after index))) shifts.present
  rw [freshBytes, shifts.length, ← shifts.here]
  apply change
  intro other distinct
  rw [shifts.elsewhere other distinct, elsewhere other distinct]

theorem Shifts.known {index : Nat} {chunks : List Bytes} {after : Nat → Nat}
    (shifts : Shifts relay next index chunks)
    (before : ∀ index, stale index ≤ (relay.inflight index).length)
    (elsewhere : ∀ other, other ≠ index → after other = stale other)
    (here : after index ≤ chunks.length)
    (other : Nat)
    : after other ≤ (next.inflight other).length := by
  by_cases same : other = index
  · rw [same, shifts.here]
    exact here
  · rw [shifts.elsewhere other same, elsewhere other same]
    exact before other

theorem freshBytes_quiet (grown : relay.sessions.length ≤ next.sessions.length)
    (same : ∀ index, next.inflight index = relay.inflight index)
    : next.freshBytes stale = relay.freshBytes stale := by
  unfold freshBytes
  simp only [same]
  refine total_grow grown fun index outside => ?_
  rw [inflight_of_length_le outside, List.drop_nil, chunkSum_nil]

/-- A tick makes everything in flight stale. -/
theorem freshBytes_tick (relay : Relay)
    : relay.freshBytes (fun index => (relay.inflight index).length) = 0 := by
  unfold freshBytes total
  refine Finset.sum_eq_zero fun index _ => ?_
  rw [List.drop_length, chunkSum_nil]

/-- A step that adds attempted bytes, and no more fresh ones than these. -/
theorem BucketsCovered.attempt {bytes : UInt64} {after : Nat → Nat}
    (covered : BucketsCovered relay stale)
    (same : relay.state.qualityWindow.addAttempted bytes = next.state.qualityWindow)
    (known : ∀ index, after index ≤ (next.inflight index).length)
    (fresh : next.freshBytes after ≤ relay.freshBytes stale + bytes.toNat)
    : BucketsCovered next after := by
  obtain ⟨older, attempted, forwarded, split, settled, balance⟩ := covered.covered
  refine ⟨known, older, attempted + bytes.toNat, forwarded, ?_, settled, by omega⟩
  rw [← same]
  exact QualityWindow.contents_call split (.attempted bytes)

/-- A step that adds forwarded bytes, and takes as many fresh ones away. -/
theorem BucketsCovered.forward {bytes : UInt64} {after : Nat → Nat}
    (covered : BucketsCovered relay stale)
    (same : relay.state.qualityWindow.addForwarded bytes = next.state.qualityWindow)
    (known : ∀ index, after index ≤ (next.inflight index).length)
    (fresh : next.freshBytes after + bytes.toNat ≤ relay.freshBytes stale)
    : BucketsCovered next after := by
  obtain ⟨older, attempted, forwarded, split, settled, balance⟩ := covered.covered
  refine ⟨known, older, attempted, forwarded + bytes.toNat, ?_, settled, by omega⟩
  rw [← same]
  exact QualityWindow.contents_call split (.forwarded bytes)

/-- A step that leaves the window alone. -/
theorem BucketsCovered.keep {after : Nat → Nat} (covered : BucketsCovered relay stale)
    (same : relay.state.qualityWindow = next.state.qualityWindow)
    (known : ∀ index, after index ≤ (next.inflight index).length)
    (fresh : next.freshBytes after ≤ relay.freshBytes stale)
    : BucketsCovered next after := by
  obtain ⟨older, attempted, forwarded, split, settled, balance⟩ := covered.covered
  exact ⟨known, older, attempted, forwarded, same ▸ split, settled, by omega⟩

/-- The record of a step that neither ticks nor settles a chunk. -/
theorem noteStale_idle (timeless : ∀ paused, action ≠ .qualityTick paused)
    (idle : ∀ index move, action = .write index move → move = .take ∨ move = .close)
    : noteStale relay action stale = stale := by
  unfold noteStale
  split
  · next paused => exact absurd rfl (timeless paused)
  · next index => simpa using idle index .wrote rfl
  · next index written => simpa using idle index (.failed written) rfl
  · rfl

theorem start_bucketsCovered (config : QbtRelayConfig)
    : BucketsCovered (start config) fun _ => 0 := by
  have count : max config.qualityWindowSecs 1 = max config.qualityWindowSecs 1 - 1 + 1 := by
    omega
  refine ⟨fun _ => Nat.zero_le _,
    List.replicate (max config.qualityWindowSecs 1 - 1) (.counting 0 0), 0, 0, ?_, ?_, le_rfl⟩
  · have contents := QualityWindow.contents_new config.qualityWindowSecs
    rw [count, List.replicate_succ'] at contents
    exact contents
  · intro bucket inside
    rw [List.eq_of_mem_replicate inside]
    exact saturated_mono le_rfl

/-- Every effect keeps the buckets covered if writes are prompt, by cases on the effect. -/
theorem BucketsCovered.effect (covered : BucketsCovered relay stale)
    (prompt : WritesPromptly (relay, stale) action) (effect : Effect relay action next)
    : BucketsCovered next (noteStale relay action stale) := by
  cases effect with
  | quiet timeless idle same grown inflight =>
      rw [noteStale_idle timeless idle]
      refine covered.keep same.window (fun index => ?_) (freshBytes_quiet grown inflight).le
      rw [inflight]
      exact covered.known index
  | queued index chunk attempts same shifts =>
      rw [show noteStale relay (.receive index) stale = stale from rfl]
      have fewer := covered.known index
      have known := shifts.known covered.known (fun _ _ => rfl)
        (by rw [List.length_append]; omega)
      refine covered.attempt same.window known ?_
      have fresh := shifts.fresh fun other _ => (rfl : stale other = stale other)
      rw [List.drop_append_of_le_length fewer, chunkSum_concat] at fresh
      omega
  | refused index chunk attempts same shifts =>
      rw [show noteStale relay (.receive index) stale = stale from rfl]
      have known := shifts.known covered.known (fun _ _ => rfl) (covered.known index)
      refine covered.attempt same.window known ?_
      have fresh := shifts.fresh fun other _ => (rfl : stale other = stale other)
      omega
  | lost index chunk attempts strands same shifts =>
      rw [show noteStale relay (.receive index) stale = stale from rfl]
      have known := shifts.known covered.known (fun _ _ => rfl) (covered.known index)
      refine covered.attempt same.window known ?_
      have fresh := shifts.fresh fun other _ => (rfl : stale other = stale other)
      omega
  | wrote index chunk rest front same shifts =>
      have now : stale index = 0 := prompt
      have updated : noteStale relay (.write index .wrote) stale = stale :=
        Function.update_eq_self_iff.mpr (by omega)
      rw [updated]
      have known := shifts.known covered.known (fun _ _ => rfl) (by omega)
      refine covered.forward same.window known ?_
      have fresh := shifts.fresh fun other _ => (rfl : stale other = stale other)
      rw [front, now, List.drop_zero, List.drop_zero, chunkSum_cons] at fresh
      omega
  | failed index written chunk session found front same shifts =>
      have elsewhere : ∀ other, other ≠ index
          → noteStale relay (.write index (.failed written)) stale other = stale other :=
        fun other distinct => Function.update_of_ne distinct 0 stale
      have here : noteStale relay (.write index (.failed written)) stale index = 0 :=
        Function.update_self index 0 stale
      refine covered.keep same.window
        (shifts.known covered.known elsewhere (by rw [here]; exact Nat.zero_le _)) ?_
      have fresh := shifts.fresh elsewhere
      rw [List.drop_nil, chunkSum_nil] at fresh
      omega
  | ticked paused =>
      refine ⟨fun index => le_rfl, relay.state.qualityWindow.contents.tail, 0, 0, ?_, ?_, ?_⟩
      · exact QualityWindow.contents_rotate _
      · intro bucket inside
        exact covered.window bucket (List.mem_of_mem_tail inside)
      · rw [Nat.zero_add]
        exact (freshBytes_tick relay).le

end

-----------------------------------------------------------------------------------------
-- Whole runs
-----------------------------------------------------------------------------------------

/-- In a run that writes every chunk in the interval of its attempt, the window never counts
more forwarded bytes than attempted ones: its ratio lies between zero and one.
-/
theorem ratio_is_ratio {config : QbtRelayConfig} {relay : Relay} {stale : Nat → Nat}
    (run : (staleRecorded config).Reaches WritesPromptly (relay, stale))
    : relay.state.qualityWindow.forwardedSum ≤ relay.state.qualityWindow.attemptedSum
      ∧ 0 ≤ relay.state.qualityWindow.ratio
      ∧ relay.state.qualityWindow.ratio ≤ 1
      ∧ qualityMilli relay.state.qualityWindow.ratio ≤ 1000 := by
  have covered : BucketsCovered relay stale := by
    refine run.recorded ?_ ?_
    · intro relay started
      rw [started.2]
      exact start_bucketsCovered config
    · intro relay stale action next covered prompt taken
      exact covered.effect prompt (step_effect taken)
  have order := QualityWindow.forwardedSum_le covered.window
  have low := qualityRatio_nonneg relay.state.qualityWindow.attemptedSum
    relay.state.qualityWindow.forwardedSum
  have high := qualityRatio_le_one order
  exact ⟨order, low, high, qualityMilli_le low high⟩

/-- One byte is attempted and written before the tick. -/
theorem ratio_is_ratio_prompt
    : ∃ relay stale,
        (staleRecorded shortWindow).Reaches WritesPromptly (relay, stale)
        ∧ relay.state.qualityWindow.attemptedSum = 1
        ∧ relay.state.qualityWindow.forwardedSum ≤ relay.state.qualityWindow.attemptedSum
        ∧ 0 ≤ relay.state.qualityWindow.ratio
        ∧ relay.state.qualityWindow.ratio ≤ 1
        ∧ qualityMilli relay.state.qualityWindow.ratio ≤ 1000 := by
  have computed : ((staleRecorded shortWindow).takes (start shortWindow, fun _ => 0)
      (clientWaits ++ clientLogsOn :: upstreamAnswers ++ upstreamSends 1
        ++ [.receive 0, .write 0 .take])).map (fun writing => (writing.2 0,
          ((staleRecorded shortWindow).takes writing
            [.write 0 .wrote, .qualityTick false]).map
            (fun recorded => recorded.1.state.qualityWindow.attemptedSum)))
      = some (0, some 1) := by
    decide +kernel
  obtain ⟨writing, taken, facts⟩ := Option.map_eq_some_iff.mp computed
  obtain ⟨fresh, later⟩ := Prod.mk.inj facts
  obtain ⟨⟨relay, stale⟩, ended, attempted⟩ := Option.map_eq_some_iff.mp later
  obtain ⟨written, first, rest⟩ := Option.bind_eq_some_iff.mp ended
  have before : (staleRecorded shortWindow).Reaches WritesPromptly writing := by
    refine .takes (.start ⟨shortWindow_starts, rfl⟩) (fun state => ?_) taken
    simp [clientWaits, clientLogsOn, upstreamAnswers, upstreamSends, WritesPromptly]
  have prompt : WritesPromptly writing (.write 0 .wrote) := fresh
  have run : (staleRecorded shortWindow).Reaches WritesPromptly (relay, stale) := by
    refine .takes (before.step prompt first) (fun state => ?_) rest
    simp [WritesPromptly]
  exact ⟨relay, stale, run, attempted, ratio_is_ratio run⟩

/-- The client gets a chunk of zero bytes from upstream and its writer takes it. -/
def chunkTaken (length : Nat) : List RelayAction :=
  [.upstream (.read (List.replicate length 0)), .check 0 { instant := 1, unixSecs := 1 },
    .receive 0, .write 0 .take]

/-- The monitor's test at a tick. -/
def isMonitored (threshold : PauseThreshold) (relay : Relay) : RelayAction → Bool
  | .qualityTick paused => paused == relay.decision threshold
  | _ => true

theorem monitored_of_isMonitored {threshold : PauseThreshold} (relay : Relay)
    (action : RelayAction) (passed : isMonitored threshold relay action = true)
    : relay.Monitored threshold action := by
  cases action with
  | qualityTick paused => exact beq_iff_eq.mp passed
  | _ => trivial

/-- Four of a hundred bytes are written after the tick, and one more is attempted: at the
next tick four bytes were forwarded for the one attempted.
-/
theorem late_write_exceeds
    : ∃ relay,
        (machine shortWindow).Reaches (Monitored (.finite (roundDouble (95 / 100)))) relay
        ∧ relay.state.qualityWindow.attemptedSum < relay.state.qualityWindow.forwardedSum
        ∧ relay.state.qualityWindow.ratio = 4
        ∧ qualityMilli relay.state.qualityWindow.ratio = 4000 := by
  have computed : ((machine shortWindow).takesWhile
      (isMonitored (.finite (roundDouble (95 / 100)))) (start shortWindow)
      (clientWaits ++ clientLogsOn :: upstreamAnswers ++ chunkTaken 96 ++ .write 0 .wrote
        :: chunkTaken 4 ++ [.qualityTick false, .write 0 .wrote] ++ upstreamSends 3
        ++ [.receive 0, .qualityTick false])).map (fun relay =>
        (relay.state.qualityWindow.attemptedSum, relay.state.qualityWindow.forwardedSum,
          relay.state.qualityWindow.ratio, qualityMilli relay.state.qualityWindow.ratio))
      = some (1, 4, 4, 4000) := by
    decide +kernel
  obtain ⟨relay, taken, facts⟩ := Option.map_eq_some_iff.mp computed
  simp only [Prod.mk.injEq] at facts
  obtain ⟨attempted, forwarded, ratio, milli⟩ := facts
  refine ⟨relay, .takesWhile (.start shortWindow_starts) monitored_of_isMonitored taken, ?_,
    ratio, milli⟩
  rw [attempted, forwarded]
  decide

end Relay

end Emwin.Qbt
