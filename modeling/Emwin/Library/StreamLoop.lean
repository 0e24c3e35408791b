import Mathlib.Data.List.Basic

/-! Draining loops over an input buffer, and when they cannot see chunk boundaries.
A pass may emit events, change the state and ask for another pass. The whole loop is a
function because every pass that asks for another one shrinks a size.
-/

namespace Library

/-- Result of one pass: its events, the state after it, and whether the loop continues. -/
structure Pass (σ ε : Type) where
  events : List ε
  state : σ
  progressed : Bool

/-- A loop body together with the size that bounds its repetitions. -/
structure DrainLoop (σ ε : Type) where
  step : σ → Pass σ ε
  size : σ → Nat
  shrinks : ∀ state, (step state).progressed = true → size (step state).state < size state

/-- Put already emitted events in front of a run's result. -/
def prepend {σ ε : Type} (events : List ε) (result : List ε × σ) : List ε × σ :=
  (events ++ result.1, result.2)

@[simp] theorem prepend_nil {σ ε : Type} (result : List ε × σ)
    : prepend [] result = result := rfl

theorem prepend_prepend {σ ε : Type} (left right : List ε) (result : List ε × σ)
    : prepend left (prepend right result) = prepend (left ++ right) result := by
  simp [prepend]

namespace DrainLoop

variable {σ ε : Type}

/-- At most `fuel` passes of the loop. -/
def runFuel (loop : DrainLoop σ ε) : Nat → σ → List ε × σ
  | 0, state => ([], state)
  | fuel + 1, state =>
      let pass := loop.step state
      if pass.progressed then prepend pass.events (loop.runFuel fuel pass.state)
      else (pass.events, pass.state)

/-- The loop until it stops; the size of the start bounds the number of passes. -/
def run (loop : DrainLoop σ ε) (state : σ) : List ε × σ :=
  loop.runFuel (loop.size state + 1) state

/-- Fuel above the size of the start is never used up, by induction on the fuel. -/
theorem runFuel_eq_run (loop : DrainLoop σ ε) {fuel : Nat} {state : σ}
    (enough : loop.size state < fuel)
    : loop.runFuel fuel state = loop.run state := by
  induction fuel using Nat.strongRecOn generalizing state with
  | _ fuel ih =>
      cases fuel with
      | zero => omega
      | succ fuel =>
          simp only [run, runFuel]
          split
          · next progressed =>
              have smaller := loop.shrinks state progressed
              rw [ih fuel (by omega) (by omega)]
              by_cases less : loop.size state < fuel + 1 ∧ loop.size state ≠ fuel
              · rw [ih (loop.size state) (by omega) smaller]
              · rw [show loop.size state = fuel by omega, ih fuel (by omega) (by omega)]
          · rfl

/-- The loop's own equation: one pass, then the rest if it progressed. -/
theorem run_eq (loop : DrainLoop σ ε) (state : σ)
    : loop.run state
      = if (loop.step state).progressed
        then prepend (loop.step state).events (loop.run (loop.step state).state)
        else ((loop.step state).events, (loop.step state).state) := by
  conv_lhs => rw [run, runFuel]
  split
  · next progressed => rw [loop.runFuel_eq_run (loop.shrinks state progressed)]
  · rfl

theorem run_of_progressed (loop : DrainLoop σ ε) {state : σ}
    (progressed : (loop.step state).progressed = true)
    : loop.run state
      = prepend (loop.step state).events (loop.run (loop.step state).state) := by
  rw [run_eq, if_pos progressed]

theorem run_of_stopped (loop : DrainLoop σ ε) {state : σ}
    (stopped : (loop.step state).progressed = false)
    : loop.run state = ((loop.step state).events, (loop.step state).state) := by
  rw [run_eq, if_neg (by simp [stopped])]

/-- What every pass preserves holds of the result, by induction on the size. -/
theorem run_invariant (loop : DrainLoop σ ε) {motive : List ε → σ → Prop}
    (preserved
      : ∀ before state,
          motive before state
          → motive (before ++ (loop.step state).events) (loop.step state).state)
    (before : List ε) (state : σ) (start : motive before state)
    : motive (before ++ (loop.run state).1) (loop.run state).2 := by
  induction size : loop.size state using Nat.strongRecOn
    generalizing before state with
  | _ bound ih =>
      have next := preserved before state start
      cases progressed : (loop.step state).progressed with
      | false => simpa [loop.run_of_stopped progressed] using next
      | true =>
          have smaller := loop.shrinks state progressed
          have rest := ih _ (size ▸ smaller) _ _ next rfl
          simpa [loop.run_of_progressed progressed, prepend, List.append_assoc] using rest

/-- A run ends with a pass that stops, taken from a state that keeps the invariant; by
induction on the size.
-/
theorem run_last (loop : DrainLoop σ ε) {Inv : σ → Prop}
    (preserved : ∀ state, Inv state → Inv (loop.step state).state)
    (state : σ) (start : Inv state)
    : ∃ last,
        Inv last ∧ (loop.step last).progressed = false
        ∧ (loop.run state).2 = (loop.step last).state := by
  induction size : loop.size state using Nat.strongRecOn generalizing state with
  | _ bound ih =>
      cases progressed : (loop.step state).progressed with
      | false => exact ⟨state, start, progressed, by rw [loop.run_of_stopped progressed]⟩
      | true =>
          have smaller := loop.shrinks state progressed
          obtain ⟨last, inv, stopped, same⟩ := ih _ (size ▸ smaller) _ (preserved _ start) rfl
          refine ⟨last, inv, stopped, ?_⟩
          rw [loop.run_of_progressed progressed]
          exact same

/-- The states that the passes of a loop are taken from, and the state after the last one: each
pass but the last asks for another one.
-/
inductive Passes (step : σ → Pass σ ε) : σ → List σ → σ → Prop
  | stop {state} (stopped : (step state).progressed = false)
    : Passes step state [state] (step state).state
  | more {state states last} (progressed : (step state).progressed = true)
    (rest : Passes step (step state).state states last)
    : Passes step state (state :: states) last

/-- The loop ends after finitely many passes, by induction on the size. -/
theorem exists_passes (loop : DrainLoop σ ε) (state : σ)
    : ∃ states, Passes loop.step state states (loop.run state).2 := by
  induction size : loop.size state using Nat.strongRecOn generalizing state with
  | _ bound ih =>
      cases progressed : (loop.step state).progressed with
      | false =>
          rw [loop.run_of_stopped progressed]
          exact ⟨_, .stop progressed⟩
      | true =>
          have smaller := loop.shrinks state progressed
          obtain ⟨states, passes⟩ := ih _ (size ▸ smaller) _ rfl
          rw [loop.run_of_progressed progressed]
          exact ⟨_, .more progressed passes⟩

/-- Every pass is taken from a state that keeps the invariant, by induction on the passes. -/
theorem Passes.invariant {step : σ → Pass σ ε} {Inv : σ → Prop}
    (preserved : ∀ state, Inv state → Inv (step state).state) {state last : σ} {states : List σ}
    (passes : Passes step state states last) (start : Inv state)
    : ∀ visited ∈ states, Inv visited := by
  induction passes with
  | stop stopped => simpa using start
  | more progressed rest ih => simpa using ⟨start, ih (preserved _ start)⟩

/-- The state after the passes is left by a pass that stops, by induction on the passes. -/
theorem Passes.stopped {step : σ → Pass σ ε} {state last : σ} {states : List σ}
    (passes : Passes step state states last)
    : ∃ visited ∈ states, (step visited).progressed = false ∧ (step visited).state = last := by
  induction passes with
  | stop stopped => exact ⟨_, List.mem_singleton_self _, stopped, rfl⟩
  | more progressed rest ih =>
      obtain ⟨visited, member, stopped, same⟩ := ih
      exact ⟨visited, List.mem_cons_of_mem _ member, stopped, same⟩

end DrainLoop

/-- Laws under which feeding a loop does not depend on how the input is cut.
`absorbs` is the only law about the loop body: a pass taken before more input arrives
loses nothing that a pass taken after its arrival would have had.
-/
structure StreamLaws {σ ε α : Type} (loop : DrainLoop σ ε) (extend : σ → List α → σ)
    (Inv : σ → Prop)
    : Prop where
  extend_nil : ∀ state, extend state [] = state
  extend_append
    : ∀ state left right, extend (extend state left) right = extend state (left ++ right)
  inv_extend : ∀ state more, Inv state → Inv (extend state more)
  inv_step : ∀ state, Inv state → Inv (loop.step state).state
  absorbs
    : ∀ state more,
        Inv state
        → loop.run (extend state more)
          = prepend (loop.step state).events
              (loop.run (extend (loop.step state).state more))

namespace DrainLoop

variable {σ ε α : Type}

/-- Append one chunk to the buffer and drain. -/
def feed (loop : DrainLoop σ ε) (extend : σ → List α → σ) (state : σ) (chunk : List α)
    : List ε × σ :=
  loop.run (extend state chunk)

/-- Feed the chunks one after another, collecting the events. -/
def feedAll (loop : DrainLoop σ ε) (extend : σ → List α → σ)
    : σ → List (List α) → List ε × σ
  | state, [] => ([], state)
  | state, chunk :: rest =>
      let fed := loop.feed extend state chunk
      prepend fed.1 (loop.feedAll extend fed.2 rest)

theorem feedAll_append (loop : DrainLoop σ ε) (extend : σ → List α → σ) (state : σ)
    (left right : List (List α))
    : loop.feedAll extend state (left ++ right)
      = prepend (loop.feedAll extend state left).1
          (loop.feedAll extend (loop.feedAll extend state left).2 right) := by
  induction left generalizing state with
  | nil => rfl
  | cons chunk left ih =>
      rw [List.cons_append, feedAll, ih, feedAll, prepend_prepend]
      rfl

section Absorbing

variable (loop : DrainLoop σ ε) {extend : σ → List α → σ} {Inv : σ → Prop}
variable (inv_step : ∀ state, Inv state → Inv (loop.step state).state)
variable (absorbs
  : ∀ state more,
      Inv state
      → loop.run (extend state more)
        = prepend (loop.step state).events (loop.run (extend (loop.step state).state more)))

include inv_step absorbs in
/-- A drained prefix may be handed over before the rest arrives.
Witness: induction on the size; `absorbs` moves each pass in front of the extension.
-/
theorem run_extend_of_absorbs (state : σ) (more : List α) (inv : Inv state)
    : loop.run (extend state more)
      = prepend (loop.run state).1 (loop.run (extend (loop.run state).2 more)) := by
  induction size : loop.size state using Nat.strongRecOn generalizing state with
  | _ bound ih =>
      rw [absorbs state more inv]
      cases progressed : (loop.step state).progressed with
      | false => rw [loop.run_of_stopped progressed]
      | true =>
          have smaller := loop.shrinks state progressed
          rw [ih _ (size ▸ smaller) _ (inv_step state inv) rfl,
            loop.run_of_progressed progressed, prepend_prepend]
          rfl

include inv_step absorbs in
/-- Chunks may be drained one by one if the invariant holds wherever the input is cut, by
induction on the chunks.
-/
theorem prepend_feedAll
    (extend_append
      : ∀ state left right, extend (extend state left) right = extend state (left ++ right))
    (origin : σ) (seen : List α) (chunks : List (List α))
    (cuts
      : ∀ before chunk,
          before ++ [chunk] <+: chunks → Inv (extend origin (seen ++ before.flatten)))
    : prepend (loop.run (extend origin seen)).1
        (loop.feedAll extend (loop.run (extend origin seen)).2 chunks)
      = loop.run (extend origin (seen ++ chunks.flatten)) := by
  induction chunks generalizing seen with
  | nil => simp [feedAll, prepend]
  | cons chunk rest ih =>
      have first : Inv (extend origin seen) := by
        simpa using cuts [] chunk (by simp)
      have next := loop.run_extend_of_absorbs inv_step absorbs _ chunk first
      rw [extend_append] at next
      have later := ih (seen ++ chunk) (by
        intro before other inside
        simpa using cuts (chunk :: before) other (by simpa using inside))
      rw [next] at later
      simpa [feedAll, feed, prepend] using later

end Absorbing

end DrainLoop

namespace StreamLaws

variable {σ ε α : Type} {loop : DrainLoop σ ε} {extend : σ → List α → σ} {Inv : σ → Prop}

theorem inv_run (laws : StreamLaws loop extend Inv) {state : σ} (inv : Inv state)
    : Inv (loop.run state).2 :=
  loop.run_invariant (motive := fun _ state => Inv state)
    (fun _ state => laws.inv_step state) [] state inv

/-- A drained prefix may be handed over before the rest arrives. -/
theorem run_extend (laws : StreamLaws loop extend Inv) (state : σ) (more : List α)
    (inv : Inv state)
    : loop.run (extend state more)
      = prepend (loop.run state).1 (loop.run (extend (loop.run state).2 more)) :=
  loop.run_extend_of_absorbs laws.inv_step laws.absorbs state more inv

/-- A drained state is at rest: draining it again emits nothing and changes nothing. -/
theorem run_idle (laws : StreamLaws loop extend Inv) {state : σ} (inv : Inv state)
    : loop.run (loop.run state).2 = ([], (loop.run state).2) := by
  have split := laws.run_extend state [] inv
  rw [laws.extend_nil, laws.extend_nil, prepend] at split
  have events := congrArg Prod.fst split
  have rest := congrArg Prod.snd split
  simp only [List.self_eq_append_right] at events rest
  exact Prod.ext events rest.symm

/-- Two chunks fed in a row are one chunk. -/
theorem feed_append (laws : StreamLaws loop extend Inv) {state : σ} (inv : Inv state)
    (left right : List α)
    : loop.feed extend state (left ++ right)
      = prepend (loop.feed extend state left).1
          (loop.feed extend (loop.feed extend state left).2 right) := by
  simp only [DrainLoop.feed, ← laws.extend_append]
  exact laws.run_extend _ right (laws.inv_extend state left inv)

/-- Any cutting of the input gives the events and the final state of one single feed.
Witness: induction on the chunks, merging the first chunk with the rest.
-/
theorem feedAll_eq_feed (laws : StreamLaws loop extend Inv) {state : σ} (inv : Inv state)
    (idle : loop.run state = ([], state)) (chunks : List (List α))
    : loop.feedAll extend state chunks = loop.feed extend state chunks.flatten := by
  induction chunks generalizing state with
  | nil => simp [DrainLoop.feedAll, DrainLoop.feed, laws.extend_nil, idle]
  | cons chunk rest ih =>
      have extended := laws.inv_extend state chunk inv
      have fedInv : Inv (loop.feed extend state chunk).2 := laws.inv_run extended
      have fedIdle := laws.run_idle extended
      rw [DrainLoop.feedAll, List.flatten_cons, laws.feed_append inv, ih fedInv fedIdle]

end StreamLaws

end Library
