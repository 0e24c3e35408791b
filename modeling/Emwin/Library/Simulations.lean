import Emwin.Library.Machine

/-! One machine matched by another: each step of the first is some steps of the second. -/

namespace Library

variable {σ τ ℓ κ : Type}

/-- A view of one machine's states in another's. Each step is matched by no, one or several
steps between the views.
-/
structure Simulation (concrete : Machine σ ℓ) (abstract : Machine τ κ) where
  view : σ → τ
  start : ∀ state, concrete.Start state → abstract.Start (view state)
  step
    : ∀ state label next,
        concrete.step state label = some next
        → ∃ labels, abstract.takes (view state) labels = some (view next)

/-- What is reached on one side is reached on the other, by induction on the run. -/
theorem Simulation.reachable {concrete : Machine σ ℓ} {abstract : Machine τ κ}
    (simulation : Simulation concrete abstract) {state : σ} (run : concrete.Reachable state)
    : abstract.Reachable (simulation.view state) := by
  induction run with
  | start first => exact .start (simulation.start _ first)
  | @step before label next _ _ taken ih =>
      obtain ⟨labels, matched⟩ := simulation.step before label next taken
      exact ih.takes (fun _ _ _ => trivial) matched

/-- A run has a record, by induction on its steps. -/
theorem Machine.Reaches.withRecord {machine : Machine σ ℓ} {γ : Type} {state : σ}
    (run : machine.Reachable state) (blank : γ) (note : σ → ℓ → γ → γ)
    : ∃ history, (machine.record blank note).Reachable (state, history) := by
  induction run with
  | start initial => exact ⟨blank, .start ⟨initial, rfl⟩⟩
  | @step state label next before allowed taken ih =>
      obtain ⟨history, recorded⟩ := ih
      have stepped : (machine.record blank note).step (state, history) label
          = some (next, note state label history) :=
        congrArg (Option.map fun next => (next, note state label history)) taken
      exact ⟨_, .step recorded trivial stepped⟩

/-- A run with a record is a run. -/
theorem Machine.Reaches.unrecorded {machine : Machine σ ℓ} {γ : Type} {blank : γ}
    {note : σ → ℓ → γ → γ} {state : σ} {history : γ}
    (run : (machine.record blank note).Reachable (state, history))
    : machine.Reachable state := by
  refine run.recorded (motive := fun state _ => machine.Reachable state) ?_ ?_
  · intro state initial
    exact .start initial
  · intro state history label next reached _ taken
    exact .step reached trivial taken

end Library
