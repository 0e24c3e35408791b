import Mathlib.Data.List.Basic

/-! State machines that take one labelled step at a time, in any order of labels. -/

namespace Library

/-- A machine with its starting states; a label that is not possible now gives no state. -/
structure Machine (σ ℓ : Type) where
  Start : σ → Prop
  step : σ → ℓ → Option σ

namespace Machine

variable {σ ℓ : Type} {machine : Machine σ ℓ} {Allowed : σ → ℓ → Prop}

/-- The states of the runs whose steps all meet a condition on the state before the step
and on its label.
-/
inductive Reaches (machine : Machine σ ℓ) (Allowed : σ → ℓ → Prop) : σ → Prop
  | start {state} (initial : machine.Start state) : Reaches machine Allowed state
  | step {state label next} (before : Reaches machine Allowed state)
    (allowed : Allowed state label) (taken : machine.step state label = some next)
    : Reaches machine Allowed next

/-- The states of all runs. -/
abbrev Reachable (machine : Machine σ ℓ) : σ → Prop := machine.Reaches fun _ _ => True

/-- What holds at the start and survives every allowed step holds in every state reached. -/
theorem Reaches.invariant {motive : σ → Prop}
    (initial : ∀ state, machine.Start state → motive state)
    (preserved
      : ∀ state label next,
          motive state
          → Allowed state label
          → machine.step state label = some next
          → motive next)
    {state : σ} (run : machine.Reaches Allowed state)
    : motive state := by
  induction run with
  | start first => exact initial _ first
  | step before allowed taken ih => exact preserved _ _ _ ih allowed taken

/-- Forgetting the condition on the steps. -/
theorem Reaches.reachable {state : σ} (run : machine.Reaches Allowed state)
    : machine.Reachable state := by
  induction run with
  | start first => exact .start first
  | step before _ taken ih => exact .step ih trivial taken

/-- Take the labels one after another. -/
def takes (machine : Machine σ ℓ) : σ → List ℓ → Option σ
  | state, [] => some state
  | state, label :: rest => (machine.step state label).bind fun next => machine.takes next rest

/-- Steps that are allowed in every state reach their result, by induction on the labels. -/
theorem Reaches.takes {state last : σ} {labels : List ℓ} (run : machine.Reaches Allowed state)
    (allowed : ∀ state, ∀ label ∈ labels, Allowed state label)
    (taken : machine.takes state labels = some last)
    : machine.Reaches Allowed last := by
  induction labels generalizing state with
  | nil => exact Option.some.inj taken ▸ run
  | cons label rest ih =>
      obtain ⟨next, first, later⟩ := Option.bind_eq_some_iff.mp taken
      refine ih (.step run (allowed state label (by simp)) first) ?_ later
      intro state other member
      exact allowed state other (by simp [member])

/-- Take the labels one after another as long as a test allows them. -/
def takesWhile (machine : Machine σ ℓ) (test : σ → ℓ → Bool) : σ → List ℓ → Option σ
  | state, [] => some state
  | state, label :: rest =>
      if test state label then
        (machine.step state label).bind fun next => machine.takesWhile test next rest
      else none

/-- Tested steps reach their result, by induction on the labels. -/
theorem Reaches.takesWhile {test : σ → ℓ → Bool} {state last : σ} {labels : List ℓ}
    (run : machine.Reaches Allowed state)
    (sound : ∀ state label, test state label = true → Allowed state label)
    (taken : machine.takesWhile test state labels = some last)
    : machine.Reaches Allowed last := by
  induction labels generalizing state with
  | nil => exact Option.some.inj taken ▸ run
  | cons label rest ih =>
      rw [Machine.takesWhile] at taken
      split_ifs at taken with passed
      obtain ⟨next, first, later⟩ := Option.bind_eq_some_iff.mp taken
      exact ih (.step run (sound state label passed) first) later

/-- The labels of a run from one state to another, all of whose steps meet a condition. -/
inductive Path (machine : Machine σ ℓ) (Allowed : σ → ℓ → Prop) (first : σ)
    : List ℓ → σ → Prop
  | start : Path machine Allowed first [] first
  | step {labels state label next} (before : Path machine Allowed first labels state)
    (allowed : Allowed state label) (taken : machine.step state label = some next)
    : Path machine Allowed first (labels ++ [label]) next

/-- What holds at the start of a path and survives every allowed step holds at its end. -/
theorem Path.invariant {motive : List ℓ → σ → Prop} {first : σ} (initial : motive [] first)
    (preserved
      : ∀ labels state label next,
          motive labels state
          → Allowed state label
          → machine.step state label = some next
          → motive (labels ++ [label]) next)
    {labels : List ℓ} {last : σ} (path : machine.Path Allowed first labels last)
    : motive labels last := by
  induction path with
  | start => exact initial
  | step before allowed taken ih => exact preserved _ _ _ _ ih allowed taken

/-- The machine with a record of its run beside its state; no step reads the record. -/
def record {γ : Type} (machine : Machine σ ℓ) (blank : γ) (note : σ → ℓ → γ → γ)
    : Machine (σ × γ) ℓ where
  Start recorded := machine.Start recorded.1 ∧ recorded.2 = blank
  step recorded label :=
    (machine.step recorded.1 label).map fun next =>
      (next, note recorded.1 label recorded.2)

/-- What holds at the start with a blank record and survives every allowed step with its
note holds in every state reached, of the state and its record.
-/
theorem Reaches.recorded {γ : Type} {blank : γ} {note : σ → ℓ → γ → γ}
    {Allowed : σ × γ → ℓ → Prop} {motive : σ → γ → Prop}
    (initial : ∀ state, machine.Start state → motive state blank)
    (preserved
      : ∀ state history label next,
          motive state history
          → Allowed (state, history) label
          → machine.step state label = some next
          → motive next (note state label history))
    {state : σ} {history : γ}
    (run : (machine.record blank note).Reaches Allowed (state, history))
    : motive state history := by
  refine run.invariant (motive := fun recorded => motive recorded.1 recorded.2) ?_ ?_
  · intro recorded first
    rw [first.2]
    exact initial recorded.1 first.1
  · intro recorded label next before allowed taken
    obtain ⟨after, stepped, rfl⟩ := Option.map_eq_some_iff.mp taken
    exact preserved recorded.1 recorded.2 label after before allowed stepped

end Machine

end Library
