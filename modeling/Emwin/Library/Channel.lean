import Mathlib.Data.List.Basic

/-! Bounded channels whose sender does not wait. -/

namespace Library

inductive TrySendError where
  | full
  | closed
  deriving DecidableEq, Repr

/-- A bounded channel by its history: the items it has accepted so far, of which the first
`received` have been taken out.
-/
structure Channel (α : Type) where
  capacity : Nat
  sent : List α := []
  received : Nat := 0
  closed : Bool := false
  positive : 0 < capacity
  behind : received ≤ sent.length
  bounded : sent.length ≤ received + capacity
  deriving DecidableEq

namespace Channel

variable {α : Type}

/-- A new channel; there is none without capacity. -/
def new (capacity : Nat) (positive : 0 < capacity) : Channel α where
  capacity := capacity
  positive := positive
  behind := by simp
  bounded := by simp

/-- Some slot is free. -/
def HasRoom (channel : Channel α) : Prop :=
  channel.sent.length < channel.received + channel.capacity

instance (channel : Channel α) : Decidable channel.HasRoom :=
  inferInstanceAs (Decidable (_ < _))

/-- The channel with one more item at its end. -/
def put (channel : Channel α) (item : α) (room : channel.HasRoom) : Channel α :=
  { channel with
    sent := channel.sent ++ [item]
    behind := by
      have behind := channel.behind
      simp only [List.length_append, List.length_singleton]
      omega
    bounded := by
      unfold HasRoom at room
      simp only [List.length_append, List.length_singleton]
      omega }

/-- Put one item at the end of the channel, unless it is closed or full. -/
def trySend (channel : Channel α) (item : α) : Except TrySendError (Channel α) :=
  if channel.closed then .error .closed
  else if room : channel.HasRoom then .ok (channel.put item room)
  else .error .full

/-- Take the oldest item, if there is one. -/
def recv (channel : Channel α) : Option (Channel α) :=
  if waiting : channel.received < channel.sent.length then
    some { channel with
      received := channel.received + 1
      behind := waiting
      bounded := by
        have bounded := channel.bounded
        omega }
  else none

/-- The receiving side goes away. -/
def close (channel : Channel α) : Channel α := { channel with closed := true }

variable {channel : Channel α} {item : α}

theorem trySend_closed (closed : channel.closed = true)
    : channel.trySend item = .error .closed := by
  simp [trySend, closed]

theorem trySend_full (isOpen : channel.closed = false) (full : ¬ channel.HasRoom)
    : channel.trySend item = .error .full := by
  simp [trySend, isOpen, full]

theorem trySend_room (isOpen : channel.closed = false) (room : channel.HasRoom)
    : channel.trySend item = .ok (channel.put item room) := by
  simp [trySend, isOpen, room]

@[simp] theorem put_sent (room : channel.HasRoom)
    : (channel.put item room).sent = channel.sent ++ [item] :=
  rfl

@[simp] theorem put_closed (room : channel.HasRoom)
    : (channel.put item room).closed = channel.closed :=
  rfl

theorem recv_sent {next : Channel α} (taken : channel.recv = some next)
    : next.sent = channel.sent ∧ next.closed = channel.closed := by
  unfold recv at taken
  split_ifs at taken
  cases taken
  exact ⟨rfl, rfl⟩

end Channel

end Library
