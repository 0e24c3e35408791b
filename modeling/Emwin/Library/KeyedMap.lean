import Mathlib.Data.List.AList
import Mathlib.Data.List.MinMax

/-! Hash maps as keyed lists: filtering, iteration in an unspecified order, and eviction of
the entries with the oldest stamp.
-/

namespace Library

variable {κ ν : Type}

/-- A map whose entries carry no order that a program could rely on. -/
abbrev KeyedMap (κ ν : Type) := AList (fun _ : κ => ν)

/-- The order in which one iteration over a map visits its entries. -/
structure IterationOrder (κ ν : Type) where
  permute : List (Σ _ : κ, ν) → List (Σ _ : κ, ν)
  perm : ∀ entries, (permute entries).Perm entries

/-- Iteration in the order of the entries. -/
def IterationOrder.listed : IterationOrder κ ν where
  permute entries := entries
  perm _ := .rfl

namespace KeyedMap

def size (map : KeyedMap κ ν) : Nat := map.entries.length

/-- Keep the entries whose value passes the test. -/
def retain (keep : ν → Bool) (map : KeyedMap κ ν) : KeyedMap κ ν where
  entries := map.entries.filter (fun entry => keep entry.2)
  nodupKeys := List.NodupKeys.sublist List.filter_sublist map.nodupKeys

theorem retain_eq_self {keep : ν → Bool} {map : KeyedMap κ ν}
    (all : ∀ entry ∈ map.entries, keep entry.2 = true)
    : map.retain keep = map :=
  AList.ext (List.filter_eq_self.mpr all)

theorem size_retain_le (keep : ν → Bool) (map : KeyedMap κ ν)
    : (map.retain keep).size ≤ map.size :=
  List.length_filter_le _ _

variable [DecidableEq κ]

theorem lookup_eq_some_iff {map : KeyedMap κ ν} {key : κ} {value : ν}
    : map.lookup key = some value ↔ ⟨key, value⟩ ∈ map.entries :=
  AList.mem_lookup_iff

theorem lookup_of_retain {keep : ν → Bool} {map : KeyedMap κ ν} {key : κ} {value : ν}
    (found : (map.retain keep).lookup key = some value)
    : map.lookup key = some value := by
  rw [lookup_eq_some_iff] at found ⊢
  exact (List.mem_filter.mp found).1

theorem keep_of_lookup_retain {keep : ν → Bool} {map : KeyedMap κ ν} {key : κ} {value : ν}
    (found : (map.retain keep).lookup key = some value)
    : keep value = true := by
  rw [lookup_eq_some_iff] at found
  exact (List.mem_filter.mp found).2

/-- Remove entries of the smallest stamp, first visited first, until fewer than `capacity`
are left. The fuel bounds the removals.
-/
def evictOldest (order : IterationOrder κ ν) (stamp : ν → Nat) (capacity : Nat)
    : Nat → KeyedMap κ ν → KeyedMap κ ν
  | 0, map => map
  | fuel + 1, map =>
      if capacity ≤ map.size then
        match (order.permute map.entries).argmin (fun entry => stamp entry.2) with
        | none => map
        | some oldest => evictOldest order stamp capacity fuel (map.erase oldest.1)
      else map

variable {order : IterationOrder κ ν} {stamp : ν → Nat} {capacity : Nat}

theorem lookup_of_erase {map : KeyedMap κ ν} {gone key : κ} {value : ν}
    (found : (map.erase gone).lookup key = some value)
    : map.lookup key = some value := by
  by_cases same : key = gone
  · subst same
    rw [AList.lookup_erase] at found
    cases found
  · rwa [AList.lookup_erase_ne same] at found

/-- Eviction invents nothing, by induction on the removals. -/
theorem lookup_of_evictOldest {fuel : Nat} {map : KeyedMap κ ν} {key : κ} {value : ν}
    (found : (evictOldest order stamp capacity fuel map).lookup key = some value)
    : map.lookup key = some value := by
  induction fuel generalizing map with
  | zero => exact found
  | succ fuel ih =>
      simp only [evictOldest] at found
      split at found
      · split at found
        · exact found
        · exact lookup_of_erase (ih found)
      · exact found

/-- A map with room to spare keeps everything. -/
theorem evictOldest_of_room {fuel : Nat} {map : KeyedMap κ ν} (room : map.size < capacity)
    : evictOldest order stamp capacity fuel map = map := by
  cases fuel with
  | zero => rfl
  | succ fuel => rw [evictOldest, if_neg (Nat.not_le.mpr room)]

theorem size_erase {map : KeyedMap κ ν} {key : κ} (present : key ∈ map)
    : size (map.erase key) + 1 = map.size := by
  have lengths (map : KeyedMap κ ν) : map.size = map.keys.length := by
    simp [size, AList.keys, List.keys]
  have shorter := List.length_erase_add_one (AList.mem_keys.mp present)
  rw [lengths, lengths, AList.keys_erase]
  exact shorter

theorem size_erase_le (map : KeyedMap κ ν) (key : κ) : size (map.erase key) ≤ map.size :=
  (List.kerase_sublist key map.entries).length_le

theorem size_insert (map : KeyedMap κ ν) (key : κ) (value : ν)
    : size (map.insert key value) = if key ∈ map then map.size else map.size + 1 := by
  have erased : size (map.insert key value) = size (map.erase key) + 1 := rfl
  split_ifs with present
  · rw [erased, size_erase present]
  · have absent : map.erase key = map := AList.ext (List.kerase_of_notMem_keys present)
    rw [erased, absent]

/-- As many removals as there are entries make room, by induction on their number. -/
theorem evictOldest_size (map : KeyedMap κ ν) (positive : 0 < capacity)
    : (evictOldest order stamp capacity map.size map).size < capacity := by
  induction count : map.size generalizing map with
  | zero =>
      rw [evictOldest, count]
      exact positive
  | succ count ih =>
      rw [evictOldest]
      split
      · split
        · next none =>
            have empty : order.permute map.entries = [] := List.argmin_eq_none.mp none
            have perm := order.perm map.entries
            rw [empty] at perm
            simp [size, perm.nil_eq.symm] at *
        · next oldest some =>
            have visited := (order.perm map.entries).mem_iff.mp (List.argmin_mem some)
            have present : oldest.1 ∈ map := List.mem_keys_of_mem visited
            exact ih _ (by have := size_erase present; omega)
      · omega

end KeyedMap

end Library
