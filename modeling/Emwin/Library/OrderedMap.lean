import Mathlib.Order.Lattice
import Mathlib.Data.List.Basic

/-! Maps kept in the order of their keys. -/

namespace Library

/-- `BTreeMap`: one entry for each key, in increasing order of the keys. -/
structure OrderedMap (κ ν : Type) [LinearOrder κ] where
  entries : List (κ × ν) := []
  sorted : entries.Pairwise (fun left right => left.1 < right.1) := by exact .nil

namespace OrderedMap

variable {κ ν : Type} [LinearOrder κ]

/-- The map without entries. -/
abbrev empty : OrderedMap κ ν := {}

/-- Write the value for a key, from the value that is there. -/
def alterEntries (key : κ) (change : Option ν → ν) : List (κ × ν) → List (κ × ν)
  | [] => [(key, change none)]
  | (first, value) :: rest =>
      if key < first then (key, change none) :: (first, value) :: rest
      else if key = first then (first, change (some value)) :: rest
      else (first, value) :: alterEntries key change rest

/-- No key appears but the one that is written, by induction on the entries. -/
theorem key_of_mem_alterEntries {key : κ} {change : Option ν → ν} {entries : List (κ × ν)}
    {entry : κ × ν} (member : entry ∈ alterEntries key change entries)
    : entry.1 = key ∨ ∃ old ∈ entries, old.1 = entry.1 := by
  induction entries with
  | nil => exact .inl (by simp_all [alterEntries])
  | cons first rest ih =>
      obtain ⟨other, value⟩ := first
      rw [alterEntries] at member
      split_ifs at member with before same
      · rcases List.mem_cons.mp member with rfl | old
        · exact .inl rfl
        · exact .inr ⟨entry, old, rfl⟩
      · rcases List.mem_cons.mp member with rfl | old
        · exact .inl same.symm
        · exact .inr ⟨entry, by simp [old], rfl⟩
      · rcases List.mem_cons.mp member with rfl | later
        · exact .inr ⟨(other, value), by simp, rfl⟩
        · rcases ih later with written | ⟨old, inside, key⟩
          · exact .inl written
          · exact .inr ⟨old, by simp [inside], key⟩

/-- Writing keeps the order, by induction on the entries. -/
theorem sorted_alterEntries (key : κ) (change : Option ν → ν) {entries : List (κ × ν)}
    (sorted : entries.Pairwise fun left right => left.1 < right.1)
    : (alterEntries key change entries).Pairwise fun left right => left.1 < right.1 := by
  induction entries with
  | nil => exact List.pairwise_singleton _ _
  | cons first rest ih =>
      obtain ⟨other, value⟩ := first
      obtain ⟨least, later⟩ := List.pairwise_cons.mp sorted
      rw [alterEntries]
      split_ifs with before same
      · refine List.pairwise_cons.mpr ⟨?_, sorted⟩
        intro entry member
        rcases List.mem_cons.mp member with rfl | old
        · exact before
        · exact lt_trans before (least entry old)
      · exact List.pairwise_cons.mpr ⟨least, later⟩
      · refine List.pairwise_cons.mpr ⟨?_, ih later⟩
        intro entry member
        rcases key_of_mem_alterEntries member with written | ⟨old, inside, sameKey⟩
        · rw [written]
          exact lt_of_le_of_ne (not_lt.mp before) (Ne.symm same)
        · rw [← sameKey]
          exact least old inside

/-- `entry(key)` followed by a write through it. -/
def alter (map : OrderedMap κ ν) (key : κ) (change : Option ν → ν) : OrderedMap κ ν :=
  ⟨alterEntries key change map.entries, sorted_alterEntries key change map.sorted⟩

/-- The value of a key. -/
def lookup (key : κ) : List (κ × ν) → Option ν
  | [] => none
  | (first, value) :: rest => if key = first then some value else lookup key rest

def get? (map : OrderedMap κ ν) (key : κ) : Option ν := lookup key map.entries

/-- A key below all others is not there, by induction on the entries. -/
theorem lookup_eq_none_of_lt {key : κ} {entries : List (κ × ν)}
    (below : ∀ entry ∈ entries, key < entry.1)
    : lookup key entries = none := by
  induction entries with
  | nil => rfl
  | cons first rest ih =>
      have different : key ≠ first.1 := ne_of_lt (below first (by simp))
      rw [lookup, if_neg different]
      exact ih fun entry member => below entry (by simp [member])

/-- Writing changes the value of its key alone, by induction on the entries. -/
theorem lookup_alterEntries (key other : κ) (change : Option ν → ν) {entries : List (κ × ν)}
    (sorted : entries.Pairwise fun left right => left.1 < right.1)
    : lookup other (alterEntries key change entries)
      = if other = key then some (change (lookup key entries)) else lookup other entries := by
  induction entries with
  | nil => rfl
  | cons first rest ih =>
      obtain ⟨least, value⟩ := first
      obtain ⟨below, later⟩ := List.pairwise_cons.mp sorted
      rw [alterEntries]
      by_cases before : key < least
      · have absent : lookup key ((least, value) :: rest) = none := by
          refine lookup_eq_none_of_lt ?_
          intro entry member
          rcases List.mem_cons.mp member with rfl | inside
          · exact before
          · exact lt_trans before (below entry inside)
        rw [if_pos before, absent, lookup]
      · rw [if_neg before]
        by_cases same : key = least
        · subst same
          by_cases written : other = key <;> simp [lookup, written]
        · rw [if_neg same, lookup, ih later]
          simp only [lookup, if_neg same]
          by_cases read : other = least
          · have unwritten : other ≠ key := fun written => same (written.symm.trans read)
            rw [if_pos read, if_neg unwritten, if_pos read]
          · rw [if_neg read, if_neg read]

theorem get?_alter (map : OrderedMap κ ν) (key other : κ) (change : Option ν → ν)
    : (map.alter key change).get? other
      = if other = key then some (change (map.get? key)) else map.get? other :=
  lookup_alterEntries key other change map.sorted

/-- Writing through the entries of several items leaves each key with what its own items make
of it, by induction on the items.
-/
theorem get?_foldl_alter {α : Type} (keyOf : α → κ) (change : α → Option ν → ν) (items : List α)
    (map : OrderedMap κ ν) (key : κ)
    : (items.foldl (fun map item => map.alter (keyOf item) (change item)) map).get? key
      = (items.filter (keyOf · = key)).foldl (fun found item => some (change item found))
          (map.get? key) := by
  induction items generalizing map with
  | nil => rfl
  | cons item rest ih =>
      rw [List.foldl_cons, ih, get?_alter]
      by_cases same : keyOf item = key
      · simp [same]
      · simp [same, Ne.symm same]

/-- The entries are the keys with their values, by induction on the entries. -/
theorem mem_entries_iff (map : OrderedMap κ ν) (key : κ) (value : ν)
    : (key, value) ∈ map.entries ↔ map.get? key = some value := by
  obtain ⟨entries, sorted⟩ := map
  show (key, value) ∈ entries ↔ lookup key entries = some value
  induction entries with
  | nil => simp [lookup]
  | cons first rest ih =>
      obtain ⟨least, stored⟩ := first
      obtain ⟨below, later⟩ := List.pairwise_cons.mp sorted
      rw [List.mem_cons, ih later, lookup]
      by_cases same : key = least
      · subst same
        have absent : lookup key rest = none := lookup_eq_none_of_lt below
        simp [absent, eq_comm]
      · simp [same]

/-- A key has one entry at most, by induction on the entries. -/
theorem filter_entries (map : OrderedMap κ ν) (key : κ)
    : map.entries.filter (·.1 = key) = (map.get? key).toList.map (key, ·) := by
  obtain ⟨entries, sorted⟩ := map
  show entries.filter (·.1 = key) = (lookup key entries).toList.map (key, ·)
  induction entries with
  | nil => rfl
  | cons first rest ih =>
      obtain ⟨least, stored⟩ := first
      obtain ⟨below, later⟩ := List.pairwise_cons.mp sorted
      by_cases same : key = least
      · subst same
        have absent : lookup key rest = none := lookup_eq_none_of_lt below
        simp [lookup, ih later, absent]
      · simp [lookup, ih later, same, Ne.symm same]

end OrderedMap

/-- `BTreeSet`: the items in increasing order, each once. -/
def orderedSet {κ : Type} [LinearOrder κ] (items : List κ) : List κ :=
  (items.foldl (fun map item => OrderedMap.alter map item fun _ => ()) {}).entries.map Prod.fst

theorem mem_orderedSet {κ : Type} [LinearOrder κ] {items : List κ} {item : κ}
    : item ∈ orderedSet items ↔ item ∈ items := by
  have found := OrderedMap.get?_foldl_alter id (fun _ _ => ()) items {} item
  have listed : item ∈ orderedSet items
      ↔ (items.foldl (fun map item => OrderedMap.alter map item fun _ => ()) {}).get? item
        = some () := by
    rw [← OrderedMap.mem_entries_iff, orderedSet, List.mem_map]
    constructor
    · rintro ⟨⟨key, value⟩, member, rfl⟩
      exact member
    · intro member
      exact ⟨(item, ()), member, rfl⟩
  rw [listed]
  refine Iff.trans (Eq.congr_left found) ?_
  constructor
  · intro written
    by_contra absent
    have none : items.filter (fun other => id other = item) = [] := by
      refine List.filter_eq_nil_iff.mpr fun other member same => absent ?_
      rw [← of_decide_eq_true same]
      exact member
    rw [none] at written
    exact absurd written (by simp [OrderedMap.get?, OrderedMap.lookup])
  · intro member
    have kept : item ∈ items.filter (fun other => id other = item) :=
      List.mem_filter.mpr ⟨member, by simp⟩
    generalize items.filter (fun other => id other = item) = list at kept
    cases list with
    | nil => exact absurd kept List.not_mem_nil
    | cons first others =>
        have stays (later : List κ) : later.foldl (fun _ _ => some ()) (some ()) = some () := by
          induction later with
          | nil => rfl
          | cons _ later ih => exact ih
        exact stays others

end Library
