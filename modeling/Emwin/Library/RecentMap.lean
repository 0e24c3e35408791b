import Mathlib.Data.List.Dedup
import Emwin.Library.Recent

/-! Maps of bounded size that keep what was written last, and the writes they follow. -/

namespace Library

variable {κ ν : Type} [DecidableEq κ]

/-- The keys that were written, in the order of their last writes. -/
def writtenKeys (writes : List (κ × ν)) : List κ := (writes.map Prod.fst).dedup

/-- What was written last under a key. -/
def latest (writes : List (κ × ν)) (key : κ) : Option ν := writes.reverse.lookup key

/-- Entries of different keys, those written last at the end. -/
structure RecentMap (κ ν : Type) where
  entries : List (κ × ν) := []
  nodup : (entries.map Prod.fst).Nodup := by exact List.nodup_nil

section Writes

variable {writes : List (κ × ν)} {key other : κ} {value : ν}

/-- Writing a key again moves it to the end, by induction on the keys before. -/
theorem dedup_concat (keys : List κ) (key : κ)
    : (keys ++ [key]).dedup = keys.dedup.filter (· ≠ key) ++ [key] := by
  induction keys with
  | nil => rfl
  | cons first keys ih =>
      rw [List.cons_append]
      by_cases again : first ∈ keys
      · rw [List.dedup_cons_of_mem again, List.dedup_cons_of_mem (by simp [again]), ih]
      by_cases same : first = key
      · subst same
        rw [List.dedup_cons_of_mem (by simp), List.dedup_cons_of_notMem again, ih,
          List.filter_cons_of_neg (by simp)]
      · rw [List.dedup_cons_of_notMem (by simp [again, same]), ih,
          List.dedup_cons_of_notMem again, List.filter_cons_of_pos (by simpa using same)]
        rfl

theorem writtenKeys_concat (writes : List (κ × ν)) (key : κ) (value : ν)
    : writtenKeys (writes ++ [(key, value)])
      = (writtenKeys writes).filter (· ≠ key) ++ [key] := by
  rw [writtenKeys, List.map_append]
  exact dedup_concat _ key

theorem nodup_writtenKeys (writes : List (κ × ν)) : (writtenKeys writes).Nodup :=
  List.nodup_dedup _

theorem latest_concat (writes : List (κ × ν)) (key : κ) (value : ν)
    : latest (writes ++ [(key, value)]) other
      = if other = key then some value else latest writes other := by
  rw [latest, List.reverse_append, List.reverse_singleton, List.singleton_append,
    List.lookup_cons]
  by_cases same : other = key
  · simp [same]
  · rw [if_neg same, beq_eq_false_iff_ne.mpr same]
    rfl

end Writes

omit [DecidableEq κ] in
/-- A test that passes on the keys of a part leaves that part, by induction on it. -/
theorem filter_eq_of_sublist {part whole : List κ} {test : κ → Bool}
    (sublist : part.Sublist whole) (nodup : whole.Nodup)
    (tells : ∀ key ∈ whole, test key = true ↔ key ∈ part)
    : whole.filter test = part := by
  induction sublist with
  | slnil => rfl
  | cons key sublist ih =>
      obtain ⟨absent, later⟩ := List.nodup_cons.mp nodup
      have skipped : ¬ test key = true := fun passes =>
        absent (sublist.subset ((tells key (by simp)).mp passes))
      rw [List.filter_cons_of_neg skipped]
      exact ih later fun other member => tells other (by simp [member])
  | cons_cons key sublist ih =>
      obtain ⟨absent, later⟩ := List.nodup_cons.mp nodup
      rw [List.filter_cons_of_pos ((tells key (by simp)).mpr (by simp)), ih later]
      intro other member
      have different : other ≠ key := fun same => absent (same ▸ member)
      rw [tells other (by simp [member])]
      simp [different]

namespace RecentMap

variable {map : RecentMap κ ν} {writes : List (κ × ν)} {key : κ} {value : ν}

def keys (map : RecentMap κ ν) : List κ := map.entries.map Prod.fst

omit [DecidableEq κ] in
theorem nodup_keys (map : RecentMap κ ν) : map.keys.Nodup := map.nodup

omit [DecidableEq κ] in
/-- A key has one value. -/
theorem value_unique {other : ν} (left : (key, value) ∈ map.entries)
    (right : (key, other) ∈ map.entries)
    : value = other :=
  (Prod.mk.inj (List.inj_on_of_nodup_map map.nodup left right rfl)).2

omit [DecidableEq κ] in
/-- Values looked up by the keys, from the last one on. -/
theorem filterMap_keys (map : RecentMap κ ν) {find : κ → Option ν}
    (finds : ∀ entry ∈ map.entries, find entry.1 = some entry.2)
    : map.keys.reverse.filterMap find = map.entries.reverse.map Prod.snd := by
  rw [keys, ← List.map_reverse, List.filterMap_map, ← List.filterMap_eq_map]
  exact List.filterMap_congr fun entry member => finds entry (List.mem_reverse.mp member)

/-- The entries whose values pass a test. -/
def keep (test : ν → Bool) (map : RecentMap κ ν) : RecentMap κ ν where
  entries := map.entries.filter fun entry => test entry.2
  nodup := map.nodup.sublist (List.filter_sublist.map _)

/-- Write a value; its key becomes the last one. -/
def write (key : κ) (value : ν) (map : RecentMap κ ν) : RecentMap κ ν where
  entries := map.entries.filter (fun entry => entry.1 ≠ key) ++ [(key, value)]
  nodup := by
    rw [List.map_append, List.nodup_append]
    refine ⟨map.nodup.sublist (List.filter_sublist.map _), List.nodup_singleton _, ?_⟩
    intro left member right same
    obtain ⟨entry, kept, rfl⟩ := List.mem_map.mp member
    obtain rfl := List.mem_singleton.mp same
    simpa using (List.mem_filter.mp kept).2

/-- The last entries. -/
def newest (capacity : Nat) (map : RecentMap κ ν) : RecentMap κ ν where
  entries := map.entries.rtake capacity
  nodup := map.nodup.sublist ((List.drop_sublist _ _).map _)

theorem keys_write (key : κ) (value : ν) (map : RecentMap κ ν)
    : (map.write key value).keys = map.keys.filter (· ≠ key) ++ [key] := by
  rw [keys, write, List.map_append, keys, List.filter_map]
  rfl

omit [DecidableEq κ] in
theorem keys_newest (capacity : Nat) (map : RecentMap κ ν)
    : (map.newest capacity).keys = map.keys.rtake capacity := by
  simp [keys, newest, List.rtake, List.map_drop]

/-- What was just written is among the newest. -/
theorem mem_newest_write {capacity : Nat} (positive : 0 < capacity) (key : κ) (value : ν)
    (map : RecentMap κ ν)
    : (key, value) ∈ ((map.write key value).newest capacity).entries := by
  obtain ⟨before, rfl⟩ := Nat.exists_eq_add_one_of_ne_zero (Nat.ne_of_gt positive)
  show (key, value) ∈ (map.entries.filter _ ++ [(key, value)]).rtake (before + 1)
  rw [List.rtake_concat_succ]
  exact List.mem_append_right _ (List.mem_singleton_self _)

/-- What a map holds is what was written last, and it stands in the order of the writes. -/
structure Follows (writes : List (κ × ν)) (map : RecentMap κ ν) : Prop where
  ordered : map.keys.Sublist (writtenKeys writes)
  current : ∀ key value, (key, value) ∈ map.entries → latest writes key = some value

/-- The keys written last are held, as far as their values pass a test. -/
def Covers (capacity : Nat) (test : ν → Bool) (writes : List (κ × ν)) (map : RecentMap κ ν)
    : Prop :=
  ∀ key ∈ (writtenKeys writes).rtake capacity, ∀ value,
    latest writes key = some value → test value = true → (key, value) ∈ map.entries

theorem Follows.empty : Follows [] ({} : RecentMap κ ν) :=
  ⟨List.nil_sublist _, nofun⟩

theorem Covers.empty {capacity : Nat} {test : ν → Bool}
    : Covers capacity test [] ({} : RecentMap κ ν) := by
  intro key recent
  simp [writtenKeys] at recent

theorem Follows.keep (follows : Follows writes map) (test : ν → Bool)
    : Follows writes (map.keep test) where
  ordered := (List.filter_sublist.map _).trans follows.ordered
  current key value member := follows.current key value (List.mem_filter.mp member).1

theorem Follows.write (follows : Follows writes map) (key : κ) (value : ν)
    : Follows (writes ++ [(key, value)]) (map.write key value) where
  ordered := by
    rw [keys_write, writtenKeys_concat]
    exact (follows.ordered.filter _).append (List.Sublist.refl _)
  current other held member := by
    rw [latest_concat]
    rcases List.mem_append.mp member with old | new
    · obtain ⟨before, different⟩ := List.mem_filter.mp old
      rw [if_neg (by simpa using different)]
      exact follows.current other held before
    · obtain ⟨rfl, rfl⟩ := Prod.mk.inj (List.mem_singleton.mp new)
      rw [if_pos rfl]

theorem Follows.newest (follows : Follows writes map) (capacity : Nat)
    : Follows writes (map.newest capacity) where
  ordered := ((List.drop_sublist _ _).map _).trans follows.ordered
  current key value member := follows.current key value (List.mem_of_mem_drop member)

/-- Entries that the test drops are not covered. -/
theorem Covers.keep {capacity : Nat} {test : ν → Bool}
    (covers : Covers capacity test writes map)
    : Covers capacity test writes (map.keep test) :=
  fun key recent value written passes =>
    List.mem_filter.mpr ⟨covers key recent value written passes, passes⟩

/-- A stricter test covers less. -/
theorem Covers.mono {capacity : Nat} {weak strict : ν → Bool}
    (covers : Covers capacity weak writes map)
    (weaker : ∀ value, strict value = true → weak value = true)
    : Covers capacity strict writes map :=
  fun key recent value written passes => covers key recent value written (weaker value passes)

/-- A further key leaves those written last that are not pushed out by it. -/
theorem mem_rtake_writtenKeys {capacity : Nat} {other : κ}
    (recent : other ∈ (writtenKeys (writes ++ [(key, value)])).rtake capacity)
    (different : other ≠ key)
    : other ∈ (writtenKeys writes).rtake capacity := by
  by_contra gone
  have written : other ∈ writtenKeys writes := by
    have member := List.mem_of_mem_drop recent
    rw [writtenKeys_concat, List.mem_append] at member
    rcases member with old | new
    · exact (List.mem_filter.mp old).1
    · exact absurd (List.mem_singleton.mp new) different
  have nodup := nodup_writtenKeys writes
  obtain ⟨before, between, split⟩ := List.append_of_mem written
  rw [split] at gone nodup
  have enough := (rtake_eq_of_not_mem gone).1
  have fresh : other ∉ between :=
    (List.nodup_cons.mp (nodup.sublist (List.sublist_append_right _ _))).1
  have shorter : between.length ≤ (between.filter (· ≠ key) ++ [key]).length := by
    have distinct : between.Nodup :=
      nodup.sublist ((List.sublist_cons_self _ _).trans (List.sublist_append_right _ _))
    have count : between.length - 1 ≤ (between.erase key).length := List.le_length_erase
    have erased : between.erase key = between.filter (· ≠ key) := by
      rw [distinct.erase_eq_filter]
      refine List.filter_congr fun other _ => ?_
      rw [Bool.eq_iff_iff, bne_iff_ne, decide_eq_true_iff]
    rw [List.length_append, List.length_singleton, ← erased]
    omega
  rw [writtenKeys_concat, split, List.filter_append,
    List.filter_cons_of_pos (by simpa using different), List.append_assoc, List.cons_append,
    ← List.singleton_append, ← List.append_assoc,
    rtake_append_of_le_length (enough.trans shorter)] at recent
  rcases List.mem_append.mp (List.mem_of_mem_drop recent) with old | new
  · exact fresh (List.mem_filter.mp old).1
  · exact different (List.mem_singleton.mp new)

/-- Writing and dropping the oldest entries keeps those written last. -/
theorem Covers.write {capacity : Nat} {test : ν → Bool} (follows : Follows writes map)
    (covers : Covers capacity test writes map) (key : κ) (value : ν)
    : Covers capacity test (writes ++ [(key, value)]) ((map.write key value).newest capacity) := by
  intro other recent held written passes
  have inside : (other, held) ∈ (map.write key value).entries := by
    rw [latest_concat] at written
    by_cases same : other = key
    · subst same
      rw [if_pos rfl] at written
      obtain rfl := Option.some.inj written
      exact List.mem_append_right _ (List.mem_singleton_self _)
    · rw [if_neg same] at written
      have before := covers other (mem_rtake_writtenKeys recent same) held written passes
      exact List.mem_append_left _ (List.mem_filter.mpr ⟨before, by simpa using same⟩)
  have kept : other ∈ ((map.write key value).newest capacity).keys := by
    rw [keys_newest]
    exact mem_rtake_of_sublist (follows.write key value).ordered (nodup_writtenKeys _)
      (List.mem_map_of_mem (f := Prod.fst) inside) recent
  obtain ⟨⟨_, found⟩, member, rfl⟩ := List.mem_map.mp kept
  have same : found = held :=
    value_unique (List.mem_of_mem_drop member) inside
  exact same ▸ member

end RecentMap

end Library
