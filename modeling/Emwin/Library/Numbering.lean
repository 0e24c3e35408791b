import Mathlib.Data.List.Nodup
import Mathlib.Data.List.Range
import Mathlib.Data.List.AList

/-! Lists that are sorted by a number, and ordered maps of numbered values. -/

namespace Library

variable {α : Type} {number : α → Nat}

/-- The list is strictly increasing in the number of its elements. -/
def Increasing (number : α → Nat) (list : List α) : Prop :=
  list.Pairwise (fun left right => number left < number right)

theorem Increasing.nodup {list : List α} (increasing : Increasing number list)
    : list.Nodup :=
  List.Pairwise.imp (fun less same => by simp [same] at less) increasing

theorem Increasing.filter {list : List α} (increasing : Increasing number list)
    (keep : α → Bool)
    : Increasing number (list.filter keep) :=
  List.Pairwise.filter keep increasing

/-- Increasing lists with the same members are equal. -/
theorem Increasing.ext {left right : List α} (increasing : Increasing number left)
    (increasing' : Increasing number right) (members : ∀ value, value ∈ left ↔ value ∈ right)
    : left = right := by
  have perm := (List.perm_ext_iff_of_nodup increasing.nodup increasing'.nodup).mpr members
  refine perm.eq_of_pairwise ?_ increasing increasing'
  intro value other _ _ less greater
  omega

/-- A list numbered from one upwards is increasing. -/
theorem increasing_of_numbers {list : List α} {start : Nat}
    (numbers : list.map number = List.range' start list.length)
    : Increasing number list := by
  have sorted : (list.map number).Pairwise (· < ·) := by
    rw [numbers]
    exact List.pairwise_lt_range'
  exact List.pairwise_map.mp sorted

theorem Increasing.sorted_numbers {list : List α} (increasing : Increasing number list)
    : (list.map number).Pairwise (· < ·) :=
  List.pairwise_map.mpr increasing

/-- An element of an increasing list is determined by its number. -/
theorem Increasing.eq_of_number {list : List α} (increasing : Increasing number list)
    {left right : α} (leftMember : left ∈ list) (rightMember : right ∈ list)
    (same : number left = number right)
    : left = right :=
  List.inj_on_of_nodup_map (increasing.sorted_numbers.imp (fun less => less.ne)) leftMember
    rightMember same

/-- Increasing numbers between one and a bound are some of the numbers up to the bound. -/
theorem Increasing.subperm {list : List α} {bound : Nat}
    (increasing : Increasing number list)
    (bounds : ∀ value ∈ list, 1 ≤ number value ∧ number value ≤ bound)
    : (list.map number).Subperm (List.range' 1 bound) := by
  refine List.subperm_of_subset (increasing.sorted_numbers.imp (fun less => less.ne)) ?_
  intro value member
  obtain ⟨element, inList, rfl⟩ := List.mem_map.mp member
  have within := bounds element inList
  rw [List.mem_range'_1]
  omega

theorem Increasing.length_le {list : List α} {bound : Nat}
    (increasing : Increasing number list)
    (bounds : ∀ value ∈ list, 1 ≤ number value ∧ number value ≤ bound)
    : list.length ≤ bound := by
  simpa using (increasing.subperm bounds).length_le

/-- As many increasing numbers as the bound are all numbers up to the bound. -/
theorem Increasing.numbers {list : List α} (increasing : Increasing number list)
    (bounds : ∀ value ∈ list, 1 ≤ number value ∧ number value ≤ list.length)
    : list.map number = List.range' 1 list.length := by
  have perm := (increasing.subperm bounds).perm_of_length_le (by simp)
  refine perm.eq_of_pairwise ?_ increasing.sorted_numbers List.pairwise_lt_range'
  intro value other _ _ less greater
  omega

/-- The values of a map in the order of their keys. -/
def orderedValues (map : Std.TreeMap UInt32 α) : List α := map.toList.map Prod.snd

theorem mem_orderedValues {map : Std.TreeMap UInt32 α} {value : α}
    : value ∈ orderedValues map ↔ ∃ key : UInt32, map[key]? = some value := by
  simp only [orderedValues, List.mem_map, Prod.exists, exists_eq_right,
    Std.TreeMap.mem_toList_iff_getElem?_eq_some]

theorem length_orderedValues (map : Std.TreeMap UInt32 α)
    : (orderedValues map).length = map.size := by
  simp [orderedValues]

/-- Values that are stored under their own number come out increasing. -/
theorem orderedValues_increasing {map : Std.TreeMap UInt32 α} {label : α → UInt32}
    (labelled : ∀ key value, map[key]? = some value → label value = key)
    : Increasing (fun value => (label value).toNat) (orderedValues map) := by
  refine List.pairwise_map.mpr ?_
  refine map.ordered_keys_toList.imp_of_mem ?_
  intro left right leftMember rightMember less
  simp only
  rw [labelled _ _ (Std.TreeMap.mem_toList_iff_getElem?_eq_some.mp leftMember),
    labelled _ _ (Std.TreeMap.mem_toList_iff_getElem?_eq_some.mp rightMember)]
  exact UInt32.lt_iff_toNat_lt.mp (compareOfLessAndEq_eq_lt.mp less)

end Library
