import Mathlib.Data.Set.Finite.Lemmas
import Mathlib.Data.Set.Finite.List
import Mathlib.Data.List.Basic

/-! A register whose newest write wins, where a write may leave one part of the value to what
is stored: when the order of the writes does not matter.
-/

namespace Library

/-- A write with its stamp; without a part of its own it takes over the stored one. -/
structure Write (τ σ α : Type) where
  stamp : τ
  part : Option σ
  rest : α

/-- What the register holds. -/
structure Stored (τ σ α : Type) where
  stamp : τ
  part : σ
  rest : α

namespace Write

variable {τ σ α : Type} [LinearOrder τ]

/-- A write on an empty register counts if it has its own part; on a full one, unless what is
stored is newer.
-/
def put (write : Write τ σ α) : Option (Stored τ σ α) → Option (Stored τ σ α)
  | none => write.part.map fun part => ⟨write.stamp, part, write.rest⟩
  | some stored =>
      if stored.stamp ≤ write.stamp then
        some ⟨write.stamp, write.part.getD stored.part, write.rest⟩
      else some stored

def puts (stored : Option (Stored τ σ α)) (writes : List (Write τ σ α))
    : Option (Stored τ σ α) :=
  writes.foldl (fun stored write => write.put stored) stored

/-- The write is not older than what is stored at first. -/
def Relevant (stored : Option (Stored τ σ α)) (write : Write τ σ α) : Prop :=
  ∀ held, stored = some held → held.stamp ≤ write.stamp

/-- All orders of the writes end alike. -/
def Converges (stored : Option (Stored τ σ α)) (writes : List (Write τ σ α)) : Prop :=
  ∀ left right,
    left.Perm writes → right.Perm writes → puts stored left = puts stored right

/-- The newest of the writes that are not older than what is stored has its own part, or the
parts that these writes have are the stored one.
-/
def Settled (stored : Option (Stored τ σ α)) (writes : List (Write τ σ α)) : Prop :=
  ∀ newest ∈ writes,
    Relevant stored newest
    → (∀ write ∈ writes, Relevant stored write → write.stamp ≤ newest.stamp)
    → newest.part.isSome = true
      ∨ ∀ write ∈ writes,
          Relevant stored write
          → ∀ part, write.part = some part → stored.map Stored.part = some part

variable {stored : Option (Stored τ σ α)} {held : Stored τ σ α} {write : Write τ σ α}
  {writes : List (Write τ σ α)}

theorem puts_append (writes more : List (Write τ σ α))
    : puts stored (writes ++ more) = puts (puts stored writes) more :=
  List.foldl_append

theorem puts_cons (write : Write τ σ α) (writes : List (Write τ σ α))
    : puts stored (write :: writes) = puts (write.put stored) writes :=
  rfl

/-- Older writes change nothing, by induction on the writes. -/
theorem puts_of_older (older : ∀ write ∈ writes, write.stamp < held.stamp)
    : puts (some held) writes = some held := by
  induction writes with
  | nil => rfl
  | cons write rest ih =>
      have first : write.put (some held) = some held :=
        if_neg (not_le.mpr (older write (by simp)))
      rw [puts_cons, first]
      exact ih fun other member => older other (by simp [member])

/-- The stored stamp is the first one or that of a write, by induction on the writes. -/
theorem stamp_of_puts (ends : puts stored writes = some held)
    : (∃ first, stored = some first ∧ first.stamp = held.stamp)
      ∨ ∃ write ∈ writes, write.stamp = held.stamp := by
  induction writes generalizing stored with
  | nil => exact .inl ⟨held, ends, rfl⟩
  | cons write rest ih =>
      rcases ih ends with ⟨first, now, same⟩ | ⟨other, member, same⟩
      · rcases stored with _ | before
        · obtain ⟨part, -, rfl⟩ := Option.map_eq_some_iff.mp now
          exact .inr ⟨write, by simp, same⟩
        · change write.put (some before) = some first at now
          rw [put] at now
          split_ifs at now with newer
          · obtain rfl := Option.some.inj now
            exact .inr ⟨write, by simp, same⟩
          · exact .inl ⟨before, rfl, Option.some.inj now ▸ same⟩
      · exact .inr ⟨other, by simp [member], same⟩

/-- A full register stays full, by induction on the writes; its part changes only to a part of
a write that is not older than what was stored at first.
-/
theorem puts_part {part : σ} (starts : held.part = part)
    (parts
      : ∀ write ∈ writes,
          held.stamp ≤ write.stamp → ∀ own, write.part = some own → own = part)
    : ∃ last, puts (some held) writes = some last ∧ last.part = part := by
  induction writes generalizing held with
  | nil => exact ⟨held, rfl, starts⟩
  | cons write rest ih =>
      rw [puts_cons, put]
      split_ifs with newer
      · refine ih ?_ ?_
        · cases own : write.part with
          | none => exact starts
          | some value => exact parts write (by simp) newer value own
        · intro other member later
          exact parts other (by simp [member]) (newer.trans later)
      · exact ih starts fun other member => parts other (by simp [member])

/-- Writes without parts leave an empty register empty, by induction on the writes. -/
theorem puts_none (parts : ∀ write ∈ writes, write.part = none)
    : puts (none : Option (Stored τ σ α)) writes = none := by
  induction writes with
  | nil => rfl
  | cons write rest ih =>
      have first : write.put (none : Option (Stored τ σ α)) = none := by
        rw [put, parts write (by simp)]
        rfl
      rw [puts_cons, first]
      exact ih fun other member => parts other (by simp [member])

/-- The newest write on a register that is not newer, followed by older writes. -/
theorem puts_newest {newest : Write τ σ α} {later : List (Write τ σ α)} {part : σ}
    (fresh : ∀ held, stored = some held → held.stamp ≤ newest.stamp)
    (takes : newest.part.or (stored.map Stored.part) = some part)
    (older : ∀ write ∈ later, write.stamp < newest.stamp)
    : puts stored (newest :: later) = some ⟨newest.stamp, part, newest.rest⟩ := by
  have first : newest.put stored = some ⟨newest.stamp, part, newest.rest⟩ := by
    cases stored with
    | none =>
        have own : newest.part = some part := by simpa using takes
        rw [put, own]
        rfl
    | some held =>
        rw [put, if_pos (fresh held rfl)]
        cases own : newest.part with
        | none =>
            have same : held.part = part := by simpa [own] using takes
            rw [← same]
            rfl
        | some value =>
            have same : value = part := by simpa [own] using takes
            rw [← same]
            rfl
  rw [puts_cons, first]
  exact puts_of_older older

/-- The newest relevant write is newer than every other one. -/
theorem older_than_newest {newest : Write τ σ α} {others : List (Write τ σ α)}
    (distinct : (newest :: others).Pairwise fun left right => left.stamp ≠ right.stamp)
    (relevant : Relevant stored newest)
    (greatest : ∀ write ∈ others, Relevant stored write → write.stamp ≤ newest.stamp)
    : ∀ write ∈ others, write.stamp < newest.stamp := by
  intro write member
  by_cases relevantToo : Relevant stored write
  · have different := (List.pairwise_cons.mp distinct).1 write member
    exact lt_of_le_of_ne (greatest write member relevantToo) (Ne.symm different)
  · unfold Relevant at relevantToo
    push Not at relevantToo
    obtain ⟨held, found, older⟩ := relevantToo
    exact lt_of_lt_of_le older (relevant held found)

theorem exists_newest (relevant : ∃ write ∈ writes, Relevant stored write)
    : ∃ newest ∈ writes,
        Relevant stored newest
        ∧ ∀ write ∈ writes, Relevant stored write → write.stamp ≤ newest.stamp := by
  have finite : {write | write ∈ writes ∧ Relevant stored write}.Finite :=
    (List.finite_toSet writes).subset fun _ both => both.1
  obtain ⟨newest, ⟨member, isRelevant⟩, greatest⟩ :=
    Set.exists_max_image _ Write.stamp finite relevant
  exact ⟨newest, member, isRelevant, fun write inside both => greatest write ⟨inside, both⟩⟩

omit [LinearOrder τ] in
/-- Stamps stay distinct in every order. -/
theorem distinct_perm {left : List (Write τ σ α)}
    (distinct : writes.Pairwise fun left right => left.stamp ≠ right.stamp)
    (order : left.Perm writes)
    : left.Pairwise fun left right => left.stamp ≠ right.stamp :=
  (order.pairwise_iff fun different => Ne.symm different).mpr distinct

/-- The newest write decides in every order, with the part that it has or finds. -/
theorem puts_order {newest : Write τ σ α} {part : σ} {left : List (Write τ σ α)}
    (distinct : writes.Pairwise fun left right => left.stamp ≠ right.stamp)
    (order : left.Perm writes) (member : newest ∈ writes) (isRelevant : Relevant stored newest)
    (greatest : ∀ write ∈ writes, Relevant stored write → write.stamp ≤ newest.stamp)
    (takes
      : ∀ before ⊆ writes, newest.part.or ((puts stored before).map Stored.part) = some part)
    : puts stored left = some ⟨newest.stamp, part, newest.rest⟩ := by
  obtain ⟨before, after, rfl⟩ := List.append_of_mem (order.mem_iff.mpr member)
  have older := older_than_newest
    (distinct_perm distinct (List.perm_middle.symm.trans order)) isRelevant
    fun write inside =>
      greatest write (order.mem_iff.mp (List.perm_middle.mem_iff.mpr (by simp_all)))
  have earlier : before ⊆ writes := fun write inside => order.mem_iff.mp (by simp [inside])
  rw [puts_append]
  refine puts_newest ?_ (takes before earlier) fun write inside => older write (by simp [inside])
  intro held ends
  rcases stamp_of_puts ends with ⟨first, found, same⟩ | ⟨write, inside, same⟩
  · exact same ▸ isRelevant first found
  · exact same ▸ (older write (by simp [inside])).le

/-- Where every write is older than what is stored, all orders leave it. -/
theorem puts_of_irrelevant {left : List (Write τ σ α)} (order : left.Perm writes)
    (irrelevant : ∀ write ∈ writes, ¬ Relevant stored write)
    : puts stored left = stored := by
  rcases empty : stored with _ | first
  · have none : left = [] := by
      refine List.eq_nil_iff_forall_not_mem.mpr fun write inside => ?_
      exact irrelevant write (order.mem_iff.mp inside) (by simp [Relevant, empty])
    rw [none]
    rfl
  · refine puts_of_older fun write inside => ?_
    have older := irrelevant write (order.mem_iff.mp inside)
    unfold Relevant at older
    push Not at older
    obtain ⟨held, found, older⟩ := older
    obtain rfl := Option.some.inj (empty.symm.trans found)
    exact older

/-- Settled writes end alike: in every order the newest one decides. -/
theorem Settled.converges
    (distinct : writes.Pairwise fun left right => left.stamp ≠ right.stamp)
    (settled : Settled stored writes)
    : Converges stored writes := by
  suffices canonical : ∃ final, ∀ left : List (Write τ σ α),
      left.Perm writes → puts stored left = final by
    obtain ⟨final, same⟩ := canonical
    intro left right first second
    rw [same left first, same right second]
  by_cases relevant : ∃ write ∈ writes, Relevant stored write
  · obtain ⟨newest, member, isRelevant, greatest⟩ := exists_newest relevant
    rcases settled newest member isRelevant greatest with own | inherited
    · -- the newest write brings its own part
      obtain ⟨part, own⟩ := Option.isSome_iff_exists.mp own
      refine ⟨some ⟨newest.stamp, part, newest.rest⟩, fun left order => ?_⟩
      exact puts_order distinct order member isRelevant greatest fun before _ => by
        rw [own, Option.some_or]
    · rcases empty : stored with _ | first
      · -- nothing is stored and nothing brings a part
        refine ⟨none, fun left order => puts_none ?_⟩
        intro write inside
        by_contra own
        obtain ⟨part, own⟩ := Option.ne_none_iff_exists'.mp own
        have stores := inherited write (order.mem_iff.mp inside) (by simp [Relevant, empty])
          part own
        simp [empty] at stores
      · -- the stored part stays
        subst empty
        refine ⟨some ⟨newest.stamp, first.part, newest.rest⟩, fun left order => ?_⟩
        have agrees : ∀ write ∈ writes,
            first.stamp ≤ write.stamp → ∀ own, write.part = some own → own = first.part := by
          intro write inside newer own brings
          have same := inherited write inside
            (fun held found => Option.some.inj found ▸ newer) own brings
          exact (Option.some.inj same).symm
        refine puts_order distinct order member isRelevant greatest fun before earlier => ?_
        obtain ⟨last, ends, part⟩ : ∃ last,
            puts (some first) before = some last ∧ last.part = first.part :=
          puts_part rfl fun write inside => agrees write (earlier inside)
        rw [ends]
        cases own : newest.part with
        | none => simp [part]
        | some value =>
            have same := agrees newest member (isRelevant first rfl) value own
            simp [same]
  · -- every write is older than what is stored
    push Not at relevant
    exact ⟨stored, fun left order => puts_of_irrelevant order relevant⟩

/-- Without that, two orders end differently: the newest write first, where it finds what is
stored, and right after a write that brings another part.
-/
theorem Converges.settled
    (distinct : writes.Pairwise fun left right => left.stamp ≠ right.stamp)
    (converges : Converges stored writes)
    : Settled stored writes := by
  intro newest member isRelevant greatest
  by_contra unsettled
  push Not at unsettled
  obtain ⟨silent, write, inside, relevantToo, part, brings, differs⟩ := unsettled
  have none : newest.part = none := by simpa using silent
  obtain ⟨before, after, rfl⟩ := List.append_of_mem member
  have newestFirst : (newest :: (before ++ after)).Perm (before ++ newest :: after) :=
    List.perm_middle.symm
  have other : write ∈ before ++ after := by
    rcases List.mem_cons.mp (newestFirst.mem_iff.mpr inside) with same | other
    · rw [same, none] at brings
      exact absurd brings (by simp)
    · exact other
  have older := older_than_newest (distinct_perm distinct newestFirst) isRelevant
    fun each there => greatest each (newestFirst.mem_iff.mp (List.mem_cons_of_mem newest there))
  obtain ⟨front, back, split⟩ := List.append_of_mem other
  have writeFirst : (write :: newest :: (front ++ back)).Perm (before ++ newest :: after) := by
    refine .trans ?_ newestFirst
    rw [split]
    exact (List.Perm.swap newest write _).trans (List.perm_middle.symm.cons newest)
  have same := converges _ _ newestFirst writeFirst
  have olderRest : ∀ each ∈ front ++ back, each.stamp < newest.stamp := by
    intro each there
    refine older each ?_
    rw [split]
    rcases List.mem_append.mp there with early | late
    · simp [early]
    · simp [late]
  -- after the other write the newest one keeps that write's part
  have second : puts stored (write :: newest :: (front ++ back))
      = some ⟨newest.stamp, part, newest.rest⟩ := by
    have first : write.put stored = some ⟨write.stamp, part, write.rest⟩ := by
      rcases stored with _ | held
      · rw [put, brings]
        rfl
      · rw [put, if_pos (relevantToo held rfl), brings]
        rfl
    rw [puts_cons, first]
    refine puts_newest ?_ (by simp [none]) olderRest
    intro held now
    obtain rfl := Option.some.inj now
    exact (older write other).le
  rw [second] at same
  rcases stored with _ | held
  · rw [puts_cons, put, none] at same
    rcases stamp_of_puts same with ⟨first, now, -⟩ | ⟨each, there, stamp⟩
    · exact absurd now (by simp)
    · exact absurd stamp (older each there).ne
  · have first : puts (some held) (newest :: (before ++ after))
        = some ⟨newest.stamp, held.part, newest.rest⟩ :=
      puts_newest isRelevant (by simp [none]) older
    rw [first] at same
    have parts := congrArg (Option.map Stored.part) same
    exact differs (by simpa using parts)

/-- When the order of writes with distinct stamps does not matter. -/
theorem converges_iff
    (distinct : writes.Pairwise fun left right => left.stamp ≠ right.stamp)
    : Converges stored writes ↔ Settled stored writes :=
  ⟨Converges.settled distinct, Settled.converges distinct⟩

end Write

/-- An order of what a partial function finds in a list comes from an order of the list, by
induction on what is found.
-/
theorem exists_perm_filterMap {α β : Type} (find : α → Option β) {items : List α}
    {found : List β} (order : found.Perm (items.filterMap find))
    : ∃ ordered : List α, ordered.Perm items ∧ ordered.filterMap find = found := by
  induction found generalizing items with
  | nil => exact ⟨items, .refl items, order.nil_eq.symm⟩
  | cons first rest ih =>
      obtain ⟨item, member, finds⟩ :=
        List.mem_filterMap.mp (order.mem_iff.mp (List.mem_cons_self (a := first) (l := rest)))
      obtain ⟨before, after, rfl⟩ := List.append_of_mem member
      have others : rest.Perm ((before ++ after).filterMap find) := by
        refine List.Perm.cons_inv (a := first) (order.trans ?_)
        rw [List.filterMap_append, List.filterMap_cons_some finds, List.filterMap_append]
        exact List.perm_middle
      obtain ⟨ordered, same, rfl⟩ := ih others
      refine ⟨item :: ordered, (same.cons item).trans List.perm_middle.symm, ?_⟩
      rw [List.filterMap_cons_some finds]

end Library
