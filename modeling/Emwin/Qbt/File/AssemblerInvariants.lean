import Emwin.Library.Machine
import Emwin.Library.Recent
import Emwin.Qbt.File.AssemblerSoundness

/-! What holds in every state of the assembler: its three collections fit together, and no
file is delivered again while it is remembered.
-/

namespace Emwin.Qbt
open Library

namespace QbtFileAssembler

inductive AssemblerAction where
  | push (order : IterationOrder Text InflightFile) (now : Instant) (segment : QbtSegment)
  | clear

/-- Assemblers with the given limits. -/
def machine (toLowercase : Text → Text) (duplicateCacheSize maxInflightFiles : Nat)
    (inflightTtl : Duration)
    : Machine QbtFileAssembler AssemblerAction where
  Start assembler := assembler = idle duplicateCacheSize maxInflightFiles inflightTtl
  step assembler
    | .push order now segment => some (assembler.push toLowercase order now segment).2
    | .clear => some assembler.clear

/-- The keys delivered since the last clear, in order, and the clock at the last push that
got past the duplicate check.
-/
structure Deliveries where
  keys : List Text := []
  lastPush : Option Instant := none

instance (segment : QbtSegment) : Decidable (Accepts segment) :=
  inferInstanceAs (Decidable (_ ∧ _ ∧ _))

def note (toLowercase : Text → Text) (assembler : QbtFileAssembler)
    (action : AssemblerAction) (deliveries : Deliveries)
    : Deliveries :=
  match action with
  | .push order now segment =>
      { keys :=
          if (assembler.push toLowercase order now segment).1.isSome then
            deliveries.keys ++ [fileKey toLowercase segment]
          else deliveries.keys
        lastPush :=
          if Accepts segment ∧ fileKey toLowercase segment ∉ assembler.completedIndex then
            some now
          else deliveries.lastPush }
  | .clear => { deliveries with keys := [] }

-----------------------------------------------------------------------------------------
-- What a push does
-----------------------------------------------------------------------------------------

variable {toLowercase : Text → Text} {order : IterationOrder Text InflightFile}
  {now : Instant} {assembler : QbtFileAssembler} {segment : QbtSegment}

/-- The assembler after the file of a pushed segment was completed. -/
def completedStore (toLowercase : Text → Text) (order : IterationOrder Text InflightFile)
    (now : Instant) (assembler : QbtFileAssembler) (segment : QbtSegment)
    : QbtFileAssembler :=
  { pushedStore toLowercase order now assembler segment with
    byKey :=
      (pushedStore toLowercase order now assembler segment).byKey.erase
        (fileKey toLowercase segment)
  }.rememberCompleted (fileKey toLowercase segment)

/-- Everything a push can do: nothing, store the segment, or complete the file. -/
inductive Pushed (toLowercase : Text → Text) (order : IterationOrder Text InflightFile)
    (now : Instant) (assembler : QbtFileAssembler) (segment : QbtSegment)
    : Option QbtCompletedFile × QbtFileAssembler → Prop
  | ignored
    (held : ¬ (Accepts segment ∧ fileKey toLowercase segment ∉ assembler.completedIndex))
    : Pushed toLowercase order now assembler segment (none, assembler)
  | stored (accepts : Accepts segment)
    (fresh : fileKey toLowercase segment ∉ assembler.completedIndex)
    (missing
      : (pushedEntry toLowercase order now assembler segment).parts.size
        ≠ segment.totalBlocks.toNat)
    : Pushed toLowercase order now assembler segment
        (none, pushedStore toLowercase order now assembler segment)
  | completed (accepts : Accepts segment)
    (fresh : fileKey toLowercase segment ∉ assembler.completedIndex)
    (full
      : UInt32.ofNat (pushedEntry toLowercase order now assembler segment).parts.size
        = segment.totalBlocks)
    (file : QbtCompletedFile)
    : Pushed toLowercase order now assembler segment
        (some file, completedStore toLowercase order now assembler segment)

/-- The entry of a pushed segment is not empty. -/
theorem pushedEntry_values_ne_nil
    : (pushedEntry toLowercase order now assembler segment).values ≠ [] := by
  have stored : segment ∈ (pushedEntry toLowercase order now assembler segment).values :=
    InflightFile.mem_values_receive.mpr (.inl rfl)
  exact List.ne_nil_of_mem stored

theorem push_pushed (toLowercase : Text → Text) (order : IterationOrder Text InflightFile)
    (now : Instant) (assembler : QbtFileAssembler) (segment : QbtSegment)
    : Pushed toLowercase order now assembler segment
        (assembler.push toLowercase order now segment) := by
  by_cases accepts : Accepts segment
  · by_cases known : fileKey toLowercase segment ∈ assembler.completedIndex
    · rw [push_known known]
      exact .ignored fun held => held.2 known
    rw [push_accepted accepts known]
    split
    · next differs =>
        refine .stored accepts known ?_
        rw [InflightFile.size_eq_length]
        intro same
        exact differs (by rw [same, UInt32.ofNat_toNat])
    · next same =>
        split
        · next none => exact absurd (List.head?_eq_none_iff.mp none) pushedEntry_values_ne_nil
        · refine .completed accepts known ?_ _
          rw [InflightFile.size_eq_length]
          exact not_not.mp same
  · rw [push_ignored accepts]
    exact .ignored fun held => accepts held.1

/-- Two assemblers with the same limits and the same memory. -/
structure SameMemory (left right : QbtFileAssembler) : Prop where
  duplicateCacheSize : left.duplicateCacheSize = right.duplicateCacheSize
  maxInflightFiles : left.maxInflightFiles = right.maxInflightFiles
  inflightTtl : left.inflightTtl = right.inflightTtl
  recent : left.completedRecent = right.completedRecent
  index : left.completedIndex = right.completedIndex

/-- Storing a segment is about the files in flight only. -/
theorem pushedStore_sameMemory
    : SameMemory (pushedStore toLowercase order now assembler segment) assembler := by
  simp only [pushedStore, makeRoom]
  split_ifs <;> exact ⟨rfl, rfl, rfl, rfl, rfl⟩

/-- An entry of the store is the pushed one, or an entry of before that is not stale. -/
theorem lookup_pushedStore {key : Text} {inflight : InflightFile}
    (found
      : (pushedStore toLowercase order now assembler segment).byKey.lookup key = some inflight)
    : (key = fileKey toLowercase segment
        ∧ inflight = pushedEntry toLowercase order now assembler segment)
      ∨ (key ≠ fileKey toLowercase segment
        ∧ assembler.byKey.lookup key = some inflight
        ∧ now - inflight.lastSeen ≤ assembler.inflightTtl) := by
  simp only [pushedStore] at found
  by_cases same : key = fileKey toLowercase segment
  · subst same
    rw [AList.lookup_insert] at found
    exact .inl ⟨rfl, (Option.some.inj found).symm⟩
  · rw [AList.lookup_insert_ne same] at found
    have kept := lookup_of_makeRoom found
    have timely := KeyedMap.keep_of_lookup_retain kept
    exact .inr ⟨same, KeyedMap.lookup_of_retain kept, of_decide_eq_true timely⟩

/-- With a positive limit the store stays within it: a new key makes room first. -/
theorem size_pushedStore_le (positive : 1 ≤ assembler.maxInflightFiles)
    (fits : assembler.byKey.size ≤ assembler.maxInflightFiles)
    : (pushedStore toLowercase order now assembler segment).byKey.size
      ≤ assembler.maxInflightFiles := by
  simp only [pushedStore, KeyedMap.size_insert, makeRoom]
  split_ifs with present inserted
  · exact (KeyedMap.size_retain_le _ _).trans fits
  · exact (evictOverflowInflight_room _ order positive).le
  · exact evictOverflowInflight_room _ order positive

/-- The remembered keys are the last ones, by induction on the keys to forget. -/
theorem forgetOldest_recent (capacity : Nat) (recent : List Text) (index : Finset Text)
    : (forgetOldest capacity recent index).1 = recent.rtake capacity := by
  induction recent generalizing index with
  | nil => simp [forgetOldest]
  | cons old rest ih =>
      rw [forgetOldest]
      split
      · next long =>
          rw [ih]
          simp only [List.length_cons] at long
          simp only [List.rtake, List.length_cons]
          rw [show rest.length + 1 - capacity = rest.length - capacity + 1 by omega,
            List.drop_succ_cons]
      · next short =>
          simp only [List.rtake]
          rw [Nat.sub_eq_zero_of_le (Nat.not_lt.mp short), List.drop_zero]

theorem rememberCompleted_recent {key : Text} (fresh : key ∉ assembler.completedIndex)
    : (assembler.rememberCompleted key).completedRecent
      = (assembler.completedRecent ++ [key]).rtake assembler.duplicateCacheSize := by
  simp only [rememberCompleted, fresh, dif_neg, not_false_eq_true]
  exact forgetOldest_recent _ _ _

-----------------------------------------------------------------------------------------
-- The invariant
-----------------------------------------------------------------------------------------

/-- The files in flight: none is stale at the last push, remembered, empty or complete. -/
structure SoundEntries (assembler : QbtFileAssembler) (lastPush : Option Instant) : Prop where
  timely
    : ∀ now ∈ lastPush, ∀ key inflight,
        assembler.byKey.lookup key = some inflight
        → now - inflight.lastSeen ≤ assembler.inflightTtl
  disjoint
    : ∀ key inflight,
        assembler.byKey.lookup key = some inflight → key ∉ assembler.completedIndex
  unfinished
    : ∀ key inflight,
        assembler.byKey.lookup key = some inflight
        → inflight.parts.size ≠ 0 ∧ inflight.parts.size ≠ inflight.totalBlocks.toNat

/-- The remembered files: distinct, within the limit, and indexed. Between two deliveries of
one key stand deliveries of as many other keys as the cache holds.
-/
structure SoundRecent (assembler : QbtFileAssembler) (keys : List Text) : Prop where
  nodup : assembler.completedRecent.Nodup
  fits : assembler.completedRecent.length ≤ assembler.duplicateCacheSize
  indexed : ∀ key, key ∈ assembler.completedIndex ↔ key ∈ assembler.completedRecent
  spaced
    : ∀ before key between,
        before ++ key :: between ++ [key] <+: keys
        → assembler.duplicateCacheSize ≤ (between.toFinset.erase key).card

structure Sound (assembler : QbtFileAssembler) (deliveries : Deliveries) : Prop where
  fits : assembler.byKey.size ≤ assembler.maxInflightFiles
  entries : SoundEntries assembler deliveries.lastPush
  recent : SoundRecent assembler deliveries.keys

/-- Storing a segment that does not complete its file keeps the entries sound. -/
theorem SoundEntries.stored {lastPush : Option Instant}
    (sound : SoundEntries assembler lastPush)
    (fresh : fileKey toLowercase segment ∉ assembler.completedIndex)
    (missing
      : (pushedEntry toLowercase order now assembler segment).parts.size
        ≠ segment.totalBlocks.toNat)
    : SoundEntries (pushedStore toLowercase order now assembler segment) (some now) := by
  have same : SameMemory (pushedStore toLowercase order now assembler segment) assembler :=
    pushedStore_sameMemory
  refine ⟨?_, ?_, ?_⟩
  · rintro _ ⟨⟩ key inflight found
    rw [same.inflightTtl]
    rcases lookup_pushedStore found with ⟨-, rfl⟩ | ⟨-, -, timely⟩
    · exact (Nat.sub_self now).trans_le (Nat.zero_le _)
    · exact timely
  · intro key inflight found
    rw [same.index]
    rcases lookup_pushedStore found with ⟨rfl, -⟩ | ⟨-, before, -⟩
    · exact fresh
    · exact sound.disjoint key inflight before
  · intro key inflight found
    rcases lookup_pushedStore found with ⟨-, rfl⟩ | ⟨-, before, -⟩
    · refine ⟨?_, missing⟩
      rw [InflightFile.size_eq_length]
      exact List.length_eq_zero_iff.not.mpr pushedEntry_values_ne_nil
    · exact sound.unfinished key inflight before

/-- What is left in flight after a completion was in flight before. -/
theorem lookup_completedStore {key : Text} {inflight : InflightFile}
    (found
      : (completedStore toLowercase order now assembler segment).byKey.lookup key
        = some inflight)
    : key ≠ fileKey toLowercase segment
      ∧ assembler.byKey.lookup key = some inflight
      ∧ now - inflight.lastSeen ≤ assembler.inflightTtl := by
  rw [completedStore, byKey_rememberCompleted] at found
  have other : key ≠ fileKey toLowercase segment := by
    rintro rfl
    rw [AList.lookup_erase] at found
    cases found
  rcases lookup_pushedStore (KeyedMap.lookup_of_erase found) with ⟨same, -⟩ | old
  · exact absurd same other
  · exact old

theorem completedStore_recent
    (fresh : fileKey toLowercase segment ∉ assembler.completedIndex)
    : (completedStore toLowercase order now assembler segment).completedRecent
      = (assembler.completedRecent ++ [fileKey toLowercase segment]).rtake
          assembler.duplicateCacheSize := by
  have same : SameMemory (pushedStore toLowercase order now assembler segment) assembler :=
    pushedStore_sameMemory
  rw [← same.index] at fresh
  rw [← same.recent, ← same.duplicateCacheSize]
  exact rememberCompleted_recent fresh

theorem completedStore_limits
    : (completedStore toLowercase order now assembler segment).inflightTtl
        = assembler.inflightTtl
      ∧ (completedStore toLowercase order now assembler segment).maxInflightFiles
        = assembler.maxInflightFiles
      ∧ (completedStore toLowercase order now assembler segment).duplicateCacheSize
        = assembler.duplicateCacheSize := by
  have same : SameMemory (pushedStore toLowercase order now assembler segment) assembler :=
    pushedStore_sameMemory
  rw [← same.inflightTtl, ← same.maxInflightFiles, ← same.duplicateCacheSize]
  exact rememberCompleted_limits _ _

/-- Completing a file takes its entry away and remembers no other key. -/
theorem SoundEntries.completed {lastPush : Option Instant}
    (sound : SoundEntries assembler lastPush)
    (fresh : fileKey toLowercase segment ∉ assembler.completedIndex)
    : SoundEntries (completedStore toLowercase order now assembler segment) (some now) := by
  refine ⟨?_, ?_, ?_⟩
  · rintro _ ⟨⟩ key inflight found
    rw [completedStore_limits.1]
    exact (lookup_completedStore found).2.2
  · intro key inflight found
    obtain ⟨other, before, -⟩ := lookup_completedStore found
    have unknown := sound.disjoint key inflight before
    rw [assembler.indexed, List.mem_toFinset] at unknown
    rw [(completedStore toLowercase order now assembler segment).indexed, List.mem_toFinset,
      completedStore_recent fresh]
    intro member
    rcases List.mem_append.mp (List.mem_of_mem_drop member) with old | new
    · exact unknown old
    · exact other (List.mem_singleton.mp new)
  · intro key inflight found
    exact sound.unfinished key inflight (lookup_completedStore found).2.1

/-- The remembered keys are the last ones delivered, and a key that is delivered again had
all of them delivered since its last time.
-/
structure Remembers (assembler : QbtFileAssembler) (keys : List Text) : Prop where
  recent : assembler.completedRecent = keys.rtake assembler.duplicateCacheSize
  spaced
    : ∀ before key between,
        before ++ key :: between ++ [key] <+: keys
        → assembler.duplicateCacheSize ≤ (between.toFinset.erase key).card

/-- One more delivery of a key that is not remembered. -/
theorem Remembers.completed {keys : List Text} (remembers : Remembers assembler keys)
    (fresh : fileKey toLowercase segment ∉ assembler.completedIndex)
    : Remembers (completedStore toLowercase order now assembler segment)
        (keys ++ [fileKey toLowercase segment]) := by
  obtain ⟨recent, spaced⟩ := remembers
  refine ⟨?_, ?_⟩
  · rw [completedStore_recent fresh, recent, completedStore_limits.2.2]
    exact rtake_concat_rtake
  · intro before key between delivered
    rw [completedStore_limits.2.2]
    rcases List.prefix_concat_iff.mp delivered with now | earlier
    · obtain ⟨rfl, same⟩ := List.append_inj' now rfl
      obtain rfl := List.singleton_inj.mp same
      have nodup := assembler.recentNodup
      rw [assembler.indexed, List.mem_toFinset] at fresh
      rw [recent] at nodup fresh
      exact capacity_le_card_between nodup fresh
    · exact spaced before key between earlier

theorem Remembers.sound {keys : List Text} (remembers : Remembers assembler keys)
    : SoundRecent assembler keys where
  nodup := assembler.recentNodup
  fits := by
    rw [remembers.recent, List.rtake, List.length_drop]
    omega
  indexed key := by rw [assembler.indexed, List.mem_toFinset]
  spaced := remembers.spaced

-----------------------------------------------------------------------------------------
-- Runs
-----------------------------------------------------------------------------------------

theorem push_maxInflightFiles
    : (assembler.push toLowercase order now segment).2.maxInflightFiles
      = assembler.maxInflightFiles := by
  have pushed := push_pushed toLowercase order now assembler segment
  generalize assembler.push toLowercase order now segment = result at pushed
  cases pushed with
  | ignored held => rfl
  | stored accepts fresh missing => exact pushedStore_sameMemory.maxInflightFiles
  | completed accepts fresh full file => exact completedStore_limits.2.1

/-- The invariant of an assembler that may keep a file in flight. -/
structure Kept (assembler : QbtFileAssembler) (deliveries : Deliveries) : Prop where
  positive : 1 ≤ assembler.maxInflightFiles
  fits : assembler.byKey.size ≤ assembler.maxInflightFiles
  entries : SoundEntries assembler deliveries.lastPush
  remembers : Remembers assembler deliveries.keys

/-- An assembler without files keeps it. -/
theorem Kept.idle (duplicateCacheSize : Nat) {maxInflightFiles : Nat} (inflightTtl : Duration)
    (lastPush : Option Instant) (positive : 1 ≤ maxInflightFiles)
    : Kept (idle duplicateCacheSize maxInflightFiles inflightTtl)
        { keys := [], lastPush } := by
  refine ⟨positive, Nat.zero_le _, ⟨?_, ?_, ?_⟩, ⟨?_, ?_⟩⟩
  · intro now _ key inflight found
    cases found
  · intro key inflight found
    cases found
  · intro key inflight found
    cases found
  · simp [QbtFileAssembler.idle]
  · intro before key between delivered
    simp at delivered

/-- A push keeps it, by cases on what the push does. -/
theorem Kept.push {deliveries : Deliveries} (toLowercase : Text → Text)
    (order : IterationOrder Text InflightFile) (now : Instant) (segment : QbtSegment)
    (kept : Kept assembler deliveries)
    : Kept (assembler.push toLowercase order now segment).2
        (note toLowercase assembler (.push order now segment) deliveries) := by
  obtain ⟨positive, fits, entries, remembers⟩ := kept
  have pushed := push_pushed toLowercase order now assembler segment
  simp only [note]
  generalize assembler.push toLowercase order now segment = result at pushed
  cases pushed with
  | ignored held =>
      rw [if_neg held]
      exact ⟨positive, fits, entries, remembers⟩
  | stored accepts fresh missing =>
      have same : SameMemory (pushedStore toLowercase order now assembler segment) assembler :=
        pushedStore_sameMemory
      have past := And.intro accepts fresh
      rw [if_pos past]
      refine ⟨same.maxInflightFiles ▸ positive, ?_, entries.stored fresh missing, ?_, ?_⟩
      · rw [same.maxInflightFiles]
        exact size_pushedStore_le positive fits
      · rw [same.recent, same.duplicateCacheSize]
        exact remembers.recent
      · intro before key between delivered
        rw [same.duplicateCacheSize]
        exact remembers.spaced before key between delivered
  | completed accepts fresh full file =>
      have past := And.intro accepts fresh
      rw [if_pos past]
      refine ⟨?_, ?_, entries.completed fresh, remembers.completed fresh⟩ <;>
        rw [completedStore_limits.2.1]
      · exact positive
      rw [completedStore, byKey_rememberCompleted]
      have stored : (pushedStore toLowercase order now assembler segment).byKey.size
          ≤ assembler.maxInflightFiles := size_pushedStore_le positive fits
      exact (KeyedMap.size_erase_le _ _).trans stored

/-- With a positive limit every state is sound, by induction on the run. -/
theorem reachable_sound {duplicateCacheSize maxInflightFiles : Nat} {inflightTtl : Duration}
    {deliveries : Deliveries} (positive : 1 ≤ maxInflightFiles)
    (run
      : ((machine toLowercase duplicateCacheSize maxInflightFiles inflightTtl).record {}
          (note toLowercase)).Reachable (assembler, deliveries))
    : Sound assembler deliveries := by
  have kept : Kept assembler deliveries := by
    refine run.recorded ?_ ?_
    · intro assembler created
      rw [created]
      exact .idle _ _ none positive
    · intro assembler deliveries action next kept _ stepped
      cases action with
      | push order now segment =>
          cases stepped
          exact kept.push toLowercase order now segment
      | clear =>
          cases stepped
          exact .idle _ _ deliveries.lastPush kept.positive
  exact ⟨kept.fits, kept.entries, kept.remembers.sound⟩

/-- The first block of two is stored, whatever the limits are. -/
theorem push_first_block (toLowercase : Text → Text)
    (duplicateCacheSize maxInflightFiles : Nat) (inflightTtl : Duration)
    : ((idle duplicateCacheSize maxInflightFiles inflightTtl).push toLowercase .listed 0
        (sampleBlock "A.TXT" 1 2)).2.byKey.size ≠ 0 := by
  generalize empty : idle duplicateCacheSize maxInflightFiles inflightTtl = assembler
  have absent (key : Text) : (makeRoom .listed 0 assembler key).byKey.lookup key = none := by
    rw [← Option.not_isSome_iff_eq_none, Option.isSome_iff_exists]
    rintro ⟨inflight, found⟩
    have before := lookup_makeRoom_before found
    rw [← empty] at before
    cases before
  have pushed := push_pushed toLowercase .listed 0 assembler (sampleBlock "A.TXT" 1 2)
  generalize assembler.push toLowercase .listed 0 (sampleBlock "A.TXT" 1 2) = result at pushed
  cases pushed with
  | ignored held =>
      refine absurd ⟨by decide, ?_⟩ held
      simp [← empty, idle]
  | stored accepts fresh missing =>
      simp only [pushedStore, KeyedMap.size_insert]
      split_ifs with present
      · rw [← AList.lookup_isSome, absent] at present
        cases present
      · omega
  | completed accepts fresh full file =>
      rw [pushedEntry, storedEntry, absent] at full
      exact absurd full (by decide)

/-- All of it holds in every state exactly if the assembler may keep a file in flight. The
constructors see to that; the derived default does not.
-/
theorem sound_iff_positive (toLowercase : Text → Text)
    (duplicateCacheSize maxInflightFiles : Nat) (inflightTtl : Duration)
    : (∀ assembler deliveries,
        ((machine toLowercase duplicateCacheSize maxInflightFiles inflightTtl).record {}
          (note toLowercase)).Reachable (assembler, deliveries)
        → Sound assembler deliveries)
      ↔ 1 ≤ maxInflightFiles := by
  constructor
  · intro sound
    by_contra zero
    have start
        : ((machine toLowercase duplicateCacheSize maxInflightFiles inflightTtl).record {}
            (note toLowercase)).Reachable
            (idle duplicateCacheSize maxInflightFiles inflightTtl, {}) :=
      .start ⟨rfl, rfl⟩
    have taken
        : ((machine toLowercase duplicateCacheSize maxInflightFiles inflightTtl).record {}
            (note toLowercase)).step
            (idle duplicateCacheSize maxInflightFiles inflightTtl, {})
            (.push .listed 0 (sampleBlock "A.TXT" 1 2))
          = some (_, _) := rfl
    have fits := (sound _ _ (start.step trivial taken)).fits
    rw [push_maxInflightFiles] at fits
    have none : maxInflightFiles ≤ 0 := by omega
    exact push_first_block toLowercase duplicateCacheSize maxInflightFiles inflightTtl
      (Nat.le_zero.mp (Nat.le_trans fits none))
  · intro positive assembler deliveries run
    exact reachable_sound positive run

/-- The default assembler keeps no file, by its limit, and holds one after the first of two
blocks.
-/
theorem default_exceeds_limit
    : ∃ assembler deliveries,
        ((machine asciiLowercase 0 0 0).record {} (note asciiLowercase)).Reachable
          (assembler, deliveries)
        ∧ assembler = (default.push asciiLowercase .listed 0 (sampleBlock "A.TXT" 1 2)).2
        ∧ assembler.maxInflightFiles = 0
        ∧ assembler.byKey.size = 1 := by
  have start
      : ((machine asciiLowercase 0 0 0).record {} (note asciiLowercase)).Reachable
          (default, {}) :=
    .start ⟨rfl, rfl⟩
  have taken
      : ((machine asciiLowercase 0 0 0).record {} (note asciiLowercase)).step (default, {})
          (.push .listed 0 (sampleBlock "A.TXT" 1 2))
        = some (_, _) := rfl
  refine ⟨_, _, start.step trivial taken, rfl, ?_, ?_⟩ <;> decide +kernel

end QbtFileAssembler

end Emwin.Qbt
