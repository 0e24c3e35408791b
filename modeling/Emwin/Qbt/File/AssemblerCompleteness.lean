import Mathlib.Data.Nat.Find
import Emwin.Qbt.File.AssemblerSoundness

/-! Every file whose blocks all arrive in time is emitted exactly once, in whatever order and
however often its blocks arrive.
-/

namespace Emwin.Qbt
open Library QbtFileAssembler

/-- A file that a sender has split into blocks. -/
structure SplitFile (toLowercase : Text → Text) where
  key : Text
  blocks : List QbtSegment
  nonempty : blocks ≠ []
  blocksOf : BlocksOf toLowercase key blocks
  notFill : ∀ block ∈ blocks, isFillFile block.filename = false

/-- One call of `push`: the segment, the clock reading and the iteration order. -/
structure PushCall where
  segment : QbtSegment
  now : Instant
  order : IterationOrder Text InflightFile

/-- Push one call after another: what each of them returned, and the assembler at the end. -/
def pushAll (toLowercase : Text → Text)
    : QbtFileAssembler → List PushCall → List (Option QbtCompletedFile) × QbtFileAssembler
  | assembler, [] => ([], assembler)
  | assembler, call :: rest =>
      let pushed := assembler.push toLowercase call.order call.now call.segment
      prepend [pushed.1] (pushAll toLowercase pushed.2 rest)

/-- The segments of the calls. -/
def received (calls : List PushCall) : List QbtSegment := calls.map PushCall.segment

namespace SplitFile

variable {toLowercase : Text → Text}

/-- The file that the receiver is to get. -/
def completed (file : SplitFile toLowercase) : QbtCompletedFile :=
  completedFile (file.blocks.head file.nonempty) file.blocks

/-- All blocks of the file are among the segments. -/
def Complete (file : SplitFile toLowercase) (segments : List QbtSegment) : Prop :=
  ∀ block ∈ file.blocks, block ∈ segments

instance (file : SplitFile toLowercase) (segments : List QbtSegment)
    : Decidable (file.Complete segments) :=
  inferInstanceAs (Decidable (∀ block ∈ file.blocks, block ∈ segments))

/-- The segment supplies the last missing block. -/
def CompletedBy (file : SplitFile toLowercase) (segments : List QbtSegment)
    (segment : QbtSegment)
    : Prop :=
  ¬ file.Complete segments ∧ file.Complete (segments ++ [segment])

instance (file : SplitFile toLowercase) (segments : List QbtSegment) (segment : QbtSegment)
    : Decidable (file.CompletedBy segments segment) :=
  inferInstanceAs (Decidable (_ ∧ _))

/-- Clock reading at which the last segment of the file was pushed. -/
def lastPush (file : SplitFile toLowercase) (calls : List PushCall) : Option Instant :=
  (calls.filter (fun call => call.segment ∈ file.blocks)).getLast?.map PushCall.now

end SplitFile

/-- At this call, the last segment of no incomplete file is older than the limit. -/
def TimelyAt {toLowercase : Text → Text} (inflightTtl : Duration)
    (files : List (SplitFile toLowercase)) (before : List PushCall) (call : PushCall)
    : Prop :=
  ∀ file ∈ files,
    ¬ file.Complete (received before)
    → ∀ last ∈ file.lastPush before, call.now - last ≤ inflightTtl

instance {toLowercase : Text → Text} (inflightTtl : Duration)
    (files : List (SplitFile toLowercase)) (before : List PushCall) (call : PushCall)
    : Decidable (TimelyAt inflightTtl files before call) :=
  inferInstanceAs
    (Decidable
      (∀ file ∈ files,
        ¬ file.Complete (received before)
        → ∀ last ∈ file.lastPush before, call.now - last ≤ inflightTtl))

namespace SplitFile

variable {toLowercase : Text → Text} {file : SplitFile toLowercase}
  {segments : List QbtSegment} {segment block : QbtSegment} {before : List PushCall}
  {call : PushCall}

theorem increasing (file : SplitFile toLowercase)
    : Increasing (fun block => block.blockNumber.toNat) file.blocks :=
  increasing_of_numbers file.blocksOf.numbers

/-- A block of a file is determined by its number. -/
theorem eq_of_blockNumber (left : segment ∈ file.blocks) (right : block ∈ file.blocks)
    (same : segment.blockNumber = block.blockNumber)
    : segment = block :=
  file.increasing.eq_of_number left right (congrArg UInt32.toNat same)

theorem accepts (member : segment ∈ file.blocks) : Accepts segment := by
  refine ⟨file.notFill segment member, ?_⟩
  have number := List.mem_map_of_mem (f := fun block => block.blockNumber.toNat) member
  rw [file.blocksOf.numbers, List.mem_range'_1] at number
  rw [file.blocksOf.totals segment member]
  omega

theorem Complete.mono (complete : file.Complete segments) (more : List QbtSegment)
    : file.Complete (segments ++ more) :=
  fun block member => List.mem_append_left _ (complete block member)

theorem not_complete_nil (file : SplitFile toLowercase) : ¬ file.Complete [] := by
  intro complete
  obtain ⟨block, member⟩ := List.exists_mem_of_ne_nil _ file.nonempty
  exact List.not_mem_nil (complete block member)

/-- The blocks that have arrived, in block order. -/
def arrived (file : SplitFile toLowercase) (segments : List QbtSegment) : List QbtSegment :=
  file.blocks.filter (fun block => decide (block ∈ segments))

theorem arrived_increasing (file : SplitFile toLowercase) (segments : List QbtSegment)
    : Increasing (fun block => block.blockNumber.toNat) (file.arrived segments) :=
  file.increasing.filter _

theorem mem_arrived
    : block ∈ file.arrived segments ↔ block ∈ file.blocks ∧ block ∈ segments := by
  simp [arrived, List.mem_filter]

theorem arrived_complete (complete : file.Complete segments)
    : file.arrived segments = file.blocks :=
  List.filter_eq_self.mpr fun block member => decide_eq_true (complete block member)

/-- All blocks have arrived exactly when as many have arrived as there are. -/
theorem complete_iff_length
    : file.Complete segments ↔ (file.arrived segments).length = file.blocks.length := by
  rw [arrived, List.length_filter_eq_length_iff]
  simp [Complete]

/-- A segment that is no block of the file changes nothing for it. -/
theorem complete_snoc_of_foreign (foreign : segment ∉ file.blocks)
    : file.Complete (segments ++ [segment]) ↔ file.Complete segments := by
  refine ⟨fun complete block member => ?_, fun complete => complete.mono _⟩
  rcases List.mem_append.mp (complete block member) with earlier | last
  · exact earlier
  · exact absurd (List.mem_singleton.mp last ▸ member) foreign

theorem arrived_snoc_of_foreign (foreign : segment ∉ file.blocks)
    : file.arrived (segments ++ [segment]) = file.arrived segments := by
  refine List.filter_congr fun block member => ?_
  have other : block ≠ segment := fun same => foreign (same ▸ member)
  simp [other]

theorem lastPush_snoc_of_foreign (foreign : call.segment ∉ file.blocks)
    : file.lastPush (before ++ [call]) = file.lastPush before := by
  simp [lastPush, foreign]

theorem lastPush_snoc (member : call.segment ∈ file.blocks)
    : file.lastPush (before ++ [call]) = some call.now := by
  simp [lastPush, member]

end SplitFile

/-- What the assembler holds of a file after the calls: while it is incomplete the blocks
that have arrived, and afterwards only its key.
-/
structure TracksFile {toLowercase : Text → Text} (file : SplitFile toLowercase)
    (before : List PushCall) (assembler : QbtFileAssembler)
    : Prop where
  known : file.key ∈ assembler.completedIndex ↔ file.Complete (received before)
  gone : file.Complete (received before) → assembler.byKey.lookup file.key = none
  parts
    : ¬ file.Complete (received before)
      → ((assembler.byKey.lookup file.key).elim [] InflightFile.values)
        = file.arrived (received before)
  stamped
    : ∀ inflight,
        assembler.byKey.lookup file.key = some inflight
        → file.lastPush before = some inflight.lastSeen

/-- The assembler tracks all files and holds nothing else. -/
structure Tracks {toLowercase : Text → Text} (inflightTtl : Duration)
    (files : List (SplitFile toLowercase)) (before : List PushCall)
    (assembler : QbtFileAssembler)
    : Prop where
  ttl : assembler.inflightTtl = inflightTtl
  fits : files.length ≤ assembler.maxInflightFiles
  cached : files.length ≤ assembler.duplicateCacheSize
  tracked : ∀ file ∈ files, TracksFile file before assembler
  keys : ∀ key ∈ assembler.byKey, ∃ file ∈ files, file.key = key
  knownKeys : ∀ key ∈ assembler.completedIndex, ∃ file ∈ files, file.key = key

section Step

variable {toLowercase : Text → Text} {files : List (SplitFile toLowercase)}
  {before : List PushCall} {call : PushCall} {assembler : QbtFileAssembler}
  {file : SplitFile toLowercase} {inflightTtl : Duration}

theorem eq_of_key (distinct : (files.map SplitFile.key).Nodup)
    {left right : SplitFile toLowercase} (leftMember : left ∈ files)
    (rightMember : right ∈ files) (same : left.key = right.key)
    : left = right :=
  List.inj_on_of_nodup_map distinct leftMember rightMember same

/-- Files of a set share no blocks. -/
theorem foreign_of_ne (distinct : (files.map SplitFile.key).Nodup)
    {other : SplitFile toLowercase} (member : file ∈ files) (otherMember : other ∈ files)
    (ne : other ≠ file) {segment : QbtSegment} (block : segment ∈ file.blocks)
    : segment ∉ other.blocks := by
  intro shared
  refine ne (eq_of_key distinct otherMember member ?_)
  rw [← other.blocksOf.keys segment shared, ← file.blocksOf.keys segment block]

/-- Timely calls evict no stale entry. -/
theorem Tracks.evictStale_eq (tracks : Tracks inflightTtl files before assembler)
    (timely : TimelyAt inflightTtl files before call)
    : assembler.evictStaleInflight call.now = assembler := by
  have keeps
      : assembler.byKey.retain
          (fun inflight => decide (call.now - inflight.lastSeen ≤ assembler.inflightTtl))
        = assembler.byKey := by
    refine KeyedMap.retain_eq_self ?_
    rintro ⟨key, inflight⟩ entry
    have found := KeyedMap.lookup_eq_some_iff.mpr entry
    have present : key ∈ assembler.byKey := AList.lookup_isSome.mp (by rw [found]; rfl)
    obtain ⟨file, member, rfl⟩ := tracks.keys key present
    have tracked := tracks.tracked file member
    have incomplete : ¬ file.Complete (received before) := by
      intro complete
      rw [tracked.gone complete] at found
      cases found
    rw [tracks.ttl]
    exact decide_eq_true (timely file member incomplete _ (tracked.stamped inflight found))
  simp only [evictStaleInflight, keeps]

/-- Distinct keys of other files are fewer than the files. -/
theorem length_lt_of_other_keys {keys : List Text} (nodup : keys.Nodup)
    (within : ∀ key ∈ keys, ∃ other ∈ files, other.key = key) (member : file ∈ files)
    (absent : file.key ∉ keys)
    : keys.length < files.length := by
  have others : file.key :: keys ⊆ files.map SplitFile.key := by
    intro key inKeys
    rcases List.mem_cons.mp inKeys with rfl | inKeys
    · exact List.mem_map_of_mem member
    · obtain ⟨other, otherMember, rfl⟩ := within key inKeys
      exact List.mem_map_of_mem otherMember
  have few := (List.subperm_of_subset (List.nodup_cons.mpr ⟨absent, nodup⟩) others).length_le
  rwa [List.length_cons, List.length_map] at few

/-- A new key finds room: at most the other files are in flight. -/
theorem Tracks.size_lt (tracks : Tracks inflightTtl files before assembler)
    (member : file ∈ files) (absent : file.key ∉ assembler.byKey)
    : assembler.byKey.size < assembler.maxInflightFiles := by
  have count : assembler.byKey.keys.length = assembler.byKey.size := by
    simp [AList.keys, List.keys, KeyedMap.size]
  rw [← count]
  exact (length_lt_of_other_keys assembler.byKey.keys_nodup tracks.keys member
    absent).trans_le tracks.fits

/-- A newly completed key finds room in the cache too. -/
theorem Tracks.recent_lt (tracks : Tracks inflightTtl files before assembler)
    (member : file ∈ files) (fresh : file.key ∉ assembler.completedIndex)
    : assembler.completedRecent.length < assembler.duplicateCacheSize := by
  have indexed (key : Text)
      : key ∈ assembler.completedIndex ↔ key ∈ assembler.completedRecent := by
    rw [assembler.indexed, List.mem_toFinset]
  exact (length_lt_of_other_keys assembler.recentNodup
    (fun key recent => tracks.knownKeys key ((indexed key).mpr recent)) member
    (mt (indexed _).mpr fresh)).trans_le tracks.cached

theorem Tracks.makeRoom_eq (tracks : Tracks inflightTtl files before assembler)
    (member : file ∈ files) (timely : TimelyAt inflightTtl files before call)
    : makeRoom call.order call.now assembler file.key = assembler := by
  simp only [makeRoom, tracks.evictStale_eq timely]
  split
  · rfl
  · next absent =>
      simp only [evictOverflowInflight,
        KeyedMap.evictOldest_of_room (tracks.size_lt member absent)]

/-- The entry of a block holds exactly the blocks that have arrived with it. -/
theorem TracksFile.entry_values (tracked : TracksFile file before assembler)
    (incomplete : ¬ file.Complete (received before)) (block : call.segment ∈ file.blocks)
    : (storedEntry call.now assembler file.key call.segment).values
      = file.arrived (received (before ++ [call])) := by
  have stored
      : ((assembler.byKey.lookup file.key).getD
          (.empty call.segment.totalBlocks call.now)).values
        = file.arrived (received before) := by
    rw [← tracked.parts incomplete]
    cases assembler.byKey.lookup file.key <;> rfl
  refine (InflightFile.values_increasing _).ext (file.arrived_increasing _) ?_
  intro part
  rw [storedEntry, InflightFile.mem_values_receive, stored]
  simp only [SplitFile.mem_arrived, received, List.map_append, List.mem_append]
  constructor
  · rintro (rfl | ⟨_, ofFile, earlier⟩)
    · exact ⟨block, Or.inr (List.mem_singleton_self _)⟩
    · exact ⟨ofFile, Or.inl earlier⟩
  · rintro ⟨ofFile, arrived⟩
    by_cases same : part.blockNumber = call.segment.blockNumber
    · exact Or.inl (SplitFile.eq_of_blockNumber ofFile block same)
    · refine Or.inr ⟨same, ofFile, arrived.resolve_right fun last => ?_⟩
      exact same (congrArg QbtSegment.blockNumber (List.mem_singleton.mp last))

theorem received_snoc (before : List PushCall) (call : PushCall)
    : received (before ++ [call]) = received before ++ [call.segment] := by
  simp [received]

/-- A call for another file that leaves this file's entry and key alone keeps it tracked. -/
theorem TracksFile.frame {assembler' : QbtFileAssembler}
    (tracked : TracksFile file before assembler) (foreign : call.segment ∉ file.blocks)
    (lookup : assembler'.byKey.lookup file.key = assembler.byKey.lookup file.key)
    (index : file.key ∈ assembler'.completedIndex ↔ file.key ∈ assembler.completedIndex)
    : TracksFile file (before ++ [call]) assembler' := by
  constructor
  · rw [index, tracked.known, received_snoc, SplitFile.complete_snoc_of_foreign foreign]
  · rw [lookup, received_snoc, SplitFile.complete_snoc_of_foreign foreign]
    exact tracked.gone
  · rw [lookup, received_snoc, SplitFile.complete_snoc_of_foreign foreign,
      SplitFile.arrived_snoc_of_foreign foreign]
    exact tracked.parts
  · rw [lookup, SplitFile.lastPush_snoc_of_foreign foreign]
    exact tracked.stamped

/-- A duplicate after completion changes nothing. -/
theorem TracksFile.duplicate (tracked : TracksFile file before assembler)
    (complete : file.Complete (received before))
    : TracksFile file (before ++ [call]) assembler := by
  have still : file.Complete (received (before ++ [call])) := by
    rw [received_snoc]
    exact complete.mono _
  have none := tracked.gone complete
  refine ⟨iff_of_true (tracked.known.mpr complete) still, fun _ => none, absurd still, ?_⟩
  intro inflight found
  rw [none] at found
  cases found

/-- An incomplete file is tracked with its new entry. -/
theorem TracksFile.stored (tracked : TracksFile file before assembler)
    (block : call.segment ∈ file.blocks)
    (incomplete : ¬ file.Complete (received (before ++ [call])))
    : TracksFile file (before ++ [call])
        { assembler with
          byKey :=
            assembler.byKey.insert file.key
              (storedEntry call.now assembler file.key call.segment) } := by
  have earlier : ¬ file.Complete (received before) := by
    intro complete
    rw [received_snoc] at incomplete
    exact incomplete (complete.mono _)
  refine ⟨iff_of_false (mt tracked.known.mp earlier) incomplete,
    fun complete => absurd complete incomplete, fun _ => ?_, ?_⟩
  · rw [AList.lookup_insert]
    exact tracked.entry_values earlier block
  · intro inflight found
    rw [AList.lookup_insert] at found
    rw [SplitFile.lastPush_snoc block, ← Option.some.inj found]
    rfl

theorem rememberCompleted_of_room {key : Text} (fresh : key ∉ assembler.completedIndex)
    (room : assembler.completedRecent.length < assembler.duplicateCacheSize)
    : (assembler.rememberCompleted key).completedIndex
      = insert key assembler.completedIndex := by
  have fits : (assembler.completedRecent ++ [key]).length ≤ assembler.duplicateCacheSize := by
    rw [List.length_append]
    exact room
  simp only [rememberCompleted, fresh, dif_neg, not_false_eq_true]
  rw [forgetOldest_of_room fits]

/-- A complete file is tracked by its key alone. -/
theorem TracksFile.finished (known : file.key ∈ assembler.completedIndex)
    (gone : assembler.byKey.lookup file.key = none)
    (complete : file.Complete (received (before ++ [call])))
    : TracksFile file (before ++ [call]) assembler := by
  refine ⟨iff_of_true known complete, fun _ => gone, absurd complete, ?_⟩
  intro inflight found
  rw [gone] at found
  cases found

/-- As many blocks have arrived as were announced exactly when the file is complete. The
count fits `u32` because the announced total does.
-/
theorem count_eq_total_iff {segments : List QbtSegment} {segment : QbtSegment}
    (block : segment ∈ file.blocks)
    : UInt32.ofNat (file.arrived segments).length = segment.totalBlocks
      ↔ file.Complete segments := by
  have total := file.blocksOf.totals segment block
  have few : (file.arrived segments).length ≤ file.blocks.length :=
    List.length_filter_le _ _
  have small : (file.arrived segments).length < UInt32.size :=
    few.trans_lt (total ▸ segment.totalBlocks.toNat_lt)
  rw [SplitFile.complete_iff_length, ← UInt32.toNat_inj, total,
    UInt32.toNat_ofNat_of_lt' small]

/-- The assembler with the entry of the call's segment stored for the file. -/
def storedFor (assembler : QbtFileAssembler) (file : SplitFile toLowercase)
    (call : PushCall)
    : QbtFileAssembler :=
  { assembler with
    byKey :=
      assembler.byKey.insert file.key
        (storedEntry call.now assembler file.key call.segment) }

/-- The assembler after the file was emitted. -/
def finishedFor (assembler : QbtFileAssembler) (file : SplitFile toLowercase)
    (call : PushCall)
    : QbtFileAssembler :=
  { storedFor assembler file call with
    byKey := (storedFor assembler file call).byKey.erase file.key
  }.rememberCompleted file.key

/-- Without evictions, an accepted push stores the segment and emits the file when it is
complete.
-/
theorem push_block (room : makeRoom call.order call.now assembler file.key = assembler)
    (tracked : TracksFile file before assembler) (block : call.segment ∈ file.blocks)
    (incomplete : ¬ file.Complete (received before))
    : assembler.push toLowercase call.order call.now call.segment
      = if file.Complete (received (before ++ [call])) then
          (some file.completed, finishedFor assembler file call)
        else (none, storedFor assembler file call) := by
  have key : fileKey toLowercase call.segment = file.key := file.blocksOf.keys _ block
  have fresh := mt tracked.known.mp incomplete
  have entry : pushedEntry toLowercase call.order call.now assembler call.segment
      = storedEntry call.now assembler file.key call.segment := by
    rw [pushedEntry, key, room]
  have store : pushedStore toLowercase call.order call.now assembler call.segment
      = storedFor assembler file call := by
    simp only [pushedStore, entry, key, room, storedFor]
  rw [push_accepted (SplitFile.accepts block) (key ▸ fresh), entry, store, key,
    tracked.entry_values incomplete block]
  by_cases complete : file.Complete (received (before ++ [call]))
  · rw [if_neg (not_not.mpr ((count_eq_total_iff block).mpr complete)), if_pos complete,
      SplitFile.arrived_complete complete, List.head?_eq_some_head file.nonempty]
    rfl
  · rw [if_pos (mt (count_eq_total_iff block).mp complete), if_neg complete]

/-- A change to one file's entry and key keeps the others tracked. -/
theorem Tracks.update {assembler' : QbtFileAssembler}
    (distinct : (files.map SplitFile.key).Nodup)
    (tracks : Tracks inflightTtl files before assembler) (member : file ∈ files)
    (block : call.segment ∈ file.blocks)
    (tracked : TracksFile file (before ++ [call]) assembler')
    (lookup
      : ∀ key, key ≠ file.key → assembler'.byKey.lookup key = assembler.byKey.lookup key)
    (index
      : ∀ key,
          key ≠ file.key → (key ∈ assembler'.completedIndex ↔ key ∈ assembler.completedIndex))
    (limits
      : assembler'.inflightTtl = assembler.inflightTtl
        ∧ assembler'.maxInflightFiles = assembler.maxInflightFiles
        ∧ assembler'.duplicateCacheSize = assembler.duplicateCacheSize)
    : Tracks inflightTtl files (before ++ [call]) assembler' := by
  obtain ⟨ttl, inflight, cache⟩ := limits
  refine ⟨ttl.trans tracks.ttl, inflight ▸ tracks.fits, cache ▸ tracks.cached, ?_, ?_, ?_⟩
  · intro other otherMember
    by_cases same : other = file
    · exact same ▸ tracked
    have otherKey : other.key ≠ file.key := mt (eq_of_key distinct otherMember member) same
    exact (tracks.tracked other otherMember).frame
      (foreign_of_ne distinct member otherMember same block) (lookup _ otherKey)
      (index _ otherKey)
  · intro key present
    by_cases same : key = file.key
    · exact ⟨file, member, same.symm⟩
    · refine tracks.keys key (AList.lookup_isSome.mp ?_)
      rw [← lookup key same]
      exact AList.lookup_isSome.mpr present
  · intro key known
    by_cases same : key = file.key
    · exact ⟨file, member, same.symm⟩
    · exact tracks.knownKeys key ((index key same).mp known)

theorem Tracks.storedFor (distinct : (files.map SplitFile.key).Nodup)
    (tracks : Tracks inflightTtl files before assembler) (member : file ∈ files)
    (block : call.segment ∈ file.blocks)
    (incomplete : ¬ file.Complete (received (before ++ [call])))
    : Tracks inflightTtl files (before ++ [call]) (storedFor assembler file call) := by
  refine tracks.update distinct member block
    ((tracks.tracked file member).stored block incomplete) ?_ (fun _ _ => .rfl)
    ⟨rfl, rfl, rfl⟩
  intro key other
  exact AList.lookup_insert_ne other

theorem Tracks.finishedFor (distinct : (files.map SplitFile.key).Nodup)
    (tracks : Tracks inflightTtl files before assembler) (member : file ∈ files)
    (block : call.segment ∈ file.blocks) (incomplete : ¬ file.Complete (received before))
    (complete : file.Complete (received (before ++ [call])))
    : Tracks inflightTtl files (before ++ [call]) (finishedFor assembler file call) := by
  have fresh := mt (tracks.tracked file member).known.mp incomplete
  have index : (Emwin.Qbt.finishedFor assembler file call).completedIndex
      = insert file.key assembler.completedIndex :=
    rememberCompleted_of_room fresh (tracks.recent_lt member fresh)
  have gone : (Emwin.Qbt.finishedFor assembler file call).byKey
      = ((assembler.byKey.insert file.key
          (storedEntry call.now assembler file.key call.segment)).erase file.key) :=
    byKey_rememberCompleted _ _
  refine tracks.update distinct member block (.finished ?_ ?_ complete) ?_ ?_ ?_
  · rw [index]
    exact Finset.mem_insert_self _ _
  · rw [gone]
    exact AList.lookup_erase _ _
  · intro key other
    rw [gone, AList.lookup_erase_ne other, AList.lookup_insert_ne other]
  · intro key other
    rw [index, Finset.mem_insert]
    exact or_iff_right other
  · exact rememberCompleted_limits _ _

/-- One call: it returns the file exactly if it supplies the last missing block, and all
files stay tracked.
-/
theorem Tracks.push (distinct : (files.map SplitFile.key).Nodup)
    (tracks : Tracks inflightTtl files before assembler) (member : file ∈ files)
    (block : call.segment ∈ file.blocks) (timely : TimelyAt inflightTtl files before call)
    : (assembler.push toLowercase call.order call.now call.segment).1
        = (if file.CompletedBy (received before) call.segment then some file.completed
            else none)
      ∧ Tracks inflightTtl files (before ++ [call])
          (assembler.push toLowercase call.order call.now call.segment).2 := by
  have tracked := tracks.tracked file member
  have key : fileKey toLowercase call.segment = file.key := file.blocksOf.keys _ block
  by_cases complete : file.Complete (received before)
  · rw [push_known (key ▸ tracked.known.mpr complete),
      if_neg fun completes => completes.1 complete]
    exact ⟨rfl, tracks.update distinct member block (tracked.duplicate complete)
      (fun _ _ => rfl) (fun _ _ => .rfl) ⟨rfl, rfl, rfl⟩⟩
  rw [push_block (tracks.makeRoom_eq member timely) tracked block complete]
  simp only [SplitFile.CompletedBy, complete, not_false_eq_true, true_and, ← received_snoc]
  split
  · next now => exact ⟨rfl, tracks.finishedFor distinct member block complete now⟩
  · next later => exact ⟨rfl, tracks.storedFor distinct member block later⟩

end Step

section Run

variable {toLowercase : Text → Text} {files : List (SplitFile toLowercase)}
  {calls : List PushCall} {assembler : QbtFileAssembler} {inflightTtl : Duration}

theorem pushAll_append (assembler : QbtFileAssembler) (before after : List PushCall)
    : pushAll toLowercase assembler (before ++ after)
      = prepend (pushAll toLowercase assembler before).1
          (pushAll toLowercase (pushAll toLowercase assembler before).2 after) := by
  induction before generalizing assembler with
  | nil => rfl
  | cons call before ih => simp [pushAll, ih, prepend]

theorem length_pushAll (assembler : QbtFileAssembler) (calls : List PushCall)
    : (pushAll toLowercase assembler calls).1.length = calls.length := by
  induction calls generalizing assembler with
  | nil => rfl
  | cons call calls ih => simp [pushAll, prepend, ih]

/-- What a call returns is what it returns after the calls before it. -/
theorem pushAll_getElem? {index : Nat} {call : PushCall} (at' : calls[index]? = some call)
    : (pushAll toLowercase assembler calls).1[index]?
      = some
          ((pushAll toLowercase assembler (calls.take index)).2.push toLowercase call.order
            call.now call.segment).1 := by
  obtain ⟨inside, same⟩ := List.getElem?_eq_some_iff.mp at'
  have split : calls = calls.take index ++ call :: calls.drop (index + 1) := by
    rw [← same, List.getElem_cons_drop, List.take_append_drop]
  have size : (pushAll toLowercase assembler (calls.take index)).1.length = index := by
    rw [length_pushAll, List.length_take]
    omega
  conv_lhs => rw [split, pushAll_append, pushAll]
  simp only [prepend]
  rw [List.getElem?_append_right size.le, size, Nat.sub_self]
  rfl

theorem tracks_idle {duplicateCacheSize maxInflightFiles : Nat}
    (fits : files.length ≤ maxInflightFiles) (cached : files.length ≤ duplicateCacheSize)
    : Tracks inflightTtl files []
        (.idle duplicateCacheSize maxInflightFiles inflightTtl) where
  ttl := rfl
  fits := fits
  cached := cached
  keys key present := absurd present (AList.notMem_empty key)
  knownKeys key known := absurd known (Finset.notMem_empty key)
  tracked file _ := {
    known := iff_of_false (Finset.notMem_empty _) file.not_complete_nil
    gone := fun complete => absurd complete file.not_complete_nil
    parts := fun _ => by simp [SplitFile.arrived, received, idle]
    stamped := fun inflight found => by cases found
  }

/-- Every prefix of timely calls leaves all files tracked, by induction on its length. -/
theorem tracks_take (distinct : (files.map SplitFile.key).Nodup)
    (tracks : Tracks inflightTtl files [] assembler)
    (segments : ∀ call ∈ calls, ∃ file ∈ files, call.segment ∈ file.blocks)
    (timely
      : ∀ index call,
          calls[index]? = some call → TimelyAt inflightTtl files (calls.take index) call)
    (count : Nat)
    : Tracks inflightTtl files (calls.take count)
        (pushAll toLowercase assembler (calls.take count)).2 := by
  induction count with
  | zero => exact tracks
  | succ count ih =>
      cases at' : calls[count]? with
      | none =>
          have outside := List.getElem?_eq_none_iff.mp at'
          rw [List.take_of_length_le outside] at ih
          rwa [List.take_of_length_le (outside.trans (Nat.le_succ _))]
      | some call =>
          obtain ⟨file, member, block⟩ := segments call (List.mem_of_getElem? at')
          have step := (ih.push distinct member block (timely count call at')).2
          rw [List.take_add_one, at', Option.toList_some, pushAll_append]
          exact step

/-- Completeness is monotone along a run. -/
theorem SplitFile.Complete.take_mono {file : SplitFile toLowercase} {left right : Nat}
    (complete : file.Complete (received (calls.take left))) (le : left ≤ right)
    : file.Complete (received (calls.take right)) := by
  intro block member
  exact (List.take_prefix_take_left le).map PushCall.segment |>.subset (complete block member)

theorem received_take_succ {index : Nat} {call : PushCall} (at' : calls[index]? = some call)
    : received (calls.take (index + 1)) = received (calls.take index) ++ [call.segment] := by
  rw [List.take_add_one, at', Option.toList_some, received_snoc]

/-- There is exactly one call that supplies a file's last missing block.
Witness: the least number of calls after which the file is complete.
-/
theorem existsUnique_completedBy {file : SplitFile toLowercase}
    (complete : file.Complete (received calls))
    : ∃! index : Nat,
        ∃ call : PushCall,
          calls[index]? = some call ∧ call.segment ∈ file.blocks
          ∧ file.CompletedBy (received (calls.take index)) call.segment := by
  have reached : ∃ count, file.Complete (received (calls.take count)) :=
    ⟨calls.length, by rwa [List.take_length]⟩
  obtain ⟨index, least⟩ : ∃ index, Nat.find reached = index + 1 := by
    refine Nat.exists_eq_succ_of_ne_zero fun zero => ?_
    have start := Nat.find_spec reached
    rw [zero] at start
    exact file.not_complete_nil start
  have done : file.Complete (received (calls.take (index + 1))) :=
    least ▸ Nat.find_spec reached
  have before : ¬ file.Complete (received (calls.take index)) :=
    Nat.find_min reached (by omega)
  cases at' : calls[index]? with
  | none =>
      have outside := List.getElem?_eq_none_iff.mp at'
      rw [List.take_of_length_le outside] at before
      exact absurd complete before
  | some call =>
      rw [received_take_succ at'] at done
      refine ⟨index, ⟨call, at', ?_, before, done⟩, ?_⟩
      · by_contra foreign
        exact before ((SplitFile.complete_snoc_of_foreign foreign).mp done)
      · rintro other ⟨otherCall, otherAt, _, notYet, now⟩
        rw [← received_take_succ otherAt] at now
        have notLater : index ≤ other := by
          by_contra earlier
          exact before (now.take_mono (by omega))
        have notEarlier : other ≤ index := by
          by_contra later
          rw [← received_take_succ at'] at done
          exact notYet (done.take_mono (by omega))
        omega

/-- A call returns a file exactly if it supplies that file's last missing block. -/
theorem pushAll_returned {duplicateCacheSize maxInflightFiles : Nat}
    (distinct : (files.map SplitFile.key).Nodup)
    (fits : files.length ≤ maxInflightFiles) (cached : files.length ≤ duplicateCacheSize)
    (segments : ∀ call ∈ calls, ∃ file ∈ files, call.segment ∈ file.blocks)
    (timely
      : ∀ index call,
          calls[index]? = some call → TimelyAt inflightTtl files (calls.take index) call)
    {index : Nat} {call : PushCall} {file : SplitFile toLowercase}
    (at' : calls[index]? = some call) (member : file ∈ files)
    (block : call.segment ∈ file.blocks)
    : (pushAll toLowercase (.idle duplicateCacheSize maxInflightFiles inflightTtl)
        calls).1[index]?
      = some
          (if file.CompletedBy (received (calls.take index)) call.segment then
            some file.completed
          else none) := by
  have tracks := tracks_take distinct (tracks_idle fits cached) segments timely index
  rw [pushAll_getElem? at', (tracks.push distinct member block (timely index call at')).1]

/-- A complete file is returned exactly once. -/
theorem existsUnique_returned {duplicateCacheSize maxInflightFiles : Nat}
    (distinct : (files.map SplitFile.key).Nodup)
    (fits : files.length ≤ maxInflightFiles) (cached : files.length ≤ duplicateCacheSize)
    (segments : ∀ call ∈ calls, ∃ file ∈ files, call.segment ∈ file.blocks)
    (timely
      : ∀ index call,
          calls[index]? = some call → TimelyAt inflightTtl files (calls.take index) call)
    {file : SplitFile toLowercase} (member : file ∈ files)
    (complete : file.Complete (received calls))
    : ∃! index : Nat,
        ∃ call : PushCall,
          calls[index]? = some call ∧ call.segment ∈ file.blocks
          ∧ (pushAll toLowercase (.idle duplicateCacheSize maxInflightFiles inflightTtl)
              calls).1[index]?
            = some (some file.completed) := by
  obtain ⟨index, ⟨call, at', block, completes⟩, unique⟩ :=
    existsUnique_completedBy complete
  refine ⟨index, ⟨call, at', block, ?_⟩, ?_⟩
  · rw [pushAll_returned distinct fits cached segments timely at' member block,
      if_pos completes]
  · rintro other ⟨otherCall, otherAt, otherBlock, output⟩
    rw [pushAll_returned distinct fits cached segments timely otherAt member otherBlock,
      Option.some.injEq, ite_eq_left_iff] at output
    refine unique other ⟨otherCall, otherAt, otherBlock, ?_⟩
    by_contra still
    exact absurd (output still) (by simp)

/-- Completeness and order independence: take files with distinct keys, at most as many as
may be in flight and as are remembered. Push their segments in any order, each block at
least once, so that no incomplete file grows older than the limit. Then a call returns a
file exactly if it supplies that file's last missing block, with the blocks in block order,
and every file is returned exactly once.
-/
theorem pushAll_delivers (toLowercase : Text → Text)
    (duplicateCacheSize maxInflightFiles : Nat) (inflightTtl : Duration)
    (files : List (SplitFile toLowercase)) (calls : List PushCall)
    (distinct : (files.map SplitFile.key).Nodup)
    (fits : files.length ≤ maxInflightFiles) (cached : files.length ≤ duplicateCacheSize)
    (segments : ∀ call ∈ calls, ∃ file ∈ files, call.segment ∈ file.blocks)
    (complete : ∀ file ∈ files, file.Complete (received calls))
    (timely
      : ∀ index call,
          calls[index]? = some call → TimelyAt inflightTtl files (calls.take index) call)
    : (∀ (index : Nat) (call : PushCall) (file : SplitFile toLowercase),
        calls[index]? = some call
        → file ∈ files
        → call.segment ∈ file.blocks
        → (pushAll toLowercase (.idle duplicateCacheSize maxInflightFiles inflightTtl)
            calls).1[index]?
          = some
              (if file.CompletedBy (received (calls.take index)) call.segment then
                some file.completed
              else none))
      ∧ ∀ file ∈ files,
          ∃! index : Nat,
            ∃ call : PushCall,
              calls[index]? = some call ∧ call.segment ∈ file.blocks
              ∧ (pushAll toLowercase (.idle duplicateCacheSize maxInflightFiles inflightTtl)
                  calls).1[index]?
                = some (some file.completed) := by
  refine ⟨?_, ?_⟩
  · intro index call file at' member block
    exact pushAll_returned distinct fits cached segments timely at' member block
  · intro file member
    exact existsUnique_returned distinct fits cached segments timely member
      (complete file member)

end Run

/-- A file of two blocks. -/
def firstSplit : SplitFile asciiLowercase where
  key := "a.txt_0.000000000".toList
  blocks := [sampleBlock "A.TXT" 1 2, sampleBlock "A.TXT" 2 2]
  nonempty := by simp
  blocksOf := ⟨by decide +kernel, by decide +kernel, by decide +kernel⟩
  notFill := by decide +kernel

/-- A file of one block. -/
def secondSplit : SplitFile asciiLowercase where
  key := "b.txt_0.000000000".toList
  blocks := [sampleBlock "B.TXT" 1 1]
  nonempty := by simp
  blocksOf := ⟨by decide +kernel, by decide +kernel, by decide +kernel⟩
  notFill := by decide +kernel

/-- Both files interleaved, out of order and with duplicates. -/
def sampleCalls : List PushCall := [
  ⟨sampleBlock "A.TXT" 2 2, 5, .listed⟩, ⟨sampleBlock "B.TXT" 1 1, 6, .listed⟩,
  ⟨sampleBlock "A.TXT" 2 2, 7, .listed⟩, ⟨sampleBlock "A.TXT" 1 2, 8, .listed⟩,
  ⟨sampleBlock "B.TXT" 1 1, 9, .listed⟩
]

theorem pushAll_delivers_sample
    : (pushAll asciiLowercase (.idle 2 2 3) sampleCalls).1[3]?
        = some (some firstSplit.completed)
      ∧ ∀ file ∈ [firstSplit, secondSplit],
          ∃! index : Nat,
            ∃ call : PushCall,
              sampleCalls[index]? = some call ∧ call.segment ∈ file.blocks
              ∧ (pushAll asciiLowercase (.idle 2 2 3) sampleCalls).1[index]?
                = some (some file.completed) := by
  have timely
      : ∀ index : Fin sampleCalls.length,
          TimelyAt 3 [firstSplit, secondSplit] (sampleCalls.take index)
            sampleCalls[index] := by
    decide +kernel
  have delivered :=
    pushAll_delivers asciiLowercase 2 2 3 [firstSplit, secondSplit] sampleCalls
      (by decide +kernel) (by decide) (by decide) (by decide +kernel) (by decide +kernel)
      (by
        intro index call found
        obtain ⟨inside, rfl⟩ := List.getElem?_eq_some_iff.mp found
        exact timely ⟨index, inside⟩)
  exact ⟨delivered.1 3 ⟨sampleBlock "A.TXT" 1 2, 8, .listed⟩ firstSplit rfl (by simp)
    (by decide +kernel), delivered.2⟩

/-- A fill file is never returned, in whatever letter case it is named. -/
theorem fillFile_not_delivered
    : "fillfile.txt".toList ≠ "FILLFILE.TXT".toList
      ∧ BlocksOf asciiLowercase "fillfile.txt_0.000000000".toList
          [sampleBlock "fillfile.txt" 1 1]
      ∧ (pushAll asciiLowercase (.idle 1 1 3)
          [⟨sampleBlock "fillfile.txt" 1 1, 5, .listed⟩]).1
        = [none] :=
  ⟨by decide, ⟨by decide +kernel, by decide +kernel, by decide +kernel⟩, by decide +kernel⟩

end Emwin.Qbt
