import Emwin.Qbt.File.Assembler

/-! Completed files and the blocks they are made of, over whole runs of the assembler. -/

namespace Emwin.Qbt
open Library

/-- The blocks of one file in order: numbered from one on, each announcing their number as
the total, all under the same key.
-/
structure BlocksOf (toLowercase : Text → Text) (key : Text) (blocks : List QbtSegment)
    : Prop where
  numbers
    : blocks.map (fun block => block.blockNumber.toNat) = List.range' 1 blocks.length
  totals : ∀ block ∈ blocks, block.totalBlocks.toNat = blocks.length
  keys : ∀ block ∈ blocks, fileKey toLowercase block = key

namespace QbtFileAssembler

/-- The file is the concatenation of all blocks of the key, each of them pushed; its name and
time are those of the first block.
-/
def AssembledFrom (toLowercase : Text → Text) (pushed : List QbtSegment) (key : Text)
    (file : QbtCompletedFile)
    : Prop :=
  ∃ first rest,
    BlocksOf toLowercase key (first :: rest)
    ∧ (∀ block ∈ first :: rest, block ∈ pushed)
    ∧ file = completedFile first (first :: rest)

/-- An accepted segment of a file that is still in flight announces the stored total. -/
def TotalAgrees (toLowercase : Text → Text) (now : Instant) (assembler : QbtFileAssembler)
    (segment : QbtSegment)
    : Prop :=
  Accepts segment
  → ∀ inflight,
      (assembler.evictStaleInflight now).byKey.lookup (fileKey toLowercase segment)
        = some inflight
      → segment.totalBlocks = inflight.totalBlocks

/-- Runs of `push` and `clear` in which totals agree, at any clock readings: the segments
pushed since the last clear and the assembler after them.
-/
inductive History (toLowercase : Text → Text) : List QbtSegment → QbtFileAssembler → Prop
  | idle (duplicateCacheSize maxInflightFiles : Nat) (inflightTtl : Duration)
    : History toLowercase [] (.idle duplicateCacheSize maxInflightFiles inflightTtl)
  | push {pushed assembler} (before : History toLowercase pushed assembler)
    (order : IterationOrder Text InflightFile) {now : Instant} {segment : QbtSegment}
    (agrees : TotalAgrees toLowercase now assembler segment)
    : History toLowercase (pushed ++ [segment])
        (assembler.push toLowercase order now segment).2
  | clear {pushed assembler} (before : History toLowercase pushed assembler)
    : History toLowercase [] assembler.clear

/-- Every stored part was pushed under the key, with the stored total and a number within it.
-/
def BackedFile (toLowercase : Text → Text) (pushed : List QbtSegment) (key : Text)
    (inflight : InflightFile)
    : Prop :=
  ∀ part ∈ inflight.values,
    part ∈ pushed ∧ fileKey toLowercase part = key ∧ part.totalBlocks = inflight.totalBlocks
    ∧ 1 ≤ part.blockNumber.toNat ∧ part.blockNumber.toNat ≤ inflight.totalBlocks.toNat

def Backed (toLowercase : Text → Text) (pushed : List QbtSegment)
    (assembler : QbtFileAssembler)
    : Prop :=
  ∀ key inflight,
    assembler.byKey.lookup key = some inflight → BackedFile toLowercase pushed key inflight

variable {toLowercase : Text → Text} {order : IterationOrder Text InflightFile}
  {now : Instant} {assembler : QbtFileAssembler} {segment : QbtSegment}
  {pushed : List QbtSegment} {key : Text} {inflight : InflightFile}

theorem BackedFile.mono (backed : BackedFile toLowercase pushed key inflight)
    (more : List QbtSegment)
    : BackedFile toLowercase (pushed ++ more) key inflight := by
  intro part member
  obtain ⟨before, facts⟩ := backed part member
  exact ⟨List.mem_append_left _ before, facts⟩

/-- Making room removes entries and keeps the others as they are. -/
theorem lookup_of_makeRoom {other : Text}
    (found : (makeRoom order now assembler key).byKey.lookup other = some inflight)
    : (assembler.evictStaleInflight now).byKey.lookup other = some inflight := by
  simp only [makeRoom] at found
  split at found
  · exact found
  · exact KeyedMap.lookup_of_evictOldest found

theorem lookup_makeRoom_before {other : Text}
    (found : (makeRoom order now assembler key).byKey.lookup other = some inflight)
    : assembler.byKey.lookup other = some inflight :=
  KeyedMap.lookup_of_retain (lookup_of_makeRoom found)

/-- The entry of an accepted segment is backed, because the total it overwrites is its own.
-/
theorem pushedEntry_backed (order : IterationOrder Text InflightFile)
    (backed : Backed toLowercase pushed assembler) (accepts : Accepts segment)
    (agrees : TotalAgrees toLowercase now assembler segment)
    : BackedFile toLowercase (pushed ++ [segment]) (fileKey toLowercase segment)
        (pushedEntry toLowercase order now assembler segment) := by
  intro part member
  rw [pushedEntry, storedEntry, InflightFile.mem_values_receive] at member
  rcases member with rfl | ⟨_, member⟩
  · exact ⟨List.mem_append_right _ (List.mem_singleton_self _), rfl, rfl, accepts.2⟩
  · cases found
        : (makeRoom order now assembler (fileKey toLowercase segment)).byKey.lookup
            (fileKey toLowercase segment) with
    | none => simp [found] at member
    | some inflight =>
        rw [found, Option.getD_some] at member
        have same := agrees accepts inflight (lookup_of_makeRoom found)
        obtain ⟨before, keyed, total, bounds⟩ :=
          backed _ inflight (lookup_makeRoom_before found) part member
        rw [← same] at total bounds
        exact ⟨List.mem_append_left _ before, keyed, total, bounds⟩

theorem pushedStore_backed (order : IterationOrder Text InflightFile)
    (backed : Backed toLowercase pushed assembler) (accepts : Accepts segment)
    (agrees : TotalAgrees toLowercase now assembler segment)
    : Backed toLowercase (pushed ++ [segment])
        (pushedStore toLowercase order now assembler segment) := by
  intro key inflight found
  simp only [pushedStore] at found
  by_cases same : key = fileKey toLowercase segment
  · subst same
    rw [AList.lookup_insert] at found
    exact Option.some.inj found ▸ pushedEntry_backed order backed accepts agrees
  · rw [AList.lookup_insert_ne same] at found
    exact (backed key inflight (lookup_makeRoom_before found)).mono _

@[simp] theorem byKey_rememberCompleted (assembler : QbtFileAssembler) (key : Text)
    : (assembler.rememberCompleted key).byKey = assembler.byKey := by
  simp only [rememberCompleted]
  split <;> rfl

theorem rememberCompleted_limits (assembler : QbtFileAssembler) (key : Text)
    : (assembler.rememberCompleted key).inflightTtl = assembler.inflightTtl
      ∧ (assembler.rememberCompleted key).maxInflightFiles = assembler.maxInflightFiles
      ∧ (assembler.rememberCompleted key).duplicateCacheSize
        = assembler.duplicateCacheSize := by
  simp only [rememberCompleted]
  split <;> exact ⟨rfl, rfl, rfl⟩

/-- A push keeps every entry backed, by cases on what it does. -/
theorem push_backed (backed : Backed toLowercase pushed assembler)
    (agrees : TotalAgrees toLowercase now assembler segment)
    : Backed toLowercase (pushed ++ [segment])
        (assembler.push toLowercase order now segment).2 := by
  have unchanged : Backed toLowercase (pushed ++ [segment]) assembler :=
    fun key inflight found => (backed key inflight found).mono _
  by_cases accepts : Accepts segment
  · by_cases known : fileKey toLowercase segment ∈ assembler.completedIndex
    · rwa [push_known known]
    have stored := pushedStore_backed order backed accepts agrees
    rw [push_accepted accepts known]
    split
    · exact stored
    split
    · exact stored
    · intro key inflight found
      rw [byKey_rememberCompleted] at found
      exact stored key inflight (KeyedMap.lookup_of_erase found)
  · rwa [push_ignored accepts]

theorem History.backed (history : History toLowercase pushed assembler)
    : Backed toLowercase pushed assembler := by
  induction history with
  | idle => intro key inflight found; cases found
  | push before order agrees ih => exact push_backed ih agrees
  | clear before ih => intro key inflight found; cases found

/-- As many backed parts as the total are exactly the blocks of the file.
Witness: increasing block numbers between one and the total, as many as the total; the count
fits `u32` because the total does.
-/
theorem BackedFile.blocksOf (backed : BackedFile toLowercase pushed key inflight)
    (full : UInt32.ofNat inflight.values.length = inflight.totalBlocks)
    : BlocksOf toLowercase key inflight.values := by
  have increasing := inflight.values_increasing
  have few : inflight.values.length ≤ inflight.totalBlocks.toNat :=
    increasing.length_le fun part member => (backed part member).2.2.2
  have count : inflight.values.length = inflight.totalBlocks.toNat := by
    have small := inflight.totalBlocks.toNat_lt
    rw [← full, UInt32.toNat_ofNat_of_lt']
    exact few.trans_lt small
  refine ⟨increasing.numbers ?_, ?_, ?_⟩
  · intro part member
    rw [count]
    exact (backed part member).2.2.2
  · intro part member
    rw [(backed part member).2.2.1, count]
  · intro part member
    exact (backed part member).2.1

/-- Soundness over runs: as long as the totals agree, every file that a push returns is the
concatenation in block order of exactly the blocks of its key, all pushed since the last
clear with that total.
-/
theorem push_assembledFrom (toLowercase : Text → Text) (pushed : List QbtSegment)
    (now : Instant) (assembler : QbtFileAssembler) (segment : QbtSegment)
    (order : IterationOrder Text InflightFile) (file : QbtCompletedFile)
    (history : History toLowercase pushed assembler)
    (agrees : TotalAgrees toLowercase now assembler segment)
    (returned : (assembler.push toLowercase order now segment).1 = some file)
    : AssembledFrom toLowercase (pushed ++ [segment]) (fileKey toLowercase segment) file := by
  by_cases accepts : Accepts segment
  · by_cases known : fileKey toLowercase segment ∈ assembler.completedIndex
    · rw [push_known known] at returned
      cases returned
    rw [push_accepted accepts known] at returned
    split at returned
    · cases returned
    next full =>
      split at returned
      · cases returned
      next first head =>
        have backed := pushedEntry_backed order history.backed accepts agrees
        have total
            : (pushedEntry toLowercase order now assembler segment).totalBlocks
              = segment.totalBlocks := rfl
        have blocks := backed.blocksOf (total ▸ not_not.mp full)
        obtain ⟨rest, values⟩ := List.head?_eq_some_iff.mp head
        rw [values] at blocks returned
        refine ⟨first, rest, blocks, ?_, (Option.some.inj returned).symm⟩
        intro block member
        exact (backed block (values ▸ member)).1
  · rw [push_ignored accepts] at returned
    cases returned

/-- A block of a small text file, with its number as content. -/
def sampleBlock (filename : String) (number total : UInt32) : QbtSegment where
  filename := filename.toList
  blockNumber := number
  totalBlocks := total
  content := [48 + number.toUInt8]
  checksum := 0
  length := 1
  version := .v2
  timestampUtc := 0

/-- Lower case of ASCII letters. -/
def asciiLowercase (text : Text) : Text := text.map Char.toLower

/-- An assembler that holds the given segment. -/
def holding (segment : QbtSegment) : QbtFileAssembler :=
  ((new 16).push asciiLowercase .listed 5 segment).2

theorem push_assembledFrom_sample
    : AssembledFrom asciiLowercase [sampleBlock "A.TXT" 2 2, sampleBlock "A.TXT" 1 2]
        "a.txt_0.000000000".toList
        { filename := "A.TXT".toList, data := toUtf8 "12".toList, timestampUtc := 0 } := by
  have first : TotalAgrees asciiLowercase 5 (new 16) (sampleBlock "A.TXT" 2 2) := by
    intro _ inflight found
    cases found
  have second
      : TotalAgrees asciiLowercase 6 (holding (sampleBlock "A.TXT" 2 2))
          (sampleBlock "A.TXT" 1 2) := by
    intro _ inflight found
    have stored := congrArg (Option.map InflightFile.totalBlocks) found
    have two
        : Option.map InflightFile.totalBlocks
            (((holding (sampleBlock "A.TXT" 2 2)).evictStaleInflight 6).byKey.lookup
              (fileKey asciiLowercase (sampleBlock "A.TXT" 1 2)))
          = some 2 := by
      decide +kernel
    exact Option.some.inj (two.symm.trans stored)
  exact push_assembledFrom asciiLowercase [sampleBlock "A.TXT" 2 2] 6
    (holding (sampleBlock "A.TXT" 2 2)) (sampleBlock "A.TXT" 1 2) .listed _
    (.push (.idle _ _ _) .listed first) second (by decide +kernel)

/-- Block three of three and then block one of two complete a file without its second block:
the later total replaces the stored one and two blocks are counted.
-/
theorem push_mixes_totals
    : ((holding (sampleBlock "A.TXT" 3 3)).push asciiLowercase .listed 6
          (sampleBlock "A.TXT" 1 2)).1
        = some
            { filename := "A.TXT".toList, data := toUtf8 "13".toList, timestampUtc := 0 }
      ∧ ¬ AssembledFrom asciiLowercase [sampleBlock "A.TXT" 3 3, sampleBlock "A.TXT" 1 2]
            (fileKey asciiLowercase (sampleBlock "A.TXT" 1 2))
            { filename := "A.TXT".toList, data := toUtf8 "13".toList, timestampUtc := 0 } := by
  refine ⟨by decide +kernel, ?_⟩
  rintro ⟨first, rest, blocks, pushed, _⟩
  obtain ⟨firstNumber, restNumbers⟩ := List.cons.inj blocks.numbers
  have one : first = sampleBlock "A.TXT" 1 2 := by
    rcases List.mem_cons.mp (pushed first (List.mem_cons_self ..)) with rfl | member
    · exact absurd firstNumber (by decide)
    · exact List.mem_singleton.mp member
  have count : 2 = (first :: rest).length := by
    rw [← blocks.totals first (List.mem_cons_self ..), one]
    rfl
  obtain ⟨second, rfl⟩ := List.length_eq_one_iff.mp (Nat.succ.inj count).symm
  have secondNumber := (List.cons.inj restNumbers).1
  -- neither pushed segment carries the missing number
  rcases List.mem_cons.mp (pushed second (by simp)) with rfl | member
  · exact absurd secondNumber (by decide)
  · obtain rfl := List.mem_singleton.mp member
    exact absurd secondNumber (by decide)

end QbtFileAssembler

end Emwin.Qbt
