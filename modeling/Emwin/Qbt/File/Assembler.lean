import Mathlib.Data.Finset.Basic
import Emwin.Library.KeyedMap
import Emwin.Library.Numbering
import Emwin.Qbt.Protocol.Codec

/-! The file assembler: it collects the segments of a file under their key and emits the
file when as many blocks are stored as the last segment announced.
-/

namespace Emwin.Qbt
open Library

/-- Reading of the monotonic clock in nanoseconds. -/
abbrev Instant := Nat

/-- Nanoseconds. -/
abbrev Duration := Nat

structure QbtCompletedFile where
  filename : Text
  data : Bytes
  timestampUtc : SystemTime
  deriving DecidableEq, Repr

/-- A file in assembly. Every part is stored under its own block number. -/
structure InflightFile where
  totalBlocks : UInt32
  parts : Std.TreeMap UInt32 QbtSegment
  lastSeen : Instant
  numbered
    : ∀ (number : UInt32) (part : QbtSegment),
        parts[number]? = some part → part.blockNumber = number

namespace InflightFile

def empty (totalBlocks : UInt32) (now : Instant) : InflightFile where
  totalBlocks := totalBlocks
  parts := {}
  lastSeen := now
  numbered := by simp

theorem getElem?_insert_part (parts : Std.TreeMap UInt32 QbtSegment) (segment : QbtSegment)
    (number : UInt32)
    : (parts.insert segment.blockNumber segment)[number]?
      = if segment.blockNumber = number then some segment else parts[number]? := by
  rw [Std.TreeMap.getElem?_insert]
  simp only [Std.LawfulEqCmp.compare_eq_iff_eq]

/-- Store a segment, with the total it announces. -/
def receive (file : InflightFile) (segment : QbtSegment) (now : Instant) : InflightFile where
  totalBlocks := segment.totalBlocks
  parts := file.parts.insert segment.blockNumber segment
  lastSeen := now
  numbered := by
    intro number part found
    rw [getElem?_insert_part] at found
    split at found
    · next same => exact Option.some.inj found ▸ same
    · exact file.numbered number part found

/-- The stored segments in block order. -/
def values (file : InflightFile) : List QbtSegment := orderedValues file.parts

theorem values_increasing (file : InflightFile)
    : Increasing (fun part => part.blockNumber.toNat) file.values :=
  orderedValues_increasing file.numbered

theorem mem_values {file : InflightFile} {part : QbtSegment}
    : part ∈ file.values ↔ file.parts[part.blockNumber]? = some part := by
  rw [values, mem_orderedValues]
  constructor
  · rintro ⟨number, found⟩
    rwa [file.numbered number part found]
  · intro found
    exact ⟨_, found⟩

/-- Storing a segment replaces the part of its number and keeps the others. -/
theorem mem_values_receive {file : InflightFile} {segment part : QbtSegment} {now : Instant}
    : part ∈ (file.receive segment now).values
      ↔ part = segment
        ∨ (part.blockNumber ≠ segment.blockNumber ∧ part ∈ file.values) := by
  simp only [mem_values, receive, getElem?_insert_part]
  by_cases same : segment.blockNumber = part.blockNumber
  · simp [same, eq_comm]
  · have other : part ≠ segment := fun equal => same (equal ▸ rfl)
    simp [same, Ne.symm same, other]

@[simp] theorem values_empty (totalBlocks : UInt32) (now : Instant)
    : (empty totalBlocks now).values = [] :=
  rfl

theorem size_eq_length (file : InflightFile) : file.parts.size = file.values.length :=
  (length_orderedValues file.parts).symm

end InflightFile

/-- The assembler. The index holds exactly the remembered keys, each once. -/
structure QbtFileAssembler where
  byKey : KeyedMap Text InflightFile
  completedRecent : List Text
  completedIndex : Finset Text
  duplicateCacheSize : Nat
  maxInflightFiles : Nat
  inflightTtl : Duration
  recentNodup : completedRecent.Nodup
  indexed : completedIndex = completedRecent.toFinset

/-- Key of a file: its name in lower case and its time, with times before the epoch as zero.
-/
def fileKey (toLowercase : Text → Text) (segment : QbtSegment) : Text :=
  let ts :=
    if 0 ≤ segment.timestampUtc then
      let nanos := segment.timestampUtc.toNat
      Nat.toDigits 10 (nanos / 1000000000) ++ ['.']
        ++ (Nat.toDigits 10 (nanos % 1000000000)).leftpad 9 '0'
    else "0.000000000".toList
  toLowercase segment.filename ++ ['_'] ++ ts

namespace QbtFileAssembler

def defaultMaxInflightFiles : Nat := 256
def defaultInflightTtl : Duration := 90 * 1000000000

/-- An assembler without files, with the limits as they are. -/
def idle (duplicateCacheSize maxInflightFiles : Nat) (inflightTtl : Duration)
    : QbtFileAssembler where
  byKey := ∅
  completedRecent := []
  completedIndex := ∅
  duplicateCacheSize := duplicateCacheSize
  maxInflightFiles := maxInflightFiles
  inflightTtl := inflightTtl
  recentNodup := List.nodup_nil
  indexed := rfl

def withLimits (duplicateCacheSize maxInflightFiles : Nat) (inflightTtl : Duration)
    : QbtFileAssembler :=
  idle (max duplicateCacheSize 1) (max maxInflightFiles 1) (max inflightTtl 1000000)

def new (duplicateCacheSize : Nat) : QbtFileAssembler :=
  withLimits duplicateCacheSize defaultMaxInflightFiles defaultInflightTtl

/-- The derived default; its limits are all zero. -/
def default : QbtFileAssembler := idle 0 0 0

def clear (assembler : QbtFileAssembler) : QbtFileAssembler :=
  idle assembler.duplicateCacheSize assembler.maxInflightFiles assembler.inflightTtl

/-- Drop remembered keys from the front until the capacity is met. -/
def forgetOldest (capacity : Nat) : List Text → Finset Text → List Text × Finset Text
  | [], index => ([], index)
  | old :: rest, index =>
      if capacity < (old :: rest).length then forgetOldest capacity rest (index.erase old)
      else (old :: rest, index)

theorem forgetOldest_indexed (capacity : Nat) {recent : List Text} {index : Finset Text}
    (nodup : recent.Nodup) (indexed : index = recent.toFinset)
    : (forgetOldest capacity recent index).1.Nodup
      ∧ (forgetOldest capacity recent index).2
        = (forgetOldest capacity recent index).1.toFinset := by
  induction recent generalizing index with
  | nil => exact ⟨nodup, indexed⟩
  | cons old rest ih =>
      obtain ⟨notLater, restNodup⟩ := List.nodup_cons.mp nodup
      rw [forgetOldest]
      split
      · refine ih restNodup ?_
        rw [indexed, List.toFinset_cons, Finset.erase_insert]
        simpa using notLater
      · exact ⟨nodup, indexed⟩

theorem forgetOldest_of_room {capacity : Nat} {recent : List Text} {index : Finset Text}
    (room : recent.length ≤ capacity)
    : forgetOldest capacity recent index = (recent, index) := by
  cases recent with
  | nil => rfl
  | cons old rest => rw [forgetOldest, if_neg (Nat.not_lt.mpr room)]

def rememberCompleted (assembler : QbtFileAssembler) (key : Text) : QbtFileAssembler :=
  if known : key ∈ assembler.completedIndex then assembler
  else
    have fresh : key ∉ assembler.completedRecent := by
      simpa [assembler.indexed] using known
    have nodup : (assembler.completedRecent ++ [key]).Nodup := by
      rw [List.nodup_append_comm]
      exact List.nodup_cons.mpr ⟨fresh, assembler.recentNodup⟩
    have indexed : insert key assembler.completedIndex
        = (assembler.completedRecent ++ [key]).toFinset := by
      ext other
      simp only [assembler.indexed, Finset.mem_insert, List.mem_toFinset, List.mem_append,
        List.mem_singleton, or_comm]
    have kept := forgetOldest_indexed assembler.duplicateCacheSize nodup indexed
    { assembler with
      completedRecent :=
        (forgetOldest assembler.duplicateCacheSize (assembler.completedRecent ++ [key])
          (insert key assembler.completedIndex)).1
      completedIndex :=
        (forgetOldest assembler.duplicateCacheSize (assembler.completedRecent ++ [key])
          (insert key assembler.completedIndex)).2
      recentNodup := kept.1
      indexed := kept.2 }

/-- Clock readings never run backwards, so the subtraction is a duration. -/
def evictStaleInflight (assembler : QbtFileAssembler) (now : Instant) : QbtFileAssembler :=
  { assembler with
    byKey :=
      assembler.byKey.retain
        (fun inflight => decide (now - inflight.lastSeen ≤ assembler.inflightTtl)) }

def evictOverflowInflight (assembler : QbtFileAssembler)
    (order : IterationOrder Text InflightFile) (minCapacity : Nat)
    : QbtFileAssembler :=
  { assembler with
    byKey :=
      KeyedMap.evictOldest order InflightFile.lastSeen minCapacity assembler.byKey.size
        assembler.byKey }

/-- The eviction runs until a further file fits; one removal for each entry is enough. -/
theorem evictOverflowInflight_room (assembler : QbtFileAssembler)
    (order : IterationOrder Text InflightFile) {minCapacity : Nat} (positive : 0 < minCapacity)
    : (assembler.evictOverflowInflight order minCapacity).byKey.size < minCapacity :=
  KeyedMap.evictOldest_size _ positive

/-- Make room for a segment of the given key. -/
def makeRoom (order : IterationOrder Text InflightFile) (now : Instant)
    (assembler : QbtFileAssembler) (key : Text)
    : QbtFileAssembler :=
  let assembler := assembler.evictStaleInflight now
  if key ∈ assembler.byKey then assembler
  else assembler.evictOverflowInflight order assembler.maxInflightFiles

/-- The entry of the key with the segment stored in it. -/
def storedEntry (now : Instant) (assembler : QbtFileAssembler) (key : Text)
    (segment : QbtSegment)
    : InflightFile :=
  ((assembler.byKey.lookup key).getD (.empty segment.totalBlocks now)).receive segment now

/-- Push one segment at the given clock reading. The iteration order is that of the scan for
the oldest entries. Pushing never fails.
-/
def push (toLowercase : Text → Text) (order : IterationOrder Text InflightFile)
    (now : Instant) (assembler : QbtFileAssembler) (segment : QbtSegment)
    : Option QbtCompletedFile × QbtFileAssembler :=
  if isFillFile segment.filename then (none, assembler)
  else if segment.totalBlocks = 0 ∨ segment.blockNumber = 0
      ∨ segment.blockNumber > segment.totalBlocks then
    (none, assembler)
  else
    let key := fileKey toLowercase segment
    if key ∈ assembler.completedIndex then (none, assembler)
    else
      let assembler := makeRoom order now assembler key
      let entry := storedEntry now assembler key segment
      let assembler := { assembler with byKey := assembler.byKey.insert key entry }
      if UInt32.ofNat entry.parts.size ≠ segment.totalBlocks then (none, assembler)
      else
        match entry.values.head? with
        | none => (none, assembler)
        | some first =>
            let file : QbtCompletedFile :=
              { filename := first.filename
                data := entry.values.flatMap QbtSegment.content
                timestampUtc := first.timestampUtc }
            (some file,
              { assembler with byKey := assembler.byKey.erase key }.rememberCompleted key)

/-- Segments that a push does not ignore. -/
def Accepts (segment : QbtSegment) : Prop :=
  isFillFile segment.filename = false
  ∧ 1 ≤ segment.blockNumber.toNat ∧ segment.blockNumber.toNat ≤ segment.totalBlocks.toNat

/-- The file that complete parts are emitted as. -/
def completedFile (first : QbtSegment) (parts : List QbtSegment) : QbtCompletedFile where
  filename := first.filename
  data := parts.flatMap QbtSegment.content
  timestampUtc := first.timestampUtc

/-- The entry of a pushed segment. -/
def pushedEntry (toLowercase : Text → Text) (order : IterationOrder Text InflightFile)
    (now : Instant) (assembler : QbtFileAssembler) (segment : QbtSegment)
    : InflightFile :=
  storedEntry now (makeRoom order now assembler (fileKey toLowercase segment))
    (fileKey toLowercase segment) segment

/-- The assembler with the entry of a pushed segment. -/
def pushedStore (toLowercase : Text → Text) (order : IterationOrder Text InflightFile)
    (now : Instant) (assembler : QbtFileAssembler) (segment : QbtSegment)
    : QbtFileAssembler :=
  let room := makeRoom order now assembler (fileKey toLowercase segment)
  { room with
    byKey :=
      room.byKey.insert (fileKey toLowercase segment)
        (pushedEntry toLowercase order now assembler segment) }

section Push

variable {toLowercase : Text → Text} {order : IterationOrder Text InflightFile}
  {now : Instant} {assembler : QbtFileAssembler} {segment : QbtSegment}

theorem push_ignored (refused : ¬ Accepts segment)
    : push toLowercase order now assembler segment = (none, assembler) := by
  cases fill : isFillFile segment.filename with
  | true => simp only [push, fill, if_true]
  | false =>
      have misnumbered
          : ¬ (1 ≤ segment.blockNumber.toNat
                ∧ segment.blockNumber.toNat ≤ segment.totalBlocks.toNat) :=
        fun numbered => refused ⟨fill, numbered⟩
      simp only [push, fill, Bool.false_eq_true, if_false, misnumbered_iff, misnumbered,
        not_false_eq_true, if_true]

theorem push_known (known : fileKey toLowercase segment ∈ assembler.completedIndex)
    : push toLowercase order now assembler segment = (none, assembler) := by
  simp only [push, known, if_true, ite_self]

theorem push_accepted (accepts : Accepts segment)
    (fresh : fileKey toLowercase segment ∉ assembler.completedIndex)
    : push toLowercase order now assembler segment
      = if UInt32.ofNat (pushedEntry toLowercase order now assembler segment).values.length
          ≠ segment.totalBlocks
        then (none, pushedStore toLowercase order now assembler segment)
        else
          match (pushedEntry toLowercase order now assembler segment).values.head? with
          | none => (none, pushedStore toLowercase order now assembler segment)
          | some first =>
              (some
                  (completedFile first
                    (pushedEntry toLowercase order now assembler segment).values),
                { pushedStore toLowercase order now assembler segment with
                  byKey :=
                    (pushedStore toLowercase order now assembler segment).byKey.erase
                      (fileKey toLowercase segment)
                }.rememberCompleted (fileKey toLowercase segment)) := by
  obtain ⟨notFill, numbered⟩ := accepts
  simp only [push, notFill, Bool.false_eq_true, if_false, misnumbered_iff, numbered,
    not_true, and_self, fresh, InflightFile.size_eq_length]
  rfl

end Push

end QbtFileAssembler

end Emwin.Qbt
