import Emwin.Library.KeyedMap
import Emwin.Library.RecentMap
import Emwin.Qbt.Protocol.Model

/-! The retained files of the live server: a map beside the order of insertion, bounded in
number and in age.
-/

namespace Emwin.Live
open Library Qbt

structure RetainedFile (M : Type) where
  data : Bytes
  completedAt : SystemTime
  metadata : M
  deriving DecidableEq, Repr

/-- The age in nanoseconds, zero for a file completed in the future. -/
def RetainedFile.age {M : Type} (file : RetainedFile M) (now : SystemTime) : Nat :=
  (now - file.completedAt).toNat

/-- The lifetime is in nanoseconds. -/
structure RetainedFiles (M : Type) where
  byName : KeyedMap Text (RetainedFile M)
  order : List Text
  maxEntries : Nat
  ttl : Nat

namespace RetainedFiles

variable {M O : Type}

def new (maxEntries ttl : Nat) : RetainedFiles M where
  byName := ∅
  order := []
  maxEntries := max maxEntries 1
  ttl := max ttl 1000000000

/-- The names that stay in the order, and the map without the files that are too old. -/
def retainFresh (ttl : Nat) (now : SystemTime)
    : List Text → KeyedMap Text (RetainedFile M) → List Text × KeyedMap Text (RetainedFile M)
  | [], byName => ([], byName)
  | name :: rest, byName =>
      match byName.lookup name with
      | none => retainFresh ttl now rest byName
      | some file =>
          if ttl < file.age now then retainFresh ttl now rest (byName.erase name)
          else
            let (kept, byName) := retainFresh ttl now rest byName
            (name :: kept, byName)

def evictExpired (now : SystemTime) (files : RetainedFiles M) : RetainedFiles M :=
  let (order, byName) := retainFresh files.ttl now files.order files.byName
  { files with order, byName }

/-- Drop names from the front until the map is small enough. -/
def popOldest (maxEntries : Nat)
    : List Text → KeyedMap Text (RetainedFile M) → List Text × KeyedMap Text (RetainedFile M)
  | [], byName => ([], byName)
  | oldest :: rest, byName =>
      if maxEntries < byName.size then popOldest maxEntries rest (byName.erase oldest)
      else (oldest :: rest, byName)

section Calls

variable (buildMetadata : Text → UInt64 → O → Bytes → M)

def insert (now : SystemTime) (filename : Text) (data : Bytes) (timestampUtc : UInt64)
    (origin : O) (completedAt : SystemTime) (files : RetainedFiles M)
    : M × RetainedFiles M :=
  let files := files.evictExpired now
  let metadata := buildMetadata filename timestampUtc origin data
  let order :=
    (if filename ∈ files.byName then files.order.filter (· ≠ filename) else files.order)
    ++ [filename]
  let byName := files.byName.insert filename { data, completedAt, metadata }
  let (order, byName) := popOldest files.maxEntries order byName
  (metadata, { files with order, byName })

def list (now : SystemTime) (files : RetainedFiles M) : List M × RetainedFiles M :=
  let files := files.evictExpired now
  ((files.order.reverse.filterMap files.byName.lookup).map RetainedFile.metadata, files)

def get (now : SystemTime) (filename : Text) (files : RetainedFiles M)
    : Option (RetainedFile M) × RetainedFiles M :=
  let files := files.evictExpired now
  (files.byName.lookup filename, files)

def len (now : SystemTime) (files : RetainedFiles M) : Nat × RetainedFiles M :=
  let files := files.evictExpired now
  (files.byName.size, files)

/-- A call with its arguments. -/
inductive Call (O : Type) where
  | insert (filename : Text) (data : Bytes) (timestampUtc : UInt64) (origin : O)
    (completedAt : SystemTime)
  | list
  | get (filename : Text)
  | len

/-- The store after a call at a clock reading. -/
def after (files : RetainedFiles M) : SystemTime × Call O → RetainedFiles M
  | (now, .insert filename data timestampUtc origin completedAt) =>
      (files.insert buildMetadata now filename data timestampUtc origin completedAt).2
  | (now, .list) => (files.list now).2
  | (now, .get filename) => (files.get now filename).2
  | (now, .len) => (files.len now).2

def afterAll (files : RetainedFiles M) (calls : List (SystemTime × Call O)) : RetainedFiles M :=
  calls.foldl (after buildMetadata) files

/-- What a call inserts under which name. -/
def insertion : SystemTime × Call O → Option (Text × RetainedFile M)
  | (_, .insert filename data timestampUtc origin completedAt) =>
      some (filename,
        { data, completedAt, metadata := buildMetadata filename timestampUtc origin data })
  | _ => none

def insertions (calls : List (SystemTime × Call O)) : List (Text × RetainedFile M) :=
  calls.filterMap (insertion buildMetadata)

end Calls

-----------------------------------------------------------------------------------------
-- The store as a map of recent writes
-----------------------------------------------------------------------------------------

/-- A file that is not too old. -/
def fresh (ttl : Nat) (now : SystemTime) (file : RetainedFile M) : Bool := file.age now ≤ ttl

/-- The map and the order of a store are those of a map of recent writes. -/
structure Holds (files : RetainedFiles M) (map : RecentMap Text (RetainedFile M)) : Prop where
  ordered : files.order = map.keys
  held : ∀ name file, files.byName.lookup name = some file ↔ (name, file) ∈ map.entries

variable {files : RetainedFiles M} {map : RecentMap Text (RetainedFile M)}
  {ttl capacity : Nat} {now : SystemTime} {name : Text} {file : RetainedFile M}

theorem Holds.mem_order_iff (holds : Holds files map)
    : name ∈ files.order ↔ ∃ file, files.byName.lookup name = some file := by
  rw [holds.ordered, RecentMap.keys, List.mem_map]
  constructor
  · rintro ⟨⟨_, file⟩, member, rfl⟩
    exact ⟨file, (holds.held _ file).mpr member⟩
  · rintro ⟨file, found⟩
    exact ⟨(name, file), (holds.held name file).mp found, rfl⟩

theorem fresh_iff : fresh ttl now file = true ↔ ¬ ttl < file.age now := by
  simp [fresh]

/-- A file that is fresh was fresh before. -/
theorem fresh_antitone {earlier : SystemTime} (before : earlier ≤ now)
    (late : fresh ttl now file = true)
    : fresh ttl earlier file = true := by
  have younger : file.age earlier ≤ file.age now :=
    Int.toNat_le_toNat (Int.sub_le_sub_right before _)
  rw [fresh_iff] at late ⊢
  omega

/-- What a pass over distinct names keeps, by induction on them. -/
theorem retainFresh_spec {names : List Text} {byName : KeyedMap Text (RetainedFile M)}
    (nodup : names.Nodup)
    : (retainFresh ttl now names byName).1
        = names.filter (fun name => (byName.lookup name).any (fresh ttl now))
      ∧ ∀ name file,
          (retainFresh ttl now names byName).2.lookup name = some file
          ↔ byName.lookup name = some file ∧ (name ∈ names → fresh ttl now file = true) := by
  induction names generalizing byName with
  | nil => simp [retainFresh]
  | cons first rest ih =>
      obtain ⟨absent, later⟩ := List.nodup_cons.mp nodup
      rw [retainFresh]
      cases found : byName.lookup first with
      | none =>
          obtain ⟨order, lookups⟩ := @ih byName later
          refine ⟨by simp [order, found], fun name file => ?_⟩
          rw [lookups, List.mem_cons]
          refine and_congr_right fun present => imp_congr_left ?_
          have other : name ≠ first := by
            rintro rfl
            rw [found] at present
            cases present
          simp [other]
      | some stored =>
          by_cases old : ttl < stored.age now
          · have stale : fresh ttl now stored = false := by simp [fresh, old]
            obtain ⟨order, lookups⟩ := @ih (byName.erase first) later
            simp only [if_pos old]
            constructor
            · rw [order, List.filter_cons_of_neg (by simp [found, stale])]
              refine List.filter_congr fun name member => ?_
              have other : name ≠ first := fun same => absent (same ▸ member)
              rw [AList.lookup_erase_ne other]
            · intro name file
              rw [lookups, List.mem_cons]
              by_cases same : name = first
              · subst same
                rw [AList.lookup_erase, found]
                constructor
                · rintro ⟨gone, -⟩
                  cases gone
                · rintro ⟨kept, isFresh⟩
                  obtain rfl := Option.some.inj kept
                  rw [isFresh (.inl rfl)] at stale
                  cases stale
              · rw [AList.lookup_erase_ne same]
                simp [same]
          · have young : fresh ttl now stored = true := by simpa [fresh] using old
            obtain ⟨order, lookups⟩ := @ih byName later
            simp only [if_neg old]
            constructor
            · rw [order, List.filter_cons_of_pos (by simp [found, young])]
            · intro name file
              rw [lookups, List.mem_cons]
              refine and_congr_right fun present => ?_
              by_cases same : name = first
              · subst same
                rw [found] at present
                obtain rfl := Option.some.inj present
                simp [young]
              · simp [same]

/-- A pass keeps every file that is fresh, by induction on the names. -/
theorem lookup_retainFresh_of_fresh {names : List Text}
    {byName : KeyedMap Text (RetainedFile M)} (stored : byName.lookup name = some file)
    (isFresh : fresh ttl now file = true)
    : (retainFresh ttl now names byName).2.lookup name = some file := by
  induction names generalizing byName with
  | nil => exact stored
  | cons first rest ih =>
      rw [retainFresh]
      cases found : byName.lookup first with
      | none => exact ih stored
      | some other =>
          dsimp only
          split
          · next old =>
              have different : name ≠ first := by
                rintro rfl
                obtain rfl := Option.some.inj (stored.symm.trans found)
                exact fresh_iff.mp isFresh old
              exact ih (by rwa [AList.lookup_erase_ne different])
          · exact ih stored

theorem get_of_fresh (stored : files.byName.lookup name = some file)
    (unexpired : file.age now ≤ files.ttl)
    : (files.get now name).1 = some file :=
  lookup_retainFresh_of_fresh stored (decide_eq_true unexpired)

/-- What dropping from the front leaves, by induction on the names. -/
theorem popOldest_spec {names : List Text} {byName : KeyedMap Text (RetainedFile M)}
    (nodup : names.Nodup) (present : ∀ name ∈ names, name ∈ byName)
    (size : byName.size = names.length)
    : (popOldest capacity names byName).1 = names.rtake capacity
      ∧ ∀ name file,
          (popOldest capacity names byName).2.lookup name = some file
          ↔ byName.lookup name = some file
            ∧ (name ∈ names → name ∈ names.rtake capacity) := by
  induction names generalizing byName with
  | nil => simp [popOldest]
  | cons oldest rest ih =>
      obtain ⟨absent, later⟩ := List.nodup_cons.mp nodup
      rw [popOldest]
      split
      · next full =>
          have smaller : (KeyedMap.size (byName.erase oldest)) = rest.length := by
            have removed := KeyedMap.size_erase (present oldest (by simp))
            rw [size, List.length_cons] at removed
            omega
          have others : ∀ name ∈ rest, name ∈ byName.erase oldest := by
            intro name member
            rw [AList.mem_erase]
            exact ⟨fun same => absent (same ▸ member), present name (by simp [member])⟩
          have enough : capacity ≤ rest.length := by
            rw [size, List.length_cons] at full
            omega
          have cut : ([oldest] ++ rest).rtake capacity = rest.rtake capacity :=
            rtake_append_of_le_length enough
          rw [List.singleton_append] at cut
          obtain ⟨order, lookups⟩ := ih later others smaller
          rw [cut]
          refine ⟨order, fun name file => ?_⟩
          rw [lookups, List.mem_cons]
          by_cases same : name = oldest
          · subst same
            rw [AList.lookup_erase]
            constructor
            · rintro ⟨gone, -⟩
              cases gone
            · rintro ⟨-, kept⟩
              exact absurd (List.mem_of_mem_drop (kept (.inl rfl))) absent
          · rw [AList.lookup_erase_ne same]
            simp [same]
      · next room =>
          have whole : (oldest :: rest).rtake capacity = oldest :: rest := by
            rw [size] at room
            rw [List.rtake, Nat.sub_eq_zero_of_le (by omega), List.drop_zero]
          rw [whole]
          exact ⟨rfl, fun name file => by simp⟩

theorem Holds.size (holds : Holds files map) : files.byName.size = map.entries.length := by
  have perm : files.byName.keys.Perm map.keys := by
    refine (List.perm_ext_iff_of_nodup files.byName.keys_nodup map.nodup_keys).mpr fun name => ?_
    rw [← AList.mem_keys, ← holds.ordered, holds.mem_order_iff, ← AList.lookup_isSome,
      Option.isSome_iff_exists]
  have lengths := perm.length_eq
  rwa [AList.keys, List.keys, List.length_map, RecentMap.keys, List.length_map] at lengths

theorem Holds.lookup_entry (holds : Holds files map) {entry : Text × RetainedFile M}
    (member : entry ∈ map.entries)
    : files.byName.lookup entry.1 = some entry.2 :=
  (holds.held entry.1 entry.2).mpr member

/-- Eviction drops exactly the entries that are too old. -/
theorem Holds.evictExpired (holds : Holds files map) (now : SystemTime)
    : Holds (files.evictExpired now) (map.keep (fresh files.ttl now)) := by
  have nodup : files.order.Nodup := holds.ordered ▸ map.nodup_keys
  obtain ⟨order, lookups⟩ := @retainFresh_spec M files.ttl now files.order files.byName nodup
  constructor
  · show (retainFresh files.ttl now files.order files.byName).1 = _
    rw [order, holds.ordered, RecentMap.keys, List.filter_map]
    refine congrArg (List.map Prod.fst) (List.filter_congr fun entry member => ?_)
    simp [holds.lookup_entry member]
  · intro name file
    refine (lookups name file).trans ?_
    rw [RecentMap.keep, List.mem_filter, ← holds.held]
    refine and_congr_right fun found => ?_
    have member : name ∈ files.order := holds.mem_order_iff.mpr ⟨file, found⟩
    simp [member]

/-- Writing under a name replaces its file and moves the name to the end. -/
theorem Holds.write (holds : Holds files map) (filename : Text) (file : RetainedFile M)
    : Holds
        { files with
          order :=
            (if filename ∈ files.byName then files.order.filter (· ≠ filename)
              else files.order) ++ [filename]
          byName := files.byName.insert filename file }
        (map.write filename file) := by
  constructor
  · dsimp only
    rw [RecentMap.keys_write, ← holds.ordered]
    split
    · rfl
    · next absent =>
        rw [List.filter_eq_self.mpr]
        intro name member
        obtain ⟨held, found⟩ := holds.mem_order_iff.mp member
        have present : name ∈ files.byName := AList.lookup_isSome.mp (by simp [found])
        simpa using fun equal : name = filename => absent (equal ▸ present)
  · intro name other
    dsimp only
    rw [RecentMap.write, List.mem_append, List.mem_filter, List.mem_singleton, Prod.mk.injEq]
    by_cases equal : name = filename
    · subst equal
      simp [AList.lookup_insert, eq_comm]
    · rw [AList.lookup_insert_ne equal, holds.held]
      simp [equal]

/-- Dropping names from the front leaves the newest entries. -/
theorem Holds.popOldest (holds : Holds files map) (capacity : Nat)
    : Holds
        { files with
          order := (popOldest capacity files.order files.byName).1
          byName := (popOldest capacity files.order files.byName).2 }
        (map.newest capacity) := by
  have present : ∀ name ∈ files.order, name ∈ files.byName := by
    intro name member
    obtain ⟨file, found⟩ := holds.mem_order_iff.mp member
    exact AList.lookup_isSome.mp (by simp [found])
  have nodup : files.order.Nodup := holds.ordered ▸ map.nodup_keys
  have size : files.byName.size = files.order.length := by
    rw [holds.size, holds.ordered, RecentMap.keys, List.length_map]
  obtain ⟨popped, lookups⟩ := @popOldest_spec M capacity _ _ nodup present size
  constructor
  · rw [popped, RecentMap.keys_newest, holds.ordered]
  · intro name file
    refine (lookups name file).trans ?_
    rw [holds.held, holds.ordered, ← RecentMap.keys_newest]
    constructor
    · rintro ⟨member, kept⟩
      obtain ⟨⟨_, other⟩, inside, rfl⟩ := List.mem_map.mp
        (kept (List.mem_map_of_mem (f := Prod.fst) member))
      exact RecentMap.value_unique (List.mem_of_mem_drop inside) member ▸ inside
    · intro inside
      exact ⟨List.mem_of_mem_drop inside, fun _ => List.mem_map_of_mem (f := Prod.fst) inside⟩

/-- Inserting drops what is too old, writes the file, and drops what is too much. -/
theorem Holds.insert (buildMetadata : Text → UInt64 → O → Bytes → M)
    (holds : Holds files map) (now : SystemTime) (filename : Text) (data : Bytes)
    (timestampUtc : UInt64) (origin : O) (completedAt : SystemTime)
    : Holds
        (files.insert buildMetadata now filename data timestampUtc origin completedAt).2
        (((map.keep (fresh files.ttl now)).write filename
          { data
            completedAt
            metadata := buildMetadata filename timestampUtc origin data }).newest
          files.maxEntries) :=
  ((holds.evictExpired now).write filename _).popOldest files.maxEntries

-----------------------------------------------------------------------------------------
-- Runs
-----------------------------------------------------------------------------------------

section Runs

variable {buildMetadata : Text → UInt64 → O → Bytes → M} {calls : List (SystemTime × Call O)}
  {call : SystemTime × Call O}

/-- What a call makes of a map of recent writes. -/
def mapAfter (buildMetadata : Text → UInt64 → O → Bytes → M) (capacity ttl : Nat)
    (map : RecentMap Text (RetainedFile M)) (call : SystemTime × Call O)
    : RecentMap Text (RetainedFile M) :=
  match insertion buildMetadata call with
  | none => map.keep (fresh ttl call.1)
  | some (filename, file) => ((map.keep (fresh ttl call.1)).write filename file).newest capacity

/-- Every call does to the store what it does to the map, by cases on it. -/
theorem Holds.after (buildMetadata : Text → UInt64 → O → Bytes → M)
    (holds : Holds files map) (call : SystemTime × Call O)
    : Holds (files.after buildMetadata call)
        (mapAfter buildMetadata files.maxEntries files.ttl map call) := by
  obtain ⟨now, call⟩ := call
  cases call with
  | insert filename data timestampUtc origin completedAt =>
      exact holds.insert buildMetadata now filename data timestampUtc origin completedAt
  | list => exact holds.evictExpired now
  | get filename => exact holds.evictExpired now
  | len => exact holds.evictExpired now

theorem after_limits (buildMetadata : Text → UInt64 → O → Bytes → M)
    (files : RetainedFiles M) (call : SystemTime × Call O)
    : (files.after buildMetadata call).maxEntries = files.maxEntries
      ∧ (files.after buildMetadata call).ttl = files.ttl := by
  obtain ⟨now, call⟩ := call
  cases call <;> exact ⟨rfl, rfl⟩

theorem insertions_concat (calls : List (SystemTime × Call O)) (call : SystemTime × Call O)
    : insertions buildMetadata (calls ++ [call])
      = insertions buildMetadata calls ++ (insertion buildMetadata call).toList := by
  rw [insertions, List.filterMap_append]
  cases found : insertion buildMetadata call <;> simp [insertions, found]

/-- A store within its limits whose map follows the calls and covers the last insertions, at
every reading from now on.
-/
structure Tracks (buildMetadata : Text → UInt64 → O → Bytes → M) (capacity ttl : Nat)
    (calls : List (SystemTime × Call O)) (files : RetainedFiles M)
    (map : RecentMap Text (RetainedFile M))
    : Prop where
  limits : files.maxEntries = capacity ∧ files.ttl = ttl
  holds : Holds files map
  few : map.entries.length ≤ capacity
  follows : map.Follows (insertions buildMetadata calls)
  covers
    : ∀ now,
        (∀ call ∈ calls, call.1 ≤ now)
        → map.Covers capacity (fresh ttl now) (insertions buildMetadata calls)

theorem tracks_new (buildMetadata : Text → UInt64 → O → Bytes → M) (maxEntries ttl : Nat)
    : Tracks buildMetadata (max maxEntries 1) (max ttl 1000000000) []
        (RetainedFiles.new maxEntries ttl) {} where
  limits := ⟨rfl, rfl⟩
  holds := ⟨rfl, by simp [RetainedFiles.new]⟩
  few := Nat.zero_le _
  follows := .empty
  covers _ _ := .empty

/-- A call at a later reading keeps the store on track, by cases on whether it inserts. -/
theorem Tracks.after (tracks : Tracks buildMetadata capacity ttl calls files map)
    (later : ∀ earlier ∈ calls, earlier.1 ≤ call.1)
    : Tracks buildMetadata capacity ttl (calls ++ [call]) (files.after buildMetadata call)
        (mapAfter buildMetadata capacity ttl map call) := by
  obtain ⟨entries, lifetime⟩ := tracks.limits
  obtain ⟨sameEntries, sameLifetime⟩ := after_limits buildMetadata files call
  have simulated := tracks.holds.after buildMetadata call
  rw [entries, lifetime] at simulated
  have kept := (tracks.covers call.1 later).keep
  have onward (now : SystemTime) (late : ∀ earlier ∈ calls ++ [call], earlier.1 ≤ now)
      (file : RetainedFile M) (isFresh : fresh ttl now file = true)
      : fresh ttl call.1 file = true :=
    fresh_antitone (late call (by simp)) isFresh
  refine ⟨⟨sameEntries.trans entries, sameLifetime.trans lifetime⟩, simulated, ?_, ?_, ?_⟩
  · rw [mapAfter]
    split
    · exact (List.length_filter_le _ _).trans tracks.few
    · simp only [RecentMap.newest, List.rtake, List.length_drop]
      omega
  · rw [mapAfter, insertions_concat]
    split
    · next none =>
        rw [none, Option.toList_none, List.append_nil]
        exact tracks.follows.keep _
    · next filename file some =>
        rw [some, Option.toList_some]
        exact ((tracks.follows.keep _).write filename file).newest capacity
  · intro now late
    rw [mapAfter, insertions_concat]
    split
    · next none =>
        rw [none, Option.toList_none, List.append_nil]
        exact kept.mono (onward now late)
    · next filename file some =>
        rw [some, Option.toList_some]
        exact (kept.mono (onward now late)).write (tracks.follows.keep _) filename file

/-- Every run at readings that do not decrease stays on track, by induction on its calls. -/
theorem exists_tracks (buildMetadata : Text → UInt64 → O → Bytes → M) (maxEntries ttl : Nat)
    (inOrder : (calls.map Prod.fst).Pairwise (· ≤ ·))
    : ∃ map,
        Tracks buildMetadata (max maxEntries 1) (max ttl 1000000000) calls
          ((RetainedFiles.new maxEntries ttl).afterAll buildMetadata calls) map := by
  induction calls using List.reverseRecOn with
  | nil => exact ⟨{}, tracks_new buildMetadata maxEntries ttl⟩
  | append_singleton calls call ih =>
      rw [List.map_append, List.pairwise_append] at inOrder
      obtain ⟨before, -, later⟩ := inOrder
      obtain ⟨map, tracks⟩ := ih before
      refine ⟨mapAfter buildMetadata (max maxEntries 1) (max ttl 1000000000) map call, ?_⟩
      rw [afterAll, List.foldl_append, List.foldl_cons, List.foldl_nil]
      exact tracks.after fun earlier member =>
        later earlier.1 (List.mem_map_of_mem member) call.1 (by simp)

/-- The names of the files that are held and not too old, in the order of last insertion. -/
def heldNames (ttl : Nat) (writes : List (Text × RetainedFile M)) (files : RetainedFiles M)
    (now : SystemTime)
    : List Text :=
  (writtenKeys writes).filter fun name => (files.byName.lookup name).any (fresh ttl now)

/-- What holds after some calls: the two collections agree within the limit, and every further
call answers from what was inserted last and is not too old.
-/
structure Laws (buildMetadata : Text → UInt64 → O → Bytes → M) (capacity ttl : Nat)
    (calls : List (SystemTime × Call O)) (files : RetainedFiles M)
    : Prop where
  distinct : files.order.Nodup
  keyed : ∀ name, name ∈ files.order ↔ name ∈ files.byName
  bounded : files.byName.size ≤ capacity
  ordered : files.order.Sublist (writtenKeys (insertions buildMetadata calls))
  /-- The newest names come first. -/
  listed
    : ∀ now,
        (files.list now).1
        = ((heldNames ttl (insertions buildMetadata calls) files now).reverse.filterMap
            (latest (insertions buildMetadata calls))).map RetainedFile.metadata
  counted
    : ∀ now,
        (files.len now).1
        = (heldNames ttl (insertions buildMetadata calls) files now).length
  got
    : ∀ now name,
        (files.get now name).1
        = if name ∈ heldNames ttl (insertions buildMetadata calls) files now then
            latest (insertions buildMetadata calls) name
          else none
  /-- No file that is returned is too old. -/
  young : ∀ now name file, (files.get now name).1 = some file → file.age now ≤ ttl
  /-- Unexpired files of the last names are there. -/
  kept
    : ∀ now,
        (∀ call ∈ calls, call.1 ≤ now)
        → ∀ name ∈ (writtenKeys (insertions buildMetadata calls)).rtake capacity, ∀ file,
            latest (insertions buildMetadata calls) name = some file
            → file.age now ≤ ttl
            → (files.get now name).1 = some file
  /-- An inserted file is the newest, and only the oldest ones go. -/
  inserted
    : ∀ now filename data timestampUtc origin completedAt,
        (files.insert buildMetadata now filename data timestampUtc origin completedAt).2.order
          = ((heldNames ttl (insertions buildMetadata calls) files now).filter (· ≠ filename)
              ++ [filename]).rtake capacity
        ∧ (files.insert buildMetadata now filename data timestampUtc origin
              completedAt).2.byName.lookup filename
          = some
              { data
                completedAt
                metadata := buildMetadata filename timestampUtc origin data }

theorem Tracks.heldNames_eq (tracks : Tracks buildMetadata capacity ttl calls files map)
    (now : SystemTime)
    : heldNames ttl (insertions buildMetadata calls) files now
      = (map.keep (fresh ttl now)).keys := by
  refine filter_eq_of_sublist (tracks.follows.keep _).ordered (nodup_writtenKeys _) ?_
  intro name _
  rw [RecentMap.keys, List.mem_map]
  constructor
  · intro held
    obtain ⟨file, found, isFresh⟩ := (Option.any_eq_true _ _).mp held
    exact ⟨(name, file),
      List.mem_filter.mpr ⟨(tracks.holds.held name file).mp found, isFresh⟩, rfl⟩
  · rintro ⟨⟨_, file⟩, member, rfl⟩
    obtain ⟨inside, isFresh⟩ := List.mem_filter.mp member
    exact (Option.any_eq_true _ _).mpr ⟨file, tracks.holds.lookup_entry inside, isFresh⟩

theorem Tracks.evicted (tracks : Tracks buildMetadata capacity ttl calls files map)
    (now : SystemTime)
    : Holds (files.evictExpired now) (map.keep (fresh ttl now)) := by
  have evicted := tracks.holds.evictExpired now
  rwa [tracks.limits.2] at evicted

theorem Tracks.listed (tracks : Tracks buildMetadata capacity ttl calls files map)
    (now : SystemTime)
    : (files.list now).1
      = ((heldNames ttl (insertions buildMetadata calls) files now).reverse.filterMap
          (latest (insertions buildMetadata calls))).map RetainedFile.metadata := by
  have evicted := tracks.evicted now
  have follows := tracks.follows.keep (fresh ttl now)
  rw [tracks.heldNames_eq, RecentMap.filterMap_keys _ fun entry member =>
    follows.current entry.1 entry.2 member]
  rw [RetainedFiles.list, evicted.ordered, RecentMap.filterMap_keys _ fun entry member =>
    evicted.lookup_entry member]

theorem Tracks.got (tracks : Tracks buildMetadata capacity ttl calls files map)
    (now : SystemTime) (name : Text)
    : (files.get now name).1
      = if name ∈ heldNames ttl (insertions buildMetadata calls) files now then
          latest (insertions buildMetadata calls) name
        else none := by
  have evicted := tracks.evicted now
  rw [tracks.heldNames_eq, ← evicted.ordered]
  split
  · next member =>
      obtain ⟨file, found⟩ := evicted.mem_order_iff.mp member
      have current := (tracks.follows.keep (fresh ttl now)).current name file
        ((evicted.held name file).mp found)
      rw [current]
      exact found
  · next absent =>
      rw [RetainedFiles.get]
      by_contra present
      obtain ⟨file, found⟩ := Option.ne_none_iff_exists'.mp present
      exact absent (evicted.mem_order_iff.mpr ⟨file, found⟩)

theorem Tracks.laws (positive : 0 < capacity)
    (tracks : Tracks buildMetadata capacity ttl calls files map)
    : Laws buildMetadata capacity ttl calls files where
  distinct := tracks.holds.ordered ▸ map.nodup_keys
  keyed name := by
    rw [tracks.holds.mem_order_iff, ← AList.lookup_isSome, Option.isSome_iff_exists]
  bounded := tracks.holds.size.trans_le tracks.few
  ordered := tracks.holds.ordered ▸ tracks.follows.ordered
  listed := tracks.listed
  counted now := by
    rw [tracks.heldNames_eq, RecentMap.keys, List.length_map]
    exact (tracks.evicted now).size
  got := tracks.got
  young now name file found := by
    have member := ((tracks.evicted now).held name file).mp found
    exact of_decide_eq_true (List.mem_filter.mp member).2
  kept now late name recent file current isFresh := by
    have member := (tracks.covers now late).keep name recent file current
      (decide_eq_true isFresh)
    exact (tracks.evicted now).lookup_entry member
  inserted now filename data timestampUtc origin completedAt := by
    have after := tracks.holds.insert buildMetadata now filename data timestampUtc origin
      completedAt
    rw [tracks.limits.1, tracks.limits.2] at after
    constructor
    · rw [after.ordered, RecentMap.keys_newest, RecentMap.keys_write, tracks.heldNames_eq]
    · exact (after.held _ _).mpr (RecentMap.mem_newest_write positive _ _ _)

/-- In every run of calls at readings that do not decrease, the store keeps its laws. -/
theorem retainedFiles_laws (buildMetadata : Text → UInt64 → O → Bytes → M)
    (maxEntries ttl : Nat) (calls : List (SystemTime × Call O))
    (inOrder : (calls.map Prod.fst).Pairwise (· ≤ ·))
    : Laws buildMetadata (max maxEntries 1) (max ttl 1000000000) calls
        ((RetainedFiles.new maxEntries ttl).afterAll buildMetadata calls) := by
  obtain ⟨map, tracks⟩ := exists_tracks buildMetadata maxEntries ttl inOrder
  exact tracks.laws (Nat.lt_of_lt_of_le Nat.one_pos (le_max_right _ _))

end Runs

/-- Three files for a store of two, the first one inserted again. -/
def sampleCalls : List (SystemTime × Call Unit) := [
  (10, .insert "a.txt".toList [1] 1 () 10),
  (11, .insert "b.txt".toList [2] 2 () 11),
  (12, .insert "a.txt".toList [3] 3 () 12),
  (13, .insert "c.txt".toList [4] 4 () 13)
]

/-- The file inserted again outlives the one that was inserted between. -/
theorem retainedFiles_laws_sample
    : Laws (fun name _ _ _ => name) (max 2 1) (max 50000000 1000000000) sampleCalls
        ((new 2 50000000).afterAll (fun name _ _ _ => name) sampleCalls)
      ∧ (((new 2 50000000).afterAll (fun name _ _ _ => name) sampleCalls).list 14).1
        = ["c.txt".toList, "a.txt".toList] :=
  ⟨retainedFiles_laws (fun name _ _ _ => name) 2 50000000 sampleCalls (by decide),
    by decide +kernel⟩

end RetainedFiles

end Emwin.Live
