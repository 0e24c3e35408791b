import Emwin.Library.Paths
import Emwin.Db.Model

/-! The filesystem writer: where blobs are stored below the root of the output directory. -/

namespace Emwin.Db
open Library

inductive Node where
  | directory
  | file (bytes : Bytes)
  deriving DecidableEq, Repr

/-- What stands at the places that paths name; there are no links. -/
abbrev Tree := List PathComponent → Option Node

inductive IoError where
  | notADirectory
  | isADirectory
  | refused
  deriving DecidableEq, Repr

/-- Where the system refuses a write for a reason that the tree does not show: rights, room,
or a name that it does not take.
-/
inductive Fault where
  | createDir (made : Nat)
  | openFile
  | writeBytes (written : Nat)
  deriving DecidableEq, Repr

namespace Tree

/-- The directories at these places, from the outermost on, unless they are there. -/
def createDirs (tree : Tree) : List (List PathComponent) → Tree × Except IoError Unit
  | [] => (tree, .ok ())
  | place :: places =>
      match tree place with
      | some (.file _) => (tree, .error .notADirectory)
      | _ => createDirs (Function.update tree place (some .directory)) places

/-- `std::fs::create_dir_all`. -/
def createDirAll (fault : Option Fault) (tree : Tree) (places : List (List PathComponent))
    : Tree × Except IoError Unit :=
  match fault with
  | some (.createDir made) => ((tree.createDirs (places.take made)).1, .error .refused)
  | _ => tree.createDirs places

/-- The last component of a path, which must be a name if it is to be opened as a file. -/
def namesFile (path : Text) : Bool :=
  match (pieces path).getLast?.bind pieceComponent? with
  | some (.normal _) => true
  | _ => false

/-- `std::fs::write`. -/
def writeFile (fault : Option Fault) (tree : Tree) (path : Text) (bytes : Bytes)
    : Tree × Except IoError Unit :=
  let place := resolvePath path
  if !namesFile path || tree place = some .directory then (tree, .error .isADirectory)
  else
    match fault with
    | some (.writeBytes written) =>
        (Function.update tree place (some (.file (bytes.take written))), .error .refused)
    | some _ => (tree, .error .refused)
    | none => (Function.update tree place (some (.file bytes)), .ok ())

end Tree

structure FilesystemBlobWriter where
  root : Text
  deriving DecidableEq, Repr

/-- A blob to be written, and where that fails if the tree allows it. -/
abbrev BlobAttempt := BlobEntry × Option Fault

namespace FilesystemBlobWriter

variable (writer : FilesystemBlobWriter)

def target (entry : BlobEntry) : Text := joinPath writer.root entry.relativePath

/-- The place that the target of an entry names. -/
def place (entry : BlobEntry) : List PathComponent := resolvePath (writer.target entry)

/-- The places of the directories that the target of an entry goes through. -/
def wayTo (entry : BlobEntry) : List (List PathComponent) :=
  (components (writer.target entry)).dropLast.inits.tail.map (resolveOnto [])

def storedBlob (entry : BlobEntry) : StoredBlob where
  kind := .filesystem
  role := entry.role
  location := writer.target entry
  sizeBytes := entry.bytes.length
  contentType := entry.contentType

def write (tree : Tree) (attempt : BlobAttempt) : Tree × Except IoError StoredBlob :=
  let (entry, fault) := attempt
  match tree.createDirAll fault (writer.wayTo entry) with
  | (tree, .error error) => (tree, .error error)
  | (tree, .ok ()) =>
      match tree.writeFile fault (writer.target entry) entry.bytes with
      | (tree, .error error) => (tree, .error error)
      | (tree, .ok ()) => (tree, .ok (writer.storedBlob entry))

/-- One write after the other, with what each returns. -/
def writeAll (tree : Tree) : List BlobAttempt → Tree × List (Except IoError StoredBlob)
  | [] => (tree, [])
  | attempt :: rest =>
      let (tree, result) := writer.write tree attempt
      let (tree, results) := writeAll tree rest
      (tree, result :: results)

end FilesystemBlobWriter

-----------------------------------------------------------------------------------------
-- What a write leaves alone
-----------------------------------------------------------------------------------------

namespace Tree
variable {tree : Tree} {place : List PathComponent} {bytes : Bytes}

/-- Making directories leaves files alone, by induction on the directories. -/
theorem createDirs_file (kept : tree place = some (.file bytes))
    (places : List (List PathComponent))
    : (tree.createDirs places).1 place = some (.file bytes) := by
  induction places generalizing tree with
  | nil => exact kept
  | cons first places ih =>
      unfold createDirs
      split
      · exact kept
      · next noFile =>
          refine ih ?_
          rw [Function.update_of_ne]
          · exact kept
          · rintro rfl
            exact noFile bytes kept

theorem createDirAll_file (kept : tree place = some (.file bytes)) (fault : Option Fault)
    (places : List (List PathComponent))
    : (tree.createDirAll fault places).1 place = some (.file bytes) := by
  unfold createDirAll
  split
  · exact createDirs_file kept _
  · exact createDirs_file kept places

theorem writeFile_other {path : Text} (other : resolvePath path ≠ place)
    (fault : Option Fault) (tree : Tree) (written : Bytes)
    : (tree.writeFile fault path written).1 place = tree place := by
  unfold writeFile
  dsimp only
  split_ifs
  · rfl
  · split
    · exact Function.update_of_ne (Ne.symm other) ..
    · rfl
    · exact Function.update_of_ne (Ne.symm other) ..

/-- A file that is written without an error holds the bytes. -/
theorem writeFile_ok {path : Text} {fault : Option Fault}
    (ok : (tree.writeFile fault path bytes).2 = .ok ())
    : (tree.writeFile fault path bytes).1 (resolvePath path) = some (.file bytes) := by
  unfold writeFile at ok ⊢
  dsimp only at ok ⊢
  split_ifs at ok ⊢
  cases fault with
  | none => exact Function.update_self ..
  | some fault => cases fault <;> cases ok

theorem writeFile_ok_iff (tree : Tree) (path : Text) (bytes : Bytes)
    : (tree.writeFile none path bytes).2 = .ok ()
      ↔ namesFile path = true ∧ tree (resolvePath path) ≠ some .directory := by
  unfold writeFile
  dsimp only
  split_ifs with bad
  · refine iff_of_false (by simp) fun good => ?_
    simp [good.1, good.2] at bad
  · simp only [Bool.or_eq_true, Bool.not_eq_true', decide_eq_true_eq, not_or,
      Bool.not_eq_false] at bad
    exact iff_of_true rfl bad

theorem writeFile_apply {path : Text} (ok : (tree.writeFile none path bytes).2 = .ok ())
    (place : List PathComponent)
    : (tree.writeFile none path bytes).1 place
      = if place = resolvePath path then some (.file bytes) else tree place := by
  by_cases same : place = resolvePath path
  · rw [if_pos same, same, writeFile_ok ok]
  · rw [if_neg same, writeFile_other (Ne.symm same)]

/-- Directories can be made where no file stands; then they are there. -/
theorem createDirs_ok_iff (tree : Tree) (places : List (List PathComponent))
    : (tree.createDirs places).2 = .ok ()
      ↔ ∀ place ∈ places, ∀ bytes, tree place ≠ some (.file bytes) := by
  induction places generalizing tree with
  | nil => simp [createDirs]
  | cons first places ih =>
      unfold createDirs
      rw [List.forall_mem_cons]
      split
      · next bytes found => exact iff_of_false (by simp) fun both => both.1 bytes found
      · next noFile =>
          rw [ih]
          constructor
          · intro free
            refine ⟨noFile, fun place listed bytes found => free place listed bytes ?_⟩
            rw [Function.update_of_ne]
            · exact found
            · rintro rfl
              exact noFile bytes found
          · rintro ⟨-, free⟩ place listed bytes found
            by_cases same : place = first
            · rw [same, Function.update_self] at found
              exact absurd found (by simp)
            · rw [Function.update_of_ne same] at found
              exact free place listed bytes found

theorem createDirs_apply {places : List (List PathComponent)}
    (ok : (tree.createDirs places).2 = .ok ()) (place : List PathComponent)
    : (tree.createDirs places).1 place
      = if place ∈ places then some .directory else tree place := by
  induction places generalizing tree with
  | nil => simp [createDirs]
  | cons first places ih =>
      unfold createDirs at ok ⊢
      split at ok
      · cases ok
      · rw [ih ok]
        by_cases same : place = first
        · subst same
          simp
        · simp [same]

end Tree

namespace FilesystemBlobWriter

variable (writer : FilesystemBlobWriter)

/-- Everything a write does: it ends at the directories, at the file, or well. -/
theorem write_cases (tree : Tree) (entry : BlobEntry) (fault : Option Fault)
    : (∃ made error,
        tree.createDirAll fault (writer.wayTo entry) = (made, .error error)
        ∧ writer.write tree (entry, fault) = (made, .error error))
      ∨ ∃ made,
          tree.createDirAll fault (writer.wayTo entry) = (made, .ok ())
          ∧ ((∃ last error,
                made.writeFile fault (writer.target entry) entry.bytes = (last, .error error)
                ∧ writer.write tree (entry, fault) = (last, .error error))
            ∨ ∃ last,
                made.writeFile fault (writer.target entry) entry.bytes = (last, .ok ())
                ∧ writer.write tree (entry, fault) = (last, .ok (writer.storedBlob entry))) := by
  unfold write
  dsimp only
  rcases first : tree.createDirAll fault (writer.wayTo entry) with ⟨made, error | ⟨⟩⟩
  · exact .inl ⟨made, error, rfl, rfl⟩
  · rcases second : made.writeFile fault (writer.target entry) entry.bytes with
      ⟨last, error | ⟨⟩⟩
    · exact .inr ⟨made, rfl, .inl ⟨last, error, second, by dsimp only; rw [second]⟩⟩
    · exact .inr ⟨made, rfl, .inr ⟨last, second, by dsimp only; rw [second]⟩⟩

/-- A write to another place leaves a file alone, also where it fails. -/
theorem write_other {tree : Tree} {place : List PathComponent} {bytes : Bytes}
    (kept : tree place = some (.file bytes)) {entry : BlobEntry}
    (other : writer.place entry ≠ place) (fault : Option Fault)
    : (writer.write tree (entry, fault)).1 place = some (.file bytes) := by
  have there := Tree.createDirAll_file kept fault (writer.wayTo entry)
  rcases writer.write_cases tree entry fault with
    ⟨made, error, dirs, result⟩ | ⟨made, dirs, ⟨last, error, file, result⟩ | ⟨last, file, result⟩⟩
  · rw [dirs] at there
    rw [result]
    exact there
  all_goals
    rw [dirs] at there
    have after := Tree.writeFile_other other fault made entry.bytes
    rw [result]
    exact (congrArg (fun result => result.1 place) file).symm.trans (after.trans there)

theorem write_ok {tree : Tree} {entry : BlobEntry} {fault : Option Fault} {stored : StoredBlob}
    (ok : (writer.write tree (entry, fault)).2 = .ok stored)
    : (writer.write tree (entry, fault)).1 (writer.place entry) = some (.file entry.bytes) := by
  rcases writer.write_cases tree entry fault with
    ⟨made, error, dirs, result⟩ | ⟨made, dirs, ⟨last, error, file, result⟩ | ⟨last, file, result⟩⟩
  · rw [result] at ok
    cases ok
  · rw [result] at ok
    cases ok
  · have holds := Tree.writeFile_ok (congrArg Prod.snd file)
    rw [file] at holds
    rw [result]
    exact holds

/-- By induction on the attempts. -/
theorem writeAll_other {tree : Tree} {place : List PathComponent} {bytes : Bytes}
    (kept : tree place = some (.file bytes)) {attempts : List BlobAttempt}
    (other : ∀ attempt ∈ attempts, writer.place attempt.1 ≠ place)
    : (writer.writeAll tree attempts).1 place = some (.file bytes) := by
  induction attempts generalizing tree with
  | nil => exact kept
  | cons first attempts ih =>
      exact ih (writer.write_other kept (other first (by simp)) first.2)
        fun attempt member => other attempt (by simp [member])

/-- Entries at different places that were written without an error are all there after the
last write. By induction on the attempts: a later one does not touch the places of the earlier
ones.
-/
theorem writeAll_own {attempts : List BlobAttempt}
    (apart : (attempts.map fun attempt => writer.place attempt.1).Nodup) (tree : Tree)
    {attempt : BlobAttempt} {stored : StoredBlob}
    (written : (attempt, .ok stored) ∈ attempts.zip (writer.writeAll tree attempts).2)
    : (writer.writeAll tree attempts).1 (writer.place attempt.1)
      = some (.file attempt.1.bytes) := by
  induction attempts generalizing tree with
  | nil => exact absurd written List.not_mem_nil
  | cons first attempts ih =>
      rw [List.map_cons, List.nodup_cons] at apart
      rcases List.mem_cons.mp written with same | later
      · obtain ⟨rfl, ok⟩ := Prod.mk.inj same
        refine writer.writeAll_other (writer.write_ok ok.symm) ?_
        intro other listed same
        have mapped := List.mem_map_of_mem (f := fun attempt => writer.place attempt.1) listed
        exact apart.1 (same ▸ mapped)
      · exact ih apart.2 _ later

-----------------------------------------------------------------------------------------
-- When all writes succeed
-----------------------------------------------------------------------------------------

/-- Nothing stands in the way of the entries: no file where a directory is needed, no directory
where a file is, neither before the writes nor because of them.
-/
structure Unobstructed (tree : Tree) (entries : List BlobEntry) : Prop where
  way
    : ∀ entry ∈ entries, ∀ place ∈ writer.wayTo entry, ∀ bytes, tree place ≠ some (.file bytes)
  free : ∀ entry ∈ entries, tree (writer.place entry) ≠ some .directory
  below : ∀ entry ∈ entries, ∀ other ∈ entries, writer.place entry ∉ writer.wayTo other

/-- A write that the system does not refuse succeeds if nothing stands in its way. -/
theorem write_ok_iff (tree : Tree) {entry : BlobEntry}
    (named : Tree.namesFile (writer.target entry) = true)
    : (writer.write tree (entry, none)).2 = .ok (writer.storedBlob entry)
      ↔ (∀ place ∈ writer.wayTo entry, ∀ bytes, tree place ≠ some (.file bytes))
        ∧ tree (writer.place entry) ≠ some .directory
        ∧ writer.place entry ∉ writer.wayTo entry := by
  have dirs := Tree.createDirs_ok_iff tree (writer.wayTo entry)
  rcases writer.write_cases tree entry none with
    ⟨made, error, first, result⟩ | ⟨made, first, rest⟩
  · rw [show tree.createDirs (writer.wayTo entry) = _ from first] at dirs
    rw [result]
    exact iff_of_false (by simp) fun free => absurd (dirs.mpr free.1) (by simp)
  · have ok := congrArg Prod.snd first
    have there := Tree.createDirs_apply ok (writer.place entry)
    have opens := Tree.writeFile_ok_iff made (writer.target entry) entry.bytes
    rw [show tree.createDirs (writer.wayTo entry) = _ from first] at dirs there
    have free : made (writer.place entry) ≠ some .directory
        ↔ tree (writer.place entry) ≠ some .directory
          ∧ writer.place entry ∉ writer.wayTo entry := by
      change made (writer.place entry) = _ at there
      rw [there]
      split_ifs with below
      · exact iff_of_false (by simp) fun both => both.2 below
      · exact (and_iff_left below).symm
    rw [and_iff_right (dirs.mp rfl), ← free]
    rcases rest with ⟨last, error, second, result⟩ | ⟨last, second, result⟩
    · rw [second] at opens
      rw [result]
      exact iff_of_false (by simp) fun other => absurd (opens.mpr ⟨named, other⟩) (by simp)
    · rw [second] at opens
      rw [result]
      exact iff_of_true rfl (opens.mp rfl).2

/-- After such a write the file and the directories are there. -/
theorem write_apply {tree : Tree} {entry : BlobEntry} {stored : StoredBlob}
    (ok : (writer.write tree (entry, none)).2 = .ok stored) (place : List PathComponent)
    : (writer.write tree (entry, none)).1 place
      = if place = writer.place entry then some (.file entry.bytes)
        else if place ∈ writer.wayTo entry then some .directory
        else tree place := by
  rcases writer.write_cases tree entry none with
    ⟨made, error, first, result⟩ | ⟨made, first, ⟨last, error, second, result⟩ | ⟨last, second, result⟩⟩
  · rw [result] at ok
    cases ok
  · rw [result] at ok
    cases ok
  · have dirs := Tree.createDirs_apply (congrArg Prod.snd first) place
    have file := Tree.writeFile_apply (congrArg Prod.snd second) place
    rw [show tree.createDirs (writer.wayTo entry) = _ from first] at dirs
    rw [second] at file
    rw [result]
    change made place = _ at dirs
    rw [← dirs]
    exact file

/-- The next entries find what a first one left. -/
theorem unobstructed_cons_iff {tree : Tree} {entry : BlobEntry} {rest : List BlobEntry}
    (named : Tree.namesFile (writer.target entry) = true)
    (ok : (writer.write tree (entry, none)).2 = .ok (writer.storedBlob entry))
    : writer.Unobstructed tree (entry :: rest)
      ↔ writer.Unobstructed (writer.write tree (entry, none)).1 rest := by
  have after := writer.write_apply ok
  obtain ⟨way, free, self⟩ := (writer.write_ok_iff tree named).mp ok
  generalize (writer.write tree (entry, none)).1 = next at after ⊢
  have there : next (writer.place entry) = some (.file entry.bytes) := by
    rw [after, if_pos rfl]
  have made {place : List PathComponent} (listed : place ∈ writer.wayTo entry)
      : next place = some .directory := by
    have other : place ≠ writer.place entry := by
      rintro rfl
      exact self listed
    rw [after, if_neg other, if_pos listed]
  have old {place : List PathComponent} (other : place ≠ writer.place entry)
      (unlisted : place ∉ writer.wayTo entry) : next place = tree place := by
    rw [after, if_neg other, if_neg unlisted]
  constructor
  · intro clear
    have rest {other : BlobEntry} (member : other ∈ rest) : other ∈ entry :: rest :=
      List.mem_cons_of_mem _ member
    refine ⟨fun other member place listed bytes found => ?_, fun other member found => ?_,
      fun one member other listed => clear.below one (rest member) other (rest listed)⟩
    · have notHere : place ≠ writer.place entry := by
        rintro rfl
        exact clear.below entry List.mem_cons_self other (rest member) listed
      by_cases inWay : place ∈ writer.wayTo entry
      · rw [made inWay] at found
        cases found
      · exact clear.way other (rest member) place listed bytes (old notHere inWay ▸ found)
    · by_cases same : writer.place other = writer.place entry
      · rw [same, there] at found
        cases found
      · have inWay := clear.below other (rest member) entry List.mem_cons_self
        exact clear.free other (rest member) (old same inWay ▸ found)
  · intro clear
    have below (other : BlobEntry) (member : other ∈ rest)
        : writer.place entry ∉ writer.wayTo other :=
      fun listed => clear.way other member _ listed _ there
    have above (other : BlobEntry) (member : other ∈ rest)
        : writer.place other ∉ writer.wayTo entry :=
      fun listed => clear.free other member (made listed)
    refine ⟨?_, ?_, ?_⟩
    · rw [List.forall_mem_cons]
      refine ⟨way, fun other member place listed bytes found => ?_⟩
      have notHere : place ≠ writer.place entry := by
        rintro rfl
        exact below other member listed
      have notInWay : place ∉ writer.wayTo entry := fun inWay => way place inWay bytes found
      exact clear.way other member place listed bytes ((old notHere notInWay).trans found)
    · rw [List.forall_mem_cons]
      refine ⟨free, fun other member found => ?_⟩
      have notHere : writer.place other ≠ writer.place entry := fun same => free (same ▸ found)
      exact clear.free other member ((old notHere (above other member)).trans found)
    · rw [List.forall_mem_cons]
      refine ⟨List.forall_mem_cons.mpr ⟨self, below⟩, fun one member => ?_⟩
      exact List.forall_mem_cons.mpr ⟨above one member, clear.below one member⟩

/-- Writes that the system does not refuse all succeed exactly if nothing stands in their way;
by induction on the entries.
-/
theorem writeAll_ok_iff {entries : List BlobEntry}
    (named : ∀ entry ∈ entries, Tree.namesFile (writer.target entry) = true) (tree : Tree)
    : (writer.writeAll tree (entries.map fun entry => (entry, none))).2
        = entries.map (fun entry => .ok (writer.storedBlob entry))
      ↔ writer.Unobstructed tree entries := by
  induction entries generalizing tree with
  | nil => exact iff_of_true rfl ⟨by simp, by simp, by simp⟩
  | cons first rest ih =>
      have later := ih (fun entry member => named entry (by simp [member]))
        (writer.write tree (first, none)).1
      have here := writer.write_ok_iff tree (named first (by simp))
      rw [List.map_cons, List.map_cons, writeAll]
      dsimp only
      rw [List.cons.injEq, later]
      constructor
      · rintro ⟨ok, free⟩
        exact (writer.unobstructed_cons_iff (named first (by simp)) ok).mpr free
      · intro free
        have member : first ∈ first :: rest := List.mem_cons_self
        have ok := here.mpr
          ⟨free.way _ member, free.free _ member, free.below _ member _ member⟩
        exact ⟨ok, (writer.unobstructed_cons_iff (named first member) ok).mp free⟩

-----------------------------------------------------------------------------------------
-- Plain paths
-----------------------------------------------------------------------------------------

/-- Plain paths that differ name different places. -/
theorem place_injective {left right : BlobEntry} (leftPlain : PlainPath left.relativePath)
    (rightPlain : PlainPath right.relativePath) (same : writer.place left = writer.place right)
    : left.relativePath = right.relativePath := by
  unfold place target resolvePath at same
  rw [leftPlain.components_joined, rightPlain.components_joined, resolveOnto_names,
    resolveOnto_names] at same
  have names := List.append_cancel_left same
  refine pieces_injective (List.map_injective_iff.mpr ?_ names)
  intro left right same
  exact PathComponent.normal.inj same

/-- A plain path names a file below every root. -/
theorem namesFile_plain {entry : BlobEntry} (plain : PlainPath entry.relativePath)
    : Tree.namesFile (writer.target entry) = true := by
  obtain ⟨piece, found⟩ : ∃ piece, (pieces entry.relativePath).getLast? = some piece :=
    ⟨_, List.getLast?_eq_some_getLast (pieces_ne_nil _)⟩
  have last : (pieces (writer.target entry)).getLast? = some piece := by
    rw [target, getLast?_pieces_join plain.relative, found]
  rw [Tree.namesFile, last, Option.bind_some,
    pieceComponent?_name (plain piece (List.mem_of_getLast? found))]

end FilesystemBlobWriter

end Emwin.Db
