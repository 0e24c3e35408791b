import Mathlib.Data.List.Perm.Basic
import Mathlib.Data.List.Nodup
import Emwin.Db.Filesystem

/-! Blobs of a completed file: the payload and its metadata sidecar. -/

namespace Emwin.Live
open Library Db

def metadataSidecarPath (outputDir filename : Text) : Text :=
  let target := joinPath outputDir filename
  match extension target with
  | some _ => withExtension target "JSON".toList
  | none => target ++ ".JSON".toList

/-- The request of a completed file. Serialising the metadata may fail. -/
def buildPersistRequest {M E : Type} (metadataJsonBytes : M → Except E Bytes)
    (filename : Text) (data : Bytes) (metadata : M)
    : Except E (PersistRequest M) :=
  let metadataPath := (metadataSidecarPath [] filename).dropWhile (· = '/')
  match metadataJsonBytes metadata with
  | .error error => .error error
  | .ok metadataBytes =>
      .ok {
        requestKey := filename
        metadata
        blobs :=
          [{ role := .payload, relativePath := filename, bytes := data,
             contentType := some "application/octet-stream".toList },
           { role := .metadataSidecar, relativePath := metadataPath, bytes := metadataBytes,
             contentType := some "application/json".toList }] }

/-- A name without its extension and without slashes at its start. -/
def bareName (filename : Text) : Text :=
  match fileParts filename with
  | some (before, name) =>
      match stemAndExtension name with
      | (stem, some _) => (before ++ stem).dropWhile (· = '/')
      | (_, none) => filename.dropWhile (· = '/')
  | none => filename.dropWhile (· = '/')

theorem joinPath_nil (path : Text) : joinPath [] path = path := by
  unfold joinPath
  by_cases absolute : path.head? = some '/'
  · rw [if_pos absolute]
  · rw [if_neg absolute, if_pos (.inl rfl), List.nil_append]

/-- Two dots and an extension behind the last slash: such an extension is not replaced. -/
def keepsDots (filename : Text) : Bool :=
  match fileParts filename with
  | some (before, name) =>
      match stemAndExtension name with
      | (stem, some _) => stem = ['.'] && filename = before ++ name
      | (_, none) => false
  | none => false

/-- The sidecar of a file, as the request names it: the bare name with another extension. The
bare name of two dots and an extension is one dot, and one more is put behind it.
-/
def sidecarPath (filename : Text) : Text :=
  bareName filename ++ if keepsDots filename then ['.'] else ".JSON".toList

theorem dropWhile_slash_append (path : Text) {suffix : Text} (relative : suffix.head? ≠ some '/')
    : (path ++ suffix).dropWhile (fun c => decide (c = '/'))
      = path.dropWhile (fun c => decide (c = '/')) ++ suffix := by
  rw [List.dropWhile_append]
  split
  · next empty => rw [List.isEmpty_iff.mp empty, dropSlashes_relative relative, List.nil_append]
  · rfl

/-- The sidecar stands beside the file, under its bare name. -/
theorem sidecar_eq_sidecarPath (filename : Text)
    : (metadataSidecarPath [] filename).dropWhile (fun c => decide (c = '/'))
      = sidecarPath filename := by
  have json (path : Text)
      : (path ++ ".JSON".toList).dropWhile (fun c => decide (c = '/'))
        = path.dropWhile (fun c => decide (c = '/')) ++ ".JSON".toList :=
    dropWhile_slash_append path (by decide)
  unfold metadataSidecarPath sidecarPath bareName keepsDots extension
  rw [joinPath_nil]
  dsimp only
  cases parts : fileParts filename with
  | none => exact json filename
  | some found =>
      obtain ⟨before, name⟩ := found
      cases split : stemAndExtension name with
      | mk stem found =>
          cases found with
          | none =>
              simp only [Option.bind_some, split]
              exact json filename
          | some previous =>
              simp only [Option.bind_some, split]
              rw [withExtension_eq parts split (by decide)]
              by_cases dots : stem = ['.'] ∧ filename = before ++ name
              · rw [if_pos dots, if_pos (by simpa using dots), dots.1]
                have dot : (['.'] : Text).head? ≠ some '/' := by decide
                rw [← dropWhile_slash_append _ dot, List.append_assoc]
                rfl
              · rw [if_neg dots, if_neg (by simpa using dots)]
                exact json (before ++ stem)

/-- The two blobs of a file. -/
theorem buildPersistRequest_blobs {M E : Type} {metadataJsonBytes : M → Except E Bytes}
    {filename : Text} {data : Bytes} {metadata : M} {request : PersistRequest M}
    (built : buildPersistRequest metadataJsonBytes filename data metadata = .ok request)
    : request.blobs.map BlobEntry.relativePath = [filename, sidecarPath filename] := by
  unfold buildPersistRequest at built
  rw [sidecar_eq_sidecarPath] at built
  cases serialized : metadataJsonBytes metadata with
  | error error =>
      rw [serialized] at built
      exact absurd built (by simp)
  | ok bytes =>
      rw [serialized] at built
      obtain rfl := Except.ok.inj built
      rfl

-----------------------------------------------------------------------------------------
-- Which blobs share a path
-----------------------------------------------------------------------------------------

/-- A file that is handed to the pipeline. -/
structure CompletedFile (M : Type) where
  filename : Text
  data : Bytes
  metadata : M
  deriving DecidableEq, Repr

/-- Names that differ in more than their extension, none of them the name of a sidecar. -/
structure NamesApart (filenames : List Text) : Prop where
  bare : (filenames.map fun filename => (bareName filename, keepsDots filename)).Nodup
  noSidecar : ∀ filename ∈ filenames, ∀ other ∈ filenames, filename ≠ sidecarPath other

/-- Files share a sidecar if their names are the same but for the extension. -/
theorem sidecarPath_eq_iff (left right : Text)
    : sidecarPath left = sidecarPath right
      ↔ (bareName left, keepsDots left) = (bareName right, keepsDots right) := by
  rw [Prod.mk.injEq]
  constructor
  · intro same
    have dots : keepsDots left = keepsDots right := by
      have last := congrArg List.getLast? same
      cases leftDots : keepsDots left <;> cases rightDots : keepsDots right <;>
        simp [sidecarPath, leftDots, rightDots] at last ⊢
    rw [sidecarPath, sidecarPath, dots] at same
    exact ⟨List.append_cancel_right same, dots⟩
  · rintro ⟨bare, dots⟩
    rw [sidecarPath, sidecarPath, bare, dots]

theorem nodup_sidecars {filenames : List Text}
    : (filenames.map sidecarPath).Nodup
      ↔ (filenames.map fun filename => (bareName filename, keepsDots filename)).Nodup := by
  simp only [List.Nodup, List.pairwise_map, ne_eq, sidecarPath_eq_iff]

theorem blob_paths_perm (filenames : List Text)
    : (filenames.flatMap fun filename => [filename, sidecarPath filename]).Perm
        (filenames ++ filenames.map sidecarPath) := by
  have parts := List.flatMap_append_perm filenames (fun filename => [filename])
    (fun filename => [sidecarPath filename])
  rw [← List.map_eq_flatMap, ← List.map_eq_flatMap, List.map_id'] at parts
  exact parts.symm

theorem blob_paths_nodup_iff {filenames : List Text} (different : filenames.Nodup)
    : (filenames.flatMap fun filename => [filename, sidecarPath filename]).Nodup
      ↔ NamesApart filenames := by
  rw [(blob_paths_perm filenames).nodup_iff, List.nodup_append, nodup_sidecars]
  constructor
  · rintro ⟨-, bare, apart⟩
    exact ⟨bare, fun filename member other listed =>
      apart filename member _ (List.mem_map_of_mem listed)⟩
  · rintro ⟨bare, noSidecar⟩
    refine ⟨different, bare, fun filename member path listed => ?_⟩
    obtain ⟨other, inside, rfl⟩ := List.mem_map.mp listed
    exact noSidecar filename member other inside

/-- The name of a sidecar in its directory. -/
def sidecarName (name : Text) : Text :=
  (stemAndExtension name).1 ++ if keepsDots name then ['.'] else ".JSON".toList

theorem fileName_sidecarName {name : Text} (plain : '/' ∉ name) (replaced : keepsDots name = false)
    : FileName (sidecarName name) := by
  have stem : '/' ∉ (stemAndExtension name).1 := by
    unfold stemAndExtension
    split
    · exact plain
    · exact plain
    · next found =>
        obtain ⟨rfl, -⟩ := rsplitOnce_eq_some_iff.mp found
        exact fun member => plain (List.mem_append_left _ member)
  have json : sidecarName name = (stemAndExtension name).1 ++ ".JSON".toList := by
    rw [sidecarName, replaced]
    rfl
  have long : 5 ≤ (sidecarName name).length := by simp [json]
  refine ⟨?_, ?_, ?_, ?_⟩
  · rw [json]
    intro member
    rcases List.mem_append.mp member with inStem | inExtension
    · exact stem inStem
    · exact absurd inExtension (by decide)
  all_goals
    intro same
    rw [same] at long
    exact absurd long (by decide)

/-- A name of two dots and an extension has the directory above as its sidecar. -/
theorem sidecarName_parent {name : Text} (file : FileName name) (kept : keepsDots name = true)
    : sidecarName name = ['.', '.'] := by
  have parts : fileParts name = some ([], name) := fileParts_name file (.inl rfl)
  rw [sidecarName, kept, if_pos rfl]
  unfold keepsDots at kept
  rw [parts] at kept
  dsimp only at kept
  split at kept
  · next split =>
      have dot : _ = ['.'] := (by simpa using kept)
      rw [split, dot]
      rfl
  · exact absurd kept (by simp)

theorem keepsDots_directory {before name : Text} (directory : Directory before)
    (file : FileName name)
    : keepsDots (before ++ name) = keepsDots name := by
  have parts : fileParts name = some ([], name) := fileParts_name file (.inl rfl)
  unfold keepsDots
  rw [fileParts_name file directory, parts]
  simp

theorem sidecarPath_name {before name : Text} (directory : Directory before)
    (file : FileName name)
    : sidecarPath (before ++ name)
      = (before ++ sidecarName name).dropWhile (fun c => decide (c = '/')) := by
  have bare : bareName (before ++ name)
      = (before ++ (stemAndExtension name).1).dropWhile (fun c => decide (c = '/')) := by
    unfold bareName
    rw [fileParts_name file directory]
    unfold stemAndExtension
    dsimp only
    split
    · next same =>
        split at same
        · exact absurd same (by simp)
        · exact absurd same (by simp)
        · obtain ⟨rfl, -⟩ := Prod.mk.inj same
          rfl
    · next same =>
        split at same
        · obtain ⟨rfl, -⟩ := Prod.mk.inj same
          rfl
        · obtain ⟨rfl, -⟩ := Prod.mk.inj same
          rfl
        · exact absurd same (by simp)
  have relative : (if keepsDots name then ['.'] else ".JSON".toList).head? ≠ some '/' := by
    cases keepsDots name <;> decide
  rw [sidecarPath, bare, keepsDots_directory directory file,
    ← dropWhile_slash_append _ relative, List.append_assoc]
  rfl

/-- The sidecar of a path of names stands in the same directory. -/
theorem plain_sidecarPath {filename : Text} (plain : PlainPath filename)
    (replaced : keepsDots filename = false)
    : PlainPath (sidecarPath filename) := by
  obtain ⟨before, name, rfl, directory, noSlash⟩ := exists_directory filename
  have file : FileName name := plain name (mem_pieces_last directory noSlash)
  rw [keepsDots_directory directory file] at replaced
  have sidecar := fileName_sidecarName noSlash replaced
  have kept : (before ++ sidecarName name).dropWhile (fun c => decide (c = '/'))
      = before ++ sidecarName name := by
    refine dropSlashes_relative fun absolute => ?_
    cases before with
    | nil => exact sidecar.plain (List.mem_of_head? absolute)
    | cons c before => exact plain.relative absolute
  rw [sidecarPath_name directory file, kept]
  intro piece member
  rcases mem_pieces_directory directory sidecar.plain member with rfl | early
  · exact sidecar
  · exact plain piece (early name)

theorem paths_of_requests {M E : Type} {metadataJsonBytes : M → Except E Bytes}
    {completed : List (CompletedFile M)} {requests : List (PersistRequest M)}
    (built
      : List.Forall₂
          (fun file request =>
            buildPersistRequest metadataJsonBytes file.filename file.data file.metadata
            = .ok request)
          completed requests)
    : (requests.flatMap PersistRequest.blobs).map BlobEntry.relativePath
      = (completed.map CompletedFile.filename).flatMap
          fun filename => [filename, sidecarPath filename] := by
  induction built with
  | nil => rfl
  | cons here later ih =>
      rw [List.flatMap_cons, List.map_append, ih, buildPersistRequest_blobs here, List.map_cons,
        List.flatMap_cons]

/-- A name that is a path of names only, and whose sidecar is one too. -/
structure Storable (filename : Text) : Prop where
  plain : PlainPath filename
  replaced : keepsDots filename = false

/-- The blobs of files with different names have different paths exactly when the names differ
in more than their extension and none is the name of a sidecar. If the names can be stored,
every blob that is written without an error then keeps its bytes through all writes; and the
writes, unless the system refuses one, all succeed exactly if nothing stands in their way.
-/
theorem blobs_apart_iff {M E : Type} (metadataJsonBytes : M → Except E Bytes)
    (completed : List (CompletedFile M)) (requests : List (PersistRequest M))
    (built
      : List.Forall₂
          (fun file request =>
            buildPersistRequest metadataJsonBytes file.filename file.data file.metadata
            = .ok request)
          completed requests)
    (different : (completed.map CompletedFile.filename).Nodup)
    : (((requests.flatMap PersistRequest.blobs).map BlobEntry.relativePath).Nodup
        ↔ NamesApart (completed.map CompletedFile.filename))
      ∧ (NamesApart (completed.map CompletedFile.filename)
          → (∀ file ∈ completed, Storable file.filename)
          → ∀ (writer : FilesystemBlobWriter) (tree : Tree),
              (∀ attempts : List BlobAttempt,
                attempts.map Prod.fst = requests.flatMap PersistRequest.blobs
                → ∀ entry fault stored,
                    ((entry, fault), .ok stored)
                      ∈ attempts.zip (writer.writeAll tree attempts).2
                    → (writer.writeAll tree attempts).1 (writer.place entry)
                      = some (.file entry.bytes))
              ∧ ((writer.writeAll tree
                      ((requests.flatMap PersistRequest.blobs).map fun entry => (entry, none))).2
                    = (requests.flatMap PersistRequest.blobs).map
                        (fun entry => .ok (writer.storedBlob entry))
                  ↔ writer.Unobstructed tree (requests.flatMap PersistRequest.blobs))) := by
  have paths := paths_of_requests built
  have distinct := blob_paths_nodup_iff different
  rw [← paths] at distinct
  refine ⟨distinct, fun apart storable writer tree => ?_⟩
  have plainPath : ∀ blob ∈ requests.flatMap PersistRequest.blobs, PlainPath blob.relativePath := by
    intro blob listed
    have path := List.mem_map_of_mem (f := BlobEntry.relativePath) listed
    rw [paths, List.mem_flatMap] at path
    obtain ⟨filename, named, inside⟩ := path
    obtain ⟨file, isFile, rfl⟩ := List.mem_map.mp named
    have names := storable file isFile
    rcases List.mem_pair.mp inside with same | same
    · rw [same]
      exact names.plain
    · rw [same]
      exact plain_sidecarPath names.plain names.replaced
  have places : ((requests.flatMap PersistRequest.blobs).map writer.place).Nodup := by
    refine List.Nodup.map_on ?_ (List.Nodup.of_map _ (distinct.mpr apart))
    intro left leftListed right rightListed same
    have samePath :=
      writer.place_injective (plainPath left leftListed) (plainPath right rightListed) same
    exact List.inj_on_of_nodup_map (distinct.mpr apart) leftListed rightListed samePath
  constructor
  · intro attempts entries entry fault stored written
    refine writer.writeAll_own ?_ tree written
    rw [← entries, List.map_map] at places
    exact places
  · exact writer.writeAll_ok_iff
      (fun entry member => writer.namesFile_plain (plainPath entry member)) tree

/-- Two files and their requests, with metadata that is its own serialisation. -/
def warningFiles : List (CompletedFile Bytes) :=
  [⟨"AFDBOX.TXT".toList, [1], [2]⟩, ⟨"RADBOX.GIF".toList, [3], [4]⟩]

/-- They can all be written below a root where nothing is. -/
theorem blobs_apart_warningFiles
    : ∃ requests,
        List.Forall₂
          (fun (file : CompletedFile Bytes) request =>
            buildPersistRequest (E := Empty) .ok file.filename file.data file.metadata
            = .ok request)
          warningFiles requests
        ∧ NamesApart (warningFiles.map CompletedFile.filename)
        ∧ (((requests.flatMap PersistRequest.blobs).map BlobEntry.relativePath).Nodup)
        ∧ (FilesystemBlobWriter.writeAll ⟨"/data/out".toList⟩ (fun _ => none)
              ((requests.flatMap PersistRequest.blobs).map fun entry => (entry, none))).2
            = (requests.flatMap PersistRequest.blobs).map
                (fun entry => .ok (FilesystemBlobWriter.storedBlob ⟨"/data/out".toList⟩ entry)) := by
  have apart : NamesApart (warningFiles.map CompletedFile.filename) := ⟨by decide, by decide⟩
  have storable : ∀ file ∈ warningFiles, Storable file.filename := by
    intro file member
    rcases List.mem_pair.mp member with rfl | rfl
    · exact ⟨plainPath_name ⟨by decide, by decide, by decide, by decide⟩, by decide⟩
    · exact ⟨plainPath_name ⟨by decide, by decide, by decide, by decide⟩, by decide⟩
  refine ⟨_, .cons rfl (.cons rfl .nil), apart, ?_⟩
  obtain ⟨iff, written⟩ :=
    blobs_apart_iff (E := Empty) .ok warningFiles _ (.cons rfl (.cons rfl .nil)) (by decide)
  refine ⟨iff.mpr apart, (written apart storable _ _).2.mpr ⟨?_, ?_, ?_⟩⟩
  · intro _ _ _ _ _
    simp
  · intro _ _
    simp
  · decide

/-- Two products whose names differ in the extension only share one sidecar: what was written
for the first is gone.
-/
theorem sidecar_shared_by_extension
    : ∃ requests,
        List.Forall₂
          (fun (file : CompletedFile Bytes) request =>
            buildPersistRequest (E := Empty) .ok file.filename file.data file.metadata
            = .ok request)
          [⟨"RADBOX.TXT".toList, [1], [2]⟩, ⟨"RADBOX.GIF".toList, [3], [4]⟩] requests
        ∧ ¬ ((requests.flatMap PersistRequest.blobs).map BlobEntry.relativePath).Nodup := by
  refine ⟨_, .cons rfl (.cons rfl .nil), ?_⟩
  decide

end Emwin.Live
