import Emwin.Live.FilePipeline
import Emwin.WxWire.Filename

/-! Where the blobs of a Weather Wire product are stored. -/

namespace Emwin.Live
open Library Db WxWire

/-- What stands up to the last slash. -/
def directoryOf (path : Text) : Text :=
  match rsplitOnce '/' path with
  | none => []
  | some (before, _) => before ++ ['/']

/-- What stands behind the last slash. -/
def nameOf (path : Text) : Text :=
  match rsplitOnce '/' path with
  | none => path
  | some (_, name) => name

/-- The directories in front of the blobs of a text with an extension behind it. If the text
ends in the name `.`, the extension of the payload cannot be replaced, and its sidecar is the
directory above.
-/
def directionsOf (text : Text) : List PathComponent :=
  innerComponents (directoryOf text) ++ if nameOf text = ['.'] then [.parentDir] else []

/-- A text that, with an extension behind it, names a file below the directory it is joined to:
it does not start with a slash, and its directories never lead above their start.
-/
def Contained (text : Text) : Prop :=
  text.head? ≠ some '/' ∧ descendsFrom 0 (directionsOf text) = true

/-- The attribute that names the product is contained. -/
def AttributesContained (attributes : ProductAttributes) : Prop :=
  let names := parseNames attributes
  if names.awipsid ≠ "NONE".toList then Contained names.awipsid
  else if names.ttaaii ≠ [] ∧ names.cccc ≠ [] then
    Contained (names.ttaaii ++ '_' :: names.cccc)
  else names.id ≠ [] → Contained names.id

theorem directoryOf_append_nameOf (path : Text)
    : path = directoryOf path ++ nameOf path
      ∧ Directory (directoryOf path)
      ∧ '/' ∉ nameOf path := by
  obtain ⟨before, name, split, directory, plain⟩ := exists_directory path
  have same : directoryOf path = before ∧ nameOf path = name := by
    unfold directoryOf nameOf
    rcases directory with rfl | ⟨front, rfl⟩
    · have none : rsplitOnce '/' path = none := by
        by_contra other
        obtain ⟨⟨front, back⟩, found⟩ := Option.ne_none_iff_exists'.mp other
        obtain ⟨whole, -⟩ := rsplitOnce_eq_some_iff.mp found
        rw [List.nil_append] at split
        exact plain (by simp [← split, whole])
      rw [none]
      exact ⟨rfl, split⟩
    · rw [rsplitOnce_eq_some_iff.mpr ⟨by simpa using split, plain⟩]
      exact ⟨rfl, rfl⟩
  rw [same.1, same.2]
  exact ⟨split, directory, plain⟩

/-- The name of a payload keeps its dots if nothing but one dot stands before the extension. -/
theorem keepsDots_payload {name : Text} (file : FileName (name ++ ".TXT".toList))
    : keepsDots (name ++ ".TXT".toList) = decide (name = ['.']) := by
  have parts : fileParts (name ++ ".TXT".toList) = some ([], name ++ ".TXT".toList) :=
    fileParts_name file (.inl rfl)
  unfold keepsDots
  rw [parts]
  dsimp only
  cases name with
  | nil => rfl
  | cons c name =>
      have split : stemAndExtension (c :: name ++ ".TXT".toList)
          = (c :: name, some "TXT".toList) :=
        stemAndExtension_eq_some_iff.mpr ⟨rfl, by decide, by simp⟩
      rw [split]
      simp

/-- The blobs of a file whose name ends in an extension stay below every root exactly when the
text in front of the extension is contained. The sidecar stands in the directory of the payload,
or is the directory above it.
-/
theorem blobs_contained_iff {M E : Type} {metadataJsonBytes : M → Except E Bytes} {text : Text}
    {data : Bytes} {metadata : M} {request : PersistRequest M}
    (built
      : buildPersistRequest metadataJsonBytes (text ++ ".TXT".toList) data metadata = .ok request)
    (writer : FilesystemBlobWriter)
    : (∀ entry ∈ request.blobs,
        entry.relativePath.head? ≠ some '/' ∧ Under writer.root (writer.target entry))
      ↔ Contained text := by
  obtain ⟨split, directory, plain⟩ := directoryOf_append_nameOf text
  have file : FileName (nameOf text ++ ".TXT".toList) := by
    refine ⟨?_, by simp, ?_, ?_⟩
    · intro member
      rcases List.mem_append.mp member with inName | inExtension
      · exact plain inName
      · exact absurd inExtension (by decide)
    all_goals
      intro same
      have lengths := congrArg List.length same
      simp at lengths
  have whole : text ++ ".TXT".toList = directoryOf text ++ (nameOf text ++ ".TXT".toList) := by
    rw [← List.append_assoc, ← split]
  have sidecarRelative : (sidecarPath (text ++ ".TXT".toList)).head? ≠ some '/' := by
    rw [whole, sidecarPath_name directory file]
    intro absolute
    have kept := List.head?_dropWhile_not (fun c => decide (c = '/'))
      (directoryOf text ++ sidecarName (nameOf text ++ ".TXT".toList))
    rw [absolute] at kept
    exact absurd kept (by decide)
  have payloadInner : innerComponents (text ++ ".TXT".toList)
      = innerComponents (directoryOf text) ++ [.normal (nameOf text ++ ".TXT".toList)] := by
    rw [whole, innerComponents_directory directory file]
  have sidecarDescends : descendsFrom 0 (innerComponents (sidecarPath (text ++ ".TXT".toList)))
      = descendsFrom 0 (directionsOf text) := by
    rw [whole, sidecarPath_name directory file, innerComponents_dropSlashes, directionsOf]
    by_cases dot : nameOf text = ['.']
    · rw [if_pos dot,
        sidecarName_parent file (by rw [keepsDots_payload file, dot]; rfl),
        innerComponents_parent directory]
    · have sidecar :=
        fileName_sidecarName file.plain (by rw [keepsDots_payload file]; simpa using dot)
      rw [if_neg dot, List.append_nil, innerComponents_directory directory sidecar,
        descendsFrom_normal]
  have relative : (text ++ ".TXT".toList).head? = some '/' ↔ text.head? = some '/' := by
    cases text with
    | nil => decide
    | cons c text => rfl
  have byPath : (∀ entry ∈ request.blobs,
        entry.relativePath.head? ≠ some '/' ∧ Under writer.root (writer.target entry))
      ↔ ∀ path ∈ request.blobs.map BlobEntry.relativePath,
          path.head? ≠ some '/' ∧ Under writer.root (joinPath writer.root path) := by
    rw [List.forall_mem_map]
    rfl
  rw [byPath, buildPersistRequest_blobs built, Contained]
  constructor
  · intro inside
    obtain ⟨payloadRelative, -⟩ := inside _ List.mem_cons_self
    obtain ⟨-, under⟩ := inside _ (List.mem_cons_of_mem _ List.mem_cons_self)
    refine ⟨fun absolute => payloadRelative (relative.mpr absolute), ?_⟩
    rw [under_join_iff sidecarRelative, sidecarDescends] at under
    exact under
  · rintro ⟨first, descends⟩ path member
    have payloadRelative : (text ++ ".TXT".toList).head? ≠ some '/' :=
      fun absolute => first (relative.mp absolute)
    rcases List.mem_pair.mp member with rfl | rfl
    · refine ⟨payloadRelative, (under_join_iff payloadRelative).mpr ?_⟩
      rw [payloadInner, descendsFrom_normal]
      exact descendsFrom_of_append descends
    · refine ⟨sidecarRelative, (under_join_iff sidecarRelative).mpr ?_⟩
      rw [sidecarDescends]
      exact descends

/-- A name of digits behind a fixed start is contained. -/
theorem contained_timestamp (seconds : Nat)
    : Contained ("wxwire_".toList ++ Nat.toDigits 10 seconds) := by
  have plain : '/' ∉ "wxwire_".toList ++ Nat.toDigits 10 seconds := by
    intro member
    rcases List.mem_append.mp member with fixed | digit
    · exact absurd fixed (by decide)
    · exact absurd (Nat.isDigit_of_mem_toDigits (by omega) (by omega) digit) (by decide)
  refine ⟨fun absolute => plain (List.mem_of_head? absolute), ?_⟩
  generalize stamp : "wxwire_".toList ++ Nat.toDigits 10 seconds = text at plain
  obtain ⟨split, directory, -⟩ := directoryOf_append_nameOf text
  rcases directory with empty | ⟨front, slash⟩
  · have longer : nameOf text ≠ ['.'] := by
      intro dot
      rw [dot, empty, ← stamp] at split
      exact absurd (congrArg List.head? split) (by simp)
    rw [directionsOf, empty, if_neg longer]
    rfl
  · rw [slash] at split
    exact absurd (by rw [split]; simp) plain

/-- The blobs of a Weather Wire product are stored below the output directory exactly when the
attribute that names it does not lead out of it.
-/
theorem feed_blobs_contained_iff {M E : Type} (metadataJsonBytes : M → Except E Bytes)
    (attributes : ProductAttributes) (issueUtc : Int) (data : Bytes) (metadata : M)
    (request : PersistRequest M)
    (built
      : buildPersistRequest metadataJsonBytes (productFilename attributes issueUtc) data metadata
        = .ok request)
    (writer : FilesystemBlobWriter)
    : (∀ entry ∈ request.blobs,
        entry.relativePath.head? ≠ some '/' ∧ Under writer.root (writer.target entry))
      ↔ AttributesContained attributes := by
  unfold productFilename buildFilename at built
  unfold AttributesContained
  dsimp only at built ⊢
  by_cases awips : (parseNames attributes).awipsid ≠ "NONE".toList
  · rw [if_pos ⟨awipsid_ne_nil attributes, awips⟩] at built
    rw [if_pos awips]
    exact blobs_contained_iff built writer
  rw [if_neg (fun both => awips both.2)] at built
  rw [if_neg awips]
  by_cases headed : (parseNames attributes).ttaaii ≠ [] ∧ (parseNames attributes).cccc ≠ []
  · rw [if_pos headed, ← List.cons_append, ← List.append_assoc] at built
    rw [if_pos headed]
    exact blobs_contained_iff built writer
  rw [if_neg headed] at built
  rw [if_neg headed]
  by_cases named : (parseNames attributes).id ≠ []
  · rw [if_pos named] at built
    rw [blobs_contained_iff built writer]
    simp [named]
  · rw [if_neg named] at built
    rw [blobs_contained_iff built writer]
    exact iff_of_true (contained_timestamp _) fun other => absurd other named

def forecastAttributes : ProductAttributes :=
  { id := none, ttaaii := none, cccc := none, awipsid := some "AFDBOX".toList }

theorem forecast_contained
    : ∃ request : PersistRequest Unit,
        buildPersistRequest (E := Empty) (fun _ => .ok []) (productFilename forecastAttributes 0) []
          ()
          = .ok request
        ∧ ∀ entry ∈ request.blobs,
            entry.relativePath.head? ≠ some '/'
            ∧ Under "/data/out".toList
                (FilesystemBlobWriter.target ⟨"/data/out".toList⟩ entry) := by
  refine ⟨_, rfl, ?_⟩
  refine (feed_blobs_contained_iff (E := Empty) (fun _ => .ok []) forecastAttributes 0 [] () _ rfl
    ⟨"/data/out".toList⟩).mpr ?_
  exact ⟨by decide, by decide⟩

/-- An AWIPS id with parent directories. -/
def escapingAttributes : ProductAttributes :=
  { id := none, ttaaii := none, cccc := none, awipsid := some "../../etc/cron".toList }

/-- The payload of such a product is written outside the output directory. -/
theorem escaping_target
    : ∃ request : PersistRequest Unit,
        buildPersistRequest (E := Empty) (fun _ => .ok []) (productFilename escapingAttributes 0) []
          ()
          = .ok request
        ∧ request.blobs.head?.map (fun entry =>
            resolvePath (FilesystemBlobWriter.target ⟨"/data/out".toList⟩ entry))
          = some [.rootDir, .normal "etc".toList, .normal "cron.TXT".toList]
        ∧ ¬ ∀ entry ∈ request.blobs,
              entry.relativePath.head? ≠ some '/'
              ∧ Under "/data/out".toList
                  (FilesystemBlobWriter.target ⟨"/data/out".toList⟩ entry) := by
  have built : buildPersistRequest (E := Empty) (fun _ : Unit => .ok [])
      ("../../etc/cron".toList ++ ".TXT".toList) [] () = .ok _ := rfl
  refine ⟨_, rfl, by decide, fun inside => ?_⟩
  have contained := (blobs_contained_iff built ⟨"/data/out".toList⟩).mp inside
  exact absurd contained.2 (by decide)

end Emwin.Live
