import Emwin.Library.PercentEncoding
import Emwin.Library.Words
import Emwin.Live.RetainedFiles
import Emwin.Qbt.Protocol.Header
import Emwin.WxWire.Filename

/-! Downloads of retained files: the URL that is advertised for a file, and its request. -/

namespace Emwin.Live
open Library Qbt WxWire

/-- Why a download is refused. -/
inductive DownloadStatus where
  | badRequest
  | notFound
  deriving DecidableEq, Repr

def sanitizeRequestedFilename (raw : Text) : Option Text :=
  let trimmed := trim (raw.dropWhile (· = '/'))
  if trimmed = [] ∨ '\x00' ∈ trimmed ∨ "..".toList <:+: trimmed then none
  else if trimmed.head? = some '/' ∨ trimmed.head? = some '\\' then none
  else some trimmed

/-- The bytes that stand for themselves in a URL. -/
def isUnreserved (byte : UInt8) : Bool :=
  (Char.ofNat byte.toNat).isAlphanum || byte = 0x2D || byte = 0x2E || byte = 0x5F || byte = 0x7E

def fileDownloadUrl (filename : Text) : Text :=
  "/files/".toList ++ percentEncode isUnreserved (toUtf8 filename)

def filenameRequestOr400 (raw : Text) : Except DownloadStatus Text :=
  okOr .badRequest (sanitizeRequestedFilename raw)

/-- The path of a URL, in front of its query and its fragment. -/
def pathPart (url : Text) : Text := url.takeWhile fun c => c ≠ '?' && c ≠ '#'

/-- The decoded file name of the route `/files/*filename`. -/
def routedFilename (url : Text) : Except DownloadStatus Text :=
  let path := pathPart url
  if "/files/".toList <+: path ∧ path.drop "/files/".length ≠ [] then
    (fromUtf8 (percentDecode (toUtf8 (path.drop "/files/".length)))).mapError fun _ => .badRequest
  else .error .notFound

/-- The name under which a request looks for its file. -/
def requestedFilename (url : Text) : Except DownloadStatus Text := do
  let raw ← routedFilename url
  filenameRequestOr400 raw

def fileDownload {M : Type} (now : SystemTime) (url : Text) (files : RetainedFiles M)
    : Except DownloadStatus (RetainedFile M) × RetainedFiles M :=
  match requestedFilename url with
  | .error status => (.error status, files)
  | .ok normalized =>
      let (file, files) := files.get now normalized
      (okOr .notFound file, files)

-----------------------------------------------------------------------------------------
-- Requests
-----------------------------------------------------------------------------------------

theorem isUnreserved_spec (byte : UInt8) (unreserved : isUnreserved byte = true)
    : (byte < 0x80 ∧ byte ≠ 0x25)
      ∧ Char.ofNat byte.toNat ≠ '?' ∧ Char.ofNat byte.toNat ≠ '#' := by
  have all : ∀ code < 256, isUnreserved (UInt8.ofNat code) = true
      → (UInt8.ofNat code < 0x80 ∧ UInt8.ofNat code ≠ 0x25)
        ∧ Char.ofNat (UInt8.ofNat code).toNat ≠ '?'
        ∧ Char.ofNat (UInt8.ofNat code).toNat ≠ '#' := by
    decide +kernel
  have here := all byte.toNat byte.toNat_lt
  rw [UInt8.ofNat_toNat] at here
  exact here unreserved

/-- The advertised URL is all path. -/
theorem pathPart_fileDownloadUrl (filename : Text)
    : pathPart (fileDownloadUrl filename) = fileDownloadUrl filename := by
  refine List.takeWhile_eq_self_iff.mpr fun c member => ?_
  have digits : ∀ value < 16, hexDigit value ≠ '?' ∧ hexDigit value ≠ '#' := by decide
  have plain : c ≠ '?' ∧ c ≠ '#' := by
    rcases List.mem_append.mp member with fixed | encoded
    · exact (by decide : ∀ c ∈ "/files/".toList, c ≠ '?' ∧ c ≠ '#') c fixed
    rcases mem_percentEncode encoded with ⟨byte, keep, rfl⟩ | rfl | ⟨value, small, rfl⟩
    · exact (isUnreserved_spec byte keep).2
    · decide
    · exact digits value small
  simp [plain]

/-- The route gives back the name. -/
theorem routedFilename_fileDownloadUrl {filename : Text} (shown : filename ≠ [])
    : routedFilename (fileDownloadUrl filename) = .ok filename := by
  have bytes : toUtf8 filename ≠ [] := by
    obtain ⟨c, rest, rfl⟩ := List.exists_cons_of_ne_nil shown
    obtain ⟨lead, tail, shape, -⟩ := utf8EncodeChar_shape c
    simp [toUtf8_cons, shape]
  have behind : (fileDownloadUrl filename).drop "/files/".length
      = percentEncode isUnreserved (toUtf8 filename) := rfl
  rw [routedFilename, pathPart_fileDownloadUrl]
  simp only [behind]
  rw [if_pos ⟨List.prefix_append _ _, percentEncode_ne_nil bytes⟩,
    percentDecode_percentEncode fun byte keep => (isUnreserved_spec byte keep).1,
    fromUtf8_toUtf8]
  rfl

/-- The names that the request does not refuse and does not look up under another name: those
without two dots in a row, without NUL, and with neither kind of slash at their start.
-/
def Requestable (filename : Text) : Prop :=
  ¬ "..".toList <:+: filename ∧ '\x00' ∉ filename
  ∧ filename.head? ≠ some '/' ∧ filename.head? ≠ some '\\'

/-- Names with no blank at either end come out of the sanitizer exactly if they may be
requested.
-/
theorem sanitizeRequestedFilename_eq_some_iff {filename : Text} (shown : filename ≠ [])
    (trimmed : trim filename = filename)
    : sanitizeRequestedFilename filename = some filename ↔ Requestable filename := by
  unfold sanitizeRequestedFilename
  constructor
  · intro kept
    dsimp only at kept
    split_ifs at kept with bad rooted
    rw [Option.some.inj kept] at bad rooted
    simp only [not_or] at bad rooted
    exact ⟨bad.2.2, bad.2.1, rooted.1, rooted.2⟩
  · rintro ⟨noDots, noNul, noSlash, noBackslash⟩
    have whole : filename.dropWhile (fun c => decide (c = '/')) = filename := by
      obtain ⟨c, rest, rfl⟩ := List.exists_cons_of_ne_nil shown
      exact List.dropWhile_cons_of_neg (by simpa using noSlash)
    dsimp only
    rw [whole, trimmed, if_neg (by simp only [not_or]; exact ⟨shown, noNul, noDots⟩),
      if_neg (by simp only [not_or]; exact ⟨noSlash, noBackslash⟩)]

/-- What the sanitizer refuses is refused with 400; the rest is looked up. -/
theorem requestedFilename_fileDownloadUrl {filename : Text} (shown : filename ≠ [])
    : requestedFilename (fileDownloadUrl filename)
      = okOr .badRequest (sanitizeRequestedFilename filename) := by
  rw [requestedFilename, routedFilename_fileDownloadUrl shown]
  rfl

-----------------------------------------------------------------------------------------
-- Names that are delivered
-----------------------------------------------------------------------------------------

/-- The names of files from either receiver. -/
inductive Deliverable : Text → Prop
  | qbt {filename : Text} (shown : filename ≠ [])
    (admitted : ∀ c ∈ filename, isFilenameChar c = true)
    : Deliverable filename
  | weatherWire (attributes : ProductAttributes) (issueUtc : Int)
    : Deliverable (productFilename attributes issueUtc)

theorem isWhitespace_of_isFilenameChar {c : Char} (admitted : isFilenameChar c = true)
    : isWhitespace c = false := by
  simp only [isFilenameChar, Bool.or_eq_true, beq_iff_eq] at admitted
  rcases admitted with ((letter | rfl) | rfl) | rfl
  · exact isWhitespace_of_isAlphanum letter
  all_goals rfl

/-- A visible start and an extension make a trimmed name. -/
theorem trim_extension {front : Text} (shown : front ≠ [])
    (starts : ∀ c ∈ front.head?, isWhitespace c = false)
    : front ++ ".TXT".toList ≠ [] ∧ trim (front ++ ".TXT".toList) = front ++ ".TXT".toList := by
  refine ⟨by simp, trim_eq_self ?_ ?_⟩
  · obtain ⟨c, rest, rfl⟩ := List.exists_cons_of_ne_nil shown
    exact starts
  · rw [List.getLast?_append_of_ne_nil _ (by decide)]
    decide

theorem Deliverable.trimmed {filename : Text} (deliverable : Deliverable filename)
    : filename ≠ [] ∧ trim filename = filename := by
  cases deliverable with
  | qbt shown admitted =>
      have visible : ∀ c ∈ filename, isWhitespace c = false :=
        fun c member => isWhitespace_of_isFilenameChar (admitted c member)
      exact ⟨shown, IsWord.trim_eq ⟨shown, visible⟩⟩
  | weatherWire attributes issueUtc =>
      unfold productFilename buildFilename
      dsimp only
      split_ifs with awips headed named
      · refine trim_extension awips.1 ?_
        unfold parseNames
        dsimp only
        cases found : (attributes.awipsid.map trim).filter (· ≠ []) with
        | none => decide
        | some value =>
            obtain ⟨mapped, -⟩ := Option.filter_eq_some_iff.mp found
            obtain ⟨text, -, rfl⟩ := Option.map_eq_some_iff.mp mapped
            exact head?_trim text
      · rw [← List.cons_append, ← List.append_assoc]
        refine trim_extension (by simp) ?_
        obtain ⟨c, rest, split⟩ := List.exists_cons_of_ne_nil headed.1
        have starts := head?_trim (attributes.ttaaii.getD [])
        rw [show trim (attributes.ttaaii.getD []) = c :: rest from split] at starts
        rw [split]
        exact starts
      · exact trim_extension named (head?_trim _)
      · exact trim_extension (by simp) (by simp; decide)

/-- A name of the header grammar may be requested unless it has two dots in a row. -/
theorem requestable_iff_of_admitted {filename : Text}
    (admitted : ∀ c ∈ filename, isFilenameChar c = true)
    : Requestable filename ↔ ¬ "..".toList <:+: filename := by
  have absent {c : Char} (other : isFilenameChar c = false) : c ∉ filename := by
    intro member
    rw [admitted c member] at other
    cases other
  refine ⟨And.left, fun noDots => ⟨noDots, absent (by decide), ?_, ?_⟩⟩
  · exact fun starts => absent (c := '/') (by decide) (List.mem_of_head? starts)
  · exact fun starts => absent (c := '\\') (by decide) (List.mem_of_head? starts)

/-- A retained file is served under its advertised URL exactly if its name may be requested;
a name of the header grammar may be requested unless it has two dots in a row.
-/
theorem downloads_served {M : Type} (files : RetainedFiles M) (now : SystemTime)
    (filename : Text) (file : RetainedFile M) (deliverable : Deliverable filename)
    (stored : files.byName.lookup filename = some file)
    (unexpired : file.age now ≤ files.ttl)
    : (Requestable filename → (fileDownload now (fileDownloadUrl filename) files).1 = .ok file)
      ∧ (requestedFilename (fileDownloadUrl filename) = .ok filename ↔ Requestable filename)
      ∧ ((∀ c ∈ filename, isFilenameChar c = true)
        → (Requestable filename ↔ ¬ "..".toList <:+: filename)) := by
  obtain ⟨shown, trimmed⟩ := deliverable.trimmed
  have asked : requestedFilename (fileDownloadUrl filename) = .ok filename
      ↔ Requestable filename := by
    rw [requestedFilename_fileDownloadUrl shown, okOr_eq_ok,
      sanitizeRequestedFilename_eq_some_iff shown trimmed]
  refine ⟨fun requestable => ?_, asked, requestable_iff_of_admitted⟩
  have found := RetainedFiles.get_of_fresh stored unexpired
  rw [fileDownload, asked.mpr requestable]
  dsimp only
  rw [found]
  rfl

/-- A store with one file. -/
def holdingFile (filename : Text) : RetainedFiles Unit :=
  ((RetainedFiles.new 2 0).insert (fun _ _ _ _ => ()) 10 filename [1, 2] 1 () 10).2

theorem downloads_served_sample
    : (fileDownload 11 (fileDownloadUrl "AFDBOX.TXT".toList)
        (holdingFile "AFDBOX.TXT".toList)).1
      = .ok { data := [1, 2], completedAt := 10, metadata := () } :=
  (downloads_served (holdingFile "AFDBOX.TXT".toList) 11 "AFDBOX.TXT".toList
    { data := [1, 2], completedAt := 10, metadata := () }
    (.qbt (by decide) (by decide)) (by decide +kernel) (by decide)).1
    ⟨by decide, by decide, by decide, by decide⟩

/-- A name with two dots in a row is advertised and refused. -/
theorem dotted_name_refused
    : Deliverable "A..TXT".toList
      ∧ (holdingFile "A..TXT".toList).byName.lookup "A..TXT".toList
        = some { data := [1, 2], completedAt := 10, metadata := () }
      ∧ RetainedFile.age { data := [1, 2], completedAt := 10, metadata := () } 11
        ≤ (holdingFile "A..TXT".toList).ttl
      ∧ (fileDownload 11 (fileDownloadUrl "A..TXT".toList) (holdingFile "A..TXT".toList)).1
        = .error .badRequest :=
  ⟨.qbt (by decide) (by decide), by decide +kernel, by decide, by decide +kernel⟩

end Emwin.Live
