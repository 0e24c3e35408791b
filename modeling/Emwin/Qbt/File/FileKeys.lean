import Emwin.Library.Integers
import Emwin.Library.Slices
import Emwin.Library.Spans
import Emwin.Qbt.File.AssemblerInvariants

/-! What the keys of the assembler tell apart, and what its files are assembled from. -/

namespace Emwin.Qbt
open Library

/-- `str::to_lowercase` of ASCII characters. -/
def LowersAscii (toLowercase : Text → Text) : Prop :=
  ∀ text, IsAscii text → toLowercase text = text.map Char.toLower

/-- A name that the header grammar admits. -/
def AdmittedName (segment : QbtSegment) : Prop :=
  segment.filename ≠ [] ∧ ∀ c ∈ segment.filename, isFilenameChar c = true

/-- Blocks of one file: of one name, up to the case of ASCII letters, and of one time. -/
def SameFile (left right : QbtSegment) : Prop :=
  eqIgnoreAsciiCase left.filename right.filename = true
  ∧ left.timestampUtc = right.timestampUtc

/-- The times of two blocks of one name are not both before or at the epoch, or the same. -/
def TimesTold (left right : QbtSegment) : Prop :=
  eqIgnoreAsciiCase left.filename right.filename = true
  → left.timestampUtc = right.timestampUtc ∨ 0 < left.timestampUtc ∨ 0 < right.timestampUtc

/-- The time in a key. -/
def keyTime (timestampUtc : SystemTime) : Text :=
  if 0 ≤ timestampUtc then
    let nanos := timestampUtc.toNat
    Nat.toDigits 10 (nanos / 1000000000) ++ ['.']
      ++ (Nat.toDigits 10 (nanos % 1000000000)).leftpad 9 '0'
  else "0.000000000".toList

theorem fileKey_eq (toLowercase : Text → Text) (segment : QbtSegment)
    : fileKey toLowercase segment
      = toLowercase segment.filename ++ '_' :: keyTime segment.timestampUtc := by
  rw [fileKey, List.append_assoc]
  rfl

-----------------------------------------------------------------------------------------
-- Times
-----------------------------------------------------------------------------------------

/-- Times before the epoch are written as the epoch. -/
theorem keyTime_max (timestampUtc : SystemTime)
    : keyTime timestampUtc = keyTime (max timestampUtc 0) := by
  by_cases late : 0 ≤ timestampUtc
  · rw [max_eq_left late]
  · rw [max_eq_right (not_le.mp late).le, keyTime, if_neg late]
    decide

theorem keyTime_of_nat (nanos : Nat)
    : keyTime (nanos : Int)
      = Nat.toDigits 10 (nanos / 1000000000)
        ++ '.' :: (Nat.toDigits 10 (nanos % 1000000000)).leftpad 9 '0' := by
  rw [keyTime, if_pos (Int.natCast_nonneg nanos), List.append_assoc]
  rfl

theorem not_mem_toDigits {c : Char} (noDigit : c.isDigit = false) (number : Nat)
    : c ∉ Nat.toDigits 10 number := by
  intro member
  rw [Nat.isDigit_of_mem_toDigits (by omega) (by omega) member] at noDigit
  cases noDigit

theorem keyTime_nat_injective {left right : Nat}
    (same : keyTime (left : Int) = keyTime (right : Int))
    : left = right := by
  rw [keyTime_of_nat, keyTime_of_nat] at same
  have parts (nanos : Nat)
      : splitOnce '.'
          (Nat.toDigits 10 (nanos / 1000000000)
            ++ '.' :: (Nat.toDigits 10 (nanos % 1000000000)).leftpad 9 '0')
        = some (Nat.toDigits 10 (nanos / 1000000000),
            (Nat.toDigits 10 (nanos % 1000000000)).leftpad 9 '0') :=
    splitOnce_append_cons _ (not_mem_toDigits rfl _)
  have split := congrArg (splitOnce '.') same
  rw [parts, parts] at split
  obtain ⟨seconds, fraction⟩ := Prod.mk.inj (Option.some.inj split)
  have whole := toDigits_injective seconds
  have rest := leftpad_toDigits_injective fraction
  omega

theorem keyTime_eq_iff {left right : SystemTime}
    : keyTime left = keyTime right ↔ max left 0 = max right 0 := by
  constructor
  · intro same
    rw [keyTime_max left, keyTime_max right] at same
    obtain ⟨l, late⟩ := Int.eq_ofNat_of_zero_le (le_max_right left 0)
    obtain ⟨r, later⟩ := Int.eq_ofNat_of_zero_le (le_max_right right 0)
    rw [late, later] at same ⊢
    rw [keyTime_nat_injective same]
  · intro same
    rw [keyTime_max left, keyTime_max right, same]

theorem not_mem_keyTime (timestampUtc : SystemTime) : '_' ∉ keyTime timestampUtc := by
  rw [keyTime_max]
  obtain ⟨nanos, late⟩ := Int.eq_ofNat_of_zero_le (le_max_right timestampUtc 0)
  rw [late, keyTime_of_nat, List.mem_append, List.mem_cons, List.leftpad, List.mem_append,
    List.mem_replicate]
  rintro (digit | dot | ⟨-, zero⟩ | digit)
  · exact not_mem_toDigits rfl _ digit
  · exact absurd dot (by decide)
  · exact absurd zero (by decide)
  · exact not_mem_toDigits rfl _ digit

-----------------------------------------------------------------------------------------
-- Keys
-----------------------------------------------------------------------------------------

/-- A key is read back at its last underscore, since there is none in the time. -/
theorem fileKey_eq_iff {toLowercase : Text → Text} {left right : QbtSegment}
    : fileKey toLowercase left = fileKey toLowercase right
      ↔ toLowercase left.filename = toLowercase right.filename
        ∧ max left.timestampUtc 0 = max right.timestampUtc 0 := by
  have parts (segment : QbtSegment)
      : rsplitOnce '_' (toLowercase segment.filename ++ '_' :: keyTime segment.timestampUtc)
        = some (toLowercase segment.filename, keyTime segment.timestampUtc) :=
    rsplitOnce_eq_some_iff.mpr ⟨rfl, not_mem_keyTime _⟩
  rw [fileKey_eq, fileKey_eq, ← keyTime_eq_iff]
  constructor
  · intro same
    have split := congrArg (rsplitOnce '_') same
    rw [parts, parts] at split
    exact Prod.mk.inj (Option.some.inj split)
  · rintro ⟨name, time⟩
    rw [name, time]

theorem isAscii_of_admitted {segment : QbtSegment} (admitted : AdmittedName segment)
    : IsAscii segment.filename := by
  intro c member
  have shown := admitted.2 c member
  simp only [isFilenameChar, Bool.or_eq_true, beq_iff_eq] at shown
  rcases shown with ((letter | rfl) | rfl) | rfl
  · exact utf8Size_of_isAlphanum letter
  · rfl
  · rfl
  · rfl

/-- The two cases of a letter are one character in lower case and in upper case. -/
theorem case_folds {c : Char} (ascii : c.utf8Size = 1)
    : asciiUppercase c.toLower = asciiUppercase c
      ∧ (asciiUppercase c).toLower = c.toLower := by
  have all : ∀ code < 128,
      asciiUppercase (Char.ofNat code).toLower = asciiUppercase (Char.ofNat code)
      ∧ (asciiUppercase (Char.ofNat code)).toLower = (Char.ofNat code).toLower := by
    decide
  have here := all c.toNat (toNat_of_utf8Size ascii)
  rwa [Char.ofNat_toNat] at here

theorem lowercase_eq_iff {left right : Text} (leftAscii : IsAscii left)
    (rightAscii : IsAscii right)
    : left.map Char.toLower = right.map Char.toLower ↔ eqIgnoreAsciiCase left right = true := by
  have upper {text : Text} (ascii : IsAscii text)
      : toAsciiUppercase (text.map Char.toLower) = toAsciiUppercase text := by
    rw [toAsciiUppercase, toAsciiUppercase, List.map_map]
    exact List.map_congr_left fun c member => (case_folds (ascii c member)).1
  have lower {text : Text} (ascii : IsAscii text)
      : (toAsciiUppercase text).map Char.toLower = text.map Char.toLower := by
    rw [toAsciiUppercase, List.map_map]
    exact List.map_congr_left fun c member => (case_folds (ascii c member)).2
  rw [eqIgnoreAsciiCase, beq_iff_eq]
  constructor
  · intro same
    rw [← upper leftAscii, ← upper rightAscii, same]
  · intro same
    rw [← lower leftAscii, ← lower rightAscii, same]

/-- Keys of admitted names are equal exactly for equal names and for times that are equal or
both before or at the epoch.
-/
theorem fileKey_eq_iff_of_admitted {toLowercase : Text → Text}
    (lowers : LowersAscii toLowercase) {left right : QbtSegment}
    (leftAdmitted : AdmittedName left) (rightAdmitted : AdmittedName right)
    : fileKey toLowercase left = fileKey toLowercase right
      ↔ eqIgnoreAsciiCase left.filename right.filename = true
        ∧ max left.timestampUtc 0 = max right.timestampUtc 0 := by
  have leftAscii := isAscii_of_admitted leftAdmitted
  have rightAscii := isAscii_of_admitted rightAdmitted
  rw [fileKey_eq_iff, lowers _ leftAscii, lowers _ rightAscii,
    lowercase_eq_iff leftAscii rightAscii]

theorem sameFile_of_fileKey {toLowercase : Text → Text} (lowers : LowersAscii toLowercase)
    {left right : QbtSegment} (leftAdmitted : AdmittedName left)
    (rightAdmitted : AdmittedName right) (told : TimesTold left right)
    (same : fileKey toLowercase left = fileKey toLowercase right)
    : SameFile left right := by
  obtain ⟨names, times⟩ := (fileKey_eq_iff_of_admitted lowers leftAdmitted rightAdmitted).mp same
  refine ⟨names, ?_⟩
  rcases told names with equal | late | late
  · exact equal
  · exact (by omega : ∀ l r : Int, max l 0 = max r 0 → 0 < l → l = r) _ _ times late
  · exact (by omega : ∀ l r : Int, max l 0 = max r 0 → 0 < r → l = r) _ _ times late

namespace QbtFileAssembler

-----------------------------------------------------------------------------------------
-- Runs
-----------------------------------------------------------------------------------------

/-- The segments pushed since the last clear. -/
def notePushed (_ : QbtFileAssembler) (action : AssemblerAction) (pushed : List QbtSegment)
    : List QbtSegment :=
  match action with
  | .push _ _ segment => pushed ++ [segment]
  | .clear => []

/-- Every stored part was pushed and stands under its own key. -/
def StoredByKey (toLowercase : Text → Text) (assembler : QbtFileAssembler)
    (pushed : List QbtSegment)
    : Prop :=
  ∀ key inflight,
    assembler.byKey.lookup key = some inflight
    → ∀ part ∈ inflight.values, part ∈ pushed ∧ fileKey toLowercase part = key

variable {toLowercase : Text → Text} {order : IterationOrder Text InflightFile}
  {now : Instant} {assembler : QbtFileAssembler} {segment : QbtSegment}
  {pushed : List QbtSegment}

theorem StoredByKey.entry (stored : StoredByKey toLowercase assembler pushed)
    : ∀ part ∈ (pushedEntry toLowercase order now assembler segment).values,
        part ∈ pushed ++ [segment] ∧ fileKey toLowercase part = fileKey toLowercase segment := by
  intro part member
  rw [pushedEntry, storedEntry, InflightFile.mem_values_receive] at member
  rcases member with rfl | ⟨-, member⟩
  · exact ⟨by simp, rfl⟩
  · cases found
        : (makeRoom order now assembler (fileKey toLowercase segment)).byKey.lookup
            (fileKey toLowercase segment) with
    | none => simp [found] at member
    | some inflight =>
        rw [found, Option.getD_some] at member
        obtain ⟨before, keyed⟩ := stored _ inflight (lookup_makeRoom_before found) part member
        exact ⟨List.mem_append_left _ before, keyed⟩

theorem StoredByKey.pushedStore (stored : StoredByKey toLowercase assembler pushed)
    : StoredByKey toLowercase (pushedStore toLowercase order now assembler segment)
        (pushed ++ [segment]) := by
  intro key inflight found
  simp only [QbtFileAssembler.pushedStore] at found
  by_cases same : key = fileKey toLowercase segment
  · subst same
    rw [AList.lookup_insert] at found
    exact Option.some.inj found ▸ stored.entry
  · rw [AList.lookup_insert_ne same] at found
    intro part member
    obtain ⟨before, keyed⟩ := stored key inflight (lookup_makeRoom_before found) part member
    exact ⟨List.mem_append_left _ before, keyed⟩

/-- A push keeps every part under its key, by cases on what it does. -/
theorem StoredByKey.push (stored : StoredByKey toLowercase assembler pushed)
    : StoredByKey toLowercase (assembler.push toLowercase order now segment).2
        (pushed ++ [segment]) := by
  have unchanged : StoredByKey toLowercase assembler (pushed ++ [segment]) := by
    intro key inflight found part member
    obtain ⟨before, keyed⟩ := stored key inflight found part member
    exact ⟨List.mem_append_left _ before, keyed⟩
  by_cases accepts : Accepts segment
  · by_cases known : fileKey toLowercase segment ∈ assembler.completedIndex
    · rwa [push_known known]
    have after := @StoredByKey.pushedStore _ order now _ segment _ stored
    rw [push_accepted accepts known]
    split
    · exact after
    split
    · exact after
    · intro key inflight found
      rw [byKey_rememberCompleted] at found
      exact after key inflight (KeyedMap.lookup_of_erase found)
  · rwa [push_ignored accepts]

/-- A returned file is made of pushed blocks of one key. -/
theorem StoredByKey.returned (stored : StoredByKey toLowercase assembler pushed)
    {file : QbtCompletedFile}
    (returned : (assembler.push toLowercase order now segment).1 = some file)
    : ∃ first rest,
        file = completedFile first (first :: rest)
        ∧ ∀ block ∈ first :: rest,
            block ∈ pushed ++ [segment]
            ∧ fileKey toLowercase block = fileKey toLowercase segment := by
  by_cases accepts : Accepts segment
  · by_cases known : fileKey toLowercase segment ∈ assembler.completedIndex
    · rw [push_known known] at returned
      cases returned
    rw [push_accepted accepts known] at returned
    split at returned
    · cases returned
    split at returned
    · cases returned
    · next first head =>
        obtain ⟨rest, values⟩ := List.head?_eq_some_iff.mp head
        have parts := @StoredByKey.entry _ order now _ segment _ stored
        rw [values] at returned parts
        exact ⟨first, rest, (Option.some.inj returned).symm, parts⟩
  · rw [push_ignored accepts] at returned
    cases returned

/-- The states of an assembler with any limits, each with what was pushed since the last
clear.
-/
def Runs (toLowercase : Text → Text) (assembler : QbtFileAssembler)
    (pushed : List QbtSegment)
    : Prop :=
  ∃ duplicateCacheSize maxInflightFiles inflightTtl,
    ((machine toLowercase duplicateCacheSize maxInflightFiles inflightTtl).record []
      notePushed).Reachable (assembler, pushed)

theorem Runs.storedByKey (runs : Runs toLowercase assembler pushed)
    : StoredByKey toLowercase assembler pushed := by
  obtain ⟨duplicateCacheSize, maxInflightFiles, inflightTtl, run⟩ := runs
  refine run.recorded (motive := StoredByKey toLowercase) ?_ ?_
  · rintro state rfl key inflight found
    cases found
  · intro state pushed action next stored _ taken
    cases action with
    | push order now segment =>
        obtain rfl := Option.some.inj taken
        exact stored.push
    | clear =>
        obtain rfl := Option.some.inj taken
        intro key inflight found
        cases found

/-- Keys identify two blocks exactly when their times are told apart; and in every run whose
blocks all are, a returned file is made of blocks of one file.
-/
theorem fileKeys_identify_iff (toLowercase : Text → Text) (lowers : LowersAscii toLowercase)
    : (∀ left right : QbtSegment,
        AdmittedName left
        → AdmittedName right
        → ((fileKey toLowercase left = fileKey toLowercase right ↔ SameFile left right)
          ↔ TimesTold left right))
      ∧ ∀ assembler pushed,
          Runs toLowercase assembler pushed
          → ∀ order now segment file,
              (∀ block ∈ pushed ++ [segment], AdmittedName block)
              → (∀ left ∈ pushed ++ [segment], ∀ right ∈ pushed ++ [segment],
                  TimesTold left right)
              → (assembler.push toLowercase order now segment).1 = some file
              → ∃ first rest,
                  file = completedFile first (first :: rest)
                  ∧ ∀ block ∈ first :: rest,
                      block ∈ pushed ++ [segment] ∧ SameFile block segment := by
  constructor
  · intro left right leftAdmitted rightAdmitted
    constructor
    · intro identified names
      by_contra mixed
      simp only [not_or, not_lt] at mixed
      obtain ⟨different, leftEarly, rightEarly⟩ := mixed
      have keys : fileKey toLowercase left = fileKey toLowercase right := by
        rw [fileKey_eq_iff_of_admitted lowers leftAdmitted rightAdmitted,
          max_eq_right leftEarly, max_eq_right rightEarly]
        exact ⟨names, rfl⟩
      exact different (identified.mp keys).2
    · intro told
      refine ⟨sameFile_of_fileKey lowers leftAdmitted rightAdmitted told, ?_⟩
      rintro ⟨names, times⟩
      rw [fileKey_eq_iff_of_admitted lowers leftAdmitted rightAdmitted, times]
      exact ⟨names, rfl⟩
  · intro assembler pushed runs order now segment file admitted told returned
    obtain ⟨first, rest, same, blocks⟩ := runs.storedByKey.returned returned
    refine ⟨first, rest, same, fun block member => ?_⟩
    obtain ⟨inside, keyed⟩ := blocks block member
    exact ⟨inside,
      sameFile_of_fileKey lowers (admitted block inside) (admitted segment (by simp))
        (told block inside segment (by simp)) keyed⟩

theorem asciiLowercase_lowers : LowersAscii asciiLowercase := fun _ _ => rfl

theorem runs_holding (segment : QbtSegment)
    : Runs asciiLowercase (holding segment) [segment] := by
  refine ⟨16, defaultMaxInflightFiles, defaultInflightTtl, ?_⟩
  have first : ((machine asciiLowercase 16 defaultMaxInflightFiles defaultInflightTtl).record []
      notePushed).Reachable (new 16, []) :=
    .start ⟨rfl, rfl⟩
  have taken : ((machine asciiLowercase 16 defaultMaxInflightFiles defaultInflightTtl).record []
      notePushed).step (new 16, []) (.push .listed 5 segment) = some (holding segment, [segment]) :=
    rfl
  exact .step first trivial taken

/-- The two blocks of a file whose name came in either case. -/
theorem fileKeys_identify_sample
    : (fileKey asciiLowercase (sampleBlock "A.TXT" 1 2)
          = fileKey asciiLowercase (sampleBlock "a.txt" 2 2)
        ↔ SameFile (sampleBlock "A.TXT" 1 2) (sampleBlock "a.txt" 2 2))
      ∧ ∃ first rest,
          { filename := "A.TXT".toList, data := toUtf8 "12".toList, timestampUtc := 0 }
            = completedFile first (first :: rest)
          ∧ ∀ block ∈ first :: rest,
              block ∈ [sampleBlock "A.TXT" 1 2] ++ [sampleBlock "a.txt" 2 2]
              ∧ SameFile block (sampleBlock "a.txt" 2 2) := by
  obtain ⟨pairs, files⟩ := fileKeys_identify_iff asciiLowercase asciiLowercase_lowers
  have admitted : ∀ block ∈ [sampleBlock "A.TXT" 1 2] ++ [sampleBlock "a.txt" 2 2],
      AdmittedName block := by
    intro block member
    rcases List.mem_pair.mp member with rfl | rfl
    · exact ⟨by decide, by decide⟩
    · exact ⟨by decide, by decide⟩
  have told : ∀ left ∈ [sampleBlock "A.TXT" 1 2] ++ [sampleBlock "a.txt" 2 2],
      ∀ right ∈ [sampleBlock "A.TXT" 1 2] ++ [sampleBlock "a.txt" 2 2],
        TimesTold left right := by
    intro left leftMember right rightMember _
    rcases List.mem_pair.mp leftMember with rfl | rfl <;>
      rcases List.mem_pair.mp rightMember with rfl | rfl <;> exact .inl rfl
  refine ⟨(pairs _ _ (admitted _ (by simp)) (admitted _ (by simp))).mpr
    (told _ (by simp) _ (by simp)), ?_⟩
  exact files _ _ (runs_holding (sampleBlock "A.TXT" 1 2)) .listed 6 (sampleBlock "a.txt" 2 2) _
    admitted told (by decide +kernel)

/-- The externals on two dates before the epoch. -/
def earlyExternals : Externals where
  parseDateTime text :=
    if text = "01/01/1969 12:00:00 AM".toList then some (-31536000, 0)
    else if text = "01/02/1969 12:00:00 AM".toList then some (-31449600, 0)
    else none
  inflate _ := .error []
  now := 0

/-- One of two blocks, with a time of its own. -/
def datedBlock (number : UInt32) (timestampUtc : SystemTime) : QbtSegment :=
  { sampleBlock "A.TXT" number 2 with timestampUtc }

/-- Two dates of 1969 give one key, and a block of each date makes one file. -/
theorem early_dates_mixed
    : ∃ first second : SystemTime,
        parseFdTimestamp earlyExternals "01/01/1969 12:00:00 AM".toList = some first
        ∧ parseFdTimestamp earlyExternals "01/02/1969 12:00:00 AM".toList = some second
        ∧ AdmittedName (datedBlock 1 first)
        ∧ AdmittedName (datedBlock 2 second)
        ∧ ¬ SameFile (datedBlock 1 first) (datedBlock 2 second)
        ∧ fileKey asciiLowercase (datedBlock 1 first)
          = fileKey asciiLowercase (datedBlock 2 second)
        ∧ ((holding (datedBlock 1 first)).push asciiLowercase .listed 6
              (datedBlock 2 second)).1
          = some
              { filename := "A.TXT".toList
                data := toUtf8 "12".toList
                timestampUtc := first } := by
  refine ⟨-31536000000000000, -31449600000000000, by decide +kernel, by decide +kernel,
    ⟨by decide, by decide⟩, ⟨by decide, by decide⟩, ?_, by decide +kernel, by decide +kernel⟩
  rintro ⟨-, times⟩
  exact absurd times (by decide)

end QbtFileAssembler

end Emwin.Qbt
