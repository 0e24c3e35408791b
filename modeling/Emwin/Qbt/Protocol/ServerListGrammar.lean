import Emwin.Qbt.Protocol.ServerList

/-! The two documented forms of a server-list frame, and what the parser makes of them. -/

namespace Emwin.Qbt
open Library

/-- A frame in one of the documented forms, by its entries. -/
inductive ServerListForm where
  | simple (entries : List Text)
  | full (entries satEntries : List Text)

namespace ServerListForm

def entries : ServerListForm → List Text
  | .simple entries => entries
  | .full entries _ => entries

def satEntries : ServerListForm → List Text
  | .simple _ => []
  | .full _ satEntries => satEntries

/-- The text of the frame, as the protocol document gives it. -/
def text : ServerListForm → Text
  | .simple entries => "/ServerList/".toList ++ ['|'].intercalate entries
  | .full entries satEntries =>
      "/ServerList/".toList ++ (['|'].intercalate entries
        ++ ("\\ServerList\\/SatServers/".toList
          ++ (['+'].intercalate satEntries ++ "\\SatServers\\".toList)))

end ServerListForm

/-- An entry that cannot be mistaken for structure of the frame. -/
def Plain (entry : Text) : Prop :=
  '|' ∉ entry ∧ '+' ∉ entry ∧ '\x00' ∉ entry ∧ '\\' ∉ entry

instance (entry : Text) : Decidable (Plain entry) :=
  inferInstanceAs (Decidable (_ ∧ _ ∧ _ ∧ _))

/-- A host, a colon, and a port in decimal digits. -/
def Denotes (entry : Text) (endpoint : Endpoint) : Prop :=
  ∃ port,
    entry = endpoint.1 ++ ':' :: port ∧ digitsValue? port = some endpoint.2.toNat

/-- Entries with the endpoints they denote, in order, and the malformed ones among them. -/
inductive Reads : List Text → List Endpoint → List Text → Prop
  | nil : Reads [] [] []
  | blank {entry rest endpoints malformed} (empty : trim entry = [])
    (later : Reads rest endpoints malformed)
    : Reads (entry :: rest) endpoints malformed
  | endpoint {entry endpoint rest endpoints malformed}
    (denotes : Denotes (trim entry) endpoint) (later : Reads rest endpoints malformed)
    : Reads (entry :: rest) (endpoint :: endpoints) malformed
  | malformed {entry rest endpoints malformed} (visible : trim entry ≠ [])
    (nothing : ∀ endpoint, ¬ Denotes (trim entry) endpoint)
    (later : Reads rest endpoints malformed)
    : Reads (entry :: rest) endpoints (trim entry :: malformed)

/-- The parser returns what the entries of a frame denote, and one warning for each malformed
entry.
-/
def ReadsForm (form : ServerListForm) (content : Text) : Prop :=
  ∃ servers satServers malformed satMalformed,
    Reads form.entries servers malformed
    ∧ Reads form.satEntries satServers satMalformed
    ∧ parseServerListFrame content
      = .ok ({ servers, satServers },
          (malformed ++ satMalformed).map .malformedServerEntry)

-----------------------------------------------------------------------------------------
-- One entry
-----------------------------------------------------------------------------------------

theorem digitsValue?_digits {digits : Text} {value : Nat} (read : digitsValue? digits = some value)
    : ∀ c ∈ digits, c.isDigit = true := by
  unfold digitsValue? at read
  split_ifs at read with valid
  exact List.all_eq_true.mp valid.2

/-- The parser accepts exactly the well-formed entries. -/
theorem parseQbtServer_eq_some_iff {entry : Text} {endpoint : Endpoint}
    (unsigned : '+' ∉ entry)
    : parseQbtServer entry = some endpoint ↔ Denotes entry endpoint := by
  constructor
  · intro parsed
    unfold parseQbtServer at parsed
    split at parsed
    · cases parsed
    · next host port split =>
        obtain ⟨rfl, -⟩ := rsplitOnce_eq_some_iff.mp split
        obtain ⟨value, number, rfl⟩ := Option.map_eq_some_iff.mp parsed
        have noSign : '+' ∉ port := by
          intro sign
          exact unsigned (by simp [sign])
        obtain ⟨digits, small⟩ := (parseUnsigned_eq_some_iff noSign).mp number
        refine ⟨port, rfl, ?_⟩
        rw [digits, UInt16.toNat_ofNat_of_lt' small]
  · rintro ⟨port, rfl, digits⟩
    have noColon : ':' ∉ port := by
      intro colon
      have digit := digitsValue?_digits digits ':' colon
      simp at digit
    have noSign : '+' ∉ port := by
      intro sign
      exact unsigned (by simp [sign])
    have split : rsplitOnce ':' (endpoint.1 ++ ':' :: port) = some (endpoint.1, port) :=
      rsplitOnce_eq_some_iff.mpr ⟨rfl, noColon⟩
    have number : parseUnsigned (2 ^ 16) port = some endpoint.2.toNat :=
      (parseUnsigned_eq_some_iff noSign).mpr ⟨digits, endpoint.2.toNat_lt⟩
    rw [parseQbtServer, split]
    dsimp only
    rw [number, Option.map_some, UInt16.ofNat_toNat]

/-- An entry that ends in another character than a digit is malformed. -/
theorem parseQbtServer_eq_none {front : Text} {c : Char} (noDigit : c.isDigit = false)
    (noSign : c ≠ '+') (noColon : c ≠ ':')
    : parseQbtServer (front ++ [c]) = none := by
  unfold parseQbtServer
  split
  · rfl
  · next host port split =>
      obtain ⟨whole, -⟩ := rsplitOnce_eq_some_iff.mp split
      rcases List.eq_nil_or_concat port with rfl | ⟨start, last, rfl⟩
      · have same := (List.append_inj' whole rfl).2
        exact absurd (List.singleton_inj.mp same) noColon
      · rw [List.concat_eq_append, ← List.cons_append, ← List.append_assoc] at whole
        obtain rfl := List.singleton_inj.mp (List.append_inj' whole rfl).2
        rw [parseUnsigned_eq_none (by simp) noDigit noSign]
        rfl

-----------------------------------------------------------------------------------------
-- A list of entries
-----------------------------------------------------------------------------------------

/-- What a list of pieces is parsed to. -/
def parsePieces (pieces : List Text) : List Endpoint × List Text :=
  let entries := (pieces.map trim).filter (· ≠ [])
  (entries.filterMap parseQbtServer,
    entries.filter (fun entry => (parseQbtServer entry).isNone))

/-- The pieces are read one by one, by induction on them. -/
theorem reads_parsePieces {pieces : List Text} (unsigned : ∀ piece ∈ pieces, '+' ∉ piece)
    : Reads pieces (parsePieces pieces).1 (parsePieces pieces).2 := by
  induction pieces with
  | nil => exact .nil
  | cons piece rest ih =>
      have later := ih fun other member => unsigned other (by simp [member])
      have noSign : '+' ∉ trim piece := fun sign =>
        unsigned piece (by simp) (mem_of_mem_trim sign)
      by_cases empty : trim piece = []
      · have skipped : parsePieces (piece :: rest) = parsePieces rest := by
          simp [parsePieces, empty]
        rw [skipped]
        exact .blank empty later
      · cases parsed : parseQbtServer (trim piece) with
        | none =>
            have more : parsePieces (piece :: rest)
                = ((parsePieces rest).1, trim piece :: (parsePieces rest).2) := by
              simp [parsePieces, empty, parsed]
            rw [more]
            refine .malformed empty ?_ later
            intro endpoint denotes
            rw [(parseQbtServer_eq_some_iff noSign).mpr denotes] at parsed
            cases parsed
        | some endpoint =>
            have more : parsePieces (piece :: rest)
                = (endpoint :: (parsePieces rest).1, (parsePieces rest).2) := by
              simp [parsePieces, empty, parsed]
            rw [more]
            exact .endpoint ((parseQbtServer_eq_some_iff noSign).mp parsed) later

/-- Nothing is reported that is not the trimmed text of an entry. -/
theorem Reads.malformed_mem {entries : List Text} {endpoints : List Endpoint}
    {malformed : List Text} (reads : Reads entries endpoints malformed) {entry : Text}
    (reported : entry ∈ malformed)
    : ∃ original ∈ entries, entry = trim original := by
  induction reads with
  | nil => cases reported
  | blank empty later ih | endpoint denotes later ih =>
      obtain ⟨original, member, same⟩ := ih reported
      exact ⟨original, by simp [member], same⟩
  | @malformed first rest endpoints malformed visible nothing later ih =>
      rcases List.mem_cons.mp reported with rfl | member
      · exact ⟨first, by simp, rfl⟩
      · obtain ⟨original, member, same⟩ := ih member
        exact ⟨original, by simp [member], same⟩

/-- Joined entries are parsed to what they denote. -/
theorem parseListEntries_joined {delimiter : Char} {entries : List Text}
    (separate : ∀ entry ∈ entries, delimiter ∉ entry)
    (unsigned : ∀ entry ∈ entries, '+' ∉ entry)
    : Reads entries (parseListEntries ([delimiter].intercalate entries) delimiter).1
        (parsePieces entries).2
      ∧ (parseListEntries ([delimiter].intercalate entries) delimiter).2
        = (parsePieces entries).2.map .malformedServerEntry := by
  cases entries with
  | nil => exact ⟨.nil, rfl⟩
  | cons first rest =>
      have pieces : ([delimiter].intercalate (first :: rest)).splitOn delimiter
          = first :: rest :=
        List.splitOn_intercalate delimiter separate (by simp)
      rw [parseListEntries, pieces]
      exact ⟨reads_parsePieces unsigned, rfl⟩

-----------------------------------------------------------------------------------------
-- Whole frames
-----------------------------------------------------------------------------------------

/-- Trailing NULs and the marker of a frame do not matter to the parser; without its marker
of the full form the rest is one list.
-/
theorem parseServerListFrame_unmarked {body : Text} (noNul : '\x00' ∉ body)
    (unmarked : ¬ fullMarker <:+: serverListPrefix ++ body) (nuls : Nat)
    : parseServerListFrame (serverListPrefix ++ body ++ List.replicate nuls '\x00')
      = .ok ({ servers := (parseListEntries body '|').1 }, (parseListEntries body '|').2) := by
  have marked : serverListPrefix
      <+: serverListPrefix ++ body ++ List.replicate nuls '\x00' := by
    rw [List.append_assoc]
    exact List.prefix_append _ _
  have trimmed : trimEndWhile (· == '\x00')
      (serverListPrefix ++ body ++ List.replicate nuls '\x00') = serverListPrefix ++ body := by
    apply trimEndWhile_append
    · intro c member
      rcases List.mem_append.mp member with inside | inside
      · exact List.all_eq_true.mp
          (by decide : serverListPrefix.all (fun c => (c == '\x00') == false) = true) c inside
          |> eq_of_beq
      · simp only [beq_eq_false_iff_ne]
        intro nul
        exact noNul (nul ▸ inside)
    · intro c member
      simp [List.eq_of_mem_replicate member]
  have parts : serverListParts (serverListPrefix ++ body) = (body, none) := by
    rw [serverListParts, windowPosition_eq_none_iff.mpr unmarked, List.drop_left]
  simp only [parseServerListFrame, marked, not_true, if_false, trimmed, parts]

/-- A frame of the simple form is read as documented. -/
theorem readsForm_simple {entries : List Text} (plain : ∀ entry ∈ entries, Plain entry)
    (nuls : Nat)
    : ReadsForm (.simple entries)
        (ServerListForm.text (.simple entries) ++ List.replicate nuls '\x00') := by
  have noSlash : '\\' ∉ ['|'].intercalate entries :=
    not_mem_joined (by decide) fun entry listed => (plain entry listed).2.2.2
  have unmarked : ¬ fullMarker <:+: serverListPrefix ++ ['|'].intercalate entries := by
    intro found
    have slash : '\\' ∈ serverListPrefix ++ ['|'].intercalate entries :=
      found.subset (by decide)
    rcases List.mem_append.mp slash with inside | inside
    · exact absurd inside (by decide)
    · exact noSlash inside
  have noNul : '\x00' ∉ ['|'].intercalate entries :=
    not_mem_joined (by decide) fun entry listed => (plain entry listed).2.2.1
  obtain ⟨reads, warnings⟩ := parseListEntries_joined
    (fun entry listed => (plain entry listed).1) (fun entry listed => (plain entry listed).2.1)
  have parsed := parseServerListFrame_unmarked noNul unmarked nuls
  rw [warnings] at parsed
  refine ⟨_, [], _, [], reads, .nil, ?_⟩
  rw [List.append_nil]
  exact parsed

/-- The marker that the parser looks for is not in a frame of the full form: there a
backslash is not followed by `Q`.
-/
theorem full_unmarked {front middle : Text} (noSlash : '\\' ∉ front)
    (noSlash' : '\\' ∉ middle)
    : ¬ fullMarker
        <:+: front ++ ("\\ServerList\\/SatServers/".toList
          ++ (middle ++ "\\SatServers\\".toList)) := by
  have pass {c : Char} {rest : Text} (other : c ≠ 'Q')
      (found : ['\\', 'Q'] <:+: '\\' :: c :: rest)
      : ['\\', 'Q'] <:+: c :: rest := by
    rcases List.infix_cons_iff.mp found with here | later
    · simp [List.cons_prefix_cons, other.symm] at here
    · exact later
  intro found
  have start : ['\\', 'Q'] <:+: fullMarker := ⟨[], fullMarker.drop 2, by decide⟩
  have here := infix_of_infix_append front noSlash (start.trans found)
  change _ <:+: '\\' :: 'S' :: ("erverList".toList ++ '\\' :: '/' :: ("SatServers/".toList
    ++ (middle ++ '\\' :: 'S' :: ("atServers".toList ++ ['\\'])))) at here
  have second := infix_of_infix_append ('S' :: "erverList".toList) (by decide)
    (pass (by decide) here)
  have third := infix_of_infix_append ('/' :: "SatServers/".toList) (by decide)
    (pass (by decide) second)
  have fourth := infix_of_infix_append middle noSlash' third
  have last := infix_of_infix_append ('S' :: "atServers".toList) (by decide)
    (pass (by decide) fourth)
  exact absurd last.length_le (by decide)

/-- A list that ends in a backslash gives a warning about an entry that does. -/
theorem exists_warning_of_slash (front : Text)
    : ∃ entry,
        .malformedServerEntry (entry ++ ['\\'])
          ∈ (parseListEntries (front ++ ['\\']) '|').2 := by
  have joined : ['|'].intercalate ((front ++ ['\\']).splitOn '|') = front ++ ['\\'] :=
    List.intercalate_splitOn '|'
  obtain ⟨piece, listed, start, rfl⟩ := exists_text_ends (by decide) joined
  refine ⟨start.dropWhile isWhitespace, ?_⟩
  rw [← trim_concat (by decide)]
  simp only [parseListEntries, List.mem_map, List.mem_filter]
  refine ⟨_, ⟨⟨⟨_, listed, rfl⟩, ?_⟩, ?_⟩, rfl⟩ <;> rw [trim_concat (by decide)]
  · simp
  · rw [parseQbtServer_eq_none (by decide) (by decide) (by decide)]
    rfl

/-- A frame of the full form is never read as documented: its satellite list ends up in the
last regular entry, and that is reported with the backslashes of the frame.
-/
theorem not_readsForm_full {entries satEntries : List Text}
    (plain : ∀ entry ∈ entries ++ satEntries, Plain entry) (nuls : Nat)
    : ¬ ReadsForm (.full entries satEntries)
        (ServerListForm.text (.full entries satEntries) ++ List.replicate nuls '\x00') := by
  rintro ⟨servers, satServers, malformed, satMalformed, reads, satReads, parsed⟩
  have slash : '\\' ∉ serverListPrefix ++ ['|'].intercalate entries := by
    rw [List.mem_append, not_or]
    refine ⟨by decide, not_mem_joined (by decide) ?_⟩
    intro entry listed
    exact (plain entry (List.mem_append_left _ listed)).2.2.2
  have satSlash : '\\' ∉ ['+'].intercalate satEntries := by
    refine not_mem_joined (by decide) ?_
    intro entry listed
    exact (plain entry (List.mem_append_right _ listed)).2.2.2
  have nul : '\x00' ∉ ['|'].intercalate entries := by
    refine not_mem_joined (by decide) ?_
    intro entry listed
    exact (plain entry (List.mem_append_left _ listed)).2.2.1
  have satNul : '\x00' ∉ ['+'].intercalate satEntries := by
    refine not_mem_joined (by decide) ?_
    intro entry listed
    exact (plain entry (List.mem_append_right _ listed)).2.2.1
  have unmarked := full_unmarked slash satSlash
  rw [List.append_assoc] at unmarked
  have bodyNul : '\x00' ∉ ['|'].intercalate entries
      ++ ("\\ServerList\\/SatServers/".toList
        ++ (['+'].intercalate satEntries ++ "\\SatServers\\".toList)) := by
    simp only [List.mem_append, not_or]
    exact ⟨nul, by decide, satNul, by decide⟩
  have actual := parseServerListFrame_unmarked bodyNul unmarked nuls
  have warnings := (Prod.mk.inj (Except.ok.inj (actual.symm.trans parsed))).2
  -- the body ends in a backslash, and so does the last entry that the parser sees
  obtain ⟨entry, reported⟩ := exists_warning_of_slash
    (['|'].intercalate entries ++ ("\\ServerList\\/SatServers/".toList
      ++ (['+'].intercalate satEntries ++ "\\SatServers".toList)))
  simp only [List.append_assoc] at reported
  rw [show "\\SatServers".toList ++ ['\\'] = "\\SatServers\\".toList from rfl, warnings,
    List.mem_map] at reported
  obtain ⟨original, member, same⟩ := reported
  obtain rfl := QbtProtocolWarning.malformedServerEntry.inj same
  have inside : '\\' ∈ entry ++ ['\\'] := by simp
  rcases List.mem_append.mp member with regular | satellite
  · obtain ⟨original, listed, trimmed⟩ := reads.malformed_mem regular
    rw [trimmed] at inside
    exact (plain original (List.mem_append_left _ listed)).2.2.2 (mem_of_mem_trim inside)
  · obtain ⟨original, listed, trimmed⟩ := satReads.malformed_mem satellite
    rw [trimmed] at inside
    exact (plain original (List.mem_append_right _ listed)).2.2.2 (mem_of_mem_trim inside)

/-- The parser reads a documented frame as documented exactly if it has the simple form. -/
theorem readsForm_iff_simple {form : ServerListForm}
    (plain : ∀ entry ∈ form.entries ++ form.satEntries, Plain entry) (nuls : Nat)
    : ReadsForm form (form.text ++ List.replicate nuls '\x00')
      ↔ ∃ entries, form = .simple entries := by
  cases form with
  | simple entries =>
      have plain : ∀ entry ∈ entries, Plain entry := fun entry listed =>
        plain entry (List.mem_append_left _ listed)
      exact ⟨fun _ => ⟨entries, rfl⟩, fun _ => readsForm_simple plain nuls⟩
  | full entries satEntries =>
      refine ⟨fun reads => absurd reads (not_readsForm_full plain nuls), ?_⟩
      rintro ⟨_, ⟨⟩⟩

/-- Good, malformed and blank entries in one frame. -/
theorem readsForm_iff_simple_sample
    : ReadsForm (.simple ["a:1".toList, "bad".toList, " ".toList, " b:70000".toList])
        ("/ServerList/a:1|bad| | b:70000".toList ++ ['\x00']) :=
  (readsForm_iff_simple (by decide) 1).mpr ⟨_, rfl⟩

/-- Two regular and two satellite servers in the full form: the parser finds the first
regular server only and reports the rest as one malformed entry.
-/
theorem full_form_misread
    : parseServerListFrame
        (ServerListForm.text
          (.full ["a:1".toList, "b:2".toList] ["s:3".toList, "t:4".toList])
          ++ ['\x00'])
        = .ok ({ servers := [("a".toList, 1)] },
            [.malformedServerEntry
              "b:2\\ServerList\\/SatServers/s:3+t:4\\SatServers\\".toList])
      ∧ ¬ ReadsForm (.full ["a:1".toList, "b:2".toList] ["s:3".toList, "t:4".toList])
            (ServerListForm.text
              (.full ["a:1".toList, "b:2".toList] ["s:3".toList, "t:4".toList])
              ++ ['\x00']) :=
  ⟨by decide +kernel, not_readsForm_full (by decide) 1⟩

end Emwin.Qbt
