import Emwin.Library.Utf8Pieces

/-! What lossy decoding leaves of a text that was cut inside its characters. -/

namespace Library

/-- A character is read as soon as its bytes are there. -/
theorem firstItem_char_append {b0 : UInt8} {rest : Bytes} {value : Char} {width : Nat}
    (item : firstItem b0 rest = .char value width) (more : Bytes)
    : firstItem b0 (rest ++ more) = .char value width := by
  rcases rest with _ | ⟨b1, _ | ⟨b2, _ | ⟨b3, rest⟩⟩⟩
  · simp only [firstItem] at item ⊢
    split_ifs at item ⊢ with one
    exact item
  · simp only [firstItem, List.cons_append, List.nil_append] at item ⊢
    split_ifs at item ⊢ <;> exact item
  · simp only [firstItem, List.cons_append, List.nil_append] at item ⊢
    split_ifs at item ⊢ <;> exact item
  · exact item

theorem firstItem_ascii {byte : UInt8} (ascii : byte < 0x80) (rest : Bytes)
    : firstItem byte rest = .char (Char.ofNat byte.toNat) 1 := by
  simp [firstItem, ascii]

/-- A byte that continues a character, on its own. -/
theorem firstItem_continuation {b0 : UInt8} (continues : isContinuation b0 = true) (rest : Bytes)
    : firstItem b0 rest = .invalid 1 := by
  simp only [isContinuation, Bool.and_eq_true, decide_eq_true_eq, UInt8.le_iff_toNat_le,
    UInt8.reduceToNat] at continues
  simp only [firstItem, UInt8.lt_iff_toNat_lt, UInt8.le_iff_toNat_le, UInt8.reduceToNat,
    Bool.and_eq_true, decide_eq_true_eq]
  rw [if_neg (by omega), if_neg (by omega), if_neg (by omega), if_neg (by omega)]

/-- The later bytes of characters give replacements, by induction on them. -/
theorem lossy_continuations {bytes : Bytes} (continues : ∀ byte ∈ bytes, isContinuation byte = true)
    : ∀ c ∈ fromUtf8Lossy bytes, c = replacementChar := by
  induction bytes with
  | nil => intro c member; cases member
  | cons b0 rest ih =>
      rw [fromUtf8Lossy_cons, firstItem_continuation (continues b0 (by simp))]
      intro c member
      rcases List.mem_cons.mp member with rfl | member
      · rfl
      · exact ih (fun byte later => continues byte (by simp [later])) c member

/-- The first bytes of a character give replacements. -/
theorem lossy_unfinished {c : Char} {part rest : Bytes}
    (encoded : String.utf8EncodeChar c = part ++ rest) (unfinished : rest ≠ [])
    : ∀ found ∈ fromUtf8Lossy part, found = replacementChar := by
  cases part with
  | nil => intro found member; cases member
  | cons b0 part =>
      obtain ⟨lead, tail, shape, starts, continues⟩ := utf8EncodeChar_shape c
      obtain ⟨other, more, again, item⟩ := firstItem_encode c []
      rw [encoded, List.cons_append] at shape again
      obtain ⟨rfl, rfl⟩ := List.cons.inj shape
      obtain ⟨rfl, rfl⟩ := List.cons.inj again
      rw [List.append_nil] at item
      have first : (firstItem b0 part).lossy = replacementChar := by
        cases found : firstItem b0 part with
        | invalid => rfl
        | incomplete => rfl
        | char value width =>
            have whole := firstItem_char_append found rest
            have bound := firstItem_width_le b0 part
            have missing := List.length_pos_iff.mpr unfinished
            rw [item, Utf8Item.char.injEq] at whole
            rw [found, Utf8Item.width] at bound
            simp only [List.length_append] at whole
            omega
      rw [fromUtf8Lossy_cons, first]
      intro found member
      rcases List.mem_cons.mp member with rfl | member
      · rfl
      · refine lossy_continuations (fun byte later => ?_) found member
        exact continues byte (by simp [List.mem_of_mem_drop later])

/-- A text without its replacement characters. -/
def withoutReplacements (text : Text) : Text := text.filter (· ≠ replacementChar)

@[simp] theorem withoutReplacements_append (left right : Text)
    : withoutReplacements (left ++ right) = withoutReplacements left ++ withoutReplacements right :=
  List.filter_append left right

theorem withoutReplacements_eq_nil {text : Text}
    : withoutReplacements text = [] ↔ ∀ c ∈ text, c = replacementChar := by
  simp [withoutReplacements, List.filter_eq_nil_iff]

theorem withoutReplacements_eq_self {text : Text} (none : replacementChar ∉ text)
    : withoutReplacements text = text := by
  refine List.filter_eq_self.mpr fun c member => ?_
  simpa using fun same : c = replacementChar => none (same ▸ member)

/-- Wherever a text is cut, what is decoded has its characters in their order, and replacements. By
induction on the reads, where the first one may start inside a character.
-/
theorem withoutReplacements_reads {reads : List Bytes} {text : Text} {rest : Bytes}
    (continues : ∀ byte ∈ rest, isContinuation byte = true)
    (whole : reads.flatten = rest ++ toUtf8 text)
    : (withoutReplacements (reads.map fromUtf8Lossy).flatten).Sublist
        (withoutReplacements text) := by
  induction reads generalizing text rest with
  | nil => exact List.nil_sublist _
  | cons read reads ih =>
      rw [List.flatten_cons] at whole
      rw [List.map_cons, List.flatten_cons, withoutReplacements_append]
      rcases List.append_eq_append_iff.mp whole with ⟨more, rfl, flat⟩ | ⟨front, rfl, flat⟩
      · -- the read is over before the character is
        have replaced : withoutReplacements (fromUtf8Lossy read) = [] :=
          withoutReplacements_eq_nil.mpr
            (lossy_continuations fun byte member => continues byte (by simp [member]))
        rw [replaced, List.nil_append]
        exact ih (fun byte member => continues byte (by simp [member])) flat
      · have replaced : withoutReplacements (fromUtf8Lossy rest) = [] :=
          withoutReplacements_eq_nil.mpr (lossy_continuations continues)
        have fresh := toUtf8_fresh flat
        rw [fromUtf8Lossy_append rest fresh, withoutReplacements_append, replaced, List.nil_append]
        have cut := utf8Cut flat
        generalize behind : reads.flatten = after at cut
        cases cut with
        | @between left right split =>
            have later := ih (fun byte none => absurd none (List.not_mem_nil)) behind
            rw [fromUtf8Lossy_toUtf8, split, withoutReplacements_append]
            exact later.append_left _
        | @inside left right c part tail split started unfinished outside high continued =>
            have encoded : String.utf8EncodeChar c = part ++ tail := by
              rw [split, behind, toUtf8_append, toUtf8_cons, List.append_assoc,
                List.append_cancel_left_eq, ← List.append_assoc] at flat
              exact List.append_cancel_right flat
            have lost : withoutReplacements (fromUtf8Lossy part) = [] :=
              withoutReplacements_eq_nil.mpr (lossy_unfinished encoded unfinished)
            have later := ih continued behind
            rw [fromUtf8Lossy_toUtf8_append, split, withoutReplacements_append, lost,
              List.append_nil, withoutReplacements_append]
            refine List.Sublist.append_left (later.trans ?_) _
            exact (List.sublist_cons_self c right).filter _

/-- Reads that start with characters, or are empty, are followed by a character. By induction on
them.
-/
theorem flatten_fresh {reads : List Bytes}
    (fresh : ∀ read ∈ reads, read.head?.any isContinuation = false)
    : reads.flatten.head?.any isContinuation = false := by
  induction reads with
  | nil => rfl
  | cons read reads ih =>
      cases read with
      | nil => exact ih fun other member => fresh other (by simp [member])
      | cons lead read => exact fresh (lead :: read) (by simp)

/-- Reads of a text that start with characters end with characters, by induction on them. -/
theorem whole_of_fresh {reads : List Bytes} {text : Text} (whole : reads.flatten = toUtf8 text)
    (fresh : ∀ read ∈ reads, read.head?.any isContinuation = false)
    : ∀ read ∈ reads, ∃ piece, read = toUtf8 piece := by
  induction reads generalizing text with
  | nil => intro read member; cases member
  | cons first reads ih =>
      have later : ∀ read ∈ reads, read.head?.any isContinuation = false :=
        fun read member => fresh read (by simp [member])
      rw [List.flatten_cons] at whole
      have cut := utf8Cut whole.symm
      have next := flatten_fresh later
      generalize behind : reads.flatten = after at cut next
      cases cut with
      | @between left right split =>
          intro read member
          rcases List.mem_cons.mp member with rfl | member
          · exact ⟨left, rfl⟩
          · exact ih behind later read member
      | @inside left right c part rest split started unfinished outside high continues =>
          cases rest with
          | nil => exact absurd rfl unfinished
          | cons byte rest => simp [continues byte (by simp)] at next

/-- A text that starts in ASCII is decoded from its first character on, by induction on the
reads.
-/
theorem head_lossy_reads {reads : List Bytes} {byte : UInt8} {rest : Bytes} (ascii : byte < 0x80)
    (whole : reads.flatten = byte :: rest)
    : (reads.map fromUtf8Lossy).flatten.head? = some (Char.ofNat byte.toNat) := by
  induction reads with
  | nil => cases whole
  | cons read reads ih =>
      cases read with
      | nil => exact ih whole
      | cons lead read =>
          obtain ⟨rfl, -⟩ := List.cons.inj whole
          rw [List.map_cons, List.flatten_cons, fromUtf8Lossy_cons, firstItem_ascii ascii]
          rfl

/-- A text that ends in ASCII is decoded up to its last character, by induction on the reads. -/
theorem getLast_lossy_reads {reads : List Bytes} {byte : UInt8} {rest : Bytes} (ascii : byte < 0x80)
    (whole : reads.flatten = rest ++ [byte])
    : (reads.map fromUtf8Lossy).flatten.getLast? = some (Char.ofNat byte.toNat) := by
  induction reads using List.reverseRecOn with
  | nil => simp at whole
  | append_singleton reads read ih =>
      rw [List.flatten_append, List.flatten_singleton] at whole
      rw [List.map_append, List.flatten_append, List.map_singleton, List.flatten_singleton]
      rcases List.eq_nil_or_concat' read with rfl | ⟨front, last, rfl⟩
      · rw [List.append_nil] at whole
        rw [show fromUtf8Lossy [] = [] from rfl, List.append_nil]
        exact ih whole
      · rw [← List.append_assoc] at whole
        obtain ⟨-, same⟩ := List.append_inj' whole rfl
        obtain rfl := List.cons.inj same |>.1
        have single : fromUtf8Lossy [last] = [Char.ofNat last.toNat] := by
          rw [fromUtf8Lossy_cons, firstItem_ascii ascii]
          rfl
        rw [fromUtf8Lossy_append front (by simpa using isContinuation_ascii ascii), single,
          ← List.append_assoc, List.getLast?_concat]

end Library
