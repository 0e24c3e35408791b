import Emwin.Library.Text
import Mathlib.Data.List.Count

/-! Decoding encoded text piece by piece: what stays of it, and what a cut inside a character
adds.
-/

namespace Library

/-- The character that lossy decoding makes of an item. -/
def Utf8Item.lossy : Utf8Item → Char
  | .char value _ => value
  | .invalid _ | .incomplete _ => replacementChar

theorem fromUtf8Lossy_eq (bytes : Bytes)
    : fromUtf8Lossy bytes = (utf8Items bytes).map Utf8Item.lossy := by
  unfold fromUtf8Lossy
  refine List.map_congr_left fun item _ => ?_
  cases item <;> rfl

theorem fromUtf8Lossy_cons (b0 : UInt8) (rest : Bytes)
    : fromUtf8Lossy (b0 :: rest)
      = (firstItem b0 rest).lossy
        :: fromUtf8Lossy (rest.drop ((firstItem b0 rest).width - 1)) := by
  rw [fromUtf8Lossy_eq, fromUtf8Lossy_eq, utf8Items_cons, List.map_cons]

-----------------------------------------------------------------------------------------
-- Items and continuation bytes
-----------------------------------------------------------------------------------------

theorem isContinuation_of_second {lead byte : UInt8}
    (second : isSecondOfThree lead byte = true ∨ isSecondOfFour lead byte = true)
    : isContinuation byte = true := by
  simp only [isSecondOfThree, isSecondOfFour, isContinuation, UInt8.le_iff_toNat_le,
    UInt8.reduceToNat, Bool.and_eq_true, decide_eq_true_eq] at *
  split_ifs at second <;> simp only [Bool.and_eq_true, decide_eq_true_eq] at second <;> omega

/-- Behind its first byte an item covers continuation bytes only. -/
theorem firstItem_covers (b0 : UInt8) (rest : Bytes)
    : ∀ byte ∈ rest.take ((firstItem b0 rest).width - 1), isContinuation byte = true := by
  intro byte member
  have second {b1 : UInt8} := @isContinuation_of_second b0 b1
  rcases rest with _ | ⟨b1, _ | ⟨b2, _ | ⟨b3, rest⟩⟩⟩ <;>
    simp only [firstItem] at member <;>
    split_ifs at member <;>
    simp_all [Utf8Item.width]
  all_goals grind

/-- What follows does not matter to an item unless it could continue it. -/
theorem firstItem_append (b0 : UInt8) (before : Bytes) {after : Bytes}
    (fresh : ∀ byte, after.head? = some byte → isContinuation byte = false)
    : (firstItem b0 (before ++ after)).lossy = (firstItem b0 before).lossy
      ∧ (firstItem b0 (before ++ after)).width = (firstItem b0 before).width := by
  rcases after with _ | ⟨byte, after⟩
  · simp
  · have notCont := fresh byte rfl
    have notThree : isSecondOfThree b0 byte = false := by
      by_contra second
      simp [isContinuation_of_second (.inl (Bool.of_not_eq_false second))] at notCont
    have notFour : isSecondOfFour b0 byte = false := by
      by_contra second
      simp [isContinuation_of_second (.inr (Bool.of_not_eq_false second))] at notCont
    rcases before with _ | ⟨b1, _ | ⟨b2, _ | ⟨b3, before⟩⟩⟩
    · simp only [firstItem, List.nil_append, notCont, notThree, notFour, Bool.false_eq_true,
        if_false]
      split_ifs <;> exact ⟨rfl, rfl⟩
    · simp only [firstItem, List.nil_append, List.cons_append, notCont, Bool.false_eq_true,
        if_false]
      split_ifs <;> exact ⟨rfl, rfl⟩
    · simp only [firstItem, List.nil_append, List.cons_append, notCont, Bool.false_eq_true,
        if_false]
      split_ifs <;> exact ⟨rfl, rfl⟩
    · exact ⟨rfl, rfl⟩

theorem firstItem_width_le (b0 : UInt8) (rest : Bytes)
    : (firstItem b0 rest).width ≤ rest.length + 1 := by
  rcases rest with _ | ⟨b1, _ | ⟨b2, _ | ⟨b3, rest⟩⟩⟩ <;>
    simp only [firstItem] <;> split_ifs <;> simp [Utf8Item.width]

/-- Lossy decoding may be cut before every byte that continues nothing, by induction on the
length of the first piece.
-/
theorem fromUtf8Lossy_append (before : Bytes) {after : Bytes}
    (fresh : ∀ byte, after.head? = some byte → isContinuation byte = false)
    : fromUtf8Lossy (before ++ after) = fromUtf8Lossy before ++ fromUtf8Lossy after := by
  induction size : before.length using Nat.strongRecOn generalizing before with
  | _ bound ih =>
      cases before with
      | nil => rfl
      | cons b0 rest =>
          obtain ⟨same, width⟩ := firstItem_append b0 rest fresh
          have reach := firstItem_width_le b0 rest
          rw [List.cons_append, fromUtf8Lossy_cons, fromUtf8Lossy_cons, same, width,
            List.drop_append_of_le_length (by omega), List.cons_append,
            ih _ ?_ (rest.drop ((firstItem b0 rest).width - 1)) rfl]
          rw [← size, List.length_drop, List.length_cons]
          omega

-----------------------------------------------------------------------------------------
-- ASCII survives
-----------------------------------------------------------------------------------------

theorem not_ascii_of_continuation {byte : UInt8} (continues : isContinuation byte = true)
    : ¬ byte < 0x80 := by
  intro ascii
  simp [isContinuation_ascii ascii] at continues

/-- A multi-byte item gives a character outside ASCII. -/
theorem lossy_not_ascii {b0 : UInt8} (rest : Bytes) (high : ¬ b0 < 0x80)
    : ¬ (firstItem b0 rest).lossy.toNat < 0x80 := by
  intro ascii
  cases item : firstItem b0 rest with
  | char value width =>
      rw [item] at ascii
      obtain ⟨rfl, -⟩ := firstItem_char_ascii item ascii
      refine high ?_
      rw [UInt8.lt_iff_toNat_lt, UInt8.toNat_ofNat']
      change value.toNat < 128 at ascii
      simp only [UInt8.reduceToNat]
      omega
  | invalid width =>
      rw [item] at ascii
      have high : ¬ replacementChar.toNat < 0x80 := by decide
      exact high ascii
  | incomplete width =>
      rw [item] at ascii
      have high : ¬ replacementChar.toNat < 0x80 := by decide
      exact high ascii

/-- The ASCII characters of decoded bytes are their ASCII bytes, by induction on the length. -/
theorem filter_ascii_lossy (bytes : Bytes)
    : (fromUtf8Lossy bytes).filter (fun c => decide (c.toNat < 0x80))
      = (bytes.filter fun byte => decide (byte < 0x80)).map fun byte => Char.ofNat byte.toNat := by
  induction size : bytes.length using Nat.strongRecOn generalizing bytes with
  | _ bound ih =>
      cases bytes with
      | nil => rfl
      | cons b0 rest =>
          rw [fromUtf8Lossy_cons]
          by_cases ascii : b0 < 0x80
          · have item : firstItem b0 rest = .char (Char.ofNat b0.toNat) 1 := by
              simp [firstItem, ascii]
            have small : b0.toNat < 128 := UInt8.lt_iff_toNat_lt.mp ascii
            have code : (Char.ofNat b0.toNat).toNat = b0.toNat :=
              toNat_charOfNat (Or.inl (by omega))
            have later := ih rest.length (by rw [← size]; simp) rest rfl
            simp only [item, Utf8Item.lossy, Utf8Item.width, Nat.sub_self, List.drop_zero,
              List.filter_cons, code, small, ascii, decide_true, if_true, List.map_cons, later]
          · have skipped : rest.filter (fun byte => decide (byte < 0x80))
                = (rest.drop ((firstItem b0 rest).width - 1)).filter
                    fun byte => decide (byte < 0x80) := by
              conv_lhs => rw [← List.take_append_drop ((firstItem b0 rest).width - 1) rest]
              rw [List.filter_append, List.filter_eq_nil_iff.mpr, List.nil_append]
              intro byte member
              simpa using not_ascii_of_continuation (firstItem_covers b0 rest byte member)
            have fewer : (rest.drop ((firstItem b0 rest).width - 1)).length < bound := by
              rw [← size, List.length_cons, List.length_drop]
              omega
            have later := ih _ fewer (rest.drop ((firstItem b0 rest).width - 1)) rfl
            simp only [List.filter_cons, lossy_not_ascii rest ascii, ascii, decide_false,
              Bool.false_eq_true, if_false, later, skipped]

-----------------------------------------------------------------------------------------
-- Encoded characters
-----------------------------------------------------------------------------------------

/-- The encoding of a character: a byte that continues nothing, then continuation bytes. -/
theorem utf8EncodeChar_shape (c : Char)
    : ∃ lead tail,
        String.utf8EncodeChar c = lead :: tail
        ∧ isContinuation lead = false
        ∧ ∀ byte ∈ tail, isContinuation byte = true := by
  have valid : c.val.toNat < 0xD800 ∨ 0xDFFF < c.val.toNat ∧ c.val.toNat < 0x110000 := c.valid
  simp only [String.utf8EncodeChar]
  split_ifs <;> refine ⟨_, _, rfl, ?_, ?_⟩ <;>
    simp only [List.mem_cons, List.not_mem_nil, or_false, forall_eq_or_imp, forall_eq,
      isContinuation, UInt8.le_iff_toNat_le, UInt8.toNat_ofNat', UInt8.reduceToNat,
      Bool.and_eq_true, decide_eq_true_eq, Bool.and_eq_false_iff, decide_eq_false_iff_not,
      IsEmpty.forall_iff, implies_true] <;>
    omega

/-- The item of an encoded character. -/
theorem firstItem_encode (c : Char) (rest : Bytes)
    : ∃ lead tail,
        String.utf8EncodeChar c = lead :: tail
        ∧ firstItem lead (tail ++ rest) = .char c (tail.length + 1) := by
  have valid : c.val.toNat < 0xD800 ∨ 0xDFFF < c.val.toNat ∧ c.val.toNat < 0x110000 := c.valid
  have code {n : Nat} (same : n = c.val.toNat) : Char.ofNat n = c := by
    rw [same]
    exact Char.ofNat_toNat c
  simp only [String.utf8EncodeChar]
  split_ifs with one two three
  · refine ⟨_, _, rfl, ?_⟩
    have ascii : UInt8.ofNat c.val.toNat < 0x80 := by
      simp only [UInt8.lt_iff_toNat_lt, UInt8.toNat_ofNat', UInt8.reduceToNat]
      omega
    simp only [firstItem, ascii, if_true, List.length_nil]
    rw [code]
    rw [UInt8.toNat_ofNat']
    omega
  · refine ⟨_, _, rfl, ?_⟩
    simp only [firstItem, List.cons_append, List.nil_append, UInt8.lt_iff_toNat_lt,
      UInt8.le_iff_toNat_le, UInt8.toNat_ofNat', UInt8.reduceToNat, isContinuation,
      Bool.and_eq_true, decide_eq_true_eq, List.length_cons, List.length_nil]
    rw [if_neg (by omega), if_pos (by omega), if_pos (by omega), code]
    simp only [codeOfTwo, UInt8.toNat_ofNat']
    omega
  · refine ⟨_, _, rfl, ?_⟩
    simp only [firstItem, List.cons_append, List.nil_append, UInt8.lt_iff_toNat_lt,
      UInt8.le_iff_toNat_le, UInt8.toNat_ofNat', UInt8.reduceToNat, isContinuation,
      Bool.and_eq_true, decide_eq_true_eq, List.length_cons, List.length_nil]
    rw [if_neg (by omega), if_neg (by omega), if_pos (by omega), if_pos ?_, if_pos (by omega),
      code]
    · simp only [codeOfThree, UInt8.toNat_ofNat']
      omega
    · simp only [isSecondOfThree, isContinuation, ← UInt8.toNat_inj, UInt8.le_iff_toNat_le,
        UInt8.toNat_ofNat', UInt8.reduceToNat]
      split_ifs <;> simp only [Bool.and_eq_true, decide_eq_true_eq] <;> omega
  · refine ⟨_, _, rfl, ?_⟩
    simp only [firstItem, List.cons_append, List.nil_append, UInt8.lt_iff_toNat_lt,
      UInt8.le_iff_toNat_le, UInt8.toNat_ofNat', UInt8.reduceToNat, isContinuation,
      Bool.and_eq_true, decide_eq_true_eq, List.length_cons, List.length_nil]
    rw [if_neg (by omega), if_neg (by omega), if_neg (by omega), if_pos (by omega), if_pos ?_,
      if_pos (by omega), if_pos (by omega), code]
    · simp only [codeOfFour, UInt8.toNat_ofNat']
      omega
    · simp only [isSecondOfFour, isContinuation, ← UInt8.toNat_inj, UInt8.le_iff_toNat_le,
        UInt8.toNat_ofNat', UInt8.reduceToNat]
      split_ifs <;> simp only [Bool.and_eq_true, decide_eq_true_eq] <;> omega

theorem utf8Items_encode (c : Char) (rest : Bytes)
    : ∃ width, utf8Items (String.utf8EncodeChar c ++ rest) = .char c width :: utf8Items rest := by
  obtain ⟨lead, tail, shape, item⟩ := firstItem_encode c rest
  refine ⟨tail.length + 1, ?_⟩
  rw [shape, List.cons_append, utf8Items_cons, item, Utf8Item.width, Nat.add_sub_cancel,
    List.drop_left]

theorem toUtf8_cons (c : Char) (text : Text)
    : toUtf8 (c :: text) = String.utf8EncodeChar c ++ toUtf8 text :=
  List.flatMap_cons

theorem toUtf8_append (left right : Text) : toUtf8 (left ++ right) = toUtf8 left ++ toUtf8 right :=
  List.flatMap_append

/-- Encoded text does not start inside a character. -/
theorem toUtf8_fresh {text : Text} {before after : Bytes} (whole : toUtf8 text = before ++ after)
    : ∀ byte, before.head? = some byte → isContinuation byte = false := by
  intro byte first
  obtain ⟨rest, rfl⟩ := List.head?_eq_some_iff.mp first
  cases text with
  | nil => exact absurd whole (by simp [toUtf8])
  | cons c text =>
      obtain ⟨lead, tail, shape, starts, -⟩ := utf8EncodeChar_shape c
      rw [toUtf8_cons, shape] at whole
      obtain ⟨rfl, -⟩ := List.cons.inj whole
      exact starts

/-- Encoded text decodes to itself, whatever follows; by induction on the text. -/
theorem fromUtf8Lossy_toUtf8_append (text : Text) (rest : Bytes)
    : fromUtf8Lossy (toUtf8 text ++ rest) = text ++ fromUtf8Lossy rest := by
  induction text with
  | nil => rfl
  | cons c text ih =>
      obtain ⟨width, items⟩ := utf8Items_encode c (toUtf8 text ++ rest)
      rw [toUtf8_cons, List.append_assoc, fromUtf8Lossy_eq, items, List.map_cons,
        ← fromUtf8Lossy_eq, ih]
      rfl

@[simp] theorem fromUtf8Lossy_toUtf8 (text : Text) : fromUtf8Lossy (toUtf8 text) = text := by
  have decoded := fromUtf8Lossy_toUtf8_append text []
  rwa [List.append_nil, show fromUtf8Lossy [] = [] from rfl, List.append_nil] at decoded

theorem toUtf8_injective {left right : Text} (same : toUtf8 left = toUtf8 right)
    : left = right := by
  rw [← fromUtf8Lossy_toUtf8 left, same, fromUtf8Lossy_toUtf8]

/-- What stands behind encoded text in encoded text is encoded text. -/
theorem toUtf8_rest {text left : Text} {rest : Bytes} (whole : toUtf8 text = toUtf8 left ++ rest)
    : rest = toUtf8 (fromUtf8Lossy rest) := by
  have split : text = left ++ fromUtf8Lossy rest := by
    rw [← fromUtf8Lossy_toUtf8 text, whole, fromUtf8Lossy_toUtf8_append]
  rw [split, toUtf8_append] at whole
  exact (List.append_cancel_left whole).symm

theorem fromUtf8_toUtf8 (text : Text) : fromUtf8 (toUtf8 text) = .ok text := by
  suffices from_ : ∀ offset, textOfItems offset (utf8Items (toUtf8 text)) = .ok text from from_ 0
  induction text with
  | nil => exact fun _ => rfl
  | cons c text ih =>
      intro offset
      obtain ⟨width, items⟩ := utf8Items_encode c (toUtf8 text)
      rw [toUtf8_cons, items, textOfItems, ih]

theorem utf8Len_suffix {part text : Text} (inside : part <:+ text)
    : utf8Len part ≤ utf8Len text := by
  obtain ⟨front, rfl⟩ := inside
  rw [utf8Len_append]
  exact Nat.le_add_left _ _

theorem length_toUtf8 (text : Text) : (toUtf8 text).length = utf8Len text := by
  simp [toUtf8, utf8Len, List.length_flatMap]

-----------------------------------------------------------------------------------------
-- Cuts
-----------------------------------------------------------------------------------------

/-- No more bytes start a character than lossy decoding gives characters; a piece that starts
inside a character gives one more. By induction on the length.
-/
theorem countP_leads_le (bytes : Bytes)
    : bytes.countP (fun byte => !isContinuation byte)
        + (if bytes.head?.any isContinuation then 1 else 0)
      ≤ (fromUtf8Lossy bytes).length := by
  induction size : bytes.length using Nat.strongRecOn generalizing bytes with
  | _ bound ih =>
      cases bytes with
      | nil => simp
      | cons b0 rest =>
          have covered : rest.countP (fun byte => !isContinuation byte)
              = (rest.drop ((firstItem b0 rest).width - 1)).countP
                  fun byte => !isContinuation byte := by
            conv_lhs => rw [← List.take_append_drop ((firstItem b0 rest).width - 1) rest]
            rw [List.countP_append, List.countP_eq_zero.mpr, Nat.zero_add]
            intro byte member
            simp [firstItem_covers b0 rest byte member]
          have fewer : (rest.drop ((firstItem b0 rest).width - 1)).length < bound := by
            rw [← size, List.length_cons, List.length_drop]
            omega
          have later := ih _ fewer (rest.drop ((firstItem b0 rest).width - 1)) rfl
          rw [fromUtf8Lossy_cons, List.length_cons, List.countP_cons, covered]
          cases lead : isContinuation b0 <;> simp [lead] <;> omega

theorem countP_leads_toUtf8 (text : Text)
    : (toUtf8 text).countP (fun byte => !isContinuation byte) = text.length := by
  induction text with
  | nil => rfl
  | cons c text ih =>
      obtain ⟨lead, tail, shape, starts, continues⟩ := utf8EncodeChar_shape c
      have none : tail.countP (fun byte => !isContinuation byte) = 0 := by
        refine List.countP_eq_zero.mpr fun byte member => ?_
        simp [continues byte member]
      rw [toUtf8_cons, List.countP_append, ih, shape, List.countP_cons, none]
      simp [starts]
      omega

theorem utf8EncodeChar_high {c : Char} {lead : UInt8} {tail : Bytes}
    (encoded : String.utf8EncodeChar c = lead :: tail) (more : tail ≠ [])
    : ¬ c.toNat < 0x80 ∧ ¬ lead < 0x80 := by
  have valid : c.val.toNat < 0xD800 ∨ 0xDFFF < c.val.toNat ∧ c.val.toNat < 0x110000 := c.valid
  change ¬ c.val.toNat < 0x80 ∧ _
  simp only [String.utf8EncodeChar] at encoded
  split_ifs at encoded <;> obtain ⟨rfl, rfl⟩ := List.cons.inj encoded
  · exact absurd rfl more
  all_goals
    rw [UInt8.lt_iff_toNat_lt, UInt8.toNat_ofNat']
    simp only [UInt8.reduceToNat]
    omega

/-- A cut of encoded text: between two characters, or inside one outside ASCII. -/
inductive Utf8Cut (text : Text) : Bytes → Bytes → Prop
  | between {left right : Text} (whole : text = left ++ right)
    : Utf8Cut text (toUtf8 left) (toUtf8 right)
  | inside {left right : Text} {c : Char} {part rest : Bytes}
    (whole : text = left ++ c :: right) (started : part ≠ []) (unfinished : rest ≠ [])
    (outside : ¬ c.toNat < 0x80) (high : ∀ byte ∈ part, ¬ byte < 0x80)
    (continues : ∀ byte ∈ rest, isContinuation byte = true)
    : Utf8Cut text (toUtf8 left ++ part) (rest ++ toUtf8 right)

/-- Every cut is of one of the two kinds, by induction on the text. -/
theorem utf8Cut {text : Text} {before after : Bytes} (whole : toUtf8 text = before ++ after)
    : Utf8Cut text before after := by
  induction text generalizing before with
  | nil =>
      obtain ⟨rfl, rfl⟩ := List.append_eq_nil_iff.mp whole.symm
      change Utf8Cut [] (toUtf8 []) (toUtf8 [])
      exact .between rfl
  | cons c text ih =>
      obtain ⟨lead, tail, shape, starts, continues⟩ := utf8EncodeChar_shape c
      rcases before with _ | ⟨first, before⟩
      · rw [← List.nil_append after, ← whole]
        change Utf8Cut (c :: text) (toUtf8 []) _
        exact .between rfl
      · rw [toUtf8_cons, shape, List.cons_append, List.cons_append] at whole
        obtain ⟨rfl, rest⟩ := List.cons.inj whole
        rcases List.append_eq_append_iff.mp rest with ⟨more, rfl, back⟩ | ⟨more, rfl, rfl⟩
        · have front (left : Text)
              : lead :: (tail ++ toUtf8 left) = toUtf8 (c :: left) := by
            rw [toUtf8_cons, shape, List.cons_append]
          cases ih back with
          | between split =>
              rw [front]
              exact .between (by rw [split, List.cons_append])
          | inside split started unfinished outside high continues =>
              rw [← List.append_assoc, ← List.cons_append, front]
              exact .inside (by rw [split, List.cons_append]) started unfinished outside high
                continues
        · -- the cut falls into the first character, or right behind it
          by_cases none : more = []
          · subst none
            have one : lead :: before = toUtf8 [c] := by
              rw [toUtf8_cons, shape]
              simp [toUtf8]
            rw [one, List.nil_append]
            exact .between rfl
          · obtain ⟨outside, high⟩ := utf8EncodeChar_high shape (by simp [none])
            change Utf8Cut (c :: text) (toUtf8 [] ++ lead :: before) _
            refine .inside rfl (by simp) none outside ?_ ?_
            · intro byte member
              rcases List.mem_cons.mp member with rfl | member
              · exact high
              · exact not_ascii_of_continuation (continues byte (by simp [member]))
            · exact fun byte member => continues byte (by simp [member])

/-- Bytes outside ASCII give no ASCII characters. -/
theorem lossy_high {bytes : Bytes} (high : ∀ byte ∈ bytes, ¬ byte < 0x80)
    : ∀ c ∈ fromUtf8Lossy bytes, ¬ c.toNat < 0x80 := by
  intro c member ascii
  have kept : c ∈ (fromUtf8Lossy bytes).filter (fun c => decide (c.toNat < 0x80)) :=
    List.mem_filter.mpr ⟨member, by simpa using ascii⟩
  rw [filter_ascii_lossy, List.filter_eq_nil_iff.mpr (by simpa using high)] at kept
  exact absurd kept (by simp)

section Reads

variable {reads : List Bytes} {text : Text}

/-- The ASCII characters do not depend on the cuts, by induction on the reads. -/
theorem filter_ascii_reads (reads : List Bytes)
    : (reads.map fromUtf8Lossy).flatten.filter (fun c => decide (c.toNat < 0x80))
      = (fromUtf8Lossy reads.flatten).filter fun c => decide (c.toNat < 0x80) := by
  induction reads with
  | nil => rfl
  | cons read reads ih =>
      rw [List.map_cons, List.flatten_cons, List.filter_append, ih, List.flatten_cons]
      simp only [filter_ascii_lossy, List.filter_append, List.map_append]

theorem countP_ascii_reads (whole : reads.flatten = toUtf8 text) {p : Char → Bool}
    (ascii : ∀ c, p c = true → c.toNat < 0x80)
    : (reads.map fromUtf8Lossy).flatten.countP p = text.countP p := by
  have same : ∀ text : Text,
      text.countP p = (text.filter fun c => decide (c.toNat < 0x80)).countP p := by
    intro text
    rw [List.countP_filter]
    congr 1
    funext c
    cases found : p c with
    | false => simp
    | true => simp [ascii c found]
  rw [same, filter_ascii_reads, whole, fromUtf8Lossy_toUtf8, ← same]

/-- Each read that starts inside a character adds one, by induction on the reads. -/
theorem length_lossy_reads (reads : List Bytes)
    : reads.flatten.countP (fun byte => !isContinuation byte)
        + reads.countP (fun read => read.head?.any isContinuation)
      ≤ (reads.map fromUtf8Lossy).flatten.length := by
  induction reads with
  | nil => simp
  | cons read reads ih =>
      have first := countP_leads_le read
      simp only [List.flatten_cons, List.countP_append, List.map_cons, List.length_append,
        List.countP_cons]
      omega

/-- Reads that decode to as much as the whole does all start with a character. -/
theorem reads_fresh (whole : reads.flatten = toUtf8 text)
    (short : (reads.map fromUtf8Lossy).flatten.length ≤ text.length)
    : ∀ read ∈ reads, read.head?.any isContinuation = false := by
  have bound := length_lossy_reads reads
  rw [whole, countP_leads_toUtf8] at bound
  have none : reads.countP (fun read => read.head?.any isContinuation) = 0 := by omega
  intro read member
  simpa using List.countP_eq_zero.mp none read member

theorem head_flatten_fresh (nonempty : [] ∉ reads)
    (fresh : ∀ read ∈ reads, read.head?.any isContinuation = false)
    : ∀ byte, reads.flatten.head? = some byte → isContinuation byte = false := by
  intro byte first
  cases reads with
  | nil => exact absurd first (by simp)
  | cons read reads =>
      cases read with
      | nil => exact absurd nonempty (by simp)
      | cons lead read =>
          obtain rfl := Option.some.inj first
          simpa using fresh (lead :: read) (by simp)

/-- Reads that start with characters decode to what the whole does, by induction on them. -/
theorem lossy_fresh_reads (nonempty : [] ∉ reads)
    (fresh : ∀ read ∈ reads, read.head?.any isContinuation = false)
    : (reads.map fromUtf8Lossy).flatten = fromUtf8Lossy reads.flatten := by
  induction reads with
  | nil => rfl
  | cons read reads ih =>
      have nonempty' : [] ∉ reads := fun member => nonempty (by simp [member])
      have fresh' : ∀ read ∈ reads, read.head?.any isContinuation = false :=
        fun other member => fresh other (by simp [member])
      rw [List.map_cons, List.flatten_cons, ih nonempty' fresh', List.flatten_cons,
        fromUtf8Lossy_append read (head_flatten_fresh nonempty' fresh')]

end Reads

end Library
