import Emwin.Library.Lines
import Emwin.Library.Utf8Pieces

/-! Calls that may panic, and string slices at byte offsets. -/

namespace Library

/-- Why a call does not come back. -/
inductive Panic where
  /-- A string was cut inside a character or outside of the string. -/
  | slice
  /-- A number left the range of its type. -/
  | overflow
  deriving DecidableEq, Repr

/-- The call comes back with a value. -/
def Returns {ε α : Type} (call : Except ε α) : Prop := ∃ value, call = .ok value

/-- `str::is_char_boundary`. -/
def isCharBoundary (offset : Nat) (text : Text) : Bool := (splitOff offset text).isSome

/-- `&text[..stop]`. -/
def sliceTo (stop : Nat) (text : Text) : Except Panic Text :=
  okOr .slice ((splitOff stop text).map Prod.fst)

/-- `&text[start..]`. -/
def sliceFrom (start : Nat) (text : Text) : Except Panic Text :=
  okOr .slice ((splitOff start text).map Prod.snd)

/-- `&text[start..stop]`. -/
def slice (start stop : Nat) (text : Text) : Except Panic Text := do
  let front ← sliceTo stop text
  sliceFrom start front

/-- `memchr_iter`: the places of a byte. -/
def memchrIter (byte : UInt8) : Bytes → List Nat
  | [] => []
  | first :: rest =>
      if first = byte then 0 :: (memchrIter byte rest).map (1 + ·)
      else (memchrIter byte rest).map (1 + ·)

/-- `as_bytes().get(index)`. -/
def byteAt? (text : Text) (index : Nat) : Option UInt8 := (toUtf8 text)[index]?

-----------------------------------------------------------------------------------------
-- Returning
-----------------------------------------------------------------------------------------

section Returning

variable {ε α β : Type}

@[simp] theorem returns_ok (value : α) : Returns (.ok value : Except ε α) := ⟨value, rfl⟩

@[simp] theorem returns_pure (value : α) : Returns (pure value : Except ε α) := ⟨value, rfl⟩

@[simp] theorem not_returns_error (error : ε) : ¬ Returns (.error error : Except ε α) := nofun

theorem returns_bind_iff {call : Except ε α} {next : α → Except ε β}
    : Returns (call >>= next) ↔ ∃ value, call = .ok value ∧ Returns (next value) := by
  cases call with
  | error error => simp [Returns, bind, Except.bind]
  | ok value => simp [Returns, bind, Except.bind]

/-- A call that comes back, followed by calls that come back. -/
theorem Returns.bind {call : Except ε α} {next : α → Except ε β} (first : Returns call)
    (later : ∀ value, call = .ok value → Returns (next value))
    : Returns (call >>= next) := by
  obtain ⟨value, here⟩ := first
  exact returns_bind_iff.mpr ⟨value, here, later value here⟩

/-- Where all that follows comes back, the first call decides. -/
theorem returns_bind_of_total {call : Except ε α} {next : α → Except ε β}
    (total : ∀ value, Returns (next value))
    : Returns (call >>= next) ↔ Returns call := by
  rw [returns_bind_iff]
  constructor
  · rintro ⟨value, here, -⟩
    exact ⟨value, here⟩
  · rintro ⟨value, here⟩
    exact ⟨value, here, total value⟩

@[simp] theorem ok_bind (value : α) (next : α → Except ε β)
    : (.ok value >>= next : Except ε β) = next value := rfl

@[simp] theorem map_returns_iff {f : α → β} {call : Except ε α}
    : Returns (f <$> call) ↔ Returns call := by
  cases call with
  | error error => simp [Returns, Functor.map, Except.map]
  | ok value => simp [Returns, Functor.map, Except.map]

/-- Calls that all come back give the list of their values, by list induction. -/
theorem mapM_ok {f : α → Except ε β} {g : α → β} {list : List α}
    (all : ∀ a ∈ list, f a = .ok (g a))
    : list.mapM f = .ok (list.map g) := by
  induction list with
  | nil => rfl
  | cons first rest ih =>
      rw [List.mapM_cons, all first (by simp), ih fun a member => all a (by simp [member])]
      rfl

/-- The values of calls that all came back, by list induction. -/
theorem mem_of_mapM_ok {f : α → Except ε β} {list : List α} {values : List β}
    (all : list.mapM f = .ok values) {value : β}
    : value ∈ values ↔ ∃ a ∈ list, f a = .ok value := by
  induction list generalizing values with
  | nil =>
      obtain rfl := Except.ok.inj all
      simp
  | cons first rest ih =>
      rw [List.mapM_cons] at all
      obtain ⟨here, found, later⟩ := exceptBind_ok_iff.mp all
      obtain ⟨others, more, same⟩ := exceptBind_ok_iff.mp later
      obtain rfl := Except.ok.inj same
      rw [List.mem_cons, ih more]
      constructor
      · rintro (rfl | ⟨a, member, reads⟩)
        · exact ⟨first, by simp, found⟩
        · exact ⟨a, by simp [member], reads⟩
      · rintro ⟨a, member, reads⟩
        rcases List.mem_cons.mp member with rfl | later
        · exact .inl (Except.ok.inj (reads.symm.trans found))
        · exact .inr ⟨a, later, reads⟩

/-- A list of calls comes back if each of them does, by list induction. -/
theorem returns_mapM_iff {f : α → Except ε β} {list : List α}
    : Returns (list.mapM f) ↔ ∀ a ∈ list, Returns (f a) := by
  induction list with
  | nil => simp
  | cons first rest ih =>
      rw [List.mapM_cons, returns_bind_iff, List.forall_mem_cons, ← ih]
      constructor
      · rintro ⟨value, here, later⟩
        obtain ⟨values, all, -⟩ := returns_bind_iff.mp later
        exact ⟨⟨value, here⟩, values, all⟩
      · rintro ⟨⟨value, here⟩, values, all⟩
        exact ⟨value, here, returns_bind_iff.mpr ⟨values, all, returns_pure _⟩⟩

/-- Steps that all come back, from every state, by induction on the list. -/
theorem returns_foldlM_iff {σ : Type} {step : σ → α → Except ε σ} {Comes : α → Prop}
    (each : ∀ state a, Returns (step state a) ↔ Comes a) (list : List α) (state : σ)
    : Returns (list.foldlM step state) ↔ ∀ a ∈ list, Comes a := by
  induction list generalizing state with
  | nil => exact iff_of_true (returns_pure _) (by simp)
  | cons first rest ih =>
      rw [List.foldlM_cons, returns_bind_iff, List.forall_mem_cons, ← each state first]
      constructor
      · rintro ⟨next, here, later⟩
        exact ⟨⟨next, here⟩, (ih next).mp later⟩
      · rintro ⟨⟨next, here⟩, later⟩
        exact ⟨next, here, (ih next).mpr later⟩

end Returning

-----------------------------------------------------------------------------------------
-- Slices
-----------------------------------------------------------------------------------------

/-- The split after a front of the text, by induction on the front. -/
@[simp] theorem splitOff_append (front back : Text)
    : splitOff (utf8Len front) (front ++ back) = some (front, back) := by
  induction front with
  | nil => cases back <;> simp [utf8Len, splitOff]
  | cons c front ih =>
      have positive : utf8Len (c :: front) ≠ 0 := by
        have := c.utf8Size_pos
        rw [utf8Len_cons]
        omega
      rw [List.cons_append, splitOff, if_neg positive, utf8Len_cons, if_pos (by omega),
        Nat.add_sub_cancel_left, ih]
      rfl

theorem isCharBoundary_iff {offset : Nat} {text : Text}
    : isCharBoundary offset text = true
      ↔ ∃ front back, text = front ++ back ∧ utf8Len front = offset :=
  splitOff_isSome_iff offset text

@[simp] theorem sliceTo_append (front back : Text)
    : sliceTo (utf8Len front) (front ++ back) = .ok front := by
  simp [sliceTo]

@[simp] theorem sliceFrom_append (front back : Text)
    : sliceFrom (utf8Len front) (front ++ back) = .ok back := by
  simp [sliceFrom]

theorem sliceFrom_zero (text : Text) : sliceFrom 0 text = .ok text := sliceFrom_append [] text

theorem slice_append (front middle back : Text)
    : slice (utf8Len front) (utf8Len front + utf8Len middle) (front ++ (middle ++ back))
      = .ok middle := by
  have cut := sliceTo_append (front ++ middle) back
  rw [utf8Len_append, List.append_assoc] at cut
  rw [slice, cut]
  exact sliceFrom_append front middle

/-- A slice gives the part before a boundary, or panics. -/
theorem sliceTo_eq_ok_iff {stop : Nat} {text front : Text}
    : sliceTo stop text = .ok front ↔ ∃ back, text = front ++ back ∧ utf8Len front = stop := by
  constructor
  · intro cut
    have found : (splitOff stop text).isSome := by
      cases split : splitOff stop text with
      | none => simp [sliceTo, split, okOr] at cut
      | some _ => rfl
    obtain ⟨left, right, rfl, rfl⟩ := (splitOff_isSome_iff stop text).mp found
    obtain rfl : left = front := by simpa using cut
    exact ⟨right, rfl, rfl⟩
  · rintro ⟨back, rfl, rfl⟩
    exact sliceTo_append front back

theorem sliceFrom_eq_ok_iff {start : Nat} {text back : Text}
    : sliceFrom start text = .ok back ↔ ∃ front, text = front ++ back ∧ utf8Len front = start := by
  constructor
  · intro cut
    have found : (splitOff start text).isSome := by
      cases split : splitOff start text with
      | none => simp [sliceFrom, split, okOr] at cut
      | some _ => rfl
    obtain ⟨left, right, rfl, rfl⟩ := (splitOff_isSome_iff start text).mp found
    obtain rfl : right = back := by simpa using cut
    exact ⟨left, rfl, rfl⟩
  · rintro ⟨front, rfl, rfl⟩
    exact sliceFrom_append front back

theorem returns_sliceTo_iff {stop : Nat} {text : Text}
    : Returns (sliceTo stop text) ↔ isCharBoundary stop text = true := by
  simp only [Returns, sliceTo_eq_ok_iff, isCharBoundary_iff]

theorem returns_sliceFrom_iff {start : Nat} {text : Text}
    : Returns (sliceFrom start text) ↔ isCharBoundary start text = true := by
  simp only [Returns, sliceFrom_eq_ok_iff, isCharBoundary_iff]
  exact exists_comm

/-- A boundary in front of the end of a text is one of every longer text. -/
theorem isCharBoundary_append {offset : Nat} {front back : Text} (inside : offset ≤ utf8Len front)
    : isCharBoundary offset (front ++ back) = true ↔ isCharBoundary offset front = true := by
  rw [isCharBoundary_iff, isCharBoundary_iff]
  constructor
  · rintro ⟨left, right, same, rfl⟩
    rcases List.append_eq_append_iff.mp same with ⟨more, rfl, -⟩ | ⟨more, rfl, -⟩
    · rw [utf8Len_append] at inside
      have none : utf8Len more = 0 := by omega
      exact ⟨front, [], by simp, by rw [utf8Len_append]; omega⟩
    · exact ⟨left, more, rfl, rfl⟩
  · rintro ⟨left, right, rfl, rfl⟩
    exact ⟨left, right ++ back, by simp, rfl⟩

theorem returns_slice_front_iff {start : Nat} {front back : Text} (inside : start ≤ utf8Len front)
    : Returns (slice start (utf8Len front) (front ++ back))
      ↔ isCharBoundary start (front ++ back) = true := by
  rw [slice, sliceTo_append, ok_bind, returns_sliceFrom_iff, isCharBoundary_append inside]

theorem isCharBoundary_end {text : Text} {stop : Nat} (size : utf8Len text = stop)
    : isCharBoundary stop text = true :=
  isCharBoundary_iff.mpr ⟨text, [], by simp, size⟩

-----------------------------------------------------------------------------------------
-- Slices of ASCII
-----------------------------------------------------------------------------------------

/-- Every character takes one byte. -/
def IsAscii (text : Text) : Prop := ∀ c ∈ text, c.utf8Size = 1

instance (text : Text) : Decidable (IsAscii text) :=
  inferInstanceAs (Decidable (∀ c ∈ text, c.utf8Size = 1))

theorem IsAscii.utf8Len_eq {text : Text} (ascii : IsAscii text) : utf8Len text = text.length := by
  induction text with
  | nil => rfl
  | cons c text ih =>
      rw [utf8Len_cons, ascii c (by simp), ih fun d member => ascii d (by simp [member]),
        List.length_cons, Nat.add_comm]

theorem IsAscii.of_subset {text part : Text} (ascii : IsAscii text) (inside : part ⊆ text)
    : IsAscii part :=
  fun c member => ascii c (inside member)

theorem IsAscii.append {left right : Text} (ascii : IsAscii left) (more : IsAscii right)
    : IsAscii (left ++ right) := by
  intro c member
  rcases List.mem_append.mp member with first | second
  · exact ascii c first
  · exact more c second

theorem IsAscii.sliceTo_eq {text : Text} (ascii : IsAscii text) {stop : Nat}
    (fits : stop ≤ text.length)
    : sliceTo stop text = .ok (text.take stop) := by
  refine sliceTo_eq_ok_iff.mpr ⟨text.drop stop, (List.take_append_drop stop text).symm, ?_⟩
  rw [(ascii.of_subset (List.take_subset stop text)).utf8Len_eq, List.length_take]
  omega

theorem IsAscii.sliceFrom_eq {text : Text} (ascii : IsAscii text) {start : Nat}
    (fits : start ≤ text.length)
    : sliceFrom start text = .ok (text.drop start) := by
  refine sliceFrom_eq_ok_iff.mpr ⟨text.take start, (List.take_append_drop start text).symm, ?_⟩
  rw [(ascii.of_subset (List.take_subset start text)).utf8Len_eq, List.length_take]
  omega

theorem IsAscii.slice_eq {text : Text} (ascii : IsAscii text) {start stop : Nat}
    (order : start ≤ stop) (fits : stop ≤ text.length)
    : slice start stop text = .ok ((text.take stop).drop start) := by
  rw [slice, ascii.sliceTo_eq fits, ok_bind,
    (ascii.of_subset (List.take_subset stop text)).sliceFrom_eq (by simp; omega)]

theorem utf8Size_of_isDigit {c : Char} (digit : c.isDigit = true) : c.utf8Size = 1 := by
  have bounds := bounds_of_isDigit digit
  exact utf8Size_eq_one (by omega)

theorem utf8Size_of_isAlphanum {c : Char} (shown : c.isAlphanum = true) : c.utf8Size = 1 := by
  have bounds := bounds_of_isAlphanum shown
  exact utf8Size_eq_one (by omega)

theorem isAscii_of_digits {text : Text} (digits : text.all Char.isDigit = true)
    : IsAscii text :=
  fun c member => utf8Size_of_isDigit (List.all_eq_true.mp digits c member)

-----------------------------------------------------------------------------------------
-- Bytes of ASCII
-----------------------------------------------------------------------------------------

/-- A character that is encoded in one byte of ASCII. -/
theorem encode_ascii {c : Char} {rest after : Bytes} {byte : UInt8}
    (whole : String.utf8EncodeChar c ++ rest = byte :: after) (ascii : byte < 0x80)
    : c = Char.ofNat byte.toNat ∧ rest = after := by
  obtain ⟨lead, tail, shape, -, -⟩ := utf8EncodeChar_shape c
  rw [shape, List.cons_append] at whole
  obtain ⟨rfl, remains⟩ := List.cons.inj whole
  obtain rfl : tail = [] := by
    by_contra more
    exact (utf8EncodeChar_high shape more).2 ascii
  refine ⟨?_, remains⟩
  have read := fromUtf8Lossy_toUtf8 [c]
  rw [toUtf8_cons, shape, fromUtf8Lossy_eq] at read
  simpa [toUtf8, utf8Items_ascii ascii, Utf8Item.lossy] using read.symm

theorem encode_ofNat {byte : UInt8} (ascii : byte < 0x80)
    : String.utf8EncodeChar (Char.ofNat byte.toNat) = [byte] := by
  have small : byte.toNat < 128 := by simpa [UInt8.lt_iff_toNat_lt] using ascii
  have code : (Char.ofNat byte.toNat).val.toNat = byte.toNat :=
    toNat_charOfNat (.inl (by omega))
  rw [String.utf8EncodeChar, code, if_pos (by omega)]
  simp

theorem toNat_of_utf8Size {c : Char} (ascii : c.utf8Size = 1) : c.toNat < 128 := by
  unfold Char.utf8Size at ascii
  dsimp only at ascii
  split at ascii
  · next small => exact Nat.lt_succ_of_le (UInt32.le_iff_toNat_le.mp small)
  · split at ascii
    · cases ascii
    · split at ascii <;> cases ascii

/-- The bytes of ASCII are its characters, by text induction. -/
theorem toUtf8_ascii {text : Text} (ascii : IsAscii text)
    : toUtf8 text = text.map fun c => UInt8.ofNat c.toNat := by
  induction text with
  | nil => rfl
  | cons c text ih =>
      have small := toNat_of_utf8Size (ascii c (by simp))
      have encoded : String.utf8EncodeChar c = [UInt8.ofNat c.toNat] := by
        have byte := @encode_ofNat (UInt8.ofNat c.toNat) (by
          rw [UInt8.lt_iff_toNat_lt, UInt8.toNat_ofNat']
          show c.toNat % 256 < 128
          omega)
        rw [UInt8.toNat_ofNat', Nat.mod_eq_of_lt (by omega), Char.ofNat_toNat] at byte
        exact byte
      rw [toUtf8_cons, encoded, ih fun d member => ascii d (by simp [member])]
      rfl

theorem byteAt?_of_ascii {text : Text} (ascii : IsAscii text) (index : Nat)
    : byteAt? text index = text[index]?.map fun c => UInt8.ofNat c.toNat := by
  rw [byteAt?, toUtf8_ascii ascii, List.getElem?_map]
/-- A byte of ASCII is a character of its own. -/
theorem exists_ascii_char {text : Text} {before after : Bytes} {byte : UInt8}
    (whole : toUtf8 text = before ++ byte :: after) (ascii : byte < 0x80)
    : ∃ front back,
        text = front ++ Char.ofNat byte.toNat :: back
        ∧ toUtf8 front = before ∧ toUtf8 back = after := by
  have cut := utf8Cut whole
  generalize tail : byte :: after = bytes at cut
  cases cut with
  | @between left right split =>
      cases right with
      | nil => cases tail
      | cons c back =>
          rw [toUtf8_cons] at tail
          obtain ⟨rfl, rest⟩ := encode_ascii tail.symm ascii
          exact ⟨left, back, split, rfl, rest⟩
  | @inside left right c part rest split started unfinished outside high continues =>
      cases rest with
      | nil => exact absurd rfl unfinished
      | cons first rest =>
          obtain ⟨rfl, -⟩ := List.cons.inj tail
          exact absurd ascii (not_ascii_of_continuation (continues byte (by simp)))

theorem utf8Len_of_toUtf8 {text : Text} {bytes : Bytes} (encoded : toUtf8 text = bytes)
    : utf8Len text = bytes.length := by
  rw [← length_toUtf8, encoded]

/-- The byte at a place of a text, when it is of ASCII, is the character there. -/
theorem byteAt?_ascii {text : Text} {index : Nat} {byte : UInt8}
    (found : byteAt? text index = some byte) (ascii : byte < 0x80)
    : ∃ front back, text = front ++ Char.ofNat byte.toNat :: back ∧ utf8Len front = index := by
  obtain ⟨inside, here⟩ := List.getElem?_eq_some_iff.mp found
  have whole := (List.take_append_drop index (toUtf8 text)).symm
  rw [List.drop_eq_getElem_cons inside, here] at whole
  obtain ⟨front, back, split, before, -⟩ := exists_ascii_char whole ascii
  refine ⟨front, back, split, ?_⟩
  rw [utf8Len_of_toUtf8 before, List.length_take]
  omega

theorem memchrIter_append (byte : UInt8) (left right : Bytes)
    : memchrIter byte (left ++ right)
      = memchrIter byte left ++ (memchrIter byte right).map (left.length + ·) := by
  induction left with
  | nil => simp [memchrIter]
  | cons first left ih =>
      have shift (list : List Nat)
          : (list.map (left.length + ·)).map (1 + ·) = list.map (left.length + 1 + ·) := by
        rw [List.map_map]
        exact List.map_congr_left fun place _ => by simp only [Function.comp_apply]; omega
      rw [List.cons_append, memchrIter, memchrIter, ih, List.map_append, shift]
      split <;> rfl

/-- The places of a byte that does not occur. -/
theorem memchrIter_eq_nil {byte : UInt8} {bytes : Bytes} (absent : byte ∉ bytes)
    : memchrIter byte bytes = [] := by
  induction bytes with
  | nil => rfl
  | cons first bytes ih =>
      have other : first ≠ byte := fun same => absent (same ▸ List.mem_cons_self)
      rw [memchrIter, if_neg other, ih fun member => absent (by simp [member])]
      rfl

/-- A character of ASCII whose byte occurs is in the text. -/
theorem not_mem_toUtf8 {text : Text} {byte : UInt8} (ascii : byte < 0x80)
    (absent : Char.ofNat byte.toNat ∉ text)
    : byte ∉ toUtf8 text := by
  intro member
  obtain ⟨before, after, whole⟩ := List.append_of_mem member
  obtain ⟨front, back, rfl, -, -⟩ := exists_ascii_char whole ascii
  exact absent (by simp)

/-- The places of an ASCII character in a text that starts with a character. -/
theorem memchrIter_toUtf8_cons {byte : UInt8} (ascii : byte < 0x80) (c : Char) (text : Text)
    : memchrIter byte (toUtf8 (c :: text))
      = (if c = Char.ofNat byte.toNat then [0] else [])
        ++ (memchrIter byte (toUtf8 text)).map (c.utf8Size + ·) := by
  have size : (String.utf8EncodeChar c).length = c.utf8Size := by simp
  rw [toUtf8_cons, memchrIter_append, size]
  congr 1
  split
  · next same =>
      have encoded := encode_ofNat ascii
      rw [← same] at encoded
      simp [encoded, memchrIter]
  · next other =>
      have absent : byte ∉ toUtf8 [c] := not_mem_toUtf8 ascii (by simpa using Ne.symm other)
      rw [toUtf8_cons] at absent
      exact memchrIter_eq_nil fun member => absent (by simp [member])

end Library
