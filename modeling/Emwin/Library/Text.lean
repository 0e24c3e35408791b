import Emwin.Library.Utf8
import Emwin.Library.Search

/-! The string operations of the Rust standard library that the modelled code calls.
Indices count characters; byte indices appear only where the code measures bytes.
-/

namespace Library

/-- `char::is_whitespace`: the Unicode `White_Space` property, also the regex class `\s`. -/
def isWhitespace (c : Char) : Bool :=
  let code := c.toNat
  (9 ≤ code && code ≤ 13) || code == 0x20 || code == 0x85 || code == 0xA0
  || code == 0x1680 || (0x2000 ≤ code && code ≤ 0x200A) || code == 0x2028
  || code == 0x2029 || code == 0x202F || code == 0x205F || code == 0x3000

/-- `str::trim_end_matches` for a character predicate. -/
def trimEndWhile (drop : Char → Bool) (text : Text) : Text :=
  (text.reverse.dropWhile drop).reverse

/-- `str::trim`. -/
def trim (text : Text) : Text := trimEndWhile isWhitespace (text.dropWhile isWhitespace)

/-- `char::to_ascii_uppercase`: only the ASCII letters change. -/
def asciiUppercase (c : Char) : Char :=
  if 'a' ≤ c ∧ c ≤ 'z' then Char.ofNat (c.toNat - 32) else c

/-- `str::to_ascii_uppercase`. -/
def toAsciiUppercase (text : Text) : Text := text.map asciiUppercase

/-- `str::eq_ignore_ascii_case`. -/
def eqIgnoreAsciiCase (left right : Text) : Bool :=
  toAsciiUppercase left == toAsciiUppercase right

/-- `str::rsplit_once`: the parts around the last occurrence of a character. -/
def rsplitOnce (delimiter : Char) (text : Text) : Option (Text × Text) :=
  match text.reverse.span (· != delimiter) with
  | (_, []) => none
  | (after, _ :: before) => some (before.reverse, after.reverse)

/-- `str::split_once`: the parts around the first occurrence of a character. -/
def splitOnce (delimiter : Char) (text : Text) : Option (Text × Text) :=
  match text.dropWhile (· ≠ delimiter) with
  | [] => none
  | _ :: after => some (text.takeWhile (· ≠ delimiter), after)

/-- Value of a non-empty digit string. -/
def digitsValue? (digits : Text) : Option Nat :=
  if digits ≠ [] ∧ digits.all Char.isDigit then
    some (digits.foldl (fun value digit => 10 * value + (digit.toNat - 48)) 0)
  else none

/-- `str::parse` for an unsigned integer type with `bound` values: decimal digits, possibly
after one plus sign, denoting a value below the bound.
-/
def parseUnsigned (bound : Nat) (text : Text) : Option Nat :=
  let digits := match text with
    | '+' :: digit :: rest => digit :: rest
    | other => other
  (digitsValue? digits).filter (· < bound)

/-- `String::split_off` at a byte offset. The offset has to stand between two characters
of the text; otherwise the call panics, which gives no result.
-/
def splitOff (offset : Nat) (text : Text) : Option (Text × Text) :=
  match text with
  | [] => if offset = 0 then some ([], []) else none
  | c :: rest =>
      if offset = 0 then some ([], c :: rest)
      else if c.utf8Size ≤ offset then
        (splitOff (offset - c.utf8Size) rest).map fun (front, back) => (c :: front, back)
      else none

/-- `Option::ok_or`. -/
def okOr {ε α : Type} (error : ε) : Option α → Except ε α
  | some value => .ok value
  | none => .error error

@[simp] theorem okOr_eq_ok {ε α : Type} {error : ε} {found : Option α} {value : α}
    : okOr error found = .ok value ↔ found = some value := by
  cases found <;> simp [okOr]

theorem mapError_eq_ok {ε ε' α : Type} {f : ε → ε'} {result : Except ε α} {value : α}
    : result.mapError f = .ok value ↔ result = .ok value := by
  cases result <;> simp [Except.mapError]

/-- A chain of fallible steps succeeds when each step does. -/
theorem exceptBind_ok_iff {ε α β : Type} {first : Except ε α} {next : α → Except ε β}
    {result : β}
    : first >>= next = .ok result ↔ ∃ value, first = .ok value ∧ next value = .ok result := by
  cases first <;> simp [bind, Except.bind]

/-- An error that no step of a chain raises is not raised by the chain. -/
theorem exceptBind_ne_error {ε α β : Type} {first : Except ε α} {next : α → Except ε β}
    {error : ε} (here : first ≠ .error error) (later : ∀ value, next value ≠ .error error)
    : first >>= next ≠ .error error := by
  cases first with
  | error other => simpa [bind, Except.bind] using here
  | ok value => exact later value

theorem okOr_ne_error {ε α : Type} {error other : ε} {found : Option α}
    (different : error ≠ other)
    : okOr error found ≠ .error other := by
  cases found <;> simp [okOr, different]

/-- A character of joined texts stands in the separator or in one of them. -/
theorem mem_intercalate {separator : Text} {texts : List Text} {c : Char}
    (member : c ∈ separator.intercalate texts)
    : c ∈ separator ∨ ∃ text ∈ texts, c ∈ text := by
  induction texts with
  | nil => simp at member
  | cons first rest ih =>
      cases rest with
      | nil => exact .inr ⟨first, by simp, by simpa using member⟩
      | cons second rest =>
          rw [List.intercalate_cons_cons, List.append_assoc] at member
          rcases List.mem_append.mp member with inside | later
          · exact .inr ⟨first, by simp, inside⟩
          · rcases List.mem_append.mp later with between | later
            · exact .inl between
            · obtain found | ⟨text, listed, inside⟩ := ih later
              · exact .inl found
              · exact .inr ⟨text, List.mem_cons_of_mem _ listed, inside⟩

theorem not_mem_joined {c separator : Char} {texts : List Text} (other : c ≠ separator)
    (absent : ∀ text ∈ texts, c ∉ text)
    : c ∉ [separator].intercalate texts := by
  intro member
  obtain between | ⟨text, listed, inside⟩ := mem_intercalate member
  · exact other (List.mem_singleton.mp between)
  · exact absent text listed inside

/-- Joined texts that end in another character than the separator end inside a text, by
induction on the texts.
-/
theorem exists_text_ends {separator c : Char} (other : c ≠ separator) {texts : List Text}
    {front : Text} (joined : [separator].intercalate texts = front ++ [c])
    : ∃ text ∈ texts, ∃ start, text = start ++ [c] := by
  induction texts generalizing front with
  | nil => simp at joined
  | cons first rest ih =>
      cases rest with
      | nil => exact ⟨first, by simp, front, by simpa using joined⟩
      | cons second rest =>
          rw [List.intercalate_cons_cons] at joined
          rcases List.eq_nil_or_concat ([separator].intercalate (second :: rest)) with
            empty | ⟨start, last, ends⟩
          · rw [empty, List.append_nil] at joined
            exact absurd (List.singleton_inj.mp (List.append_inj' joined rfl).2).symm other
          · rw [ends, List.concat_eq_append, ← List.append_assoc] at joined
            obtain rfl := List.singleton_inj.mp (List.append_inj' joined rfl).2
            obtain ⟨text, listed, found⟩ := ih (ends.trans (List.concat_eq_append ..))
            exact ⟨text, List.mem_cons_of_mem _ listed, found⟩

/-- Only the characters to drop are trimmed from the end. -/
theorem trimEndWhile_append {drop : Char → Bool} {text dropped : Text}
    (kept : ∀ c ∈ text, drop c = false) (gone : ∀ c ∈ dropped, drop c = true)
    : trimEndWhile drop (text ++ dropped) = text := by
  have back : ∀ c ∈ dropped.reverse, drop c = true := by simpa using gone
  rw [trimEndWhile, List.reverse_append, List.dropWhile_append_of_pos back]
  cases reversed : text.reverse with
  | nil => simpa using reversed.symm
  | cons last rest =>
      have member : last ∈ text.reverse := by simp [reversed]
      have visible : drop last = false := kept last (List.mem_reverse.mp member)
      rw [List.dropWhile_cons_of_neg (by simp [visible]), ← reversed, List.reverse_reverse]

/-- Trimming keeps a last character that is no whitespace. -/
theorem trim_concat {c : Char} (visible : isWhitespace c = false) (text : Text)
    : trim (text ++ [c]) = text.dropWhile isWhitespace ++ [c] := by
  have kept : (text ++ [c]).dropWhile isWhitespace = text.dropWhile isWhitespace ++ [c] := by
    rw [List.dropWhile_append]
    split
    · next empty => simp [visible, List.isEmpty_iff.mp empty]
    · rfl
  rw [trim, kept, trimEndWhile]
  simp [visible]

theorem mem_of_mem_trim {c : Char} {text : Text} (member : c ∈ trim text) : c ∈ text := by
  rw [trim, trimEndWhile, List.mem_reverse] at member
  have back := (List.dropWhile_sublist _).subset member
  exact (List.dropWhile_sublist _).subset (List.mem_reverse.mp back)

/-- What `trim` takes away is blank. -/
theorem exists_trim_append (text : Text)
    : ∃ before after,
        text = before ++ trim text ++ after
        ∧ (∀ c ∈ before, isWhitespace c = true) ∧ ∀ c ∈ after, isWhitespace c = true := by
  refine ⟨text.takeWhile isWhitespace,
    ((text.dropWhile isWhitespace).reverse.takeWhile isWhitespace).reverse, ?_, ?_, ?_⟩
  · rw [trim, trimEndWhile, List.append_assoc, ← List.reverse_append,
      List.takeWhile_append_dropWhile, List.reverse_reverse, List.takeWhile_append_dropWhile]
  · exact List.all_eq_true.mp List.all_takeWhile
  · intro c member
    exact List.all_eq_true.mp List.all_takeWhile c (List.mem_reverse.mp member)

/-- The split is at the last occurrence. -/
theorem rsplitOnce_eq_some_iff {delimiter : Char} {text before after : Text}
    : rsplitOnce delimiter text = some (before, after)
      ↔ text = before ++ delimiter :: after ∧ delimiter ∉ after := by
  have plain (part : Text) : delimiter ∉ part ↔ ∀ c ∈ part.reverse, (c != delimiter) = true := by
    simp only [List.mem_reverse, bne_iff_ne, ne_eq]
    exact ⟨fun absent c member same => absent (same ▸ member),
      fun absent member => absent delimiter member rfl⟩
  rw [rsplitOnce, List.span_eq_takeWhile_dropWhile]
  constructor
  · intro found
    split at found
    · cases found
    · next front last rest split =>
        obtain ⟨rfl, rfl⟩ := Prod.mk.inj (Option.some.inj found)
        obtain ⟨taken, dropped⟩ := Prod.mk.inj split
        have whole : front ++ last :: rest = text.reverse := by
          rw [← taken, ← dropped, List.takeWhile_append_dropWhile]
        have same : last = delimiter := by
          have stop := List.head?_dropWhile_not (· != delimiter) text.reverse
          simpa [dropped] using stop
        refine ⟨?_, (plain _).mpr ?_⟩
        · rw [← List.reverse_reverse text, ← whole, same]
          simp
        · intro c member
          rw [List.reverse_reverse, ← taken] at member
          exact List.all_eq_true.mp List.all_takeWhile c member
  · rintro ⟨rfl, absent⟩
    rw [plain] at absent
    simp only [List.reverse_append, List.reverse_cons, List.append_assoc, List.singleton_append]
    rw [List.takeWhile_append_of_pos absent, List.dropWhile_append_of_pos absent]
    simp

/-- A character that is neither a digit nor the sign spoils a number. -/
theorem parseUnsigned_eq_none {bound : Nat} {text : Text} {c : Char} (member : c ∈ text)
    (noDigit : c.isDigit = false) (noSign : c ≠ '+')
    : parseUnsigned bound text = none := by
  have spoiled {digits : Text} (inside : c ∈ digits) : digitsValue? digits = none := by
    rw [digitsValue?, if_neg]
    rintro ⟨-, all⟩
    simp [List.all_eq_true.mp all c inside] at noDigit
  unfold parseUnsigned
  dsimp only
  split
  · next digit rest =>
      rcases List.mem_cons.mp member with same | inside
      · exact absurd same noSign
      · rw [spoiled inside]
        rfl
  · rw [spoiled member]
    rfl

/-- Without a sign a number is a string of digits with a value below the bound. -/
theorem parseUnsigned_eq_some_iff {bound value : Nat} {text : Text} (unsigned : '+' ∉ text)
    : parseUnsigned bound text = some value ↔ digitsValue? text = some value ∧ value < bound := by
  unfold parseUnsigned
  dsimp only
  split
  · simp at unsigned
  · simp [Option.filter_eq_some_iff]

theorem utf8Len_append (left right : Text)
    : utf8Len (left ++ right) = utf8Len left + utf8Len right := by
  simp [utf8Len]

theorem utf8Len_cons (c : Char) (text : Text)
    : utf8Len (c :: text) = c.utf8Size + utf8Len text := by
  simp [utf8Len]

/-- A prefix with some bytes of a non-empty text starts with its first character. -/
theorem exists_front_cons {c : Char} {rest : Text} {offset : Nat} (positive : offset ≠ 0)
    : (∃ front back, c :: rest = front ++ back ∧ utf8Len front = offset)
      ↔ ∃ front back, rest = front ++ back ∧ c.utf8Size + utf8Len front = offset := by
  constructor
  · rintro ⟨front, back, same, size⟩
    cases front with
    | nil => exact absurd size.symm positive
    | cons head front =>
        obtain ⟨rfl, rfl⟩ := List.cons.inj same
        exact ⟨front, back, rfl, utf8Len_cons _ _ ▸ size⟩
  · rintro ⟨front, back, rfl, size⟩
    exact ⟨c :: front, back, rfl, utf8Len_cons c front ▸ size⟩

/-- The split exists at exactly the offsets between two characters, by text induction. -/
theorem splitOff_isSome_iff (offset : Nat) (text : Text)
    : (splitOff offset text).isSome
      ↔ ∃ front back, text = front ++ back ∧ utf8Len front = offset := by
  induction text generalizing offset with
  | nil =>
      have only : (∃ front back : Text, [] = front ++ back ∧ utf8Len front = offset)
          ↔ offset = 0 := by
        simp [utf8Len, eq_comm]
      rw [only, splitOff]
      split <;> simp [*]
  | cons c rest ih =>
      rw [splitOff]
      split
      · next zero =>
          simp only [Option.isSome_some, true_iff]
          exact ⟨[], c :: rest, rfl, zero.symm⟩
      · next positive =>
          rw [exists_front_cons positive]
          split
          · next inside =>
              rw [Option.isSome_map, ih]
              have shift (front : Text)
                  : utf8Len front = offset - c.utf8Size
                    ↔ c.utf8Size + utf8Len front = offset := by omega
              simp only [shift]
          · next outside =>
              simp only [Option.isSome_none, Bool.false_eq_true, false_iff]
              rintro ⟨front, back, -, size⟩
              omega

/-- What a split gives, by text induction. -/
theorem splitOff_eq_some {offset : Nat} {text front back : Text}
    (split : splitOff offset text = some (front, back))
    : text = front ++ back ∧ utf8Len front = offset := by
  induction text generalizing offset front back with
  | nil =>
      rw [splitOff] at split
      split_ifs at split with zero
      obtain ⟨rfl, rfl⟩ := Prod.mk.inj (Option.some.inj split)
      exact ⟨rfl, zero.symm⟩
  | cons c text ih =>
      rw [splitOff] at split
      split_ifs at split with zero fits
      · obtain ⟨rfl, rfl⟩ := Prod.mk.inj (Option.some.inj split)
        exact ⟨rfl, zero.symm⟩
      · obtain ⟨⟨inner, rest⟩, later, same⟩ := Option.map_eq_some_iff.mp split
        obtain ⟨rfl, rfl⟩ := Prod.mk.inj same
        obtain ⟨whole, length⟩ := ih later
        rw [whole, utf8Len_cons]
        exact ⟨List.cons_append.symm, by omega⟩

end Library
