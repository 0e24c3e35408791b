import Emwin.Parser.UgcWriting

/-! What is written between separators is read as the numbers that it was written from. -/

namespace Emwin.Parser
open Library

-----------------------------------------------------------------------------------------
-- Numbers
-----------------------------------------------------------------------------------------

namespace UgcNumbers

theorem isUgcToken_of_mem {numbers : UgcNumbers} {token : Text} (member : token ∈ numbers.tokens)
    : IsUgcToken token := by
  cases numbers with
  | single number bound =>
      rw [List.mem_singleton.mp member]
      exact isUgcToken_threePlaces bound
  | ranges first more =>
      obtain ⟨range, -, inside⟩ := List.mem_flatMap.mp member
      simp only [UgcRange.tokens, List.mem_cons, List.not_mem_nil, or_false] at inside
      rcases inside with rfl | rfl
      · exact isUgcToken_threePlaces range.first_le
      · exact range.isUgcToken_end

/-- The first number has three digits. -/
theorem exists_first (numbers : UgcNumbers)
    : ∃ number rest, number ≤ 999 ∧ numbers.tokens = threePlaces number :: rest := by
  cases numbers with
  | single number bound => exact ⟨number, [], bound, rfl⟩
  | ranges first more => exact ⟨first.first, _, first.first_le, rfl⟩

theorem splitOn_text (numbers : UgcNumbers) : numbers.text.splitOn '>' = numbers.tokens := by
  obtain ⟨number, rest, -, same⟩ := numbers.exists_first
  refine List.splitOn_intercalate '>' (fun token member => ?_) (by simp [same])
  exact (isUgcToken_of_mem member).noMark

theorem length_tokens_ranges (ranges : List UgcRange)
    : (ranges.flatMap UgcRange.tokens).length = 2 * ranges.length := by
  rw [List.length_flatMap]
  simp [UgcRange.tokens, Nat.mul_comm]

theorem isUgcNumericSequence_text (numbers : UgcNumbers)
    : isUgcNumericSequence numbers.text = true := by
  obtain ⟨number, rest, bound, same⟩ := numbers.exists_first
  rw [isUgcNumericSequence, splitOn_text, same]
  have others : rest.all isOneToThreeDigitUgcToken = true := List.all_eq_true.mpr
    fun token member => (@isUgcToken_of_mem numbers token (by simp [same, member])).accepted
  have count : rest.length = 0 ∨ rest.length % 2 = 1 := by
    have whole := congrArg List.length same
    rw [List.length_cons] at whole
    cases numbers with
    | single number bound =>
        rw [tokens, List.length_singleton] at whole
        omega
    | ranges first more =>
        rw [tokens, length_tokens_ranges, List.length_cons] at whole
        omega
  simp only [isThreeDigitUgcToken_threePlaces bound, others, Bool.and_true, Bool.true_and,
    Bool.or_eq_true, decide_eq_true_eq]
  omega

/-- The ranges are read pair by pair, by induction on them. -/
theorem parseUgcRangePairs_tokens (ranges : List UgcRange)
    : parseUgcRangePairs (ranges.flatMap UgcRange.tokens)
      = .ok (some (ranges.map fun range => (range.first, range.last))) := by
  induction ranges with
  | nil => rfl
  | cons range rest ih =>
      simp only [List.flatMap_cons, UgcRange.tokens, List.cons_append, List.nil_append]
      rw [parseUgcRangePairs, UgcRange.startToken, parseUgcNumber_threePlaces range.first_le]
      simp only [range.parseUgcRangeEnd_eq, ok_bind]
      rw [ih]
      rfl

theorem parseUgcNumericRanges_text (numbers : UgcNumbers)
    : parseUgcNumericRanges numbers.text = .ok (some numbers.pairs) := by
  rw [parseUgcNumericRanges, splitOn_text]
  cases numbers with
  | single number bound =>
      simp only [tokens, parseUgcNumber_threePlaces bound]
      rfl
  | ranges first more =>
      cases more with
      | nil =>
          simp only [tokens, List.flatMap_cons, List.flatMap_nil, UgcRange.tokens,
            UgcRange.startToken, List.append_nil, parseUgcNumber_threePlaces first.first_le,
            first.parseUgcRangeEnd_eq]
          rfl
      | cons second more =>
          have even := length_tokens_ranges (first :: second :: more)
          have pairs := parseUgcRangePairs_tokens (first :: second :: more)
          simp only [tokens] at even pairs ⊢
          simp only [List.flatMap_cons, UgcRange.tokens, UgcRange.startToken, List.cons_append,
            List.nil_append, parseUgcNumber_threePlaces first.first_le] at even pairs ⊢
          rw [if_neg (by omega)]
          exact pairs

end UgcNumbers

-----------------------------------------------------------------------------------------
-- Pieces
-----------------------------------------------------------------------------------------

/-- The text of numbers is made of digits and range marks. -/
theorem UgcNumbers.text_chars (numbers : UgcNumbers)
    : ∀ c ∈ numbers.text, c.isDigit = true ∨ c = '>' := by
  intro c member
  obtain mark | ⟨token, listed, inside⟩ := mem_intercalate member
  · exact .inr (List.mem_singleton.mp mark)
  · exact .inl (List.all_eq_true.mp (isUgcToken_of_mem listed).digits c inside)

/-- The text of numbers starts with three digits, and goes on with a mark if it does. -/
theorem UgcNumbers.exists_text (numbers : UgcNumbers)
    : ∃ number more,
        number ≤ 999 ∧ numbers.text = threePlaces number ++ more ∧ more.head?.all (· = '>') := by
  obtain ⟨number, rest, bound, same⟩ := numbers.exists_first
  rw [text, same]
  cases rest with
  | nil => exact ⟨number, [], bound, by simp, rfl⟩
  | cons second rest =>
      refine ⟨number, _, bound, by rw [List.intercalate_cons_cons, List.append_assoc], ?_⟩
      rfl

theorem UgcClass.asChar_spec {geoclass : UgcClass} (known : geoclass ≠ .unknown)
    : isUgcClassLetter geoclass.asChar = true ∧ UgcClass.fromChar geoclass.asChar = geoclass
      ∧ geoclass.asChar.isUpper = true := by
  cases geoclass with
  | unknown => exact absurd rfl known
  | county => decide
  | zone => decide
  | fireZone => decide
  | marine => decide

namespace UgcPiece

variable (piece : UgcPiece)

theorem isPieceChar_text : ∀ c ∈ piece.text, isPieceChar c = true := by
  intro c member
  rw [text, List.mem_append] at member
  rcases member with inPrefix | inNumbers
  · have letter : c.isUpper = true := by
      split at inPrefix
      · rcases List.mem_append.mp inPrefix with state | geoclass
        · exact List.all_eq_true.mp piece.letters.2 c state
        · rw [List.mem_singleton.mp geoclass]
          exact (UgcClass.asChar_spec piece.known).2.2
      · cases inPrefix
    simp [isPieceChar, letter]
  · rcases piece.numbers.text_chars c inNumbers with digit | rfl
    · simp [isPieceChar, digit]
    · rfl

theorem inBlock_text : InBlock piece.text := by
  intro c member
  rw [isBlockChar, piece.isPieceChar_text c member, Bool.true_or]

theorem noSeparator : ∀ c ∈ piece.text, isUgcSeparator c = false := by
  intro c member
  have bounds := pieceChar_bounds (piece.isPieceChar_text c member)
  have other {separator : Char} (low : separator.toNat < 48) : decide (c = separator) = false := by
    refine decide_eq_false ?_
    rintro rfl
    omega
  rw [isUgcSeparator, other (by decide), other (by decide)]
  rfl

theorem text_ne_nil : piece.text ≠ [] := by
  obtain ⟨number, more, -, same, -⟩ := piece.numbers.exists_text
  rw [text, same]
  simp [threePlaces]

theorem isAscii_text : IsAscii piece.text :=
  fun c member => blockChar_ascii (piece.inBlock_text c member)

/-- A piece with its state and class written. -/
theorem parseFullUgcSegment_prefixed (written : piece.prefixed = true)
    : parseFullUgcSegment piece.text
      = .ok (some (piece.state, piece.geoclass, piece.numbers.text)) := by
  obtain ⟨letter, back, -⟩ := UgcClass.asChar_spec piece.known
  obtain ⟨number, more, bound, same, -⟩ := piece.numbers.exists_text
  have ascii := piece.isAscii_text
  have whole : piece.text = piece.state ++ (piece.geoclass.asChar :: piece.numbers.text) := by
    rw [text, if_pos written, List.append_assoc]
    rfl
  have length : 6 ≤ piece.text.length := by
    rw [whole, same]
    simp only [List.length_append, List.length_cons, piece.letters.1, threePlaces]
    omega
  have front : piece.text.take 2 = piece.state := by
    rw [whole, List.take_left' piece.letters.1]
  have behind : piece.text.drop 3 = piece.numbers.text := by
    rw [whole, List.append_cons, List.drop_left']
    simp [piece.letters.1]
  have third : piece.text[2]? = some piece.geoclass.asChar := by
    rw [whole, List.getElem?_append_right piece.letters.1.le, piece.letters.1]
    rfl
  have byte : Char.ofNat (UInt8.ofNat piece.geoclass.asChar.toNat).toNat
      = piece.geoclass.asChar := by
    cases piece.geoclass <;> rfl
  rw [parseFullUgcSegment, if_neg (by rw [ascii.utf8Len_eq]; omega),
    ascii.sliceTo_eq (by omega), front, ok_bind, byteAt?_of_ascii ascii, third, Option.map_some]
  dsimp only
  rw [byte, piece.letters.2, letter, ascii.sliceFrom_eq (by omega), behind]
  simp only [Bool.not_true, Bool.false_eq_true, if_false, ok_bind,
    piece.numbers.isUgcNumericSequence_text, if_true, back]
  rfl

/-- Numbers alone are not a state and a class. -/
theorem parseFullUgcSegment_bare (bare : piece.prefixed = false)
    : parseFullUgcSegment piece.text = .ok none := by
  obtain ⟨number, more, bound, same, -⟩ := piece.numbers.exists_text
  have ascii := piece.isAscii_text
  have whole : piece.text = threePlaces number ++ more := by
    rw [text, bare, ← same]
    rfl
  rw [parseFullUgcSegment]
  split
  · rfl
  · next long =>
      rw [ascii.utf8Len_eq] at long
      have digit := threePlaces_digits bound
      have lower : (piece.text.take 2).all Char.isUpper = false := by
        have first : (Nat.digitChar (number / 100)).isDigit = true :=
          (digitChar_spec (by omega)).1
        have upper : (Nat.digitChar (number / 100)).isUpper = false := by
          have all : ∀ digit < 10, (Nat.digitChar digit).isUpper = false := by decide
          exact all _ (by omega)
        rw [whole]
        simp [threePlaces, upper]
      rw [ascii.sliceTo_eq (by omega), ok_bind]
      split
      · rfl
      · rw [lower]
        rfl

theorem trim_text : trim piece.text = piece.text :=
  IsWord.trim_eq
    ⟨piece.text_ne_nil, fun c member => blockChar_visible (piece.inBlock_text c member)⟩

/-- A piece is read as its items, under the state and class that are written or known. -/
theorem parseUgcSegment_text {previous : Option (Text × UgcClass)}
    (prefixes : piece.prefixed = true ∨ previous = some (piece.state, piece.geoclass))
    : parseUgcSegment piece.text previous
      = .ok (some (piece.numbers.pairs.flatMap (ugcCodesOf piece.state piece.geoclass),
          piece.state, piece.geoclass)) := by
  have parts : ugcSegmentParts piece.text previous
      = .ok (some (piece.state, piece.geoclass, piece.numbers.text)) := by
    rw [ugcSegmentParts]
    cases written : piece.prefixed with
    | true =>
        rw [piece.parseFullUgcSegment_prefixed written]
        rfl
    | false =>
        rw [piece.parseFullUgcSegment_bare written, ok_bind]
        have numbers : piece.text = piece.numbers.text := by
          rw [text, written]
          rfl
        have known : previous = some (piece.state, piece.geoclass) := by
          simpa [written] using prefixes
        simp only [numbers, piece.numbers.isUgcNumericSequence_text, if_true, known,
          Option.map_some]
        rfl
  rw [parseUgcSegment, parts]
  simp only [ok_bind, piece.numbers.parseUgcNumericRanges_text]
  rfl

end UgcPiece

-----------------------------------------------------------------------------------------
-- Codes
-----------------------------------------------------------------------------------------

/-- The codes of an item. -/
def UgcItem.codes (item : UgcItem) : List UgcCode :=
  ugcCodesOf item.state item.geoclass (item.first, item.last)

/-- The pieces are read one after the other, by induction on them. -/
theorem expandUgcSegments_pieces {pieces : List UgcPiece}
    {previous : Option (Text × UgcClass)} (prefixes : PrefixesWritten previous pieces)
    : expandUgcSegments previous (pieces.map UgcPiece.text)
      = .ok (some ((pieces.flatMap UgcPiece.items).flatMap UgcItem.codes)) := by
  induction pieces generalizing previous with
  | nil => rfl
  | cons piece rest ih =>
      have codes : piece.items.flatMap UgcItem.codes
          = piece.numbers.pairs.flatMap (ugcCodesOf piece.state piece.geoclass) := by
        rw [UgcPiece.items, List.flatMap_map]
        rfl
      rw [List.map_cons, expandUgcSegments, if_neg piece.text_ne_nil, piece.trim_text,
        piece.parseUgcSegment_text prefixes.1]
      simp only [ok_bind, ih prefixes.2]
      rw [List.flatMap_cons, List.flatMap_append, codes]
      rfl

/-- A block without its expiration time and the separator in front of it. -/
def codeBlock : List UgcPiece → Text
  | [] => []
  | [piece] => piece.text
  | piece :: next :: rest => piece.text ++ piece.separator :: codeBlock (next :: rest)

/-- The block comes apart at its separators, by induction on the pieces. -/
theorem splitOnP_codeBlock {pieces : List UgcPiece} (nonempty : pieces ≠ [])
    : (codeBlock pieces).splitOnP isUgcSeparator = pieces.map UgcPiece.text := by
  induction pieces with
  | nil => exact absurd rfl nonempty
  | cons piece rest ih =>
      cases rest with
      | nil => exact List.splitOnP_eq_singleton piece.noSeparator
      | cons next rest =>
          have separator : isUgcSeparator piece.separator = true := by
            rcases piece.separates with same | ⟨same, -⟩ <;> rw [same] <;> rfl
          rw [codeBlock, List.splitOnP_append_cons_of_forall_mem piece.noSeparator _ separator,
            ih (by simp)]
          rfl

theorem codes_ne_nil (block : UgcBlock)
    : (block.pieces.flatMap UgcPiece.items).flatMap UgcItem.codes ≠ [] := by
  obtain ⟨piece, rest, same⟩ := List.exists_cons_of_ne_nil block.nonempty
  rw [same]
  have code : ∀ item : UgcItem, item.first ≤ item.last → item.codes ≠ [] := by
    intro item order
    rw [UgcItem.codes, ugcCodesOf, ne_eq, List.map_eq_nil_iff, List.range_eq_nil]
    dsimp only
    omega
  cases numbers : piece.numbers with
  | single number bound =>
      simp [UgcPiece.items, numbers, UgcNumbers.pairs, code]
  | ranges first more =>
      simp [UgcPiece.items, numbers, UgcNumbers.pairs, code, first.order]

theorem expandUgcBlock_codeBlock (block : UgcBlock)
    : expandUgcBlock (codeBlock block.pieces)
      = .ok (some ((block.pieces.flatMap UgcPiece.items).flatMap UgcItem.codes)) := by
  rw [expandUgcBlock, splitOnP_codeBlock block.nonempty, expandUgcSegments_pieces block.prefixes,
    ok_bind, Option.filter_some, if_pos (by simpa using codes_ne_nil block)]
  rfl

-----------------------------------------------------------------------------------------
-- Expiration times
-----------------------------------------------------------------------------------------

/-- An expiration time between separators at the end. -/
def EndsInExpiry (text : Text) : Prop :=
  ∃ front digits,
    text = front ++ ('-' :: (digits ++ ['-'])) ∧ digits.length = 6
    ∧ digits.all Char.isDigit = true

theorem inBlock_isAscii {text : Text} (inBlock : InBlock text) : IsAscii text :=
  fun c member => blockChar_ascii (inBlock c member)

/-- The test for an expiration time of a text of at least eight bytes. -/
theorem hasUgcExpirationSuffix_eight {front : Text} {a b c d e f g h : Char}
    (ascii : IsAscii (front ++ [a, b, c, d, e, f, g, h]))
    : hasUgcExpirationSuffix (front ++ [a, b, c, d, e, f, g, h])
      = .ok (decide (h = '-' ∧ [b, c, d, e, f, g].all Char.isDigit = true ∧ a = '-')) := by
  have length : (front ++ [a, b, c, d, e, f, g, h]).length = front.length + 8 := by simp
  have last : (front ++ [a, b, c, d, e, f, g, h]).getLast? = some h := by simp
  have middle : ((front ++ [a, b, c, d, e, f, g, h]).take (front.length + 8 - 1)).drop
      (front.length + 8 - 7) = [b, c, d, e, f, g] := by
    rw [show front.length + 8 - 1 = front.length + 7 by omega,
      show front.length + 8 - 7 = front.length + 1 by omega, List.take_length_add_append,
      List.drop_length_add_append]
    rfl
  have eighth : (front ++ [a, b, c, d, e, f, g, h])[front.length + 8 - 8]? = some a := by
    simp
  have small := toNat_of_utf8Size (ascii a (by simp))
  have byte : (some (UInt8.ofNat a.toNat) == some (45 : UInt8)) = decide (a = '-') := by
    by_cases same : a = '-'
    · rw [same]
      rfl
    · have other : UInt8.ofNat a.toNat ≠ 45 := by
        intro equal
        have number := congrArg UInt8.toNat equal
        rw [UInt8.toNat_ofNat', Nat.mod_eq_of_lt (by omega)] at number
        exact same (Char.ext (UInt32.toNat_inj.mp number))
      simp [same, other]
  rw [hasUgcExpirationSuffix, ascii.utf8Len_eq, length, last]
  by_cases ends : h = '-'
  · rw [if_neg (by simp [ends]), ascii.slice_eq (by omega) (by omega), ok_bind, middle,
      byteAt?_of_ascii ascii, eighth, Option.map_some, byte]
    simp [ends]
    rfl
  · rw [if_pos (by simp [ends])]
    simp [ends]
    rfl

theorem hasUgcExpirationSuffix_spec {text : Text} (ascii : IsAscii text)
    : ∃ complete,
        hasUgcExpirationSuffix text = .ok complete ∧ (complete = true ↔ EndsInExpiry text) := by
  by_cases long : 8 ≤ text.length
  · obtain ⟨front, back, rfl, size⟩ : ∃ front back, text = front ++ back ∧ back.length = 8 :=
      ⟨text.take (text.length - 8), text.drop (text.length - 8),
        (List.take_append_drop _ _).symm, by rw [List.length_drop]; omega⟩
    obtain ⟨a, b, c, d, e, f, g, h, rfl⟩ : ∃ a b c d e f g h, back = [a, b, c, d, e, f, g, h] := by
      match back, size with
      | [a, b, c, d, e, f, g, h], _ => exact ⟨a, b, c, d, e, f, g, h, rfl⟩
    refine ⟨_, hasUgcExpirationSuffix_eight ascii, ?_⟩
    rw [decide_eq_true_iff]
    constructor
    · rintro ⟨rfl, digits, rfl⟩
      exact ⟨front, [b, c, d, e, f, g], rfl, rfl, digits⟩
    · rintro ⟨start, digits, same, six, all⟩
      obtain ⟨-, same⟩ := List.append_inj' same (by simp [six])
      obtain ⟨rfl, rest⟩ := List.cons.inj same
      have split : [b, c, d, e, f, g] = digits ∧ [h] = ['-'] :=
        List.append_inj' (show [b, c, d, e, f, g] ++ [h] = digits ++ ['-'] from rest) rfl
      exact ⟨List.singleton_inj.mp split.2, split.1 ▸ all, rfl⟩
  · refine ⟨false, ?_, ?_⟩
    · rw [hasUgcExpirationSuffix, ascii.utf8Len_eq, if_pos (by omega)]
      rfl
    · simp only [Bool.false_eq_true, false_iff]
      rintro ⟨front, digits, rfl, six, -⟩
      simp [six] at long

theorem expiryText_digits (expires : UtcTime)
    : (expiryText expires).length = 6 ∧ (expiryText expires).all Char.isDigit = true := by
  have clock := clock_bounds expires
  have valid := dateOf_valid expires
  have days := le_trans valid.2.2 (monthLength_bounds _ _).2
  refine ⟨rfl, ?_⟩
  rw [expiryText, List.all_append, List.all_append, twoPlaces_digits (by omega),
    twoPlaces_digits (by omega), twoPlaces_digits (by omega)]
  rfl

/-- No piece looks like an expiration time. -/
theorem UgcPiece.not_expiry (piece : UgcPiece) (six : piece.text.length = 6)
    (digits : piece.text.all Char.isDigit = true)
    : False := by
  cases written : piece.prefixed with
  | true =>
      obtain ⟨two, upper⟩ := piece.letters
      obtain ⟨first, rest, same⟩ :=
        List.exists_cons_of_length_pos (by omega : 0 < piece.state.length)
      have member : first ∈ piece.text := by simp [text, written, same]
      have digit := List.all_eq_true.mp digits first member
      have letter := List.all_eq_true.mp upper first (by simp [same])
      rw [not_isUpper_of_isDigit digit] at letter
      cases letter
  | false =>
      have same : piece.text = piece.numbers.text := by
        rw [text, written]
        rfl
      rw [same] at six digits
      cases numbers : piece.numbers with
      | single number bound =>
          rw [numbers] at six
          simp [UgcNumbers.text, UgcNumbers.tokens, threePlaces] at six
      | ranges first more =>
          have mark : '>' ∈ piece.numbers.text := by
            rw [numbers, UgcNumbers.text, UgcNumbers.tokens, List.flatMap_cons, UgcRange.tokens]
            simp [List.intercalate_cons_cons]
          exact absurd (List.all_eq_true.mp digits '>' mark) (by decide)

end Emwin.Parser
