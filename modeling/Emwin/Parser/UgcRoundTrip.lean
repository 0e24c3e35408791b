import Emwin.Parser.Exact
import Emwin.Parser.UgcReading

/-! Blocks of counties and zones are read as the lists that they were written from. -/

namespace Emwin.Parser
open Library

-----------------------------------------------------------------------------------------
-- Lines
-----------------------------------------------------------------------------------------

section Written

variable (expires : UtcTime)

/-- The lines from a list of pieces on, behind what the current line has so far. -/
def writtenLines (line : Text) : List UgcPiece → List Text
  | [] => [line ++ expiryText expires ++ ['-']]
  | piece :: rest =>
      let here := line ++ piece.text ++ [piece.separator]
      if piece.wrapped then here :: writtenLines [] rest else writtenLines here rest

/-- The rest of a block without its line ends. -/
def flatText (pieces : List UgcPiece) : Text :=
  pieces.flatMap (fun piece => piece.text ++ [piece.separator]) ++ (expiryText expires ++ ['-'])

theorem UgcPiece.isUgcSeparator_separator (piece : UgcPiece)
    : isUgcSeparator piece.separator = true := by
  rcases piece.separates with same | ⟨same, -⟩ <;> rw [same] <;> rfl

theorem UgcPiece.inBlock_separated (piece : UgcPiece)
    : InBlock (piece.text ++ [piece.separator]) := by
  refine piece.inBlock_text.append fun c member => ?_
  rw [List.mem_singleton.mp member, isBlockChar, piece.isUgcSeparator_separator, Bool.or_true]

theorem inBlock_nil : InBlock [] := fun _ member => absurd member List.not_mem_nil

theorem inBlock_expiry : InBlock (expiryText expires ++ ['-']) := by
  refine (inBlock_of_digits (expiryText_digits expires).2).append fun c member => ?_
  rw [List.mem_singleton.mp member]
  rfl

theorem InBlock.plain {text : Text} (inBlock : InBlock text) : Plain text :=
  ⟨fun member => absurd (inBlock _ member) (by decide),
    fun member => absurd (inBlock _ member) (by decide)⟩

/-- The lines of the text of some pieces, by induction on them. -/
theorem linesFrom_piecesText {line : Text} (inBlock : InBlock line) (pieces : List UgcPiece)
    : linesFrom line (piecesText expires pieces) = writtenLines expires line pieces := by
  induction pieces generalizing line with
  | nil =>
      have last := (inBlock_expiry expires).plain.1
      have text : piecesText expires [] = expiryText expires ++ ['-'] := by simp [piecesText]
      rw [text, linesFrom_last last (by simp), writtenLines, List.append_assoc]
  | cons piece rest ih =>
      have separated := piece.inBlock_separated
      have text : piecesText expires (piece :: rest)
          = (piece.text ++ [piece.separator])
            ++ ((if piece.wrapped then ['\n'] else []) ++ piecesText expires rest) := by
        simp [piecesText]
      rw [text, writtenLines, List.append_assoc line]
      cases wrapped : piece.wrapped with
      | true =>
          simp only [if_true, List.singleton_append]
          rw [linesFrom_append (inBlock.append separated).plain]
          exact congrArg _ (ih inBlock_nil)
      | false =>
          simp only [Bool.false_eq_true, if_false, List.nil_append]
          rw [linesFrom_part separated.plain.1, ih (inBlock.append separated)]

/-- The lines are those of a block, by induction on the pieces. -/
theorem inBlock_writtenLines {line : Text} (inBlock : InBlock line) (pieces : List UgcPiece)
    : ∀ written ∈ writtenLines expires line pieces, InBlock written := by
  induction pieces generalizing line with
  | nil =>
      intro written member
      rw [List.mem_singleton.mp member, List.append_assoc]
      exact inBlock.append (inBlock_expiry expires)
  | cons piece rest ih =>
      have here : InBlock (line ++ piece.text ++ [piece.separator]) := by
        rw [List.append_assoc]
        exact inBlock.append piece.inBlock_separated
      intro written member
      rw [writtenLines] at member
      split at member
      · rcases List.mem_cons.mp member with rfl | later
        · exact here
        · exact ih inBlock_nil written later
      · exact ih here written member

/-- The current line goes on, by induction on the pieces. -/
theorem prefix_writtenLines {line first : Text} {pieces : List UgcPiece} {others : List Text}
    (written : writtenLines expires line pieces = first :: others)
    : line <+: first := by
  induction pieces generalizing line with
  | nil =>
      obtain ⟨rfl, -⟩ := List.cons.inj written
      rw [List.append_assoc]
      exact List.prefix_append _ _
  | cons piece rest ih =>
      rw [writtenLines] at written
      split at written
      · obtain ⟨rfl, -⟩ := List.cons.inj written
        rw [List.append_assoc]
        exact List.prefix_append _ _
      · refine List.IsPrefix.trans ?_ (ih written)
        rw [List.append_assoc]
        exact List.prefix_append _ _

theorem exists_writtenLines (line : Text) (pieces : List UgcPiece)
    : ∃ first others, writtenLines expires line pieces = first :: others := by
  induction pieces generalizing line with
  | nil => exact ⟨_, _, rfl⟩
  | cons piece rest ih =>
      rw [writtenLines]
      split
      · exact ⟨_, _, rfl⟩
      · exact ih _

theorem iterCandidateLines_piecesText (pieces : List UgcPiece)
    : iterCandidateLines (piecesText expires pieces) = writtenLines expires [] pieces := by
  rw [iterCandidateLines, lines, linesFrom_piecesText expires inBlock_nil]
  refine (List.map_congr_left fun written member => ?_).trans (List.map_id _)
  have plain := (inBlock_writtenLines expires inBlock_nil pieces written member).plain.2
  have kept : ∀ c ∈ written, decide (c = '\r') = false :=
    fun c inside => decide_eq_false fun same => plain (same ▸ inside)
  have whole := trimEndWhile_append kept fun c none => absurd none List.not_mem_nil
  rwa [List.append_nil] at whole

/-- A line that starts with a piece is no section heading, and starts a block if the state and
class are written.
-/
theorem starts_with_piece (piece : UgcPiece) {rest : Text}
    (inBlock : InBlock (piece.text ++ piece.separator :: rest))
    : (piece.prefixed = true → isUgcStart (piece.text ++ piece.separator :: rest) = true)
      ∧ (piece.prefixed = false → ∃ digit, digit.isDigit = true
          ∧ (piece.text ++ piece.separator :: rest).head? = some digit) := by
  obtain ⟨number, more, bound, same, follows⟩ := piece.numbers.exists_text
  have hundreds := (@digitChar_spec (number / 100) (by omega)).1
  have tens := (@digitChar_spec (number / 10 % 10) (by omega)).1
  have ones := (@digitChar_spec (number % 10) (by omega)).1
  constructor
  · intro written
    obtain ⟨two, upper⟩ := piece.letters
    obtain ⟨a, b, letters⟩ : ∃ a b, piece.state = [a, b] := by
      match piece.state, two with
      | [a, b], _ => exact ⟨a, b, rfl⟩
    obtain ⟨next, tail, behind, follower⟩ : ∃ next tail,
        more ++ piece.separator :: rest = next :: tail
        ∧ isUgcFollower (UInt8.ofNat next.toNat) = true := by
      cases more with
      | nil =>
          refine ⟨piece.separator, rest, rfl, ?_⟩
          rcases piece.separates with same | ⟨same, -⟩ <;> rw [same] <;> rfl
      | cons mark more =>
          have range : mark = '>' := by simpa using follows
          exact ⟨mark, more ++ piece.separator :: rest, rfl, by rw [range]; rfl⟩
    have whole : piece.text ++ piece.separator :: rest
        = a :: b :: piece.geoclass.asChar :: Nat.digitChar (number / 100)
          :: Nat.digitChar (number / 10 % 10) :: Nat.digitChar (number % 10) :: next :: tail := by
      rw [UgcPiece.text, if_pos written, same, letters, ← behind]
      simp [threePlaces]
    rw [letters] at upper
    have first : a.isUpper = true ∧ b.isUpper = true := by simpa using upper
    have ascii := inBlock_isAscii inBlock
    have shown : isWhitespace a = false := blockChar_visible (inBlock a (by simp [whole]))
    rw [whole] at ascii ⊢
    rw [isUgcStart, trimStart, List.dropWhile_cons_of_neg (by simp [shown])]
    dsimp only
    rw [byteAt?_of_ascii ascii]
    simp [first, hundreds, tens, ones, (UgcClass.asChar_spec piece.known).1, follower]
  · intro bare
    refine ⟨_, hundreds, ?_⟩
    rw [UgcPiece.text, bare, same]
    rfl

/-- A line of a block that starts with a piece or with the expiration time does not end it. -/
theorem not_header {line : Text} (inBlock : InBlock line)
    (starts : isUgcStart line = true
      ∨ ∃ digit : Char, digit.isDigit = true ∧ line.head? = some digit)
    : ugcStartsNewSectionHeader line = false := by
  have visible : ∀ c ∈ line, isWhitespace c = false := fun c member =>
    blockChar_visible (inBlock c member)
  have trimmed : trim line = line :=
    trim_eq_self (fun c member => visible c (List.mem_of_head? member))
      fun c member => visible c (List.mem_of_getLast? member)
  have noDots : ¬ "...".toList <:+: line := fun dots =>
    absurd (inBlock '.' (dots.subset (by decide))) (by decide)
  have noColon : line.getLast? ≠ some ':' := fun last =>
    absurd (inBlock ':' (List.mem_of_getLast? last)) (by decide)
  rw [ugcStartsNewSectionHeader, trimmed]
  split
  · rfl
  · next nonempty =>
      rw [if_neg (not_or.mpr ⟨noColon, noDots⟩)]
      rcases starts with start | ⟨digit, isDigit, head⟩
      · rw [start]
        rfl
      · have word : splitWhitespace line = [line] := by
          rw [splitWhitespace, List.splitOnP_eq_singleton visible]
          simp [nonempty]
        have lower := not_isUpper_of_isDigit isDigit
        rw [word, List.head?_cons, Option.getD_some, isHeaderToken, head]
        simp [lower]

/-- The first line from a piece on starts with the piece. -/
theorem exists_head {first : Text} {piece : UgcPiece} {rest : List UgcPiece} {others : List Text}
    (written : writtenLines expires [] (piece :: rest) = first :: others)
    : ∃ more, first = piece.text ++ piece.separator :: more := by
  have start : piece.text ++ [piece.separator] <+: first := by
    rw [writtenLines] at written
    split at written
    · obtain ⟨rfl, -⟩ := List.cons.inj written
      exact List.prefix_rfl
    · exact prefix_writtenLines expires written
  obtain ⟨more, rfl⟩ := start
  exact ⟨more, by simp⟩

/-- The first line from some pieces on does not end a block. -/
theorem head_writtenLines {first : Text} {pieces : List UgcPiece} {others : List Text}
    (written : writtenLines expires [] pieces = first :: others)
    : first ≠ [] ∧ ugcStartsNewSectionHeader first = false := by
  have inBlock : InBlock first :=
    inBlock_writtenLines expires inBlock_nil pieces first (by rw [written]; simp)
  cases pieces with
  | nil =>
      obtain ⟨rfl, -⟩ := List.cons.inj written
      obtain ⟨six, digits⟩ := expiryText_digits expires
      obtain ⟨digit, rest, same⟩ :=
        List.exists_cons_of_length_pos (by omega : 0 < (expiryText expires).length)
      refine ⟨by simp, not_header inBlock (.inr ⟨digit, ?_, by rw [same]; rfl⟩)⟩
      exact List.all_eq_true.mp digits digit (by simp [same])
  | cons piece rest =>
      obtain ⟨more, rfl⟩ := exists_head expires written
      obtain ⟨whole, bare⟩ := starts_with_piece piece inBlock
      refine ⟨by simp, not_header inBlock ?_⟩
      cases prefixes : piece.prefixed with
      | true => exact .inl (whole prefixes)
      | false => exact .inr (bare prefixes)

-----------------------------------------------------------------------------------------
-- Candidates
-----------------------------------------------------------------------------------------

/-- Nothing, or something up to a separator. -/
def EndsInSeparator (text : Text) : Prop :=
  text = [] ∨ ∃ front separator, isUgcSeparator separator = true ∧ text = front ++ [separator]

/-- What stands behind the last separator. -/
theorem last_piece {front behind : Text} {separator : Char}
    (separates : isUgcSeparator separator = true)
    (free : ∀ c ∈ behind, isUgcSeparator c = false)
    : ((front ++ separator :: behind).reverse.takeWhile (!isUgcSeparator ·)).reverse = behind := by
  have back : ∀ c ∈ behind.reverse, (!isUgcSeparator c) = true := by
    intro c member
    rw [free c (List.mem_reverse.mp member)]
    rfl
  rw [List.reverse_append, List.reverse_cons, List.append_assoc,
    List.takeWhile_append_of_pos back, List.singleton_append,
    List.takeWhile_cons_of_neg (by simp [separates]), List.append_nil, List.reverse_reverse]

/-- A line that ends behind a piece does not end in an expiration time. -/
theorem not_endsInExpiry (piece : UgcPiece) {front : Text} (ends : EndsInSeparator front)
    : ¬ EndsInExpiry (front ++ piece.text ++ ['-']) := by
  rintro ⟨start, digits, same, six, all⟩
  have whole : front ++ piece.text = start ++ '-' :: digits := by
    have split : front ++ piece.text ++ ['-'] = (start ++ '-' :: digits) ++ ['-'] := by
      rw [same, List.append_assoc, List.cons_append]
    exact (List.append_inj' split rfl).1
  have free : ∀ c ∈ digits, isUgcSeparator c = false := by
    intro c member
    have digit := List.all_eq_true.mp all c member
    rw [isUgcSeparator, Bool.or_eq_false_iff]
    refine ⟨decide_eq_false ?_, decide_eq_false ?_⟩
    · rintro rfl
      exact absurd digit (by decide)
    · rintro rfl
      exact absurd digit (by decide)
  have expiry := @last_piece start digits '-' rfl free
  rw [← whole] at expiry
  rcases ends with rfl | ⟨before, separator, separates, rfl⟩
  · have mark : '-' ∈ piece.text := by
      rw [List.nil_append] at whole
      simp [whole]
    exact absurd (piece.noSeparator '-' mark) (by decide)
  · rw [List.append_assoc, List.singleton_append, last_piece separates piece.noSeparator] at expiry
    exact piece.not_expiry (expiry ▸ six) (expiry ▸ all)

theorem compactUgcText_eq {text : Text} (inBlock : InBlock text) : compactUgcText text = text := by
  refine List.filter_eq_self.mpr fun c member => ?_
  rw [blockChar_visible (inBlock c member)]
  rfl

theorem trim_inBlock {text : Text} (inBlock : InBlock text) : trim text = text :=
  trim_eq_self (fun c member => blockChar_visible (inBlock c (List.mem_of_head? member)))
    fun c member => blockChar_visible (inBlock c (List.mem_of_getLast? member))

/-- The lines of a block are joined up to its end, by induction on the pieces. -/
theorem joinUgcLines_written {pieces : List UgcPiece} {front line : Text}
    (inBlock : InBlock (front ++ line)) (ends : EndsInSeparator (front ++ line)) {first : Text}
    {others : List Text} (written : writtenLines expires line pieces = first :: others)
    : joinUgcLines (front ++ first) others
      = .ok (front ++ line ++ flatText expires pieces, others.length) := by
  induction pieces generalizing front line first others with
  | nil =>
      obtain ⟨rfl, rfl⟩ := List.cons.inj written
      have whole : front ++ (line ++ expiryText expires ++ ['-'])
          = front ++ line ++ (expiryText expires ++ ['-']) := by simp
      obtain ⟨complete, tested, -⟩ := hasUgcExpirationSuffix_spec
        (inBlock_isAscii (inBlock.append (inBlock_expiry expires)))
      rw [whole, joinUgcLines, tested]
      rfl
  | cons piece rest ih =>
      have here : InBlock (front ++ (line ++ piece.text ++ [piece.separator])) := by
        rw [List.append_assoc line, ← List.append_assoc]
        exact inBlock.append piece.inBlock_separated
      have separated : EndsInSeparator (front ++ (line ++ piece.text ++ [piece.separator])) :=
        .inr ⟨front ++ (line ++ piece.text), piece.separator, piece.isUgcSeparator_separator,
          by simp⟩
      have flat : front ++ line ++ flatText expires (piece :: rest)
          = front ++ (line ++ piece.text ++ [piece.separator]) ++ flatText expires rest := by
        simp [flatText]
      rw [writtenLines] at written
      rw [flat]
      split at written
      · next wrapped =>
          obtain ⟨rfl, remains⟩ := List.cons.inj written
          have dash : piece.separator = '-' := by
            rcases piece.separates with same | ⟨-, one⟩
            · exact same
            · simp [wrapped] at one
          obtain ⟨complete, tested, same⟩ := hasUgcExpirationSuffix_spec (inBlock_isAscii here)
          have unfinished : complete = false := by
            refine Bool.eq_false_iff.mpr fun finished => not_endsInExpiry piece ends ?_
            have whole := same.mp finished
            rw [dash] at whole
            simpa using whole
          obtain ⟨next, later, more⟩ := exists_writtenLines expires [] rest
          rw [more] at remains
          subst remains
          obtain ⟨visible, goesOn⟩ := head_writtenLines expires more
          have inNext : InBlock next :=
            inBlock_writtenLines expires inBlock_nil rest next (by rw [more]; simp)
          have joined := @ih (front ++ (line ++ piece.text ++ [piece.separator])) []
            (by rwa [List.append_nil]) (by rwa [List.append_nil]) next later more
          rw [List.append_nil] at joined
          rw [joinUgcLines, tested, ok_bind, unfinished, if_neg Bool.false_ne_true,
            trim_inBlock inNext]
          simp only [visible, goesOn, Bool.false_eq_true, or_self, if_false,
            compactUgcText_eq inNext, joined, ok_bind]
          rfl
      · exact ih here separated written

theorem inBlock_flatText (pieces : List UgcPiece) : InBlock (flatText expires pieces) := by
  refine InBlock.append (fun c member => ?_) (inBlock_expiry expires)
  obtain ⟨piece, -, inside⟩ := List.mem_flatMap.mp member
  exact piece.inBlock_separated c inside

/-- The block ends in its expiration time, by induction on the pieces. -/
theorem flatText_eq (block : UgcBlock)
    : flatText expires block.pieces
      = codeBlock block.pieces ++ ('-' :: (expiryText expires ++ ['-'])) := by
  have nonempty := block.nonempty
  have closes := block.closes
  generalize block.pieces = pieces at nonempty closes
  induction pieces with
  | nil => exact absurd rfl nonempty
  | cons piece rest ih =>
      cases rest with
      | nil =>
          have dash : piece.separator = '-' := closes piece rfl
          simp [flatText, codeBlock, dash]
      | cons next rest =>
          have later := ih (by simp) fun last member => closes last (by simpa using member)
          rw [flatText, List.flatMap_cons, List.append_assoc, ← flatText, later, codeBlock]
          simp

/-- No candidates are left where all lines are taken. -/
theorem ugcCandidatesFrom_length (lines : List Text)
    : ugcCandidatesFrom lines.length lines = .ok [] := by
  induction lines with
  | nil => rfl
  | cons line lines ih => exact ih

/-- A block is one candidate. -/
theorem extractUgcCandidates_block (block : UgcBlock)
    : extractUgcCandidates (piecesText expires block.pieces)
      = .ok [flatText expires block.pieces] := by
  obtain ⟨piece, rest, same⟩ := List.exists_cons_of_ne_nil block.nonempty
  obtain ⟨first, others, written⟩ := exists_writtenLines expires [] block.pieces
  have inFirst : InBlock first :=
    inBlock_writtenLines expires inBlock_nil block.pieces first (by rw [written]; simp)
  have start : isUgcStart first = true := by
    have prefixes := block.prefixes
    rw [same] at written prefixes
    obtain ⟨more, rfl⟩ := exists_head expires written
    exact (starts_with_piece piece inFirst).1 (by simpa using prefixes.1)
  have joined := @joinUgcLines_written expires block.pieces [] [] inBlock_nil (.inl rfl) first
    others written
  rw [List.nil_append, List.nil_append, List.nil_append] at joined
  obtain ⟨complete, tested, iff⟩ :=
    hasUgcExpirationSuffix_spec (inBlock_isAscii (inBlock_flatText expires block.pieces))
  have finished : complete = true := by
    obtain ⟨six, digits⟩ := expiryText_digits expires
    exact iff.mpr
      ⟨codeBlock block.pieces, expiryText expires, flatText_eq expires block, six, digits⟩
  have collected : collectUgcCandidate first others
      = .ok (some (flatText expires block.pieces), others.length) := by
    rw [collectUgcCandidate, compactUgcText_eq inFirst, joined, ok_bind]
    dsimp only
    rw [tested, finished]
    rfl
  rw [extractUgcCandidates, iterCandidateLines_piecesText, written, ugcCandidatesFrom, if_pos start,
    collected, ok_bind]
  dsimp only
  rw [ugcCandidatesFrom_length]
  rfl

end Written

-----------------------------------------------------------------------------------------
-- Sections
-----------------------------------------------------------------------------------------

section Sections

variable {F : Type} (locations : Locations F)

/-- Areas put behind those that are there. -/
theorem foldl_areas {area : UgcCode → UgcArea F} (codes : List UgcCode)
    (found : Option (List (UgcArea F)))
    : codes.foldl (fun found code => some (found.getD [] ++ [area code])) found
      = if codes = [] then found else some (found.getD [] ++ codes.map area) := by
  induction codes generalizing found with
  | nil => rfl
  | cons code rest ih =>
      rw [List.foldl_cons, ih]
      split
      · next none => simp [none]
      · simp

/-- The areas of a state in a bucket are those of the codes that go there, by induction on the
codes.
-/
theorem get?_foldl_addCode {bucket : UgcSection F → UgcBucket F} {goes : UgcClass → Text → Bool}
    {area : UgcCode → UgcArea F}
    (step : ∀ ugcSection code, bucket (ugcSection.addCode locations code)
      = if goes code.geoclass code.state then pushArea (bucket ugcSection) code.state (area code)
        else bucket ugcSection)
    (codes : List UgcCode) (ugcSection : UgcSection F) (state : Text)
    : (bucket (codes.foldl (UgcSection.addCode locations) ugcSection)).get? state
      = (codes.filter fun code =>
          goes code.geoclass code.state && decide (code.state = state)).foldl
          (fun found code => some (found.getD [] ++ [area code]))
          ((bucket ugcSection).get? state) := by
  induction codes generalizing ugcSection with
  | nil => rfl
  | cons code rest ih =>
      rw [List.foldl_cons, ih, step]
      cases here : goes code.geoclass code.state with
      | false => simp [here]
      | true =>
          rw [if_pos rfl, pushArea, OrderedMap.get?_alter]
          by_cases same : code.state = state
          · rw [if_pos same.symm, List.filter_cons_of_pos (by rw [here, decide_eq_true same]; rfl),
              List.foldl_cons, same]
          · rw [if_neg (Ne.symm same), List.filter_cons_of_neg (by simp [same])]

/-- The numbers of the items of a state that go to a bucket, in the order of the items. -/
def numbersOf (goes : UgcClass → Text → Bool) (items : List UgcItem) (state : Text) : List Nat :=
  (items.filter fun item => goes item.geoclass item.state && decide (item.state = state)).flatMap
    fun item => List.range' item.first (item.last + 1 - item.first)

/-- A bucket has the areas with these numbers for each state, and no states without numbers. -/
def HoldsNumbers (bucket : UgcBucket F) (numbers : Text → List Nat) : Prop :=
  ∀ state,
    (bucket.get? state).map (·.map (·.id.toNat))
    = if numbers state = [] then none else some (numbers state)

/-- The codes of the items that go to a bucket have their numbers, by induction on the items. -/
theorem numbers_codes (goes : UgcClass → Text → Bool) (items : List UgcItem) (state : Text)
    : (((items.flatMap UgcItem.codes).filter fun code =>
          goes code.geoclass code.state && decide (code.state = state)).map (·.number))
      = numbersOf goes items state := by
  induction items with
  | nil => rfl
  | cons item rest ih =>
      have codes : (item.codes.filter fun code =>
            goes code.geoclass code.state && decide (code.state = state))
          = if goes item.geoclass item.state && decide (item.state = state) then item.codes
            else [] := by
        have alike
            : ∀ code ∈ item.codes, code.geoclass = item.geoclass ∧ code.state = item.state := by
          intro code member
          obtain ⟨offset, -, rfl⟩ := List.mem_map.mp member
          exact ⟨rfl, rfl⟩
        split
        · next fits =>
            refine List.filter_eq_self.mpr fun code member => ?_
            rw [(alike code member).1, (alike code member).2]
            exact fits
        · next misses =>
            refine List.filter_eq_nil_iff.mpr fun code member => ?_
            rw [(alike code member).1, (alike code member).2]
            exact misses
      have numbers : item.codes.map (·.number)
          = List.range' item.first (item.last + 1 - item.first) := by
        rw [UgcItem.codes, ugcCodesOf, List.map_map, List.range'_eq_map_range]
        rfl
      rw [List.flatMap_cons, List.filter_append, List.map_append, ih, codes, numbersOf, numbersOf]
      cases fits : goes item.geoclass item.state && decide (item.state = state) with
      | true => simp only [List.filter_cons, fits, if_true, List.flatMap_cons, numbers]
      | false =>
          simp only [List.filter_cons, fits, Bool.false_eq_true, if_false, List.map_nil,
            List.nil_append]

/-- A bucket holds the numbers of the items that go there. -/
theorem holdsNumbers_fromCodes (bucket : UgcSection F → UgcBucket F)
    (goes : UgcClass → Text → Bool) (area : UgcCode → UgcArea F)
    (step : ∀ ugcSection code, bucket (ugcSection.addCode locations code)
      = if goes code.geoclass code.state then pushArea (bucket ugcSection) code.state (area code)
        else bucket ugcSection)
    (numbered : ∀ code, (area code).id = .ofNat code.number) {items : List UgcItem}
    (bound : ∀ item ∈ items, item.last ≤ 999) (expires : UtcTime)
    (empty : bucket ⟨{}, {}, {}, {}, expires⟩ = {})
    : HoldsNumbers (bucket (.fromCodes locations (items.flatMap UgcItem.codes) expires))
        (numbersOf goes items) := by
  intro state
  have numbers := numbers_codes goes items state
  have small : ∀ code ∈ items.flatMap UgcItem.codes, (area code).id.toNat = code.number := by
    intro code member
    obtain ⟨item, listed, inside⟩ := List.mem_flatMap.mp member
    obtain ⟨offset, range, rfl⟩ := List.mem_map.mp inside
    have last := bound item listed
    have fits := List.mem_range.mp range
    rw [numbered, UInt16.toNat_ofNat']
    dsimp only at fits ⊢
    exact Nat.mod_eq_of_lt (by omega)
  rw [UgcSection.fromCodes, get?_foldl_addCode locations step, empty, foldl_areas, ← numbers]
  by_cases none : (items.flatMap UgcItem.codes).filter
      (fun code => goes code.geoclass code.state && decide (code.state = state)) = []
  · rw [if_pos none, none]
    rfl
  · rw [if_neg none, if_neg (by simpa using none)]
    refine congrArg some ?_
    show ([] ++ _).map _ = _
    rw [List.nil_append, List.map_map]
    exact List.map_congr_left fun code member => small code (List.mem_of_mem_filter member)

theorem expires_fromCodes (codes : List UgcCode) (expires : UtcTime)
    : (UgcSection.fromCodes locations codes expires).expires = expires := by
  have step (ugcSection : UgcSection F) (code : UgcCode)
      : (ugcSection.addCode locations code).expires = ugcSection.expires := by
    unfold UgcSection.addCode
    cases code.geoclass with
    | county => rfl
    | fireZone => rfl
    | marine => rfl
    | zone =>
        dsimp only
        split <;> rfl
    | unknown =>
        dsimp only
        split <;> rfl
  rw [UgcSection.fromCodes]
  generalize start : (⟨{}, {}, {}, {}, expires⟩ : UgcSection F) = ugcSection
  have same : ugcSection.expires = expires := by rw [← start]
  clear start
  induction codes generalizing ugcSection with
  | nil => exact same
  | cons code rest ih => exact ih _ ((step ugcSection code).trans same)

/-- What a section holds of a list of items. -/
structure HoldsItems (ugcSection : UgcSection F) (items : List UgcItem) : Prop where
  counties : HoldsNumbers ugcSection.counties
    (numbersOf (fun geoclass _ => geoclass = .county) items)
  zones : HoldsNumbers ugcSection.zones
    (numbersOf (fun geoclass state => geoclass = .zone && !isMarineZoneState state) items)
  fireZones : HoldsNumbers ugcSection.fireZones
    (numbersOf (fun geoclass _ => geoclass = .fireZone) items)
  marineZones : HoldsNumbers ugcSection.marineZones
    (numbersOf (fun geoclass state =>
      geoclass = .marine || geoclass = .zone && isMarineZoneState state) items)

/-- Classes that are alike where they are known. -/
theorem numbersOf_congr {left right : UgcClass → Text → Bool} {items : List UgcItem}
    (known : ∀ item ∈ items, item.geoclass ≠ .unknown)
    (alike : ∀ geoclass state, geoclass ≠ .unknown → left geoclass state = right geoclass state)
    : numbersOf left items = numbersOf right items := by
  funext state
  rw [numbersOf, numbersOf]
  congr 1
  refine List.filter_congr fun item member => ?_
  rw [alike _ _ (known item member)]

theorem holdsItems_fromCodes {items : List UgcItem}
    (known : ∀ item ∈ items, item.geoclass ≠ .unknown) (bound : ∀ item ∈ items, item.last ≤ 999)
    (expires : UtcTime)
    : HoldsItems (.fromCodes locations (items.flatMap UgcItem.codes) expires) items where
  counties := by
    refine holdsNumbers_fromCodes locations (·.counties) _
      (buildArea · (some locations.ugcCountyEntry)) ?_ (fun _ => rfl) bound expires rfl
    rintro ugcSection ⟨state, geoclass, number⟩
    cases geoclass <;> simp [UgcSection.addCode]
    all_goals split <;> rfl
  zones := by
    have alike := @numbersOf_congr
      (fun geoclass state => geoclass = .zone && !isMarineZoneState state)
      (fun geoclass state => (geoclass = .zone || geoclass = .unknown) && !isMarineZoneState state)
      items known fun geoclass state known => by simp [known]
    rw [alike]
    refine holdsNumbers_fromCodes locations (·.zones) _
      (buildArea · (some locations.ugcZoneEntry)) ?_ (fun _ => rfl) bound expires rfl
    rintro ugcSection ⟨state, geoclass, number⟩
    cases geoclass <;> simp [UgcSection.addCode]
    all_goals split <;> simp_all
  fireZones := by
    refine holdsNumbers_fromCodes locations (·.fireZones) _ (buildArea · none) ?_ (fun _ => rfl)
      bound expires rfl
    rintro ugcSection ⟨state, geoclass, number⟩
    cases geoclass <;> simp [UgcSection.addCode]
    all_goals split <;> rfl
  marineZones := by
    have alike := @numbersOf_congr
      (fun geoclass state => geoclass = .marine || geoclass = .zone && isMarineZoneState state)
      (fun geoclass state => geoclass = .marine
        || (geoclass = .zone || geoclass = .unknown) && isMarineZoneState state)
      items known fun geoclass state known => by simp [known]
    rw [alike]
    -- the catalog is asked for zones of marine states only
    refine holdsNumbers_fromCodes locations (·.marineZones) _
      (fun code => buildArea code
        (if code.geoclass = .marine then none else some locations.ugcZoneEntry))
      ?_ (fun _ => rfl) bound expires rfl
    rintro ugcSection ⟨state, geoclass, number⟩
    cases geoclass <;> simp [UgcSection.addCode]
    all_goals split <;> simp_all

-----------------------------------------------------------------------------------------
-- Blocks
-----------------------------------------------------------------------------------------

theorem UgcPiece.items_valid (piece : UgcPiece)
    : ∀ item ∈ piece.items, item.geoclass ≠ .unknown ∧ item.last ≤ 999 := by
  intro item member
  obtain ⟨⟨first, last⟩, inside, rfl⟩ := List.mem_map.mp member
  refine ⟨piece.known, ?_⟩
  cases numbers : piece.numbers with
  | single number bound =>
      rw [numbers] at inside
      obtain ⟨rfl, rfl⟩ := Prod.mk.inj (List.mem_singleton.mp inside)
      exact bound
  | ranges start more =>
      rw [numbers] at inside
      obtain ⟨range, -, same⟩ := List.mem_map.mp inside
      obtain ⟨rfl, rfl⟩ := Prod.mk.inj same
      exact range.bound

theorem extractExpiration_flatText (expires : UtcTime) (block : UgcBlock)
    : extractExpiration (flatText expires block.pieces)
      = .ok (some (codeBlock block.pieces, expiryText expires)) := by
  have ascii := inBlock_isAscii (inBlock_flatText expires block.pieces)
  obtain ⟨six, digits⟩ := expiryText_digits expires
  obtain ⟨complete, tested, iff⟩ := hasUgcExpirationSuffix_spec ascii
  have finished : complete = true :=
    iff.mpr ⟨codeBlock block.pieces, expiryText expires, flatText_eq expires block, six, digits⟩
  have whole := flatText_eq expires block
  have length : (flatText expires block.pieces).length = (codeBlock block.pieces).length + 8 := by
    simp [whole, six]
  have front : (flatText expires block.pieces).take ((codeBlock block.pieces).length + 8 - 8)
      = codeBlock block.pieces := by
    rw [whole, Nat.add_sub_cancel, List.take_left]
  have middle : ((flatText expires block.pieces).take
        ((codeBlock block.pieces).length + 8 - 1)).drop
          ((codeBlock block.pieces).length + 8 - 8 + 1)
      = expiryText expires := by
    rw [whole, show (codeBlock block.pieces).length + 8 - 1 = (codeBlock block.pieces).length + 7 by
        omega, Nat.add_sub_cancel, List.take_length_add_append, List.drop_length_add_append]
    rfl
  rw [extractExpiration, tested, finished, ok_bind, ascii.utf8Len_eq, length]
  simp only [Bool.not_true, Bool.false_eq_true, if_false]
  rw [ascii.sliceTo_eq (by omega), ascii.slice_eq (by omega) (by omega), front, middle]
  rfl

theorem parseExpireTime_expiryText (calendar : Calendar) (expires validTime : UtcTime)
    : parseExpireTime calendar (expiryText expires) validTime
      = resolveDayTimeNotBefore calendar validTime (dateOf expires).day (hourOf expires)
          (minuteOf expires) := by
  have clock := clock_bounds expires
  have days := le_trans (dateOf_valid expires).2.2 (monthLength_bounds _ _).2
  obtain ⟨six, digits⟩ := expiryText_digits expires
  have ascii := isAscii_of_digits digits
  have part {start stop number : Nat} (order : start ≤ stop) (fits : stop ≤ 6)
      (bound : number ≤ 99)
      (same : ((expiryText expires).take stop).drop start = twoPlaces number)
      : sliceNumber start stop (expiryText expires) = .ok (some number) := by
    rw [sliceNumber, ascii.slice_eq order (by omega), ok_bind, same,
      parseUnsigned_digits (by simp [twoPlaces]) (twoPlaces_digits bound),
      digitsNat_twoPlaces bound]
    · rfl
    · rw [digitsNat_twoPlaces bound]
      omega
  rw [parseExpireTime, ascii.utf8Len_eq, if_neg (by simp [six]),
    @part 0 2 (dateOf expires).day (by omega) (by omega) (by omega) rfl, ok_bind]
  dsimp only
  rw [@part 2 4 (hourOf expires) (by omega) (by omega) (by omega) rfl, ok_bind]
  dsimp only
  rw [@part 4 6 (minuteOf expires) (by omega) (by omega) (by omega) rfl, ok_bind]

/-- A written list of items is read as one section with their numbers, and with the only time in
the 28 days from the valid time that has the day, the hour and the minute of the expiration.
-/
theorem ugcBlock_roundTrip {calendar : Calendar} (chrono : calendar.IsGregorian)
    {validTime expires : UtcTime} (known : KnownYear (dateOf validTime).year)
    (expiresKnown : KnownYear (dateOf expires).year) (aligned : MinuteAligned expires)
    (notBefore : validTime ≤ expires) (before : expires < validTime + 28 * dayLength)
    {items : List UgcItem} {text : Text} (written : WrittenAs items expires text)
    : (∃ ugcSection : UgcSection F,
        parseUgcSectionsWithIssues calendar locations text validTime = .ok ([ugcSection], [])
        ∧ HoldsItems ugcSection items ∧ ugcSection.expires = expires)
      ∧ ∀ other : UtcTime,
          KnownYear (dateOf other).year → MinuteAligned other → validTime ≤ other
          → other < validTime + 28 * dayLength
          → (dateOf other).day = (dateOf expires).day → hourOf other = hourOf expires
          → minuteOf other = minuteOf expires → other = expires := by
  have resolved :=
    resolveDayTimeNotBefore_eq chrono known expiresKnown aligned notBefore before
  obtain ⟨block, rfl, rfl⟩ := written
  constructor
  · have valid : ∀ item ∈ block.pieces.flatMap UgcPiece.items,
        item.geoclass ≠ .unknown ∧ item.last ≤ 999 := by
      intro item member
      obtain ⟨piece, -, inside⟩ := List.mem_flatMap.mp member
      exact piece.items_valid item inside
    refine ⟨_, ?_, holdsItems_fromCodes locations (fun item member => (valid item member).1)
      (fun item member => (valid item member).2) expires, expires_fromCodes locations _ expires⟩
    have capture : parseUgcCapture calendar locations (flatText expires block.pieces) validTime
        = .ok (.ok (.fromCodes locations
            ((block.pieces.flatMap UgcPiece.items).flatMap UgcItem.codes) expires)) := by
      rw [parseUgcCapture, extractExpiration_flatText, ok_bind]
      dsimp only
      rw [expandUgcBlock_codeBlock, ok_bind]
      dsimp only
      rw [parseExpireTime_expiryText, resolved]
      rfl
    rw [parseUgcSectionsWithIssues, extractUgcCandidates_block, ok_bind, List.mapM_cons,
      List.mapM_nil, capture]
    rfl
  · intro other otherKnown otherAligned otherNotBefore otherBefore day hour minute
    have also := resolveDayTimeNotBefore_eq chrono known otherKnown otherAligned otherNotBefore
      otherBefore
    rw [day, hour, minute, resolved] at also
    exact (Option.some.inj (Except.ok.inj also)).symm

end Sections

/-- A county, two chained ranges of its state, and a zone on a line of its own. -/
def springBlock : UgcBlock where
  pieces :=
    [⟨"IA".toList, .county, true, .single 1 (by decide), '-', false, by decide, by decide,
        dash_separates false⟩,
      ⟨"IA".toList, .county, false,
        .ranges ⟨3, 5, 1, by decide, by decide, by decide, by decide⟩
          [⟨10, 12, 3, by decide, by decide, threePlaces_shown, by decide⟩],
        '-', true, by decide, by decide, by decide⟩,
      ⟨"NE".toList, .zone, true, .single 10 (by decide), '-', false, by decide, by decide,
        dash_separates false⟩]
  nonempty := by decide
  prefixes := by simp [PrefixesWritten]
  closes := by simp

/-- A block that is read on March 5, 2025 at noon and expires at 19:00. -/
theorem springBlock_roundTrip
    : (∃ ugcSection : UgcSection ℚ,
        parseUgcSectionsWithIssues (gregorian fun _ => none)
          ⟨fun _ => none, fun _ => none, fun _ => none⟩
          "IAC001-003>5>010>012-\nNEZ010-051900-".toList 1741176000000000000
          = .ok ([ugcSection], [])
        ∧ HoldsItems ugcSection
            [⟨"IA".toList, .county, 1, 1⟩, ⟨"IA".toList, .county, 3, 5⟩,
              ⟨"IA".toList, .county, 10, 12⟩, ⟨"NE".toList, .zone, 10, 10⟩]
        ∧ ugcSection.expires = 1741201200000000000)
      ∧ ∀ other : UtcTime,
          KnownYear (dateOf other).year → MinuteAligned other → 1741176000000000000 ≤ other
          → other < 1741176000000000000 + 28 * dayLength
          → (dateOf other).day = (dateOf 1741201200000000000).day
          → hourOf other = hourOf 1741201200000000000
          → minuteOf other = minuteOf 1741201200000000000 → other = 1741201200000000000 :=
  ugcBlock_roundTrip _ (gregorian_isGregorian _) (by decide +kernel) (by decide +kernel)
    (by decide) (by decide) (by decide) ⟨springBlock, by decide, by decide +kernel⟩

end Emwin.Parser
