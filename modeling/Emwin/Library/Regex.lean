import Emwin.Library.Utf8
import Mathlib.Data.List.Forall2

/-! Regular expressions with captures under leftmost-first (backtracking) preference.
A pattern lists its possible matches at the start of a text in order of preference; the
match that a search reports is the first one. Repetition is over single characters, which
keeps the matcher structural.
-/

namespace Library

inductive Regex where
  | empty
  | cls (accepts : Char → Bool)
  | many (accepts : Char → Bool)
  | lazily (accepts : Char → Bool)
  | seq (first second : Regex)
  | alt (first second : Regex)
  | opt (inner : Regex)
  | group (name : String) (inner : Regex)
  | endOfText

/-- One way to match: the text taken, the text left, and the captures made on the way. -/
structure RegexMatch where
  taken : Text
  rest : Text
  captures : List (String × Text)

namespace Regex

/-- Greedy repetition: all prefixes of accepted characters, longest first. -/
def runMany (accepts : Char → Bool) : Text → List RegexMatch
  | [] => [{ taken := [], rest := [], captures := [] }]
  | c :: rest =>
      if accepts c then
        (runMany accepts rest).map (fun found => { found with taken := c :: found.taken })
        ++ [{ taken := [], rest := c :: rest, captures := [] }]
      else [{ taken := [], rest := c :: rest, captures := [] }]

/-- All matches at the start of the text, preferred ones first. -/
def run : Regex → Text → List RegexMatch
  | .empty, text => [{ taken := [], rest := text, captures := [] }]
  | .cls _, [] => []
  | .cls accepts, c :: rest =>
      if accepts c then [{ taken := [c], rest, captures := [] }] else []
  | .many accepts, text => runMany accepts text
  | .lazily accepts, text => (runMany accepts text).reverse
  | .alt first second, text => first.run text ++ second.run text
  | .seq first second, text =>
      (first.run text).flatMap fun left =>
        (second.run left.rest).map fun right =>
          { taken := left.taken ++ right.taken
            rest := right.rest
            captures := left.captures ++ right.captures }
  | .opt inner, text => inner.run text ++ [{ taken := [], rest := text, captures := [] }]
  | .group name inner, text =>
      (inner.run text).map fun found =>
        { found with captures := (name, found.taken) :: found.captures }
  | .endOfText, [] => [{ taken := [], rest := [], captures := [] }]
  | .endOfText, _ :: _ => []

/-- A literal text. -/
def lit : Text → Regex
  | [] => .empty
  | c :: rest => .seq (.cls (· == c)) (lit rest)

/-- One or more characters of a class. -/
def many1 (accepts : Char → Bool) : Regex := .seq (.cls accepts) (.many accepts)

/-- Concatenation of a list of patterns. -/
def concat : List Regex → Regex
  | [] => .empty
  | first :: rest => .seq first (concat rest)

/-- Captures of the preferred match of a pattern anchored at the start of the text. -/
def captures? (pattern : Regex) (text : Text) : Option (List (String × Text)) :=
  (pattern.run text).head?.map RegexMatch.captures

theorem mem_run_of_captures {pattern : Regex} {text : Text} {captures : List (String × Text)}
    (matched : pattern.captures? text = some captures)
    : ∃ found, found ∈ pattern.run text := by
  obtain ⟨found, first, _⟩ := Option.map_eq_some_iff.mp matched
  exact ⟨found, List.mem_of_head? first⟩

end Regex

/-- Text captured by a named group, if the group took part in the match. -/
def captureNamed (name : String) (captures : List (String × Text)) : Option Text :=
  captures.lookup name

namespace Regex

theorem runMany_split {accepts : Char → Bool} {text : Text} {found : RegexMatch}
    (member : found ∈ runMany accepts text)
    : text = found.taken ++ found.rest ∧ ∀ c ∈ found.taken, accepts c = true := by
  induction text generalizing found with
  | nil =>
      obtain rfl := List.mem_singleton.mp member
      simp
  | cons c rest ih =>
      simp only [runMany] at member
      split at member
      · next accepted =>
          rcases List.mem_append.mp member with longer | shortest
          · obtain ⟨inner, innerMember, rfl⟩ := List.mem_map.mp longer
            obtain ⟨split, all⟩ := ih innerMember
            refine ⟨by simp [split], ?_⟩
            intro d inside
            rcases List.mem_cons.mp inside with rfl | later
            · exact accepted
            · exact all d later
          · obtain rfl := List.mem_singleton.mp shortest
            simp
      · obtain rfl := List.mem_singleton.mp member
        simp

theorem mem_run_seq {first second : Regex} {text : Text} {found : RegexMatch}
    : found ∈ (Regex.seq first second).run text
      ↔ ∃ left ∈ first.run text,
          ∃ right ∈ second.run left.rest,
            found
            = { taken := left.taken ++ right.taken
                rest := right.rest
                captures := left.captures ++ right.captures } := by
  simp only [run, List.mem_flatMap, List.mem_map, eq_comm]

attribute [local simp] run in
/-- Every match splits the text into what it took and what it left, by pattern induction. -/
theorem run_split {pattern : Regex} {text : Text} {found : RegexMatch}
    (member : found ∈ pattern.run text)
    : text = found.taken ++ found.rest := by
  induction pattern generalizing text found with
  | empty =>
      obtain rfl := List.mem_singleton.mp member
      rfl
  | cls accepts =>
      cases text with
      | nil => simp [run] at member
      | cons c rest =>
          simp only [run] at member
          split at member
          · obtain rfl := List.mem_singleton.mp member
            rfl
          · simp at member
  | many accepts => exact (runMany_split member).1
  | lazily accepts => exact (runMany_split (List.mem_reverse.mp member)).1
  | alt first second ihFirst ihSecond =>
      exact (List.mem_append.mp member).elim ihFirst ihSecond
  | seq first second ihFirst ihSecond =>
      obtain ⟨left, leftMember, right, rightMember, rfl⟩ := mem_run_seq.mp member
      rw [ihFirst leftMember, ihSecond rightMember, List.append_assoc]
  | opt inner ih =>
      rcases List.mem_append.mp member with taken | skipped
      · exact ih taken
      · obtain rfl := List.mem_singleton.mp skipped
        rfl
  | group name inner ih =>
      obtain ⟨found, innerMember, rfl⟩ := List.mem_map.mp member
      have split := ih innerMember
      exact split
  | endOfText =>
      cases text with
      | nil =>
          obtain rfl := List.mem_singleton.mp member
          rfl
      | cons c rest => simp [run] at member

/-- A literal takes exactly itself, by induction on the literal. -/
theorem run_lit {literal text : Text} {found : RegexMatch}
    (member : found ∈ (lit literal).run text)
    : found.taken = literal := by
  induction literal generalizing text found with
  | nil =>
      obtain rfl := List.mem_singleton.mp member
      rfl
  | cons c literal ih =>
      obtain ⟨left, leftMember, right, rightMember, rfl⟩ := mem_run_seq.mp member
      cases text with
      | nil => simp [run] at leftMember
      | cons d rest =>
          simp only [run] at leftMember
          split at leftMember
          · next same =>
              obtain rfl := List.mem_singleton.mp leftMember
              obtain rfl : d = c := by simpa using same
              simp [ih rightMember]
          · simp at leftMember

/-- The later part of a concatenation matches a suffix of the text, by induction on the
earlier part.
-/
theorem run_concat_suffix {earlier later : List Regex} {text : Text} {found : RegexMatch}
    (member : found ∈ (concat (earlier ++ later)).run text)
    : ∃ suffix, suffix <:+ text ∧ ∃ right ∈ (concat later).run suffix, right.rest = found.rest := by
  induction earlier generalizing text found with
  | nil => exact ⟨text, List.suffix_rfl, found, member, rfl⟩
  | cons first earlier ih =>
      obtain ⟨left, leftMember, right, rightMember, rfl⟩ := mem_run_seq.mp member
      obtain ⟨suffix, inside, last, lastMember, rest⟩ := ih rightMember
      refine ⟨suffix, inside.trans ?_, last, lastMember, rest⟩
      exact ⟨left.taken, (run_split leftMember).symm⟩

/-- A pattern that ends with `endOfText` leaves nothing, whatever precedes it. -/
theorem run_endOfText {text : Text} {found : RegexMatch}
    (member : found ∈ Regex.endOfText.run text)
    : text = [] ∧ found.taken = [] ∧ found.rest = [] := by
  cases text with
  | nil =>
      obtain rfl := List.mem_singleton.mp member
      simp
  | cons c rest => simp [run] at member

-----------------------------------------------------------------------------------------
-- Bounded repetition, and what may follow a match
-----------------------------------------------------------------------------------------

/-- One character of each class. -/
def sequence : List (Char → Bool) → Regex
  | [] => .empty
  | accepts :: rest => .seq (.cls accepts) (sequence rest)

/-- Up to a number of characters of a class, as many as possible. -/
def upTo (accepts : Char → Bool) : Nat → Regex
  | 0 => .empty
  | count + 1 => .opt (.seq (.cls accepts) (upTo accepts count))

/-- A class repeated at least `low` times and at most `extra` times more. -/
def between (accepts : Char → Bool) (low extra : Nat) : Regex :=
  .seq (sequence (List.replicate low accepts)) (upTo accepts extra)

/-- The preferred match of those that leave an allowed rest. -/
def matchBefore? (pattern : Regex) (allowed : Text → Bool) (text : Text) : Option RegexMatch :=
  (pattern.run text).find? fun found => allowed found.rest

theorem mem_run_cls {accepts : Char → Bool} {text : Text} {found : RegexMatch}
    : found ∈ (Regex.cls accepts).run text
      ↔ ∃ c rest, text = c :: rest ∧ accepts c = true ∧ found = ⟨[c], rest, []⟩ := by
  cases text with
  | nil => simp [run]
  | cons c rest =>
      by_cases accepted : accepts c = true <;> simp [run, accepted]

/-- One character of each class, by induction on the classes. -/
theorem mem_run_sequence {classes : List (Char → Bool)} {text : Text} {found : RegexMatch}
    : found ∈ (sequence classes).run text
      ↔ text = found.taken ++ found.rest ∧ found.captures = []
        ∧ List.Forall₂ (fun accepts c => accepts c = true) classes found.taken := by
  induction classes generalizing text found with
  | nil =>
      obtain ⟨taken, rest, captures⟩ := found
      simp only [sequence, run, List.mem_singleton, RegexMatch.mk.injEq, List.forall₂_nil_left_iff]
      constructor
      · rintro ⟨rfl, rfl, rfl⟩
        simp
      · rintro ⟨rfl, rfl, rfl⟩
        simp
  | cons accepts classes ih =>
      rw [sequence, mem_run_seq]
      constructor
      · rintro ⟨left, leftMember, right, rightMember, rfl⟩
        obtain ⟨c, rest, rfl, accepted, rfl⟩ := mem_run_cls.mp leftMember
        obtain ⟨split, none, all⟩ := ih.mp rightMember
        simp only at split
        exact ⟨by simp [split], by simp [none], .cons accepted all⟩
      · obtain ⟨taken, rest, captures⟩ := found
        rintro ⟨split, none, all⟩
        cases all with
        | @cons _ c _ taken accepted all =>
            simp only at split none
            refine ⟨⟨[c], taken ++ rest, []⟩, mem_run_cls.mpr ⟨c, _, split, accepted, rfl⟩,
              ⟨taken, rest, []⟩, ih.mpr ⟨rfl, rfl, all⟩, ?_⟩
            rw [none]
            rfl

/-- Up to a number of characters of a class, by induction on the number. -/
theorem mem_run_upTo {accepts : Char → Bool} {count : Nat} {text : Text} {found : RegexMatch}
    : found ∈ (upTo accepts count).run text
      ↔ text = found.taken ++ found.rest ∧ found.captures = []
        ∧ found.taken.length ≤ count ∧ ∀ c ∈ found.taken, accepts c = true := by
  induction count generalizing text found with
  | zero =>
      obtain ⟨taken, rest, captures⟩ := found
      simp only [upTo, run, List.mem_singleton, RegexMatch.mk.injEq]
      constructor
      · rintro ⟨rfl, rfl, rfl⟩
        simp
      · rintro ⟨rfl, rfl, few, -⟩
        obtain rfl := List.eq_nil_of_length_eq_zero (Nat.le_zero.mp few)
        simp
  | succ count ih =>
      rw [upTo, run, List.mem_append, mem_run_seq]
      constructor
      · rintro (⟨left, leftMember, right, rightMember, rfl⟩ | skipped)
        · obtain ⟨c, rest, rfl, accepted, rfl⟩ := mem_run_cls.mp leftMember
          obtain ⟨split, none, few, all⟩ := ih.mp rightMember
          simp only at split
          refine ⟨by simp [split], by simp [none], by simpa using few, ?_⟩
          intro d member
          rcases List.mem_cons.mp member with rfl | later
          · exact accepted
          · exact all d later
        · obtain rfl := List.mem_singleton.mp skipped
          simp
      · obtain ⟨taken, rest, captures⟩ := found
        rintro ⟨split, none, few, all⟩
        simp only at split none few all
        cases taken with
        | nil =>
            refine .inr (List.mem_singleton.mpr ?_)
            rw [none, split]
            rfl
        | cons c taken =>
            refine .inl ⟨⟨[c], taken ++ rest, []⟩,
              mem_run_cls.mpr ⟨c, _, split, all c (by simp), rfl⟩, ⟨taken, rest, []⟩,
              ih.mpr ⟨rfl, rfl, by simpa using few, fun d member => all d (by simp [member])⟩, ?_⟩
            rw [none]
            rfl

/-- A bounded repetition. -/
theorem mem_run_between {accepts : Char → Bool} {low extra : Nat} {text : Text}
    {found : RegexMatch}
    : found ∈ (between accepts low extra).run text
      ↔ text = found.taken ++ found.rest ∧ found.captures = []
        ∧ low ≤ found.taken.length ∧ found.taken.length ≤ low + extra
        ∧ ∀ c ∈ found.taken, accepts c = true := by
  have replicated {count : Nat} {text : Text}
      : List.Forall₂ (fun (accepts : Char → Bool) c => accepts c = true)
          (List.replicate count accepts) text
        ↔ text.length = count ∧ ∀ c ∈ text, accepts c = true := by
    induction count generalizing text with
    | zero => cases text <;> simp
    | succ count ih =>
        cases text with
        | nil => simp
        | cons c text => simp [List.replicate_succ, ih, and_left_comm]
  rw [between, mem_run_seq]
  constructor
  · rintro ⟨left, leftMember, right, rightMember, rfl⟩
    obtain ⟨leftSplit, leftNone, leftAll⟩ := mem_run_sequence.mp leftMember
    obtain ⟨rightSplit, rightNone, few, rightAll⟩ := mem_run_upTo.mp rightMember
    obtain ⟨length, leftAll⟩ := replicated.mp leftAll
    refine ⟨by simp [leftSplit, rightSplit], by simp [leftNone, rightNone], ?_, ?_, ?_⟩
    · simp only [List.length_append]
      omega
    · simp only [List.length_append]
      omega
    · intro c member
      exact (List.mem_append.mp member).elim (leftAll c) (rightAll c)
  · obtain ⟨taken, rest, captures⟩ := found
    rintro ⟨split, none, enough, few, all⟩
    simp only at split none enough few all
    refine ⟨⟨taken.take low, taken.drop low ++ rest, []⟩, ?_, ⟨taken.drop low, rest, []⟩, ?_, ?_⟩
    · refine mem_run_sequence.mpr ⟨?_, rfl, replicated.mpr ⟨?_, ?_⟩⟩
      · rw [← List.append_assoc, List.take_append_drop, split]
      · rw [List.length_take]
        omega
      · exact fun c member => all c (List.mem_of_mem_take member)
    · refine mem_run_upTo.mpr ⟨rfl, rfl, ?_, fun c member => all c (List.mem_of_mem_drop member)⟩
      rw [List.length_drop]
      omega
    · rw [none]
      simp

theorem runMany_captures {accepts : Char → Bool} {text : Text} {found : RegexMatch}
    (member : found ∈ runMany accepts text)
    : found.captures = [] := by
  induction text generalizing found with
  | nil =>
      obtain rfl := List.mem_singleton.mp member
      rfl
  | cons c rest ih =>
      rw [runMany] at member
      split at member
      · rcases List.mem_append.mp member with longer | shortest
        · obtain ⟨inner, innerMember, rfl⟩ := List.mem_map.mp longer
          have none : inner.captures = [] := ih innerMember
          exact none
        · obtain rfl := List.mem_singleton.mp shortest
          rfl
      · obtain rfl := List.mem_singleton.mp member
        rfl

theorem mem_runMany {accepts : Char → Bool} {taken rest : Text}
    (all : ∀ c ∈ taken, accepts c = true)
    : (⟨taken, rest, []⟩ : RegexMatch) ∈ runMany accepts (taken ++ rest) := by
  induction taken with
  | nil =>
      cases rest with
      | nil => simp [runMany]
      | cons c rest =>
          rw [List.nil_append, runMany]
          split <;> simp
  | cons c taken ih =>
      rw [List.cons_append, runMany, if_pos (all c (by simp))]
      refine List.mem_append_left _ (List.mem_map.mpr ⟨⟨taken, rest, []⟩, ?_, rfl⟩)
      exact ih fun d member => all d (by simp [member])

/-- The match of two patterns in a row from their matches. -/
def RegexMatch.then (left right : RegexMatch) : RegexMatch where
  taken := left.taken ++ right.taken
  rest := right.rest
  captures := left.captures ++ right.captures

theorem find?_flatMap_const {α β : Type} {items : List α} {item : α} {f : α → List β}
    {p : β → Bool} (member : item ∈ items) (same : ∀ other ∈ items, other = item)
    : (items.flatMap f).find? p = (f item).find? p := by
  induction items with
  | nil => exact absurd member (by simp)
  | cons first items ih =>
      obtain rfl := same first (by simp)
      rw [List.flatMap_cons, List.find?_append]
      by_cases more : first ∈ items
      · rw [ih more fun other inside => same other (by simp [inside])]
        cases (f first).find? p <;> rfl
      · have none : items = [] := by
          refine List.eq_nil_iff_forall_not_mem.mpr fun other inside => ?_
          obtain rfl := same other (by simp [inside])
          exact more inside
        simp [none]

/-- A first pattern that can match in one way only leaves the choice to the second. -/
theorem matchBefore?_seq {first second : Regex} {allowed : Text → Bool} {text : Text}
    {left : RegexMatch} (member : left ∈ first.run text)
    (same : ∀ other ∈ first.run text, other = left)
    : (Regex.seq first second).matchBefore? allowed text
      = (second.matchBefore? allowed left.rest).map (RegexMatch.then left) := by
  rw [matchBefore?, run, find?_flatMap_const member same, List.find?_map]
  rfl

theorem matchBefore?_seq_none {first second : Regex} {allowed : Text → Bool} {text : Text}
    (none : first.run text = [])
    : (Regex.seq first second).matchBefore? allowed text = .none := by
  rw [matchBefore?, run, none]
  rfl

theorem mem_of_matchBefore? {pattern : Regex} {allowed : Text → Bool} {text : Text}
    {found : RegexMatch} (first : pattern.matchBefore? allowed text = some found)
    : found ∈ pattern.run text ∧ allowed found.rest = true := by
  have allows := List.find?_some first
  exact ⟨List.mem_of_find?_eq_some first, allows⟩

theorem matchBefore?_isSome {pattern : Regex} {allowed : Text → Bool} {text : Text}
    {found : RegexMatch} (member : found ∈ pattern.run text) (allows : allowed found.rest = true)
    : (pattern.matchBefore? allowed text).isSome = true :=
  List.find?_isSome.mpr ⟨found, member, allows⟩

-----------------------------------------------------------------------------------------
-- First matches
-----------------------------------------------------------------------------------------

/-- Greedy repetition tries the prefixes of what it accepts from the longest one on. -/
theorem runMany_eq (accepts : Char → Bool) (text : Text)
    : runMany accepts text
      = ((List.range ((text.takeWhile accepts).length + 1)).map fun count =>
          (⟨text.take count, text.drop count, []⟩ : RegexMatch)).reverse := by
  induction text with
  | nil => rfl
  | cons c rest ih =>
      rw [runMany]
      split
      · next accepted =>
          rw [ih, List.takeWhile_cons_of_pos accepted, List.length_cons]
          generalize (rest.takeWhile accepts).length = count
          have counts : List.range (count + 1 + 1) = 0 :: (List.range (count + 1)).map Nat.succ :=
            List.range_succ_eq_map
          rw [counts, List.map_cons, List.reverse_cons, List.map_reverse, List.map_map,
            List.map_map]
          rfl
      · next other =>
          rw [List.takeWhile_cons_of_neg (by simpa using other)]
          rfl

theorem runMany_stopped {accepts : Char → Bool} {gap rest : Text}
    (all : ∀ c ∈ gap, accepts c = true) (stops : ∀ c ∈ rest.head?, accepts c = false)
    : ∃ after, runMany accepts (gap ++ rest) = ⟨gap, rest, []⟩ :: after := by
  have whole : (gap ++ rest).takeWhile accepts = gap := by
    rw [List.takeWhile_append_of_pos all]
    cases rest with
    | nil => simp
    | cons c rest =>
        have stop := stops c rfl
        rw [List.takeWhile_cons_of_neg (by simp [stop]), List.append_nil]
  rw [runMany_eq, whole, List.range_succ, List.map_append, List.reverse_append]
  refine ⟨((List.range gap.length).map fun count =>
    (⟨(gap ++ rest).take count, (gap ++ rest).drop count, []⟩ : RegexMatch)).reverse, ?_⟩
  simp

/-- Lazy repetition comes to a text behind the shorter ones. -/
theorem run_lazily_split {accepts : Char → Bool} {taken : Text}
    (all : ∀ c ∈ taken, accepts c = true) (rest : Text)
    : ∃ before after,
        (Regex.lazily accepts).run (taken ++ rest) = before ++ ⟨taken, rest, []⟩ :: after
        ∧ ∀ other ∈ before,
            ∃ more, more ≠ [] ∧ taken = other.taken ++ more ∧ other.rest = more ++ rest := by
  have longest : taken.length ≤ ((taken ++ rest).takeWhile accepts).length := by
    rw [List.takeWhile_append_of_pos all, List.length_append]
    omega
  obtain ⟨extra, length⟩ := Nat.exists_eq_add_of_le longest
  let cut (count : Nat) : RegexMatch := ⟨(taken ++ rest).take count, (taken ++ rest).drop count, []⟩
  have whole : (Regex.lazily accepts).run (taken ++ rest)
      = (List.range (taken.length + (extra + 1))).map cut := by
    rw [run, runMany_eq, List.reverse_reverse, length]
    rfl
  refine ⟨(List.range taken.length).map cut,
    ((List.range extra).map Nat.succ).map (cut ∘ fun count => taken.length + count), ?_, ?_⟩
  · have here : cut taken.length = ⟨taken, rest, []⟩ := by simp [cut]
    rw [whole, List.range_add, List.map_append, List.range_succ_eq_map, List.map_cons,
      List.map_cons, ← here, List.map_map]
    rfl
  · intro other member
    obtain ⟨count, inside, rfl⟩ := List.mem_map.mp member
    have small : count < taken.length := List.mem_range.mp inside
    refine ⟨taken.drop count, ?_, ?_, ?_⟩
    · rw [ne_eq, List.drop_eq_nil_iff]
      omega
    · show taken = (taken ++ rest).take count ++ taken.drop count
      rw [List.take_append_of_le_length (Nat.le_of_lt small), List.take_append_drop]
    · exact List.drop_append_of_le_length (Nat.le_of_lt small)

/-- The first way of a first pattern that the second can go on from. -/
theorem head?_run_seq {first second : Regex} {text : Text} {before after : List RegexMatch}
    {left right : RegexMatch} (split : first.run text = before ++ left :: after)
    (stuck : ∀ other ∈ before, second.run other.rest = [])
    (found : (second.run left.rest).head? = some right)
    : ((Regex.seq first second).run text).head? = some (RegexMatch.then left right) := by
  have none : before.flatMap (fun left => (second.run left.rest).map (RegexMatch.then left))
      = [] := by
    rw [List.flatMap_eq_nil_iff]
    intro other member
    rw [stuck other member, List.map_nil]
  have whole : (Regex.seq first second).run text
      = (first.run text).flatMap fun left =>
          (second.run left.rest).map (RegexMatch.then left) := rfl
  rw [whole, split, List.flatMap_append, none, List.nil_append, List.flatMap_cons,
    List.head?_append, List.head?_map, found]
  rfl

theorem run_seq_eq_nil {first second : Regex} {text : Text}
    (stuck : ∀ left ∈ first.run text, second.run left.rest = [])
    : (Regex.seq first second).run text = [] := by
  rw [run, List.flatMap_eq_nil_iff]
  intro left member
  rw [stuck left member, List.map_nil]

/-- A literal matches where it stands, by induction on it. -/
theorem run_lit_append (literal rest : Text)
    : (lit literal).run (literal ++ rest) = [⟨literal, rest, []⟩] := by
  induction literal with
  | nil => rfl
  | cons c literal ih => simp [lit, run, ih]

theorem eq_of_mem_run_lit {literal text : Text} {found : RegexMatch}
    (member : found ∈ (lit literal).run text)
    : text = literal ++ found.rest ∧ found = ⟨literal, found.rest, []⟩ := by
  have split : text = literal ++ found.rest := by
    have whole := run_split member
    rwa [run_lit member] at whole
  rw [split, run_lit_append] at member
  exact ⟨split, List.mem_singleton.mp member⟩

theorem run_foldl_alt (base : Regex) (literals : List Text) (text : Text)
    : (literals.foldl (fun pattern literal => .alt pattern (lit literal)) base).run text
      = base.run text ++ literals.flatMap fun literal => (lit literal).run text := by
  induction literals generalizing base with
  | nil => simp
  | cons literal literals ih =>
      rw [List.foldl_cons, ih, run, List.flatMap_cons, List.append_assoc]

end Regex

end Library
