import Emwin.Parser.ReportGroups
import Emwin.Parser.TafItems

/-! Change groups as they are written, and where the words of a forecast are cut. -/

namespace Emwin.Parser
open Library

-----------------------------------------------------------------------------------------
-- Markers
-----------------------------------------------------------------------------------------

/-- The words in front of the first marker, and those from each marker on. -/
def markedGroups : List Text → List Text × List (List Text)
  | [] => ([], [])
  | token :: rest =>
      let (front, groups) := markedGroups rest
      if isGroupMarker token then ([], (token :: front) :: groups) else (token :: front, groups)

theorem markedGroups_marker {token : Text} (marker : isGroupMarker token = true)
    (rest : List Text)
    : markedGroups (token :: rest)
      = ([], (token :: (markedGroups rest).1) :: (markedGroups rest).2) := by
  simp [markedGroups, marker]

theorem markedGroups_other {token : Text} (other : isGroupMarker token = false)
    (rest : List Text)
    : markedGroups (token :: rest) = (token :: (markedGroups rest).1, (markedGroups rest).2) := by
  simp [markedGroups, other]

/-- Words that are no markers go in front, by induction on them. -/
theorem markedGroups_append {words : List Text}
    (others : ∀ word ∈ words, isGroupMarker word = false) (rest : List Text)
    : markedGroups (words ++ rest)
      = (words ++ (markedGroups rest).1, (markedGroups rest).2) := by
  induction words with
  | nil => rfl
  | cons word words ih =>
      rw [List.cons_append, markedGroups_other (others word (by simp)),
        ih fun word member => others word (by simp [member])]
      rfl

/-- One more word is cut off, or goes to the words before it. -/
def cutAtMarker : List (List Text) × List Text → Text → List (List Text) × List Text
  | (segments, current), token =>
      if isGroupMarker token ∧ current ≠ [] then (segments ++ [current], [token])
      else (segments, current ++ [token])

/-- What is cut off behind some words, by induction on what comes behind them. -/
theorem foldl_cutAtMarker (words : List Text) (segments : List (List Text)) {current : List Text}
    (shown : current ≠ [])
    : let (cut, last) := words.foldl cutAtMarker (segments, current)
      last ≠ []
      ∧ cut ++ [last]
        = segments ++ (current ++ (markedGroups words).1) :: (markedGroups words).2 := by
  induction words generalizing segments current with
  | nil => simpa [markedGroups] using shown
  | cons token rest ih =>
      rw [List.foldl_cons]
      by_cases marker : isGroupMarker token = true
      · have later := ih (segments ++ [current]) (List.cons_ne_nil token [])
        rw [cutAtMarker, if_pos ⟨marker, shown⟩, markedGroups_marker marker]
        simpa using later
      · have later := ih segments (List.append_ne_nil_of_right_ne_nil current
          (List.cons_ne_nil token []))
        rw [cutAtMarker, if_neg fun both => marker both.1, markedGroups_other (by simpa using marker)]
        simpa using later

/-- A marker in front cuts nothing off. -/
theorem cutAtMarkers_eq (words : List Text)
    : cutAtMarkers words
      = if (markedGroups words).1 = [] then (markedGroups words).2
        else (markedGroups words).1 :: (markedGroups words).2 := by
  cases words with
  | nil => rfl
  | cons token rest =>
      have cut := foldl_cutAtMarker rest [] (List.cons_ne_nil token [])
      have whole : cutAtMarkers (token :: rest)
          = (token :: (markedGroups rest).1) :: (markedGroups rest).2 := by
        have first : cutAtMarker ([], []) token = ([], [token]) := by simp [cutAtMarker]
        have same : cutAtMarkers (token :: rest)
            = let (segments, current) := rest.foldl cutAtMarker ([], [token])
              if current ≠ [] then segments ++ [current] else segments := by
          rw [← first, ← List.foldl_cons]
          rfl
        rw [same]
        obtain ⟨shown, split⟩ := cut
        simp only
        rw [if_pos shown, split]
        rfl
      rw [whole]
      by_cases marker : isGroupMarker token = true
      · simp [markedGroups_marker marker]
      · simp [markedGroups_other (by simpa using marker : isGroupMarker token = false)]

-----------------------------------------------------------------------------------------
-- Indicators
-----------------------------------------------------------------------------------------

structure TafValidity where
  validFrom : Digits 4
  validTo : Digits 4
  deriving DecidableEq, Repr

def TafValidity.text (validity : TafValidity) : Text :=
  validity.validFrom.text ++ '/' :: validity.validTo.text

@[simp] theorem parseValidityRange_text (validity : TafValidity)
    : parseValidityRange validity.text
      = some (validity.validFrom.text, validity.validTo.text) := by
  have solid : '/' ∉ validity.validFrom.text := validity.validFrom.not_mem rfl
  have valid : utf8Len validity.validFrom.text = 4 ∧ utf8Len validity.validTo.text = 4
      ∧ validity.validFrom.text.all Char.isDigit = true
      ∧ validity.validTo.text.all Char.isDigit = true :=
    ⟨validity.validFrom.utf8Len_eq, validity.validTo.utf8Len_eq, validity.validFrom.digits,
      validity.validTo.digits⟩
  simp only [parseValidityRange, TafValidity.text, splitOnce_append_cons _ solid, guard,
    Option.bind_eq_bind, Option.bind_some, if_pos valid]
  rfl

inductive TafLikelihood where
  | thirty
  | forty
  deriving DecidableEq, Repr

def TafLikelihood.percent : TafLikelihood → Nat
  | .thirty => 30
  | .forty => 40

def TafLikelihood.text : TafLikelihood → Text
  | .thirty => "PROB30".toList
  | .forty => "PROB40".toList

/-- How a change is announced. -/
inductive TafIndicator where
  | fm (start : Digits 6)
  | becmg (validity : TafValidity)
  | tempo (validity : TafValidity)
  | prob (likelihood : TafLikelihood) (validity : TafValidity)
  | probTempo (likelihood : TafLikelihood) (validity : TafValidity)
  deriving DecidableEq, Repr

/-- The words from the last marker of an indicator on. -/
def TafIndicator.header : TafIndicator → List Text
  | .fm start => ["FM".toList ++ start.text]
  | .becmg validity => ["BECMG".toList, validity.text]
  | .tempo validity => ["TEMPO".toList, validity.text]
  | .prob likelihood validity => [likelihood.text, validity.text]
  | .probTempo _ validity => ["TEMPO".toList, validity.text]

/-- What is cut off in front of these. -/
def TafIndicator.before : TafIndicator → List (List Text)
  | .probTempo likelihood _ => [[likelihood.text]]
  | _ => []

def TafIndicator.words (indicator : TafIndicator) : List Text :=
  indicator.before.flatten ++ indicator.header

/-- What a header is read as. -/
def TafIndicator.groupHeader (body : List Text) : TafIndicator → GroupHeader
  | .fm start => ⟨.fm, start.text.take 4, none, none, body⟩
  | .becmg validity => ⟨.becmg, validity.validFrom.text, some validity.validTo.text, none, body⟩
  | .tempo validity => ⟨.tempo, validity.validFrom.text, some validity.validTo.text, none, body⟩
  | .prob likelihood validity =>
      ⟨.prob, validity.validFrom.text, some validity.validTo.text, some likelihood.percent, body⟩
  | .probTempo _ validity =>
      ⟨.tempo, validity.validFrom.text, some validity.validTo.text, none, body⟩

theorem isGroupMarker_text (validity : TafValidity) : isGroupMarker validity.text = false := by
  obtain ⟨first, rest, split⟩ := List.exists_cons_of_length_eq_add_one validity.validFrom.length
  have digit : first.isDigit = true :=
    List.all_eq_true.mp validity.validFrom.digits first (by simp [split])
  have starts : validity.text = first :: (rest ++ '/' :: validity.validTo.text) := by
    rw [TafValidity.text, split]
    rfl
  have other {literal : Text} (capital : ∃ c ∈ literal.head?, c.isDigit = false)
      : ¬ literal <+: validity.text := by
    rw [starts]
    exact not_prefix_digit digit capital _
  have differs {literal : Text} (capital : ∃ c ∈ literal.head?, c.isDigit = false)
      : validity.text ≠ literal := fun same => other capital (same ▸ List.prefix_rfl)
  simp only [isGroupMarker, Bool.or_eq_false_iff, decide_eq_false_iff_not]
  exact ⟨⟨⟨⟨other ⟨'F', rfl, rfl⟩, differs ⟨'T', rfl, rfl⟩⟩, differs ⟨'B', rfl, rfl⟩⟩,
    other ⟨'P', rfl, rfl⟩⟩, other ⟨'P', rfl, rfl⟩⟩

/-- An indicator is cut at its markers. -/
theorem markedGroups_indicator (indicator : TafIndicator) (rest : List Text)
    : markedGroups (indicator.words ++ rest)
      = ([], indicator.before ++ (indicator.header ++ (markedGroups rest).1)
          :: (markedGroups rest).2) := by
  have both {first : Text} (marker : isGroupMarker first = true) (validity : TafValidity)
      : markedGroups (first :: validity.text :: rest)
        = ([], (first :: validity.text :: (markedGroups rest).1) :: (markedGroups rest).2) := by
    rw [markedGroups_marker marker, markedGroups_other (isGroupMarker_text validity)]
  have likely (likelihood : TafLikelihood) : isGroupMarker likelihood.text = true := by
    cases likelihood <;> decide
  cases indicator with
  | fm start =>
      have marker : isGroupMarker ("FM".toList ++ start.text) = true := by
        simp [isGroupMarker]
      exact markedGroups_marker marker rest
  | becmg validity => exact both (by decide) validity
  | tempo validity => exact both (by decide) validity
  | prob likelihood validity => exact both (likely likelihood) validity
  | probTempo likelihood validity =>
      have inner := @both "TEMPO".toList (by decide) validity
      refine (markedGroups_marker (likely likelihood) _).trans ?_
      exact congrArg (fun cut => ([], (likelihood.text :: cut.1) :: cut.2)) inner

theorem parseGroupHeader_header (indicator : TafIndicator) (body : List Text)
    : parseGroupHeader (indicator.header ++ body) = some (indicator.groupHeader body) := by
  have marker (first : Text) (validity : TafValidity)
      (isMarker : first = "TEMPO".toList ∨ first = "BECMG".toList)
      : parseGroupHeader (first :: validity.text :: body)
        = some ⟨if first = "TEMPO".toList then .tempo else .becmg, validity.validFrom.text,
            some validity.validTo.text, none, body⟩ := by
    have notFm : stripPrefix "FM".toList first = none := by
      rcases isMarker with rfl | rfl <;> decide
    simp only [parseGroupHeader, notFm, if_pos isMarker, List.head?_cons,
      parseValidityRange_text, Option.bind_eq_bind, Option.bind_some]
    rfl
  cases indicator with
  | fm start =>
      simp only [TafIndicator.header, List.cons_append, List.nil_append, parseGroupHeader,
        stripPrefix_append, start.utf8Len_eq, start.digits, and_self, if_true]
      rfl
  | becmg validity => exact (marker _ validity (.inr rfl)).trans rfl
  | tempo validity => exact (marker _ validity (.inl rfl)).trans rfl
  | prob likelihood validity =>
      have notFm : stripPrefix "FM".toList likelihood.text = none := by
        cases likelihood <;> decide
      have notOther : ¬ (likelihood.text = "TEMPO".toList ∨ likelihood.text = "BECMG".toList) := by
        cases likelihood <;> decide
      have percent : (stripPrefix "PROB".toList likelihood.text).bind (parseUnsigned (2 ^ 8))
          = some likelihood.percent := by
        cases likelihood <;> decide
      obtain ⟨digits, stripped, percent⟩ := Option.bind_eq_some_iff.mp percent
      simp only [TafIndicator.header, List.cons_append, List.nil_append, parseGroupHeader, notFm,
        if_neg notOther, stripped, percent, List.head?_cons, parseValidityRange_text,
        Option.bind_eq_bind, Option.bind_some]
      rfl
  | probTempo likelihood validity => exact (marker _ validity (.inl rfl)).trans rfl

/-- A likelihood on its own is no group. -/
theorem parseGroupHeader_before (indicator : TafIndicator)
    : ∀ segment ∈ indicator.before, parseGroupHeader segment = none := by
  intro segment member
  cases indicator with
  | probTempo likelihood validity =>
      obtain rfl := List.mem_singleton.mp member
      cases likelihood <;> decide
  | fm start => cases member
  | becmg validity => cases member
  | tempo validity => cases member
  | prob likelihood validity => cases member

-----------------------------------------------------------------------------------------
-- Changes
-----------------------------------------------------------------------------------------

/-- A change, with the words of its conditions. -/
structure TafChange where
  indicator : TafIndicator
  conditions : List Text
  deriving DecidableEq, Repr

def TafChange.words (change : TafChange) : List Text :=
  change.indicator.words ++ change.conditions

/-- What a change is cut into. -/
def TafChange.segments (change : TafChange) : List (List Text) :=
  change.indicator.before ++ [change.indicator.header ++ change.conditions]

/-- Changes are cut one by one, by induction on them. -/
theorem markedGroups_changes {changes : List TafChange}
    (others : ∀ change ∈ changes, ∀ word ∈ change.conditions, isGroupMarker word = false)
    {rest : List Text} (starts : (markedGroups rest).1 = [])
    : markedGroups (changes.flatMap TafChange.words ++ rest)
      = ([], changes.flatMap TafChange.segments ++ (markedGroups rest).2) := by
  induction changes with
  | nil => exact Prod.ext starts rfl
  | cons change changes ih =>
      have later := ih fun other member => others other (by simp [member])
      rw [List.flatMap_cons, TafChange.words, List.append_assoc, List.append_assoc,
        markedGroups_indicator, markedGroups_append (others change (by simp)), later,
        List.append_nil, List.flatMap_cons, TafChange.segments, List.append_assoc,
        List.append_assoc]
      rfl

-----------------------------------------------------------------------------------------
-- Readings of what was cut
-----------------------------------------------------------------------------------------

/-- The groups that segments are read as. -/
def groupsRead (segments : List (List Text)) : Except Panic (List TafGroupReading) :=
  (fun groups => (groups.filterMap id).map TafForecastGroup.reading) <$> segments.mapM parseGroup

/-- A group whose header was read. -/
def groupReading (header : GroupHeader) (conditions : TafConditions) : TafGroupReading where
  changeKind := header.changeKind
  validFrom := some header.validFrom
  validTo := header.validTo
  probabilityPercent := header.probabilityPercent
  conditions := conditions

theorem readSegments_cons (first : List Text) (segments : List (List Text))
    : readSegments (first :: segments)
      = (do
          let initial ← parseConditions first
          let groups ← groupsRead segments
          return (initial, groups)) := by
  rw [readSegments, groupsRead]
  refine congrArg _ (funext fun initial => ?_)
  rw [List.drop_succ_cons, List.drop_zero]
  generalize segments.mapM parseGroup = call
  cases call <;> rfl

@[simp] theorem groupsRead_nil : groupsRead [] = .ok [] := rfl

theorem groupsRead_cons (segment : List Text) (segments : List (List Text))
    : groupsRead (segment :: segments)
      = (do
          let group ← parseGroup segment
          let groups ← groupsRead segments
          return (group.map TafForecastGroup.reading).toList ++ groups) := by
  rw [groupsRead, groupsRead, List.mapM_cons]
  cases parseGroup segment with
  | error panic => rfl
  | ok group =>
      cases segments.mapM parseGroup with
      | error panic => rfl
      | ok groups => cases group <;> rfl

/-- Segments are read one by one, by induction on them. -/
theorem groupsRead_append (left right : List (List Text))
    : groupsRead (left ++ right)
      = (do
          let groups ← groupsRead left
          let others ← groupsRead right
          return groups ++ others) := by
  induction left with
  | nil =>
      rw [List.nil_append, groupsRead_nil, ok_bind]
      cases groupsRead right <;> rfl
  | cons segment left ih =>
      rw [List.cons_append, groupsRead_cons, groupsRead_cons, ih]
      cases parseGroup segment with
      | error panic => rfl
      | ok group =>
          cases groupsRead left with
          | error panic => rfl
          | ok groups =>
              cases groupsRead right with
              | error panic => rfl
              | ok others => simp [List.append_assoc, pure, Except.pure]

theorem parseGroup_of_header {segment : List Text} {header : GroupHeader}
    (starts : parseGroupHeader segment = some header)
    : (fun group => (group.map TafForecastGroup.reading).toList) <$> parseGroup segment
      = (fun conditions => [groupReading header conditions]) <$> parseConditions header.body := by
  rw [parseGroup, starts]
  simp only
  generalize parseConditions header.body = call
  cases call <;> rfl

theorem parseGroup_of_none {segment : List Text} (starts : parseGroupHeader segment = none)
    : parseGroup segment = .ok none := by
  rw [parseGroup, starts]
  rfl

theorem groupsRead_single {segment : List Text} {header : GroupHeader}
    (starts : parseGroupHeader segment = some header)
    : groupsRead [segment]
      = (fun conditions => [groupReading header conditions])
        <$> parseConditions header.body := by
  rw [groupsRead_cons, groupsRead_nil, ← parseGroup_of_header starts]
  cases parseGroup segment with
  | error panic => rfl
  | ok group => cases group <;> rfl

/-- There is no group where no segment has a header. -/
theorem groupsRead_eq_nil_iff (segments : List (List Text))
    : groupsRead segments = .ok [] ↔ ∀ segment ∈ segments, parseGroupHeader segment = none := by
  induction segments with
  | nil => simp
  | cons segment segments ih =>
      rw [List.forall_mem_cons, ← ih, groupsRead_cons]
      cases starts : parseGroupHeader segment with
      | none =>
          rw [parseGroup_of_none starts, ok_bind]
          cases groupsRead segments <;> simp [pure, Except.pure, bind, Except.bind]
      | some header =>
          rw [parseGroup, starts]
          simp only
          generalize parseConditions header.body = call
          cases call with
          | error panic => simp [bind, Except.bind]
          | ok conditions =>
              cases groupsRead segments <;> simp [pure, Except.pure, bind, Except.bind]

/-- The body of a group is made of its words. -/
theorem body_of_parseGroupHeader {segment : List Text} {header : GroupHeader}
    (starts : parseGroupHeader segment = some header)
    : header.body ⊆ segment := by
  cases segment with
  | nil => cases starts
  | cons first rest =>
      rw [parseGroupHeader] at starts
      split at starts
      · split at starts
        · cases starts
          exact List.subset_cons_self first rest
        · cases starts
      · split at starts
        · simp only [Option.bind_eq_bind, Option.bind_eq_some_iff] at starts
          obtain ⟨validity, -, range, -, same⟩ := starts
          cases same
          exact fun word member => List.mem_cons_of_mem _ (List.mem_of_mem_tail member)
        · simp only [Option.bind_eq_bind, Option.bind_eq_some_iff] at starts
          obtain ⟨probability, -, percent, -, validity, -, range, -, same⟩ := starts
          cases same
          exact fun word member => List.mem_cons_of_mem _ (List.mem_of_mem_tail member)

theorem returns_parseConditions {words : List Text} (ascii : ∀ word ∈ words, IsAscii word)
    : Returns (parseConditions words) :=
  returns_foldlM_addTafToken ascii {}

/-- Groups in ASCII are read, by induction on the segments. -/
theorem returns_groupsRead {segments : List (List Text)}
    (ascii : ∀ segment ∈ segments, ∀ word ∈ segment, IsAscii word)
    : Returns (groupsRead segments) := by
  induction segments with
  | nil => exact returns_ok _
  | cons segment segments ih =>
      rw [groupsRead_cons]
      have here : Returns (parseGroup segment) := by
        rw [parseGroup]
        split
        · exact returns_pure _
        · next header starts =>
            refine (returns_parseConditions fun word member => ?_).bind fun _ _ => returns_pure _
            exact ascii segment (by simp) word (body_of_parseGroupHeader starts member)
      refine here.bind fun group _ => ?_
      exact (ih fun other member => ascii other (by simp [member])).bind fun _ _ => returns_pure _

end Emwin.Parser
