import Emwin.Parser.TafReports

/-! What the words of a forecast add to its conditions, word by word. -/

namespace Emwin.Parser
open Library

/-- What one word adds. -/
inductive TafItem where
  | wind (wind : TafWind)
  | visibility (token : Text)
  | shear (shear : TafWindShear)
  | sky (sky : TafSkyCondition)
  | weather (token : Text)
  deriving DecidableEq, Repr

/-- What conditions have at most once, and whether they have it. -/
@[ext] structure Given where
  wind : Bool
  visibility : Bool
  shear : Bool
  deriving DecidableEq, Repr

def TafConditions.given (conditions : TafConditions) : Given where
  wind := conditions.wind.isSome
  visibility := conditions.visibility.isSome
  shear := conditions.windShear.isSome

def TafConditions.add (conditions : TafConditions) : TafItem → TafConditions
  | .wind wind => { conditions with wind := some wind }
  | .visibility token => { conditions with visibility := some token }
  | .shear shear => { conditions with windShear := some shear }
  | .sky sky => { conditions with skyConditions := conditions.skyConditions ++ [sky] }
  | .weather token => { conditions with weather := conditions.weather ++ [token] }

def Given.add (given : Given) : TafItem → Given
  | .wind _ => { given with wind := true }
  | .visibility _ => { given with visibility := true }
  | .shear _ => { given with shear := true }
  | .sky _ => given
  | .weather _ => given

/-- An item of which there is none yet, if there may be only one. -/
def Given.Lacks (given : Given) : TafItem → Prop
  | .wind _ => given.wind = false
  | .visibility _ => given.visibility = false
  | .shear _ => given.shear = false
  | .sky _ => True
  | .weather _ => True

/-- A cover, or weather, or nothing. -/
def readCover (token : Text) : Option TafItem :=
  match parseTafSkyCondition token with
  | some sky => some (.sky sky)
  | none => if isTafWeatherToken token then some (.weather token) else none

/-- What a word is read as behind what is given. -/
def readItem (given : Given) (token : Text) : Except Panic (Option TafItem) := do
  let wind ← if given.wind then pure none else parseTafWind token
  match wind with
  | some wind => return some (.wind wind)
  | none =>
      if !given.visibility && isTafVisibilityToken token then return some (.visibility token)
      else do
        let shear ← if given.shear then pure none else parseWindShear token
        match shear with
        | some shear => return some (.shear shear)
        | none => return readCover token

/-- What words in a row are read as. -/
def itemsRead : Given → List Text → Except Panic (List TafItem)
  | _, [] => return []
  | given, token :: rest => do
      match ← readItem given token with
      | none => itemsRead given rest
      | some item => do
          let items ← itemsRead (given.add item) rest
          return item :: items

@[simp] theorem TafConditions.given_add (conditions : TafConditions) (item : TafItem)
    : (conditions.add item).given = conditions.given.add item := by
  cases item <;> rfl

/-- One word is read as an item and the item is added. -/
theorem addTafToken_eq (conditions : TafConditions) (token : Text)
    : addTafToken conditions token
      = (fun item => (item.map conditions.add).getD conditions)
        <$> readItem conditions.given token := by
  obtain ⟨wind, visibility, weather, sky, shear⟩ := conditions
  simp only [addTafToken, readItem, readCover, TafConditions.given]
  generalize parseTafWind token = windRead
  generalize isTafVisibilityToken token = isVisibility
  generalize parseWindShear token = shearRead
  generalize parseTafSkyCondition token = skyRead
  generalize isTafWeatherToken token = isWeather
  -- the words are tried in this order, a slot that is taken not at all
  rcases wind with _ | wind
  · rcases windRead with panic | (_ | wind)
    · rfl
    · rcases visibility with _ | visibility
      · cases isVisibility with
        | true => rfl
        | false =>
            rcases shear with _ | shear
            · rcases shearRead with panic | (_ | shear)
              · rfl
              · cases skyRead <;> cases isWeather <;> rfl
              · rfl
            · cases skyRead <;> cases isWeather <;> rfl
      · rcases shear with _ | shear
        · rcases shearRead with panic | (_ | shear)
          · rfl
          · cases skyRead <;> cases isWeather <;> rfl
          · rfl
        · cases skyRead <;> cases isWeather <;> rfl
    · rfl
  · rcases visibility with _ | visibility
    · cases isVisibility with
      | true => rfl
      | false =>
          rcases shear with _ | shear
          · rcases shearRead with panic | (_ | shear)
            · rfl
            · cases skyRead <;> cases isWeather <;> rfl
            · rfl
          · cases skyRead <;> cases isWeather <;> rfl
    · rcases shear with _ | shear
      · rcases shearRead with panic | (_ | shear)
        · rfl
        · cases skyRead <;> cases isWeather <;> rfl
        · rfl
      · cases skyRead <;> cases isWeather <;> rfl

/-- The items are read first and then added, by induction on the words. -/
theorem foldlM_addTafToken (words : List Text) (conditions : TafConditions)
    : words.foldlM addTafToken conditions
      = (fun items => items.foldl TafConditions.add conditions)
        <$> itemsRead conditions.given words := by
  induction words generalizing conditions with
  | nil => rfl
  | cons token rest ih =>
      rw [List.foldlM_cons, addTafToken_eq, itemsRead]
      cases readItem conditions.given token with
      | error panic => rfl
      | ok item =>
          cases item with
          | none => exact ih conditions
          | some item =>
              refine (ih (conditions.add item)).trans ?_
              rw [TafConditions.given_add]
              simp only [ok_bind]
              cases itemsRead (conditions.given.add item) rest with
              | error panic => rfl
              | ok items => rfl

-----------------------------------------------------------------------------------------
-- What one reading does
-----------------------------------------------------------------------------------------

/-- Every way to read a word, with what was tried before. -/
theorem readItem_cases {given : Given} {token : Text} {found : Option TafItem}
    (read : readItem given token = .ok found)
    : (∃ wind, given.wind = false ∧ parseTafWind token = .ok (some wind)
        ∧ found = some (.wind wind))
      ∨ (given.wind = true ∨ parseTafWind token = .ok none)
        ∧ (given.visibility = false ∧ isTafVisibilityToken token = true
            ∧ found = some (.visibility token)
          ∨ (given.visibility = true ∨ isTafVisibilityToken token = false)
            ∧ ((∃ shear, given.shear = false ∧ parseWindShear token = .ok (some shear)
                ∧ found = some (.shear shear))
              ∨ (given.shear = true ∨ parseWindShear token = .ok none)
                ∧ found = readCover token)) := by
  obtain ⟨wind, visibility, shear⟩ := given
  have behind (read : readItem ⟨true, visibility, shear⟩ token = .ok found)
      : visibility = false ∧ isTafVisibilityToken token = true
          ∧ found = some (.visibility token)
        ∨ (visibility = true ∨ isTafVisibilityToken token = false)
          ∧ ((∃ found', shear = false ∧ parseWindShear token = .ok (some found')
              ∧ found = some (.shear found'))
            ∨ (shear = true ∨ parseWindShear token = .ok none) ∧ found = readCover token) := by
    have sheared (read : readItem ⟨true, true, shear⟩ token = .ok found)
        : (∃ found', shear = false ∧ parseWindShear token = .ok (some found')
            ∧ found = some (.shear found'))
          ∨ (shear = true ∨ parseWindShear token = .ok none) ∧ found = readCover token := by
      cases shear with
      | true => exact .inr ⟨.inl rfl, (Except.ok.inj read).symm⟩
      | false =>
          have read : (parseWindShear token >>= fun shear =>
              match shear with
              | some shear => pure (some (.shear shear))
              | none => pure (readCover token)) = Except.ok found := read
          obtain ⟨sheared, here, read⟩ := exceptBind_ok_iff.mp read
          cases sheared with
          | some sheared => exact .inl ⟨sheared, rfl, here, (Except.ok.inj read).symm⟩
          | none => exact .inr ⟨.inr here, (Except.ok.inj read).symm⟩
    cases visibility with
    | true => exact .inr ⟨.inl rfl, sheared read⟩
    | false =>
        cases isVisibility : isTafVisibilityToken token with
        | true =>
            simp only [readItem, isVisibility] at read
            exact .inl ⟨rfl, rfl, (Except.ok.inj read).symm⟩
        | false =>
            have same : readItem ⟨true, true, shear⟩ token = readItem ⟨true, false, shear⟩ token := by
              simp only [readItem, isVisibility]
              rfl
            exact .inr ⟨.inr rfl, sheared (same.trans read)⟩
  cases wind with
  | true => exact .inr ⟨.inl rfl, behind read⟩
  | false =>
      obtain ⟨wound, here, later⟩ := exceptBind_ok_iff.mp
        (show parseTafWind token >>= _ = Except.ok found from read)
      cases wound with
      | some wound => exact .inl ⟨wound, rfl, here, (Except.ok.inj later).symm⟩
      | none => exact .inr ⟨.inr here, behind later⟩

-----------------------------------------------------------------------------------------
-- Items that fit
-----------------------------------------------------------------------------------------

/-- Items of which none is had twice. -/
def Given.Fits : Given → List TafItem → Prop
  | _, [] => True
  | given, item :: items => given.Lacks item ∧ (given.add item).Fits items

theorem lacks_readCover {given : Given} {token : Text} {item : TafItem}
    (cover : readCover token = some item)
    : given.Lacks item ∧ given.add item = given := by
  rw [readCover] at cover
  split at cover
  · cases cover
    exact ⟨trivial, rfl⟩
  · split at cover
    · cases cover
      exact ⟨trivial, rfl⟩
    · cases cover

theorem lacks_of_readItem {given : Given} {token : Text} {item : TafItem}
    (read : readItem given token = .ok (some item))
    : given.Lacks item := by
  rcases readItem_cases read with ⟨wind, lacks, -, same⟩ | ⟨-, ⟨lacks, -, same⟩ | ⟨-, more⟩⟩
  · cases same
    exact lacks
  · cases same
    exact lacks
  · rcases more with ⟨shear, lacks, -, same⟩ | ⟨-, cover⟩
    · cases same
      exact lacks
    · exact (lacks_readCover cover.symm).1

/-- By induction on the words. -/
theorem fits_of_itemsRead {words : List Text} {given : Given} {items : List TafItem}
    (read : itemsRead given words = .ok items)
    : given.Fits items := by
  induction words generalizing given items with
  | nil =>
      obtain rfl := Except.ok.inj read
      trivial
  | cons token rest ih =>
      rw [itemsRead, exceptBind_ok_iff] at read
      obtain ⟨item, here, later⟩ := read
      cases item with
      | none => exact ih later
      | some item =>
          rw [exceptBind_ok_iff] at later
          obtain ⟨others, later, same⟩ := later
          obtain rfl := Except.ok.inj same
          exact ⟨lacks_of_readItem here, ih later⟩

/-- How much there is. -/
def TafConditions.count (conditions : TafConditions) : Nat :=
  conditions.wind.toList.length + conditions.visibility.toList.length
  + conditions.windShear.toList.length + conditions.skyConditions.length
  + conditions.weather.length

theorem TafConditions.count_add {conditions : TafConditions} {item : TafItem}
    (lacks : conditions.given.Lacks item)
    : (conditions.add item).count = conditions.count + 1 := by
  cases item with
  | wind wind =>
      have none : conditions.wind = none := by simpa [Given.Lacks, given] using lacks
      simp [add, count, none]
      omega
  | visibility token =>
      have none : conditions.visibility = none := by simpa [Given.Lacks, given] using lacks
      simp [add, count, none]
      omega
  | shear shear =>
      have none : conditions.windShear = none := by simpa [Given.Lacks, given] using lacks
      simp [add, count, none]
      omega
  | sky sky =>
      simp [add, count]
      omega
  | weather token =>
      simp [add, count]
      omega

/-- Every item counts, by induction on them. -/
theorem count_foldl_add {items : List TafItem} {conditions : TafConditions}
    (fits : conditions.given.Fits items)
    : (items.foldl TafConditions.add conditions).count = conditions.count + items.length := by
  induction items generalizing conditions with
  | nil => rfl
  | cons item items ih =>
      obtain ⟨lacks, later⟩ := fits
      rw [List.foldl_cons, ih (by rwa [TafConditions.given_add]),
        TafConditions.count_add lacks, List.length_cons]
      omega

/-- What is added can be told from the conditions. -/
theorem TafConditions.add_injective {conditions : TafConditions} {left right : TafItem}
    (lacksLeft : conditions.given.Lacks left) (lacksRight : conditions.given.Lacks right)
    (same : conditions.add left = conditions.add right)
    : left = right := by
  have wind := congrArg TafConditions.wind same
  have visibility := congrArg TafConditions.visibility same
  have shear := congrArg TafConditions.windShear same
  have sky := congrArg TafConditions.skyConditions same
  have weather := congrArg TafConditions.weather same
  cases left <;> cases right <;> simp_all [add, Given.Lacks, given]

/-- At most one item more is told from the conditions. -/
theorem eq_of_foldl_add {items few : List TafItem} {conditions : TafConditions}
    (fits : conditions.given.Fits items) (fitsFew : conditions.given.Fits few)
    (atMost : few.length ≤ 1)
    (same : items.foldl TafConditions.add conditions = few.foldl TafConditions.add conditions)
    : items = few := by
  have counts := congrArg TafConditions.count same
  rw [count_foldl_add fits, count_foldl_add fitsFew] at counts
  match items, few, fits, fitsFew with
  | [], [], _, _ => rfl
  | [left], [right], fits, fitsFew =>
      rw [TafConditions.add_injective fits.1 fitsFew.1 same]
  | [], _ :: _, _, _ => simp at counts
  | _ :: _, [], _, _ => simp at counts
  | _ :: _ :: _, [_], _, _ => simp at counts
  | _, _ :: _ :: _, _, _ => simp at atMost

-----------------------------------------------------------------------------------------
-- What is given by words
-----------------------------------------------------------------------------------------

def isTafWindToken (token : Text) : Bool :=
  match parseTafWind token with
  | .ok (some _) => true
  | _ => false

def isWindShearToken (token : Text) : Bool :=
  match parseWindShear token with
  | .ok (some _) => true
  | _ => false

/-- What words give. -/
def givenBy (words : List Text) : Given where
  wind := words.any isTafWindToken
  visibility := words.any isTafVisibilityToken
  shear := words.any isWindShearToken

/-- What is in knots is no visibility. -/
theorem not_isTafVisibilityToken {token : Text} (knots : "KT".toList <:+ token)
    : isTafVisibilityToken token = false := by
  have notMiles : ¬ "SM".toList <:+ token := fun miles =>
    absurd ((List.suffix_of_suffix_length_le knots miles (by decide)).eq_of_length (by decide))
      (by decide)
  have notCavok : token ≠ "CAVOK".toList := by
    rintro rfl
    exact absurd knots (by decide)
  have notFar : token ≠ "9999".toList := by
    rintro rfl
    exact absurd knots (by decide)
  simp only [isTafVisibilityToken, Bool.or_eq_false_iff, Bool.and_eq_false_iff,
    decide_eq_false_iff_not]
  exact ⟨⟨⟨notCavok, notFar⟩, notMiles⟩, .inr notMiles⟩

/-- A wind is in knots and starts with a digit or as variable. -/
theorem parseTafWind_spec {token : Text} {wind : TafWind}
    (parsed : parseTafWind token = .ok (some wind))
    : "KT".toList <:+ token ∧ ∃ first ∈ token.head?, first.isDigit = true ∨ first = 'V' := by
  rw [parseTafWind] at parsed
  split at parsed
  · cases parsed
  · next core stripped =>
      obtain rfl := stripSuffix_eq_some stripped
      refine ⟨List.suffix_append _ _, ?_⟩
      split at parsed
      · next rest variableWind =>
          obtain rfl := stripPrefix_eq_some variableWind
          exact ⟨'V', rfl, .inr rfl⟩
      · split at parsed
        · cases parsed
        · obtain ⟨direction, front, parsed⟩ := exceptBind_ok_iff.mp parsed
          obtain ⟨rest, -, parsed⟩ := exceptBind_ok_iff.mp parsed
          split at parsed
          · next digits =>
              obtain ⟨behind, rfl, size⟩ := sliceTo_eq_ok_iff.mp front
              cases direction with
              | nil => simp [utf8Len] at size
              | cons first more =>
                  exact ⟨first, rfl, .inl (List.all_eq_true.mp digits first (by simp))⟩
          · cases parsed

/-- A wind shear is in knots and does not start as a wind. -/
theorem parseWindShear_spec {token : Text} {shear : TafWindShear}
    (parsed : parseWindShear token = .ok (some shear))
    : "KT".toList <:+ token ∧ token.head? = some 'W' := by
  rw [parseWindShear] at parsed
  split at parsed
  · cases parsed
  · next height wind split' =>
      obtain ⟨rest, starts, halves⟩ := Option.bind_eq_some_iff.mp split'
      obtain rfl := stripPrefix_eq_some starts
      refine ⟨?_, rfl⟩
      have behind : rest = height ++ '/' :: wind := (splitOnce_eq_some halves).1
      split at parsed
      · cases parsed
      · split at parsed
        · next hundreds core _ stripped =>
            rw [behind, stripSuffix_eq_some stripped]
            exact ⟨"WS".toList ++ height ++ '/' :: core, by simp⟩
        · cases parsed

/-- A wind is nothing else. -/
theorem not_others_of_isTafWindToken {token : Text} (isWind : isTafWindToken token = true)
    : isTafVisibilityToken token = false ∧ isWindShearToken token = false := by
  rw [isTafWindToken] at isWind
  split at isWind
  · next wind parsed =>
      obtain ⟨knots, first, starts, shown⟩ := parseTafWind_spec parsed
      refine ⟨not_isTafVisibilityToken knots, ?_⟩
      rw [isWindShearToken]
      split
      · next shear sheared =>
          obtain ⟨-, starts'⟩ := parseWindShear_spec sheared
          obtain rfl : 'W' = first := by
            rw [starts'] at starts
            simpa using starts
          revert shown
          decide
      · rfl
  · cases isWind

/-- A visibility is no wind shear. -/
theorem not_isWindShearToken_of_isTafVisibilityToken {token : Text}
    (isVisibility : isTafVisibilityToken token = true)
    : isWindShearToken token = false := by
  rw [isWindShearToken]
  split
  · next shear sheared =>
      rw [not_isTafVisibilityToken (parseWindShear_spec sheared).1] at isVisibility
      cases isVisibility
  · rfl

/-- What is given behind a word that was read. -/
theorem given_of_readItem {given : Given} {token : Text} {found : Option TafItem}
    (read : readItem given token = .ok found)
    : (found.map given.add).getD given
      = ⟨given.wind || isTafWindToken token, given.visibility || isTafVisibilityToken token,
          given.shear || isWindShearToken token⟩ := by
  have notWind (none : given.wind = true ∨ parseTafWind token = .ok none)
      : (given.wind || isTafWindToken token) = given.wind := by
    rcases none with none | none
    · simp [none]
    · simp [isTafWindToken, none]
  rcases readItem_cases read with ⟨wind, -, here, rfl⟩ | ⟨noWind, behind⟩
  · have isWind : isTafWindToken token = true := by simp [isTafWindToken, here]
    obtain ⟨noVisibility, noShear⟩ := not_others_of_isTafWindToken isWind
    simp [Given.add, isWind, noVisibility, noShear]
  rcases behind with ⟨-, here, rfl⟩ | ⟨noVisibility, behind⟩
  · have noShear := not_isWindShearToken_of_isTafVisibilityToken here
    simp [Given.add, notWind noWind, here, noShear]
  have notVisibility
      : (given.visibility || isTafVisibilityToken token) = given.visibility := by
    rcases noVisibility with none | none
    · simp [none]
    · simp [none]
  rcases behind with ⟨shear, -, here, rfl⟩ | ⟨noShear, cover⟩
  · have isShear : isWindShearToken token = true := by simp [isWindShearToken, here]
    simp [Given.add, notWind noWind, notVisibility, isShear]
  have notShear : (given.shear || isWindShearToken token) = given.shear := by
    rcases noShear with none | none
    · simp [none]
    · simp [isWindShearToken, none]
  rw [notWind noWind, notVisibility, notShear]
  cases found with
  | none => rfl
  | some item => exact (lacks_readCover cover.symm).2

/-- What is given behind words that were read, by induction on them. -/
theorem given_of_foldlM {words : List Text} {conditions found : TafConditions}
    (read : words.foldlM addTafToken conditions = .ok found)
    : found.given
      = ⟨conditions.given.wind || (givenBy words).wind,
          conditions.given.visibility || (givenBy words).visibility,
          conditions.given.shear || (givenBy words).shear⟩ := by
  induction words generalizing conditions with
  | nil =>
      obtain rfl := Except.ok.inj read
      simp [givenBy]
  | cons token rest ih =>
      rw [List.foldlM_cons, addTafToken_eq, exceptBind_ok_iff] at read
      obtain ⟨next, here, later⟩ := read
      cases item : readItem conditions.given token with
      | error panic =>
          rw [item] at here
          cases here
      | ok item' =>
          rw [item] at here
          obtain rfl := Except.ok.inj here
          have given := given_of_readItem item
          have same : ((item'.map conditions.add).getD conditions).given
              = (item'.map conditions.given.add).getD conditions.given := by
            cases item' with
            | none => rfl
            | some added => exact conditions.given_add added
          rw [ih later, same, given]
          simp [givenBy, Bool.or_assoc]

/-- What conditions that were read have. -/
theorem given_of_parseConditions {words : List Text} {found : TafConditions}
    (read : parseConditions words = .ok found)
    : found.given = givenBy words := by
  rw [given_of_foldlM read]
  simp [TafConditions.given]

-----------------------------------------------------------------------------------------
-- Words in ASCII
-----------------------------------------------------------------------------------------

theorem returns_parseTafWind {token : Text} (ascii : IsAscii token)
    : Returns (parseTafWind token) := by
  rw [parseTafWind]
  split
  · exact returns_pure _
  · next core stripped =>
      split
      · exact returns_pure _
      · split
        · exact returns_pure _
        · next long =>
            obtain rfl := stripSuffix_eq_some stripped
            have asciiCore : IsAscii core := fun c member => ascii c (by simp [member])
            rw [asciiCore.utf8Len_eq] at long
            rw [asciiCore.sliceTo_eq (by omega), asciiCore.sliceFrom_eq (by omega)]
            simp only [ok_bind]
            split <;> exact returns_pure _

theorem returns_parseWindShear {token : Text} (ascii : IsAscii token)
    : Returns (parseWindShear token) := by
  rw [parseWindShear]
  split
  · exact returns_pure _
  · next height wind halves =>
      obtain ⟨rest, starts, halves⟩ := Option.bind_eq_some_iff.mp halves
      obtain rfl := stripPrefix_eq_some starts
      obtain ⟨rfl, -⟩ := splitOnce_eq_some halves
      split
      · exact returns_pure _
      · split
        · next hundreds core _ stripped =>
            obtain rfl := stripSuffix_eq_some stripped
            have asciiCore : IsAscii core := fun c member => ascii c (by simp [member])
            split
            · exact returns_pure _
            · next size =>
                have size : core.length = 5 := by
                  rw [← asciiCore.utf8Len_eq]
                  simpa using size
                rw [asciiCore.sliceTo_eq (by omega), asciiCore.sliceFrom_eq (by omega)]
                simp only [ok_bind]
                split <;> exact returns_pure _
        · exact returns_pure _

theorem returns_readItem {token : Text} (ascii : IsAscii token) (given : Given)
    : Returns (readItem given token) := by
  obtain ⟨wind, visibility, shear⟩ := given
  have sheared : Returns (readItem ⟨true, true, shear⟩ token) := by
    cases shear with
    | true => exact returns_pure _
    | false =>
        refine (returns_parseWindShear ascii).bind fun shear _ => ?_
        cases shear <;> exact returns_pure _
  have behind : Returns (readItem ⟨true, visibility, shear⟩ token) := by
    cases visibility with
    | true => exact sheared
    | false =>
        cases isVisibility : isTafVisibilityToken token with
        | true =>
            simp only [readItem, isVisibility]
            exact returns_pure _
        | false =>
            have same : readItem ⟨true, true, shear⟩ token = readItem ⟨true, false, shear⟩ token := by
              simp only [readItem, isVisibility]
              rfl
            rwa [← same]
  cases wind with
  | true => exact behind
  | false =>
      refine (returns_parseTafWind ascii).bind fun wind _ => ?_
      cases wind with
      | some wind => exact returns_pure _
      | none => exact behind

/-- Conditions in ASCII are read, by induction on their words. -/
theorem returns_foldlM_addTafToken {words : List Text} (ascii : ∀ word ∈ words, IsAscii word)
    (conditions : TafConditions)
    : Returns (words.foldlM addTafToken conditions) := by
  induction words generalizing conditions with
  | nil => exact returns_pure _
  | cons token rest ih =>
      rw [List.foldlM_cons, addTafToken_eq]
      have here : Returns ((fun item => (item.map conditions.add).getD conditions)
          <$> readItem conditions.given token) :=
        map_returns_iff.mpr (returns_readItem (ascii token (by simp)) conditions.given)
      exact here.bind fun next _ => ih (fun word member => ascii word (by simp [member])) next

end Emwin.Parser
