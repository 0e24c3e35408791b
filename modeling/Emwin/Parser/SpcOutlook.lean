import Emwin.Library.Words
import Emwin.Parser.Header
import Emwin.Parser.LatLon

/-! Points products of outlooks: categories, their areas, and the points of these, which are tokens
of a latitude and a longitude of four digits each with `99999999` between polygons.
-/

namespace Emwin.Parser
open Library

variable {F : Type} [Measure F]

-----------------------------------------------------------------------------------------
-- Polygons
-----------------------------------------------------------------------------------------

/-- The points of tokens that hold a pair each. -/
def tokenPoints : List Text → Except Panic (Option (List (F × F)))
  | [] => return some []
  | token :: rest => do
      let latPart ← sliceTo 4 token
      match (Measure.parse latPart : Option F) with
      | none => return none
      | some lat => do
          let lonPart ← sliceFrom 4 token
          match (Measure.parse lonPart : Option F) with
          | none => return none
          | some lon => do
              let later ← tokenPoints rest
              return later.map ((lat / (100 : Nat), -(lon / (100 : Nat))) :: ·)

def buildPolygon (tokens : List Text) : Except Panic (Option (LatLonPolygon F)) :=
  if tokens.length < 3 then return none
  else do
    let points ← tokenPoints (F := F) tokens
    return points.map fun points => ⟨closeRing points, formatPolygonWkt (closeRing points)⟩

def polygonSeparator : Text := "99999999".toList

/-- The polygons of the words behind the tokens that the current one has so far. -/
def parsePolygonTokensFrom (current : List Text)
    : List Text → Except Panic (List (LatLonPolygon F))
  | [] => Option.toList <$> buildPolygon current
  | token :: rest =>
      if token = polygonSeparator then do
        let polygon ← buildPolygon current
        let later ← parsePolygonTokensFrom [] rest
        return polygon.toList ++ later
      else if utf8Len token = 8 ∧ token.all Char.isDigit then
        parsePolygonTokensFrom (current ++ [token]) rest
      else parsePolygonTokensFrom current rest

def parsePolygonTokens (rawPoints : Text) : Except Panic (List (LatLonPolygon F)) :=
  parsePolygonTokensFrom [] (splitWhitespace rawPoints)

-----------------------------------------------------------------------------------------
-- Patterns
-----------------------------------------------------------------------------------------

/-- The class `\w`, which has the letters, marks and digits of all scripts. -/
structure WordCharacters where
  accepts : Char → Bool
  ascii : ∀ c : Char, c.toNat < 0x80 → accepts c = (c.isAlphanum || c = '_')
  blank : ∀ c : Char, isWhitespace c = true → accepts c = false

/-- `\b` behind a character of a word. -/
def WordCharacters.stops (words : WordCharacters) (rest : Text) : Bool :=
  rest.head?.all fun c => !words.accepts c

/-- A literal text without regard to the case of ASCII letters. -/
def litIgnoreCase (text : Text) : Regex :=
  .sequence (text.map fun c d => asciiUppercase d == asciiUppercase c)

def validTime (digits : DecimalDigits) : Regex :=
  .concat [.sequence (List.replicate 6 digits.accepts), litIgnoreCase "Z".toList]

def validRe (digits : DecimalDigits) : Regex :=
  .concat
    [litIgnoreCase "VALID TIME".toList, .many1 isWhitespace, .group "from" (validTime digits),
      .many isWhitespace, .lit "-".toList, .many isWhitespace, .group "to" (validTime digits)]

def isUpperOrBlank (c : Char) : Bool := isUpper c || c = ' '

def categoryRe : Regex :=
  .concat
    [.lit "...".toList, .many isWhitespace,
      .group "name" (.seq (.cls isUpperOrBlank) (.lazily isUpperOrBlank)), .many isWhitespace,
      .lit "...".toList, .endOfText]

/-- The names of thresholds, in the order in which they are tried. -/
def thresholdNames : List Text :=
  ["TSTM", "MRGL", "SLGT", "ENH", "MDT", "HIGH", "ELEV", "CRIT", "EXTM", "IDRT", "SDRT", "CIG1",
    "CIG2", "CIG3"].map String.toList

def thresholdRe : Regex :=
  .group "threshold"
    (thresholdNames.foldl (fun pattern name => .alt pattern (.lit name))
      (.concat
        [.many1 Char.isDigit, .lit ".".toList, .sequence [Char.isDigit, Char.isDigit]]))

-----------------------------------------------------------------------------------------
-- Areas
-----------------------------------------------------------------------------------------

structure SpcOutlookArea (F : Type) where
  category : Text
  threshold : Text
  polygons : List (LatLonPolygon F)

/-- The name of the category that a line starts. -/
def categoryName (line : Text) : Option Text :=
  (categoryRe.captures? line).bind (captureNamed "name")

/-- The threshold that a line starts with, and the line behind it. -/
def thresholdOf (words : WordCharacters) (line : Text) : Option (Text × Text) :=
  (thresholdRe.matchBefore? words.stops line).bind fun found =>
    (captureNamed "threshold" found.captures).map fun threshold => (threshold, found.rest)

def areaEnd : Text := "&&".toList

/-- The lines of points behind the first one of an area, and the number of lines taken. -/
def rawPointLines (words : WordCharacters) : List Text → List Text × Nat
  | [] => ([], 0)
  | line :: rest =>
      let peek := trim line
      if peek = areaEnd then ([], 1)
      -- the line that starts something else is looked at again
      else if (thresholdOf words peek).isSome ∨ (categoryName peek).isSome then ([], 0)
      else
        let (points, taken) := rawPointLines words rest
        (peek :: points, taken + 1)

/-- The category and the threshold of the area that a line starts, and the line behind it. -/
def startedArea (words : WordCharacters) (category : Option Text) (line : Text)
    : Option (Text × Text × Text) := do
  let currentCategory ← category
  let (threshold, behind) ← thresholdOf words line
  return (currentCategory, threshold, behind)

/-- The areas of the lines behind those that are already taken. -/
def outlookAreasFrom (words : WordCharacters) (category : Option Text)
    : (taken : Nat) → List Text → Except Panic (List (SpcOutlookArea F))
  | _, [] => return []
  | taken + 1, _ :: rest => outlookAreasFrom words category taken rest
  | 0, line :: rest =>
      match categoryName (trim line) with
      | some name => outlookAreasFrom words (some (toAsciiUppercase name)) 0 rest
      | none =>
          if trim line = areaEnd then outlookAreasFrom words category 0 rest
          else
            match startedArea words category (trim line) with
            | some (currentCategory, threshold, behind) => do
                let (points, taken) := rawPointLines words rest
                let polygons ← parsePolygonTokens (F := F) (joinWords (trim behind :: points))
                let later ← outlookAreasFrom words category taken rest
                return ⟨currentCategory, toAsciiUppercase threshold, polygons⟩ :: later
            | none => outlookAreasFrom words category 0 rest

def parseOutlookAreas (words : WordCharacters) (text : Text)
    : Except Panic (List (SpcOutlookArea F)) :=
  outlookAreasFrom words none 0 (lines text)

-----------------------------------------------------------------------------------------
-- Bulletins
-----------------------------------------------------------------------------------------

inductive SpcOutlookKind where
  | convective
  | fireWeather

structure SpcOutlookDay (F : Type) where
  day : Nat
  cycle : Option Nat
  validFrom : Option Text
  validTo : Option Text
  outlooks : List (SpcOutlookArea F)

structure SpcOutlookBulletin (F : Type) where
  productKind : SpcOutlookKind
  days : List (SpcOutlookDay F)
  raw : Text

def dayNumbersForAfos (afos : Text) : Option (List Nat) :=
  if afos = "PTSDY1".toList ∨ afos = "PFWFD1".toList then some [1]
  else if afos = "PTSDY2".toList ∨ afos = "PFWFD2".toList then some [2]
  else if afos = "PTSDY3".toList then some [3]
  else if afos = "PTSD48".toList then some [4, 5, 6, 7, 8]
  else if afos = "PFWF38".toList then some [3, 4, 5, 6, 7, 8]
  else none

/-- A product without carriage returns, and without blanks around it. -/
def compactText (text : Text) : Text := trim (text.filter (· ≠ '\r'))

def parseSpcOutlookBulletin (digits : DecimalDigits) (words : WordCharacters) (text : Text)
    (afos : Option Text)
    : Except Panic (Option (SpcOutlookBulletin F)) :=
  let compact := compactText text
  match afos with
  | none => return none
  | some afos =>
      let productKind :=
        if "PFW".toList <+: afos then SpcOutlookKind.fireWeather else SpcOutlookKind.convective
      match dayNumbersForAfos afos with
      | none => return none
      | some days => do
          let valid := searchLines? (validRe digits) compact
          let outlooks ← parseOutlookAreas words compact
          if outlooks.isEmpty then return none
          else
            let dayOf (day : Nat) : SpcOutlookDay F :=
              { day
                cycle := none
                validFrom := valid.bind fun found => captureNamed "from" found.captures
                validTo := valid.bind fun found => captureNamed "to" found.captures
                outlooks }
            return some { productKind, days := days.map dayOf, raw := compact }

end Emwin.Parser
