import Emwin.Parser.PackedPairs
import Emwin.Parser.SpcAreas

/-! Points products as they are printed, and those whose areas keep their day and their outlines. -/

namespace Emwin.Parser
open Library

-----------------------------------------------------------------------------------------
-- Products
-----------------------------------------------------------------------------------------

def signLabel : Text := "SIGN".toList

/-- An area: a label and the words of its lines, which are outlines of points. -/
structure PrintedArea where
  label : Text
  outlines : List (List Text)
  firstWords : List Text
  /-- The first word of each further line, and the others. -/
  moreLines : List (Text × List Text)
  isLabel : IsThreshold label ∨ label = signLabel
  outlined : outlines ≠ []
  points : ∀ outline ∈ outlines, outline ≠ [] ∧ ∀ token ∈ outline, IsPackedPair token
  wrapped
    : firstWords ++ moreLines.flatMap (fun line => line.1 :: line.2)
      = [polygonSeparator].intercalate outlines

structure PrintedCategory where
  name : Text
  areas : List PrintedArea
  isName : IsCategoryName name

structure PrintedDay where
  title : Text
  day : Nat
  categories : List PrintedCategory

def PrintedDay.heading (day : PrintedDay) : Text :=
  day.title ++ (" OUTLOOK POINTS DAY ".toList ++ Nat.toDigits 10 day.day)

/-- A product: lines that name no category, and the days. -/
structure PrintedOutlook where
  preamble : List Text
  days : List PrintedDay
  quiet : ∀ line ∈ preamble, categoryName line = none

/-- What a line shows. -/
inductive OutlookLine where
  | plain (text : Text)
  | category (name : Text)
  | words (first : Text) (others : List Text)
  | areaEnd

/-- A line without blanks around it shows something, with some blanks between the words of it. -/
def OutlookLine.IsPrintedAs : OutlookLine → Text → Prop
  | .plain text, line => line = text
  | .category name, line =>
      ∃ front back,
        (∀ c ∈ front, isWhitespace c = true) ∧ (∀ c ∈ back, isWhitespace c = true)
        ∧ line = dots ++ (front ++ (name ++ (back ++ dots)))
  | .words first others, line =>
      ∃ pieces,
        (∀ piece ∈ pieces, IsSpaced isWhitespace piece) ∧ pieces.map Prod.snd = others
        ∧ line = first ++ spaced pieces
  | .areaEnd, line => line = Parser.areaEnd

def PrintedArea.words (area : PrintedArea) : List Text :=
  area.firstWords ++ area.moreLines.flatMap fun line => line.1 :: line.2

def PrintedArea.lines (area : PrintedArea) : List OutlookLine :=
  .words area.label area.firstWords
  :: area.moreLines.map fun line => OutlookLine.words line.1 line.2

def PrintedCategory.lines (category : PrintedCategory) : List OutlookLine :=
  .category category.name :: (category.areas.flatMap PrintedArea.lines ++ [.areaEnd])

def PrintedDay.lines (day : PrintedDay) : List OutlookLine :=
  .plain day.heading :: day.categories.flatMap PrintedCategory.lines

namespace PrintedOutlook

variable (product : PrintedOutlook)

def lines : List OutlookLine :=
  product.preamble.map .plain ++ product.days.flatMap PrintedDay.lines

/-- A text shows the product, with any blank lines and any blanks around its lines. -/
def IsPrintedAs (text : Text) : Prop :=
  List.Forall₂ OutlookLine.IsPrintedAs product.lines
    (shownLines (Library.lines (compactText text)))

/-- The areas with the day and the category that they are listed under. -/
def entries : List (Nat × Text × PrintedArea) :=
  product.days.flatMap fun day =>
    day.categories.flatMap fun category =>
      category.areas.map fun area => (day.day, category.name, area)

end PrintedOutlook

-----------------------------------------------------------------------------------------
-- What is read
-----------------------------------------------------------------------------------------

def outlinePolygon (outline : List Text) : LatLonPolygon ℚ :=
  ⟨closeRing (outline.map plainPoint), formatPolygonWkt (closeRing (outline.map plainPoint))⟩

/-- An area as it is listed. -/
def listedArea (entry : Nat × Text × PrintedArea) : SpcOutlookArea ℚ :=
  ⟨entry.2.1, entry.2.2.label, entry.2.2.outlines.map outlinePolygon⟩

/-- An area as it is read. -/
def readArea (entry : Nat × Text × PrintedArea) : SpcOutlookArea ℚ :=
  ⟨entry.2.1, entry.2.2.label,
    (entry.2.2.outlines.filter fun outline => 3 ≤ outline.length).map outlinePolygon⟩

/-- The areas listed under a day. -/
def PrintedOutlook.areasOf (product : PrintedOutlook) (day : Nat) : List (SpcOutlookArea ℚ) :=
  (product.entries.filter fun entry => entry.1 = day).map listedArea

/-- The days that are returned, each with its areas. -/
def returnedDays (found : Option (SpcOutlookBulletin ℚ)) : List (Nat × List (SpcOutlookArea ℚ)) :=
  found.toList.flatMap fun bulletin => bulletin.days.map fun day => (day.day, day.outlooks)

/-- Every day of the product is returned, and every day with the areas listed under it. -/
def PrintedOutlook.KeepsAreas (product : PrintedOutlook) (digits : DecimalDigits)
    (words : WordCharacters) (text : Text) (afos : Option Text) : Prop :=
  ∃ found,
    parseSpcOutlookBulletin digits words text afos = .ok found
    ∧ (∀ day ∈ product.days, day.day ∈ (returnedDays found).map Prod.fst)
    ∧ ∀ entry ∈ returnedDays found, entry.2 = product.areasOf entry.1

/-- No heading behind a category starts with a threshold. -/
def QuietHeadings (words : WordCharacters) : (seen : Bool) → List PrintedDay → Prop
  | _, [] => True
  | seen, day :: rest =>
      (seen = true → thresholdOf words day.heading = none)
      ∧ QuietHeadings words (seen || !day.categories.isEmpty) rest

/-- A product of one day, that of its kind, with areas whose labels and outlines are all read. -/
structure PrintedOutlook.OneDay (product : PrintedOutlook) (words : WordCharacters)
    (afos : Option Text) : Prop where
  sameDay
    : ∃ number,
        afos.bind dayNumbersForAfos = some [number] ∧ ∀ day ∈ product.days, day.day = number
  listed : product.entries ≠ []
  read
    : ∀ entry ∈ product.entries,
        entry.2.2.label ≠ signLabel ∧ ∀ outline ∈ entry.2.2.outlines, 3 ≤ outline.length
  headings : QuietHeadings words false product.days

end Emwin.Parser
