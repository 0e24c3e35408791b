import Emwin.Library.Lines
import Emwin.Library.Regex
import Emwin.Library.Utf8Pieces

/-! The header of a text product: conditioning of the text, the WMO heading and the AFOS line. -/

namespace Emwin.Parser
open Library

structure WmoHeaderRef where
  ttaaii : Text
  cccc : Text
  ddhhmm : Text
  bbb : Option Text
  deriving DecidableEq, Repr

structure TextProductHeader where
  ttaaii : Text
  cccc : Text
  ddhhmm : Text
  bbb : Option Text
  afos : Text
  deriving DecidableEq, Repr

inductive ParserError where
  | emptyInput
  | missingWmoLine
  | invalidWmoHeader (line : Text)
  | missingAfosLine
  | missingAfos (line : Text)
  deriving DecidableEq, Repr

-----------------------------------------------------------------------------------------
-- Patterns
-----------------------------------------------------------------------------------------

/-- The class `\d`, which has the decimal digits of all scripts. -/
structure DecimalDigits where
  accepts : Char → Bool
  ascii : ∀ c : Char, c.toNat < 0x80 → accepts c = c.isDigit

/-- A class with the ASCII digits only. -/
def DecimalDigits.asciiOnly : DecimalDigits := ⟨Char.isDigit, fun _ _ => rfl⟩

def inRange (low high : Char) (c : Char) : Bool := low ≤ c && c ≤ high

def isUpper : Char → Bool := inRange 'A' 'Z'

def isUpperOrDigit (c : Char) : Bool := isUpper c || inRange '0' '9' c

def isOneOf (list : Text) (c : Char) : Bool := c ∈ list

def ldmSequenceRe (digits : DecimalDigits) : Regex :=
  .seq (.sequence [digits.accepts, digits.accepts, digits.accepts]) (.opt (.cls isWhitespace))

/-- The fixed part of the WMO pattern. -/
def wmoFields : Regex :=
  .concat
    [.group "ttaaii" (.between isUpperOrDigit 4 2),
     .lit [' '],
     .group "cccc" (.sequence [isUpper, isUpper, isUpper, isUpper]),
     .lit [' '],
     .group "ddhhmm"
       (.sequence
         [inRange '0' '3', inRange '0' '9', inRange '0' '2', inRange '0' '9', inRange '0' '5',
          inRange '0' '9'])]

/-- The rest of it, up to the end of a line. -/
def wmoMark : Regex :=
  .concat
    [.many isWhitespace,
     .opt (.group "bbb" (.sequence [isOneOf "ACR".toList, isOneOf "ACMORT".toList, isUpper])),
     .many isWhitespace]

def wmoRe : Regex := .seq wmoFields wmoMark

def afosRe : Regex :=
  .concat
    [.group "1" (.between isUpperOrDigit 4 2), .many isWhitespace, .many (· = '\t'), .endOfText]

/-- Where `$` matches in multi-line mode. -/
def atLineEnd : Text → Bool
  | [] => true
  | c :: _ => c = '\n'

/-- What stands behind each line feed. -/
def lineStarts : Text → List Text
  | [] => []
  | c :: rest => if c = '\n' then rest :: lineStarts rest else lineStarts rest

/-- The first match between `^` and `$` in multi-line mode. -/
def searchLines? (pattern : Regex) (text : Text) : Option RegexMatch :=
  (text :: lineStarts text).findSome? (pattern.matchBefore? atLineEnd)

-----------------------------------------------------------------------------------------
-- Parsing
-----------------------------------------------------------------------------------------

def nthLine (text : Text) (index : Nat) : Option Text := (lines text)[index]?

/-- `text.get(..100).unwrap_or(text)`. -/
def searchWindow (text : Text) : Text := ((splitOff 100 text).map Prod.fst).getD text

/-- The fields of a match of the WMO pattern. -/
def wmoHeaderOf (found : RegexMatch) : WmoHeaderRef where
  ttaaii := (captureNamed "ttaaii" found.captures).getD []
  cccc := (captureNamed "cccc" found.captures).getD []
  ddhhmm := (captureNamed "ddhhmm" found.captures).getD []
  bbb := captureNamed "bbb" found.captures

def parseWmo (text : Text) : Except ParserError WmoHeaderRef :=
  match searchLines? wmoRe (searchWindow text) with
  | none => .error (.invalidWmoHeader ((nthLine text 1).getD []))
  | some found => .ok (wmoHeaderOf found)

def parseAfos (text : Text) : Except ParserError Text :=
  match nthLine text 2 with
  | none => .error .missingAfosLine
  | some line3 =>
      match (afosRe.captures? line3).bind (captureNamed "1") with
      | none => .error (.missingAfos line3)
      | some afos => .ok (trim afos)

def ldmSequence (digits : DecimalDigits) (text : Text) : Bool :=
  !((ldmSequenceRe digits).run text).isEmpty

/-- Transport artifacts removed: carriage returns and NUL, the first line if it starts with
SOH, and ETX at the end; an LDM sequence line is added if there is none.
-/
def conditionText (digits : DecimalDigits) (input : Text) : Except ParserError Text :=
  let sanitized := input.filter fun c => c ≠ '\r' && c ≠ '\x00'
  let trimmed := trim sanitized
  if trimmed = [] then .error .emptyInput
  else
    let headless :=
      if trimmed.head? = some '\x01' then ((splitOnce '\n' trimmed).map Prod.snd).getD []
      else trimmed
    let text := if headless.getLast? = some '\x03' then headless.dropLast else headless
    let conditioned := if ldmSequence digits text then text else "000 \n".toList ++ text
    match nthLine conditioned 1 with
    | none => .error .missingWmoLine
    | some line2 =>
        if (searchLines? wmoRe line2).isSome then
          .ok (if conditioned.getLast? = some '\n' then conditioned else conditioned ++ ['\n'])
        else .error (.invalidWmoHeader line2)

def normalizeTtaaii (ttaaii : Text) : Text :=
  if ttaaii.length = 4 then ttaaii ++ "00".toList else ttaaii

def parseTextProductConditioned (text : Text) : Except ParserError TextProductHeader :=
  match parseWmo text with
  | .error error => .error error
  | .ok wmo =>
      match parseAfos text with
      | .error error => .error error
      | .ok afos =>
          .ok ⟨normalizeTtaaii wmo.ttaaii, wmo.cccc, wmo.ddhhmm, wmo.bbb, afos⟩

def parseTextProduct (digits : DecimalDigits) (bytes : Bytes)
    : Except ParserError TextProductHeader :=
  match conditionText digits (fromUtf8Lossy bytes) with
  | .error error => .error error
  | .ok text => parseTextProductConditioned text

end Emwin.Parser
