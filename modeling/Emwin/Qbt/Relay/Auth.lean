import Emwin.Qbt.Protocol.Model

/-! Logon messages, and the relay's incremental parser for them. -/

namespace Emwin.Qbt
open Library

def logonPrefix : Text := "ByteBlast Client|NM-".toList
def logonSuffix : Text := "|V2".toList

structure QbtAuthMessage where
  email : Text
  deriving DecidableEq, Repr

/-- The logon message of a user, before the wire transform. -/
def buildLogonMessage (email : Text) : Text := logonPrefix ++ email ++ logonSuffix

def parseLogonMessage (message : Text) : Option QbtAuthMessage := do
  let payload ← logonPrefix.isPrefixOf? message
  let email := trim (← logonSuffix.isSuffixOf? payload)
  if email = [] then none else some { email }

/-- Bytes of decoded text that the parser keeps. -/
def authTextLimit : Nat := 8192

structure AuthParser where
  decodedText : Text := []
  deriving DecidableEq, Repr

namespace AuthParser

/-- The trailing bytes within the limit. Splitting a string inside a character panics,
which gives no result.
-/
def keepTail (text : Text) : Option Text :=
  if utf8Len text > authTextLimit then
    (splitOff (utf8Len text - authTextLimit) text).map Prod.snd
  else some text

/-- Cut the first complete logon message out of the text and read its e-mail address. -/
def takeLogon (text : Text) : Option Text × AuthParser :=
  match windowPosition logonPrefix text with
  | none => (none, { decodedText := text })
  | some start =>
      let afterPrefix := start + logonPrefix.length
      match windowPosition logonSuffix (text.drop afterPrefix) with
      | none => (none, { decodedText := text })
      | some suffixRel =>
          let messageEnd := afterPrefix + suffixRel + logonSuffix.length
          let message := (text.take messageEnd).drop start
          ((parseLogonMessage message).map QbtAuthMessage.email,
            { decodedText := text.drop messageEnd })

/-- Consume one wire chunk; no result means that the call panicked. -/
def consume (parser : AuthParser) (wire : Bytes) : Option (Option Text × AuthParser) :=
  (keepTail (parser.decodedText ++ fromUtf8Lossy (xorFf wire))).map takeLogon

/-- The retained text and the new text fit the limit, or the cut at the limit falls between
two characters.
-/
def Fits (parser : AuthParser) (wire : Bytes) : Prop :=
  let text := parser.decodedText ++ fromUtf8Lossy (xorFf wire)
  utf8Len text ≤ authTextLimit
  ∨ ∃ dropped kept, text = dropped ++ kept ∧ utf8Len kept = authTextLimit

/-- The parser panics on exactly the chunks that do not fit. -/
theorem consume_isSome_iff (parser : AuthParser) (wire : Bytes)
    : (parser.consume wire).isSome ↔ parser.Fits wire := by
  simp only [consume, Fits, Option.isSome_map]
  generalize parser.decodedText ++ fromUtf8Lossy (xorFf wire) = text
  unfold keepTail
  split
  · next long =>
      have short : ¬ utf8Len text ≤ authTextLimit := by omega
      simp only [Option.isSome_map, splitOff_isSome_iff, short, false_or]
      constructor
      · rintro ⟨dropped, kept, rfl, offset⟩
        rw [utf8Len_append] at offset long
        exact ⟨dropped, kept, rfl, by omega⟩
      · rintro ⟨dropped, kept, rfl, size⟩
        exact ⟨dropped, kept, rfl, by rw [utf8Len_append]; omega⟩
  · next short =>
      simp only [Option.isSome_some, true_iff]
      exact .inl (by omega)

end AuthParser

end Emwin.Qbt
