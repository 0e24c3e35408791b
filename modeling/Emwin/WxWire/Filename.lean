import Emwin.Library.Text

/-! The file name of a Weather Wire product, from the attributes of its payload element. -/

namespace Emwin.WxWire
open Library

/-- The attribute values that name a product. -/
structure ProductAttributes where
  id : Option Text
  ttaaii : Option Text
  cccc : Option Text
  awipsid : Option Text
  deriving DecidableEq, Repr

/-- The same values as `parse_message_to_file` passes them on. -/
structure ProductNames where
  id : Text
  ttaaii : Text
  cccc : Text
  awipsid : Text
  deriving DecidableEq, Repr

def parseNames (attributes : ProductAttributes) : ProductNames where
  id := trim (attributes.id.getD [])
  ttaaii := trim (attributes.ttaaii.getD [])
  cccc := trim (attributes.cccc.getD [])
  awipsid := ((attributes.awipsid.map trim).filter (· ≠ [])).getD "NONE".toList

/-- The seconds since the epoch, none for a time before it. -/
def epochSeconds (issueUtc : Int) : Nat := (issueUtc / 1000000000).toNat

def buildFilename (awipsid ttaaii cccc id : Text) (issueUtc : Int) : Text :=
  if awipsid ≠ [] ∧ awipsid ≠ "NONE".toList then awipsid ++ ".TXT".toList
  else if ttaaii ≠ [] ∧ cccc ≠ [] then ttaaii ++ '_' :: (cccc ++ ".TXT".toList)
  else if id ≠ [] then id ++ ".TXT".toList
  else "wxwire_".toList ++ Nat.toDigits 10 (epochSeconds issueUtc) ++ ".TXT".toList

def productFilename (attributes : ProductAttributes) (issueUtc : Int) : Text :=
  let names := parseNames attributes
  buildFilename names.awipsid names.ttaaii names.cccc names.id issueUtc

theorem awipsid_ne_nil (attributes : ProductAttributes)
    : (parseNames attributes).awipsid ≠ [] := by
  unfold parseNames
  dsimp only
  cases found : (attributes.awipsid.map trim).filter (· ≠ []) with
  | none => decide
  | some value => simpa using (Option.filter_eq_some_iff.mp found).2

end Emwin.WxWire
