import Emwin.Db.RowAgreement

/-! The geography filter of live clients, and the UGC codes that filter, summary and area rows
use for the same areas.
-/

namespace Emwin.Live
open Library Db.Rows

variable {F : Type}

structure GeoFilter where
  states : Option (List Text) := none
  counties : Option (List Text) := none
  zones : Option (List Text) := none
  fireZones : Option (List Text) := none
  marineZones : Option (List Text) := none
  deriving DecidableEq, Repr

def matchesGeoStates (allowed : Option (List Text)) (sections : List (Parser.UgcSection F))
    : Bool :=
  match allowed with
  | none => true
  | some allowed =>
      sections.any fun ugcSection =>
        ugcSection.counties.entries.any (allowed.contains ·.1)
        || ugcSection.zones.entries.any (allowed.contains ·.1)
        || ugcSection.fireZones.entries.any (allowed.contains ·.1)
        || ugcSection.marineZones.entries.any (allowed.contains ·.1)

def matchesEnrichedUgcCodes (allowed : Option (List Text))
    (sections : List (Parser.UgcSection F)) (select : Parser.UgcSection F → Parser.UgcBucket F)
    (classCode : Char)
    : Bool :=
  match allowed with
  | none => true
  | some allowed =>
      sections.any fun ugcSection =>
        (select ugcSection).entries.any fun (state, areas) =>
          areas.any fun area => allowed.contains (Parser.ugcCode state classCode area.id)

namespace GeoFilter

def hasConstraints (filter : GeoFilter) : Bool :=
  filter.states.isSome || filter.counties.isSome || filter.zones.isSome
  || filter.fireZones.isSome || filter.marineZones.isSome

def isMatch (filter : GeoFilter) (body : Option (Parser.ProductBody F)) : Bool :=
  if !filter.hasConstraints then true
  else
    match body with
    | none => false
    | some body =>
        let sections := Parser.bodyUgcSections body
        if sections.isEmpty then false
        else
          matchesGeoStates filter.states sections
          && matchesEnrichedUgcCodes filter.counties sections (·.counties) 'C'
          && matchesEnrichedUgcCodes filter.zones sections (·.zones) 'Z'
          && matchesEnrichedUgcCodes filter.fireZones sections (·.fireZones) 'F'
          && matchesEnrichedUgcCodes filter.marineZones sections (·.marineZones) 'Z'

end GeoFilter

-----------------------------------------------------------------------------------------
-- Codes
-----------------------------------------------------------------------------------------

theorem formatId_digits (id : UInt16) : ∀ c ∈ Parser.formatId id, c.isDigit = true := by
  intro c member
  rcases List.mem_append.mp member with zero | digit
  · rw [List.eq_of_mem_replicate zero]
    rfl
  · exact Nat.isDigit_of_mem_toDigits (by omega) (by omega) digit

/-- The letter of a code is the last character that is no digit. -/
theorem ugcCode_letter {state other : Text} {letter otherLetter : Char} {id otherId : UInt16}
    (noDigit : letter.isDigit = false) (otherNoDigit : otherLetter.isDigit = false)
    (same : Parser.ugcCode state letter id = Parser.ugcCode other otherLetter otherId)
    : letter = otherLetter := by
  have back (text : Text) (c : Char) (number : UInt16) (notDigit : c.isDigit = false)
      : ((Parser.ugcCode text c number).reverse.dropWhile Char.isDigit).head? = some c := by
    have digits : ∀ d ∈ (Parser.formatId number).reverse, d.isDigit = true := by
      intro d member
      exact formatId_digits number d (List.mem_reverse.mp member)
    rw [Parser.ugcCode, List.reverse_append, List.reverse_cons, List.append_assoc,
      List.dropWhile_append_of_pos digits, List.singleton_append,
      List.dropWhile_cons_of_neg (by simp [notDigit])]
    rfl
  have first := back state letter id noDigit
  rw [same, back other otherLetter otherId otherNoDigit] at first
  exact (Option.some.inj first).symm

theorem mem_bucketCodes {bucket : Parser.UgcBucket F} {letter : Char} {code : Text}
    : code ∈ Parser.bucketCodes bucket letter
      ↔ ∃ state areas area,
          (state, areas) ∈ bucket.entries ∧ area ∈ areas
          ∧ Parser.ugcCode state letter area.id = code := by
  simp only [Parser.bucketCodes, List.mem_flatMap, List.mem_map, Prod.exists]
  constructor
  · rintro ⟨state, areas, listed, area, member, same⟩
    exact ⟨state, areas, area, listed, member, same⟩
  · rintro ⟨state, areas, area, listed, member, same⟩
    exact ⟨state, areas, listed, area, member, same⟩

/-- Buckets under different letters have no code in common. -/
theorem bucketCodes_disjoint {bucket other : Parser.UgcBucket F} {letter otherLetter : Char}
    {code : Text} (noDigit : letter.isDigit = false) (otherNoDigit : otherLetter.isDigit = false)
    (different : letter ≠ otherLetter) (member : code ∈ Parser.bucketCodes bucket letter)
    : code ∉ Parser.bucketCodes other otherLetter := by
  intro inside
  obtain ⟨state, areas, area, -, -, same⟩ := mem_bucketCodes.mp member
  obtain ⟨state', areas', area', -, -, same'⟩ := mem_bucketCodes.mp inside
  exact different (ugcCode_letter noDigit otherNoDigit (same.trans same'.symm))

theorem matchesEnrichedUgcCodes_single {sections : List (Parser.UgcSection F)}
    {select : Parser.UgcSection F → Parser.UgcBucket F} {letter : Char} {code : Text}
    : matchesEnrichedUgcCodes (some [code]) sections select letter = true
      ↔ ∃ ugcSection ∈ sections, code ∈ Parser.bucketCodes (select ugcSection) letter := by
  simp only [matchesEnrichedUgcCodes, List.any_eq_true, mem_bucketCodes, Prod.exists,
    List.contains_iff_mem, List.mem_singleton]
  constructor
  · rintro ⟨ugcSection, listed, state, areas, entry, area, member, same⟩
    exact ⟨ugcSection, listed, state, areas, area, entry, member, same⟩
  · rintro ⟨ugcSection, listed, state, areas, area, entry, member, same⟩
    exact ⟨ugcSection, listed, state, areas, entry, area, member, same⟩

/-- One of the filters by class lets a product with this code pass. -/
def LiveMatch (code : Text) (body : Parser.ProductBody F) : Prop :=
  GeoFilter.isMatch { counties := some [code] } (some body) = true
  ∨ GeoFilter.isMatch { zones := some [code] } (some body) = true
  ∨ GeoFilter.isMatch { fireZones := some [code] } (some body) = true
  ∨ GeoFilter.isMatch { marineZones := some [code] } (some body) = true

/-- The live filters know an area by the code that the summary lists. -/
theorem liveMatch_iff {code : Text} {body : Parser.ProductBody F}
    : LiveMatch code body ↔ code ∈ (Parser.summaryKeys (some body)).ugcCodes := by
  have summary : code ∈ (Parser.summaryKeys (some body)).ugcCodes
      ↔ ∃ ugcSection ∈ Parser.bodyUgcSections body, code ∈ Parser.sectionCodes ugcSection := by
    rw [Parser.summaryKeys, mem_orderedSet, List.mem_flatMap]
  have byClass (select : Parser.UgcSection F → Parser.UgcBucket F) (letter : Char)
      : (∃ ugcSection ∈ Parser.bodyUgcSections body,
          code ∈ Parser.bucketCodes (select ugcSection) letter)
        ↔ (Parser.bodyUgcSections body).isEmpty = false
          ∧ matchesEnrichedUgcCodes (some [code]) (Parser.bodyUgcSections body) select letter
            = true := by
    rw [matchesEnrichedUgcCodes_single]
    constructor
    · rintro ⟨ugcSection, listed, member⟩
      refine ⟨?_, ugcSection, listed, member⟩
      cases sections : Parser.bodyUgcSections body with
      | nil =>
          rw [sections] at listed
          exact absurd listed List.not_mem_nil
      | cons first others => rfl
    · rintro ⟨-, found⟩
      exact found
  have split : (∃ ugcSection ∈ Parser.bodyUgcSections body, code ∈ Parser.sectionCodes ugcSection)
      ↔ (∃ ugcSection ∈ Parser.bodyUgcSections body,
            code ∈ Parser.bucketCodes ugcSection.counties 'C')
        ∨ (∃ ugcSection ∈ Parser.bodyUgcSections body,
            code ∈ Parser.bucketCodes ugcSection.zones 'Z')
        ∨ (∃ ugcSection ∈ Parser.bodyUgcSections body,
            code ∈ Parser.bucketCodes ugcSection.fireZones 'F')
        ∨ (∃ ugcSection ∈ Parser.bodyUgcSections body,
            code ∈ Parser.bucketCodes ugcSection.marineZones 'Z') := by
    simp only [Parser.sectionCodes, List.mem_append, and_or_left, exists_or, or_assoc]
  rw [summary, split, byClass (·.counties), byClass (·.zones), byClass (·.fireZones),
    byClass (·.marineZones)]
  simp only [LiveMatch, GeoFilter.isMatch, GeoFilter.hasConstraints, matchesGeoStates]
  cases (Parser.bodyUgcSections body).isEmpty <;> simp [matchesEnrichedUgcCodes]

/-- Rows and summary spell the same codes exactly when the body has no marine zones. A marine
zone is filed under `M` in the rows and under `Z` in the summary.
-/
theorem rowCodes_agree_iff {sections : List (Parser.UgcSection F)}
    : (∀ code, code ∈ sections.flatMap rowCodes ↔ code ∈ sections.flatMap Parser.sectionCodes)
      ↔ ∀ ugcSection ∈ sections, Parser.bucketAreas ugcSection.marineZones = [] := by
  constructor
  · intro agree ugcSection listed
    rw [← @bucketCodes_eq_nil F ugcSection.marineZones 'M']
    refine List.eq_nil_iff_forall_not_mem.mpr fun code member => ?_
    have row : code ∈ sections.flatMap rowCodes :=
      List.mem_flatMap.mpr ⟨ugcSection, listed, List.mem_append_right _ member⟩
    obtain ⟨other, -, inside⟩ := List.mem_flatMap.mp ((agree code).mp row)
    simp only [Parser.sectionCodes, List.mem_append] at inside
    obtain ((county | zone) | fire) | marine := inside
    · exact bucketCodes_disjoint rfl rfl (by decide) member county
    · exact bucketCodes_disjoint rfl rfl (by decide) member zone
    · exact bucketCodes_disjoint rfl rfl (by decide) member fire
    · exact bucketCodes_disjoint rfl rfl (by decide) member marine
  · intro none code
    have same : sections.flatMap rowCodes = sections.flatMap Parser.sectionCodes := by
      refine List.flatMap_congr fun ugcSection listed => ?_
      rw [rowCodes, Parser.sectionCodes, bucketCodes_eq_nil.mpr (none ugcSection listed),
        bucketCodes_eq_nil.mpr (none ugcSection listed)]
    rw [same]

/-- The area rows of a product have the codes of its summary exactly when no section of the body
has a marine zone; the live filters always go by the summary's codes.
-/
theorem ugc_codes_agree_iff (filename : Text) (timestampUtc : UInt64) (size : Nat)
    (body : Parser.ProductBody F) (hasArtifact : Bool) (issues : List ProductParseIssue)
    (blobs : List Db.StoredBlob) (prepared : PreparedProduct F)
    (ok
      : PreparedProduct.prepare
          (.build filename timestampUtc size (some body) hasArtifact issues) blobs
        = .ok prepared)
    : ((∀ code,
          code ∈ prepared.rows.ugcAreas.map (·.ugcCode) ↔ code ∈ prepared.row.ugcCodes)
        ↔ ∀ ugcSection ∈ Parser.bodyUgcSections body,
            Parser.bucketAreas ugcSection.marineZones = [])
      ∧ ∀ code, LiveMatch code body ↔ code ∈ prepared.row.ugcCodes := by
  obtain ⟨rowsOk, -, -, -, -, -, -, -, codes⟩ := prepare_ok ok
  have rows : prepared.rows.ugcAreas.map (·.ugcCode)
      = (Parser.bodyUgcSections body).flatMap rowCodes :=
    (areaCodes.read_body rowsOk).trans (areaCodes_body body)
  have summary : prepared.row.ugcCodes = (Parser.summaryKeys (some body)).ugcCodes := codes
  refine ⟨?_, fun code => ?_⟩
  · rw [rows, summary, ← rowCodes_agree_iff]
    simp only [Parser.summaryKeys, mem_orderedSet]
  · rw [summary]
    exact liveMatch_iff

/-- A body with one zone of a state. -/
def zoneBody (state : String) (marine : Bool) : Parser.ProductBody Int :=
  let bucket : Parser.UgcBucket Int :=
    { entries := [(state.toList, [⟨532, none, none, none⟩])]
      sorted := List.pairwise_singleton _ _ }
  .generic
    { ugc := some [{ counties := .empty, zones := if marine then .empty else bucket
                     fireZones := .empty, marineZones := if marine then bucket else .empty
                     expires := 0 }] }

theorem county_codes_agree
    : ∃ prepared,
        PreparedProduct.prepare
            (.build "ZFPBOX.TXT".toList 0 1 (some (zoneBody "MA" false)) false []) [samplePayload]
          = .ok prepared
        ∧ ∀ code, code ∈ prepared.rows.ugcAreas.map (·.ugcCode) ↔ code ∈ prepared.row.ugcCodes := by
  refine ⟨_, rfl, ?_⟩
  refine (ugc_codes_agree_iff "ZFPBOX.TXT".toList 0 1 (zoneBody "MA" false) false []
    [samplePayload] _ rfl).1.mpr ?_
  decide

/-- A marine zone is `GMM532` in the rows and `GMZ532` in the summary. -/
theorem marine_codes_differ
    : ∃ prepared,
        PreparedProduct.prepare
            (.build "CWFMFL.TXT".toList 0 1 (some (zoneBody "GM" true)) false []) [samplePayload]
          = .ok prepared
        ∧ prepared.rows.ugcAreas.map (·.ugcCode) = ["GMM532".toList]
        ∧ prepared.row.ugcCodes = ["GMZ532".toList]
        ∧ ¬ ∀ code,
              code ∈ prepared.rows.ugcAreas.map (·.ugcCode) ↔ code ∈ prepared.row.ugcCodes := by
  refine ⟨_, rfl, by decide, by decide, fun agree => ?_⟩
  exact absurd ((agree "GMM532".toList).mp (by decide)) (by decide)

end Emwin.Live
