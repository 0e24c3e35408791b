import Emwin.Db.RowReadings

/-! The prepared rows beside the live filter's view of a body and beside the summary. -/

namespace Emwin.Db.Rows
open Library

variable {F : Type}

theorem usizeToI32_ok {value : Nat} {field : Text} {index : Int}
    (ok : usizeToI32 value field = .ok index)
    : index = value := by
  unfold usizeToI32 at ok
  split_ifs at ok
  exact (Except.ok.inj ok).symm

@[simp] theorem flatMap_nil_values {α β : Type} (items : List α)
    : items.flatMap (fun _ => ([] : List β)) = [] := by
  simp

/-- What `prepare` made of a product. -/
theorem prepare_ok {metadata : CompletedFileMetadata F} {blobs : List StoredBlob}
    {prepared : PreparedProduct F} (ok : PreparedProduct.prepare metadata blobs = .ok prepared)
    : collectBodyRows metadata.body = .ok prepared.rows
      ∧ prepared.row.vtecCount = metadata.facets.vtecCount
      ∧ prepared.row.ugcCount = metadata.facets.ugcCount
      ∧ prepared.row.hvtecCount = metadata.facets.hvtecCount
      ∧ prepared.row.latlonCount = metadata.facets.latlonCount
      ∧ prepared.row.timeMotLocCount = metadata.facets.timeMotLocCount
      ∧ prepared.row.windHailCount = metadata.facets.windHailCount
      ∧ prepared.row.states = metadata.keys.states
      ∧ prepared.row.ugcCodes = metadata.keys.ugcCodes := by
  obtain ⟨payload, -, ok⟩ := exceptBind_ok_iff.mp ok
  obtain ⟨row, rowOk, ok⟩ := exceptBind_ok_iff.mp ok
  obtain ⟨rows, rowsOk, ok⟩ := exceptBind_ok_iff.mp ok
  obtain ⟨updates, -, ok⟩ := exceptBind_ok_iff.mp ok
  obtain rfl := Except.ok.inj ok
  obtain ⟨timestamp, -, rowOk⟩ := exceptBind_ok_iff.mp rowOk
  obtain ⟨size, -, rowOk⟩ := exceptBind_ok_iff.mp rowOk
  obtain ⟨vtec, vtecOk, rowOk⟩ := exceptBind_ok_iff.mp rowOk
  obtain ⟨ugc, ugcOk, rowOk⟩ := exceptBind_ok_iff.mp rowOk
  obtain ⟨hvtec, hvtecOk, rowOk⟩ := exceptBind_ok_iff.mp rowOk
  obtain ⟨latlon, latlonOk, rowOk⟩ := exceptBind_ok_iff.mp rowOk
  obtain ⟨motion, motionOk, rowOk⟩ := exceptBind_ok_iff.mp rowOk
  obtain ⟨wind, windOk, rowOk⟩ := exceptBind_ok_iff.mp rowOk
  obtain ⟨issues, -, rowOk⟩ := exceptBind_ok_iff.mp rowOk
  obtain rfl := Except.ok.inj rowOk
  exact ⟨rowsOk, usizeToI32_ok vtecOk, usizeToI32_ok ugcOk, usizeToI32_ok hvtecOk,
    usizeToI32_ok latlonOk, usizeToI32_ok motionOk, usizeToI32_ok windOk, rfl, rfl⟩

-----------------------------------------------------------------------------------------
-- The incident projection
-----------------------------------------------------------------------------------------

/-- A body as far as its incidents go. -/
def incidentBody : Parser.ProductBody F → ProductBody
  | .vtecEvent body =>
      .vtecEvent (body.segments.map fun segment =>
        ⟨segment.segmentIndex, segment.vtec.map incidentCode⟩)
  | .generic _ => .generic

def incidentMetadata (metadata : CompletedFileMetadata F) : Db.CompletedFileMetadata :=
  ⟨metadata.filename, metadata.timestampUtc, metadata.body.map incidentBody⟩

/-- The VTEC rows of a segment come from its VTEC codes only. -/
theorem collectSegmentRows_vtec {segment : Parser.VtecEventSegment F} {rows : BodyRows F}
    (ok : collectSegmentRows segment = .ok rows)
    : ∃ index,
        usizeToI32 segment.segmentIndex "segment_index".toList = .ok index
        ∧ rows.vtec = (segment.vtec.map incidentCode).map (vtecRow (some index)) := by
  have empty {α : Type} {field : String} {row : Int → α → BodyRows F} {items : List α}
      {parts : List (BodyRows F)} (partsOk : indexed field row items = .ok parts)
      (none : ∀ index item, (row index item).vtec = [])
      : (joinRows parts).vtec = [] := by
    rw [joinRows_vtec, flatMap_indexed partsOk none, flatMap_nil_values]
  obtain ⟨index, indexOk, ok⟩ := exceptBind_ok_iff.mp ok
  obtain ⟨hvtec, hvtecOk, ok⟩ := exceptBind_ok_iff.mp ok
  obtain ⟨polygons, polygonsOk, ok⟩ := exceptBind_ok_iff.mp ok
  obtain ⟨timeMotLoc, timeMotLocOk, ok⟩ := exceptBind_ok_iff.mp ok
  obtain ⟨windHail, windHailOk, ok⟩ := exceptBind_ok_iff.mp ok
  obtain ⟨ugc, ugcOk, ok⟩ := exceptBind_ok_iff.mp ok
  obtain ⟨parts, partsOk, ugcOk⟩ := exceptBind_ok_iff.mp ugcOk
  obtain rfl := Except.ok.inj ugcOk
  obtain rfl := Except.ok.inj ok
  refine ⟨index, indexOk, ?_⟩
  rw [joinRows_vtec, List.map_map]
  simp only [List.flatMap_cons, List.flatMap_nil, empty hvtecOk fun _ _ => rfl,
    empty polygonsOk fun _ _ => rfl, empty timeMotLocOk fun _ _ => rfl,
    empty windHailOk fun _ _ => rfl, empty partsOk fun _ _ => rfl, List.append_nil]
  rfl

/-- The VTEC rows of the segments, as the incident projection collects them. -/
theorem collect_incident_segments {segments : List (Parser.VtecEventSegment F)}
    {rows : List (BodyRows F)} (ok : segments.mapM collectSegmentRows = .ok rows)
    : Db.collectVtecEventRows
          (segments.map fun segment => ⟨segment.segmentIndex, segment.vtec.map incidentCode⟩)
      = .ok (rows.flatMap (·.vtec)) := by
  induction segments generalizing rows with
  | nil =>
      obtain rfl := Except.ok.inj ok
      rfl
  | cons segment segments ih =>
      rw [List.mapM_cons] at ok
      obtain ⟨first, firstOk, ok⟩ := exceptBind_ok_iff.mp ok
      obtain ⟨others, othersOk, ok⟩ := exceptBind_ok_iff.mp ok
      obtain rfl := Except.ok.inj ok
      obtain ⟨index, indexOk, vtec⟩ := collectSegmentRows_vtec firstOk
      rw [List.map_cons, Db.collectVtecEventRows, indexOk, ih othersOk, List.flatMap_cons, vtec]
      rfl

/-- The incident projection of a product is part of what is prepared for it. -/
theorem prepare_incidents {metadata : CompletedFileMetadata F} {blobs : List StoredBlob}
    {prepared : PreparedProduct F} (ok : PreparedProduct.prepare metadata blobs = .ok prepared)
    : Db.PreparedProduct.prepare (incidentMetadata metadata)
      = .ok ⟨prepared.row.sourceTimestampUtc, prepared.rows.vtec, prepared.incidentUpdates⟩ := by
  obtain ⟨payload, -, ok⟩ := exceptBind_ok_iff.mp ok
  obtain ⟨row, rowOk, ok⟩ := exceptBind_ok_iff.mp ok
  obtain ⟨rows, rowsOk, ok⟩ := exceptBind_ok_iff.mp ok
  obtain ⟨updates, updatesOk, ok⟩ := exceptBind_ok_iff.mp ok
  obtain rfl := Except.ok.inj ok
  have timestamp : sourceTimestamp metadata.timestampUtc = .ok row.sourceTimestampUtc := by
    obtain ⟨seconds, secondsOk, rowOk⟩ := exceptBind_ok_iff.mp rowOk
    obtain ⟨size, -, rowOk⟩ := exceptBind_ok_iff.mp rowOk
    obtain ⟨_, -, rowOk⟩ := exceptBind_ok_iff.mp rowOk
    obtain ⟨_, -, rowOk⟩ := exceptBind_ok_iff.mp rowOk
    obtain ⟨_, -, rowOk⟩ := exceptBind_ok_iff.mp rowOk
    obtain ⟨_, -, rowOk⟩ := exceptBind_ok_iff.mp rowOk
    obtain ⟨_, -, rowOk⟩ := exceptBind_ok_iff.mp rowOk
    obtain ⟨_, -, rowOk⟩ := exceptBind_ok_iff.mp rowOk
    obtain ⟨_, -, rowOk⟩ := exceptBind_ok_iff.mp rowOk
    obtain rfl := Except.ok.inj rowOk
    exact secondsOk
  have vtec : Db.collectBodyRows (metadata.body.map incidentBody) = .ok rows.vtec := by
    cases found : metadata.body with
    | none =>
        rw [found] at rowsOk
        obtain rfl := Except.ok.inj rowsOk
        rfl
    | some body =>
        rw [found] at rowsOk
        cases body with
        | generic body =>
            have none : rows.vtec.map _ = [] :=
              (events.read_body rowsOk).trans (by simp [Reading.body, Reading.generic, events])
            rw [List.map_eq_nil_iff.mp none]
            rfl
        | vtecEvent body =>
            obtain ⟨parts, partsOk, joined⟩ := exceptBind_ok_iff.mp rowsOk
            obtain rfl := Except.ok.inj joined
            rw [joinRows_vtec]
            exact collect_incident_segments partsOk
  exact exceptBind_ok_iff.mpr ⟨_, timestamp,
    exceptBind_ok_iff.mpr ⟨_, vtec, exceptBind_ok_iff.mpr ⟨_, updatesOk, rfl⟩⟩⟩

theorem points_segment (segment : Parser.VtecEventSegment F)
    : points.segment segment
      = segment.hvtec.filterMap Parser.HvtecCode.point?
        ++ (segment.timeMotLoc.flatMap Parser.entryPoints
            ++ segment.ugcSections.flatMap Parser.sectionPoints) := by
  simp [Reading.segment, points, List.filterMap_eq_flatMap_toList]

/-- The search points lie where the live filter looks. -/
theorem points_body_perm (body : Parser.ProductBody F)
    : (points.body (some body)).Perm body.iterLocationPoints := by
  cases body with
  | vtecEvent body =>
      refine List.Perm.flatMap_left _ fun segment _ => ?_
      rw [points_segment]
      exact List.perm_append_comm
  | generic body =>
      obtain ⟨ugc, latlon, motion, wind⟩ := body
      have split : points.body (some (.generic ⟨ugc, latlon, motion, wind⟩))
          = (ugc.getD []).flatMap Parser.sectionPoints
            ++ (motion.getD []).flatMap Parser.entryPoints := by
        simp [Reading.body, Reading.generic, points]
      have live : Parser.ProductBody.iterLocationPoints (.generic ⟨ugc, latlon, motion, wind⟩)
          = (motion.getD []).flatMap Parser.entryPoints
            ++ (ugc.getD []).flatMap Parser.sectionPoints := by
        cases ugc <;> cases motion
          <;> simp [Parser.ProductBody.iterLocationPoints, Parser.genericBodyIterLocationPoints]
      rw [split, live]
      exact List.perm_append_comm

theorem polygonTexts_body (body : Parser.ProductBody F)
    : polygonTexts.body (some body) = (Parser.bodyPolygons body).map (·.wkt) := by
  cases body with
  | vtecEvent body =>
      have perSegment (segment : Parser.VtecEventSegment F)
          : polygonTexts.segment segment = segment.polygons.map (·.wkt) := by
        simp [Reading.segment, polygonTexts, List.map_eq_flatMap]
      rw [Reading.body, Parser.bodyPolygons, List.map_flatMap]
      exact List.flatMap_congr fun segment _ => perSegment segment
  | generic body =>
      cases found : body.latlon
        <;> simp [Reading.body, Reading.generic, polygonTexts, Parser.bodyPolygons, found,
          List.map_eq_flatMap]

theorem events_length (body : Parser.ProductBody F)
    : (events.body (some body)).length = Parser.bodyVtecCount body := by
  cases body with
  | vtecEvent body =>
      simp [Reading.body, Reading.segment, events, Parser.bodyVtecCount, Parser.bodyVtecCodes,
        List.length_flatMap]
  | generic body =>
      simp [Reading.body, Reading.generic, events, Parser.bodyVtecCount, Parser.bodyVtecCodes]

theorem gauges_length (body : Parser.ProductBody F)
    : (gauges.body (some body)).length = Parser.bodyHvtecCount body := by
  cases body with
  | vtecEvent body =>
      simp [Reading.body, Reading.segment, gauges, Parser.bodyHvtecCount, Parser.bodyHvtecCodes,
        List.length_flatMap]
  | generic body =>
      simp [Reading.body, Reading.generic, gauges, Parser.bodyHvtecCount, Parser.bodyHvtecCodes]

theorem motionTexts_length (body : Parser.ProductBody F)
    : (motionTexts.body (some body)).length = Parser.bodyTimeMotLocCount body := by
  cases body with
  | vtecEvent body =>
      simp [Reading.body, Reading.segment, motionTexts, Parser.bodyTimeMotLocCount,
        List.length_flatMap]
  | generic body =>
      cases found : body.timeMotLoc
        <;> simp [Reading.body, Reading.generic, motionTexts, Parser.bodyTimeMotLocCount, found,
          List.length_flatMap]

theorem threatKinds_length (body : Parser.ProductBody F)
    : (threatKinds.body (some body)).length = Parser.bodyWindHailCount body := by
  cases body with
  | vtecEvent body =>
      simp [Reading.body, Reading.segment, threatKinds, Parser.bodyWindHailCount,
        Parser.bodyWindHailEntries, List.length_flatMap]
  | generic body =>
      cases found : body.windHail
        <;> simp [Reading.body, Reading.generic, threatKinds, Parser.bodyWindHailCount,
          Parser.bodyWindHailEntries, found, List.length_flatMap]

theorem bodyPolygons_length (body : Parser.ProductBody F)
    : (Parser.bodyPolygons body).length = Parser.bodyLatlonCount body := by
  cases body with
  | vtecEvent body => simp [Parser.bodyPolygons, Parser.bodyLatlonCount, List.length_flatMap]
  | generic body =>
      cases found : body.latlon <;> simp [Parser.bodyPolygons, Parser.bodyLatlonCount, found]

theorem bodyUgcSections_length (body : Parser.ProductBody F)
    : (Parser.bodyUgcSections body).length = Parser.bodyUgcCount body := by
  cases body with
  | vtecEvent body => simp [Parser.bodyUgcSections, Parser.bodyUgcCount, List.length_flatMap]
  | generic body =>
      cases found : body.ugc <;> simp [Parser.bodyUgcSections, Parser.bodyUgcCount, found]

/-- The area rows spell the codes of the sections. -/
theorem areaCodes_body (body : Parser.ProductBody F)
    : areaCodes.body (some body) = (Parser.bodyUgcSections body).flatMap rowCodes := by
  cases body with
  | vtecEvent body =>
      have perSegment (segment : Parser.VtecEventSegment F)
          : areaCodes.segment segment = segment.ugcSections.flatMap rowCodes := by
        simp [Reading.segment, areaCodes]
      rw [Reading.body, Parser.bodyUgcSections, List.flatMap_assoc]
      exact List.flatMap_congr fun segment _ => perSegment segment
  | generic body =>
      cases found : body.ugc
        <;> simp [Reading.body, Reading.generic, areaCodes, Parser.bodyUgcSections, found]

/-- The areas of a section, of all classes. -/
def sectionAreas (ugcSection : Parser.UgcSection F) : List (Parser.UgcArea F) :=
  Parser.bucketAreas ugcSection.counties ++ Parser.bucketAreas ugcSection.zones
  ++ Parser.bucketAreas ugcSection.fireZones ++ Parser.bucketAreas ugcSection.marineZones

theorem bucketCodes_eq_nil {bucket : Parser.UgcBucket F} {classCode : Char}
    : Parser.bucketCodes bucket classCode = [] ↔ Parser.bucketAreas bucket = [] := by
  simp [Parser.bucketCodes, Parser.bucketAreas, List.flatMap_eq_nil_iff]

theorem rowCodes_eq_nil {ugcSection : Parser.UgcSection F}
    : rowCodes ugcSection = [] ↔ sectionAreas ugcSection = [] := by
  simp [rowCodes, sectionAreas, bucketCodes_eq_nil]

/-- Where every section has an area, there are area rows exactly when there are sections. -/
theorem ugcAreas_eq_nil_iff {body : Parser.ProductBody F} {rows : BodyRows F}
    (ok : collectBodyRows (some body) = .ok rows)
    (areas : ∀ ugcSection ∈ Parser.bodyUgcSections body, sectionAreas ugcSection ≠ [])
    : rows.ugcAreas = [] ↔ Parser.bodyUgcSections body = [] := by
  have codes : rows.ugcAreas.map (·.ugcCode) = (Parser.bodyUgcSections body).flatMap rowCodes :=
    (areaCodes.read_body ok).trans (areaCodes_body body)
  rw [← List.map_eq_nil_iff (f := (·.ugcCode)), codes, List.flatMap_eq_nil_iff]
  constructor
  · intro none
    refine List.eq_nil_iff_forall_not_mem.mpr fun ugcSection member => ?_
    exact areas ugcSection member (rowCodes_eq_nil.mp (none ugcSection member))
  · intro none
    simp [none]

/-- Rows and live filters see the same points and polygons, and the counts that are stored with a
product are the numbers of its rows.
-/
theorem rows_agree_with_body [Min F] [Max F] (filename : Text) (timestampUtc : UInt64)
    (size : Nat) (body : Parser.ProductBody F) (hasArtifact : Bool)
    (issues : List ProductParseIssue) (blobs : List StoredBlob) (prepared : PreparedProduct F)
    (ok
      : PreparedProduct.prepare
          (.build filename timestampUtc size (some body) hasArtifact issues) blobs
        = .ok prepared)
    : (prepared.rows.searchPoints.map ProductSearchPointRow.point).Perm body.iterLocationPoints
      ∧ prepared.rows.polygons.map (·.polygonWkt) = (Parser.bodyPolygons body).map (·.wkt)
      ∧ body.iterPolygons
        = (Parser.bodyPolygons body).map
            (fun polygon => ⟨polygon.points, Parser.polygonBounds polygon.points⟩)
      ∧ prepared.row.vtecCount = prepared.rows.vtec.length
      ∧ prepared.row.hvtecCount = prepared.rows.hvtec.length
      ∧ prepared.row.latlonCount = prepared.rows.polygons.length
      ∧ prepared.row.timeMotLocCount = prepared.rows.timeMotLoc.length
      ∧ prepared.row.windHailCount = prepared.rows.windHail.length
      ∧ prepared.row.ugcCount = (Parser.bodyUgcSections body).length
      ∧ ((∀ ugcSection ∈ Parser.bodyUgcSections body, sectionAreas ugcSection ≠ [])
          → (prepared.rows.ugcAreas = [] ↔ prepared.row.ugcCount = 0)) := by
  obtain ⟨rowsOk, vtec, ugc, hvtec, latlon, motion, wind, -⟩ := prepare_ok ok
  change collectBodyRows (some body) = .ok prepared.rows at rowsOk
  have sameVtec : prepared.rows.vtec.length = Parser.bodyVtecCount body := by
    rw [← events_length, ← events.read_body rowsOk]
    exact (List.length_map _).symm
  have sameHvtec : prepared.rows.hvtec.length = Parser.bodyHvtecCount body := by
    rw [← gauges_length, ← gauges.read_body rowsOk]
    exact (List.length_map _).symm
  have texts : prepared.rows.polygons.map (·.polygonWkt)
      = (Parser.bodyPolygons body).map (·.wkt) :=
    (polygonTexts.read_body rowsOk).trans (polygonTexts_body body)
  have samePolygons : prepared.rows.polygons.length = Parser.bodyLatlonCount body := by
    rw [← bodyPolygons_length, ← List.length_map (·.polygonWkt), texts, List.length_map]
  have sameMotion : prepared.rows.timeMotLoc.length = Parser.bodyTimeMotLocCount body := by
    rw [← motionTexts_length, ← motionTexts.read_body rowsOk]
    exact (List.length_map _).symm
  have sameWind : prepared.rows.windHail.length = Parser.bodyWindHailCount body := by
    rw [← threatKinds_length, ← threatKinds.read_body rowsOk]
    exact (List.length_map _).symm
  have sections : prepared.row.ugcCount = (Parser.bodyUgcSections body).length := by
    rw [ugc, bodyUgcSections_length]
    rfl
  refine ⟨?_, texts, rfl, ?_, ?_, ?_, ?_, ?_, sections, fun areas => ?_⟩
  · have same := points.read_body rowsOk
    exact (List.Perm.of_eq same).trans (points_body_perm body)
  · rw [vtec, sameVtec]
    rfl
  · rw [hvtec, sameHvtec]
    rfl
  · rw [latlon, samePolygons]
    rfl
  · rw [motion, sameMotion]
    rfl
  · rw [wind, sameWind]
    rfl
  · rw [ugcAreas_eq_nil_iff rowsOk areas, sections, Int.natCast_eq_zero, List.length_eq_zero_iff]

/-- A warning for one county with a polygon and a storm motion. -/
def sampleBody : Parser.ProductBody Int :=
  .vtecEvent ⟨[{
    segmentIndex := 0
    vtec := [⟨'O', "NEW".toList, "KOAX".toList, "SV".toList, 'W', 1, none, none⟩]
    ugcSections :=
      [{ counties := { entries := [("NE".toList, [⟨1, none, some 4050, some (-9850)⟩])]
                       sorted := List.pairwise_singleton _ _ }
         zones := {}, fireZones := {}, marineZones := {}, expires := 0 }]
    hvtec := []
    polygons := [⟨[(4143, -9613), (4145, -9610), (4140, -9608)], "POLYGON".toList⟩]
    timeMotLoc := [⟨0, 245, 30, [(4142, -9611)], "POINT".toList⟩]
    windHail := []
  }]⟩

def samplePayload : StoredBlob := ⟨.filesystem, .payload, "SVROAX.TXT".toList, 1, none⟩

theorem sampleBody_rows_agree
    : ∃ prepared,
        PreparedProduct.prepare
            (.build "SVROAX.TXT".toList 0 1 (some sampleBody) false []) [samplePayload]
          = .ok prepared
        ∧ (prepared.rows.searchPoints.map ProductSearchPointRow.point).Perm
            sampleBody.iterLocationPoints
        ∧ prepared.row.latlonCount = 1 := by
  refine ⟨_, rfl, ?_, rfl⟩
  exact (rows_agree_with_body "SVROAX.TXT".toList 0 1 sampleBody false [] [samplePayload] _ rfl).1

end Emwin.Db.Rows
