import Mathlib.Data.List.Perm.Basic
import Emwin.Db.ProductRows

/-! What the prepared rows of a body say, column by column. A reading takes a list of values from
rows; it is known on every body once it is known on the rows of a single entry.
-/

namespace Emwin.Db.Rows
open Library

variable {F β : Type}

/-- Entries that are read alike under every index, by induction on the entries. -/
theorem flatMap_indexed {α γ : Type} {field : String} {row : Int → α → γ} {items : List α}
    {rows : List γ} (ok : indexed field row items = .ok rows) {read : γ → List β}
    {value : α → List β} (reads : ∀ index item, read (row index item) = value item)
    : rows.flatMap read = items.flatMap value := by
  unfold indexed at ok
  generalize 0 = start at ok
  induction items generalizing start rows with
  | nil =>
      obtain rfl := Except.ok.inj ok
      rfl
  | cons item items ih =>
      rw [List.zipIdx_cons, List.mapM_cons] at ok
      obtain ⟨first, firstOk, ok⟩ := exceptBind_ok_iff.mp ok
      obtain ⟨others, othersOk, ok⟩ := exceptBind_ok_iff.mp ok
      obtain ⟨index, -, rowOk⟩ := exceptBind_ok_iff.mp firstOk
      obtain rfl := Except.ok.inj rowOk
      obtain rfl := Except.ok.inj ok
      rw [List.flatMap_cons, List.flatMap_cons, reads, ih _ othersOk]

theorem joinRows_vtec (rows : List (BodyRows F))
    : (joinRows rows).vtec = rows.flatMap (·.vtec) := by
  have gathered (start : BodyRows F)
      : (rows.foldl BodyRows.append start).vtec = start.vtec ++ rows.flatMap (·.vtec) := by
    induction rows generalizing start with
    | nil => simp
    | cons first rows ih =>
        rw [List.foldl_cons, ih, List.flatMap_cons, ← List.append_assoc]
        rfl
  rw [joinRows, gathered]
  rfl

/-- A way to read rows, by what it reads for each entry of a body. -/
structure Reading (F β : Type) where
  read : BodyRows F → List β
  vtec : Parser.VtecCode → List β := fun _ => []
  hvtec : Parser.HvtecCode F → List β := fun _ => []
  polygon : Parser.LatLonPolygon F → List β := fun _ => []
  timeMotLoc : Parser.TimeMotLocEntry F → List β := fun _ => []
  windHail : Parser.WindHailEntry F → List β := fun _ => []
  ugcSection : Parser.UgcSection F → List β := fun _ => []
  read_nil : read {} = [] := by rfl
  read_append : ∀ left right, read (left.append right) = read left ++ read right := by
    exact fun _ _ => List.map_append
  read_vtec : ∀ (segmentIndex : Option Int) (codes : List Parser.VtecCode),
    read { vtec := codes.map fun code => vtecRow segmentIndex (incidentCode code) }
    = codes.flatMap vtec := by simp
  read_hvtec : ∀ segmentIndex index code, read (hvtecRow segmentIndex index code) = hvtec code := by
    exact fun _ _ _ => rfl
  read_polygon : ∀ segmentIndex index entry,
    read (polygonRow segmentIndex index entry) = polygon entry := by exact fun _ _ _ => rfl
  read_timeMotLoc : ∀ segmentIndex index entry,
    read (timeMotLocRow segmentIndex index entry) = timeMotLoc entry := by exact fun _ _ _ => rfl
  read_windHail : ∀ segmentIndex index entry,
    read (windHailRow segmentIndex index entry) = windHail entry := by exact fun _ _ _ => rfl
  read_ugcSection : ∀ segmentIndex index entry,
    (ugcBucketSpecs entry).flatMap (fun spec => read (pushUgcBucket segmentIndex index entry spec))
    = ugcSection entry := by exact fun _ _ _ => rfl

namespace Reading

variable (reading : Reading F β)

def segment (segment : Parser.VtecEventSegment F) : List β :=
  segment.vtec.flatMap reading.vtec ++ segment.hvtec.flatMap reading.hvtec
  ++ segment.polygons.flatMap reading.polygon ++ segment.timeMotLoc.flatMap reading.timeMotLoc
  ++ segment.windHail.flatMap reading.windHail
  ++ segment.ugcSections.flatMap reading.ugcSection

def generic (body : Parser.GenericBody F) : List β :=
  (body.ugc.getD []).flatMap reading.ugcSection
  ++ (body.latlon.getD []).flatMap reading.polygon
  ++ (body.timeMotLoc.getD []).flatMap reading.timeMotLoc
  ++ (body.windHail.getD []).flatMap reading.windHail

/-- What is read for a body. -/
def body : Option (Parser.ProductBody F) → List β
  | none => []
  | some (.vtecEvent body) => body.segments.flatMap reading.segment
  | some (.generic body) => reading.generic body

theorem read_joinRows (rows : List (BodyRows F))
    : reading.read (joinRows rows) = rows.flatMap reading.read := by
  have gathered (start : BodyRows F)
      : reading.read (rows.foldl BodyRows.append start)
        = reading.read start ++ rows.flatMap reading.read := by
    induction rows generalizing start with
    | nil => simp
    | cons first rows ih =>
        rw [List.foldl_cons, ih, reading.read_append, List.flatMap_cons, List.append_assoc]
  rw [joinRows, gathered, reading.read_nil, List.nil_append]

theorem read_indexed {α : Type} {field : String} {row : Int → α → BodyRows F} {items : List α}
    {rows : List (BodyRows F)} (ok : indexed field row items = .ok rows) {value : α → List β}
    (reads : ∀ index item, reading.read (row index item) = value item)
    : reading.read (joinRows rows) = items.flatMap value := by
  rw [read_joinRows, flatMap_indexed ok reads]

theorem read_ugc {segmentIndex : Option Int} {sections : List (Parser.UgcSection F)}
    {rows : BodyRows F} (ok : collectUgcRows segmentIndex sections = .ok rows)
    : reading.read rows = sections.flatMap reading.ugcSection := by
  obtain ⟨parts, partsOk, ok⟩ := exceptBind_ok_iff.mp ok
  obtain rfl := Except.ok.inj ok
  refine reading.read_indexed partsOk fun index entry => ?_
  rw [read_joinRows, List.flatMap_map]
  exact reading.read_ugcSection segmentIndex index entry

theorem read_segment {segment : Parser.VtecEventSegment F} {rows : BodyRows F}
    (ok : collectSegmentRows segment = .ok rows)
    : reading.read rows = reading.segment segment := by
  obtain ⟨index, -, ok⟩ := exceptBind_ok_iff.mp ok
  obtain ⟨hvtec, hvtecOk, ok⟩ := exceptBind_ok_iff.mp ok
  obtain ⟨polygons, polygonsOk, ok⟩ := exceptBind_ok_iff.mp ok
  obtain ⟨timeMotLoc, timeMotLocOk, ok⟩ := exceptBind_ok_iff.mp ok
  obtain ⟨windHail, windHailOk, ok⟩ := exceptBind_ok_iff.mp ok
  obtain ⟨ugc, ugcOk, ok⟩ := exceptBind_ok_iff.mp ok
  obtain rfl := Except.ok.inj ok
  rw [read_joinRows, Reading.segment]
  simp only [List.flatMap_cons, List.flatMap_nil, List.append_nil, List.append_assoc,
    reading.read_vtec, reading.read_indexed hvtecOk (reading.read_hvtec _),
    reading.read_indexed polygonsOk (reading.read_polygon _),
    reading.read_indexed timeMotLocOk (reading.read_timeMotLoc _),
    reading.read_indexed windHailOk (reading.read_windHail _), reading.read_ugc ugcOk]

theorem read_generic {segmentIndex : Option Int} {body : Parser.GenericBody F} {rows : BodyRows F}
    (ok : collectGenericRows segmentIndex body = .ok rows)
    : reading.read rows = reading.generic body := by
  obtain ⟨ugc, ugcOk, ok⟩ := exceptBind_ok_iff.mp ok
  obtain ⟨polygons, polygonsOk, ok⟩ := exceptBind_ok_iff.mp ok
  obtain ⟨timeMotLoc, timeMotLocOk, ok⟩ := exceptBind_ok_iff.mp ok
  obtain ⟨windHail, windHailOk, ok⟩ := exceptBind_ok_iff.mp ok
  obtain rfl := Except.ok.inj ok
  rw [read_joinRows, Reading.generic]
  simp only [List.flatMap_cons, List.flatMap_nil, List.append_nil, List.append_assoc,
    reading.read_indexed polygonsOk (reading.read_polygon _),
    reading.read_indexed timeMotLocOk (reading.read_timeMotLoc _),
    reading.read_indexed windHailOk (reading.read_windHail _), reading.read_ugc ugcOk]

theorem read_body {body : Option (Parser.ProductBody F)} {rows : BodyRows F}
    (ok : collectBodyRows body = .ok rows)
    : reading.read rows = reading.body body := by
  cases body with
  | none =>
      obtain rfl := Except.ok.inj ok
      exact reading.read_nil
  | some body =>
      cases body with
      | generic body => exact reading.read_generic ok
      | vtecEvent body =>
          obtain ⟨parts, partsOk, joined⟩ := exceptBind_ok_iff.mp ok
          obtain rfl := Except.ok.inj joined
          clear ok joined
          rw [read_joinRows, Reading.body]
          generalize body.segments = segments at partsOk
          induction segments generalizing parts with
          | nil =>
              obtain rfl := Except.ok.inj partsOk
              rfl
          | cons segment segments ih =>
              rw [List.mapM_cons] at partsOk
              obtain ⟨first, firstOk, partsOk⟩ := exceptBind_ok_iff.mp partsOk
              obtain ⟨others, othersOk, partsOk⟩ := exceptBind_ok_iff.mp partsOk
              obtain rfl := Except.ok.inj partsOk
              rw [List.flatMap_cons, List.flatMap_cons, reading.read_segment firstOk,
                ih others othersOk]

end Reading

-----------------------------------------------------------------------------------------
-- The readings
-----------------------------------------------------------------------------------------

/-- The point of a row. -/
def ProductSearchPointRow.point (row : ProductSearchPointRow F) : Parser.GeoPoint F :=
  ⟨row.latitude, row.longitude⟩

theorem point_searchPoint? (sourceKind : Text) (sourceIndex : Int)
    (point : Option (Parser.GeoPoint F))
    : (searchPoint? sourceKind sourceIndex point).map ProductSearchPointRow.point = point := by
  cases point <;> rfl

theorem points_bucket (segmentIndex : Option Int) (index : Int) (entry : Parser.UgcSection F)
    (spec : UgcBucketSpec F)
    : (pushUgcBucket segmentIndex index entry spec).searchPoints.map ProductSearchPointRow.point
      = (Parser.bucketAreas spec.bucket).filterMap Parser.UgcArea.point? := by
  unfold pushUgcBucket Parser.bucketAreas
  dsimp only
  rw [List.map_flatMap, List.filterMap_flatMap]
  refine List.flatMap_congr fun stateAreas _ => ?_
  rw [List.map_filterMap]
  refine List.filterMap_congr fun area _ => ?_
  exact point_searchPoint? _ _ _

/-- Where the search points lie. -/
def points : Reading F (Parser.GeoPoint F) where
  read rows := rows.searchPoints.map ProductSearchPointRow.point
  hvtec code := code.point?.toList
  timeMotLoc := Parser.entryPoints
  ugcSection := Parser.sectionPoints
  read_hvtec _ index code := by
    rw [hvtecRow, ← Option.toList_map, point_searchPoint?]
  read_timeMotLoc _ _ entry := by
    rw [timeMotLocRow, List.map_map]
    rfl
  read_ugcSection segmentIndex index entry := by
    simp only [points_bucket, ugcBucketSpecs, List.flatMap_cons, List.flatMap_nil, List.append_nil,
      Parser.sectionPoints, List.filterMap_append, List.append_assoc]

/-- The codes that the rows spell for a section. -/
def rowCodes (ugcSection : Parser.UgcSection F) : List Text :=
  Parser.bucketCodes ugcSection.counties 'C' ++ Parser.bucketCodes ugcSection.zones 'Z'
  ++ Parser.bucketCodes ugcSection.fireZones 'F' ++ Parser.bucketCodes ugcSection.marineZones 'M'

theorem codes_bucket (segmentIndex : Option Int) (index : Int) (entry : Parser.UgcSection F)
    (spec : UgcBucketSpec F)
    : (pushUgcBucket segmentIndex index entry spec).ugcAreas.map (·.ugcCode)
      = Parser.bucketCodes spec.bucket spec.codePrefix := by
  unfold pushUgcBucket Parser.bucketCodes
  dsimp only
  rw [List.map_flatMap]
  refine List.flatMap_congr fun stateAreas _ => ?_
  rw [List.map_map]
  rfl

/-- The UGC codes of the area rows. -/
def areaCodes : Reading F Text where
  read rows := rows.ugcAreas.map (·.ugcCode)
  ugcSection := rowCodes
  read_ugcSection segmentIndex index entry := by
    simp only [codes_bucket, ugcBucketSpecs, List.flatMap_cons, List.flatMap_nil, List.append_nil,
      rowCodes, List.append_assoc]

/-- The VTEC events of the rows, by office, phenomenon, significance and number. -/
def events : Reading F (Text × Text × Text × Int) where
  read rows := rows.vtec.map fun row => (row.office, row.phenomena, row.significance, row.etn)
  vtec code := [(code.office, code.phenomena, [code.significance], code.etn.toNat)]
  read_vtec segmentIndex codes := by
    rw [List.map_map, List.map_eq_flatMap]
    rfl

/-- The gauges of the HVTEC rows. -/
def gauges : Reading F Text where
  read rows := rows.hvtec.map (·.nwslid)
  hvtec code := [code.nwslid]

/-- The texts of the polygon rows. -/
def polygonTexts : Reading F Text where
  read rows := rows.polygons.map (·.polygonWkt)
  polygon entry := [entry.wkt]

/-- The texts of the motion rows. -/
def motionTexts : Reading F Text where
  read rows := rows.timeMotLoc.map (·.pathWkt)
  timeMotLoc entry := [entry.wkt]

/-- The kinds of the wind and hail rows. -/
def threatKinds : Reading F Text where
  read rows := rows.windHail.map (·.kind)
  windHail entry := [kindLabel entry.kind]

end Emwin.Db.Rows
