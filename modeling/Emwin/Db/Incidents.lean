import Emwin.Db.Model
import Emwin.Library.OrderedMap
import Emwin.Library.Machine
import Mathlib.Data.Char
import Mathlib.Data.List.Lex
import Mathlib.Data.Prod.Lex

/-! The projection of VTEC products onto incidents, and the SQL that maintains them. -/

namespace Emwin.Db
open Library

/-- A point in time as the database stores it, in microseconds. -/
abbrev Timestamp := Int

structure VtecCode where
  status : Char
  action : Text
  office : Text
  phenomena : Text
  significance : Char
  etn : UInt32
  beginUtc : Option Timestamp
  endUtc : Option Timestamp
  deriving DecidableEq, Repr

structure VtecEventSegment where
  segmentIndex : Nat
  vtec : List VtecCode
  deriving DecidableEq, Repr

inductive ProductBody where
  | vtecEvent (segments : List VtecEventSegment)
  | generic
  deriving DecidableEq, Repr

/-- A product as far as its incidents go. -/
structure CompletedFileMetadata where
  filename : Text
  timestampUtc : UInt64
  body : Option ProductBody
  deriving DecidableEq, Repr

-----------------------------------------------------------------------------------------
-- Prepared rows
-----------------------------------------------------------------------------------------

structure ProductVtecRow where
  segmentIndex : Option Int
  status : Text
  action : Text
  office : Text
  phenomena : Text
  significance : Text
  etn : Int
  beginUtc : Option Timestamp
  endUtc : Option Timestamp
  deriving DecidableEq, Repr

structure IncidentKey where
  office : Text
  phenomena : Text
  significance : Text
  etn : Int
  deriving Repr

namespace IncidentKey

/-- The fields in the order in which they are compared. -/
def fields (key : IncidentKey) : Text ×ₗ Text ×ₗ Text ×ₗ Int :=
  toLex (key.office, toLex (key.phenomena, toLex (key.significance, key.etn)))

theorem fields_injective : Function.Injective fields := by
  intro left right same
  cases left
  cases right
  simpa [fields] using same

instance : LinearOrder IncidentKey := LinearOrder.lift' fields fields_injective

end IncidentKey

def ProductVtecRow.key (row : ProductVtecRow) : IncidentKey :=
  ⟨row.office, row.phenomena, row.significance, row.etn⟩

structure PreparedIncidentUpdate where
  key : IncidentKey
  currentStatus : Option Text
  latestVtecAction : Text
  issuedAt : Timestamp
  startUtc : Option Timestamp
  endUtc : Option Timestamp
  latestProductTimestampUtc : Timestamp
  deriving DecidableEq, Repr

def usizeToI32 (value : Nat) (field : Text) : PersistResult Int :=
  if value < 2 ^ 31 then .ok value
  else
    .error (.invalidRequest
      (field ++ " value `".toList ++ Nat.toDigits 10 value ++ "` exceeds i32 range".toList))

def vtecRow (segmentIndex : Option Int) (vtec : VtecCode) : ProductVtecRow where
  segmentIndex
  status := [vtec.status]
  action := vtec.action
  office := vtec.office
  phenomena := vtec.phenomena
  significance := [vtec.significance]
  etn := vtec.etn.toNat
  beginUtc := vtec.beginUtc
  endUtc := vtec.endUtc

/-- The VTEC rows that `collect_vtec_event_rows` pushes, segment by segment. -/
def collectVtecEventRows : List VtecEventSegment → PersistResult (List ProductVtecRow)
  | [] => .ok []
  | segment :: rest => do
      let segmentIndex ← usizeToI32 segment.segmentIndex "segment_index".toList
      let later ← collectVtecEventRows rest
      .ok (segment.vtec.map (vtecRow (some segmentIndex)) ++ later)

def collectBodyRows : Option ProductBody → PersistResult (List ProductVtecRow)
  | some (.vtecEvent segments) => collectVtecEventRows segments
  | some .generic | none => .ok []

def activeStatus : Text := "active".toList
def cancelledStatus : Text := "cancelled".toList
def expiredStatus : Text := "expired".toList
def upgradedStatus : Text := "upgraded".toList

def mapIncidentStatus (action : Text) : Option Text :=
  if action ∈ ["NEW".toList, "CON".toList, "EXT".toList, "EXA".toList, "EXB".toList] then
    some activeStatus
  else if action = "CAN".toList then some cancelledStatus
  else if action = "EXP".toList then some expiredStatus
  else if action = "UPG".toList then some upgradedStatus
  -- COR and ROU carry no status of their own, and neither does an unknown action
  else none

def minOptionDatetime : Option Timestamp → Option Timestamp → Option Timestamp
  | some current, some incoming => some (min current incoming)
  | some current, none => some current
  | none, some incoming => some incoming
  | none, none => none

def maxOptionDatetime : Option Timestamp → Option Timestamp → Option Timestamp
  | some current, some incoming => some (max current incoming)
  | some current, none => some current
  | none, some incoming => some incoming
  | none, none => none

structure IncidentAccumulator where
  currentStatus : Option Text
  latestVtecAction : Text
  startUtc : Option Timestamp
  endUtc : Option Timestamp
  deriving DecidableEq, Repr

/-- What a row makes of the entry of its key. -/
def accumulate (row : ProductVtecRow) (found : Option IncidentAccumulator)
    : IncidentAccumulator :=
  let entry :=
    found.getD ⟨mapIncidentStatus row.action, row.action, row.beginUtc, row.endUtc⟩
  { currentStatus := (mapIncidentStatus row.action).or entry.currentStatus
    latestVtecAction := row.action
    startUtc := minOptionDatetime entry.startUtc row.beginUtc
    endUtc := maxOptionDatetime entry.endUtc row.endUtc }

/-- Only operational codes make incidents. -/
def ProductVtecRow.operational (row : ProductVtecRow) : Bool := row.status = "O".toList

/-- `DateTime::from_timestamp` at a full second: the seconds that chrono can express. -/
def fromTimestamp (seconds : Int) : Option Timestamp :=
  if -8334601228800 ≤ seconds ∧ seconds ≤ 8210266876799 then some (seconds * 10 ^ 6) else none

def groupRows (rows : List ProductVtecRow) : OrderedMap IncidentKey IncidentAccumulator :=
  (rows.filter ProductVtecRow.operational).foldl
    (fun grouped row => grouped.alter row.key (accumulate row)) {}

def prepareIncidentUpdates (sourceTimestampUtc : Int) (rows : List ProductVtecRow)
    : PersistResult (List PreparedIncidentUpdate) :=
  match fromTimestamp sourceTimestampUtc with
  | none =>
      .error (.invalidRequest
        ("timestamp `".toList ++ (toString sourceTimestampUtc).toList
          ++ "` cannot convert to timestamptz".toList))
  | some issuedAt =>
      .ok ((groupRows rows).entries.map fun (key, value) =>
        { key
          currentStatus := value.currentStatus
          latestVtecAction := value.latestVtecAction
          issuedAt
          startUtc := value.startUtc
          endUtc := value.endUtc
          latestProductTimestampUtc := issuedAt })

/-- What `PreparedProduct::prepare` makes of a product: its VTEC rows and incident updates. -/
structure PreparedProduct where
  sourceTimestampUtc : Int
  vtec : List ProductVtecRow
  incidentUpdates : List PreparedIncidentUpdate
  deriving DecidableEq, Repr

/-- `i64::try_from` of the product's timestamp. -/
def sourceTimestamp (timestampUtc : UInt64) : PersistResult Int :=
  if timestampUtc.toNat < 2 ^ 63 then .ok timestampUtc.toNat
  else
    .error (.invalidRequest
      ("timestamp `".toList ++ Nat.toDigits 10 timestampUtc.toNat
        ++ "` does not fit in bigint".toList))

def PreparedProduct.prepare (metadata : CompletedFileMetadata) : PersistResult PreparedProduct := do
  let sourceTimestampUtc ← sourceTimestamp metadata.timestampUtc
  let vtec ← collectBodyRows metadata.body
  let incidentUpdates ← prepareIncidentUpdates sourceTimestampUtc vtec
  .ok { sourceTimestampUtc, vtec, incidentUpdates }

-----------------------------------------------------------------------------------------
-- The tables
-----------------------------------------------------------------------------------------

/-- A row of `incidents`; a status that is `none` is NULL. -/
structure IncidentRow where
  key : IncidentKey
  currentStatus : Option Text
  latestVtecAction : Text
  issuedAt : Timestamp
  startUtc : Option Timestamp
  endUtc : Option Timestamp
  lastUpdatedAt : Timestamp
  firstProductId : Nat
  latestProductId : Nat
  latestProductTimestampUtc : Timestamp
  deriving DecidableEq, Repr

/-- NOT NULL and the check of `incidents_current_status_check`. -/
def IncidentRow.satisfiesChecks (row : IncidentRow) : Bool :=
  row.currentStatus ∈
    [some activeStatus, some cancelledStatus, some expiredStatus, some upgradedStatus]

/-- The rows of `products` by their unique key, with the next value of the identity. -/
structure Database where
  products : List (Text × Int × Nat) := []
  nextProductId : Nat := 1
  incidents : List IncidentRow := []
  deriving DecidableEq, Repr

inductive SqlError where
  | checkViolation
  deriving DecidableEq, Repr

/-- `ON CONFLICT DO UPDATE`: the row of the same key takes the new values unless it is newer. -/
def IncidentRow.resolve (excluded row : IncidentRow) : IncidentRow :=
  if row.key = excluded.key
      ∧ excluded.latestProductTimestampUtc ≥ row.latestProductTimestampUtc then
    { excluded with
      currentStatus := excluded.currentStatus.or row.currentStatus
      firstProductId := row.firstProductId }
  else row

/-- Insert a candidate row, which must satisfy the checks before conflicts are looked for. -/
def insertIncident (incidents : List IncidentRow) (excluded : IncidentRow)
    : Except SqlError (List IncidentRow) :=
  if excluded.satisfiesChecks then
    if incidents.any (·.key = excluded.key) then
      .ok (incidents.map excluded.resolve)
    else .ok (incidents ++ [excluded])
  else .error .checkViolation

/-- The rows of `(SELECT 1) seed LEFT JOIN existing ON TRUE`: the stored statuses of the key,
or one NULL if there is no row.
-/
def joinedStatuses (incidents : List IncidentRow) (key : IncidentKey) : List (Option Text) :=
  match incidents.filter (·.key = key) with
  | [] => [none]
  | existing => existing.map (·.currentStatus)

/-- The row that an update selects, with a status. -/
def PreparedIncidentUpdate.toRow (update : PreparedIncidentUpdate) (productId : Nat)
    (clock : Timestamp) (currentStatus : Option Text)
    : IncidentRow where
  key := update.key
  currentStatus
  latestVtecAction := update.latestVtecAction
  issuedAt := update.issuedAt
  startUtc := update.startUtc
  endUtc := update.endUtc
  lastUpdatedAt := clock
  firstProductId := productId
  latestProductId := productId
  latestProductTimestampUtc := update.latestProductTimestampUtc

/-- The candidate rows of one update: one for each joined row that passes the WHERE clause. -/
def candidates (incidents : List IncidentRow) (productId : Nat) (clock : Timestamp)
    (update : PreparedIncidentUpdate)
    : List IncidentRow :=
  (joinedStatuses incidents update.key).filterMap fun existing =>
    if update.currentStatus.isSome || existing.isSome then
      some (update.toRow productId clock (update.currentStatus.or existing))
    else none

/-- One statement of `upsert_incidents`. -/
def upsertIncident (productId : Nat) (clock : Timestamp) (incidents : List IncidentRow)
    (update : PreparedIncidentUpdate)
    : Except SqlError (List IncidentRow) :=
  (candidates incidents productId clock update).foldlM insertIncident incidents

def upsertIncidents (productId : Nat) (clock : Timestamp) (incidents : List IncidentRow)
    (updates : List PreparedIncidentUpdate)
    : Except SqlError (List IncidentRow) :=
  updates.foldlM (upsertIncident productId clock) incidents

namespace Database

/-- `upsert_product`: the id stored for file name and timestamp, or the next one. The identity
advances either way.
-/
def upsertProduct (database : Database) (filename : Text) (sourceTimestampUtc : Int)
    : Database × Nat :=
  match database.products.find? fun row => row.1 = filename ∧ row.2.1 = sourceTimestampUtc with
  | some row => ({ database with nextProductId := database.nextProductId + 1 }, row.2.2)
  | none =>
      ({ database with
          products :=
            database.products ++ [(filename, sourceTimestampUtc, database.nextProductId)]
          nextProductId := database.nextProductId + 1 },
        database.nextProductId)

/-- Persist a product in one transaction at a time of the database's clock; a product that
cannot be prepared, or a statement that fails, leaves the tables as they were.
-/
def persist (database : Database) (metadata : CompletedFileMetadata) (clock : Timestamp)
    : Database :=
  match PreparedProduct.prepare metadata with
  | .error _ => database
  | .ok prepared =>
      let (stored, productId) :=
        database.upsertProduct metadata.filename prepared.sourceTimestampUtc
      match upsertIncidents productId clock stored.incidents prepared.incidentUpdates with
      | .ok incidents => { stored with incidents }
      | .error _ => { database with nextProductId := stored.nextProductId }

/-- The row after `expire_active_incidents`. -/
def expireRow (now clock : Timestamp) (row : IncidentRow) : IncidentRow :=
  if row.currentStatus = some activeStatus ∧ row.endUtc.any (· < now) then
    { row with currentStatus := some expiredStatus, lastUpdatedAt := clock }
  else row

def expireActiveIncidents (database : Database) (now clock : Timestamp) : Database :=
  { database with incidents := database.incidents.map (expireRow now clock) }

end Database

/-- Persisting a product or a clean-up pass. -/
inductive DatabaseAction where
  | persist (metadata : CompletedFileMetadata) (clock : Timestamp)
  | expire (now clock : Timestamp)
  deriving DecidableEq, Repr

/-- The database as a machine, started with empty tables. -/
def databaseMachine : Machine Database DatabaseAction where
  Start database := database = {}
  step database action :=
    match action with
    | .persist metadata clock => some (database.persist metadata clock)
    | .expire now clock => some (database.expireActiveIncidents now clock)

end Emwin.Db
