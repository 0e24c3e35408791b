import Emwin.Db.Incidents
import Emwin.Library.Text
import Mathlib.Data.List.Induction

/-! What the rows of one product say about one incident. -/

namespace Emwin.Db
open Library

/-- The rows of a product that count for an incident, in the order of its segments. -/
def rowsFor (key : IncidentKey) (rows : List ProductVtecRow) : List ProductVtecRow :=
  (rows.filter ProductVtecRow.operational).filter (·.key = key)

theorem mem_rowsFor {key : IncidentKey} {rows : List ProductVtecRow} {row : ProductVtecRow}
    : row ∈ rowsFor key rows ↔ row ∈ rows ∧ row.operational = true ∧ row.key = key := by
  simp [rowsFor, and_comm]

/-- The accumulator after some rows of one key. -/
def accumulated (rows : List ProductVtecRow) : Option IncidentAccumulator :=
  rows.foldl (fun found row => some (accumulate row found)) none

/-- The status that the rows carry: the last one that an action maps to. -/
def carriedStatus (rows : List ProductVtecRow) : Option Text :=
  (rows.filterMap fun row => mapIncidentStatus row.action).getLast?

theorem accumulated_concat (rows : List ProductVtecRow) (row : ProductVtecRow)
    : accumulated (rows ++ [row]) = some (accumulate row (accumulated rows)) := by
  simp [accumulated]

theorem carriedStatus_concat (rows : List ProductVtecRow) (row : ProductVtecRow)
    : carriedStatus (rows ++ [row])
      = (mapIncidentStatus row.action).or (carriedStatus rows) := by
  cases mapped : mapIncidentStatus row.action with
  | none => simp [carriedStatus, mapped]
  | some status => simp [carriedStatus, mapped]

/-- Later rows win over earlier ones and rows without a status change none, by induction on
the rows from the end.
-/
theorem accumulated_status (rows : List ProductVtecRow)
    : (accumulated rows).bind IncidentAccumulator.currentStatus = carriedStatus rows := by
  induction rows using List.reverseRecOn with
  | nil => rfl
  | append_singleton rows row ih =>
      rw [accumulated_concat, carriedStatus_concat, ← ih, Option.bind_some]
      cases accumulated rows with
      | none => simp [accumulate]
      | some entry => rfl

/-- There is an accumulator as soon as there is a row; its action is the last row's. -/
theorem accumulated_action (rows : List ProductVtecRow)
    : (accumulated rows).map IncidentAccumulator.latestVtecAction
      = (rows.getLast?).map ProductVtecRow.action := by
  induction rows using List.reverseRecOn with
  | nil => rfl
  | append_singleton rows row ih => simp [accumulated_concat, accumulate]

theorem groupRows_get? (rows : List ProductVtecRow) (key : IncidentKey)
    : (groupRows rows).get? key = accumulated (rowsFor key rows) :=
  OrderedMap.get?_foldl_alter ProductVtecRow.key accumulate _ {} key

/-- The update that an accumulator becomes. -/
def updateOf (issuedAt : Timestamp) (key : IncidentKey) (value : IncidentAccumulator)
    : PreparedIncidentUpdate where
  key
  currentStatus := value.currentStatus
  latestVtecAction := value.latestVtecAction
  issuedAt
  startUtc := value.startUtc
  endUtc := value.endUtc
  latestProductTimestampUtc := issuedAt

/-- What a successful preparation consists of. -/
theorem prepare_ok {metadata : CompletedFileMetadata} {prepared : PreparedProduct}
    (ok : PreparedProduct.prepare metadata = .ok prepared)
    : ∃ issuedAt,
        prepared.sourceTimestampUtc = metadata.timestampUtc.toNat
        ∧ fromTimestamp prepared.sourceTimestampUtc = some issuedAt
        ∧ collectBodyRows metadata.body = .ok prepared.vtec
        ∧ prepared.incidentUpdates
          = (groupRows prepared.vtec).entries.map fun entry =>
              updateOf issuedAt entry.1 entry.2 := by
  unfold PreparedProduct.prepare at ok
  obtain ⟨seconds, fits, ok⟩ := exceptBind_ok_iff.mp ok
  obtain ⟨vtec, collected, ok⟩ := exceptBind_ok_iff.mp ok
  obtain ⟨updates, updated, ok⟩ := exceptBind_ok_iff.mp ok
  obtain rfl := Except.ok.inj ok
  unfold sourceTimestamp at fits
  split_ifs at fits with small
  obtain rfl := Except.ok.inj fits
  unfold prepareIncidentUpdates at updated
  split at updated
  · exact absurd updated (by simp)
  · next issuedAt valid =>
      obtain rfl := Except.ok.inj updated
      exact ⟨issuedAt, rfl, valid, collected, rfl⟩

/-- A product has one update for each key that it has an operational row of, and no other. -/
theorem mem_incidentUpdates {rows : List ProductVtecRow} {issuedAt : Timestamp}
    {update : PreparedIncidentUpdate}
    : update ∈ (groupRows rows).entries.map (fun entry => updateOf issuedAt entry.1 entry.2)
      ↔ ∃ value,
          accumulated (rowsFor update.key rows) = some value
          ∧ update = updateOf issuedAt update.key value := by
  rw [List.mem_map]
  constructor
  · rintro ⟨⟨key, value⟩, member, rfl⟩
    rw [OrderedMap.mem_entries_iff, groupRows_get?] at member
    exact ⟨value, member, rfl⟩
  · rintro ⟨value, found, same⟩
    refine ⟨(update.key, value), ?_, same.symm⟩
    rwa [OrderedMap.mem_entries_iff, groupRows_get?]

-----------------------------------------------------------------------------------------
-- Partly cancelled events
-----------------------------------------------------------------------------------------

/-- The last row of the incident whose action maps to a status maps to this one. -/
def LastMapsTo (status : Text) (key : IncidentKey) (rows : List ProductVtecRow) : Prop :=
  ∃ before last after,
    rows = before ++ last :: after
    ∧ last.operational = true
    ∧ last.key = key
    ∧ mapIncidentStatus last.action = some status
    ∧ ∀ row ∈ after,
        row.operational = true → row.key = key → mapIncidentStatus row.action = none

theorem rowsFor_concat (key : IncidentKey) (rows : List ProductVtecRow) (row : ProductVtecRow)
    : rowsFor key (rows ++ [row])
      = rowsFor key rows ++ (if row.operational ∧ row.key = key then [row] else []) := by
  by_cases operational : row.operational = true <;> by_cases same : row.key = key <;>
    simp [rowsFor, operational, same]

/-- The status that the rows of an incident carry, by induction on the rows from the end. -/
theorem carriedStatus_rowsFor {status : Text} {key : IncidentKey} (rows : List ProductVtecRow)
    : carriedStatus (rowsFor key rows) = some status ↔ LastMapsTo status key rows := by
  induction rows using List.reverseRecOn with
  | nil => simp [rowsFor, carriedStatus, LastMapsTo]
  | append_singleton rows row ih =>
      rw [rowsFor_concat]
      -- the new row decides exactly if it counts and maps to a status
      by_cases decides : (row.operational = true ∧ row.key = key)
          ∧ (mapIncidentStatus row.action).isSome = true
      · obtain ⟨counts, mapped⟩ := decides
        obtain ⟨found, maps⟩ := Option.isSome_iff_exists.mp mapped
        rw [if_pos counts, carriedStatus_concat, maps, Option.some_or]
        constructor
        · rintro same
          exact ⟨rows, row, [], rfl, counts.1, counts.2, maps.trans same, by simp⟩
        · rintro ⟨before, last, after, split, -, -, lastMaps, silent⟩
          rcases List.eq_nil_or_concat after with rfl | ⟨front, final, rfl⟩
          · obtain ⟨-, same⟩ := List.append_inj' split rfl
            obtain rfl := List.head_eq_of_cons_eq same
            exact maps.symm.trans lastMaps
          · have regrouped : rows ++ [row] = (before ++ last :: front) ++ [final] := by
              simpa using split
            obtain ⟨-, same⟩ := List.append_inj' regrouped rfl
            obtain rfl := List.head_eq_of_cons_eq same
            exact absurd ((silent row (by simp) counts.1 counts.2).symm.trans maps) (by simp)
      · have skipped : carriedStatus
            (rowsFor key rows ++ if row.operational ∧ row.key = key then [row] else [])
              = carriedStatus (rowsFor key rows) := by
          split_ifs with counts
          · have silent : mapIncidentStatus row.action = none := by simpa [counts] using decides
            rw [carriedStatus_concat, silent, Option.none_or]
          · rw [List.append_nil]
        rw [skipped, ih]
        constructor
        · rintro ⟨before, last, after, rfl, operational, same, maps, silent⟩
          refine ⟨before, last, after ++ [row], by simp, operational, same, maps, ?_⟩
          intro other member counts belongs
          rcases List.mem_append.mp member with earlier | new
          · exact silent other earlier counts belongs
          · obtain rfl := List.mem_singleton.mp new
            by_contra mapped
            exact decides ⟨⟨counts, belongs⟩, Option.isSome_iff_ne_none.mpr mapped⟩
        · rintro ⟨before, last, after, split, operational, same, maps, silent⟩
          rcases List.eq_nil_or_concat after with rfl | ⟨front, final, rfl⟩
          · obtain ⟨-, rowIs⟩ := List.append_inj' split rfl
            obtain rfl := List.head_eq_of_cons_eq rowIs
            exact absurd ⟨⟨operational, same⟩, by simp [maps]⟩ decides
          · have regrouped : rows ++ [row] = (before ++ last :: front) ++ [final] := by
              simpa using split
            obtain ⟨rfl, -⟩ := List.append_inj' regrouped rfl
            refine ⟨before, last, front, rfl, operational, same, maps, ?_⟩
            exact fun other member => silent other (by simp [member])

/-- The updates of one key. -/
theorem filter_incidentUpdates (rows : List ProductVtecRow) (issuedAt : Timestamp)
    (key : IncidentKey)
    : ((groupRows rows).entries.map fun entry => updateOf issuedAt entry.1 entry.2).filter
        (·.key = key)
      = (accumulated (rowsFor key rows)).toList.map (updateOf issuedAt key) := by
  have pulled : (fun update : PreparedIncidentUpdate => decide (update.key = key))
      ∘ (fun entry : IncidentKey × IncidentAccumulator => updateOf issuedAt entry.1 entry.2)
        = fun entry => decide (entry.1 = key) := rfl
  rw [List.filter_map, pulled, OrderedMap.filter_entries, groupRows_get?, List.map_map]
  rfl

/-- With a row that maps to active, a product prepares exactly one update for the incident,
and that update is active if and only if the last row of the incident that maps to a status
is active.
-/
theorem active_iff_last_active {metadata : CompletedFileMetadata} {prepared : PreparedProduct}
    (ok : PreparedProduct.prepare metadata = .ok prepared) (key : IncidentKey)
    (active
      : ∃ row ∈ prepared.vtec,
          row.operational = true
          ∧ row.key = key
          ∧ mapIncidentStatus row.action = some activeStatus)
    : ∃ update,
        prepared.incidentUpdates.filter (·.key = key) = [update]
        ∧ (update.currentStatus = some activeStatus
          ↔ LastMapsTo activeStatus key prepared.vtec) := by
  obtain ⟨issuedAt, -, -, -, updates⟩ := prepare_ok ok
  obtain ⟨row, member, operational, same, maps⟩ := active
  have counted : row ∈ rowsFor key prepared.vtec := mem_rowsFor.mpr ⟨member, operational, same⟩
  have status := accumulated_status (rowsFor key prepared.vtec)
  have made : (accumulated (rowsFor key prepared.vtec)).isSome = true := by
    have last := accumulated_action (rowsFor key prepared.vtec)
    rw [← Option.isSome_map, last, Option.isSome_map, List.getLast?_isSome]
    exact List.ne_nil_of_mem counted
  obtain ⟨value, found⟩ := Option.isSome_iff_exists.mp made
  refine ⟨updateOf issuedAt key value, ?_, ?_⟩
  · rw [updates, filter_incidentUpdates, found]
    rfl
  · rw [found, Option.bind_some] at status
    rw [← carriedStatus_rowsFor, ← status]
    rfl

/-- A VTEC code of one flash flood warning. -/
def sampleVtec (action : String) : VtecCode where
  status := 'O'
  action := action.toList
  office := "KOAX".toList
  phenomena := "FF".toList
  significance := 'W'
  etn := 1
  beginUtc := none
  endUtc := none

def sampleKey : IncidentKey := ⟨"KOAX".toList, "FF".toList, "W".toList, 1⟩

/-- A statement with one segment for each action. -/
def sampleStatement (seconds : UInt64) (actions : List String) : CompletedFileMetadata where
  filename := "FFSOAX.TXT".toList
  timestampUtc := seconds
  body :=
    some (.vtecEvent (actions.mapIdx fun index action => ⟨index, [sampleVtec action]⟩))

def sampleRows (actions : List String) : List ProductVtecRow :=
  actions.mapIdx fun index action => vtecRow (some index) (sampleVtec action)

/-- Cancelled for some counties and continued for others. -/
theorem cancelled_then_continued
    : ∃ prepared update,
        PreparedProduct.prepare (sampleStatement 1741175200 ["CAN", "CON"]) = .ok prepared
        ∧ prepared.incidentUpdates.filter (·.key = sampleKey) = [update]
        ∧ update.currentStatus = some activeStatus := by
  obtain ⟨prepared, ok, rows⟩ : ∃ prepared,
      PreparedProduct.prepare (sampleStatement 1741175200 ["CAN", "CON"]) = .ok prepared
      ∧ prepared.vtec = sampleRows ["CAN", "CON"] := ⟨_, rfl, rfl⟩
  have last : LastMapsTo activeStatus sampleKey prepared.vtec := by
    rw [rows]
    exact ⟨[vtecRow (some 0) (sampleVtec "CAN")], vtecRow (some 1) (sampleVtec "CON"), [], rfl,
      by decide +kernel, by decide +kernel, by decide +kernel, by simp⟩
  have active : ∃ row ∈ prepared.vtec,
      row.operational = true
      ∧ row.key = sampleKey
      ∧ mapIncidentStatus row.action = some activeStatus := by
    rw [rows]
    exact ⟨vtecRow (some 1) (sampleVtec "CON"), by simp [sampleRows],
      by decide +kernel, by decide +kernel, by decide +kernel⟩
  obtain ⟨update, only, status⟩ := active_iff_last_active ok sampleKey active
  exact ⟨prepared, update, ok, only, status.mpr last⟩

/-- Continued for some counties and cancelled for others: the same two rows in the other order
cancel the incident.
-/
theorem continued_then_cancelled
    : ∃ prepared,
        PreparedProduct.prepare (sampleStatement 1741175200 ["CON", "CAN"]) = .ok prepared
        ∧ (∃ row ∈ prepared.vtec,
            row.operational = true
            ∧ row.key = sampleKey
            ∧ mapIncidentStatus row.action = some activeStatus)
        ∧ prepared.incidentUpdates.map (fun update => (update.key, update.currentStatus))
          = [(sampleKey, some cancelledStatus)]
        ∧ cancelledStatus ≠ activeStatus := by
  refine ⟨_, rfl, ⟨vtecRow (some 0) (sampleVtec "CON"), ?_, ?_, ?_, ?_⟩, ?_, ?_⟩
  · exact List.mem_cons_self
  all_goals decide +kernel

end Emwin.Db
