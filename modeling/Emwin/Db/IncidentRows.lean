import Emwin.Db.IncidentUpdates

/-! The rows of the incidents table over whole runs. -/

namespace Emwin.Db
open Library

/-- The row of an incident. -/
def rowOf (key : IncidentKey) (incidents : List IncidentRow) : Option IncidentRow :=
  incidents.find? (·.key = key)

def Database.row? (database : Database) (key : IncidentKey) : Option IncidentRow :=
  rowOf key database.incidents

/-- The primary key and the checks of the table. -/
structure TableSound (incidents : List IncidentRow) : Prop where
  unique : (incidents.map IncidentRow.key).Nodup
  checked : ∀ row ∈ incidents, row.satisfiesChecks = true

-----------------------------------------------------------------------------------------
-- One statement
-----------------------------------------------------------------------------------------

/-- What an update makes of the row of its key. -/
def PreparedIncidentUpdate.applied (update : PreparedIncidentUpdate) (productId : Nat)
    (clock : Timestamp)
    : Option IncidentRow → Option IncidentRow
  | none =>
      if update.currentStatus.isSome then
        some (update.toRow productId clock update.currentStatus)
      else none
  | some row =>
      if update.latestProductTimestampUtc ≥ row.latestProductTimestampUtc then
        some
          { update.toRow productId clock (update.currentStatus.or row.currentStatus) with
            firstProductId := row.firstProductId }
      else some row

/-- The statuses that an update may carry. -/
def PreparedIncidentUpdate.Valid (update : PreparedIncidentUpdate) : Prop :=
  update.currentStatus
    ∈ [none, some activeStatus, some cancelledStatus, some expiredStatus, some upgradedStatus]

section
variable {incidents : List IncidentRow} {update : PreparedIncidentUpdate} {productId : Nat}
  {clock : Timestamp} {key : IncidentKey} {row : IncidentRow}

theorem toRow_key (status : Option Text)
    : (update.toRow productId clock status).key = update.key := rfl

theorem rowOf_key (found : rowOf key incidents = some row) : row.key = key := by
  simpa using List.find?_some found

theorem mem_of_rowOf (found : rowOf key incidents = some row) : row ∈ incidents :=
  List.mem_of_find?_eq_some found

/-- The rows of a key are the one row of it, by induction on the table. -/
theorem filter_key (unique : (incidents.map IncidentRow.key).Nodup) (key : IncidentKey)
    : incidents.filter (·.key = key) = (rowOf key incidents).toList := by
  induction incidents with
  | nil => rfl
  | cons first rest ih =>
      rw [List.map_cons, List.nodup_cons] at unique
      obtain ⟨new, later⟩ := unique
      by_cases same : first.key = key
      · have absent : rest.filter (·.key = key) = [] := by
          rw [List.filter_eq_nil_iff]
          intro other member
          have different : other.key ≠ key := by
            rintro rfl
            exact new (List.mem_map.mpr ⟨other, member, same.symm⟩)
          simpa using different
        simp [rowOf, same, absent]
      · simpa [rowOf, same] using ih later

theorem rowOf_eq_none (key : IncidentKey)
    : rowOf key incidents = none ↔ incidents.any (·.key = key) = false := by
  simp [rowOf]

/-- A map over the rows that keeps their keys. -/
theorem rowOf_map (change : IncidentRow → IncidentRow) (keeps : ∀ row, (change row).key = row.key)
    (key : IncidentKey)
    : rowOf key (incidents.map change) = (rowOf key incidents).map change := by
  have same : (fun row : IncidentRow => decide (row.key = key)) ∘ change
      = fun row => decide (row.key = key) := by
    funext row
    simp [keeps]
  rw [rowOf, List.find?_map, same]
  rfl

theorem resolve_key (excluded row : IncidentRow) : (excluded.resolve row).key = row.key := by
  unfold IncidentRow.resolve
  split_ifs with newer
  · exact newer.1.symm
  · rfl

/-- Updating a row cannot take it out of the checks. -/
theorem resolve_checked {excluded : IncidentRow} (candidate : excluded.satisfiesChecks = true)
    (stored : row.satisfiesChecks = true)
    : (excluded.resolve row).satisfiesChecks = true := by
  unfold IncidentRow.resolve
  split_ifs with newer
  · obtain ⟨status, present⟩ : ∃ status, excluded.currentStatus = some status := by
      rw [IncidentRow.satisfiesChecks] at candidate
      rcases given : excluded.currentStatus with _ | status
      · simp [given] at candidate
      · exact ⟨status, rfl⟩
    simpa [IncidentRow.satisfiesChecks, present] using candidate
  · exact stored

/-- Inserting a candidate that satisfies the checks: a new row, or an update of the row of its
key.
-/
theorem insertIncident_ok (sound : TableSound incidents) {excluded : IncidentRow}
    (candidate : excluded.satisfiesChecks = true)
    : ∃ next,
        insertIncident incidents excluded = .ok next
        ∧ TableSound next
        ∧ ∀ key,
            rowOf key next
            = if key = excluded.key then
                some ((rowOf key incidents).elim excluded excluded.resolve)
              else rowOf key incidents := by
  unfold insertIncident
  rw [if_pos candidate]
  by_cases conflict : incidents.any (·.key = excluded.key) = true
  · refine ⟨incidents.map excluded.resolve, by rw [if_pos conflict], ⟨?_, ?_⟩, ?_⟩
    · have same : IncidentRow.key ∘ excluded.resolve = IncidentRow.key :=
        funext (resolve_key excluded)
      rw [List.map_map, same]
      exact sound.unique
    · intro row member
      obtain ⟨stored, inside, rfl⟩ := List.mem_map.mp member
      exact resolve_checked candidate (sound.checked stored inside)
    · intro key
      rw [rowOf_map _ (resolve_key excluded)]
      by_cases same : key = excluded.key
      · rw [if_pos same]
        rcases found : rowOf key incidents with _ | row
        · rw [rowOf_eq_none, same] at found
          exact absurd (found.symm.trans conflict) (by simp)
        · rfl
      · rw [if_neg same]
        rcases found : rowOf key incidents with _ | row
        · rfl
        · have elsewhere : ¬ (row.key = excluded.key
              ∧ excluded.latestProductTimestampUtc ≥ row.latestProductTimestampUtc) := by
            rintro ⟨clash, -⟩
            exact same ((rowOf_key found).symm.trans clash)
          simp [IncidentRow.resolve, elsewhere]
  · have fresh : rowOf excluded.key incidents = none :=
      (rowOf_eq_none excluded.key).mpr (by simpa using conflict)
    refine ⟨incidents ++ [excluded], by rw [if_neg conflict], ⟨?_, ?_⟩, ?_⟩
    · have new : excluded.key ∉ incidents.map IncidentRow.key := by
        simpa [rowOf] using fresh
      simpa [List.nodup_append] using ⟨sound.unique, by simpa using new⟩
    · intro row member
      rcases List.mem_append.mp member with old | new
      · exact sound.checked row old
      · exact List.mem_singleton.mp new ▸ candidate
    · intro key
      by_cases same : key = excluded.key
      · subst same
        rw [if_pos rfl, fresh, rowOf, List.find?_append, ← rowOf, fresh]
        simp
      · simp [rowOf, List.find?_append, same, Ne.symm same]

/-- One statement on a sound table: it succeeds, and changes the row of its key alone. -/
theorem upsertIncident_ok (sound : TableSound incidents) (valid : update.Valid)
    (productId : Nat) (clock : Timestamp)
    : ∃ next,
        upsertIncident productId clock incidents update = .ok next
        ∧ TableSound next
        ∧ ∀ key,
            rowOf key next
            = if key = update.key then update.applied productId clock (rowOf key incidents)
              else rowOf key incidents := by
  have rows := filter_key sound.unique update.key
  rcases found : rowOf update.key incidents with _ | row
  · -- no row yet: the update is inserted exactly if it carries a status
    rw [found, Option.toList_none] at rows
    rcases status : update.currentStatus with _ | carried
    · refine ⟨incidents, ?_, sound, ?_⟩
      · simp [upsertIncident, candidates, joinedStatuses, rows, status]
        rfl
      · intro key
        by_cases same : key = update.key
        · subst same
          simp [found, PreparedIncidentUpdate.applied, status]
        · rw [if_neg same]
    · have candidate : (update.toRow productId clock (some carried)).satisfiesChecks = true := by
        simpa [PreparedIncidentUpdate.Valid, IncidentRow.satisfiesChecks, status,
          PreparedIncidentUpdate.toRow] using valid
      obtain ⟨next, inserted, kept, lookup⟩ := insertIncident_ok sound candidate
      refine ⟨next, ?_, kept, ?_⟩
      · simpa [upsertIncident, candidates, joinedStatuses, rows, status] using inserted
      · intro key
        rw [lookup, toRow_key]
        by_cases same : key = update.key
        · subst same
          simp [found, PreparedIncidentUpdate.applied, status]
        · rw [if_neg same, if_neg same]
  · -- the row of the key takes the update's values unless it is newer
    rw [found, Option.toList_some] at rows
    have checked := sound.checked row (mem_of_rowOf found)
    obtain ⟨stored, present⟩ : ∃ stored, row.currentStatus = some stored := by
      rw [IncidentRow.satisfiesChecks] at checked
      rcases given : row.currentStatus with _ | stored
      · simp [given] at checked
      · exact ⟨stored, rfl⟩
    have candidate : (update.toRow productId clock
        (update.currentStatus.or row.currentStatus)).satisfiesChecks = true := by
      rcases status : update.currentStatus with _ | carried
      · simpa [IncidentRow.satisfiesChecks, PreparedIncidentUpdate.toRow] using checked
      · simpa [PreparedIncidentUpdate.Valid, IncidentRow.satisfiesChecks, status,
          PreparedIncidentUpdate.toRow] using valid
    obtain ⟨next, inserted, kept, lookup⟩ := insertIncident_ok sound candidate
    refine ⟨next, ?_, kept, ?_⟩
    · simpa [upsertIncident, candidates, joinedStatuses, rows, present] using inserted
    · intro key
      rw [lookup, toRow_key]
      by_cases same : key = update.key
      · subst same
        have sameKey := rowOf_key found
        rw [if_pos rfl, if_pos rfl, found]
        simp only [Option.elim_some, IncidentRow.resolve, PreparedIncidentUpdate.toRow, sameKey,
          true_and, PreparedIncidentUpdate.applied]
        split_ifs
        · rcases update.currentStatus with _ | carried <;> simp
        · rfl
      · rw [if_neg same, if_neg same]

end

-----------------------------------------------------------------------------------------
-- One product
-----------------------------------------------------------------------------------------

/-- The statements of one product on a sound table, by induction on its updates. -/
theorem upsertIncidents_ok {incidents : List IncidentRow} {updates : List PreparedIncidentUpdate}
    (sound : TableSound incidents) (valid : ∀ update ∈ updates, update.Valid)
    (distinct : (updates.map PreparedIncidentUpdate.key).Nodup) (productId : Nat)
    (clock : Timestamp)
    : ∃ next,
        upsertIncidents productId clock incidents updates = .ok next
        ∧ TableSound next
        ∧ ∀ key,
            rowOf key next
            = (updates.find? (·.key = key)).elim (rowOf key incidents) fun update =>
                update.applied productId clock (rowOf key incidents) := by
  induction updates generalizing incidents with
  | nil => exact ⟨incidents, rfl, sound, fun _ => rfl⟩
  | cons update rest ih =>
      rw [List.map_cons, List.nodup_cons] at distinct
      obtain ⟨middle, first, kept, afterFirst⟩ :=
        upsertIncident_ok sound (valid update (by simp)) productId clock
      obtain ⟨next, later, sound, afterRest⟩ :=
        ih kept (fun other member => valid other (by simp [member])) distinct.2
      refine ⟨next, ?_, sound, ?_⟩
      · rw [upsertIncidents, List.foldlM_cons, first]
        exact later
      · intro key
        rw [afterRest, afterFirst, List.find?_cons]
        by_cases same : key = update.key
        · have absent : rest.find? (·.key = key) = none := by
            rw [List.find?_eq_none]
            intro other member
            have different : other.key ≠ key := by
              rintro otherKey
              exact distinct.1 (List.mem_map.mpr ⟨other, member, otherKey.trans same⟩)
            simpa using different
          rw [absent, if_pos same, decide_eq_true same.symm]
          rfl
        · rw [if_neg same, decide_eq_false (Ne.symm same)]

/-- Actions map to the four statuses. -/
theorem mapIncidentStatus_valid {action status : Text}
    (maps : mapIncidentStatus action = some status)
    : status ∈ [activeStatus, cancelledStatus, expiredStatus, upgradedStatus] := by
  unfold mapIncidentStatus at maps
  split_ifs at maps <;> obtain rfl := Option.some.inj maps <;> simp

/-- A carried status comes from one of the rows. -/
theorem exists_of_carriedStatus {rows : List ProductVtecRow} {status : Text}
    (carried : carriedStatus rows = some status)
    : ∃ row ∈ rows, mapIncidentStatus row.action = some status := by
  have member := List.mem_of_getLast? carried
  simpa using member

/-- The updates of a product have statuses that the table allows. -/
theorem incidentUpdates_valid {metadata : CompletedFileMetadata} {prepared : PreparedProduct}
    (ok : PreparedProduct.prepare metadata = .ok prepared)
    : ∀ update ∈ prepared.incidentUpdates, update.Valid := by
  obtain ⟨issuedAt, -, -, -, updates⟩ := prepare_ok ok
  rw [updates]
  intro update member
  obtain ⟨value, found, same⟩ := mem_incidentUpdates.mp member
  have status := accumulated_status (rowsFor update.key prepared.vtec)
  rw [found, Option.bind_some] at status
  have carries : update.currentStatus = carriedStatus (rowsFor update.key prepared.vtec) := by
    rw [← status, same]
    rfl
  rw [PreparedIncidentUpdate.Valid, carries]
  rcases carried : carriedStatus (rowsFor update.key prepared.vtec) with _ | carriedOne
  · simp
  · obtain ⟨row, -, maps⟩ := exists_of_carriedStatus carried
    simpa using mapIncidentStatus_valid maps

/-- The updates of a product are for different incidents. -/
theorem incidentUpdates_distinct {metadata : CompletedFileMetadata} {prepared : PreparedProduct}
    (ok : PreparedProduct.prepare metadata = .ok prepared)
    : (prepared.incidentUpdates.map PreparedIncidentUpdate.key).Nodup := by
  obtain ⟨issuedAt, -, -, -, updates⟩ := prepare_ok ok
  rw [updates, List.map_map]
  have increasing := (groupRows prepared.vtec).sorted
  rw [← List.pairwise_map] at increasing
  exact increasing.imp fun less => ne_of_lt less

/-- The update that a product has for an incident. -/
def updateFor (metadata : CompletedFileMetadata) (key : IncidentKey)
    : Option PreparedIncidentUpdate :=
  match PreparedProduct.prepare metadata with
  | .error _ => none
  | .ok prepared => prepared.incidentUpdates.find? (·.key = key)

/-- The id under which a product is stored. -/
def Database.productId (database : Database) (metadata : CompletedFileMetadata) : Nat :=
  (database.upsertProduct metadata.filename metadata.timestampUtc.toNat).2

theorem upsertProduct_incidents (database : Database) (filename : Text) (seconds : Int)
    : (database.upsertProduct filename seconds).1.incidents = database.incidents := by
  unfold Database.upsertProduct
  split <;> rfl

variable {database : Database}

/-- Persisting a product: its updates, each on the row of its own key. -/
theorem persist_rows (sound : TableSound database.incidents) (metadata : CompletedFileMetadata)
    (clock : Timestamp)
    : TableSound (database.persist metadata clock).incidents
      ∧ ∀ key,
          (database.persist metadata clock).row? key
          = (updateFor metadata key).elim (database.row? key) fun update =>
              update.applied (database.productId metadata) clock (database.row? key) := by
  unfold Database.persist updateFor
  rcases ok : PreparedProduct.prepare metadata with error | prepared
  · exact ⟨sound, fun _ => rfl⟩
  · obtain ⟨issuedAt, seconds, -⟩ := prepare_ok ok
    have stored := upsertProduct_incidents database metadata.filename prepared.sourceTimestampUtc
    obtain ⟨next, upserted, kept, rows⟩ :=
      upsertIncidents_ok (stored ▸ sound) (incidentUpdates_valid ok) (incidentUpdates_distinct ok)
        (database.upsertProduct metadata.filename prepared.sourceTimestampUtc).2 clock
    simp only [upserted]
    refine ⟨kept, ?_⟩
    intro key
    rw [Database.row?, rows, stored, Database.productId, seconds]
    rfl

/-- The time of a product, as its updates carry it. -/
def CompletedFileMetadata.issuedAt (metadata : CompletedFileMetadata) : Timestamp :=
  metadata.timestampUtc.toNat * 10 ^ 6

/-- What a product that can be prepared updates. -/
theorem updateFor_of_prepared {metadata : CompletedFileMetadata} {prepared : PreparedProduct}
    (ok : PreparedProduct.prepare metadata = .ok prepared) (key : IncidentKey)
    : updateFor metadata key
      = (accumulated (rowsFor key prepared.vtec)).map (updateOf metadata.issuedAt key) := by
  obtain ⟨issuedAt, seconds, converts, -, updates⟩ := prepare_ok ok
  have issued : issuedAt = metadata.issuedAt := by
    unfold fromTimestamp at converts
    split_ifs at converts with inRange
    rw [← Option.some.inj converts, seconds]
    rfl
  unfold updateFor
  simp only [ok]
  rw [← List.head?_filter, updates, filter_incidentUpdates, issued]
  cases accumulated (rowsFor key prepared.vtec) <;> rfl

/-- An update carries the product's time, and what the product's rows make of its incident. -/
theorem updateFor_eq_some {metadata : CompletedFileMetadata} {key : IncidentKey}
    {update : PreparedIncidentUpdate} (found : updateFor metadata key = some update)
    : ∃ prepared value,
        PreparedProduct.prepare metadata = .ok prepared
        ∧ accumulated (rowsFor key prepared.vtec) = some value
        ∧ update = updateOf metadata.issuedAt key value := by
  rcases ok : PreparedProduct.prepare metadata with error | prepared
  · simp [updateFor, ok] at found
  · rw [updateFor_of_prepared ok] at found
    obtain ⟨value, accumulates, same⟩ := Option.map_eq_some_iff.mp found
    exact ⟨prepared, value, rfl, accumulates, same.symm⟩

-----------------------------------------------------------------------------------------
-- Runs
-----------------------------------------------------------------------------------------

theorem expireRow_key (now clock : Timestamp) (row : IncidentRow)
    : (Database.expireRow now clock row).key = row.key := by
  unfold Database.expireRow
  split_ifs <;> rfl

theorem expire_row? (now clock : Timestamp) (key : IncidentKey)
    : (database.expireActiveIncidents now clock).row? key
      = (database.row? key).map (Database.expireRow now clock) :=
  rowOf_map _ (expireRow_key now clock) key

theorem TableSound.expire (sound : TableSound database.incidents) (now clock : Timestamp)
    : TableSound (database.expireActiveIncidents now clock).incidents := by
  constructor
  · have same : IncidentRow.key ∘ Database.expireRow now clock = IncidentRow.key :=
      funext (expireRow_key now clock)
    rw [Database.expireActiveIncidents, List.map_map, same]
    exact sound.unique
  · intro row member
    obtain ⟨stored, inside, rfl⟩ := List.mem_map.mp member
    unfold Database.expireRow
    split_ifs with expires
    · simp [IncidentRow.satisfiesChecks]
    · exact sound.checked stored inside

/-- The table is sound in every state of every run. -/
theorem table_sound (run : databaseMachine.Reachable database)
    : TableSound database.incidents := by
  refine run.invariant (motive := fun database => TableSound database.incidents) ?_ ?_
  · rintro _ rfl
    exact ⟨List.nodup_nil, by simp⟩
  · intro before action next sound _ taken
    cases action with
    | persist metadata clock =>
        obtain rfl := Option.some.inj taken
        exact (persist_rows sound metadata clock).1
    | expire now clock =>
        obtain rfl := Option.some.inj taken
        exact sound.expire now clock

/-- What the later row of an incident keeps of an earlier one. -/
structure Succeeds (later row : IncidentRow) : Prop where
  newer : row.latestProductTimestampUtc ≤ later.latestProductTimestampUtc
  first : later.firstProductId = row.firstProductId

theorem Succeeds.refl (row : IncidentRow) : Succeeds row row := ⟨le_rfl, rfl⟩

theorem Succeeds.trans {last later row : IncidentRow} (newer : Succeeds last later)
    (older : Succeeds later row)
    : Succeeds last row :=
  ⟨older.newer.trans newer.newer, newer.first.trans older.first⟩

/-- An update leaves a row in place. -/
theorem applied_succeeds (update : PreparedIncidentUpdate) (productId : Nat) (clock : Timestamp)
    (row : IncidentRow)
    : ∃ later, update.applied productId clock (some row) = some later ∧ Succeeds later row := by
  rw [PreparedIncidentUpdate.applied]
  split_ifs with newer
  · exact ⟨_, rfl, newer, rfl⟩
  · exact ⟨row, rfl, .refl row⟩

/-- No step removes a row, turns its time back or changes its first product. -/
theorem step_succeeds (sound : TableSound database.incidents) {action : DatabaseAction}
    {next : Database} (taken : databaseMachine.step database action = some next)
    {key : IncidentKey} {row : IncidentRow} (found : database.row? key = some row)
    : ∃ later, next.row? key = some later ∧ Succeeds later row := by
  cases action with
  | persist metadata clock =>
      obtain rfl := Option.some.inj taken
      rw [(persist_rows sound metadata clock).2, found]
      cases updateFor metadata key with
      | none => exact ⟨row, rfl, .refl row⟩
      | some update => exact applied_succeeds update _ clock row
  | expire now clock =>
      obtain rfl := Option.some.inj taken
      refine ⟨Database.expireRow now clock row, by rw [expire_row?, found]; rfl, ?_⟩
      unfold Database.expireRow
      split_ifs
      · exact ⟨le_rfl, rfl⟩
      · exact .refl row

/-- Nor does any number of steps, by induction on the steps. -/
theorem takes_succeeds (run : databaseMachine.Reachable database)
    {actions : List DatabaseAction} {last : Database}
    (taken : databaseMachine.takes database actions = some last)
    {key : IncidentKey} {row : IncidentRow} (found : database.row? key = some row)
    : ∃ later, last.row? key = some later ∧ Succeeds later row := by
  induction actions generalizing database row with
  | nil => exact ⟨row, Option.some.inj taken ▸ found, .refl row⟩
  | cons action rest ih =>
      obtain ⟨next, first, after⟩ := Option.bind_eq_some_iff.mp taken
      obtain ⟨later, stays, succeeds⟩ := step_succeeds (table_sound run) first found
      obtain ⟨final, ends, further⟩ := ih (.step run trivial first) after stays
      exact ⟨final, ends, further.trans succeeds⟩

/-- An update that carries no status needs a row; one that carries a status has it from an
operational row of the product.
-/
theorem created_by {metadata : CompletedFileMetadata} {key : IncidentKey}
    {update : PreparedIncidentUpdate} (found : updateFor metadata key = some update)
    (carries : update.currentStatus.isSome = true)
    : ∃ prepared,
        PreparedProduct.prepare metadata = .ok prepared
        ∧ ∃ row ∈ prepared.vtec,
            row.operational = true
            ∧ row.key = key
            ∧ (mapIncidentStatus row.action).isSome = true := by
  obtain ⟨prepared, value, ok, accumulates, rfl⟩ := updateFor_eq_some found
  obtain ⟨status, carried⟩ := Option.isSome_iff_exists.mp carries
  have source := accumulated_status (rowsFor key prepared.vtec)
  rw [accumulates, Option.bind_some] at source
  obtain ⟨row, member, maps⟩ := exists_of_carriedStatus (source.symm.trans carried)
  obtain ⟨inside, operational, same⟩ := mem_rowsFor.mp member
  exact ⟨prepared, ok, row, inside, operational, same, by simp [maps]⟩

/-- A row but for the time of its last update. -/
def IncidentRow.untimed (row : IncidentRow) : IncidentRow := { row with lastUpdatedAt := 0 }

/-- Applying an update again changes at most the time of the last update. -/
theorem applied_again (update : PreparedIncidentUpdate) (productId : Nat)
    (clock later : Timestamp) (found : Option IncidentRow)
    : (update.applied productId later (update.applied productId clock found)).map
        IncidentRow.untimed
      = (update.applied productId clock found).map IncidentRow.untimed := by
  cases found with
  | none =>
      cases status : update.currentStatus with
      | none => simp [PreparedIncidentUpdate.applied, status]
      | some carried =>
          simp [PreparedIncidentUpdate.applied, status, PreparedIncidentUpdate.toRow,
            IncidentRow.untimed]
  | some row =>
      by_cases newer : update.latestProductTimestampUtc ≥ row.latestProductTimestampUtc
      · cases status : update.currentStatus <;>
          simp [PreparedIncidentUpdate.applied, newer, status, PreparedIncidentUpdate.toRow,
            IncidentRow.untimed]
      · simp [PreparedIncidentUpdate.applied, newer]

/-- A product that was stored is found under its id. -/
theorem upsertProduct_again {later : Database} {filename : Text} {seconds : Int}
    (stored : later.products = (database.upsertProduct filename seconds).1.products)
    : (later.upsertProduct filename seconds).2 = (database.upsertProduct filename seconds).2 := by
  unfold Database.upsertProduct at stored ⊢
  rcases found : database.products.find?
      (fun row => row.1 = filename ∧ row.2.1 = seconds) with _ | row
  · have again : later.products.find? (fun row => row.1 = filename ∧ row.2.1 = seconds)
        = some (filename, seconds, database.nextProductId) := by
      rw [stored, found, List.find?_append, found]
      simp
    rw [again, found]
  · have again : later.products.find? (fun row => row.1 = filename ∧ row.2.1 = seconds)
        = some row := by
      rw [stored, found]
      exact found
    rw [again, found]

/-- A persisted product is stored. -/
theorem persist_products (sound : TableSound database.incidents)
    {metadata : CompletedFileMetadata} {prepared : PreparedProduct}
    (ok : PreparedProduct.prepare metadata = .ok prepared) (clock : Timestamp)
    : (database.persist metadata clock).products
      = (database.upsertProduct metadata.filename metadata.timestampUtc.toNat).1.products := by
  obtain ⟨issuedAt, seconds, -⟩ := prepare_ok ok
  have stored := upsertProduct_incidents database metadata.filename prepared.sourceTimestampUtc
  obtain ⟨next, upserted, -⟩ :=
    upsertIncidents_ok (stored ▸ sound) (incidentUpdates_valid ok) (incidentUpdates_distinct ok)
      (database.upsertProduct metadata.filename prepared.sourceTimestampUtc).2 clock
  rw [seconds] at upserted
  simp only [Database.persist, ok, seconds, upserted]

/-- Persisting a product again right after changes at most the time of the last update. -/
theorem persist_again (sound : TableSound database.incidents) (metadata : CompletedFileMetadata)
    (clock later : Timestamp) (key : IncidentKey)
    : (((database.persist metadata clock).persist metadata later).row? key).map
        IncidentRow.untimed
      = ((database.persist metadata clock).row? key).map IncidentRow.untimed := by
  obtain ⟨kept, rows⟩ := persist_rows sound metadata clock
  rw [(persist_rows kept metadata later).2, rows]
  cases found : updateFor metadata key with
  | none => rfl
  | some update =>
      obtain ⟨prepared, -, ok, -⟩ := updateFor_eq_some found
      have sameId : (database.persist metadata clock).productId metadata
          = database.productId metadata :=
        upsertProduct_again (persist_products sound ok clock)
      rw [sameId]
      exact applied_again update _ clock later _

/-- What holds of the incidents in every state of every run. -/
structure IncidentsKept (database : Database) : Prop where
  /-- At most one row exists for a key. -/
  unique : ∀ key, (database.incidents.filter (·.key = key)).length ≤ 1
  /-- The status is one of the four and never NULL. -/
  status
    : ∀ row ∈ database.incidents,
        row.currentStatus
          ∈ [some activeStatus, some cancelledStatus, some expiredStatus, some upgradedStatus]
  /-- Along every run from here a row stays, its time never decreases and its first product
  never changes.
  -/
  succeeds
    : ∀ actions last key row,
        databaseMachine.takes database actions = some last
        → database.row? key = some row
        → ∃ later,
            last.row? key = some later
            ∧ row.latestProductTimestampUtc ≤ later.latestProductTimestampUtc
            ∧ later.firstProductId = row.firstProductId
  /-- An older product leaves the row unchanged. -/
  stale
    : ∀ metadata clock key row,
        database.row? key = some row
        → metadata.issuedAt < row.latestProductTimestampUtc
        → (database.persist metadata clock).row? key = some row
  /-- A row is created by an operational code whose action maps to a status. -/
  created
    : ∀ action next key row,
        databaseMachine.step database action = some next
        → database.row? key = none
        → next.row? key = some row
        → ∃ metadata clock prepared,
            action = .persist metadata clock
            ∧ PreparedProduct.prepare metadata = .ok prepared
            ∧ ∃ vtec ∈ prepared.vtec,
                vtec.operational = true
                ∧ vtec.key = key
                ∧ (mapIncidentStatus vtec.action).isSome = true
  /-- The same product twice in a row is the same as once. -/
  again
    : ∀ metadata clock later key,
        (((database.persist metadata clock).persist metadata later).row? key).map
          IncidentRow.untimed
        = ((database.persist metadata clock).row? key).map IncidentRow.untimed
  /-- Clean-up changes status and time of the last update only, from active to expired, and
  only of incidents that have ended.
  -/
  expires
    : ∀ now clock key,
        (database.expireActiveIncidents now clock).row? key = database.row? key
        ∨ ∃ row ended,
            database.row? key = some row
            ∧ row.currentStatus = some activeStatus
            ∧ row.endUtc = some ended
            ∧ ended < now
            ∧ (database.expireActiveIncidents now clock).row? key
              = some { row with currentStatus := some expiredStatus, lastUpdatedAt := clock }

/-- The incidents are kept in every state of every run of products and clean-ups. -/
theorem incidents_kept (run : databaseMachine.Reachable database)
    : IncidentsKept database := by
  have sound := table_sound run
  constructor
  · intro key
    rw [filter_key sound.unique]
    cases rowOf key database.incidents <;> simp
  · intro row member
    simpa [IncidentRow.satisfiesChecks] using sound.checked row member
  · intro actions last key row taken found
    obtain ⟨later, stays, succeeds⟩ := takes_succeeds run taken found
    exact ⟨later, stays, succeeds.newer, succeeds.first⟩
  · intro metadata clock key row found older
    rw [(persist_rows sound metadata clock).2, found]
    cases made : updateFor metadata key with
    | none => rfl
    | some update =>
        obtain ⟨prepared, value, -, -, rfl⟩ := updateFor_eq_some made
        exact if_neg (not_le.mpr older)
  · intro action next key row taken absent present
    cases action with
    | persist metadata clock =>
        obtain rfl := Option.some.inj taken
        rw [(persist_rows sound metadata clock).2, absent] at present
        cases made : updateFor metadata key with
        | none => simp [made] at present
        | some update =>
            have carries : update.currentStatus.isSome = true := by
              by_contra silent
              simp [made, PreparedIncidentUpdate.applied, silent] at present
            obtain ⟨prepared, ok, source⟩ := created_by made carries
            exact ⟨metadata, clock, prepared, rfl, ok, source⟩
    | expire now clock =>
        obtain rfl := Option.some.inj taken
        simp [expire_row?, absent] at present
  · exact persist_again sound
  · intro now clock key
    rw [expire_row?]
    cases found : database.row? key with
    | none => exact .inl rfl
    | some row =>
        by_cases ends : row.currentStatus = some activeStatus ∧ row.endUtc.any (· < now)
        · obtain ⟨ended, past⟩ : ∃ ended, row.endUtc = some ended ∧ ended < now := by
            cases given : row.endUtc with
            | none => simp [given] at ends
            | some ended => exact ⟨ended, rfl, by simpa [given] using ends.2⟩
          refine .inr ⟨row, ended, rfl, ends.1, past.1, past.2, ?_⟩
          simp only [Option.map_some, Database.expireRow, if_pos ends]
        · refine .inl ?_
          simp only [Option.map_some, Database.expireRow, if_neg ends]

/-- A warning, its end, and a correction of it. -/
def warnedThenExpired : List DatabaseAction :=
  [.persist (sampleStatement 1741175200 ["NEW"]) 0, .expire 5 1,
    .persist (sampleStatement 1741175500 ["COR"]) 2]

theorem incidents_kept_corrected
    : ∃ database,
        databaseMachine.Reachable database
        ∧ (database.row? sampleKey).map
            (fun row => (row.currentStatus, row.latestVtecAction, row.firstProductId))
          = some (some activeStatus, "COR".toList, 1)
        ∧ IncidentsKept database := by
  have computed : (databaseMachine.takes {} warnedThenExpired).map
      (fun database => (database.row? sampleKey).map
        fun row => (row.currentStatus, row.latestVtecAction, row.firstProductId))
      = some (some (some activeStatus, "COR".toList, 1)) := by
    decide +kernel
  obtain ⟨database, taken, row⟩ := Option.map_eq_some_iff.mp computed
  have run : databaseMachine.Reachable database := .takes (.start rfl) (by simp) taken
  exact ⟨database, run, row, incidents_kept run⟩

end Emwin.Db
