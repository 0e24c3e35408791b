import Emwin.Db.IncidentRows
import Emwin.Library.Register

/-! Whether the order in which products are persisted shows in the incidents. -/

namespace Emwin.Db
open Library

/-- The update as a write to the register of its incident. -/
def PreparedIncidentUpdate.toWrite (update : PreparedIncidentUpdate) : Write Timestamp Text Text :=
  ⟨update.latestProductTimestampUtc, update.currentStatus, update.latestVtecAction⟩

/-- The row as what the register of its incident holds. -/
def IncidentRow.toStored (row : IncidentRow) : Stored Timestamp Text Text :=
  ⟨row.latestProductTimestampUtc, row.currentStatus.getD [], row.latestVtecAction⟩

/-- What the incidents are compared by. -/
def IncidentRow.outcome (row : IncidentRow) : Option Text × Text × Timestamp :=
  (row.currentStatus, row.latestVtecAction, row.latestProductTimestampUtc)

/-- Persist products one after another, each at its time, without a clean-up in between. -/
def Database.persistAll (database : Database)
    (deliveries : List (CompletedFileMetadata × Timestamp))
    : Database :=
  deliveries.foldl (fun database delivery => database.persist delivery.1 delivery.2) database

/-- The write that a product makes to an incident. -/
def writeFor (key : IncidentKey) (metadata : CompletedFileMetadata)
    : Option (Write Timestamp Text Text) :=
  (updateFor metadata key).map PreparedIncidentUpdate.toWrite

-----------------------------------------------------------------------------------------
-- The table refines the registers
-----------------------------------------------------------------------------------------

theorem status_of_sound {incidents : List IncidentRow} (sound : TableSound incidents)
    {key : IncidentKey} {row : IncidentRow} (found : rowOf key incidents = some row)
    : ∃ status, row.currentStatus = some status := by
  have checked := sound.checked row (mem_of_rowOf found)
  rcases given : row.currentStatus with _ | status
  · simp [IncidentRow.satisfiesChecks, given] at checked
  · exact ⟨status, rfl⟩

/-- An update writes to the register of its incident. -/
theorem applied_put (update : PreparedIncidentUpdate) (productId : Nat) (clock : Timestamp)
    {found : Option IncidentRow}
    (checked : ∀ row, found = some row → ∃ status, row.currentStatus = some status)
    : (update.applied productId clock found).map IncidentRow.toStored
      = update.toWrite.put (found.map IncidentRow.toStored) := by
  cases found with
  | none =>
      cases status : update.currentStatus with
      | none =>
          simp [PreparedIncidentUpdate.applied, PreparedIncidentUpdate.toWrite, Write.put, status]
      | some carried =>
          simp [PreparedIncidentUpdate.applied, PreparedIncidentUpdate.toWrite, Write.put, status,
            PreparedIncidentUpdate.toRow, IncidentRow.toStored]
  | some row =>
      obtain ⟨stored, present⟩ := checked row rfl
      by_cases newer : row.latestProductTimestampUtc ≤ update.latestProductTimestampUtc
      · cases status : update.currentStatus <;>
          simp [PreparedIncidentUpdate.applied, PreparedIncidentUpdate.toWrite, Write.put, status,
            PreparedIncidentUpdate.toRow, IncidentRow.toStored, newer, present]
      · simp [PreparedIncidentUpdate.applied, PreparedIncidentUpdate.toWrite, Write.put,
          IncidentRow.toStored, newer]

variable {database : Database}

/-- Persisting products writes to the registers in the same order, by induction on the
deliveries.
-/
theorem persistAll_puts (sound : TableSound database.incidents)
    (deliveries : List (CompletedFileMetadata × Timestamp))
    : TableSound (database.persistAll deliveries).incidents
      ∧ ∀ key,
          ((database.persistAll deliveries).row? key).map IncidentRow.toStored
          = Write.puts ((database.row? key).map IncidentRow.toStored)
              ((deliveries.map Prod.fst).filterMap (writeFor key)) := by
  induction deliveries generalizing database with
  | nil => exact ⟨sound, fun _ => rfl⟩
  | cons delivery rest ih =>
      obtain ⟨kept, rows⟩ := persist_rows sound delivery.1 delivery.2
      obtain ⟨later, writes⟩ := ih kept
      refine ⟨later, ?_⟩
      intro key
      refine (writes key).trans ?_
      rw [rows, List.map_cons]
      cases made : updateFor delivery.1 key with
      | none =>
          have none : writeFor key delivery.1 = none := by rw [writeFor, made]; rfl
          rw [List.filterMap_cons_none none]
          rfl
      | some update =>
          have some : writeFor key delivery.1 = some update.toWrite := by rw [writeFor, made]; rfl
          rw [List.filterMap_cons_some some, Write.puts_cons, ← applied_put update
            (database.productId delivery.1) delivery.2]
          · rfl
          · exact fun row found => status_of_sound sound found

/-- Rows with a status have the same outcome exactly if the registers hold the same. -/
theorem outcome_eq_iff {left right : List IncidentRow} (first : TableSound left)
    (second : TableSound right) (key : IncidentKey)
    : (rowOf key left).map IncidentRow.outcome = (rowOf key right).map IncidentRow.outcome
      ↔ (rowOf key left).map IncidentRow.toStored
        = (rowOf key right).map IncidentRow.toStored := by
  rcases onLeft : rowOf key left with _ | row <;> rcases onRight : rowOf key right with _ | other
  · simp
  · simp
  · simp
  · obtain ⟨status, present⟩ := status_of_sound first onLeft
    obtain ⟨otherStatus, otherPresent⟩ := status_of_sound second onRight
    simp [IncidentRow.outcome, IncidentRow.toStored, present, otherPresent]
    tauto

-----------------------------------------------------------------------------------------
-- Convergence
-----------------------------------------------------------------------------------------

/-- Any two orders of the products, at any times, leave every incident with the same status,
action and time.
-/
def OrdersAgree (database : Database) (products : List CompletedFileMetadata) : Prop :=
  ∀ left right : List (CompletedFileMetadata × Timestamp),
    (left.map Prod.fst).Perm products
    → (right.map Prod.fst).Perm products
    → ∀ key,
        ((database.persistAll left).row? key).map IncidentRow.outcome
        = ((database.persistAll right).row? key).map IncidentRow.outcome

/-- The product is not older than the stored row of the incident. -/
def NotOlder (database : Database) (key : IncidentKey) (product : CompletedFileMetadata) : Prop :=
  ∀ row, database.row? key = some row → row.latestProductTimestampUtc ≤ product.issuedAt

/-- The product has an operational row of the incident. -/
def UpdatesIncident (product : CompletedFileMetadata) (key : IncidentKey) : Prop :=
  ∃ prepared,
    PreparedProduct.prepare product = .ok prepared
    ∧ ∃ row ∈ prepared.vtec, row.operational = true ∧ row.key = key

/-- The product's rows of the incident carry the status. -/
def CarriesStatus (product : CompletedFileMetadata) (key : IncidentKey) (status : Text) : Prop :=
  ∃ prepared, PreparedProduct.prepare product = .ok prepared ∧ LastMapsTo status key prepared.vtec

/-- For every incident: of the products that update it and are not older than its row, the
newest carries a status, or every status that they carry is the stored one.
-/
def NewestDecides (database : Database) (products : List CompletedFileMetadata) : Prop :=
  ∀ key,
    ∀ newest ∈ products,
      UpdatesIncident newest key
      → NotOlder database key newest
      → (∀ other ∈ products,
          UpdatesIncident other key
          → NotOlder database key other
          → other.issuedAt ≤ newest.issuedAt)
      → (∃ status, CarriesStatus newest key status)
        ∨ ∀ other ∈ products,
            NotOlder database key other
            → ∀ status,
                CarriesStatus other key status
                → (database.row? key).bind IncidentRow.currentStatus = some status

theorem updatesIncident_iff {product : CompletedFileMetadata} {key : IncidentKey}
    : UpdatesIncident product key ↔ ∃ update, updateFor product key = some update := by
  constructor
  · rintro ⟨prepared, ok, row, member, operational, same⟩
    have counted := mem_rowsFor.mpr ⟨member, operational, same⟩
    have action := accumulated_action (rowsFor key prepared.vtec)
    rw [updateFor_of_prepared ok, ← Option.isSome_iff_exists, Option.isSome_map,
      ← Option.isSome_map (f := IncidentAccumulator.latestVtecAction), action, Option.isSome_map,
      List.getLast?_isSome]
    exact List.ne_nil_of_mem counted
  · rintro ⟨update, made⟩
    obtain ⟨prepared, value, ok, found, -⟩ := updateFor_eq_some made
    have action := accumulated_action (rowsFor key prepared.vtec)
    rw [found, Option.map_some, eq_comm, Option.map_eq_some_iff] at action
    obtain ⟨row, last, -⟩ := action
    exact ⟨prepared, ok, row, mem_rowsFor.mp (List.mem_of_getLast? last)⟩

theorem carriesStatus_iff {product : CompletedFileMetadata} {key : IncidentKey} {status : Text}
    : CarriesStatus product key status
      ↔ ∃ update,
          updateFor product key = some update ∧ update.currentStatus = some status := by
  constructor
  · rintro ⟨prepared, ok, last⟩
    rw [← carriedStatus_rowsFor, ← accumulated_status] at last
    obtain ⟨value, found, carried⟩ := Option.bind_eq_some_iff.mp last
    refine ⟨updateOf product.issuedAt key value, ?_, carried⟩
    rw [updateFor_of_prepared ok, found]
    rfl
  · rintro ⟨update, made, carried⟩
    obtain ⟨prepared, value, ok, found, rfl⟩ := updateFor_eq_some made
    refine ⟨prepared, ok, ?_⟩
    rw [← carriedStatus_rowsFor, ← accumulated_status, found]
    exact carried

theorem stamp_toWrite {metadata : CompletedFileMetadata} {key : IncidentKey}
    {update : PreparedIncidentUpdate} (made : updateFor metadata key = some update)
    : update.toWrite.stamp = metadata.issuedAt := by
  obtain ⟨prepared, value, -, -, rfl⟩ := updateFor_eq_some made
  rfl

/-- Products with different timestamps make writes with different stamps. -/
theorem writes_distinct {products : List CompletedFileMetadata}
    (distinct : products.Pairwise fun left right => left.timestampUtc ≠ right.timestampUtc)
    (key : IncidentKey)
    : (products.filterMap (writeFor key)).Pairwise fun left right => left.stamp ≠ right.stamp := by
  refine List.pairwise_filterMap.mpr (distinct.imp ?_)
  intro left right different first made second madeToo
  obtain ⟨update, found, rfl⟩ := Option.map_eq_some_iff.mp made
  obtain ⟨other, foundToo, rfl⟩ := Option.map_eq_some_iff.mp madeToo
  rw [stamp_toWrite found, stamp_toWrite foundToo]
  intro same
  have seconds := Int.eq_of_mul_eq_mul_right (by decide) same
  exact different (UInt64.toNat_inj.mp (Int.ofNat.inj seconds))

/-- All orders agree exactly if the writes to every register converge. -/
theorem ordersAgree_iff_converges (sound : TableSound database.incidents)
    (products : List CompletedFileMetadata)
    : OrdersAgree database products
      ↔ ∀ key,
          Write.Converges ((database.row? key).map IncidentRow.toStored)
            (products.filterMap (writeFor key)) := by
  constructor
  · intro agree key left right first second
    obtain ⟨leftProducts, leftOrder, rfl⟩ := exists_perm_filterMap (writeFor key) first
    obtain ⟨rightProducts, rightOrder, rfl⟩ := exists_perm_filterMap (writeFor key) second
    have untimed (list : List CompletedFileMetadata)
        : (list.map fun product => (product, (0 : Timestamp))).map Prod.fst = list := by
      rw [List.map_map]
      exact List.map_id list
    have same := agree (leftProducts.map (·, 0)) (rightProducts.map (·, 0))
      (by rwa [untimed]) (by rwa [untimed]) key
    obtain ⟨leftSound, leftPuts⟩ := persistAll_puts sound (leftProducts.map (·, 0))
    obtain ⟨rightSound, rightPuts⟩ := persistAll_puts sound (rightProducts.map (·, 0))
    have stored := (outcome_eq_iff leftSound rightSound key).mp same
    rw [← untimed leftProducts, ← untimed rightProducts]
    exact (leftPuts key).symm.trans (stored.trans (rightPuts key))
  · intro converges left right first second key
    obtain ⟨leftSound, leftPuts⟩ := persistAll_puts sound left
    obtain ⟨rightSound, rightPuts⟩ := persistAll_puts sound right
    refine (outcome_eq_iff leftSound rightSound key).mpr ?_
    refine (leftPuts key).trans (.trans ?_ (rightPuts key).symm)
    exact converges key _ _ (first.filterMap _) (second.filterMap _)

theorem relevant_iff {metadata : CompletedFileMetadata} {key : IncidentKey}
    {update : PreparedIncidentUpdate} (made : updateFor metadata key = some update)
    : Write.Relevant ((database.row? key).map IncidentRow.toStored) update.toWrite
      ↔ NotOlder database key metadata := by
  unfold Write.Relevant NotOlder
  rw [stamp_toWrite made]
  cases database.row? key with
  | none => simp
  | some row => simp [IncidentRow.toStored]

theorem storedPart_iff (sound : TableSound database.incidents) (key : IncidentKey)
    (status : Text)
    : ((database.row? key).map IncidentRow.toStored).map Stored.part = some status
      ↔ (database.row? key).bind IncidentRow.currentStatus = some status := by
  rcases found : database.row? key with _ | row
  · simp
  · obtain ⟨stored, present⟩ := status_of_sound sound found
    simp [IncidentRow.toStored, present]

/-- The condition on the products, as one on the writes to the registers. -/
theorem newestDecides_iff_settled (sound : TableSound database.incidents)
    (products : List CompletedFileMetadata)
    : NewestDecides database products
      ↔ ∀ key,
          Write.Settled ((database.row? key).map IncidentRow.toStored)
            (products.filterMap (writeFor key)) := by
  have mem_writes {key : IncidentKey} {write : Write Timestamp Text Text}
      : write ∈ products.filterMap (writeFor key)
        ↔ ∃ product ∈ products,
            ∃ update, updateFor product key = some update ∧ update.toWrite = write := by
    simp [writeFor]
  constructor
  · intro decides key write member relevant greatest
    obtain ⟨newest, inside, update, made, rfl⟩ := mem_writes.mp member
    have last := decides key newest inside (updatesIncident_iff.mpr ⟨update, made⟩)
      ((relevant_iff made).mp relevant) ?_
    · refine last.imp ?_ ?_
      · rintro ⟨status, carries⟩
        obtain ⟨same, madeToo, carried⟩ := carriesStatus_iff.mp carries
        obtain rfl := Option.some.inj (made.symm.trans madeToo)
        exact Option.isSome_of_eq_some carried
      · intro inherited other otherMember otherRelevant part brings
        obtain ⟨product, there, otherUpdate, madeToo, rfl⟩ := mem_writes.mp otherMember
        rw [storedPart_iff sound]
        exact inherited product there ((relevant_iff madeToo).mp otherRelevant) part
          (carriesStatus_iff.mpr ⟨otherUpdate, madeToo, brings⟩)
    · intro other there updates notOlder
      obtain ⟨otherUpdate, madeToo⟩ := updatesIncident_iff.mp updates
      have bound := greatest otherUpdate.toWrite (mem_writes.mpr ⟨other, there, _, madeToo, rfl⟩)
        ((relevant_iff madeToo).mpr notOlder)
      rwa [stamp_toWrite madeToo, stamp_toWrite made] at bound
  · intro settled key newest inside updates notOlder greatest
    obtain ⟨update, made⟩ := updatesIncident_iff.mp updates
    have last := settled key update.toWrite (mem_writes.mpr ⟨newest, inside, _, made, rfl⟩)
      ((relevant_iff made).mpr notOlder) ?_
    · refine last.imp ?_ ?_
      · intro own
        obtain ⟨status, carried⟩ := Option.isSome_iff_exists.mp own
        exact ⟨status, carriesStatus_iff.mpr ⟨update, made, carried⟩⟩
      · intro inherited other there otherNotOlder status carries
        obtain ⟨otherUpdate, madeToo, brings⟩ := carriesStatus_iff.mp carries
        rw [← storedPart_iff sound]
        exact inherited otherUpdate.toWrite (mem_writes.mpr ⟨other, there, _, madeToo, rfl⟩)
          ((relevant_iff madeToo).mpr otherNotOlder) status brings
    · intro other otherMember otherRelevant
      obtain ⟨product, there, otherUpdate, madeToo, rfl⟩ := mem_writes.mp otherMember
      rw [stamp_toWrite madeToo, stamp_toWrite made]
      exact greatest product there (updatesIncident_iff.mpr ⟨otherUpdate, madeToo⟩)
        ((relevant_iff madeToo).mp otherRelevant)

/-- For products with different timestamps, and from any table that a run leaves, all orders
agree if and only if the newest update of every incident carries a status, or no update
carries one that is not stored.
-/
theorem orders_agree_iff (run : databaseMachine.Reachable database)
    {products : List CompletedFileMetadata}
    (distinct : products.Pairwise fun left right => left.timestampUtc ≠ right.timestampUtc)
    : OrdersAgree database products ↔ NewestDecides database products := by
  have sound := table_sound run
  rw [ordersAgree_iff_converges sound, newestDecides_iff_settled sound]
  exact forall_congr' fun key => Write.converges_iff (writes_distinct distinct key)

/-- A statement with one segment carries the status of its action. -/
theorem carries_single {seconds : UInt64} {action : String} {status : Text} {key : IncidentKey}
    (rows
      : ∃ prepared,
          PreparedProduct.prepare (sampleStatement seconds [action]) = .ok prepared
          ∧ prepared.vtec = sampleRows [action])
    (maps : mapIncidentStatus action.toList = some status)
    (updates : UpdatesIncident (sampleStatement seconds [action]) key)
    : CarriesStatus (sampleStatement seconds [action]) key status := by
  obtain ⟨prepared, ok, vtec⟩ := rows
  obtain ⟨same, okToo, row, member, operational, rowKey⟩ := updates
  obtain rfl := Except.ok.inj (ok.symm.trans okToo)
  rw [vtec] at member
  obtain rfl := List.mem_singleton.mp member
  exact ⟨prepared, ok, [], _, [], vtec, operational, rowKey, maps, by simp⟩

/-- A warning and its cancellation, in either order. -/
theorem orders_agree_when_cancelled
    : OrdersAgree {} [sampleStatement 1741175200 ["NEW"], sampleStatement 1741175500 ["CAN"]] := by
  have distinct
      : [sampleStatement 1741175200 ["NEW"], sampleStatement 1741175500 ["CAN"]].Pairwise
          fun left right => left.timestampUtc ≠ right.timestampUtc := by
    decide +kernel
  refine (orders_agree_iff (.start rfl) distinct).mpr ?_
  intro key newest member updates _ _
  left
  rcases List.mem_pair.mp member with rfl | rfl
  · exact ⟨activeStatus, carries_single ⟨_, rfl, rfl⟩ (by decide +kernel) updates⟩
  · exact ⟨cancelledStatus, carries_single ⟨_, rfl, rfl⟩ (by decide +kernel) updates⟩

/-- A warning, its cancellation and a correction: the correction keeps whatever status it
finds, and the cancellation comes too late after it.
-/
theorem correction_keeps_what_it_finds
    : ∃ warning cancellation correction : CompletedFileMetadata,
        [warning, cancellation, correction].Pairwise
            (fun left right => left.timestampUtc ≠ right.timestampUtc)
        ∧ ((Database.persistAll {} [(warning, 0), (cancellation, 0), (correction, 0)]).row?
              sampleKey).map IncidentRow.outcome
          = some (some cancelledStatus, "COR".toList, correction.issuedAt)
        ∧ ((Database.persistAll {} [(warning, 0), (correction, 0), (cancellation, 0)]).row?
              sampleKey).map IncidentRow.outcome
          = some (some activeStatus, "COR".toList, correction.issuedAt)
        ∧ ¬ OrdersAgree {} [warning, cancellation, correction] := by
  refine ⟨sampleStatement 1741175200 ["NEW"], sampleStatement 1741175500 ["CAN"],
    sampleStatement 1741175800 ["COR"], ?_, ?_, ?_, ?_⟩
  · decide +kernel
  · decide +kernel
  · decide +kernel
  · intro agree
    have same := agree
      [(sampleStatement 1741175200 ["NEW"], 0), (sampleStatement 1741175500 ["CAN"], 0),
        (sampleStatement 1741175800 ["COR"], 0)]
      [(sampleStatement 1741175200 ["NEW"], 0), (sampleStatement 1741175800 ["COR"], 0),
        (sampleStatement 1741175500 ["CAN"], 0)]
      (.refl _) ((List.Perm.swap _ _ []).cons _) sampleKey
    exact absurd same (by decide +kernel)

end Emwin.Db
