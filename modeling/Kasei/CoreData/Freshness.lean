import Kasei.CoreData.Sync
import Kasei.Lib.Runs

/-! # How fresh the saved requests are

A sync compares an id and a status, and keeps the row it finds under them. What
the row says besides may be out of date: the slot and the items are those of
the fetch that saved it. A change of language keeps no row at all, so that
every request is saved again and marked as new.
-/

namespace Kasei.CoreData

open Runs

/-- What a request orders: how much of which item. -/
def itemCounts (items : List RequestItem) : List (String × Int) :=
  items.map fun item => (item.id, item.qty)

def rowCounts (row : CDRequest) : List (String × Int) :=
  row.items.map fun cditem => (cditem.id, cditem.qty)

/-- The list has one request under the id, and it agrees with this one. -/
def Shows (loaded : List Request) (request : Request) : Prop :=
  ∃ shown ∈ loaded, shown.id = request.id ∧ shown.status = request.status ∧
    shown.delSlotStart = request.delSlotStart ∧
    (itemCounts shown.items).Perm (itemCounts request.items) ∧
    ∀ other ∈ loaded, other.id = request.id → other = shown

/-- A sync and the load after it show every fetched request as it was fetched. -/
def CacheShows (orders : Nat → FetchOrder) (order : FetchOrder) (languageCode : Option String)
    (saved : Saved) (fetched : List Request) : Prop :=
  ∃ after, updateSavedRequests orders languageCode saved fetched = some after ∧
    ∀ request ∈ fetched, Shows (loadAllRequests order after.store) request

/-- A row has what a request says. -/
structure Current (row : CDRequest) (request : Request) : Prop where
  status : row.status = request.status
  slot : row.delSlotStart = request.delSlotStart
  counts : (rowCounts row).Perm (itemCounts request.items)

/-- A request was saved under that id and status. -/
def Held (saved : Saved) (id status : Option String) : Prop :=
  ∃ row ∈ saved.store, row.id = id ∧ row.status = status

/-- Every row has an id and, if the language is that of the last sync, the rows
    under the id of a request that was saved with its status are current. -/
def UpToDate (languageCode : Option String) (saved : Saved) (fetched : List Request) : Prop :=
  (∀ row ∈ saved.store, row.id ≠ none) ∧
    (saved.currLocale = languageCode → ∀ request ∈ fetched,
      Held saved request.id request.status →
        ∀ row ∈ saved.store, row.id = request.id → Current row request)

theorem rowCounts_cdrequest {request : Request}
    (fits : ∀ item ∈ request.items, -2 ^ 31 ≤ item.qty ∧ item.qty < 2 ^ 31) :
    rowCounts (cdrequest request) = itemCounts request.items := by
  simp only [rowCounts, cdrequest, itemCounts, List.map_map]
  apply List.map_congr_left
  intro item member
  simp only [Function.comp_apply, toInt32_of_fits (fits item member).1 (fits item member).2]

theorem itemCounts_loadRequest (order : FetchOrder) (row : CDRequest) :
    (itemCounts (loadRequest order row).items).Perm (rowCounts row) := by
  simp only [itemCounts, loadRequest, rowCounts, List.map_map]
  exact (sortedItems_perm order row).map _

section Like

/-- Two rows differ at most in the mark. -/
def Like (row other : CDRequest) : Prop := { other with isNew := row.isNew } = row

instance (row other : CDRequest) : Decidable (Like row other) :=
  inferInstanceAs (Decidable (_ = _))

variable {row other : CDRequest} {store : List CDRequest}

theorem Like.id (like : Like row other) : other.id = row.id := by
  rw [← show { other with isNew := row.isNew } = row from like]

theorem Like.mark (like : Like row other) (isNew : Bool) : Like row { other with isNew := isNew } :=
  like

theorem Like.current (like : Like row other) {request : Request} (current : Current other request) :
    Current row request := by
  rw [← show { other with isNew := row.isNew } = row from like]
  exact ⟨current.status, current.slot, current.counts⟩

/-- The fetches that list the rows like this one last. -/
def keepLast (row : CDRequest) : FetchOrder where
  rows selected := selected.filter (fun other => !decide (Like row other)) ++
    selected.filter fun other => decide (Like row other)
  items := FetchOrder.listed.items
  rows_perm selected := List.perm_append_comm.trans (List.filter_append_perm _ selected)
  items_perm := FetchOrder.listed.items_perm

theorem firstWithId_keepLast {id : String} {found : CDRequest}
    (first : firstWithId (keepLast row) store id = some found) (like : Like row found) :
    ∀ other ∈ store, other.id = some id → Like row other := by
  intro other inside same
  by_contra unlike
  have member : other ∈ (store.filter fun row => row.id = some id).filter
      fun other => !decide (Like row other) := by
    simp [inside, same, unlike]
  obtain ⟨front, rest, listed⟩ := List.exists_cons_of_ne_nil (List.ne_nil_of_mem member)
  have unlikeFront : ¬ Like row front := by
    have here : front ∈ (store.filter fun row => row.id = some id).filter
        fun other => !decide (Like row other) := by
      rw [listed]
      exact List.mem_cons_self
    simpa using (List.mem_filter.mp here).2
  simp only [firstWithId, keepLast, listed, List.cons_append, List.head?_cons,
    Option.some.injEq] at first
  exact unlikeFront (first ▸ like)

/-- A deletion takes such a row only if no other row of its id is left. -/
theorem deleteRequest_keepLast {id : String} (kept : ∃ other ∈ store, Like row other)
    (many : some id = row.id → 2 ≤ (store.map CDRequest.id).count row.id) :
    ∃ other ∈ deleteRequest (keepLast row) store id, Like row other := by
  unfold deleteRequest
  split
  · rename_i found first
    obtain ⟨inside, same⟩ := firstWithId_mem first
    by_cases like : Like row found
    · have rows := (List.perm_cons_erase inside).map CDRequest.id
      have more := many (same.symm.trans like.id)
      rw [rows.count_eq, List.map_cons, List.count_cons, like.id, beq_self_eq_true, if_pos rfl]
        at more
      have left : row.id ∈ (store.erase found).map CDRequest.id :=
        List.count_pos_iff.mp (by omega)
      obtain ⟨other, there, sameId⟩ := List.mem_map.mp left
      refine ⟨other, there, firstWithId_keepLast first like other (List.mem_of_mem_erase there) ?_⟩
      rw [sameId, ← like.id, same]
    · obtain ⟨other, there, likes⟩ := kept
      have apart : other ≠ found := by
        rintro rfl
        exact like likes
      exact ⟨other, (List.mem_erase_of_ne apart).mpr there, likes⟩
  · exact kept

theorem markRequestAsOld_like {order : FetchOrder} {id : String}
    (kept : ∃ other ∈ store, Like row other) :
    ∃ other ∈ markRequestAsOld order store id, Like row other := by
  obtain ⟨other, inside, like⟩ := kept
  unfold markRequestAsOld
  split
  · rename_i found first
    have rows := replace_perm (firstWithId_mem first).1 { found with isNew := false }
    by_cases here : other = found
    · subst here
      exact ⟨_, rows.mem_iff.mpr List.mem_cons_self, like.mark false⟩
    · refine ⟨other, rows.mem_iff.mpr (List.mem_cons_of_mem _ ?_), like⟩
      exact (List.mem_erase_of_ne here).mpr inside
  · exact ⟨other, inside, like⟩

/-- After a match the id is settled or its request still ahead. -/
theorem ahead_of_match {first request new : Request} {rest newRequests : List Request} {i : Nat}
    {settled : List (Option String)} (known : row.id = request.id)
    (there : newRequests[i]? = some new) (same : first.id = new.id ∧ first.status = new.status)
    (ahead : row.id ∈ settled ∨ request ∈ newRequests ∧
      ∃ other ∈ first :: rest, other.id = request.id ∧ other.status = request.status) :
    row.id ∈ first.id :: settled ∨ request ∈ newRequests.eraseIdx i ∧
      ∃ other ∈ rest, other.id = request.id ∧ other.status = request.status := by
  by_cases here : first.id = row.id
  · exact .inl (here ▸ List.mem_cons_self)
  · refine ahead.imp (List.mem_cons_of_mem _) fun ⟨asked, other, inside, sameOther⟩ => ?_
    have unmatched : ¬ (first.id = request.id ∧ first.status = request.status) :=
      fun equal => here (equal.1.trans known.symm)
    obtain rfl | inside := List.mem_cons.mp inside
    · exact absurd sameOther unmatched
    · exact ⟨unmatched_left unmatched there same asked, other, inside, sameOther⟩

/-- From any turn of the loop on, a row like this one stays in the store, if its
    id is settled or an old request to come matches the request of that id. -/
theorem syncOld_keepLast {request : Request} {remaining : List Request} {after : List CDRequest}
    (known : row.id = request.id) {old : List Request} :
    ∀ {newRequests : List Request} {store : List CDRequest} (settled : List (Option String)),
      (store.map CDRequest.id).Perm (settled ++ old.map Request.id) →
      (∃ other ∈ store, Like row other) →
      (row.id ∈ settled ∨ request ∈ newRequests ∧
        ∃ other ∈ old, other.id = request.id ∧ other.status = request.status) →
      syncOld (fun _ => keepLast row) false old newRequests store = some (remaining, after) →
      ∃ other ∈ after, Like row other := by
  induction old with
  | nil =>
      intro newRequests store settled _ kept _ ran
      obtain ⟨rfl, rfl⟩ := Prod.mk.inj (Option.some.inj ran)
      exact kept
  | cons first rest ih =>
      intro newRequests store settled held kept ahead ran
      have front : (store.map CDRequest.id).Perm (first.id :: (settled ++ rest.map Request.id)) :=
        held.trans List.perm_middle
      obtain ⟨left, rows, turn, later⟩ := syncOld_turn ran
      cases turn with
      | @deleted id named unmatched =>
          have ahead' : row.id ∈ settled ∨ request ∈ newRequests ∧
              ∃ other ∈ rest, other.id = request.id ∧ other.status = request.status := by
            refine ahead.imp_right fun ⟨asked, other, inside, same⟩ => ⟨asked, other, ?_, same⟩
            obtain rfl | inside := List.mem_cons.mp inside
            · exact absurd same (unmatched rfl request asked)
            · exact inside
          -- besides the row deleted there is one that is settled or still to be visited
          have many : some id = row.id → 2 ≤ (store.map CDRequest.id).count row.id := by
            intro same
            have again : row.id ∈ settled ++ rest.map Request.id := by
              rw [List.mem_append]
              refine ahead'.imp_right fun ⟨_, other, inside, sameId, _⟩ => ?_
              exact List.mem_map.mpr ⟨other, inside, sameId.trans known.symm⟩
            have positive := List.count_pos_iff.mpr again
            rw [front.count_eq, List.count_cons, named, same, beq_self_eq_true, if_pos rfl]
            omega
          rw [named] at front
          exact ih settled (deleteRequest_ids (keepLast row) front)
            (deleteRequest_keepLast kept many) ahead' later
      | marked unchanged there same =>
          exact ih (first.id :: settled) (markRequestAsOld_ids.trans front)
            (markRequestAsOld_like kept) (ahead_of_match known there same ahead) later
      | kept unchanged there same =>
          exact ih (first.id :: settled) front kept (ahead_of_match known there same ahead) later

end Like

section Cache

variable {languageCode : Option String} {saved after : Saved} {fetched : List Request}

theorem Shows.of_current {store : List CDRequest} {row : CDRequest} {request : Request}
    (distinct : (store.map CDRequest.id).Nodup) (inside : row ∈ store)
    (same : row.id = request.id) (current : Current row request) (order : FetchOrder) :
    Shows (loadAllRequests order store) request := by
  refine ⟨loadRequest order row, mem_loadAllRequests.mpr ⟨row, inside, rfl⟩, same,
    current.status, current.slot, (itemCounts_loadRequest order row).trans current.counts, ?_⟩
  intro other member sameId
  obtain ⟨row', there, rfl⟩ := mem_loadAllRequests.mp member
  rw [List.inj_on_of_nodup_map distinct there inside (sameId.trans same.symm)]

theorem Shows.current {order : FetchOrder} {store : List CDRequest} {row : CDRequest}
    {request : Request} (shows : Shows (loadAllRequests order store) request)
    (inside : row ∈ store) (same : row.id = request.id) : Current row request := by
  obtain ⟨shown, -, -, status, slot, counts, unique⟩ := shows
  obtain rfl := unique _ (mem_loadAllRequests.mpr ⟨row, inside, rfl⟩) same
  exact ⟨status, slot, (itemCounts_loadRequest order row).symm.trans counts⟩

theorem current_of_upToDate {orders : Nat → FetchOrder}
    (upToDate : UpToDate languageCode saved fetched)
    (newDistinct : (fetched.map Request.id).Nodup)
    (fits : ∀ request ∈ fetched, ∀ item ∈ request.items, -2 ^ 31 ≤ item.qty ∧ item.qty < 2 ^ 31)
    (synced : updateSavedRequests orders languageCode saved fetched = some after)
    {request : Request} (asked : request ∈ fetched) :
    ∀ row ∈ after.store, row.id = request.id → Current row request := by
  have saves : Current (cdrequest request) request :=
    ⟨rfl, rfl, .of_eq (rowCounts_cdrequest (fits request asked))⟩
  by_cases held : saved.currLocale = languageCode ∧ Held saved request.id request.status
  · refine updateSavedRequests_rows (P := fun row => row.id = request.id → Current row request)
      ?_ ?_ ?_ synced
    · exact fun row current same =>
        ⟨(current same).status, (current same).slot, (current same).counts⟩
    · exact upToDate.2 held.1 request asked held.2
    · intro new there same
      obtain rfl := List.inj_on_of_nodup_map newDistinct there asked same
      exact saves
  · have anew : cdrequest request ∈ after.store := by
      refine updateSavedRequests_saves (fun unchanged row inside same => ?_) asked synced
      exact held ⟨unchanged, row, inside, same⟩
    have distinct := (updateSavedRequests_ids synced).nodup_iff.mpr newDistinct
    intro row inside same
    obtain rfl : row = cdrequest request := List.inj_on_of_nodup_map distinct inside anew same
    exact saves

/-- Core Data may keep any of the rows under the id of a request that was saved
    with its status. -/
theorem kept_row (unchanged : saved.currLocale = languageCode) {request : Request}
    (asked : request ∈ fetched) (held : Held saved request.id request.status) {row : CDRequest}
    (inside : row ∈ saved.store) (same : row.id = request.id)
    (synced : updateSavedRequests (fun _ => keepLast row) languageCode saved fetched =
      some after) :
    ∃ other ∈ after.store, Like row other := by
  obtain ⟨remaining, store, ran, rfl⟩ := updateSavedRequests_some synced
  have loaded := (loadAllRequests_perm (keepLast row) saved.store).map Request.id
  rw [List.map_map] at loaded
  obtain ⟨holder, there, sameId, sameStatus⟩ := held
  rw [unchanged, bne_self_eq_false] at ran
  obtain ⟨other, kept, like⟩ := syncOld_keepLast same [] loaded.symm ⟨row, inside, rfl⟩
    (.inr ⟨asked, loadRequest (keepLast row) holder,
      mem_loadAllRequests.mpr ⟨holder, there, rfl⟩, sameId, sameStatus⟩) ran
  exact ⟨other, List.mem_append_left _ kept, like⟩

/-- Whatever was stored and in whichever order Core Data answers, the list shows
    what was fetched, exactly if the rows that the sync may keep are current. -/
theorem cacheShows_iff (languageCode : Option String) {saved : Saved} {fetched : List Request}
    (newDistinct : (fetched.map Request.id).Nodup)
    (named : ∀ request ∈ fetched, request.id ≠ none)
    (fits : ∀ request ∈ fetched, ∀ item ∈ request.items,
      -2 ^ 31 ≤ item.qty ∧ item.qty < 2 ^ 31) :
    (∀ orders order, CacheShows orders order languageCode saved fetched) ↔
      UpToDate languageCode saved fetched := by
  constructor
  · intro shows
    refine ⟨?_, fun unchanged request asked held row inside same => ?_⟩
    · obtain ⟨after, synced, -⟩ := shows (fun _ => .listed) .listed
      exact updateSavedRequests_named named synced
    · obtain ⟨after, synced, shown⟩ := shows (fun _ => keepLast row) .listed
      obtain ⟨other, there, like⟩ := kept_row unchanged asked held inside same synced
      exact like.current ((shown request asked).current there (like.id.trans same))
  · intro upToDate orders order
    obtain ⟨after, synced⟩ := updateSavedRequests_total orders languageCode fetched upToDate.1
    refine ⟨after, synced, fun request asked => ?_⟩
    have sameIds := updateSavedRequests_ids synced
    obtain ⟨row, inside, same⟩ :=
      List.mem_map.mp (sameIds.mem_iff.mpr (List.mem_map_of_mem asked))
    exact Shows.of_current (sameIds.nodup_iff.mpr newDistinct) inside same
      (current_of_upToDate upToDate newDistinct fits synced asked row inside same) order

end Cache

section Example

private def milkAt (slot : ℚ) : Request :=
  { id := some "r1", dateCreated := some 1, senderID := "amy", status := some "sent"
    delSlotStart := some slot
    items := [{ id := "milk", name := "Milk", icon := "box", qty := 2, bgCol := "blue" }] }

private def savedMilk : Saved := ⟨[cdrequest (milkAt 7200)], some "en"⟩

private theorem milk_fits (slot : ℚ) : ∀ request ∈ [milkAt slot], ∀ item ∈ request.items,
    -2 ^ 31 ≤ item.qty ∧ item.qty < 2 ^ 31 := by
  simp [milkAt]

/-- The request is fetched again as it was saved. -/
theorem cacheShows_iff_unchanged :
    CacheShows (fun _ => .listed) .listed (some "en") savedMilk [milkAt 7200] := by
  apply (cacheShows_iff (some "en") (by decide) (by decide) (milk_fits 7200)).mpr
  refine ⟨by decide, fun _ request asked _ row inside _ => ?_⟩
  obtain rfl := List.mem_singleton.mp asked
  obtain rfl := List.mem_singleton.mp inside
  exact ⟨rfl, rfl, .of_eq rfl⟩

/-- The delivery has moved by a day: the list still shows the old slot. -/
theorem moved_slot_is_not_shown :
    ¬ CacheShows (fun _ => .listed) .listed (some "en") savedMilk [milkAt 93600] := by
  rintro ⟨after, synced, shows⟩
  have stored : (updateSavedRequests (fun _ => .listed) (some "en") savedMilk
      [milkAt 93600]).map (fun after => after.store.map CDRequest.delSlotStart) =
      some [some 7200] := by
    decide +kernel
  rw [synced, Option.map_some, Option.some.injEq] at stored
  obtain ⟨shown, member, -, -, slot, -⟩ := shows _ List.mem_cons_self
  obtain ⟨row, inside, rfl⟩ := mem_loadAllRequests.mp member
  have old := List.mem_map_of_mem (f := CDRequest.delSlotStart) inside
  rw [stored, List.mem_singleton] at old
  exact absurd (old.symm.trans slot) (by decide)

end Example

/-! ## The mark of a new request -/

/-- One sync: the language of the app, what was fetched, and the answers of the
    store. -/
structure SyncEvent where
  languageCode : Option String
  newRequests : List Request
  orders : Nat → FetchOrder

def syncStep (saved : Saved) (event : SyncEvent) : Option Saved :=
  updateSavedRequests event.orders event.languageCode saved event.newRequests

/-- After the sync a row is marked as new exactly if it was not held before. -/
def NewMeansNew (saved : Saved) (event : SyncEvent) : Prop :=
  ∃ after, syncStep saved event = some after ∧
    ∀ row ∈ after.store, row.isNew = true ↔ ¬ Held saved row.id row.status

/-- The language is that of the last sync, or nothing fetched was held. -/
def KeepsMarks (saved : Saved) (event : SyncEvent) : Prop :=
  saved.currLocale = event.languageCode ∨
    ∀ request ∈ event.newRequests, ¬ Held saved request.id request.status

structure FetchedIds (requests : List Request) : Prop where
  distinct : (requests.map Request.id).Nodup
  named : ∀ request ∈ requests, request.id ≠ none

structure RowIds (saved : Saved) : Prop where
  distinct : (saved.store.map CDRequest.id).Nodup
  named : ∀ row ∈ saved.store, row.id ≠ none

section Marks

variable {saved after : Saved} {event : SyncEvent}

theorem syncedRow_isNew (changedLocale : Bool) (saved : Saved) (request : Request) :
    (syncedRow changedLocale saved.store request).isNew = true ↔
      (changedLocale = true ∨ ¬ Held saved request.id request.status) := by
  obtain ⟨row, inside, unchanged, id, status, kept⟩ | ⟨none, fresh⟩ :=
    syncedRow_cases changedLocale saved.store request
  · have held : Held saved request.id request.status := ⟨row, inside, id, status⟩
    rw [kept]
    simp [unchanged, held]
  · rw [fresh]
    apply iff_of_true rfl
    cases changedLocale with
    | true => exact .inl rfl
    | false =>
        refine .inr ?_
        rintro ⟨row, inside, same⟩
        exact none rfl row inside same

theorem FetchedIds.synced (fetched : FetchedIds event.newRequests)
    (synced : syncStep saved event = some after) : RowIds after := by
  have sameIds := updateSavedRequests_ids synced
  exact ⟨sameIds.nodup_iff.mpr fetched.distinct, ids_named sameIds fetched.named⟩

/-- One sync marks the right rows exactly if it keeps the marks. -/
theorem newMeansNew_iff (rows : RowIds saved) (fetched : FetchedIds event.newRequests) :
    NewMeansNew saved event ↔ KeepsMarks saved event := by
  obtain ⟨after, synced⟩ := updateSavedRequests_total event.orders event.languageCode
    event.newRequests rows.named
  have left := updateSavedRequests_store rows.distinct fetched.distinct synced
  have marks : NewMeansNew saved event ↔ ∀ request ∈ event.newRequests,
      (saved.currLocale ≠ event.languageCode ∨ ¬ Held saved request.id request.status) ↔
        ¬ Held saved request.id request.status := by
    constructor
    · rintro ⟨same, again, marked⟩ request asked
      obtain rfl := Option.some.inj (again.symm.trans synced)
      have row := marked _ (left.mem_iff.mpr (List.mem_map_of_mem asked))
      simpa only [syncedRow_isNew, syncedRow_key, bne_iff_ne] using row
    · intro marked
      refine ⟨after, synced, fun row member => ?_⟩
      obtain ⟨request, asked, rfl⟩ := List.mem_map.mp (left.mem_iff.mp member)
      simpa only [syncedRow_isNew, syncedRow_key, bne_iff_ne] using marked request asked
  rw [marks, KeepsMarks]
  by_cases unchanged : saved.currLocale = event.languageCode <;> simp [unchanged]

/-- From an empty store, every sync of a run marks exactly the new requests if
    and only if every sync keeps the marks. -/
theorem new_marks_iff (currLocale : Option String) {syncs : List SyncEvent}
    (fetched : ∀ event ∈ syncs, FetchedIds event.newRequests) :
    Along syncStep NewMeansNew ⟨[], currLocale⟩ syncs ↔
      Along syncStep KeepsMarks ⟨[], currLocale⟩ syncs := by
  have start : RowIds ⟨[], currLocale⟩ := ⟨List.nodup_nil, by simp⟩
  have valid : Along syncStep (fun _ event => FetchedIds event.newRequests)
      ⟨[], currLocale⟩ syncs := Along.of_forall fun _ => fetched
  constructor
  · intro marked
    exact Along.imp RowIds (fun _ _ rows met => (newMeansNew_iff rows met.2).mp met.1)
      (fun _ _ _ _ met taken => met.2.synced taken) start (marked.and valid)
  · intro kept
    exact Along.imp RowIds (fun _ _ rows met => (newMeansNew_iff rows met.2).mpr met.1)
      (fun _ _ _ _ met taken => met.2.synced taken) start (kept.and valid)

end Marks

section Example

private def sync (languageCode : String) (slots : List ℚ) : SyncEvent :=
  ⟨some languageCode, slots.map milkAt, fun _ => .listed⟩

private theorem one_milk (languageCode : String) (slot : ℚ) :
    FetchedIds (sync languageCode [slot]).newRequests :=
  ⟨List.nodup_singleton _, by simp [sync, milkAt]⟩

private theorem no_milk (languageCode : String) :
    FetchedIds (sync languageCode []).newRequests :=
  ⟨List.nodup_nil, by simp [sync]⟩

/-- The language changes while nothing is held. -/
theorem new_marks_iff_empty_change :
    Along syncStep NewMeansNew ⟨[], some "en"⟩ [sync "en" [], sync "zh" [7200]] := by
  have fetched : ∀ event ∈ [sync "en" [], sync "zh" [7200]],
      FetchedIds event.newRequests := by
    simp only [List.mem_cons, List.not_mem_nil, or_false, forall_eq_or_imp, forall_eq]
    exact ⟨no_milk "en", one_milk "zh" 7200⟩
  refine (new_marks_iff (some "en") fetched).mpr ⟨.inl rfl, fun next taken => ?_⟩
  have sameIds := updateSavedRequests_ids taken
  have empty : next.store = [] := by simpa [sync] using sameIds
  refine ⟨.inr fun request _ held => ?_, fun _ _ => trivial⟩
  obtain ⟨row, inside, -⟩ := held
  rw [empty] at inside
  cases inside

/-- The language changes with a request saved: the second sync marks it again. -/
theorem language_change_marks_held :
    ¬ Along syncStep NewMeansNew ⟨[], some "en"⟩ [sync "en" [7200], sync "zh" [7200]] := by
  intro marked
  obtain ⟨after, synced, -⟩ := marked.1
  have second := (marked.2 after synced).1
  have rows := updateSavedRequests_store (by simp) (one_milk "en" 7200).distinct synced
  have held : Held after (milkAt 7200).id (milkAt 7200).status :=
    ⟨_, rows.mem_iff.mpr (List.mem_map_of_mem List.mem_cons_self), rfl, rfl⟩
  have kept := (newMeansNew_iff ((one_milk "en" 7200).synced synced) (one_milk "zh" 7200)).mp second
  obtain unchanged | none := kept
  · rw [updateSavedRequests_locale synced] at unchanged
    exact absurd unchanged (by decide)
  · exact none _ List.mem_cons_self held

end Example

end Kasei.CoreData
