import Kasei.CoreData.Store

/-! # Bringing the saved requests to the fetched state

`updateSavedRequests` walks the old list against a shrinking new list. Its loop
invariant is about keys, the pairs of id and status: the rows of the store are
those already settled and those of the old requests still to visit, and the
settled keys together with the remaining new requests are the keys asked for.
-/

namespace Kasei.CoreData

/-- The store together with the language recorded at the last sync. -/
structure Saved where
  store : List CDRequest
  currLocale : Option String

/-- The search over the new list, cut short at once after a change of language. -/
def findMatch (changedLocale : Bool) (old : Request) (newRequests : List Request) : Option Nat :=
  if changedLocale then none
  else newRequests.findIdx? fun new => old.id = new.id ∧ old.status = new.status

/-- The while loop over the old requests; `none` is the forced unwrap of a nil
    id. Each turn makes at most one fetch by id, in an order of its own. -/
def syncOld (orders : Nat → FetchOrder) (changedLocale : Bool) :
    List Request → List Request → List CDRequest → Option (List Request × List CDRequest)
  | [], newRequests, store => some (newRequests, store)
  | old :: rest, newRequests, store =>
      match findMatch changedLocale old newRequests with
      | some i => do
          let store ←
            if old.isNew.getD false then old.id.map (markRequestAsOld (orders 0) store)
            else some store
          syncOld (fun n => orders (n + 1)) changedLocale rest (newRequests.eraseIdx i) store
      | none => do
          let id ← old.id
          syncOld (fun n => orders (n + 1)) changedLocale rest newRequests
            (deleteRequest (orders 0) store id)

def updateSavedRequests (orders : Nat → FetchOrder) (languageCode : Option String) (saved : Saved)
    (newRequests : List Request) : Option Saved := do
  let changedLocale := saved.currLocale != languageCode
  let (remaining, store) ← syncOld (fun n => orders (n + 1)) changedLocale
    (loadAllRequests (orders 0) saved.store) newRequests saved.store
  return {
    store := remaining.foldl saveRequest store
    currLocale := if changedLocale then languageCode else saved.currLocale }

/-- What a sync leaves for a fetched request: the row already saved under its id
    and status, no longer new, or a row saved now. -/
def syncedRow (changedLocale : Bool) (store : List CDRequest) (new : Request) : CDRequest :=
  match if changedLocale then none
    else store.find? fun row => row.id = new.id ∧ row.status = new.status with
  | some row => { row with isNew := false }
  | none => cdrequest new

section Rows

variable {store : List CDRequest} {order : FetchOrder} {id : String} {row : CDRequest}

theorem firstWithId_eq (distinct : (store.map CDRequest.id).Nodup) (member : row ∈ store)
    (same : row.id = some id) : firstWithId order store id = some row := by
  obtain ⟨first, found⟩ := firstWithId_isSome order member same
  obtain ⟨there, firstId⟩ := firstWithId_mem found
  rw [found, List.inj_on_of_nodup_map distinct there member (firstId.trans same.symm)]

theorem replace_perm {store : List CDRequest} (member : row ∈ store) (other : CDRequest) :
    (store.replace row other).Perm (other :: store.erase row) := by
  induction store with
  | nil => cases member
  | cons first rest ih =>
      by_cases here : row = first
      · subst here
        simp
      · have later : row ∈ rest := (List.mem_cons.mp member).resolve_left here
        rw [List.replace_cons, beq_false_of_ne here, List.erase_cons_tail (by simp [Ne.symm here])]
        exact ((ih later).cons first).trans (List.Perm.swap other first _)

theorem deleteRequest_perm (order : FetchOrder) (distinct : (store.map CDRequest.id).Nodup)
    (same : row.id = some id) {others : List CDRequest} (rows : store.Perm (row :: others)) :
    (deleteRequest order store id).Perm others := by
  have member : row ∈ store := rows.mem_iff.mpr List.mem_cons_self
  rw [deleteRequest, firstWithId_eq distinct member same]
  exact ((List.perm_cons_erase member).symm.trans rows).cons_inv

theorem markRequestAsOld_perm (order : FetchOrder) (distinct : (store.map CDRequest.id).Nodup)
    (same : row.id = some id) {others : List CDRequest} (rows : store.Perm (row :: others)) :
    (markRequestAsOld order store id).Perm ({ row with isNew := false } :: others) := by
  have member : row ∈ store := rows.mem_iff.mpr List.mem_cons_self
  rw [markRequestAsOld, firstWithId_eq distinct member same]
  exact (replace_perm member _).trans
    (((List.perm_cons_erase member).symm.trans rows).cons_inv.cons _)

/-- Also among repeated ids, a deletion takes one row of the id away. -/
theorem deleteRequest_ids (order : FetchOrder) {others : List (Option String)}
    (ids : (store.map CDRequest.id).Perm (some id :: others)) :
    ((deleteRequest order store id).map CDRequest.id).Perm others := by
  obtain ⟨row, inside, same⟩ := List.mem_map.mp (ids.mem_iff.mpr List.mem_cons_self)
  obtain ⟨first, found⟩ := firstWithId_isSome order inside same
  obtain ⟨there, firstId⟩ := firstWithId_mem found
  have rows := (List.perm_cons_erase there).map CDRequest.id
  rw [List.map_cons, firstId] at rows
  rw [deleteRequest, found]
  exact (rows.symm.trans ids).cons_inv

theorem markRequestAsOld_ids :
    ((markRequestAsOld order store id).map CDRequest.id).Perm (store.map CDRequest.id) := by
  unfold markRequestAsOld
  split
  · rename_i row found
    have member := (firstWithId_mem found).1
    exact ((replace_perm member _).map CDRequest.id).trans
      ((List.perm_cons_erase member).symm.map CDRequest.id)
  · exact .refl _

theorem deleteRequest_sublist : (deleteRequest order store id).Sublist store := by
  unfold deleteRequest
  split
  · exact List.erase_sublist
  · exact List.Sublist.refl store

end Rows

section SyncedRows

variable {changedLocale : Bool} {store : List CDRequest} {new : Request} {row : CDRequest}

theorem syncedRow_nil : syncedRow changedLocale [] new = cdrequest new := by
  cases changedLocale <;> rfl

theorem syncedRow_of_match (unchanged : changedLocale = false)
    (same : row.id = new.id ∧ row.status = new.status) (rest : List CDRequest) :
    syncedRow changedLocale (row :: rest) new = { row with isNew := false } := by
  simp [syncedRow, unchanged, same]

theorem syncedRow_of_skip
    (other : changedLocale = false → ¬ (row.id = new.id ∧ row.status = new.status))
    (rest : List CDRequest) :
    syncedRow changedLocale (row :: rest) new = syncedRow changedLocale rest new := by
  cases changedLocale with
  | true => rfl
  | false => simp only [syncedRow, Bool.false_eq_true, if_false, List.find?_cons, other rfl,
      decide_false]

/-- Either a row was saved under the id and status, and it is the one kept, or
    there was none. -/
theorem syncedRow_cases (changedLocale : Bool) (store : List CDRequest) (new : Request) :
    (∃ row ∈ store, changedLocale = false ∧ row.id = new.id ∧ row.status = new.status ∧
        syncedRow changedLocale store new = { row with isNew := false }) ∨
      ((changedLocale = false → ∀ row ∈ store, ¬ (row.id = new.id ∧ row.status = new.status)) ∧
        syncedRow changedLocale store new = cdrequest new) := by
  cases changedLocale with
  | true => exact .inr ⟨by simp, rfl⟩
  | false =>
      cases found : store.find? fun row => row.id = new.id ∧ row.status = new.status with
      | none =>
          refine .inr ⟨fun _ => ?_, by simp only [syncedRow, Bool.false_eq_true, if_false, found]⟩
          simpa only [List.find?_eq_none, decide_eq_true_eq] using found
      | some row =>
          have same := List.find?_some found
          simp only [decide_eq_true_eq] at same
          exact .inl ⟨row, List.mem_of_find?_eq_some found, rfl, same.1, same.2,
            by simp only [syncedRow, Bool.false_eq_true, if_false, found]⟩

theorem syncedRow_key (changedLocale : Bool) (store : List CDRequest) (new : Request) :
    (syncedRow changedLocale store new).id = new.id ∧
      (syncedRow changedLocale store new).status = new.status := by
  obtain ⟨row, -, -, id, status, kept⟩ | ⟨-, saved⟩ := syncedRow_cases changedLocale store new
  · rw [kept]
    exact ⟨id, status⟩
  · rw [saved]
    exact ⟨rfl, rfl⟩

theorem syncedRow_perm {other : List CDRequest} (distinct : (store.map CDRequest.id).Nodup)
    (rows : other.Perm store) (changedLocale : Bool) (new : Request) :
    syncedRow changedLocale other new = syncedRow changedLocale store new := by
  obtain ⟨row, inside, unchanged, id, status, kept⟩ | ⟨none, saved⟩ :=
    syncedRow_cases changedLocale store new
  · obtain ⟨row', inside', -, id', status', kept'⟩ | ⟨none', -⟩ :=
      syncedRow_cases changedLocale other new
    · rw [kept, kept', List.inj_on_of_nodup_map distinct (rows.mem_iff.mp inside') inside
        (id'.trans id.symm)]
    · exact absurd ⟨id, status⟩ (none' unchanged row (rows.mem_iff.mpr inside))
  · obtain ⟨row', inside', unchanged, id', status', -⟩ | ⟨-, saved'⟩ :=
      syncedRow_cases changedLocale other new
    · exact absurd ⟨id', status'⟩ (none unchanged row' (rows.mem_iff.mp inside'))
    · rw [saved, saved']

theorem syncedRow_same {one two : Request} (id : one.id = two.id) (status : one.status = two.status)
    (same : SameRow (cdrequest one) (cdrequest two)) (changedLocale : Bool)
    (store : List CDRequest) :
    SameRow (syncedRow changedLocale store one) (syncedRow changedLocale store two) := by
  unfold syncedRow
  rw [id, status]
  split
  · exact .refl _
  · exact same

end SyncedRows

section Loop

variable {orders : Nat → FetchOrder} {changedLocale : Bool} {newRequests remaining : List Request}
  {store after : List CDRequest}

theorem findMatch_some {old : Request} {i : Nat}
    (found : findMatch changedLocale old newRequests = some i) :
    changedLocale = false ∧ ∃ new, newRequests[i]? = some new ∧
      old.id = new.id ∧ old.status = new.status := by
  unfold findMatch at found
  split at found
  · cases found
  · rename_i unchanged
    obtain ⟨inside, same, -⟩ := List.findIdx?_eq_some_iff_getElem.mp found
    simp only [decide_eq_true_eq] at same
    exact ⟨Bool.eq_false_iff.mpr unchanged, newRequests[i], List.getElem?_eq_getElem inside, same⟩

theorem findMatch_none {old : Request}
    (missing : findMatch changedLocale old newRequests = none) (unchanged : changedLocale = false) :
    ∀ new ∈ newRequests, ¬ (old.id = new.id ∧ old.status = new.status) := by
  simp only [findMatch, unchanged, Bool.false_eq_true, if_false, List.findIdx?_eq_none_iff,
    decide_eq_false_iff_not] at missing
  exact missing

theorem perm_eraseIdx {i : Nat} {new : Request} (found : newRequests[i]? = some new) :
    newRequests.Perm (new :: newRequests.eraseIdx i) := by
  obtain ⟨inside, rfl⟩ := List.getElem?_eq_some_iff.mp found
  exact (List.getElem_cons_eraseIdx_perm inside).symm

/-- What one turn of the loop does to the new requests and the store: the row of
    the old request is deleted, or kept and no longer new. -/
inductive Turn (order : FetchOrder) (changedLocale : Bool) (old : Request)
    (newRequests : List Request) (store : List CDRequest) :
    List Request → List CDRequest → Prop where
  | deleted {id} : old.id = some id →
      (changedLocale = false →
        ∀ new ∈ newRequests, ¬ (old.id = new.id ∧ old.status = new.status)) →
      Turn order changedLocale old newRequests store newRequests (deleteRequest order store id)
  | marked {i new id} : changedLocale = false → newRequests[i]? = some new →
      old.id = new.id ∧ old.status = new.status → old.id = some id →
      Turn order changedLocale old newRequests store (newRequests.eraseIdx i)
        (markRequestAsOld order store id)
  | kept {i new} : changedLocale = false → newRequests[i]? = some new →
      old.id = new.id ∧ old.status = new.status → old.isNew.getD false = false →
      Turn order changedLocale old newRequests store (newRequests.eraseIdx i) store

theorem syncOld_turn {old : Request} {rest : List Request}
    {synced : List Request × List CDRequest}
    (ran : syncOld orders changedLocale (old :: rest) newRequests store = some synced) :
    ∃ left rows, Turn (orders 0) changedLocale old newRequests store left rows ∧
      syncOld (fun n => orders (n + 1)) changedLocale rest left rows = some synced := by
  cases found : findMatch changedLocale old newRequests with
  | none =>
      simp only [syncOld, found, Option.bind_eq_bind, Option.bind_eq_some_iff] at ran
      obtain ⟨id, named, later⟩ := ran
      exact ⟨_, _, .deleted named (findMatch_none found), later⟩
  | some i =>
      obtain ⟨unchanged, new, there, same⟩ := findMatch_some found
      simp only [syncOld, found, Option.bind_eq_bind] at ran
      split at ran
      · obtain ⟨rows, marking, later⟩ := Option.bind_eq_some_iff.mp ran
        obtain ⟨id, named, rfl⟩ := Option.map_eq_some_iff.mp marking
        exact ⟨_, _, .marked unchanged there same named, later⟩
      · rename_i isOld
        exact ⟨_, _, .kept unchanged there same (Bool.eq_false_iff.mpr isOld), ran⟩

/-- A matched row is settled: only the matched request has the id of the row. -/
theorem settled_match {row : CDRequest} {order : FetchOrder} {i : Nat} {new : Request}
    (newDistinct : (newRequests.map Request.id).Nodup) (unchanged : changedLocale = false)
    (there : newRequests[i]? = some new)
    (same : (loadRequest order row).id = new.id ∧ (loadRequest order row).status = new.status)
    (settled rest : List CDRequest) :
    ((newRequests.eraseIdx i).map Request.id).Nodup ∧
      (settled ++ newRequests.map (syncedRow changedLocale (row :: rest))).Perm
        (({ row with isNew := false } :: settled) ++
          (newRequests.eraseIdx i).map (syncedRow changedLocale rest)) := by
  have split := perm_eraseIdx there
  have apart := (split.map Request.id).nodup_iff.mp newDistinct
  rw [List.map_cons, List.nodup_cons] at apart
  have others : (newRequests.eraseIdx i).map (syncedRow changedLocale (row :: rest)) =
      (newRequests.eraseIdx i).map (syncedRow changedLocale rest) :=
    List.map_congr_left fun other member => syncedRow_of_skip (fun _ equal =>
      apart.1 (List.mem_map.mpr ⟨other, member, equal.1.symm.trans same.1⟩)) rest
  refine ⟨apart.2, ?_⟩
  rw [← others, ← syncedRow_of_match unchanged same rest]
  exact ((split.map _).append_left settled).trans List.perm_middle

/-- The loop invariant, from any turn to the end of the loop: the store holds
    the rows already settled and the rows still to visit. -/
theorem syncOld_store (order : FetchOrder) {rows : List CDRequest} :
    ∀ {orders : Nat → FetchOrder} {newRequests : List Request} {store : List CDRequest}
      (settled : List CDRequest), (store.map CDRequest.id).Nodup → (newRequests.map Request.id).Nodup →
      store.Perm (settled ++ rows) →
      syncOld orders changedLocale (rows.map (loadRequest order)) newRequests store =
        some (remaining, after) →
      (after ++ remaining.map cdrequest).Perm
        (settled ++ newRequests.map (syncedRow changedLocale rows)) := by
  induction rows with
  | nil =>
      intro orders newRequests store settled _ _ held ran
      obtain ⟨rfl, rfl⟩ := Prod.mk.inj (Option.some.inj ran)
      rw [List.append_nil] at held
      have saves : newRequests.map (syncedRow changedLocale []) = newRequests.map cdrequest :=
        List.map_congr_left fun _ _ => syncedRow_nil
      rw [saves]
      exact held.append_right _
  | cons row rest ih =>
      intro orders newRequests store settled distinct newDistinct held ran
      have front : store.Perm (row :: (settled ++ rest)) := held.trans List.perm_middle
      rw [List.map_cons] at ran
      obtain ⟨left, rows, turn, later⟩ := syncOld_turn ran
      cases turn with
      | deleted named unmatched =>
          have gone := deleteRequest_perm (orders 0) distinct named front
          have skipped : newRequests.map (syncedRow changedLocale (row :: rest)) =
              newRequests.map (syncedRow changedLocale rest) :=
            List.map_congr_left fun new member =>
              syncedRow_of_skip (fun unchanged => unmatched unchanged new member) rest
          rw [skipped]
          exact ih settled (distinct.sublist (deleteRequest_sublist.map _)) newDistinct gone later
      | marked unchanged there same named =>
          have gone := markRequestAsOld_perm (orders 0) distinct named front
          have stillDistinct := (gone.map CDRequest.id).nodup_iff.mpr
            ((front.map CDRequest.id).nodup_iff.mp distinct)
          obtain ⟨apart, moved⟩ := settled_match newDistinct unchanged there same settled rest
          exact (ih (_ :: settled) stillDistinct apart gone later).trans moved.symm
      | kept unchanged there same isOld =>
          have kept : { row with isNew := false } = row := by
            simp only [loadRequest, Option.getD_some] at isOld
            rw [← isOld]
          obtain ⟨apart, moved⟩ := settled_match newDistinct unchanged there same settled rest
          rw [kept] at moved
          exact (ih (row :: settled) distinct apart front later).trans moved.symm

theorem settled_id {old new : Request} {i : Nat} (there : newRequests[i]? = some new)
    (same : old.id = new.id) (settled : List (Option String)) :
    (settled ++ newRequests.map Request.id).Perm
      ((old.id :: settled) ++ (newRequests.eraseIdx i).map Request.id) := by
  rw [same]
  exact (((perm_eraseIdx there).map Request.id).append_left settled).trans List.perm_middle

theorem syncOld_ids {old : List Request} :
    ∀ {orders : Nat → FetchOrder} {newRequests : List Request} {store : List CDRequest}
      (settled : List (Option String)),
      (store.map CDRequest.id).Perm (settled ++ old.map Request.id) →
      syncOld orders changedLocale old newRequests store = some (remaining, after) →
      (after.map CDRequest.id ++ remaining.map Request.id).Perm
        (settled ++ newRequests.map Request.id) := by
  induction old with
  | nil =>
      intro orders newRequests store settled held ran
      obtain ⟨rfl, rfl⟩ := Prod.mk.inj (Option.some.inj ran)
      rw [List.map_nil, List.append_nil] at held
      exact held.append_right _
  | cons first rest ih =>
      intro orders newRequests store settled held ran
      have front : (store.map CDRequest.id).Perm (first.id :: (settled ++ rest.map Request.id)) :=
        held.trans List.perm_middle
      obtain ⟨left, rows, turn, later⟩ := syncOld_turn ran
      cases turn with
      | deleted named =>
          rw [named] at front
          exact ih settled (deleteRequest_ids (orders 0) front) later
      | marked unchanged there same =>
          exact (ih (first.id :: settled) (markRequestAsOld_ids.trans front) later).trans
            (settled_id there same.1 settled).symm
      | kept unchanged there same =>
          exact (ih (first.id :: settled) front later).trans
            (settled_id there same.1 settled).symm

theorem unmatched_left {old new request : Request} {i : Nat}
    (unmatched : ¬ (old.id = request.id ∧ old.status = request.status))
    (there : newRequests[i]? = some new) (same : old.id = new.id ∧ old.status = new.status)
    (asked : request ∈ newRequests) : request ∈ newRequests.eraseIdx i := by
  obtain rfl | left := List.mem_cons.mp ((perm_eraseIdx there).mem_iff.mp asked)
  · exact absurd same unmatched
  · exact left

theorem syncOld_unmatched {old : List Request} {request : Request} :
    ∀ {orders : Nat → FetchOrder} {newRequests : List Request} {store : List CDRequest},
      (changedLocale = false →
        ∀ other ∈ old, ¬ (other.id = request.id ∧ other.status = request.status)) →
      request ∈ newRequests →
      syncOld orders changedLocale old newRequests store = some (remaining, after) →
      request ∈ remaining := by
  induction old with
  | nil =>
      intro orders newRequests store _ asked ran
      obtain ⟨rfl, rfl⟩ := Prod.mk.inj (Option.some.inj ran)
      exact asked
  | cons first rest ih =>
      intro orders newRequests store unmatched asked ran
      have later := fun unchanged other member =>
        unmatched unchanged other (List.mem_cons_of_mem first member)
      obtain ⟨left, rows, turn, remains⟩ := syncOld_turn ran
      cases turn with
      | deleted => exact ih later asked remains
      | marked unchanged there same =>
          exact ih later (unmatched_left (unmatched unchanged first List.mem_cons_self) there same
            asked) remains
      | kept unchanged there same =>
          exact ih later (unmatched_left (unmatched unchanged first List.mem_cons_self) there same
            asked) remains

end Loop

theorem updateSavedRequests_some {orders : Nat → FetchOrder} {languageCode : Option String}
    {saved after : Saved} {newRequests : List Request}
    (synced : updateSavedRequests orders languageCode saved newRequests = some after) :
    ∃ remaining store,
      syncOld (fun n => orders (n + 1)) (saved.currLocale != languageCode)
        (loadAllRequests (orders 0) saved.store) newRequests saved.store =
          some (remaining, store) ∧
      after = ⟨store ++ remaining.map cdrequest, languageCode⟩ := by
  simp only [updateSavedRequests, Option.bind_eq_bind, Option.bind_eq_some_iff] at synced
  obtain ⟨⟨remaining, store⟩, ran, last⟩ := synced
  obtain rfl := Option.some.inj last
  refine ⟨remaining, store, ran, ?_⟩
  rw [foldl_saveRequest]
  by_cases unchanged : saved.currLocale = languageCode <;> simp [unchanged]

theorem updateSavedRequests_saves {orders : Nat → FetchOrder} {languageCode : Option String}
    {saved after : Saved} {newRequests : List Request} {request : Request}
    (unmatched : saved.currLocale = languageCode →
      ∀ row ∈ saved.store, ¬ (row.id = request.id ∧ row.status = request.status))
    (asked : request ∈ newRequests)
    (synced : updateSavedRequests orders languageCode saved newRequests = some after) :
    cdrequest request ∈ after.store := by
  obtain ⟨remaining, store, ran, rfl⟩ := updateSavedRequests_some synced
  have left : request ∈ remaining := by
    refine syncOld_unmatched (fun unchanged other member => ?_) asked ran
    obtain ⟨row, inside, rfl⟩ := mem_loadAllRequests.mp member
    exact unmatched (by simpa using unchanged) row inside
  exact List.mem_append_right store (List.mem_map_of_mem left)

theorem updateSavedRequests_of_empty {orders : Nat → FetchOrder} {languageCode : Option String}
    {saved after : Saved} {newRequests : List Request} (empty : saved.store = [])
    (synced : updateSavedRequests orders languageCode saved newRequests = some after) :
    after.store = newRequests.map cdrequest := by
  have nothing : loadAllRequests (orders 0) [] = [] := by
    simpa using loadAllRequests_perm (orders 0) []
  obtain ⟨remaining, store, ran, rfl⟩ := updateSavedRequests_some synced
  rw [empty, nothing] at ran
  obtain ⟨rfl, rfl⟩ := Prod.mk.inj (Option.some.inj ran)
  rfl

/-- What a sync does, as a whole: one row for each fetched request. -/
theorem updateSavedRequests_store {orders : Nat → FetchOrder} {languageCode : Option String}
    {saved after : Saved} {newRequests : List Request}
    (distinct : (saved.store.map CDRequest.id).Nodup)
    (newDistinct : (newRequests.map Request.id).Nodup)
    (synced : updateSavedRequests orders languageCode saved newRequests = some after) :
    after.store.Perm
      (newRequests.map (syncedRow (saved.currLocale != languageCode) saved.store)) := by
  obtain ⟨remaining, store, ran, rfl⟩ := updateSavedRequests_some synced
  have loaded := sortedRows_perm (orders 0) saved.store
  have rows := syncOld_store (orders 0) [] distinct newDistinct loaded.symm ran
  refine rows.trans (.of_eq ?_)
  exact List.map_congr_left fun new _ => syncedRow_perm distinct loaded _ new

theorem updateSavedRequests_keys {orders : Nat → FetchOrder} {languageCode : Option String}
    {saved after : Saved} {newRequests : List Request}
    (distinct : (saved.store.map CDRequest.id).Nodup)
    (newDistinct : (newRequests.map Request.id).Nodup)
    (synced : updateSavedRequests orders languageCode saved newRequests = some after) :
    (after.store.map fun row => (row.id, row.status)).Perm
      (newRequests.map fun request => (request.id, request.status)) := by
  have keys := (updateSavedRequests_store distinct newDistinct synced).map
    fun row => (row.id, row.status)
  simpa only [List.map_map, Function.comp_def, syncedRow_key] using keys

theorem updateSavedRequests_ids {orders : Nat → FetchOrder} {languageCode : Option String}
    {saved after : Saved} {newRequests : List Request}
    (synced : updateSavedRequests orders languageCode saved newRequests = some after) :
    (after.store.map CDRequest.id).Perm (newRequests.map Request.id) := by
  obtain ⟨remaining, store, ran, rfl⟩ := updateSavedRequests_some synced
  have loaded := (loadAllRequests_perm (orders 0) saved.store).map Request.id
  rw [List.map_map] at loaded
  rw [List.map_append, List.map_map]
  exact syncOld_ids [] loaded.symm ran

theorem ids_named {store : List CDRequest} {requests : List Request}
    (sameIds : (store.map CDRequest.id).Perm (requests.map Request.id))
    (named : ∀ request ∈ requests, request.id ≠ none) : ∀ row ∈ store, row.id ≠ none := by
  intro row member
  obtain ⟨request, asked, same⟩ := List.mem_map.mp (sameIds.mem_iff.mp (List.mem_map_of_mem member))
  rw [← same]
  exact named request asked

theorem updateSavedRequests_locale {orders : Nat → FetchOrder} {languageCode : Option String}
    {saved after : Saved} {newRequests : List Request}
    (synced : updateSavedRequests orders languageCode saved newRequests = some after) :
    after.currLocale = languageCode := by
  obtain ⟨remaining, store, -, rfl⟩ := updateSavedRequests_some synced
  rfl

/-! ## Properties of rows

A property of rows that does not look at `isNew`, and that the requests to be
saved have, survives a sync. -/

section RowProperty

variable {P : CDRequest → Prop}

theorem mem_replace {row other found : CDRequest} {store : List CDRequest}
    (member : found ∈ store.replace row other) : found ∈ store ∨ found = other := by
  induction store with
  | nil => cases member
  | cons first rest ih =>
      by_cases here : row = first
      · subst here
        simp only [List.replace_cons_self, List.mem_cons] at member
        exact member.symm.imp_left (List.mem_cons_of_mem row)
      · simp only [List.replace_cons, beq_false_of_ne here, List.mem_cons] at member
        obtain rfl | later := member
        · exact .inl List.mem_cons_self
        · exact (ih later).imp_left (List.mem_cons_of_mem first)

theorem markRequestAsOld_rows {order : FetchOrder} {store : List CDRequest} {id : String}
    (blind : ∀ row, P row → P { row with isNew := false }) (rows : ∀ row ∈ store, P row) :
    ∀ row ∈ markRequestAsOld order store id, P row := by
  intro row member
  unfold markRequestAsOld at member
  split at member
  · rename_i found first
    obtain old | rfl := mem_replace member
    · exact rows row old
    · exact blind _ (rows _ (firstWithId_mem first).1)
  · exact rows row member

theorem syncOld_rows {old : List Request} (blind : ∀ row, P row → P { row with isNew := false }) :
    ∀ {orders : Nat → FetchOrder} {changedLocale : Bool} {newRequests remaining : List Request}
      {store after : List CDRequest}, (∀ row ∈ store, P row) →
      syncOld orders changedLocale old newRequests store = some (remaining, after) →
      remaining ⊆ newRequests ∧ ∀ row ∈ after, P row := by
  induction old with
  | nil =>
      intro orders changedLocale newRequests remaining store after rows ran
      obtain ⟨rfl, rfl⟩ := Prod.mk.inj (Option.some.inj ran)
      exact ⟨List.Subset.refl _, rows⟩
  | cons first rest ih =>
      intro orders changedLocale newRequests remaining store after rows ran
      obtain ⟨left, rows', turn, later⟩ := syncOld_turn ran
      cases turn with
      | deleted =>
          exact ih (fun row member => rows row (deleteRequest_sublist.subset member)) later
      | marked =>
          obtain ⟨within, kept⟩ := ih (markRequestAsOld_rows blind rows) later
          exact ⟨List.Subset.trans within List.eraseIdx_subset, kept⟩
      | kept =>
          obtain ⟨within, kept⟩ := ih rows later
          exact ⟨List.Subset.trans within List.eraseIdx_subset, kept⟩

theorem updateSavedRequests_rows {orders : Nat → FetchOrder} {languageCode : Option String}
    {saved after : Saved} {newRequests : List Request}
    (blind : ∀ row, P row → P { row with isNew := false }) (rows : ∀ row ∈ saved.store, P row)
    (saves : ∀ request ∈ newRequests, P (cdrequest request))
    (synced : updateSavedRequests orders languageCode saved newRequests = some after) :
    ∀ row ∈ after.store, P row := by
  obtain ⟨remaining, store, ran, rfl⟩ := updateSavedRequests_some synced
  obtain ⟨within, kept⟩ := syncOld_rows blind rows ran
  intro row member
  rw [List.mem_append, List.mem_map] at member
  obtain old | ⟨request, asked, rfl⟩ := member
  · exact kept row old
  · exact saves request (within asked)

end RowProperty

theorem syncOld_total {old : List Request} (ids : ∀ request ∈ old, request.id ≠ none) :
    ∀ (orders : Nat → FetchOrder) (changedLocale : Bool) (newRequests : List Request)
      (store : List CDRequest),
      ∃ synced, syncOld orders changedLocale old newRequests store = some synced := by
  induction old with
  | nil => exact fun _ _ _ _ => ⟨_, rfl⟩
  | cons first rest ih =>
      intro orders changedLocale newRequests store
      obtain ⟨id, named⟩ := Option.ne_none_iff_exists'.mp (ids first List.mem_cons_self)
      have next := ih fun request member => ids request (List.mem_cons_of_mem first member)
      cases found : findMatch changedLocale first newRequests with
      | none =>
          simp only [syncOld, found, named, Option.bind_eq_bind, Option.bind_some]
          exact next _ _ _ _
      | some i =>
          simp only [syncOld, found, named, Option.map_some, Option.bind_eq_bind]
          split <;> exact next _ _ _ _

/-- A sync of requests with ids gets past a row without one only by a trap. -/
theorem syncOld_named {old : List Request} :
    ∀ {orders : Nat → FetchOrder} {changedLocale : Bool} {newRequests : List Request}
      {store : List CDRequest} {synced : List Request × List CDRequest},
      (∀ request ∈ newRequests, request.id ≠ none) →
      syncOld orders changedLocale old newRequests store = some synced →
      ∀ request ∈ old, request.id ≠ none := by
  induction old with
  | nil => exact fun _ _ _ member => absurd member List.not_mem_nil
  | cons first rest ih =>
      intro orders changedLocale newRequests store synced named ran
      obtain ⟨left, rows, turn, later⟩ := syncOld_turn ran
      have fewer : ∀ i, ∀ request ∈ newRequests.eraseIdx i, request.id ≠ none :=
        fun i request member => named request (List.mem_of_mem_eraseIdx member)
      cases turn with
      | deleted known => exact List.forall_mem_cons.mpr ⟨by simp [known], ih named later⟩
      | marked unchanged there same known =>
          exact List.forall_mem_cons.mpr ⟨by simp [known], ih (fewer _) later⟩
      | kept unchanged there same =>
          have known := same.1 ▸ named _ (List.mem_of_getElem? there)
          exact List.forall_mem_cons.mpr ⟨known, ih (fewer _) later⟩

theorem updateSavedRequests_named {orders : Nat → FetchOrder} {languageCode : Option String}
    {saved after : Saved} {newRequests : List Request}
    (named : ∀ request ∈ newRequests, request.id ≠ none)
    (synced : updateSavedRequests orders languageCode saved newRequests = some after) :
    ∀ row ∈ saved.store, row.id ≠ none := by
  obtain ⟨remaining, store, ran, -⟩ := updateSavedRequests_some synced
  intro row member
  exact syncOld_named named ran _ (mem_loadAllRequests.mpr ⟨row, member, rfl⟩)

theorem updateSavedRequests_total (orders : Nat → FetchOrder) (languageCode : Option String)
    {saved : Saved} (newRequests : List Request) (ids : ∀ row ∈ saved.store, row.id ≠ none) :
    ∃ after, updateSavedRequests orders languageCode saved newRequests = some after := by
  have oldIds : ∀ request ∈ loadAllRequests (orders 0) saved.store, request.id ≠ none := by
    intro request member
    obtain ⟨row, inside, rfl⟩ := mem_loadAllRequests.mp member
    exact ids row inside
  obtain ⟨synced, ran⟩ := syncOld_total oldIds (fun n => orders (n + 1))
    (saved.currLocale != languageCode) newRequests saved.store
  exact ⟨_, by simp only [updateSavedRequests, ran]; rfl⟩

/-- Whatever the orders of the fetches and whether or not the language changed,
    the store ends with one row for each fetched request and no other. -/
theorem updateSavedRequests_reaches (orders : Nat → FetchOrder) (languageCode : Option String)
    {saved : Saved} {newRequests : List Request}
    (distinct : (saved.store.map CDRequest.id).Nodup)
    (ids : ∀ row ∈ saved.store, row.id ≠ none)
    (newDistinct : (newRequests.map Request.id).Nodup)
    (newIds : ∀ request ∈ newRequests, request.id ≠ none) :
    ∃ after, updateSavedRequests orders languageCode saved newRequests = some after ∧
      (after.store.map fun row => (row.id, row.status)).Perm
        (newRequests.map fun request => (request.id, request.status)) ∧
      (after.store.map CDRequest.id).Nodup ∧ (∀ row ∈ after.store, row.id ≠ none) ∧
      after.currLocale = languageCode := by
  obtain ⟨after, synced⟩ := updateSavedRequests_total orders languageCode newRequests ids
  have sameIds := updateSavedRequests_ids synced
  exact ⟨after, synced, updateSavedRequests_keys distinct newDistinct synced,
    sameIds.nodup_iff.mpr newDistinct, ids_named sameIds newIds, updateSavedRequests_locale synced⟩

section Example

private def request (id status : String) : Request :=
  { id := some id, dateCreated := some 1, senderID := "amy", status := some status
    delSlotStart := some 2, items := [] }

private def savedBefore : Saved :=
  ⟨[cdrequest (request "a" "sent"), cdrequest (request "b" "sent"),
    cdrequest (request "c" "sent")], some "en"⟩

private def fetched : List Request :=
  [request "d" "sent", request "b" "otw", request "a" "sent"]

/-- One request unchanged, one with a new status, one gone and one new. -/
theorem updateSavedRequests_reaches_mixed :
    ∃ after, updateSavedRequests (fun _ => .listed) (some "en") savedBefore fetched =
        some after ∧
      (after.store.map fun row => (row.id, row.status)).Perm
        [(some "d", some "sent"), (some "b", some "otw"), (some "a", some "sent")] := by
  have distinct : (savedBefore.store.map CDRequest.id).Nodup := by decide
  have ids : ∀ row ∈ savedBefore.store, row.id ≠ none := by decide
  have newDistinct : (fetched.map Request.id).Nodup := by decide
  have newIds : ∀ request ∈ fetched, request.id ≠ none := by decide
  obtain ⟨after, ran, rows, _⟩ := updateSavedRequests_reaches (fun _ => .listed) (some "en")
    distinct ids newDistinct newIds
  exact ⟨after, ran, rows⟩

end Example

end Kasei.CoreData
