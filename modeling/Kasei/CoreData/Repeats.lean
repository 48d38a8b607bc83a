import Kasei.CoreData.Freshness

/-! # Syncing again

After a sync every row has the id and the status of one request of the list,
however the list is ordered. Until the language changes, a further sync matches
every row: it deletes none, saves none, and takes the mark from the rows that
still have it. After that there is nothing left for a sync to do.
-/

namespace Kasei.CoreData

open Runs

/-- The row, no longer marked as new. -/
def seen (row : CDRequest) : CDRequest := { row with isNew := false }

/-- The row, seen if it has one of these ids. -/
def seenIn (ids : List (Option String)) (row : CDRequest) : CDRequest :=
  if row.id ∈ ids then seen row else row

section Seen

variable {store : List CDRequest} {row : CDRequest} {ids : List (Option String)}

theorem seenIn_id : (seenIn ids row).id = row.id := by
  unfold seenIn
  split <;> rfl

theorem seenIn_of_not_mem (absent : row.id ∉ ids) : seenIn ids row = row := if_neg absent

theorem seenIn_seenIn (id : Option String) :
    seenIn ids (seenIn [id] row) = seenIn (id :: ids) row := by
  by_cases here : row.id = id
  · by_cases later : id ∈ ids <;> simp [seenIn, seen, here, later]
  · simp [seenIn, here]

theorem map_seenIn_ids (ids : List (Option String)) :
    (store.map (seenIn ids)).map CDRequest.id = store.map CDRequest.id := by
  rw [List.map_map]
  exact List.map_congr_left fun _ _ => seenIn_id

theorem map_seenIn_of (same : ∀ row ∈ store, seenIn ids row = row) :
    store.map (seenIn ids) = store :=
  (List.map_congr_left same).trans (List.map_id store)

theorem replace_seen (distinct : (store.map CDRequest.id).Nodup) (inside : row ∈ store) :
    store.replace row (seen row) = store.map (seenIn [row.id]) := by
  induction store with
  | nil => cases inside
  | cons first rest ih =>
      rw [List.map_cons, List.nodup_cons] at distinct
      by_cases here : row = first
      · subst here
        have others : rest.map (seenIn [row.id]) = rest := by
          apply map_seenIn_of
          intro other member
          refine seenIn_of_not_mem fun same => distinct.1 ?_
          rw [← List.mem_singleton.mp same]
          exact List.mem_map_of_mem member
        rw [List.replace_cons_self, List.map_cons, others]
        simp [seenIn]
      · have later : row ∈ rest := (List.mem_cons.mp inside).resolve_left here
        have apart : first.id ∉ [row.id] := by
          intro same
          refine distinct.1 ?_
          rw [List.mem_singleton.mp same]
          exact List.mem_map_of_mem later
        rw [List.replace_cons, beq_false_of_ne here, List.map_cons, seenIn_of_not_mem apart,
          ih distinct.2 later]

theorem markRequestAsOld_eq {order : FetchOrder} {id : String}
    (distinct : (store.map CDRequest.id).Nodup) (inside : row ∈ store) (named : row.id = some id) :
    markRequestAsOld order store id = store.map (seenIn [row.id]) := by
  rw [markRequestAsOld, firstWithId_eq distinct inside named]
  exact replace_seen distinct inside

end Seen

section Again

variable {newRequests : List Request} {store : List CDRequest} {row : CDRequest}

/-- A turn for a row that the new list asks for: the row is seen, every other row
    stays, and one request of its id and status is used up. -/
theorem turn_of_asked {order now : FetchOrder} {left : List Request} {rows : List CDRequest}
    (distinct : (store.map CDRequest.id).Nodup) (inside : row ∈ store)
    (asked : (row.id, row.status) ∈ newRequests.map fun request => (request.id, request.status))
    (turn : Turn now false (loadRequest order row) newRequests store left rows) :
    rows = store.map (seenIn [row.id]) ∧
      (newRequests.map fun request => (request.id, request.status)).Perm
        ((row.id, row.status) :: left.map fun request => (request.id, request.status)) := by
  have used : ∀ {i new}, newRequests[i]? = some new →
      row.id = new.id ∧ row.status = new.status →
      (newRequests.map fun request => (request.id, request.status)).Perm
        ((row.id, row.status) :: (newRequests.eraseIdx i).map fun request =>
          (request.id, request.status)) := by
    intro i new there same
    rw [same.1, same.2]
    exact (perm_eraseIdx there).map _
  cases turn with
  | deleted named unmatched =>
      obtain ⟨new, member, same⟩ := List.mem_map.mp asked
      obtain ⟨id, status⟩ := Prod.mk.inj same
      exact absurd ⟨id.symm, status.symm⟩ (unmatched rfl new member)
  | marked unchanged there same named =>
      exact ⟨markRequestAsOld_eq distinct inside named, used there same⟩
  | kept unchanged there same isOld =>
      refine ⟨(map_seenIn_of fun other member => ?_).symm, used there same⟩
      by_cases here : other.id = row.id
      · obtain rfl := List.inj_on_of_nodup_map distinct member inside here
        simp only [loadRequest, Option.getD_some] at isOld
        simp [seenIn, seen, ← isOld]
      · exact seenIn_of_not_mem (by simpa using here)

/-- From any turn on, if the new list asks for exactly the rows still to visit, no
    request is left over and these rows are seen. -/
theorem syncOld_again (order : FetchOrder) {rows : List CDRequest} {remaining : List Request}
    {after : List CDRequest} :
    ∀ {orders : Nat → FetchOrder} {newRequests : List Request} {store : List CDRequest},
      (store.map CDRequest.id).Nodup → (rows.map CDRequest.id).Nodup → rows ⊆ store →
      (newRequests.map fun request => (request.id, request.status)).Perm
        (rows.map fun row => (row.id, row.status)) →
      syncOld orders false (rows.map (loadRequest order)) newRequests store =
        some (remaining, after) →
      remaining = [] ∧ after = store.map (seenIn (rows.map CDRequest.id)) := by
  induction rows with
  | nil =>
      intro orders newRequests store _ _ _ keys ran
      obtain ⟨rfl, rfl⟩ := Prod.mk.inj (Option.some.inj ran)
      refine ⟨by simpa using keys, (map_seenIn_of fun row _ => ?_).symm⟩
      exact seenIn_of_not_mem List.not_mem_nil
  | cons row rest ih =>
      intro orders newRequests store distinct apart inside keys ran
      rw [List.map_cons, List.nodup_cons] at apart
      rw [List.map_cons] at ran
      obtain ⟨left, rows, turn, later⟩ := syncOld_turn ran
      obtain ⟨rfl, used⟩ := turn_of_asked distinct (inside List.mem_cons_self)
        (keys.mem_iff.mpr List.mem_cons_self) turn
      have untouched : rest ⊆ store.map (seenIn [row.id]) := by
        intro other member
        refine List.mem_map.mpr ⟨other, inside (List.mem_cons_of_mem row member), ?_⟩
        refine seenIn_of_not_mem fun same => apart.1 ?_
        rw [← List.mem_singleton.mp same]
        exact List.mem_map_of_mem member
      rw [← map_seenIn_ids [row.id]] at distinct
      obtain ⟨none, rfl⟩ := ih distinct apart.2 untouched (used.symm.trans keys).cons_inv later
      refine ⟨none, ?_⟩
      rw [List.map_map, List.map_cons]
      exact List.map_congr_left fun other _ => seenIn_seenIn row.id

end Again

/-- The store holds these requests, as a sync in this language leaves them. -/
structure Holds (languageCode : Option String) (newRequests : List Request) (saved : Saved) :
    Prop where
  distinct : (saved.store.map CDRequest.id).Nodup
  named : ∀ row ∈ saved.store, row.id ≠ none
  locale : saved.currLocale = languageCode
  keys : (saved.store.map fun row => (row.id, row.status)).Perm
    (newRequests.map fun request => (request.id, request.status))

section Held

variable {orders : Nat → FetchOrder} {languageCode : Option String} {saved after : Saved}
  {newRequests reordered : List Request}

theorem Holds.of_sync (distinct : (saved.store.map CDRequest.id).Nodup)
    (newDistinct : (newRequests.map Request.id).Nodup)
    (newNamed : ∀ request ∈ newRequests, request.id ≠ none)
    (synced : updateSavedRequests orders languageCode saved newRequests = some after) :
    Holds languageCode newRequests after := by
  have sameIds := updateSavedRequests_ids synced
  exact ⟨sameIds.nodup_iff.mpr newDistinct, ids_named sameIds newNamed,
    updateSavedRequests_locale synced, updateSavedRequests_keys distinct newDistinct synced⟩

theorem Holds.seen (held : Holds languageCode newRequests saved) :
    Holds languageCode newRequests ⟨saved.store.map seen, languageCode⟩ := by
  refine ⟨?_, ?_, rfl, ?_⟩
  · rw [List.map_map]
    exact held.distinct
  · exact List.forall_mem_map.mpr held.named
  · rw [List.map_map]
    exact held.keys

theorem Holds.again (held : Holds languageCode newRequests saved)
    (reorders : reordered.Perm newRequests) :
    updateSavedRequests orders languageCode saved reordered =
      some ⟨saved.store.map CoreData.seen, languageCode⟩ := by
  obtain ⟨after, synced⟩ := updateSavedRequests_total orders languageCode reordered held.named
  rw [synced]
  obtain ⟨remaining, store, ran, rfl⟩ := updateSavedRequests_some synced
  have loaded := sortedRows_perm (orders 0) saved.store
  have ids := loaded.map CDRequest.id
  rw [held.locale, bne_self_eq_false] at ran
  obtain ⟨rfl, rfl⟩ := syncOld_again (orders 0) held.distinct (ids.nodup_iff.mpr held.distinct)
    loaded.subset ((reorders.map _).trans (held.keys.symm.trans (loaded.map _).symm)) ran
  have every : saved.store.map (seenIn _) = saved.store.map CoreData.seen :=
    List.map_congr_left fun row member => if_pos (ids.mem_iff.mpr (List.mem_map_of_mem member))
  rw [every, List.map_nil, List.append_nil]

end Held

/-- Until the language changes, a second sync with the same requests in any order
    takes the mark from every row and leaves the rest of it, and no further such
    sync changes the store at all. -/
theorem repeated_sync_harmless (orders orders' : Nat → FetchOrder) (languageCode : Option String)
    {saved : Saved} {newRequests reordered : List Request}
    (distinct : (saved.store.map CDRequest.id).Nodup)
    (named : ∀ row ∈ saved.store, row.id ≠ none)
    (newDistinct : (newRequests.map Request.id).Nodup)
    (newNamed : ∀ request ∈ newRequests, request.id ≠ none)
    (reorders : reordered.Perm newRequests) :
    ∃ first second, updateSavedRequests orders languageCode saved newRequests = some first ∧
      updateSavedRequests orders' languageCode first reordered = some second ∧
      second.store = first.store.map (fun row => { row with isNew := false }) ∧
      ∀ syncs : List SyncEvent,
        (∀ event ∈ syncs, event.languageCode = languageCode ∧
          event.newRequests.Perm newRequests) →
        run syncStep second syncs = some second := by
  obtain ⟨first, synced⟩ := updateSavedRequests_total orders languageCode newRequests named
  have held := Holds.of_sync distinct newDistinct newNamed synced
  refine ⟨first, ⟨first.store.map seen, languageCode⟩, synced, held.again reorders, rfl, ?_⟩
  intro syncs same
  apply run_of_fixed
  intro event member
  obtain ⟨rfl, again⟩ := same event member
  have fixed : (first.store.map seen).map seen = first.store.map seen := List.map_map
  rw [syncStep, held.seen.again again, fixed]

section Example

private def errand (id : String) : Request :=
  { id := some id, dateCreated := some 1, senderID := "amy", status := some "sent"
    delSlotStart := some 2, items := [] }

private def errandsBefore : Saved :=
  ⟨[cdrequest (errand "a"), cdrequest (errand "b")], some "en"⟩

private def errandsAsked : List Request := [errand "b", errand "c"]

/-- The first sync comes with a change of language; the second asks in another
    order. -/
theorem repeated_sync_harmless_after_change :
    ∃ first second,
      updateSavedRequests (fun _ => .listed) (some "zh") errandsBefore errandsAsked = some first ∧
      updateSavedRequests (fun _ => .listed) (some "zh") first errandsAsked.reverse =
        some second ∧
      run syncStep second [⟨some "zh", errandsAsked, fun _ => .listed⟩] = some second := by
  have distinct : (errandsBefore.store.map CDRequest.id).Nodup := by decide
  have newDistinct : (errandsAsked.map Request.id).Nodup := by decide
  obtain ⟨first, second, synced, again, -, fixed⟩ :=
    repeated_sync_harmless (fun _ => .listed) (fun _ => .listed) (some "zh") distinct (by decide)
      newDistinct (by decide) (List.reverse_perm errandsAsked)
  refine ⟨first, second, synced, again, fixed _ ?_⟩
  simp

end Example

end Kasei.CoreData
