import Kasei.Landing.Refresh

/-! # The list does not depend on the order of the replies

Requests and items are collected in the order of their replies. Two orders bring
the same requests, up to the order of the list and of each item list; the sync
leaves the same rows for both, and the two sorts of the load make the result
one list, as long as no two rows share a date and no two items of a row a name.
-/

namespace Kasei.Landing

open JsonTree FanIn Runs CoreData

section Answers

variable {database : Json} {languageCode : Option String}

theorem requestFor_same {zoneID id : String} {one two : Request}
    (first : RequestFor database languageCode zoneID id one)
    (second : RequestFor database languageCode zoneID id two) :
    one.id = two.id ∧ one.status = two.status ∧ SameRow (cdrequest one) (cdrequest two) := by
  obtain ⟨head, decoded, shape, items⟩ := first
  obtain ⟨head', decoded', shape', items'⟩ := second
  obtain rfl := Option.some.inj (decoded.symm.trans decoded')
  rw [shape, shape']
  exact ⟨rfl, rfl, rfl, (items'.trans items.symm).map _⟩

theorem answers_same {entries : List (String × String)} {one two : List Request}
    (first : Answers database languageCode entries one)
    (second : Answers database languageCode entries two) (changedLocale : Bool)
    (store : List CDRequest) :
    List.Forall₂ SameRow (one.map (syncedRow changedLocale store))
      (two.map (syncedRow changedLocale store)) := by
  unfold Answers at first second
  induction first generalizing two with
  | nil =>
      cases second
      exact .nil
  | cons here later ih =>
      cases second with
      | cons there rest =>
          obtain ⟨id, status, same⟩ := requestFor_same here there
          exact .cons (syncedRow_same id status same changedLocale store) (ih rest)

/-- Two lists that bring the same answers, in whatever order, are synced and
    loaded alike. -/
theorem loaded_same {entries : List (String × String)}
    {fetched fetched' requests requests' : List Request}
    (brought : fetched.Perm requests) (answers : Answers database languageCode entries requests)
    (brought' : fetched'.Perm requests')
    (answers' : Answers database languageCode entries requests')
    (fetchedDistinct : (fetched.map Request.id).Nodup)
    {saved after after' : Saved} (savedDistinct : (saved.store.map CDRequest.id).Nodup)
    {orders orders' : Nat → FetchOrder}
    (synced : updateSavedRequests orders languageCode saved fetched = some after)
    (synced' : updateSavedRequests orders' languageCode saved fetched' = some after')
    (dates : (after.store.map CDRequest.dateCreated).Nodup)
    (names : ∀ row ∈ after.store, (row.items.map CDRequestItem.name).Nodup)
    (order order' : FetchOrder) :
    loadAllRequests order after.store = loadAllRequests order' after'.store := by
  have ids : (fetched'.map Request.id).Perm (fetched.map Request.id) := by
    refine (brought'.map _).trans (List.Perm.trans ?_ (brought.map _).symm)
    exact .of_eq (answers'.ids.trans answers.ids.symm)
  have rows := (updateSavedRequests_store savedDistinct fetchedDistinct synced).trans
    (brought.map _)
  have rows' := (updateSavedRequests_store savedDistinct
    (ids.nodup_iff.mpr fetchedDistinct) synced').trans (brought'.map _)
  exact loadAllRequests_same rows rows' (answers_same answers answers' _ _) dates names order
    order'

end Answers

theorem finished_of_recorded {fetch : Fetch} {fetched : List Request}
    (record : [fetched] = deliveries Fetch.finished Fetch.result fetch) :
    fetch.finished = true ∧ fetched = fetch.result := by
  unfold deliveries at record
  split at record
  · rename_i done
    exact ⟨done, (List.cons.inj record).1⟩
  · cases record

/-- If a fetch completes in one order of the replies, then in every order no cast
    by force fails, and once all reads are answered the sync and the load give
    the list that they give in the first order. -/
theorem displayed_list_same {database : Json} {languageCode currentUser : Option String}
    {first : List FetchEvent} {fetch : Fetch} {fetched : List Request}
    (completes : run (recording (Fetch.step database languageCode))
      (fetchAllUserRequests currentUser, []) first = some (fetch, [fetched]))
    (fetchedDistinct : (fetched.map Request.id).Nodup)
    {saved : Saved} (savedDistinct : (saved.store.map CDRequest.id).Nodup)
    {orders : Nat → FetchOrder} {after : Saved}
    (synced : updateSavedRequests orders languageCode saved fetched = some after)
    (dates : (after.store.map CDRequest.dateCreated).Nodup)
    (names : ∀ row ∈ after.store, (row.items.map CDRequestItem.name).Nodup)
    (order : FetchOrder) (second : List FetchEvent) (orders' : Nat → FetchOrder)
    (order' : FetchOrder) :
    ∃ fetch' completions,
      run (recording (Fetch.step database languageCode)) (fetchAllUserRequests currentUser, [])
        second = some (fetch', completions) ∧
      (fetch'.work database = 0 → ∃ fetched' after', completions = [fetched'] ∧
        updateSavedRequests orders' languageCode saved fetched' = some after' ∧
        loadAllRequests order' after'.store = loadAllRequests order after.store) := by
  obtain ⟨record, sound⟩ := fetch_recorded completes
  obtain ⟨done, rfl⟩ := finished_of_recorded record
  obtain ⟨idle, uid, user, requests, brought, answers⟩ := sound.delivered done
  have completable := (sound.finished_of_idle idle).mp done
  have read := sound.allRead idle (Fetch.not_aborted_of_finished done)
  obtain ⟨fetch', ran, sound'⟩ :=
    fetch_recorded_total (fun uid user => (read uid user).readable) second
  refine ⟨fetch', _, ran, fun idle' => ?_⟩
  have done' := (sound'.finished_of_idle idle').mpr completable
  obtain ⟨-, uid', user', requests', brought', answers'⟩ := sound'.delivered done'
  obtain rfl := Option.some.inj (user.symm.trans user')
  have named : ∀ request ∈ fetch.result, request.id ≠ none :=
    fun request member => answers.named request (brought.mem_iff.mp member)
  obtain ⟨after', synced'⟩ := updateSavedRequests_total orders' languageCode fetch'.result
    (updateSavedRequests_named named synced)
  refine ⟨fetch'.result, after', by simp [deliveries, done'], synced', ?_⟩
  exact (loaded_same brought answers brought' answers' fetchedDistinct savedDistinct synced synced'
    dates names order order').symm

section Example

private def larder (name : String) : Json :=
  .obj [("name", .str name), ("icon", .str "box"), ("bgCol", .str "blue")]

private def zoesRequest : Json :=
  .obj [("userRequests", .obj [("zoe", .obj [("north", .obj [("x1", .str "r1")])])]),
    ("requests", .obj [("north", .obj [("r1", .obj [("dateCreated", .double 1),
      ("content", .obj [("milk", .int 2), ("rice", .int 1)]), ("delSlotStart", .int 2000),
      ("senderID", .str "zoe"), ("status", .str "sent")])])]),
    ("items", .obj [("milk", larder "Milk"), ("rice", larder "Rice")])]

/-- Both item reads are started, and answered in the given order. -/
private def answered (reads : List Nat) : List FetchEvent :=
  [.index, .turn, .turn, .call 0 0 .node, .call 0 0 (.content .turn),
    .call 0 0 (.content .turn)] ++ reads.map fun read => .call 0 0 (.content (.answer read))

private def unsaved : Saved := ⟨[], none⟩

private theorem unsaved_synced (fetched : List Request) :
    updateSavedRequests (fun _ => .listed) none unsaved fetched =
      some ⟨fetched.map cdrequest, none⟩ := by
  simp [updateSavedRequests, unsaved, loadAllRequests, FetchOrder.listed, syncOld,
    foldl_saveRequest]

theorem displayed_list_same_reversed :
    ∃ fetch fetched fetch' fetched' after',
      run (recording (Fetch.step zoesRequest none)) (fetchAllUserRequests (some "zoe"), [])
        (answered [0, 0]) = some (fetch, [fetched]) ∧
      run (recording (Fetch.step zoesRequest none)) (fetchAllUserRequests (some "zoe"), [])
        (answered [1, 0]) = some (fetch', [fetched']) ∧
      updateSavedRequests (fun _ => .listed) none unsaved fetched' = some after' ∧
      loadAllRequests .listed after'.store =
        loadAllRequests .listed (fetched.map cdrequest) := by
  obtain ⟨fetch, fetched, completes, ids, items⟩ : ∃ fetch fetched,
      run (recording (Fetch.step zoesRequest none)) (fetchAllUserRequests (some "zoe"), [])
        (answered [0, 0]) = some (fetch, [fetched]) ∧
      fetched.map Request.id = [some "r1"] ∧
      (fetched.map fun request => request.items.map RequestItem.name) = [["Milk", "Rice"]] :=
    ⟨_, _, rfl, rfl, rfl⟩
  obtain ⟨request, rfl⟩ : ∃ request, fetched = [request] := by
    rw [← List.length_eq_one_iff, ← List.length_map (f := Request.id), ids]
    rfl
  simp only [List.map_cons, List.map_nil, List.cons.injEq, and_true] at ids items
  obtain ⟨fetch', completions, ran, same⟩ := displayed_list_same completes
    (by simp) (by simp [unsaved]) (unsaved_synced [request]) (by simp) (by
      simp only [List.map_cons, List.map_nil, List.mem_singleton, forall_eq, cdrequest,
        List.map_map]
      exact (congrArg List.Nodup items).mpr (by decide)) .listed (answered [1, 0])
    (fun _ => .listed) .listed
  have idle : (run (recording (Fetch.step zoesRequest none))
      (fetchAllUserRequests (some "zoe"), []) (answered [1, 0])).map
        (fun state => state.1.work zoesRequest) = some 0 := by rfl
  rw [ran, Option.map_some, Option.some.injEq] at idle
  obtain ⟨fetched', after', rfl, synced', loaded⟩ := same idle
  exact ⟨fetch, [request], fetch', fetched', after', completes, ran, synced', loaded⟩

end Example

end Kasei.Landing
