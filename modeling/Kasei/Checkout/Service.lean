import Kasei.Checkout.Posts
import Kasei.Landing.Display
import Kasei.Landing.Overlap
import Kasei.Models.RoundTrip

/-! # The app reads what the app writes

A refresh casts by force, counts down loops that need a turn, and looks every
status up in a table. A tree in which no index entry defeats it stays one,
whatever any number of clients post at the same time: the request node is
written before the index entry that names it, and it has all that a reader
asks for.
-/

namespace Kasei.Checkout

open JsonTree Runs FanIn Landing Counters Posting RoundTrip

/-- A request node that can be listed: its four fields, a status with a text, and
    a content of integers with at least one entry. -/
structure Served (node : DataSnapshot) : Prop where
  head : decodeHead node ≠ none
  shown : Shown (asString (node.childSnapshot "status").value)
  filled : (node.childSnapshot "content").children ≠ []
  quantities : ∀ childSnap ∈ (node.childSnapshot "content").children, asInt childSnap.value ≠ none

/-- An index without empty levels whose entries all name such a node, by keys. -/
structure InOrder (database : Json) (uid : String) : Prop where
  zones : (indexNode database uid).isPresent = true → (indexNode database uid).children ≠ []
  filled : ∀ zoneSnap ∈ (indexNode database uid).children, zoneSnap.children ≠ []
  keys : ∀ zoneSnap ∈ (indexNode database uid).children, isValidKey zoneSnap.key = true
  entries : ∀ zoneSnap ∈ (indexNode database uid).children,
    ∀ requestIDSnap ∈ zoneSnap.children, ∃ id, asString requestIDSnap.value = some id ∧
      isValidKey id = true ∧ Served (requestNode database zoneSnap.key id)

/-- The checkout screen posts a basket that is not empty, under the status that it
    gives every request. -/
def Proper : PostEvent → Prop
  | .post _ _ req => req.items ≠ [] ∧ req.status = some "sent"
  | _ => True

section Written

variable {now : ℚ} {millis : Int} {req : Request}

theorem contentDictionary_filled {items : List RequestItem} (nonempty : items ≠ []) :
    contentDictionary items ≠ [] := by
  obtain ⟨earlier, last, rfl⟩ := List.eq_nil_or_concat' items |>.resolve_left nonempty
  simp only [contentDictionary, List.foldl_append, List.foldl_cons, List.foldl_nil]
  exact insertEntry_ne_nil _ _ _

/-- What the checkout screen posts can be listed, once it is stored. -/
theorem served_requestDictionary (nonempty : req.items ≠ []) (sent : req.status = some "sent")
    (ids : ∀ item ∈ req.items, isValidKey item.id = true) (key : String) :
    Served ⟨key, requestDictionary now millis req⟩ := by
  have filled := contentDictionary_filled nonempty
  have node : requestDictionary now millis req = _ := requestDictionary_eq filled ids
  have content : (DataSnapshot.childSnapshot ⟨key, requestDictionary now millis req⟩
      "content").children = (contentDictionary req.items).map fun e => ⟨e.1, .int e.2⟩ := by
    rw [node]
    exact List.map_map
  constructor
  · simp [decodeHead_requestDictionary]
  · rw [node, sent]
    exact ⟨"sent", rfl, by decide⟩
  · rw [content]
    simpa using filled
  · intro childSnap member
    rw [content] at member
    obtain ⟨entry, -, rfl⟩ := List.mem_map.mp member
    simp [asInt]

end Written

section Kept

variable {database after : Json} {uid : String}

theorem requestNode_of_keys {zoneID id : String} (zone : isValidKey zoneID = true)
    (key : isValidKey id = true) :
    requestNode database zoneID id = ⟨id, database.get ["requests", zoneID, id]⟩ := by
  rw [requestNode, requestPath_of_keys zone key]
  rfl

theorem InOrder.congr (inOrder : InOrder database uid)
    (index : after.get ["userRequests", uid] = database.get ["userRequests", uid])
    (served : ∀ zoneID id, isValidKey zoneID = true → isValidKey id = true →
      Served (requestNode database zoneID id) → Served (requestNode after zoneID id)) :
    InOrder after uid := by
  have same : indexNode after uid = indexNode database uid := congrArg (DataSnapshot.mk uid) index
  constructor
  · rw [same]
    exact inOrder.zones
  · rw [same]
    exact inOrder.filled
  · rw [same]
    exact inOrder.keys
  · rw [same]
    intro zoneSnap inside requestIDSnap member
    obtain ⟨id, named, key, node⟩ := inOrder.entries zoneSnap inside requestIDSnap member
    exact ⟨id, named, key, served _ _ (inOrder.keys zoneSnap inside) key node⟩

theorem InOrder.indexed (inOrder : InOrder database uid) {zoneid id : String}
    (zone : isValidKey zoneid = true) (legal : isValidKey id = true) (key : String)
    (node : Served (requestNode database zoneid id)) :
    InOrder (database.set (indexPath uid zoneid key) (.str id)) uid := by
  have path : indexPath uid zoneid key = ["userRequests", uid] ++ [zoneid, key] := by
    rw [indexPath, pieces_of_key zone]
    rfl
  have kept : ∀ zoneID id', requestNode (database.set (indexPath uid zoneid key) (.str id))
      zoneID id' = requestNode database zoneID id' := by
    intro zoneID id'
    have apart : Apart (indexPath uid zoneid key) (requestPath zoneID id') := .inl (by decide)
    exact requestNode_congr (Json.get_set_of_apart database apart _)
  have index : indexNode (database.set (indexPath uid zoneid key) (.str id)) uid =
      ⟨uid, (database.get ["userRequests", uid]).set [zoneid, key] (.str id)⟩ := by
    rw [path]
    exact congrArg (DataSnapshot.mk uid)
      (Json.get_set_append database ["userRequests", uid] [zoneid, key] _)
  have before : indexNode database uid = ⟨uid, database.get ["userRequests", uid]⟩ := rfl
  generalize database.get ["userRequests", uid] = old at index before
  have zones := inOrder.filled
  have keys := inOrder.keys
  have entries := inOrder.entries
  rw [before] at zones keys entries
  have listed : ∀ zoneSnap ∈ (indexNode (database.set (indexPath uid zoneid key) (.str id))
      uid).children, zoneSnap.children ≠ [] ∧ isValidKey zoneSnap.key = true ∧
        ∀ requestIDSnap ∈ zoneSnap.children, ∃ id', asString requestIDSnap.value = some id' ∧
          isValidKey id' = true ∧ Served (requestNode database zoneSnap.key id') := by
    intro zoneSnap inside
    rw [index] at inside
    obtain ⟨entry, member, rfl⟩ := List.mem_map.mp inside
    rcases mem_insertEntry member with rfl | earlier
    · refine ⟨?_, zone, fun requestIDSnap there => ?_⟩
      · simpa [DataSnapshot.children, Json.entries, Json.set, Json.setChild] using
          insertEntry_ne_nil key _ (old.child zoneid).entries
      · obtain ⟨entry, member, rfl⟩ := List.mem_map.mp there
        rcases mem_insertEntry member with rfl | earlier
        · exact ⟨id, rfl, legal, node⟩
        · exact entries ⟨zoneid, old.child zoneid⟩
            (List.mem_map.mpr ⟨_, Json.child_mem_entries earlier, rfl⟩) ⟨entry.1, entry.2⟩
            (List.mem_map.mpr ⟨_, earlier, rfl⟩)
    · have there : (⟨entry.1, entry.2⟩ : DataSnapshot) ∈ DataSnapshot.children ⟨uid, old⟩ :=
        List.mem_map.mpr ⟨entry, earlier, rfl⟩
      exact ⟨zones _ there, keys _ there, entries _ there⟩
  constructor
  · intro _
    rw [index]
    simpa [DataSnapshot.children, Json.entries, Json.set, Json.setChild] using
      insertEntry_ne_nil zoneid _ old.entries
  · exact fun zoneSnap inside => (listed zoneSnap inside).1
  · exact fun zoneSnap inside => (listed zoneSnap inside).2.1
  · intro zoneSnap inside requestIDSnap member
    obtain ⟨id', named, legal', there⟩ := (listed zoneSnap inside).2.2 requestIDSnap member
    exact ⟨id', named, legal', (kept _ _).symm ▸ there⟩

end Kept

/-- The posts under way write nodes that can be listed, into a tree that is in
    order for every user. -/
structure Posts.Serving (autoId : Nat → String) (database : Json) (s : Posts) : Prop where
  sound : s.Sound autoId database
  calls : ∀ call ∈ s.calls, (∀ item ∈ call.items, isValidKey item.id = true) →
    ∀ key, Served ⟨key, call.reqDict⟩
  inOrder : ∀ uid, InOrder s.database uid

section Serving

variable {autoId : Nat → String} {database : Json} {s : Posts}

theorem InOrder.beside {before after : Json} {uid : String} (inOrder : InOrder before uid)
    (requests : ∀ rest, after.get ("requests" :: rest) = before.get ("requests" :: rest))
    (index : after.get ["userRequests", uid] = before.get ["userRequests", uid]) :
    InOrder after uid := by
  refine inOrder.congr index fun zoneID id _ _ served => ?_
  have same : requestNode after zoneID id = requestNode before zoneID id :=
    requestNode_congr (requests _)
  rwa [same]

theorem not_served_null (key : String) : ¬ Served ⟨key, .null⟩ :=
  fun served => served.head rfl

/-- A write to a free place leaves every node that can be listed as it was. -/
theorem requestNode_set {tree : Json} {zoneid id : String} (zone : isValidKey zoneid = true)
    (legal : isValidKey id = true) (free : tree.get (requestPath zoneid id) = .null) (value : Json)
    {zoneID key : String} (zone' : isValidKey zoneID = true) (legal' : isValidKey key = true)
    (served : Served (requestNode tree zoneID key)) :
    requestNode (tree.set (requestPath zoneid id) value) zoneID key =
      requestNode tree zoneID key := by
  rw [requestPath_of_keys zone legal] at free ⊢
  have other : ["requests", zoneid, id] ≠ ["requests", zoneID, key] := by
    intro same
    rw [requestNode_of_keys zone' legal', ← same, free] at served
    exact not_served_null key served
  have apart : Apart ["requests", zoneid, id] ["requests", zoneID, key] := Apart.of_ne rfl other
  rw [requestNode_of_keys zone' legal', requestNode_of_keys zone' legal',
    Json.get_set_of_apart tree apart]

theorem Posts.Serving.served (serving : s.Serving autoId database) {call : Call}
    (member : call ∈ s.calls) {zoneid : String} (zone : call.zone = some zoneid)
    (counted : isCountable call.items = true) (key : String) : Served ⟨key, call.reqDict⟩ := by
  have writable := ((serving.sound.calls call member).zone zoneid zone).2
  exact serving.calls call member (passes_iff.mp ⟨writable, counted⟩).2 key

/-- A write that a reply of the call has accepted keeps every index in order. -/
theorem Posts.Serving.keyed (serving : s.Serving autoId database) (fresh : FreshIds autoId database)
    (zones : KeyZones database) {k : Nat} {call : Call} (found : s.calls[k]? = some call)
    {w : Path × Json} (keyed : Keyed autoId call w) (uid : String) :
    InOrder (s.database.set w.1 w.2) uid := by
  have inOrder := serving.inOrder uid
  have member := List.mem_of_getElem? found
  have own := serving.sound.calls call member
  have free := serving.sound.free fresh found keyed
  cases keyed with
  | request zoneid zone drawn first =>
      rename_i key
      have apart : Apart (requestPath zoneid (autoId key)) ["userRequests", uid] :=
        .inl (by decide)
      refine inOrder.congr (Json.get_set_of_apart _ apart _) fun zoneID id zone' legal served => ?_
      rwa [requestNode_set (zones _ (own.isZone zone)) (fresh.key key) free _ zone' legal served]
  | index zoneid zone counted drawn second =>
      rename_i key index
      by_cases same : uid = call.uid
      · subst same
        have stored := serving.sound.stored (requestPath zoneid (autoId key), call.reqDict)
          (List.mem_flatMap.mpr ⟨call, member, by rw [second]; exact List.mem_singleton_self _⟩)
        have legal := zones _ (own.isZone zone)
        have node : requestNode s.database zoneid (autoId key) = ⟨autoId key, call.reqDict⟩ := by
          rw [requestPath_of_keys legal (fresh.key key)] at stored
          rw [requestNode_of_keys legal (fresh.key key), stored]
        refine inOrder.indexed legal (fresh.key key) (autoId index) ?_
        rw [node]
        exact serving.served member zone counted (autoId key)
      · have others : Apart (indexPath call.uid zoneid (autoId index)) ["userRequests", uid] :=
          .inr (.inl (Ne.symm same))
        refine inOrder.beside (fun rest => ?_) (Json.get_set_of_apart _ others _)
        have apart : Apart (indexPath call.uid zoneid (autoId index)) ("requests" :: rest) :=
          .inl (by decide)
        exact Json.get_set_of_apart _ apart _

theorem Posts.Serving.committed (serving : s.Serving autoId database) {index : Nat}
    {t : Transaction} {after : Json} (found : s.inFlight[index]? = some t)
    (commits : t.commit s.database = some after) (uid : String) : InOrder after uid := by
  obtain ⟨_, _, -, own⟩ := serving.sound.counters t (List.mem_of_getElem? found)
  have counter := counterPath_of_mem own
  simp only [Transaction.commit] at commits
  split at commits
  · obtain rfl := Option.some.inj commits
    exact (serving.inOrder uid).beside
      (fun rest => Json.get_set_of_apart _ (counter.elsewhere (by decide) rest) _)
      (Json.get_set_of_apart _ (counter.elsewhere (by decide) _) _)
  · cases commits

theorem Posts.step_serving (fresh : FreshIds autoId database) (zones : KeyZones database)
    {next : Posts} {event : PostEvent} (serving : s.Serving autoId database)
    (proper : Proper event) (taken : s.step autoId event = some next) :
    next.Serving autoId database := by
  have sound := Posts.step_sound fresh serving.sound taken
  cases Posts.step_advance taken with
  | same => exact serving
  | posted uid clock req _ =>
      refine ⟨sound, fun call member ids => ?_, serving.inOrder⟩
      rcases List.mem_append.mp member with old | new
      · exact serving.calls call old ids
      · obtain rfl := List.mem_singleton.mp new
        exact served_requestDictionary proper.1 proper.2 ids
  | @answered _ k before after draws write passed found reply =>
      refine ⟨sound, fun call member ids => ?_, fun uid => ?_⟩
      · rcases List.mem_or_eq_of_mem_set member with old | rfl
        · exact serving.calls call old ids
        · rw [reply.reqDict]
          exact serving.calls before (List.mem_of_getElem? found) (reply.items ▸ ids)
      · cases new : write with
        | none => exact serving.inOrder uid
        | some w => exact serving.keyed fresh zones found (reply.keyed w new) uid
  | committed found commits =>
      exact ⟨sound, serving.calls, fun uid => serving.committed found commits uid⟩

theorem Posts.run_serving (fresh : FreshIds autoId database) (zones : KeyZones database)
    (inOrder : ∀ uid, InOrder database uid) {events : List PostEvent}
    (proper : ∀ event ∈ events, Proper event)
    (ran : run (Posts.step autoId) (Posts.start database) events = some s) :
    s.Serving autoId database := by
  have start : (Posts.start database).Serving autoId database :=
    ⟨Posts.Sound.start autoId database, by simp [Posts.start], inOrder⟩
  have met : Along (Posts.step autoId) (fun _ event => Proper event) (Posts.start database)
      events := Along.of_forall fun _ event member => proper event member
  exact (met.always (fun _ _ _ => Posts.step_serving fresh zones) start).last ran

end Serving

section Refreshing

variable {database : Json} {uid : String}

theorem InOrder.wellTyped (inOrder : InOrder database uid) :
    WellTyped database (indexNode database uid).children where
  ids := by
    intro zoneSnap inside requestIDSnap member
    obtain ⟨id, named, -⟩ := inOrder.entries zoneSnap inside requestIDSnap member
    simp [named]
  quantities := by
    intro zoneSnap inside requestIDSnap member id named
    obtain ⟨id', named', -, served⟩ := inOrder.entries zoneSnap inside requestIDSnap member
    obtain rfl := Option.some.inj (named.symm.trans named')
    exact served.quantities

theorem InOrder.completable (inOrder : InOrder database uid) :
    Completable database (some uid) := by
  refine ⟨uid, rfl, ?_⟩
  cases present : (indexNode database uid).isPresent with
  | false => exact .inl rfl
  | true =>
      refine .inr ⟨inOrder.zones present, fun zoneSnap inside =>
        ⟨inOrder.filled zoneSnap inside, fun requestIDSnap member id named => ?_⟩⟩
      obtain ⟨id', named', legal, served⟩ := inOrder.entries zoneSnap inside requestIDSnap member
      obtain rfl := Option.some.inj (named.symm.trans named')
      exact ⟨takesPath_of_keys (inOrder.keys zoneSnap inside) legal, .inr served.filled⟩

theorem InOrder.validIds (inOrder : InOrder database uid) :
    validIds database (indexNode database uid).children =
      indexIds (indexNode database uid).children := by
  have entries := inOrder.entries
  generalize (indexNode database uid).children = zoneSnaps at entries
  simp only [Landing.validIds, validEntries, indexIds, List.map_flatMap, List.map_filterMap]
  refine List.flatMap_congr fun zoneSnap inside => List.filterMap_congr fun snap member => ?_
  obtain ⟨id, named, legal, served⟩ := entries zoneSnap inside snap member
  simp [validEntry, named, Option.isSome_iff_ne_none.mpr served.head, requestNode_key _ _ legal]

theorem InOrder.shown (inOrder : InOrder database uid) {languageCode : Option String}
    {requests : List Request}
    (answers : Answers database languageCode
      (validEntries database (indexNode database uid).children) requests) :
    ∀ request ∈ requests, Shown request.status := by
  intro request member
  obtain ⟨i, found⟩ := List.mem_iff_getElem?.mp member
  obtain ⟨entry, valid, fits, -⟩ := forall₂_set answers found
  obtain ⟨zoneSnap, inside, there⟩ := List.mem_flatMap.mp valid
  obtain ⟨snap, listed, made⟩ := List.mem_filterMap.mp there
  obtain ⟨id, named, -, served⟩ := inOrder.entries zoneSnap inside snap listed
  simp only [validEntry, named, Option.bind_eq_bind, Option.bind_some] at made
  obtain ⟨-, same⟩ := Option.ite_none_right_eq_some.mp made
  obtain rfl := Option.some.inj same
  rw [fits.status]
  exact served.shown

end Refreshing

theorem Homes.inOrder {database : Json} {homes : List (String × String)}
    (here : Homes database homes) (uid : String) : InOrder database uid := by
  have index : indexNode database uid = ⟨uid, .null⟩ :=
    congrArg (DataSnapshot.mk uid) (Json.get_of_absent here.index [uid])
  constructor <;> simp [index, DataSnapshot.isPresent, DataSnapshot.children, Json.isEmpty,
    Json.entries]

end Kasei.Checkout
