import Kasei.Checkout.Service

/-! # Refreshes while others post

The reads of a refresh are no transaction: the index comes first, then one
request after the other and the items of each, and in between everybody posts.
Still a refresh delivers what the tree held at one moment of it, the one at
which it read the index: a request is written before it is named and never
again, and what a post changes in the catalogue no reader looks at.
-/

namespace Kasei.Checkout

open JsonTree Runs FanIn Landing Counters Posting

/-- An entry of the user's index names the request. -/
def Indexed (database : Json) (uid zoneID id : String) : Prop :=
  ∃ zoneSnap ∈ (indexNode database uid).children, zoneSnap.key = zoneID ∧
    ∃ requestIDSnap ∈ zoneSnap.children, asString requestIDSnap.value = some id

theorem InOrder.served {database : Json} {uid zoneID id : String} (inOrder : InOrder database uid)
    (indexed : Indexed database uid zoneID id) :
    isValidKey zoneID = true ∧ isValidKey id = true ∧ Served (requestNode database zoneID id) := by
  obtain ⟨zoneSnap, there, rfl, snap, within, named⟩ := indexed
  obtain ⟨id', named', legal, served⟩ := inOrder.entries zoneSnap there snap within
  obtain rfl := Option.some.inj (named.symm.trans named')
  exact ⟨inOrder.keys zoneSnap there, legal, served⟩

/-- What a reader finds in the tree stays: the entries of every index, the
    requests that can be listed, and the items of the catalogue. -/
structure Keeps (before after : Json) : Prop where
  entries : ∀ uid zoneID id, Indexed before uid zoneID id → Indexed after uid zoneID id
  nodes : ∀ zoneID id, isValidKey zoneID = true → isValidKey id = true →
    Served (requestNode before zoneID id) →
    requestNode after zoneID id = requestNode before zoneID id
  items : ∀ languageCode id,
    getRequestItem after languageCode id = getRequestItem before languageCode id

theorem Keeps.refl (database : Json) : Keeps database database :=
  ⟨fun _ _ _ indexed => indexed, fun _ _ _ _ _ => rfl, fun _ _ => rfl⟩

theorem Keeps.trans {before middle after : Json} (first : Keeps before middle)
    (second : Keeps middle after) : Keeps before after where
  entries := fun uid zoneID id indexed =>
    second.entries uid zoneID id (first.entries uid zoneID id indexed)
  nodes := fun zoneID id zone legal served => by
    have same := first.nodes zoneID id zone legal served
    rw [second.nodes zoneID id zone legal (same ▸ served), same]
  items := fun languageCode id => (second.items languageCode id).trans (first.items languageCode id)

section Writes

variable {database : Json}

theorem mem_validEntries_iff {uid zoneID id : String} :
    (zoneID, id) ∈ validEntries database (indexNode database uid).children ↔
      Indexed database uid zoneID id ∧ decodeHead (requestNode database zoneID id) ≠ none := by
  simp only [validEntries, List.mem_flatMap, List.mem_filterMap, Indexed]
  constructor
  · rintro ⟨zoneSnap, inside, snap, member, valid⟩
    simp only [validEntry, Option.bind_eq_bind, Option.bind_eq_some_iff] at valid
    obtain ⟨id', named, kept⟩ := valid
    obtain ⟨head, same⟩ := Option.ite_none_right_eq_some.mp kept
    obtain ⟨rfl, rfl⟩ := Prod.mk.inj (Option.some.inj same)
    exact ⟨⟨zoneSnap, inside, rfl, snap, member, named⟩, Option.isSome_iff_ne_none.mp head⟩
  · rintro ⟨⟨zoneSnap, inside, rfl, snap, member, named⟩, head⟩
    refine ⟨zoneSnap, inside, snap, member, ?_⟩
    simp [validEntry, named, Option.isSome_iff_ne_none.mpr head]

theorem indexed_of_get {uid zoneid key id : String} (legal : isValidKey zoneid = true)
    (indexed : database.get (indexPath uid zoneid key) = .str id) :
    Indexed database uid zoneid id := by
  rw [indexPath, pieces_of_key legal] at indexed
  have leaf : (((database.child "userRequests").child uid).child zoneid).child key = .str id :=
    indexed
  have entry : (key, Json.str id) ∈
      (((database.child "userRequests").child uid).child zoneid).entries := by
    rw [← leaf]
    exact Json.child_entry (by simp [leaf])
  have zone := Json.child_mem_entries entry
  exact ⟨⟨zoneid, _⟩, List.mem_map.mpr ⟨_, zone, rfl⟩, rfl, ⟨key, .str id⟩,
    List.mem_map.mpr ⟨_, entry, rfl⟩, rfl⟩

theorem Indexed.congr {after : Json} {uid zoneID id : String}
    (indexed : Indexed database uid zoneID id)
    (same : after.get ["userRequests", uid] = database.get ["userRequests", uid]) :
    Indexed after uid zoneID id := by
  have node : indexNode after uid = indexNode database uid := congrArg (DataSnapshot.mk uid) same
  rwa [Indexed, node]

/-- The fields of a catalogue node that are read. -/
def itemFields : List String := ["name_zh", "name", "icon", "bgCol", "limit", "remaining"]

theorem getRequestItem_congr {after : Json} {id : String}
    (same : ∀ field ∈ itemFields,
      after.get ["items", id, field] = database.get ["items", id, field])
    (languageCode : Option String) :
    getRequestItem after languageCode id = getRequestItem database languageCode id := by
  have leaf : ∀ (tree : Json) field,
      ((observeSingleEvent tree ["items"] id).childSnapshot field).value =
        tree.get ["items", id, field] := fun _ _ => rfl
  simp only [itemFields, List.forall_mem_cons] at same
  obtain ⟨zh, name, icon, bgCol, limit, remaining, -⟩ := same
  simp only [getRequestItem, leaf, icon, bgCol, limit, remaining, name]
  split <;> simp only [zh, name]

theorem keeps_counter {path : Path} (counter : CounterPath path) (value : Json) :
    Keeps database (database.set path value) where
  entries := fun uid zoneID id indexed => by
    exact indexed.congr (Json.get_set_of_apart _ (counter.elsewhere (by decide) _) _)
  nodes := fun zoneID id _ _ _ =>
    requestNode_congr (Json.get_set_of_apart _ (counter.elsewhere (by decide) _) _)
  items := fun languageCode id => by
    refine getRequestItem_congr (fun field read => Json.get_set_of_apart _ ?_ _) languageCode
    cases counter with
    | stock other | requested other =>
        refine Apart.of_ne rfl fun same => ?_
        simp only [stockPath, requestedPath, List.cons.injEq] at same
        obtain ⟨-, -, rfl, -⟩ := same
        exact absurd read (by decide)
    | requestCounter zone other => exact .inl (by decide)

theorem keeps_request {zoneid key : String} (zone : isValidKey zoneid = true)
    (legal : isValidKey key = true) (free : database.get (requestPath zoneid key) = .null)
    (value : Json) : Keeps database (database.set (requestPath zoneid key) value) where
  entries := fun uid zoneID id indexed => by
    have apart : Apart (requestPath zoneid key) ["userRequests", uid] := .inl (by decide)
    exact indexed.congr (Json.get_set_of_apart _ apart _)
  nodes := fun _ _ zone' legal' served =>
    requestNode_set zone legal free value zone' legal' served
  items := fun languageCode id => by
    refine getRequestItem_congr (fun field _ => Json.get_set_of_apart _ ?_ _) languageCode
    exact .inl (by decide)

theorem Indexed.insert {uid zoneid key zoneID id : String} (legal : isValidKey zoneid = true)
    (free : database.get (indexPath uid zoneid key) = .null) (value : Json)
    (indexed : Indexed database uid zoneID id) :
    Indexed (database.set (indexPath uid zoneid key) value) uid zoneID id := by
  have path : indexPath uid zoneid key = ["userRequests", uid] ++ [zoneid, key] := by
    rw [indexPath, pieces_of_key legal]
    rfl
  rw [path] at free ⊢
  have index : indexNode (database.set (["userRequests", uid] ++ [zoneid, key]) value) uid =
      ⟨uid, (database.get ["userRequests", uid]).set [zoneid, key] value⟩ :=
    congrArg (DataSnapshot.mk uid)
      (Json.get_set_append database ["userRequests", uid] [zoneid, key] _)
  have below : ((database.get ["userRequests", uid]).child zoneid).child key = .null := free
  unfold Indexed at indexed ⊢
  rw [index]
  have before : indexNode database uid = ⟨uid, database.get ["userRequests", uid]⟩ := rfl
  rw [before] at indexed
  generalize database.get ["userRequests", uid] = old at indexed below
  obtain ⟨zoneSnap, inside, rfl, snap, member, named⟩ := indexed
  obtain ⟨⟨zone, node⟩, zoneEntry, rfl⟩ := List.mem_map.mp inside
  obtain ⟨⟨place, leaf⟩, entry, rfl⟩ := List.mem_map.mp member
  simp only at named entry
  have stays : ∀ node', (zone, node') ∈ (old.set [zoneid, key] value).entries →
      (place, leaf) ∈ node'.entries → ∃ zoneSnap ∈
        DataSnapshot.children ⟨uid, old.set [zoneid, key] value⟩, zoneSnap.key = zone ∧
          ∃ snap ∈ zoneSnap.children, asString snap.value = some id := by
    intro node' there kept
    exact ⟨⟨zone, node'⟩, List.mem_map.mpr ⟨_, there, rfl⟩, rfl, ⟨place, leaf⟩,
      List.mem_map.mpr ⟨_, kept, rfl⟩, named⟩
  rcases mem_insertEntry_of_mem zoneid ((old.child zoneid).set [key] value) zoneEntry with
    other | ⟨own, first⟩
  · exact stays node other entry
  · simp only at own first
    subst own
    have same : old.child zone = node := by simp [Json.child, first]
    refine stays ((old.child zone).set [key] value) (mem_insertEntry_self _ _ _) ?_
    rw [same] at below ⊢
    rcases mem_insertEntry_of_mem key value entry with other | ⟨-, found⟩
    · exact other
    · obtain rfl : leaf = .null := by simpa [Json.child, found] using below
      cases named

theorem keeps_index {uid zoneid key : String} (legal : isValidKey zoneid = true)
    (free : database.get (indexPath uid zoneid key) = .null) (value : Json) :
    Keeps database (database.set (indexPath uid zoneid key) value) where
  entries := fun uid' zoneID id indexed => by
    by_cases own : uid' = uid
    · subst own
      exact indexed.insert legal free value
    · have others : Apart (indexPath uid zoneid key) ["userRequests", uid'] :=
        .inr (.inl (Ne.symm own))
      exact indexed.congr (Json.get_set_of_apart _ others _)
  nodes := fun zoneID id _ _ _ => by
    have apart : Apart (indexPath uid zoneid key) (requestPath zoneID id) := .inl (by decide)
    exact requestNode_congr (Json.get_set_of_apart _ apart _)
  items := fun languageCode id => by
    refine getRequestItem_congr (fun field _ => Json.get_set_of_apart _ ?_ _) languageCode
    exact .inl (by decide)

end Writes

section Posting

variable {autoId : Nat → String} {database : Json} {s next : Posts}

theorem Posts.step_keeps (fresh : FreshIds autoId database) (zones : KeyZones database)
    (sound : s.Sound autoId database) {event : PostEvent}
    (taken : s.step autoId event = some next) : Keeps s.database next.database := by
  cases Posts.step_advance taken with
  | same | posted => exact Keeps.refl _
  | @answered _ k before after draws write passed found reply =>
      cases new : write with
      | none => exact Keeps.refl _
      | some w =>
          have keyed := reply.keyed w new
          have free := sound.free fresh found keyed
          have own := sound.calls before (List.mem_of_getElem? found)
          cases keyed with
          | request zoneid zone =>
              exact keeps_request (zones _ (own.isZone zone)) (fresh.key _) free _
          | index zoneid zone => exact keeps_index (zones _ (own.isZone zone)) free _
  | @committed _ transaction after found commits =>
      obtain ⟨_, _, -, own⟩ := sound.counters transaction (List.mem_of_getElem? found)
      simp only [Transaction.commit] at commits
      split at commits
      · obtain rfl := Option.some.inj commits
        exact keeps_counter (counterPath_of_mem own) _
      · cases commits

/-- What a call that has reported success has left in the tree. -/
structure Call.Sent (autoId : Nat → String) (database tree : Json) (call : Call) (zoneid : String)
    (key index : Nat) : Prop where
  zone : IsZone database zoneid
  ids : ∀ item ∈ call.items, isValidKey item.id = true
  drawn : key ∈ call.keys
  stored : tree.get (requestPath zoneid (autoId key)) = call.reqDict
  indexed : tree.get (indexPath call.uid zoneid (autoId index)) = .str (autoId key)

theorem Posts.Sound.sent {call : Call} (sound : s.Sound autoId database) (member : call ∈ s.calls)
    (reported : call.completions = [true]) :
    ∃ zoneid key index, call.Sent autoId database s.database zoneid key index := by
  have own := sound.calls call member
  obtain ⟨zoneid, key, index, stage⟩ := own.reported_iff.mp reported
  have zone := own.zone zoneid (by simp [Call.zone, stage])
  have counted := own.counted (by simp [Call.orders, stage])
  have kept : ∀ w ∈ call.writes autoId, s.database.get w.1 = w.2 :=
    fun w inside => sound.stored w (List.mem_flatMap.mpr ⟨call, member, inside⟩)
  exact ⟨zoneid, key, index, ⟨call.uid, zone.1⟩, (passes_iff.mp ⟨zone.2, counted⟩).2,
    by simp [Call.keys, stage],
    kept (requestPath zoneid (autoId key), call.reqDict) (by simp [Call.writes, stage]),
    kept (indexPath call.uid zoneid (autoId index), .str (autoId key))
      (by simp [Call.writes, stage])⟩

end Posting

section Reading

variable {before after : Json} {languageCode : Option String}

/-- A call for a request that can be listed goes on in the later tree as it would
    have in the earlier one. -/
theorem Keeps.step (keeps : Keeps before after) {zoneID id : String}
    (zone : isValidKey zoneID = true) (legal : isValidKey id = true)
    (served : Served (requestNode before zoneID id)) {call : GetRequest}
    (sound : call.Sound before languageCode zoneID id) (event : RequestEvent) :
    call.step after languageCode event = call.step before languageCode event := by
  have appended : ∀ items childSnap, appendItem after languageCode items childSnap =
      appendItem before languageCode items childSnap := by
    intro items childSnap
    simp only [appendItem, keeps.items]
  cases call with
  | missing => rfl
  | reading zone key =>
      cases event with
      | content event => rfl
      | node =>
          obtain ⟨rfl, rfl⟩ := sound
          simp only [GetRequest.step, keeps.nodes _ _ zone legal served]
  | gathering head call =>
      cases event with
      | node => rfl
      | content event =>
          cases event with
          | turn => rfl
          | answer read => simp only [GetRequest.step, GetAllItems.step, appended]

theorem Keeps.step_fanOut (keeps : Keeps before after) {uid : String} (inOrder : InOrder before uid)
    {fan : FanOut} (sound : fan.Sound before languageCode (indexNode before uid).children)
    (event : FetchEvent) :
    (Fetch.fanOut fan).step after languageCode event =
      (Fetch.fanOut fan).step before languageCode event := by
  cases event with
  | index | turn => rfl
  | call index position event =>
      have same : fan.call after languageCode index position event =
          fan.call before languageCode index position event := by
        cases found : fan.zones[index]? with
        | none => simp only [FanOut.call, found]
        | some zone =>
            cases asked : zone.calls[position]? with
            | none => simp only [FanOut.call, found, asked]
            | some call =>
                obtain ⟨zoneSnap, inside, snap, member, id, named, -, made, -⟩ :=
                  sound.call_made found asked
                obtain ⟨id', named', legal, served⟩ := inOrder.entries zoneSnap inside snap member
                obtain rfl := Option.some.inj (named.symm.trans named')
                simp only [FanOut.call, found, asked,
                  keeps.step (inOrder.keys zoneSnap inside) legal served made]
      simp only [Fetch.step, same]

theorem Fetch.idle_of_idle {fetch : Fetch} (idle : fetch.work after = 0) :
    fetch.work before = 0 := by
  have call : ∀ call : GetRequest, call.work after = 0 → call.work before = 0 := by
    intro call idle
    cases call with
    | reading zone key => simp [GetRequest.work] at idle
    | missing => rfl
    | gathering head call => exact idle
  have zone : ∀ zone : ZoneCall, zone.work after = 0 → zone.work before = 0 := by
    intro zone idle
    simp only [ZoneCall.work, Nat.add_eq_zero_iff, FanIn.total_eq_zero] at idle ⊢
    refine ⟨fun c member => call c (idle.1 c member), fun snap member => ?_⟩
    simpa using idle.2 snap member
  cases fetch with
  | signedOut | noIndex | aborted => rfl
  | readingIndex uid => simp [Fetch.work] at idle
  | fanOut fan =>
      simp only [Fetch.work, FanOut.work, Nat.add_eq_zero_iff, FanIn.total_eq_zero] at idle ⊢
      refine ⟨fun z member => zone z (idle.1 z member), fun snap member => ?_⟩
      simpa using idle.2 snap member

end Reading

/-! ## Any number of refreshes -/

/-- A refresh of some client, with the lists that it has handed over. -/
structure LiveRefresh where
  uid : String
  languageCode : Option String
  fetch : Fetch
  completions : List (List Request)

def LiveRefresh.moveTo (refresh : LiveRefresh) (next : Fetch × List (List Request)) :
    LiveRefresh :=
  { refresh with fetch := next.1, completions := next.2 }

structure Live where
  posts : Posts
  refreshes : List LiveRefresh

def Live.start (database : Json) : Live := ⟨.start database, []⟩

inductive LiveEvent where
  | post (event : PostEvent)
  | refresh (uid : String) (languageCode : Option String)
  | fetch (k : Nat) (event : FetchEvent)

def LiveEvent.Proper : LiveEvent → Prop
  | .post event => Checkout.Proper event
  | _ => True

/-- Every answer to a refresh is read off the tree as it is by then. -/
def Live.step (autoId : Nat → String) (s : Live) : LiveEvent → Option Live
  | .post event => (s.posts.step autoId event).map fun posts => { s with posts := posts }
  | .refresh uid languageCode =>
      some { s with refreshes :=
        s.refreshes ++ [⟨uid, languageCode, fetchAllUserRequests (some uid), []⟩] }
  | .fetch k event =>
      match s.refreshes[k]? with
      | none => some s
      | some refresh =>
          (recording (Fetch.step s.posts.database refresh.languageCode)
            (refresh.fetch, refresh.completions) event).map fun next =>
              { s with refreshes := s.refreshes.set k (refresh.moveTo next) }

/-- The refresh is where it would be if the tree had been this one all along. -/
structure LiveRefresh.Since (moment : Json) (refresh : LiveRefresh) : Prop where
  inOrder : InOrder moment refresh.uid
  recorded : Recorded Fetch.finished Fetch.result
    (Fetch.Sound moment refresh.languageCode (some refresh.uid))
    (refresh.fetch, refresh.completions)

section Since

variable {moment current : Json} {refresh : LiveRefresh}

theorem LiveRefresh.Since.record (since : refresh.Since moment) :
    refresh.completions = deliveries Fetch.finished Fetch.result refresh.fetch :=
  since.recorded.1

theorem LiveRefresh.Since.begin {uid : String} (inOrder : InOrder moment uid)
    (languageCode : Option String) :
    LiveRefresh.Since moment ⟨uid, languageCode, fetchAllUserRequests (some uid), []⟩ :=
  ⟨inOrder, rfl, rfl⟩

/-- Until the index is read, any moment will do. -/
theorem LiveRefresh.Since.renew (since : refresh.Since moment) {uid : String}
    (reading : refresh.fetch = .readingIndex uid) (inOrder : InOrder current refresh.uid) :
    refresh.Since current := by
  obtain ⟨uid', languageCode, fetch, completions⟩ := refresh
  obtain rfl : fetch = .readingIndex uid := reading
  exact ⟨inOrder, since.recorded.1, since.recorded.2⟩

/-- From then on the answers are those of the moment at which it was. -/
theorem LiveRefresh.Since.answers (since : refresh.Since moment) (keeps : Keeps moment current)
    (read : ∀ uid, refresh.fetch ≠ .readingIndex uid) (event : FetchEvent) :
    recording (Fetch.step current refresh.languageCode) (refresh.fetch, refresh.completions) event =
      recording (Fetch.step moment refresh.languageCode) (refresh.fetch, refresh.completions)
        event := by
  have sound := since.recorded.2
  unfold recording
  congr 1
  cases fetch : refresh.fetch with
  | signedOut | noIndex | aborted => rfl
  | readingIndex uid => exact absurd fetch (read uid)
  | fanOut fan =>
      simp only [fetch, Fetch.Sound] at sound
      obtain ⟨uid, user, -, fanSound⟩ := sound
      obtain rfl := Option.some.inj user
      exact keeps.step_fanOut since.inOrder fanSound event

theorem LiveRefresh.Since.step (since : refresh.Since moment) {event : FetchEvent}
    {next : Fetch × List (List Request)}
    (moved : recording (Fetch.step moment refresh.languageCode)
      (refresh.fetch, refresh.completions) event = some next) :
    (refresh.moveTo next).Since moment :=
  ⟨since.inOrder, Recorded.moved (fun _ _ _ _ sound taken => Fetch.step_sound sound taken)
    since.recorded moved⟩

theorem LiveRefresh.Since.total (since : refresh.Since moment) (event : FetchEvent) :
    ∃ next, recording (Fetch.step moment refresh.languageCode)
      (refresh.fetch, refresh.completions) event = some next := by
  have readable : ∀ user, some refresh.uid = some user →
      Readable moment refresh.languageCode (indexNode moment user).children := by
    rintro user same
    obtain rfl := Option.some.inj same
    exact since.inOrder.wellTyped.readable refresh.languageCode
  obtain ⟨after, delivered, taken⟩ := Fetch.step_total readable since.recorded.2 event
  exact ⟨(after, refresh.completions ++ delivered.toList), by simp [recording, taken]⟩

/-- The tree holds this list for the user. -/
structure Delivers (database : Json) (refresh : LiveRefresh) (delivered : List Request) : Prop where
  answers : ∃ requests, delivered.Perm requests ∧
    Answers database refresh.languageCode
      (validEntries database (indexNode database refresh.uid).children) requests
  ids : (delivered.map Request.id).Perm
    ((indexIds (indexNode database refresh.uid).children).map some)
  shown : ∀ request ∈ delivered, Shown request.status

theorem LiveRefresh.Since.delivers (since : refresh.Since moment) {delivered : List Request}
    (brought : delivered ∈ refresh.completions) : Delivers moment refresh delivered := by
  rw [since.record, deliveries] at brought
  split at brought
  · rename_i done
    obtain rfl := List.mem_singleton.mp brought
    obtain ⟨-, user, same, requests, gathered, answered⟩ := since.recorded.2.delivered done
    obtain rfl := Option.some.inj same
    refine ⟨⟨requests, gathered, answered⟩, ?_, fun request member => ?_⟩
    · refine (gathered.map Request.id).trans (.of_eq ?_)
      rw [answered.ids, ← since.inOrder.validIds, validIds, List.map_map]
      rfl
    · exact since.inOrder.shown answered request (gathered.mem_iff.mp member)
  · cases brought

theorem Delivers.names {older : Json} {delivered : List Request} {zoneID id : String}
    (delivers : Delivers moment refresh delivered) (kept : Keeps older moment)
    (zone : isValidKey zoneID = true) (legal : isValidKey id = true)
    (indexed : Indexed older refresh.uid zoneID id)
    (served : Served (requestNode older zoneID id)) : some id ∈ delivered.map Request.id := by
  have entry : (zoneID, id) ∈ validEntries moment (indexNode moment refresh.uid).children := by
    refine mem_validEntries_iff.mpr ⟨kept.entries _ _ _ indexed, ?_⟩
    rw [kept.nodes _ _ zone legal served]
    exact served.head
  obtain ⟨requests, gathered, answers⟩ := delivers.answers
  obtain ⟨request, member, fits⟩ := forall₂_exists answers entry
  have named := fits.named
  rw [requestNode_key _ _ legal] at named
  exact List.mem_map.mpr ⟨request, gathered.mem_iff.mpr member, named⟩

theorem LiveRefresh.Since.once (since : refresh.Since moment) :
    refresh.completions.length ≤ 1 := by
  rw [since.record, deliveries]
  split <;> simp

theorem LiveRefresh.Since.complete (since : refresh.Since moment)
    (idle : refresh.fetch.work moment = 0) : refresh.completions ≠ [] := by
  have done := (since.recorded.2.finished_of_idle idle).mpr since.inOrder.completable
  rw [since.record, deliveries, if_pos done]
  simp

theorem LiveRefresh.Since.alive (since : refresh.Since moment) : refresh.fetch ≠ .aborted := by
  intro gone
  have idle : refresh.fetch.work moment = 0 := by
    rw [gone]
    rfl
  exact since.complete idle (by rw [since.record, gone]; rfl)

end Since

/-! ## The moment of a refresh -/

/-- A state of the run in which the refresh was already under way, and which
    explains all that it has read. -/
structure Moment (autoId : Nat → String) (database : Json) (events : List LiveEvent) (s : Live)
    (k : Nat) (refresh : LiveRefresh) (middle : Live) : Prop where
  reached : ∃ first rest, events = first ++ rest ∧
    run (Live.step autoId) (Live.start database) first = some middle
  begun : k < middle.refreshes.length
  keeps : Keeps middle.posts.database s.posts.database
  since : refresh.Since middle.posts.database

section Moments

variable {autoId : Nat → String} {database : Json} {events : List LiveEvent} {s next : Live}
  {k : Nat} {refresh : LiveRefresh} {middle : Live}

theorem Moment.now (ran : run (Live.step autoId) (Live.start database) events = some s)
    (begun : k < s.refreshes.length) (since : refresh.Since s.posts.database) :
    Moment autoId database events s k refresh s :=
  ⟨⟨events, [], (List.append_nil events).symm, ran⟩, begun, Keeps.refl _, since⟩

theorem Moment.extend (moment : Moment autoId database events s k refresh middle)
    (event : LiveEvent) (keeps : Keeps s.posts.database next.posts.database) :
    Moment autoId database (events ++ [event]) next k refresh middle := by
  obtain ⟨first, rest, rfl, ran⟩ := moment.reached
  exact ⟨⟨first, rest ++ [event], List.append_assoc .., ran⟩, moment.begun,
    moment.keeps.trans keeps, moment.since⟩

theorem Moment.answered (moment : Moment autoId database events s k refresh middle)
    (inOrder : InOrder s.posts.database refresh.uid) {event : FetchEvent}
    {after : Fetch × List (List Request)}
    (moved : recording (Fetch.step s.posts.database refresh.languageCode)
      (refresh.fetch, refresh.completions) event = some after)
    (same : next.posts = s.posts) (begun : k < next.refreshes.length)
    (ran : run (Live.step autoId) (Live.start database) (events ++ [.fetch k event]) = some next) :
    ∃ middle, Moment autoId database (events ++ [.fetch k event]) next k (refresh.moveTo after)
      middle := by
  by_cases reading : ∃ uid, refresh.fetch = .readingIndex uid
  · obtain ⟨uid, reading⟩ := reading
    refine ⟨next, Moment.now ran begun ?_⟩
    rw [same]
    exact (moment.since.renew reading inOrder).step moved
  · rw [moment.since.answers moment.keeps (not_exists.mp reading)] at moved
    have kept : Keeps s.posts.database next.posts.database := same ▸ Keeps.refl _
    have extended := moment.extend (.fetch k event) kept
    exact ⟨middle, extended.reached, extended.begun, extended.keeps, moment.since.step moved⟩

/-- Every refresh of the state has its moment. -/
def Explained (autoId : Nat → String) (database : Json) (events : List LiveEvent) (s : Live) :
    Prop :=
  ∀ k refresh, s.refreshes[k]? = some refresh →
    ∃ middle, Moment autoId database events s k refresh middle

theorem Explained.extend (explained : Explained autoId database events s) (event : LiveEvent)
    (same : next.refreshes = s.refreshes) (keeps : Keeps s.posts.database next.posts.database) :
    Explained autoId database (events ++ [event]) next := by
  intro k refresh found
  rw [same] at found
  obtain ⟨middle, moment⟩ := explained k refresh found
  exact ⟨middle, moment.extend event keeps⟩

theorem Explained.begin (explained : Explained autoId database events s) {uid : String}
    (inOrder : InOrder s.posts.database uid) (languageCode : Option String)
    (taken : s.step autoId (.refresh uid languageCode) = some next)
    (ran : run (Live.step autoId) (Live.start database)
      (events ++ [.refresh uid languageCode]) = some next) :
    Explained autoId database (events ++ [.refresh uid languageCode]) next := by
  obtain rfl := Option.some.inj taken
  intro k refresh found
  rw [List.getElem?_append] at found
  split at found
  · obtain ⟨middle, moment⟩ := explained k refresh found
    exact ⟨middle, moment.extend _ (Keeps.refl _)⟩
  · rename_i new
    obtain ⟨place, rfl⟩ := List.getElem?_eq_some_iff.mp found
    simp only [List.length_singleton, Nat.lt_one_iff] at place
    simp only [place, List.getElem_cons_zero]
    refine ⟨_, Moment.now ran ?_ (.begin inOrder languageCode)⟩
    simp only [List.length_append, List.length_singleton]
    omega

theorem Explained.answer (explained : Explained autoId database events s)
    (inOrder : ∀ uid, InOrder s.posts.database uid) {j : Nat} {event : FetchEvent}
    (taken : s.step autoId (.fetch j event) = some next)
    (ran : run (Live.step autoId) (Live.start database) (events ++ [.fetch j event]) = some next) :
    Explained autoId database (events ++ [.fetch j event]) next := by
  simp only [Live.step] at taken
  split at taken
  · obtain rfl := Option.some.inj taken
    exact explained.extend _ rfl (Keeps.refl _)
  · rename_i answered there
    obtain ⟨after, moved, rfl⟩ := Option.map_eq_some_iff.mp taken
    intro k refresh found
    by_cases own : j = k
    · subst own
      have inside := (List.getElem?_eq_some_iff.mp there).1
      rw [List.getElem?_set_self inside] at found
      obtain rfl := Option.some.inj found
      obtain ⟨middle, moment⟩ := explained j answered there
      refine moment.answered (inOrder _) moved rfl ?_ ran
      simpa using inside
    · rw [List.getElem?_set_ne own] at found
      obtain ⟨middle, moment⟩ := explained k refresh found
      exact ⟨middle, moment.extend _ (Keeps.refl _)⟩

theorem Live.step_serving (fresh : FreshIds autoId database) (zones : KeyZones database)
    (serving : s.posts.Serving autoId database) {event : LiveEvent} (proper : event.Proper)
    (taken : s.step autoId event = some next) : next.posts.Serving autoId database := by
  cases event with
  | post event =>
      obtain ⟨posts, stepped, rfl⟩ := Option.map_eq_some_iff.mp taken
      exact Posts.step_serving fresh zones serving proper stepped
  | refresh uid languageCode =>
      obtain rfl := Option.some.inj taken
      exact serving
  | fetch k event =>
      simp only [Live.step] at taken
      split at taken
      · obtain rfl := Option.some.inj taken
        exact serving
      · obtain ⟨after, -, rfl⟩ := Option.map_eq_some_iff.mp taken
        exact serving

theorem Live.step_explained (fresh : FreshIds autoId database) (zones : KeyZones database)
    (serving : s.posts.Serving autoId database) (explained : Explained autoId database events s)
    {event : LiveEvent} (taken : s.step autoId event = some next)
    (ran : run (Live.step autoId) (Live.start database) (events ++ [event]) = some next) :
    Explained autoId database (events ++ [event]) next := by
  cases event with
  | post event =>
      obtain ⟨posts, stepped, rfl⟩ := Option.map_eq_some_iff.mp taken
      exact explained.extend _ rfl (Posts.step_keeps fresh zones serving.sound stepped)
  | refresh uid languageCode => exact explained.begin (serving.inOrder uid) languageCode taken ran
  | fetch j event => exact explained.answer serving.inOrder taken ran

theorem Live.run_moment (fresh : FreshIds autoId database) (zones : KeyZones database)
    (inOrder : ∀ uid, InOrder database uid) (proper : ∀ event ∈ events, event.Proper)
    (ran : run (Live.step autoId) (Live.start database) events = some s) :
    s.posts.Serving autoId database ∧ Explained autoId database events s := by
  -- from the last step back, as the moment is one of the whole run
  induction events using List.reverseRecOn generalizing s with
  | nil =>
      obtain rfl := Option.some.inj ran
      exact ⟨⟨Posts.Sound.start autoId database, by simp [Live.start, Posts.start], inOrder⟩,
        by simp [Explained, Live.start]⟩
  | append_singleton earlier event ih =>
      have whole := ran
      rw [run_append] at ran
      obtain ⟨before, reached, last⟩ := Option.bind_eq_some_iff.mp ran
      rw [run_cons] at last
      obtain ⟨_, taken, same⟩ := Option.bind_eq_some_iff.mp last
      obtain rfl := Option.some.inj same
      obtain ⟨serving, explained⟩ := ih
        (fun event member => proper event (List.mem_append_left _ member)) reached
      exact ⟨Live.step_serving fresh zones serving (proper event (by simp)) taken,
        Live.step_explained fresh zones serving explained taken whole⟩

theorem Fetch.step_read {tree : Json} {languageCode : Option String} {fetch after : Fetch}
    {event : FetchEvent} {delivered : Option (List Request)}
    (read : ∀ uid, fetch ≠ .readingIndex uid)
    (taken : fetch.step tree languageCode event = some (after, delivered)) (uid : String) :
    after ≠ .readingIndex uid := by
  cases fetch with
  | signedOut | noIndex | aborted =>
      obtain ⟨rfl, -⟩ := Prod.mk.inj (Option.some.inj taken)
      simp
  | readingIndex user => exact absurd rfl (read user)
  | fanOut fan =>
      cases event with
      | index =>
          obtain ⟨rfl, -⟩ := Prod.mk.inj (Option.some.inj taken)
          simp
      | turn =>
          simp only [Fetch.step] at taken
          split at taken
          · obtain ⟨rfl, -⟩ := Prod.mk.inj (Option.some.inj taken)
            simp
          · obtain ⟨next, -, last⟩ := Option.map_eq_some_iff.mp taken
            obtain ⟨rfl, -⟩ := Prod.mk.inj last
            simp
      | call zone position event =>
          obtain ⟨⟨next, brought⟩, -, last⟩ := Option.bind_eq_some_iff.mp taken
          obtain ⟨rfl, -⟩ := Prod.mk.inj (Option.some.inj last)
          simp

/-- Some answers to the refresh, and nothing else, bring it to its end. -/
def Live.CanComplete (autoId : Nat → String) (s : Live) (k : Nat) : Prop :=
  ∃ (answers : List FetchEvent) (final : Live) (done : LiveRefresh),
    run (Live.step autoId) s (answers.map (.fetch k)) = some final ∧
      final.refreshes[k]? = some done ∧ done.completions ≠ []

theorem Live.to_rest {moment : Json} (found : s.refreshes[k]? = some refresh)
    (since : refresh.Since moment) (keeps : Keeps moment s.posts.database)
    (read : ∀ uid, refresh.fetch ≠ .readingIndex uid) : s.CanComplete autoId k := by
  let Inv (s' : Live) : Prop := s'.posts = s.posts ∧ ∃ refresh, s'.refreshes[k]? = some refresh ∧
    refresh.Since moment ∧ ∀ uid, refresh.fetch ≠ .readingIndex uid
  let work (s' : Live) : Nat := s'.refreshes[k]?.elim 0 fun refresh => refresh.fetch.work moment
  have progress : ∀ s', Inv s' → work s' ≠ 0 → ∃ event next,
      s'.step autoId (.fetch k event) = some next ∧ Inv next ∧ work next < work s' := by
    rintro s' ⟨same, refresh, there, since, read⟩ busy
    have counted : work s' = refresh.fetch.work moment := by simp [work, there]
    obtain ⟨event, less⟩ := Fetch.progress since.recorded.2 (counted ▸ busy)
    obtain ⟨next, moved⟩ := since.total event
    obtain ⟨⟨after, delivered⟩, taken, rfl⟩ := Option.map_eq_some_iff.mp moved
    have inside := (List.getElem?_eq_some_iff.mp there).1
    have put : ∀ r : LiveRefresh, (s'.refreshes.set k r)[k]? = some r :=
      fun r => List.getElem?_set_self inside
    refine ⟨event, { s' with refreshes := s'.refreshes.set k (refresh.moveTo (after, _)) }, ?_,
      ⟨same, _, put _, since.step moved, Fetch.step_read read taken⟩, ?_⟩
    · rw [← since.answers (same ▸ keeps) read event] at moved
      simp only [Live.step, there, moved, Option.map_some]
    · rw [counted]
      simp only [work, put, Option.elim_some]
      exact less after delivered taken
  have start : Inv s := ⟨rfl, refresh, found, since, read⟩
  obtain ⟨answers, final, ran, ⟨-, done, there, rested, -⟩, idle⟩ :=
    exists_run_to_rest work progress start
  refine ⟨answers, final, done, (run_map _ s answers).trans ran, there, rested.complete ?_⟩
  simpa [work, there] using idle

theorem Live.step_answer (started : s.refreshes[k]? = some refresh) (event : FetchEvent) :
    s.step autoId (.fetch k event) =
      (recording (Fetch.step s.posts.database refresh.languageCode)
        (refresh.fetch, refresh.completions) event).map fun next =>
          { s with refreshes := s.refreshes.set k (refresh.moveTo next) } := by
  simp only [Live.step, started]

theorem Moment.total (moment : Moment autoId database events s k refresh middle)
    (inOrder : InOrder s.posts.database refresh.uid) (event : FetchEvent) :
    ∃ next, recording (Fetch.step s.posts.database refresh.languageCode)
      (refresh.fetch, refresh.completions) event = some next := by
  by_cases reading : ∃ uid, refresh.fetch = .readingIndex uid
  · obtain ⟨uid, reading⟩ := reading
    exact (moment.since.renew reading inOrder).total event
  · rw [moment.since.answers moment.keeps (not_exists.mp reading)]
    exact moment.since.total event

theorem Moment.canComplete (moment : Moment autoId database events s k refresh middle)
    (inOrder : InOrder s.posts.database refresh.uid) (started : s.refreshes[k]? = some refresh) :
    s.CanComplete autoId k := by
  by_cases reading : ∃ uid, refresh.fetch = .readingIndex uid
  · -- the index is read first
    obtain ⟨uid, reading⟩ := reading
    obtain ⟨next, moved⟩ := moment.total inOrder .index
    have since := (moment.since.renew reading inOrder).step moved
    have inside := (List.getElem?_eq_some_iff.mp started).1
    have read : ∀ user, (refresh.moveTo next).fetch ≠ .readingIndex user := by
      obtain ⟨⟨after, delivered⟩, taken, rfl⟩ := Option.map_eq_some_iff.mp moved
      rw [reading] at taken
      obtain ⟨-, rfl, -⟩ | ⟨-, -, rfl⟩ := Fetch.step_index taken <;> simp [LiveRefresh.moveTo]
    have finishes : Live.CanComplete autoId
        { s with refreshes := s.refreshes.set k (refresh.moveTo next) } k :=
      Live.to_rest (List.getElem?_set_self inside) since (Keeps.refl _) read
    obtain ⟨answers, final, done, finishes, rest⟩ := finishes
    refine ⟨.index :: answers, final, done, ?_, rest⟩
    rw [List.map_cons, run_cons, Live.step_answer started, moved]
    exact finishes
  · exact Live.to_rest started moment.since moment.keeps (not_exists.mp reading)

theorem Live.step_keeps (fresh : FreshIds autoId database) (zones : KeyZones database)
    (sound : s.posts.Sound autoId database) {event : LiveEvent}
    (taken : s.step autoId event = some next) :
    next.posts.Sound autoId database ∧ Keeps s.posts.database next.posts.database ∧
      s.refreshes.length ≤ next.refreshes.length := by
  cases event with
  | post event =>
      obtain ⟨posts, stepped, rfl⟩ := Option.map_eq_some_iff.mp taken
      exact ⟨Posts.step_sound fresh sound stepped, Posts.step_keeps fresh zones sound stepped,
        le_rfl⟩
  | refresh uid languageCode =>
      obtain rfl := Option.some.inj taken
      exact ⟨sound, Keeps.refl _, by simp⟩
  | fetch k event =>
      simp only [Live.step] at taken
      split at taken
      · obtain rfl := Option.some.inj taken
        exact ⟨sound, Keeps.refl _, le_rfl⟩
      · obtain ⟨after, -, rfl⟩ := Option.map_eq_some_iff.mp taken
        exact ⟨sound, Keeps.refl _, by simp⟩

theorem Live.run_keeps (fresh : FreshIds autoId database) (zones : KeyZones database)
    (sound : s.posts.Sound autoId database)
    (ran : run (Live.step autoId) s events = some next) :
    Keeps s.posts.database next.posts.database ∧ s.refreshes.length ≤ next.refreshes.length := by
  induction events generalizing s with
  | nil =>
      obtain rfl := Option.some.inj ran
      exact ⟨Keeps.refl _, le_rfl⟩
  | cons event rest ih =>
      obtain ⟨middle, taken, later⟩ := Option.bind_eq_some_iff.mp ran
      obtain ⟨kept, first, more⟩ := Live.step_keeps fresh zones sound taken
      obtain ⟨second, most⟩ := ih kept later
      exact ⟨first.trans second, more.trans most⟩

/-- The moment of a refresh comes after everything that came before the refresh. -/
theorem Moment.keeps_since (fresh : FreshIds autoId database) (zones : KeyZones database)
    {earlier later : List LiveEvent} {old : Live}
    (ran : run (Live.step autoId) (Live.start database) earlier = some old)
    (new : old.refreshes.length ≤ k)
    (moment : Moment autoId database (earlier ++ later) s k refresh middle) :
    Keeps old.posts.database middle.posts.database := by
  obtain ⟨first, rest, split, reached⟩ := moment.reached
  have sound : ∀ events (s : Live), run (Live.step autoId) (Live.start database) events = some s →
      s.posts.Sound autoId database := by
    intro events s ran
    exact Runs.run_keeps (fun _ _ _ held taken => (Live.step_keeps fresh zones held taken).1)
      (Posts.Sound.start autoId database) ran
  rcases List.append_eq_append_iff.mp split with ⟨between, rfl, -⟩ | ⟨between, rfl, -⟩
  · rw [run_append, ran, Option.bind_some] at reached
    exact (Live.run_keeps fresh zones (sound earlier old ran) reached).1
  · -- the moment cannot come first, as the refresh has begun by then
    rw [run_append, reached, Option.bind_some] at ran
    have shorter := (Live.run_keeps fresh zones (sound first middle reached) ran).2
    have begun := moment.begun
    omega

end Moments

/-- Whoever posts and refreshes meanwhile: no answer traps a refresh or ends it, it
    hands over one list at most, has done so when nothing is left to be answered, and
    can always be brought there. What it has handed over is what the tree held
    for its user at one moment since the refresh began. -/
theorem refresh_reads_one_moment {autoId : Nat → String} {database : Json}
    (fresh : FreshIds autoId database) (zones : KeyZones database)
    (inOrder : ∀ uid, InOrder database uid)
    {events : List LiveEvent} (proper : ∀ event ∈ events, event.Proper) {s : Live}
    (ran : run (Live.step autoId) (Live.start database) events = some s) {k : Nat}
    {refresh : LiveRefresh} (started : s.refreshes[k]? = some refresh) :
    (∀ event, s.step autoId (.fetch k event) ≠ none) ∧ refresh.fetch ≠ .aborted ∧
      refresh.completions.length ≤ 1 ∧
      (refresh.fetch.work s.posts.database = 0 → refresh.completions ≠ []) ∧
      s.CanComplete autoId k ∧
      ∀ delivered ∈ refresh.completions, ∃ first rest middle, events = first ++ rest ∧
        run (Live.step autoId) (Live.start database) first = some middle ∧
        k < middle.refreshes.length ∧ Delivers middle.posts.database refresh delivered := by
  obtain ⟨serving, explained⟩ := Live.run_moment fresh zones inOrder proper ran
  obtain ⟨middle, moment⟩ := explained k refresh started
  have now := serving.inOrder refresh.uid
  refine ⟨fun event => ?_, moment.since.alive, moment.since.once,
    fun idle => moment.since.complete (Fetch.idle_of_idle idle),
    moment.canComplete now started, fun delivered brought => ?_⟩
  · obtain ⟨next, moved⟩ := moment.total now event
    simp [Live.step_answer started, moved]
  · obtain ⟨first, rest, split, reached⟩ := moment.reached
    exact ⟨first, rest, middle, split, reached, moment.begun, moment.since.delivers brought⟩

section Example

private def amysHome : Json :=
  .obj [("elderly", .obj [("amy", .obj [("ZoneID", .str "north")])])]

private theorem amysHome_homes : Homes amysHome [("amy", "north")] := ⟨rfl, rfl, rfl⟩

private theorem amysHome_fresh : FreshIds countingIds amysHome := amysHome_homes.fresh (by simp)

private theorem amysHome_zones : KeyZones amysHome := amysHome_homes.keyZones (by simp)

private def amysMilk : Request :=
  { id := none, dateCreated := none, senderID := "amy", status := some "sent"
    delSlotStart := some 1611100800
    items := [{ id := "milk", name := "Milk", icon := "m", qty := 2, bgCol := "blue" }] }

private def amysPost (k : Nat) : List LiveEvent :=
  [.post (.post (some "amy") ⟨1611000000, 1611014400⟩ amysMilk), .post (.zoneReply k),
    .post (.requestReply k true), .post (.indexReply k true)]

private def amysAnswers : List LiveEvent :=
  [.fetch 0 .turn, .fetch 0 .turn, .fetch 0 (.call 0 0 .node),
    .fetch 0 (.call 0 0 (.content .turn)), .fetch 0 (.call 0 0 (.content (.answer 0)))]

/-- A second request is posted after the index has been read. -/
private def postedMeanwhile : List LiveEvent :=
  .refresh "amy" none :: .fetch 0 .index :: (amysPost 1 ++ amysAnswers)

private theorem postedMeanwhile_proper :
    ∀ event ∈ amysPost 0 ++ postedMeanwhile, event.Proper := by
  simp [amysPost, postedMeanwhile, amysAnswers, LiveEvent.Proper, Proper, amysMilk]

private theorem postedMeanwhile_runs : ∃ old s,
    run (Live.step countingIds) (Live.start amysHome) (amysPost 0) = some old ∧
      run (Live.step countingIds) old postedMeanwhile = some s ∧
      old.refreshes = [] ∧ (old.posts.calls.map fun call => (call.uid, call.completions)) =
        [("amy", [true])] ∧
      (s.refreshes.map fun refresh =>
        (refresh.uid, refresh.completions.map fun listed => listed.map Request.id)) =
          [("amy", [[some "k"]])] ∧
      indexIds (indexNode s.posts.database "amy").children = ["k", "kkk"] := by
  have whole : rounded 1611100800 = 1611100800 := by norm_num [rounded]
  have slot : delSlotMillis amysMilk.delSlotStart 1611014400 = some 1611100800000 := by
    simp only [delSlotMillis, amysMilk, Option.getD_some, whole]
    rfl
  simp only [amysPost, postedMeanwhile, List.cons_append, run_cons, Live.step, Posts.step,
    Posts.post, slot]
  exact ⟨_, _, rfl, rfl, rfl, rfl, rfl, by decide⟩

private theorem amysRefresh {refreshes : List LiveRefresh}
    (handed : (refreshes.map fun refresh =>
      (refresh.uid, refresh.completions.map fun listed => listed.map Request.id)) =
        [("amy", [[some "k"]])]) :
    ∃ refresh delivered, refreshes = [refresh] ∧ refresh.uid = "amy" ∧
      refresh.completions = [delivered] ∧ delivered.map Request.id = [some "k"] := by
  obtain ⟨refresh, alone, same⟩ := List.map_eq_singleton_iff.mp handed
  obtain ⟨uid, completed⟩ := Prod.mk.inj same
  obtain ⟨delivered, once, ids⟩ := List.map_eq_singleton_iff.mp completed
  exact ⟨refresh, delivered, alone, uid, once, ids⟩

/-- The list handed over is that of the moment before the second post. -/
theorem refresh_reads_one_moment_crossing : ∃ s refresh delivered first rest middle,
    run (Live.step countingIds) (Live.start amysHome) (amysPost 0 ++ postedMeanwhile) = some s ∧
      s.refreshes = [refresh] ∧ refresh.completions = [delivered] ∧
      amysPost 0 ++ postedMeanwhile = first ++ rest ∧
      run (Live.step countingIds) (Live.start amysHome) first = some middle ∧
      Delivers middle.posts.database refresh delivered := by
  obtain ⟨old, s, ran, went, -, -, handed, -⟩ := postedMeanwhile_runs
  have whole : run (Live.step countingIds) (Live.start amysHome)
      (amysPost 0 ++ postedMeanwhile) = some s := by
    rw [run_append, ran, Option.bind_some, went]
  obtain ⟨refresh, delivered, alone, -, once, -⟩ := amysRefresh handed
  have started : s.refreshes[0]? = some refresh := by rw [alone]; rfl
  obtain ⟨-, -, -, -, -, moments⟩ := refresh_reads_one_moment amysHome_fresh amysHome_zones
    amysHome_homes.inOrder postedMeanwhile_proper whole started
  obtain ⟨first, rest, middle, split, reached, -, delivers⟩ := moments delivered (by simp [once])
  exact ⟨s, refresh, delivered, first, rest, middle, whole, alone, once, split, reached, delivers⟩

end Example

/-- A refresh misses nothing that was there before it began: neither a request of
    the user that had been reported as sent, nor one that an earlier refresh of
    the user has listed. -/
theorem later_refresh_lists {autoId : Nat → String} {database : Json}
    (fresh : FreshIds autoId database) (zones : KeyZones database)
    (inOrder : ∀ uid, InOrder database uid)
    {earlier later : List LiveEvent} (proper : ∀ event ∈ earlier ++ later, event.Proper)
    {old s : Live} (ran : run (Live.step autoId) (Live.start database) earlier = some old)
    (went : run (Live.step autoId) old later = some s) {k : Nat} {refresh : LiveRefresh}
    (started : s.refreshes[k]? = some refresh) (new : old.refreshes.length ≤ k)
    {delivered : List Request} (brought : delivered ∈ refresh.completions) :
    (∀ call ∈ old.posts.calls, call.uid = refresh.uid → call.completions = [true] →
      ∃ key ∈ call.keys, some (autoId key) ∈ delivered.map Request.id) ∧
    ∀ seen ∈ old.refreshes, seen.uid = refresh.uid → ∀ listed ∈ seen.completions,
      ∀ request ∈ listed, request.id ∈ delivered.map Request.id := by
  have whole : run (Live.step autoId) (Live.start database) (earlier ++ later) = some s := by
    rw [run_append, ran, Option.bind_some, went]
  obtain ⟨-, explained⟩ := Live.run_moment fresh zones inOrder proper whole
  obtain ⟨middle, moment⟩ := explained k refresh started
  have keeps := moment.keeps_since fresh zones ran new
  have delivers := moment.since.delivers brought
  obtain ⟨serving, before⟩ := Live.run_moment fresh zones inOrder
    (fun event member => proper event (List.mem_append_left _ member)) ran
  constructor
  · intro call member own reported
    obtain ⟨zoneid, key, index, sent⟩ := serving.sound.sent member reported
    have zone := zones zoneid sent.zone
    have legal := fresh.key key
    refine ⟨key, sent.drawn, delivers.names keeps zone legal
      (own ▸ indexed_of_get zone sent.indexed) ?_⟩
    rw [requestNode_of_keys zone legal, ← requestPath_of_keys zone legal, sent.stored]
    exact serving.calls call member sent.ids (autoId key)
  · intro seen inside own shown handed request member
    obtain ⟨j, found⟩ := List.mem_iff_getElem?.mp inside
    obtain ⟨past, earlierMoment⟩ := before j seen found
    obtain ⟨requests', gathered', answers'⟩ := (earlierMoment.since.delivers handed).answers
    obtain ⟨i, place⟩ := List.mem_iff_getElem?.mp (gathered'.mem_iff.mp member)
    obtain ⟨⟨zoneID, id⟩, valid, fits, -⟩ := forall₂_set answers' place
    obtain ⟨indexed, -⟩ := mem_validEntries_iff.mp valid
    obtain ⟨zone, legal, served⟩ := earlierMoment.since.inOrder.served indexed
    have name := fits.named
    rw [requestNode_key _ _ legal] at name
    rw [name]
    exact delivers.names (earlierMoment.keeps.trans keeps) zone legal (own ▸ indexed) served

theorem later_refresh_lists_first_post : ∃ old s delivered,
    run (Live.step countingIds) (Live.start amysHome) (amysPost 0) = some old ∧
      run (Live.step countingIds) old postedMeanwhile = some s ∧
      (∃ refresh ∈ s.refreshes, delivered ∈ refresh.completions) ∧
      ∃ call ∈ old.posts.calls, ∃ key ∈ call.keys,
        some (countingIds key) ∈ delivered.map Request.id := by
  obtain ⟨old, s, ran, went, none, posted, handed, -⟩ := postedMeanwhile_runs
  obtain ⟨refresh, delivered, alone, user, once, -⟩ := amysRefresh handed
  obtain ⟨call, only, same⟩ := List.map_eq_singleton_iff.mp posted
  obtain ⟨uid, reported⟩ := Prod.mk.inj same
  have started : s.refreshes[0]? = some refresh := by rw [alone]; rfl
  have brought : delivered ∈ refresh.completions := by simp [once]
  obtain ⟨sent, -⟩ := later_refresh_lists amysHome_fresh amysHome_zones amysHome_homes.inOrder
    postedMeanwhile_proper ran went started (by simp [none]) brought
  have member : call ∈ old.posts.calls := by simp [only]
  exact ⟨old, s, delivered, ran, went, ⟨refresh, by simp [alone], brought⟩, call, member,
    sent call member (uid.trans user.symm) reported⟩

end Kasei.Checkout
