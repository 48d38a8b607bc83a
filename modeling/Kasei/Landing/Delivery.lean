import Kasei.Landing.Fetch

/-! # One complete delivery

The list of requests is handed over once, when nothing is outstanding, and it
holds a request for every index entry that has one. The counters carry the
argument: at zero every call has finished, and a finished call has brought what
its node and the catalogue hold.
-/

namespace Kasei.Landing

open JsonTree FanIn Runs

/-- The zone and id of an index entry, if its node has the four fields. -/
def validEntry (database : Json) (zoneID : String) (requestIDSnap : DataSnapshot) :
    Option (String × String) := do
  let id ← asString requestIDSnap.value
  if (decodeHead (requestNode database zoneID id)).isSome then some (zoneID, id) else none

def validEntries (database : Json) (zoneSnaps : List DataSnapshot) : List (String × String) :=
  zoneSnaps.flatMap fun zoneSnap => zoneSnap.children.filterMap (validEntry database zoneSnap.key)

/-- One request for each entry, in the order of the entries. -/
def Answers (database : Json) (languageCode : Option String) (entries : List (String × String))
    (requests : List Request) : Prop :=
  List.Forall₂ (fun entry request => RequestFor database languageCode entry.1 entry.2 request)
    entries requests

theorem Answers.ids {database : Json} {languageCode : Option String}
    {entries : List (String × String)} {requests : List Request}
    (answers : Answers database languageCode entries requests) :
    requests.map Request.id =
      entries.map fun entry => some (requestNode database entry.1 entry.2).key := by
  induction answers with
  | nil => rfl
  | cons here later ih => rw [List.map_cons, List.map_cons, here.named, ih]

theorem Answers.named {database : Json} {languageCode : Option String}
    {entries : List (String × String)} {requests : List Request}
    (answers : Answers database languageCode entries requests) :
    ∀ request ∈ requests, request.id ≠ none := by
  intro request member
  have listed := List.mem_map_of_mem (f := Request.id) member
  rw [answers.ids] at listed
  obtain ⟨entry, -, same⟩ := List.mem_map.mp listed
  simp [← same]

section Complete

variable {database : Json} {languageCode : Option String} {zoneSnaps : List DataSnapshot}
  {fan : FanOut}

/-- The counters at zero: every loop is over and every call has finished. -/
theorem FanOut.Sound.complete (sound : fan.Sound database languageCode zoneSnaps)
    (done : fan.finished = true) :
    fan.ahead = [] ∧ ∀ zone ∈ fan.zones, zone.ahead = [] ∧ zone.calls ≠ [] ∧
      ∀ call ∈ zone.calls, call.finished = true := by
  have zero := (FanOut.finished_iff.mp done).1
  rw [sound.counted, Nat.add_eq_zero_iff, List.length_eq_zero_iff, pending_eq_zero] at zero
  refine ⟨zero.1, fun zone member => ?_⟩
  obtain ⟨zoneSnap, -, zoneSound⟩ := sound.zone_sound member
  obtain ⟨none, calls⟩ := ZoneCall.finished_iff.mp (zero.2 zone member)
  rw [zoneSound.counted, Nat.add_eq_zero_iff, List.length_eq_zero_iff, pending_eq_zero] at none
  exact ⟨none.1, calls, none.2⟩

theorem answers_of_calls {zoneID : String} {issued : List DataSnapshot} {calls : List GetRequest}
    (made : List.Forall₂ (Asked database languageCode zoneID) issued calls)
    (done : ∀ call ∈ calls, call.finished = true) :
    Answers database languageCode (issued.filterMap (validEntry database zoneID))
      (calls.filterMap GetRequest.result) := by
  induction made with
  | nil => exact .nil
  | @cons requestIDSnap call _ _ here later ih =>
      have rest := ih fun other member => done other (List.mem_cons_of_mem call member)
      obtain ⟨id, named, -, sound⟩ := here
      obtain ⟨absent, nothing⟩ | ⟨request, brought, fits⟩ :=
        sound.result_spec (done call List.mem_cons_self)
      · have skipped : validEntry database zoneID requestIDSnap = none := by
          simp [validEntry, named, absent]
        rwa [List.filterMap_cons_none skipped, List.filterMap_cons_none nothing]
      · have kept : validEntry database zoneID requestIDSnap = some (zoneID, id) := by
          obtain ⟨head, decoded, -⟩ := fits
          simp [validEntry, named, decoded]
        rw [List.filterMap_cons_some kept, List.filterMap_cons_some brought]
        exact .cons fits rest

theorem answers_of_zones {reached : List DataSnapshot} {zones : List ZoneCall}
    (made : List.Forall₂ (ZoneCall.Sound database languageCode) reached zones)
    (done : ∀ zone ∈ zones, zone.ahead = [] ∧ ∀ call ∈ zone.calls, call.finished = true) :
    Answers database languageCode (validEntries database reached)
      (zones.flatMap ZoneCall.results) := by
  induction made with
  | nil => exact .nil
  | @cons zoneSnap zone _ _ here later ih =>
      have rest := ih fun other member => done other (List.mem_cons_of_mem zone member)
      obtain ⟨loopsDone, finished⟩ := done zone List.mem_cons_self
      obtain ⟨issued, children, calls⟩ := here.started
      rw [loopsDone, List.append_nil] at children
      simp only [validEntries, List.flatMap_cons, children]
      exact List.rel_append (answers_of_calls calls finished) rest

theorem FanOut.Sound.answers (sound : fan.Sound database languageCode zoneSnaps)
    (done : fan.finished = true) :
    ∃ requests, fan.requests.Perm requests ∧
      Answers database languageCode (validEntries database zoneSnaps) requests := by
  obtain ⟨loopsDone, zones⟩ := sound.complete done
  obtain ⟨reached, snaps, made⟩ := sound.started
  rw [loopsDone, List.append_nil] at snaps
  refine ⟨fan.zones.reverse.flatMap ZoneCall.results,
    sound.gathered.trans ((List.reverse_perm fan.zones).symm.flatMap_right _), ?_⟩
  rw [snaps]
  apply answers_of_zones (List.forall₂_reverse_iff.mpr made)
  intro zone member
  obtain ⟨settled, -, finished⟩ := zones zone (List.mem_reverse.mp member)
  exact ⟨settled, finished⟩

theorem FanOut.Sound.idle (sound : fan.Sound database languageCode zoneSnaps)
    (done : fan.finished = true) : fan.work database = 0 := by
  obtain ⟨loopsDone, zones⟩ := sound.complete done
  simp only [work, loopsDone, total_nil, Nat.add_zero, total_eq_zero]
  intro zone member
  obtain ⟨settled, -, finished⟩ := zones zone member
  simp only [ZoneCall.work, settled, total_nil, Nat.add_zero, total_eq_zero]
  intro call inside
  obtain ⟨zoneSnap, -, zoneSound⟩ := sound.zone_sound member
  obtain ⟨requestIDSnap, -, id, -, -, callSound⟩ := zoneSound.call_sound inside
  exact (callSound.finished_iff.mp (finished call inside)).1

end Complete

section Delivered

variable {database : Json} {currentUser : Option String}

theorem Fetch.Sound.delivered {languageCode : Option String} {fetch : Fetch}
    (sound : fetch.Sound database languageCode currentUser) (done : fetch.finished = true) :
    fetch.work database = 0 ∧ ∃ uid, currentUser = some uid ∧ ∃ requests,
      fetch.result.Perm requests ∧
      Answers database languageCode (validEntries database (indexNode database uid).children)
        requests := by
  cases fetch with
  | signedOut | readingIndex | aborted => cases done
  | noIndex =>
      obtain ⟨uid, user, absent⟩ := sound
      exact ⟨rfl, uid, user, [], .refl _, by rw [children_of_absent absent]; exact .nil⟩
  | fanOut fan =>
      obtain ⟨uid, user, -, fanSound⟩ := sound
      exact ⟨fanSound.idle done, uid, user, fanSound.answers done⟩

/-- What a fetch has delivered, whatever the order of the answers was. -/
theorem fetch_recorded {languageCode : Option String} {events : List FetchEvent} {fetch : Fetch}
    {completions : List (List Request)}
    (ran : run (recording (Fetch.step database languageCode))
      (fetchAllUserRequests currentUser, []) events = some (fetch, completions)) :
    completions = deliveries Fetch.finished Fetch.result fetch ∧
      fetch.Sound database languageCode currentUser := by
  have start : run (recording (Fetch.step database languageCode))
      (fetchAllUserRequests currentUser,
        deliveries Fetch.finished Fetch.result (fetchAllUserRequests currentUser)) events =
      some (fetch, completions) := by
    rw [fetchAllUserRequests_unfinished]
    exact ran
  exact recording_run (fun _ _ _ _ sound taken => Fetch.step_sound sound taken)
    (fetchAllUserRequests_sound database languageCode currentUser) start

theorem fetch_recorded_total {languageCode : Option String}
    (readable : ∀ uid, currentUser = some uid →
      Readable database languageCode (indexNode database uid).children)
    (events : List FetchEvent) :
    ∃ fetch, run (recording (Fetch.step database languageCode))
        (fetchAllUserRequests currentUser, []) events =
          some (fetch, deliveries Fetch.finished Fetch.result fetch) ∧
      fetch.Sound database languageCode currentUser := by
  have spec : ∀ call event, call.Sound database languageCode currentUser →
      ∃ after delivered, Fetch.step database languageCode call event = some (after, delivered) ∧
        after.Sound database languageCode currentUser ∧
        Outcome Fetch.finished Fetch.result call after delivered := by
    intro call event held
    obtain ⟨after, delivered, taken⟩ := Fetch.step_total readable held event
    exact ⟨after, delivered, taken, Fetch.step_sound held taken⟩
  have ran := recording_total spec
    (fetchAllUserRequests_sound database languageCode currentUser) events
  rwa [fetchAllUserRequests_unfinished] at ran

/-- In every order of answers no counter traps, and the list is delivered at
    most once, when nothing is outstanding, with one request for each index
    entry whose node has the four fields. -/
theorem fetchAllUserRequests_delivers (languageCode : Option String)
    (typed : ∀ uid, currentUser = some uid → WellTyped database (indexNode database uid).children)
    (events : List FetchEvent) :
    ∃ fetch completions,
      run (recording (Fetch.step database languageCode)) (fetchAllUserRequests currentUser, [])
        events = some (fetch, completions) ∧
      completions.length ≤ 1 ∧
      ∀ delivered ∈ completions, fetch.work database = 0 ∧
        ∃ uid, currentUser = some uid ∧ ∃ requests, delivered.Perm requests ∧
          Answers database languageCode (validEntries database (indexNode database uid).children)
            requests := by
  obtain ⟨fetch, ran, sound⟩ :=
    fetch_recorded_total (fun uid user => (typed uid user).readable languageCode) events
  refine ⟨fetch, _, ran, ?_, ?_⟩
  · unfold deliveries
    split <;> simp
  · intro delivered member
    unfold deliveries at member
    split at member
    · rename_i done
      obtain rfl := List.mem_singleton.mp member
      exact sound.delivered done
    · cases member

end Delivered

section Example

private def storedRequest (content : List (String × Json)) : Json :=
  .obj [("dateCreated", .double 1), ("content", .obj content), ("delSlotStart", .int 2000),
    ("senderID", .str "amy"), ("status", .str "sent")]

/-- Two zones: one request with two items, one of them not in the catalogue, and
    one entry whose node is missing. -/
private def amysRequests : Json :=
  .obj [("userRequests", .obj [("amy", .obj
      [("north", .obj [("x1", .str "r1")]), ("south", .obj [("x2", .str "gone")])])]),
    ("requests", .obj [("north", .obj
      [("r1", storedRequest [("milk", .int 2), ("rice", .int 1)])])]),
    ("items", .obj [("milk", .obj
      [("name", .str "Milk"), ("icon", .str "box"), ("bgCol", .str "blue")])])]

private theorem amysRequests_typed (uid : String) (user : some "amy" = some uid) :
    WellTyped amysRequests (indexNode amysRequests uid).children := by
  obtain rfl := Option.some.inj user
  have quantities : ∀ zoneSnap ∈ (indexNode amysRequests "amy").children,
      ∀ requestIDSnap ∈ zoneSnap.children, ∀ id ∈ asString requestIDSnap.value,
      ∀ childSnap ∈ contentOf amysRequests zoneSnap.key id, asInt childSnap.value ≠ none := by
    decide
  exact ⟨by decide, quantities⟩

/-- The answers of the two zones interleave with the loops, and the item reads
    come in the opposite order. -/
private def interleaved : List FetchEvent :=
  [.index, .turn, .turn, .call 0 0 .node, .call 0 0 (.content .turn), .turn, .turn,
    .call 1 0 (.content .turn), .call 1 0 (.content (.answer 1)), .call 0 0 .node,
    .call 1 0 (.content (.answer 0))]

theorem fetchAllUserRequests_delivers_interleaved :
    ∃ fetch delivered, run (recording (Fetch.step amysRequests none))
        (fetchAllUserRequests (some "amy"), []) interleaved = some (fetch, [delivered]) ∧
      ∃ requests, delivered.Perm requests ∧
        Answers amysRequests none [("north", "r1")] requests := by
  obtain ⟨fetch, completions, ran, -, answered⟩ :=
    fetchAllUserRequests_delivers none amysRequests_typed interleaved
  have once : (run (recording (Fetch.step amysRequests none))
      (fetchAllUserRequests (some "amy"), []) interleaved).map (fun state => state.2.length) =
      some 1 := by decide
  rw [ran, Option.map_some, Option.some.injEq] at once
  obtain ⟨delivered, rfl⟩ := List.length_eq_one_iff.mp once
  obtain ⟨-, uid, user, requests, same, answers⟩ := answered delivered List.mem_cons_self
  obtain rfl := Option.some.inj user
  exact ⟨fetch, delivered, ran, requests, same, answers⟩

end Example

end Kasei.Landing
