import Kasei.Models.GetRequest

/-! # Fetching all requests of a user

`fetchAllUserRequests` reads the index of the signed-in user and starts one
`getRequest` per entry from two nested loops. Three levels of counters decide
when the list is complete: zones, requests in a zone, and items in a request.
As in `getRequest`, an event is one turn of a loop or one answer. An id for which
`child:` throws ends the app, and the fetch with it.
-/

namespace Kasei.Landing

open JsonTree FanIn

/-- One turn of the outer loop: `requestCount`, the index entries the inner loop
    has not reached, and the calls it has made. -/
structure ZoneCall where
  zoneID : String
  requestCount : Nat
  ahead : List DataSnapshot
  calls : List GetRequest
  deriving Repr

/-- The captured variables and the position of the outer loop; the zone it is in
    comes first. -/
structure FanOut where
  requests : List Request
  zoneCount : Nat
  ahead : List DataSnapshot
  zones : List ZoneCall
  deriving Repr

def ZoneCall.start (zoneChildSnap : DataSnapshot) : ZoneCall :=
  ⟨zoneChildSnap.key, zoneChildSnap.childrenCount, zoneChildSnap.children, []⟩

/-- One turn of the inner loop of the current zone or, when that is over, of the
    outer one. An id that is not a string traps. -/
def FanOut.turn (fan : FanOut) : Option FanOut :=
  match fan.zones with
  | ⟨zoneID, requestCount, requestIDSnap :: rest, calls⟩ :: earlier => do
      let id ← asString requestIDSnap.value
      return { fan with
        zones := ⟨zoneID, requestCount, rest, calls ++ [getRequest zoneID id]⟩ :: earlier }
  | _ =>
      match fan.ahead with
      | [] => some fan
      | zoneChildSnap :: rest =>
          some { fan with ahead := rest, zones := .start zoneChildSnap :: fan.zones }

/-- `child:` throws for the request that the next turn of the inner loop reads. -/
def FanOut.throws (fan : FanOut) : Bool :=
  match fan.zones with
  | ⟨zoneID, _, requestIDSnap :: _, _⟩ :: _ =>
      (asString requestIDSnap.value).any fun id => !isValidPathString s!"requests/{zoneID}/{id}"
  | _ => false

/-- The closure that receives the result of a `getRequest`. -/
def FanOut.received (fan : FanOut) (index : Nat) (zone : ZoneCall) (r : Option Request) :
    Option (FanOut × Option (List Request)) := do
  let requests := fan.requests ++ r.toList
  let requestCount ← decrement zone.requestCount
  let zoneCount ← if requestCount = 0 then decrement fan.zoneCount else some fan.zoneCount
  let after := { fan with
    requests := requests, zoneCount := zoneCount
    zones := fan.zones.set index { zone with requestCount := requestCount } }
  return (after, if zoneCount = 0 ∧ requestCount = 0 then some requests else none)

/-- An event of one of the calls. -/
def FanOut.call (database : Json) (languageCode : Option String) (fan : FanOut)
    (index position : Nat) (event : RequestEvent) : Option (FanOut × Option (List Request)) :=
  match fan.zones[index]? with
  | none => some (fan, none)
  | some zone =>
      match zone.calls[position]? with
      | none => some (fan, none)
      | some call => do
          let (call, delivered) ← call.step database languageCode event
          let zone := { zone with calls := zone.calls.set position call }
          match delivered with
          | none => return ({ fan with zones := fan.zones.set index zone }, none)
          | some r => fan.received index zone r

inductive Fetch where
  | signedOut
  | readingIndex (uid : String)
  | noIndex
  | fanOut (fan : FanOut)
  | aborted
  deriving Repr

inductive FetchEvent where
  | index
  | turn
  | call (zone position : Nat) (event : RequestEvent)
  deriving Repr, DecidableEq

def indexNode (database : Json) (uid : String) : DataSnapshot :=
  observeSingleEvent database ["userRequests"] uid

/-- Without a user the guard returns and nothing is started. -/
def fetchAllUserRequests (currentUser : Option String) : Fetch :=
  match currentUser with
  | none => .signedOut
  | some uid => .readingIndex uid

def Fetch.step (database : Json) (languageCode : Option String) :
    Fetch → FetchEvent → Option (Fetch × Option (List Request))
  | .readingIndex uid, .index =>
      let snapshot := indexNode database uid
      if snapshot.isPresent then
        some (.fanOut ⟨[], snapshot.childrenCount, snapshot.children, []⟩, none)
      else some (.noIndex, some [])
  | .fanOut fan, .turn =>
      if fan.throws then some (.aborted, none)
      else fan.turn.map fun after => (.fanOut after, none)
  | .fanOut fan, .call zone position event => do
      let (after, delivered) ← fan.call database languageCode zone position event
      return (.fanOut after, delivered)
  | fetch, _ => some (fetch, none)

/-- What is still to happen: turns of the loops and answers, also of the calls
    that the loops have not made yet. -/
def ZoneCall.work (database : Json) (zone : ZoneCall) : Nat :=
  total (GetRequest.work database) zone.calls +
    total (fun requestIDSnap => 1 + (match asString requestIDSnap.value with
      | some id => (getRequest zone.zoneID id).work database
      | none => 0)) zone.ahead

def FanOut.work (database : Json) (fan : FanOut) : Nat :=
  total (ZoneCall.work database) fan.zones +
    total (fun zoneSnap => 1 + (ZoneCall.start zoneSnap).work database) fan.ahead

def Fetch.work (database : Json) : Fetch → Nat
  | .readingIndex uid =>
      1 + total (fun zoneSnap => 1 + (ZoneCall.start zoneSnap).work database)
        (indexNode database uid).children
  | .fanOut fan => fan.work database
  | _ => 0

/-- The leaves have the types that the casts by force expect. -/
structure WellTyped (database : Json) (zoneSnaps : List DataSnapshot) : Prop where
  ids : ∀ zoneSnap ∈ zoneSnaps, ∀ requestIDSnap ∈ zoneSnap.children,
    asString requestIDSnap.value ≠ none
  quantities : ∀ zoneSnap ∈ zoneSnaps, ∀ requestIDSnap ∈ zoneSnap.children,
    ∀ id, asString requestIDSnap.value = some id → IntegerQuantities database zoneSnap.key id

/-- The casts by force that a fetch reaches succeed. -/
structure Readable (database : Json) (languageCode : Option String)
    (zoneSnaps : List DataSnapshot) : Prop where
  ids : ∀ zoneSnap ∈ zoneSnaps, ∀ requestIDSnap ∈ zoneSnap.children,
    asString requestIDSnap.value ≠ none
  contents : ∀ zoneSnap ∈ zoneSnaps, ∀ requestIDSnap ∈ zoneSnap.children,
    ∀ id, asString requestIDSnap.value = some id →
      Legible database languageCode zoneSnap.key id

theorem WellTyped.readable {database : Json} {zoneSnaps : List DataSnapshot}
    (typed : WellTyped database zoneSnaps) (languageCode : Option String) :
    Readable database languageCode zoneSnaps where
  ids := typed.ids
  contents := fun zoneSnap here requestIDSnap inside id named =>
    (typed.quantities zoneSnap here requestIDSnap inside id named).legible languageCode

def ZoneCall.finished (zone : ZoneCall) : Bool := zone.requestCount == 0 && !zone.calls.isEmpty

def FanOut.finished (fan : FanOut) : Bool := fan.zoneCount == 0 && !fan.zones.isEmpty

/-- `child:` takes the path of the request. -/
def TakesPath (zoneID id : String) : Prop := isValidPathString s!"requests/{zoneID}/{id}" = true

theorem takesPath_of_keys {zoneID id : String} (zone : isValidKey zoneID = true)
    (key : isValidKey id = true) : TakesPath zoneID id := by
  have cut : s!"requests/{zoneID}/{id}" = "requests/" ++ (zoneID ++ "/" ++ id) := by
    simp only [String.append_assoc]
    rfl
  have slash : inPath "/" = true := by decide
  rw [TakesPath, cut, isValidPathString_append (by decide), inPath_append, inPath_append,
    inPath_of_key zone, inPath_of_key key, slash]
  rfl

/-- An index entry and the call made for it. -/
def Asked (database : Json) (languageCode : Option String) (zoneID : String)
    (requestIDSnap : DataSnapshot) (call : GetRequest) : Prop :=
  ∃ id, asString requestIDSnap.value = some id ∧ TakesPath zoneID id ∧
    call.Sound database languageCode zoneID id

structure ZoneCall.Sound (database : Json) (languageCode : Option String)
    (zoneSnap : DataSnapshot) (zone : ZoneCall) : Prop where
  named : zone.zoneID = zoneSnap.key
  counted : zone.requestCount = zone.ahead.length + pending GetRequest.finished zone.calls
  started : ∃ issued, zoneSnap.children = issued ++ zone.ahead ∧
    List.Forall₂ (Asked database languageCode zoneSnap.key) issued zone.calls

/-- The results a zone has brought so far. -/
def ZoneCall.results (zone : ZoneCall) : List Request := zone.calls.filterMap GetRequest.result

structure FanOut.Sound (database : Json) (languageCode : Option String)
    (zoneSnaps : List DataSnapshot) (fan : FanOut) : Prop where
  counted : fan.zoneCount = fan.ahead.length + pending ZoneCall.finished fan.zones
  started : ∃ reached, zoneSnaps = reached.reverse ++ fan.ahead ∧
    List.Forall₂ (ZoneCall.Sound database languageCode) reached fan.zones
  gathered : fan.requests.Perm (fan.zones.flatMap ZoneCall.results)
  settled : ∀ zone ∈ fan.zones.tail, zone.ahead = []

section Zones

variable {database : Json} {languageCode : Option String} {zoneSnap : DataSnapshot}
  {zone : ZoneCall}

theorem ZoneCall.finished_iff :
    zone.finished = true ↔ zone.requestCount = 0 ∧ zone.calls ≠ [] := by
  simp [ZoneCall.finished]

theorem ZoneCall.start_unfinished (zoneSnap : DataSnapshot) :
    (ZoneCall.start zoneSnap).finished = false := by
  simp [ZoneCall.finished, ZoneCall.start]

theorem ZoneCall.start_sound (zoneSnap : DataSnapshot) :
    (ZoneCall.start zoneSnap).Sound database languageCode zoneSnap where
  named := rfl
  counted := rfl
  started := ⟨[], rfl, .nil⟩

theorem ZoneCall.Sound.issue {requestIDSnap : DataSnapshot} {rest : List DataSnapshot}
    {id : String} (sound : zone.Sound database languageCode zoneSnap)
    (next : zone.ahead = requestIDSnap :: rest) (named : asString requestIDSnap.value = some id)
    (takes : TakesPath zone.zoneID id) :
    ZoneCall.Sound database languageCode zoneSnap
      { zone with ahead := rest, calls := zone.calls ++ [getRequest zone.zoneID id] } where
  named := sound.named
  counted := by
    have counted := sound.counted
    simp only [next, List.length_cons, pending, total_append, total_cons, total_nil, getRequest,
      GetRequest.finished, Bool.not_false, Bool.toNat_true] at counted ⊢
    omega
  started := by
    obtain ⟨issued, children, made⟩ := sound.started
    refine ⟨issued ++ [requestIDSnap], by rw [children, next, List.append_assoc]; rfl, ?_⟩
    exact List.rel_append made (.cons ⟨id, named, sound.named ▸ takes, sound.named, rfl⟩ .nil)

theorem ZoneCall.Sound.call_sound {call : GetRequest}
    (sound : zone.Sound database languageCode zoneSnap) (member : call ∈ zone.calls) :
    ∃ requestIDSnap ∈ zoneSnap.children,
      Asked database languageCode zoneSnap.key requestIDSnap call := by
  obtain ⟨issued, children, made⟩ := sound.started
  obtain ⟨i, found⟩ := List.mem_iff_getElem?.mp member
  obtain ⟨requestIDSnap, inside, asked, -⟩ := forall₂_set made found
  exact ⟨requestIDSnap, by simp [children, inside], asked⟩

end Zones

section Fan

variable {database : Json} {languageCode : Option String} {zoneSnaps : List DataSnapshot}
  {fan : FanOut}

theorem FanOut.finished_iff : fan.finished = true ↔ fan.zoneCount = 0 ∧ fan.zones ≠ [] := by
  simp [FanOut.finished]

theorem FanOut.start_unfinished {count : Nat} {zoneSnaps : List DataSnapshot} :
    FanOut.finished ⟨[], count, zoneSnaps, []⟩ = false := by
  simp [FanOut.finished]

theorem FanOut.start_sound (zoneSnaps : List DataSnapshot) :
    FanOut.Sound database languageCode zoneSnaps ⟨[], zoneSnaps.length, zoneSnaps, []⟩ where
  counted := rfl
  started := ⟨[], rfl, .nil⟩
  gathered := .refl _
  settled := by simp

theorem FanOut.Sound.zone_sound {zone : ZoneCall}
    (sound : fan.Sound database languageCode zoneSnaps) (member : zone ∈ fan.zones) :
    ∃ zoneSnap ∈ zoneSnaps, zone.Sound database languageCode zoneSnap := by
  obtain ⟨reached, snaps, made⟩ := sound.started
  obtain ⟨i, found⟩ := List.mem_iff_getElem?.mp member
  obtain ⟨zoneSnap, inside, zoneSound, -⟩ := forall₂_set made found
  exact ⟨zoneSnap, by simp [snaps, inside], zoneSound⟩

/-- While a zone is not reached or not finished, neither is the fan-out. -/
theorem FanOut.Sound.unfinished (sound : fan.Sound database languageCode zoneSnaps)
    (busy : fan.ahead ≠ [] ∨ ∃ zone ∈ fan.zones, zone.finished = false) : fan.finished = false := by
  rw [Bool.eq_false_iff]
  intro done
  have none := (FanOut.finished_iff.mp done).1
  rw [sound.counted, Nat.add_eq_zero_iff, List.length_eq_zero_iff, pending_eq_zero] at none
  obtain unreached | ⟨zone, member, waiting⟩ := busy
  · exact unreached none.1
  · rw [none.2 zone member] at waiting
    cases waiting

theorem FanOut.Sound.enter {zoneSnap : DataSnapshot} {rest : List DataSnapshot}
    (sound : fan.Sound database languageCode zoneSnaps) (next : fan.ahead = zoneSnap :: rest)
    (loopsDone : ∀ zone ∈ fan.zones, zone.ahead = []) :
    FanOut.Sound database languageCode zoneSnaps
      { fan with ahead := rest, zones := .start zoneSnap :: fan.zones } where
  counted := by
    have counted := sound.counted
    simp only [next, List.length_cons] at counted
    simp only [counted, pending, total_cons, ZoneCall.start_unfinished, Bool.not_false,
      Bool.toNat_true]
    omega
  started := by
    obtain ⟨reached, snaps, made⟩ := sound.started
    exact ⟨zoneSnap :: reached, by simp [snaps, next], .cons (ZoneCall.start_sound zoneSnap) made⟩
  gathered := by simpa [ZoneCall.results, ZoneCall.start] using sound.gathered
  settled := loopsDone

theorem FanOut.Sound.issue {zone : ZoneCall} {earlier : List ZoneCall}
    {requestIDSnap : DataSnapshot} {rest : List DataSnapshot} {id : String}
    (sound : fan.Sound database languageCode zoneSnaps) (zones : fan.zones = zone :: earlier)
    (next : zone.ahead = requestIDSnap :: rest) (named : asString requestIDSnap.value = some id)
    (takes : TakesPath zone.zoneID id) :
    FanOut.Sound database languageCode zoneSnaps { fan with
      zones := { zone with
        ahead := rest, calls := zone.calls ++ [getRequest zone.zoneID id] } :: earlier } := by
  obtain ⟨counted, ⟨reached, snaps, made⟩, gathered, settled⟩ := sound
  rw [zones] at counted made gathered settled
  cases made with
  | cons here later =>
      have waiting := here.counted
      simp only [next, List.length_cons] at waiting
      refine ⟨?_, ⟨_, snaps, .cons (here.issue next named takes) later⟩, ?_, settled⟩
      · have same : (zone.requestCount == 0) = false := by simp [waiting]
        simpa [pending, ZoneCall.finished, same] using counted
      · simpa [ZoneCall.results, getRequest, GetRequest.result, List.filterMap_cons] using gathered

/-- A turn of the loops changes nothing that the caller sees. -/
theorem FanOut.turn_sound (sound : fan.Sound database languageCode zoneSnaps) {after : FanOut}
    (passes : fan.throws = false) (turned : fan.turn = some after) :
    after.Sound database languageCode zoneSnaps ∧
      after.finished = fan.finished ∧ after.requests = fan.requests := by
  obtain ⟨requests, zoneCount, ahead, zones⟩ := fan
  cases zones with
  | nil =>
      cases ahead with
      | nil =>
          obtain rfl := Option.some.inj turned
          exact ⟨sound, rfl, rfl⟩
      | cons zoneSnap rest =>
          obtain rfl := Option.some.inj turned
          have entered := sound.enter rfl (by simp)
          refine ⟨entered, ?_, rfl⟩
          rw [entered.unfinished (.inr ⟨_, List.mem_cons_self, ZoneCall.start_unfinished zoneSnap⟩),
            sound.unfinished (.inl (by simp))]
  | cons zone earlier =>
      obtain ⟨zoneID, requestCount, unreached, calls⟩ := zone
      cases unreached with
      | nil =>
          cases ahead with
          | nil =>
              obtain rfl := Option.some.inj turned
              exact ⟨sound, rfl, rfl⟩
          | cons zoneSnap rest =>
              obtain rfl := Option.some.inj turned
              exact ⟨sound.enter rfl (by simpa using sound.settled), rfl, rfl⟩
      | cons requestIDSnap rest =>
          obtain ⟨id, named, last⟩ := Option.bind_eq_some_iff.mp turned
          obtain rfl := Option.some.inj last
          have takes : TakesPath zoneID id := by simpa [TakesPath, throws, named] using passes
          exact ⟨sound.issue rfl rfl named takes, rfl, rfl⟩

/-- A call that throws is the first of its zone that has not been made. -/
theorem FanOut.Sound.of_throws (sound : fan.Sound database languageCode zoneSnaps)
    (throws : fan.throws = true) :
    fan.finished = false ∧ ∃ zoneSnap ∈ zoneSnaps, ∃ requestIDSnap ∈ zoneSnap.children, ∃ id,
      asString requestIDSnap.value = some id ∧ ¬ TakesPath zoneSnap.key id := by
  obtain ⟨requests, zoneCount, ahead, zones⟩ := fan
  cases zones with
  | nil => cases throws
  | cons zone earlier =>
      obtain ⟨zoneID, requestCount, unreached, calls⟩ := zone
      cases unreached with
      | nil => cases throws
      | cons requestIDSnap rest =>
          obtain ⟨id, named, illegal⟩ := (Option.any_eq_true _ _).mp throws
          obtain ⟨reached, snaps, made⟩ := sound.started
          cases made with
          | @cons zoneSnap _ _ _ here later =>
              obtain ⟨issued, children, -⟩ := here.started
              obtain rfl : zoneID = zoneSnap.key := here.named
              have counted := here.counted
              simp only [List.length_cons] at counted
              refine ⟨sound.unfinished (.inr ⟨_, List.mem_cons_self, ?_⟩), zoneSnap,
                by simp [snaps], requestIDSnap, by simp [children], id, named, ?_⟩
              · simp only [ZoneCall.finished, Bool.and_eq_false_iff, beq_eq_false_iff_ne]
                exact .inl (by omega)
              · simpa [TakesPath] using illegal

theorem FanOut.turn_total (readable : Readable database languageCode zoneSnaps)
    (sound : fan.Sound database languageCode zoneSnaps) : ∃ after, fan.turn = some after := by
  obtain ⟨requests, zoneCount, ahead, zones⟩ := fan
  cases zones with
  | nil => cases ahead <;> exact ⟨_, rfl⟩
  | cons zone earlier =>
      obtain ⟨zoneID, requestCount, unreached, calls⟩ := zone
      cases unreached with
      | nil => cases ahead <;> exact ⟨_, rfl⟩
      | cons requestIDSnap rest =>
          obtain ⟨reached, snaps, made⟩ := sound.started
          cases made with
          | @cons zoneSnap _ _ _ here later =>
              obtain ⟨issued, children, -⟩ := here.started
              obtain ⟨id, named⟩ := Option.ne_none_iff_exists'.mp
                (readable.ids zoneSnap (by simp [snaps]) requestIDSnap (by simp [children]))
              exact ⟨_, by simp only [turn, named]; rfl⟩

theorem FanOut.Sound.call_made {index position : Nat} {zone : ZoneCall} {call : GetRequest}
    (sound : fan.Sound database languageCode zoneSnaps)
    (found : fan.zones[index]? = some zone) (asked : zone.calls[position]? = some call) :
    ∃ zoneSnap ∈ zoneSnaps, ∃ requestIDSnap ∈ zoneSnap.children, ∃ id,
      asString requestIDSnap.value = some id ∧ TakesPath zoneSnap.key id ∧
      call.Sound database languageCode zoneSnap.key id ∧
      zone.requestCount = zone.ahead.length + pending GetRequest.finished zone.calls ∧
      ∀ after requestCount, after.Sound database languageCode zoneSnap.key id →
        requestCount = zone.ahead.length +
          pending GetRequest.finished (zone.calls.set position after) →
        ∃ reached, zoneSnaps = reached.reverse ++ fan.ahead ∧
          List.Forall₂ (ZoneCall.Sound database languageCode) reached (fan.zones.set index
            { zone with
              requestCount := requestCount, calls := zone.calls.set position after }) := by
  obtain ⟨reached, snaps, made⟩ := sound.started
  obtain ⟨zoneSnap, here, zoneSound, replaceZone⟩ := forall₂_set made found
  obtain ⟨issued, children, calls⟩ := zoneSound.started
  obtain ⟨requestIDSnap, inside, ⟨id, named, takes, callSound⟩, replaceCall⟩ :=
    forall₂_set calls asked
  refine ⟨zoneSnap, by simp [snaps, here], requestIDSnap, by simp [children, inside], id, named,
    takes, callSound, zoneSound.counted, ?_⟩
  intro after requestCount kept counted
  refine ⟨reached, snaps, replaceZone _ ⟨zoneSound.named, counted, issued, children, ?_⟩⟩
  exact replaceCall after ⟨id, named, takes, kept⟩

/-- One zone is replaced by its next state, and what it brought is collected. -/
theorem FanOut.Sound.replace {index : Nat} (zoneCount : Nat) {before after : ZoneCall}
    {extra : List Request} (sound : fan.Sound database languageCode zoneSnaps)
    (found : fan.zones[index]? = some before)
    (started : ∃ reached, zoneSnaps = reached.reverse ++ fan.ahead ∧
      List.Forall₂ (ZoneCall.Sound database languageCode) reached (fan.zones.set index after))
    (ahead : after.ahead = before.ahead)
    (counted : zoneCount = fan.ahead.length +
      pending ZoneCall.finished (fan.zones.set index after))
    (brought : after.results.Perm (before.results ++ extra)) :
    FanOut.Sound database languageCode zoneSnaps { fan with
      requests := fan.requests ++ extra, zoneCount := zoneCount
      zones := fan.zones.set index after } where
  counted := counted
  started := started
  gathered := (sound.gathered.append_right extra).trans (gathered_set found brought).symm
  settled := by
    intro zone member
    obtain old | ⟨rfl, inTail⟩ := mem_tail_set found member
    · exact sound.settled zone old
    · exact ahead.trans (sound.settled before inTail)

/-- A call finishes: its zone counts down, and the last zone to reach zero
    delivers the list. -/
theorem FanOut.received_spec {index position : Nat} {zone : ZoneCall} {before after : GetRequest}
    (sound : fan.Sound database languageCode zoneSnaps)
    (found : fan.zones[index]? = some zone) (asked : zone.calls[position]? = some before)
    (was : before.finished = false) (now : after.finished = true)
    (counted : zone.requestCount = zone.ahead.length + pending GetRequest.finished zone.calls)
    (started : ∀ requestCount, requestCount = zone.ahead.length +
        pending GetRequest.finished (zone.calls.set position after) →
      ∃ reached, zoneSnaps = reached.reverse ++ fan.ahead ∧
        List.Forall₂ (ZoneCall.Sound database languageCode) reached (fan.zones.set index
          { zone with requestCount := requestCount, calls := zone.calls.set position after })) :
    ∃ next delivered,
      fan.received index { zone with calls := zone.calls.set position after } after.result =
        some (next, delivered) ∧
      next.Sound database languageCode zoneSnaps ∧
      Outcome FanOut.finished FanOut.requests fan next delivered := by
  have fewer := pending_set_finished asked was now
  have waiting : zone.finished = false := by
    rw [Bool.eq_false_iff, Ne, ZoneCall.finished_iff]
    omega
  have unfinished := sound.unfinished (.inr ⟨zone, List.mem_of_getElem? found, waiting⟩)
  have brought : (zone.calls.set position after |>.filterMap GetRequest.result).Perm
      (zone.results ++ after.result.toList) :=
    results_set after.result asked (by rw [GetRequest.result_of_unfinished was]; rfl)
  cases remaining : zone.requestCount with
  | zero => omega
  | succ requestCount =>
      have replaced := fun zoneCount counts => sound.replace zoneCount found
        (started requestCount (by omega)) rfl counts brought
      simp only [received, decrement, Option.bind_eq_bind, Option.bind_some]
      by_cases last : requestCount = 0
      · -- the zone is finished, and so is the fan-out if no other zone is left
        subst last
        have zoneDone : ZoneCall.finished { zone with
            requestCount := 0, calls := zone.calls.set position after } = true :=
          ZoneCall.finished_iff.mpr ⟨rfl, set_ne_nil asked after⟩
        have fewerZones := pending_set_finished found waiting zoneDone
        have zonesCounted := sound.counted
        cases zonesLeft : fan.zoneCount with
        | zero => omega
        | succ zoneCount =>
            refine ⟨_, _, rfl, replaced zoneCount (by omega), ?_⟩
            by_cases lastZone : zoneCount = 0
            · subst lastZone
              exact .inr ⟨unfinished, FanOut.finished_iff.mpr ⟨rfl, set_ne_nil found _⟩, rfl⟩
            · rw [if_neg (lastZone ·.1)]
              exact .waiting unfinished (by simp [FanOut.finished, lastZone])
      · have zoneWaiting : ZoneCall.finished { zone with
            requestCount := requestCount, calls := zone.calls.set position after } =
            zone.finished := by
          rw [waiting]
          simp [ZoneCall.finished, last]
        have next := replaced fan.zoneCount (by
          rw [pending_set_same found zoneWaiting]
          exact sound.counted)
        rw [if_neg last, if_neg (last ·.2)]
        have inside := (List.getElem?_eq_some_iff.mp found).1
        exact ⟨_, _, rfl, next, .waiting unfinished
          (next.unfinished (.inr ⟨_, List.mem_set inside _, zoneWaiting.trans waiting⟩))⟩

theorem FanOut.Sound.quiet {index position : Nat} {zone : ZoneCall} {before after : GetRequest}
    (sound : fan.Sound database languageCode zoneSnaps)
    (found : fan.zones[index]? = some zone) (asked : zone.calls[position]? = some before)
    (result : after.result = before.result)
    (started : ∃ reached, zoneSnaps = reached.reverse ++ fan.ahead ∧
      List.Forall₂ (ZoneCall.Sound database languageCode) reached (fan.zones.set index
        { zone with calls := zone.calls.set position after })) :
    FanOut.Sound database languageCode zoneSnaps { fan with
      zones := fan.zones.set index { zone with calls := zone.calls.set position after } } := by
  have zoneSame : ZoneCall.finished
      { zone with calls := zone.calls.set position after } = zone.finished := by
    simp [ZoneCall.finished]
  have brought : (zone.calls.set position after |>.filterMap GetRequest.result).Perm
      (zone.results ++ []) :=
    results_set none asked (by simp [result])
  have counted : fan.zoneCount = fan.ahead.length + pending ZoneCall.finished
      (fan.zones.set index { zone with calls := zone.calls.set position after }) := by
    rw [pending_set_same found zoneSame, sound.counted]
  simpa using sound.replace fan.zoneCount found started rfl counted brought

theorem FanOut.call_sound (sound : fan.Sound database languageCode zoneSnaps)
    {index position : Nat} {event : RequestEvent} {next : FanOut}
    {delivered : Option (List Request)}
    (moved : fan.call database languageCode index position event = some (next, delivered)) :
    next.Sound database languageCode zoneSnaps ∧
      Outcome FanOut.finished FanOut.requests fan next delivered := by
  cases found : fan.zones[index]? with
  | none =>
      simp only [call, found, Option.some.injEq, Prod.mk.injEq] at moved
      obtain ⟨rfl, rfl⟩ := moved
      exact ⟨sound, .refl fan⟩
  | some zone =>
      cases asked : zone.calls[position]? with
      | none =>
          simp only [call, found, asked, Option.some.injEq, Prod.mk.injEq] at moved
          obtain ⟨rfl, rfl⟩ := moved
          exact ⟨sound, .refl fan⟩
      | some before =>
          obtain ⟨zoneSnap, -, -, -, id, -, -, callSound, counted, started⟩ :=
            sound.call_made found asked
          simp only [call, found, asked, Option.bind_eq_bind, Option.bind_eq_some_iff] at moved
          obtain ⟨⟨after, brought⟩, taken, rest⟩ := moved
          obtain ⟨kept, outcome⟩ := GetRequest.step_sound callSound taken
          obtain ⟨rfl, same, frozen⟩ | ⟨was, now, rfl⟩ := outcome
          · obtain ⟨rfl, rfl⟩ := Prod.mk.inj (Option.some.inj rest)
            have result : after.result = before.result := by
              cases done : before.finished with
              | true => exact frozen done
              | false => rw [GetRequest.result_of_unfinished done,
                  GetRequest.result_of_unfinished (same.trans done)]
            have kept := sound.quiet found asked result
              (started after zone.requestCount kept (by rw [pending_set_same asked same, counted]))
            exact ⟨kept, .inl ⟨rfl, by simp [FanOut.finished], fun _ => rfl⟩⟩
          · obtain ⟨_, _, again, received⟩ := FanOut.received_spec sound found asked was now
              counted fun requestCount counts => started after requestCount kept counts
            obtain ⟨rfl, rfl⟩ := Prod.mk.inj (Option.some.inj (again.symm.trans rest))
            exact received

theorem FanOut.call_total (readable : Readable database languageCode zoneSnaps)
    (sound : fan.Sound database languageCode zoneSnaps) (index position : Nat)
    (event : RequestEvent) :
    ∃ after delivered,
      fan.call database languageCode index position event = some (after, delivered) := by
  cases found : fan.zones[index]? with
  | none => exact ⟨fan, none, by simp [call, found]⟩
  | some zone =>
      cases asked : zone.calls[position]? with
      | none => exact ⟨fan, none, by simp [call, found, asked]⟩
      | some before =>
          obtain ⟨zoneSnap, here, requestIDSnap, inside, id, named, -, callSound, counted, started⟩ :=
            sound.call_made found asked
          obtain ⟨after, brought, taken⟩ := GetRequest.step_total
            (readable.contents zoneSnap here requestIDSnap inside id named) callSound event
          obtain ⟨kept, outcome⟩ := GetRequest.step_sound callSound taken
          simp only [call, found, asked, taken, Option.bind_eq_bind, Option.bind_some]
          obtain ⟨rfl, -, -⟩ | ⟨was, now, rfl⟩ := outcome
          · exact ⟨_, _, rfl⟩
          · obtain ⟨next, delivered, received, -⟩ := FanOut.received_spec sound found asked was now
              counted fun requestCount counts => started after requestCount kept counts
            exact ⟨next, delivered, received⟩

theorem FanOut.call_shape {index position : Nat} {zone : ZoneCall} {before : GetRequest}
    {event : RequestEvent} {next : FanOut} {delivered : Option (List Request)}
    (found : fan.zones[index]? = some zone) (asked : zone.calls[position]? = some before)
    (moved : fan.call database languageCode index position event = some (next, delivered)) :
    ∃ after brought, before.step database languageCode event = some (after, brought) ∧
      next.ahead = fan.ahead ∧ ∃ requestCount, next.zones = fan.zones.set index
        { zone with requestCount := requestCount, calls := zone.calls.set position after } := by
  simp only [call, found, asked, Option.bind_eq_bind, Option.bind_eq_some_iff] at moved
  obtain ⟨⟨after, brought⟩, taken, rest⟩ := moved
  refine ⟨after, brought, taken, ?_⟩
  cases brought with
  | none =>
      obtain ⟨rfl, -⟩ := Prod.mk.inj (Option.some.inj rest)
      exact ⟨rfl, zone.requestCount, rfl⟩
  | some r =>
      simp only [received, Option.bind_eq_bind, Option.bind_eq_some_iff] at rest
      obtain ⟨requestCount, -, counted⟩ := rest
      split at counted
      · obtain ⟨zoneCount, -, last⟩ := Option.bind_eq_some_iff.mp counted
        obtain ⟨rfl, -⟩ := Prod.mk.inj (Option.some.inj last)
        exact ⟨rfl, requestCount, rfl⟩
      · obtain ⟨rfl, -⟩ := Prod.mk.inj (Option.some.inj counted)
        exact ⟨rfl, requestCount, rfl⟩

theorem FanOut.turn_progress (sound : fan.Sound database languageCode zoneSnaps)
    (looping : fan.ahead ≠ [] ∨ ∃ zone ∈ fan.zones, zone.ahead ≠ []) {after : FanOut}
    (turned : fan.turn = some after) : after.work database < fan.work database := by
  obtain ⟨requests, zoneCount, ahead, zones⟩ := fan
  cases zones with
  | nil =>
      cases ahead with
      | nil => simp at looping
      | cons zoneSnap rest =>
          obtain rfl := Option.some.inj turned
          simp only [work, total_cons]
          omega
  | cons zone earlier =>
      obtain ⟨zoneID, requestCount, unreached, calls⟩ := zone
      cases unreached with
      | nil =>
          cases ahead with
          | nil =>
              have settled := sound.settled
              simp only [List.tail_cons] at settled
              simp only [ne_eq, not_true_eq_false, List.mem_cons, exists_eq_or_imp,
                false_or] at looping
              obtain ⟨zone, member, unreached⟩ := looping
              exact absurd (settled zone member) unreached
          | cons zoneSnap rest =>
              obtain rfl := Option.some.inj turned
              simp only [work, total_cons]
              omega
      | cons requestIDSnap rest =>
          simp only [turn, Option.bind_eq_bind, Option.bind_eq_some_iff] at turned
          obtain ⟨id, named, last⟩ := turned
          obtain rfl := Option.some.inj last
          simp only [work, ZoneCall.work, total_cons, total_append, total_nil, named]
          omega

theorem FanOut.progress (sound : fan.Sound database languageCode zoneSnaps)
    (busy : fan.work database ≠ 0)
    (issued : fan.ahead = [] ∧ ∀ zone ∈ fan.zones, zone.ahead = []) :
    ∃ index position event, ∀ next delivered,
      fan.call database languageCode index position event = some (next, delivered) →
      next.work database < fan.work database := by
  simp only [work, issued.1, total_nil, Nat.add_zero] at busy
  obtain ⟨index, zone, found, zoneBusy⟩ := exists_of_total_ne_zero busy
  have loopsDone := issued.2 zone (List.mem_of_getElem? found)
  simp only [ZoneCall.work, loopsDone, total_nil, Nat.add_zero] at zoneBusy
  obtain ⟨position, before, asked, callBusy⟩ := exists_of_total_ne_zero zoneBusy
  obtain ⟨zoneSnap, -, -, -, id, -, -, callSound, -⟩ := sound.call_made found asked
  obtain ⟨event, less⟩ := GetRequest.progress callSound callBusy
  refine ⟨index, position, event, fun next delivered moved => ?_⟩
  obtain ⟨after, brought, taken, ahead, requestCount, zones⟩ :=
    FanOut.call_shape found asked moved
  have lower := less after brought taken
  have zonesChange := total_set (ZoneCall.work database) found
    { zone with requestCount := requestCount, calls := zone.calls.set position after }
  have callsChange := total_set (GetRequest.work database) asked after
  simp only [work, ahead, zones]
  simp only [ZoneCall.work] at zonesChange
  omega

end Fan

def Fetch.finished : Fetch → Bool
  | .noIndex => true
  | .fanOut fan => fan.finished
  | _ => false

def Fetch.result : Fetch → List Request
  | .fanOut fan => fan.requests
  | _ => []

/-- The invariant of the whole call, for the user it was started for. -/
def Fetch.Sound (database : Json) (languageCode currentUser : Option String) : Fetch → Prop
  | .signedOut => currentUser = none
  | .readingIndex uid => currentUser = some uid
  | .noIndex => ∃ uid, currentUser = some uid ∧ (indexNode database uid).isPresent = false
  | .fanOut fan => ∃ uid, currentUser = some uid ∧ (indexNode database uid).isPresent = true ∧
      fan.Sound database languageCode (indexNode database uid).children
  | .aborted => ∃ uid, currentUser = some uid ∧ (indexNode database uid).isPresent = true ∧
      ∃ zoneSnap ∈ (indexNode database uid).children, ∃ requestIDSnap ∈ zoneSnap.children, ∃ id,
        asString requestIDSnap.value = some id ∧ ¬ TakesPath zoneSnap.key id

section Fetching

variable {database : Json} {languageCode currentUser : Option String} {fetch : Fetch}

theorem fetchAllUserRequests_sound (database : Json) (languageCode currentUser : Option String) :
    (fetchAllUserRequests currentUser).Sound database languageCode currentUser := by
  cases currentUser <;> rfl

theorem fetchAllUserRequests_unfinished :
    deliveries Fetch.finished Fetch.result (fetchAllUserRequests currentUser) = [] := by
  cases currentUser <;> rfl

theorem Fetch.step_index {uid : String} {after : Fetch} {delivered : Option (List Request)}
    (taken : (Fetch.readingIndex uid).step database languageCode .index =
      some (after, delivered)) :
    ((indexNode database uid).isPresent = false ∧ after = .noIndex ∧ delivered = some []) ∨
      ((indexNode database uid).isPresent = true ∧ delivered = none ∧
        after = .fanOut ⟨[], (indexNode database uid).childrenCount,
          (indexNode database uid).children, []⟩) := by
  cases present : (indexNode database uid).isPresent with
  | false =>
      simp only [step, present, Bool.false_eq_true, if_false, Option.some.injEq,
        Prod.mk.injEq] at taken
      exact .inl ⟨rfl, taken.1.symm, taken.2.symm⟩
  | true =>
      simp only [step, present, if_true, Option.some.injEq, Prod.mk.injEq] at taken
      exact .inr ⟨rfl, taken.2.symm, taken.1.symm⟩

/-- An event of the loops or of one of the calls, unless the loop throws. -/
theorem FanOut.step_sound {fan : FanOut} {zoneSnaps : List DataSnapshot}
    (sound : fan.Sound database languageCode zoneSnaps) {event : FetchEvent} {after : Fetch}
    {delivered : Option (List Request)}
    (taken : (Fetch.fanOut fan).step database languageCode event = some (after, delivered)) :
    ((∃ next, after = .fanOut next ∧ next.Sound database languageCode zoneSnaps) ∨
        after = .aborted ∧ fan.throws = true) ∧
      Outcome Fetch.finished Fetch.result (.fanOut fan) after delivered := by
  cases event with
  | index =>
      obtain ⟨rfl, rfl⟩ := Prod.mk.inj (Option.some.inj taken)
      exact ⟨.inl ⟨fan, rfl, sound⟩, .refl _⟩
  | turn =>
      simp only [Fetch.step] at taken
      split at taken
      · rename_i throws
        obtain ⟨rfl, rfl⟩ := Prod.mk.inj (Option.some.inj taken)
        exact ⟨.inr ⟨rfl, throws⟩, .waiting (sound.of_throws throws).1 rfl⟩
      · rename_i passes
        obtain ⟨next, turned, last⟩ := Option.map_eq_some_iff.mp taken
        obtain ⟨rfl, rfl⟩ := Prod.mk.inj last
        obtain ⟨kept, same, requests⟩ :=
          FanOut.turn_sound sound (Bool.eq_false_iff.mpr passes) turned
        exact ⟨.inl ⟨next, rfl, kept⟩, .inl ⟨rfl, same, fun _ => requests⟩⟩
  | call zone position event =>
      simp only [Fetch.step, Option.bind_eq_bind, Option.bind_eq_some_iff] at taken
      obtain ⟨⟨next, brought⟩, moved, last⟩ := taken
      obtain ⟨rfl, rfl⟩ := Prod.mk.inj (Option.some.inj last)
      obtain ⟨kept, outcome⟩ := FanOut.call_sound sound moved
      exact ⟨.inl ⟨next, rfl, kept⟩, outcome⟩

theorem Fetch.step_sound (sound : fetch.Sound database languageCode currentUser)
    {event : FetchEvent} {after : Fetch} {delivered : Option (List Request)}
    (taken : fetch.step database languageCode event = some (after, delivered)) :
    after.Sound database languageCode currentUser ∧
      Outcome Fetch.finished Fetch.result fetch after delivered := by
  cases fetch with
  | signedOut | noIndex | aborted =>
      obtain ⟨rfl, rfl⟩ := Prod.mk.inj (Option.some.inj taken)
      exact ⟨sound, .refl _⟩
  | readingIndex uid =>
      cases event with
      | turn | call zone position event =>
          obtain ⟨rfl, rfl⟩ := Prod.mk.inj (Option.some.inj taken)
          exact ⟨sound, .refl _⟩
      | index =>
          obtain ⟨absent, rfl, rfl⟩ | ⟨present, rfl, rfl⟩ := step_index taken
          · exact ⟨⟨uid, sound, absent⟩, .inr ⟨rfl, rfl, rfl⟩⟩
          · exact ⟨⟨uid, sound, present, FanOut.start_sound _⟩, .waiting rfl FanOut.start_unfinished⟩
  | fanOut fan =>
      obtain ⟨uid, user, present, fanSound⟩ := sound
      obtain ⟨⟨next, rfl, kept⟩ | ⟨rfl, throws⟩, outcome⟩ := FanOut.step_sound fanSound taken
      · exact ⟨⟨uid, user, present, kept⟩, outcome⟩
      · exact ⟨⟨uid, user, present, (fanSound.of_throws throws).2⟩, outcome⟩

theorem Fetch.step_total
    (readable : ∀ uid, currentUser = some uid →
      Readable database languageCode (indexNode database uid).children)
    (sound : fetch.Sound database languageCode currentUser) (event : FetchEvent) :
    ∃ after delivered, fetch.step database languageCode event = some (after, delivered) := by
  cases fetch with
  | signedOut | noIndex | aborted => exact ⟨_, none, rfl⟩
  | readingIndex uid =>
      cases event with
      | turn | call zone position event => exact ⟨_, none, rfl⟩
      | index =>
          simp only [step]
          split
          · exact ⟨_, _, rfl⟩
          · exact ⟨_, _, rfl⟩
  | fanOut fan =>
      obtain ⟨uid, user, present, fanSound⟩ := sound
      cases event with
      | index => exact ⟨_, none, rfl⟩
      | turn =>
          obtain ⟨after, turned⟩ := FanOut.turn_total (readable uid user) fanSound
          simp only [step, turned, Option.map_some]
          split
          · exact ⟨_, _, rfl⟩
          · exact ⟨_, _, rfl⟩
      | call zone position event =>
          obtain ⟨after, delivered, moved⟩ :=
            FanOut.call_total (readable uid user) fanSound zone position event
          exact ⟨.fanOut after, delivered, by simp [step, moved]⟩

theorem Fetch.step_spec
    (typed : ∀ uid, currentUser = some uid → WellTyped database (indexNode database uid).children)
    (sound : fetch.Sound database languageCode currentUser) (event : FetchEvent) :
    ∃ after delivered, fetch.step database languageCode event = some (after, delivered) ∧
      after.Sound database languageCode currentUser ∧
      Outcome Fetch.finished Fetch.result fetch after delivered := by
  obtain ⟨after, delivered, taken⟩ :=
    step_total (fun uid user => (typed uid user).readable languageCode) sound event
  exact ⟨after, delivered, taken, step_sound sound taken⟩

/-- While something is to happen, some event makes it happen or traps. -/
theorem Fetch.progress (sound : fetch.Sound database languageCode currentUser)
    (busy : fetch.work database ≠ 0) :
    ∃ event, ∀ after delivered, fetch.step database languageCode event = some (after, delivered) →
      after.work database < fetch.work database := by
  cases fetch with
  | signedOut | noIndex | aborted => exact absurd rfl busy
  | readingIndex uid =>
      refine ⟨.index, fun after delivered taken => ?_⟩
      simp only [step] at taken
      split at taken
      · obtain ⟨rfl, -⟩ := Prod.mk.inj (Option.some.inj taken)
        simp [work, FanOut.work]
      · obtain ⟨rfl, -⟩ := Prod.mk.inj (Option.some.inj taken)
        simp [work]
  | fanOut fan =>
      obtain ⟨uid, user, -, fanSound⟩ := sound
      by_cases looping : fan.ahead ≠ [] ∨ ∃ zone ∈ fan.zones, zone.ahead ≠ []
      · refine ⟨.turn, fun after delivered taken => ?_⟩
        simp only [step] at taken
        split at taken
        · obtain ⟨rfl, -⟩ := Prod.mk.inj (Option.some.inj taken)
          exact Nat.pos_of_ne_zero busy
        · obtain ⟨next, turned, last⟩ := Option.map_eq_some_iff.mp taken
          obtain ⟨rfl, -⟩ := Prod.mk.inj last
          exact FanOut.turn_progress fanSound looping turned
      · simp only [ne_eq, not_or, not_not, not_exists, not_and] at looping
        obtain ⟨zone, position, event, less⟩ := FanOut.progress fanSound busy looping
        refine ⟨.call zone position event, fun after delivered taken => ?_⟩
        simp only [step, Option.bind_eq_bind, Option.bind_eq_some_iff] at taken
        obtain ⟨⟨next, brought⟩, moved, last⟩ := taken
        obtain ⟨rfl, -⟩ := Prod.mk.inj (Option.some.inj last)
        exact less next brought moved

end Fetching

end Kasei.Landing
