import Kasei.Models.PostRequest
import Kasei.Landing.Refresh

/-! # Refreshes that overlap

Each refresh reads the index once, works from that snapshot, and when it
completes replaces the saved requests and the list. Nothing compares snapshots,
so the refresh that completes last decides, whichever index it had read.
-/

namespace Kasei.Landing

open JsonTree FanIn Runs CoreData

/-- A refresh with the index entries that it has read. -/
structure Running where
  fetch : Fetch
  index : List DataSnapshot := []

/-- Any number of refreshes over one screen. Beside them stand the index read
    last by any of them, and the one read by the refresh that completed last. -/
structure Overlap where
  database : Json
  screen : Screen
  refreshes : List Running := []
  latest : Option (List DataSnapshot) := none
  applied : Option (List DataSnapshot) := none

inductive OverlapEvent where
  /-- `viewDidLoad`, a pull to refresh, or the return to the landing screen. -/
  | start
  /-- An entry is added to the user's index. -/
  | add (zoneID key id : String)
  | fetch (refresh : Nat) (event : FetchEvent) (orders : Nat → FetchOrder)
  | reload

/-- The index a fetch holds after an event: the one it reads now, if it reads it. -/
def indexRead (database : Json) : Fetch → FetchEvent → Option (List DataSnapshot)
  | .readingIndex uid, .index => some (indexNode database uid).children
  | _, _ => none

def Overlap.step (languageCode : Option String) (uid : String) (s : Overlap) :
    OverlapEvent → Option Overlap
  | .start =>
      some { s with refreshes := s.refreshes ++ [{ fetch := fetchAllUserRequests (some uid) }] }
  | .add zoneID key id =>
      some { s with database := s.database.set (indexPath uid zoneID key) (.str id) }
  | .fetch refresh event orders =>
      match s.refreshes[refresh]? with
      | none => some s
      | some running => do
          let (fetch, delivered) ← running.fetch.step s.database languageCode event
          let read := indexRead s.database running.fetch event
          let index := read.getD running.index
          let s := { s with
            refreshes := s.refreshes.set refresh ⟨fetch, index⟩
            latest := read.or s.latest }
          match delivered with
          | none => return s
          | some requests =>
              let screen ← s.screen.received orders languageCode (some requests)
              return { s with screen := screen, applied := some index }
  | .reload => some { s with screen := s.screen.reload }

/-- The ids that an index names. -/
def indexIds (zoneSnaps : List DataSnapshot) : List String :=
  zoneSnaps.flatMap fun zoneSnap => zoneSnap.children.filterMap fun snap => asString snap.value

/-- The keys of the nodes they lead to, as far as these have the four fields. -/
def validIds (database : Json) (zoneSnaps : List DataSnapshot) : List String :=
  (validEntries database zoneSnaps).map fun entry => (requestNode database entry.1 entry.2).key

/-- The store and the list hold exactly these ids. -/
def HoldsIds (screen : Screen) (ids : List String) : Prop :=
  (screen.saved.store.map CDRequest.id).Perm (ids.map some) ∧
    (screen.userRequests.map Request.id).Perm (ids.map some)

section Content

/-- Additions to the index leave the requests and the catalogue alone. -/
def SameContent (before after : Json) : Prop :=
  after.child "requests" = before.child "requests" ∧ after.child "items" = before.child "items"

variable {before after : Json} {languageCode : Option String}

theorem SameContent.add {uid zoneID key : String} (same : SameContent before after) (value : Json) :
    SameContent before (after.set (indexPath uid zoneID key) value) := by
  refine ⟨Eq.trans ?_ same.1, Eq.trans ?_ same.2⟩ <;>
    exact Json.child_setChild_of_ne after (by decide) _

variable (same : SameContent before after)
include same

theorem SameContent.requestNode (zoneID id : String) :
    requestNode after zoneID id = requestNode before zoneID id :=
  requestNode_congr (congrArg (Json.get · (pieces zoneID ++ pieces id)) same.1)

theorem SameContent.getRequestItem (id : String) :
    getRequestItem after languageCode id = getRequestItem before languageCode id := by
  have nodes : ∀ tree : Json, observeSingleEvent tree ["items"] id =
      ⟨id, (tree.child "items").get [id]⟩ := fun _ => rfl
  simp only [Kasei.getRequestItem, nodes, same.2]

theorem SameContent.step (call : GetRequest) (event : RequestEvent) :
    call.step after languageCode event = call.step before languageCode event := by
  have appended : ∀ items childSnap, appendItem after languageCode items childSnap =
      appendItem before languageCode items childSnap := by
    intro items childSnap
    simp only [appendItem, same.getRequestItem]
  cases call with
  | missing => rfl
  | reading zone key =>
      cases event with
      | content event => rfl
      | node => simp only [GetRequest.step, same.requestNode]
  | gathering head call =>
      cases event with
      | node => rfl
      | content event =>
          cases event with
          | turn => rfl
          | answer read => simp only [GetRequest.step, GetAllItems.step, appended]

theorem SameContent.call (fan : FanOut) (index position : Nat) (event : RequestEvent) :
    fan.call after languageCode index position event =
      fan.call before languageCode index position event := by
  simp only [FanOut.call, same.step]

theorem SameContent.step_fanOut (fan : FanOut) (event : FetchEvent) :
    (Fetch.fanOut fan).step after languageCode event =
      (Fetch.fanOut fan).step before languageCode event := by
  cases event with
  | index | turn => rfl
  | call zone position event => simp only [Fetch.step, same.call]

end Content

/-- A refresh works on the index that it has read. -/
def Running.Sound (database : Json) (languageCode : Option String) (uid : String)
    (running : Running) : Prop :=
  match running.fetch with
  | .signedOut => False
  | .readingIndex reader => reader = uid
  | .noIndex => running.index = []
  | .fanOut fan => fan.Sound database languageCode running.index
  | .aborted => True

section Running

variable {database current : Json} {languageCode : Option String} {uid : String}
  {running : Running}

/-- An event of one refresh, however the index has grown since it read its own. -/
theorem Running.step_sound (same : SameContent database current)
    (sound : running.Sound database languageCode uid) {event : FetchEvent} {after : Fetch}
    {delivered : Option (List Request)}
    (taken : running.fetch.step current languageCode event = some (after, delivered)) :
    Running.Sound database languageCode uid
        ⟨after, (indexRead current running.fetch event).getD running.index⟩ ∧
      Outcome Fetch.finished Fetch.result running.fetch after delivered := by
  obtain ⟨fetch, index⟩ := running
  cases fetch with
  | signedOut => exact sound.elim
  | noIndex | aborted =>
      obtain ⟨rfl, rfl⟩ := Prod.mk.inj (Option.some.inj taken)
      exact ⟨sound, .refl _⟩
  | readingIndex reader =>
      obtain rfl : reader = uid := sound
      cases event with
      | turn | call zone position event =>
          obtain ⟨rfl, rfl⟩ := Prod.mk.inj (Option.some.inj taken)
          exact ⟨rfl, .refl _⟩
      | index =>
          obtain ⟨absent, rfl, rfl⟩ | ⟨present, rfl, rfl⟩ := Fetch.step_index taken
          · exact ⟨children_of_absent absent, .inr ⟨rfl, rfl, rfl⟩⟩
          · exact ⟨FanOut.start_sound _, .waiting rfl FanOut.start_unfinished⟩
  | fanOut fan =>
      rw [same.step_fanOut] at taken
      obtain ⟨shape, outcome⟩ := FanOut.step_sound sound taken
      have unread : indexRead current (.fanOut fan) event = none := by cases event <;> rfl
      rw [unread]
      obtain ⟨next, rfl, kept⟩ | ⟨rfl, -⟩ := shape
      · exact ⟨kept, outcome⟩
      · exact ⟨trivial, outcome⟩

/-- What a refresh has delivered carries the ids of the complete entries of the
    index that it read. -/
theorem Running.Sound.delivered_ids (sound : running.Sound database languageCode uid)
    (done : running.fetch.finished = true) :
    (running.fetch.result.map Request.id).Perm ((validIds database running.index).map some) := by
  obtain ⟨fetch, index⟩ := running
  cases fetch with
  | signedOut | readingIndex | aborted => cases done
  | noIndex =>
      obtain rfl : index = [] := sound
      exact .refl _
  | fanOut fan =>
      obtain ⟨requests, brought, answers⟩ := FanOut.Sound.answers sound done
      refine (brought.map Request.id).trans (.of_eq ?_)
      rw [answers.ids, validIds, List.map_map]
      rfl

end Running

theorem Screen.received_ids {screen after : Screen} {orders : Nat → FetchOrder}
    {languageCode : Option String} {requests : List Request} {ids : List String}
    (received : screen.received orders languageCode (some requests) = some after)
    (brought : (requests.map Request.id).Perm (ids.map some)) : HoldsIds after ids := by
  obtain ⟨saved, synced, rfl⟩ := Screen.received_cases received
  have stored := (updateSavedRequests_ids synced).trans brought
  refine ⟨stored, List.Perm.trans ?_ stored⟩
  have loaded := (loadAllRequests_perm (orders 0) saved.store).map Request.id
  rwa [List.map_map] at loaded

/-- The invariant of overlapping refreshes over the database they started with:
    the screen holds what the refresh that completed last has brought. -/
structure Overlap.Sound (database : Json) (languageCode : Option String) (uid : String)
    (s : Overlap) : Prop where
  content : SameContent database s.database
  running : ∀ running ∈ s.refreshes, running.Sound database languageCode uid
  read : ∀ running ∈ s.refreshes, running.fetch = .readingIndex uid ∨ s.latest.isSome
  applied : ∀ running ∈ s.refreshes, running.fetch.finished = true → s.applied.isSome
  held : ∀ index ∈ s.applied, HoldsIds s.screen (validIds database index)

section Overlap

variable {database : Json} {languageCode : Option String} {uid : String} {s : Overlap}

theorem readingIndex_of_step {current : Json} {fetch after : Fetch} {event : FetchEvent}
    {delivered : Option (List Request)} (reading : fetch = .readingIndex uid)
    (taken : fetch.step current languageCode event = some (after, delivered)) :
    after = .readingIndex uid ∨ (indexRead current fetch event).isSome := by
  subst reading
  cases event with
  | index => exact .inr rfl
  | turn | call zone position event =>
      exact .inl (Prod.mk.inj (Option.some.inj taken)).1.symm

theorem Overlap.Sound.moved (sound : s.Sound database languageCode uid) {refresh : Nat}
    {running : Running} (found : s.refreshes[refresh]? = some running) {event : FetchEvent}
    {fetch : Fetch} {delivered : Option (List Request)}
    (taken : running.fetch.step s.database languageCode event = some (fetch, delivered))
    (screen : Screen) {applied : Option (List DataSnapshot)}
    (here : fetch.finished = true → applied.isSome) (before : s.applied.isSome → applied.isSome)
    (held : ∀ index ∈ applied, HoldsIds screen (validIds database index)) :
    Overlap.Sound database languageCode uid { s with
      refreshes := s.refreshes.set refresh
        ⟨fetch, (indexRead s.database running.fetch event).getD running.index⟩
      latest := (indexRead s.database running.fetch event).or s.latest
      screen := screen, applied := applied } := by
  have member := List.mem_of_getElem? found
  refine ⟨sound.content, ?_, ?_, ?_, held⟩
  · intro other inside
    obtain old | rfl := List.mem_or_eq_of_mem_set inside
    · exact sound.running other old
    · exact (Running.step_sound sound.content (sound.running running member) taken).1
  · intro other inside
    simp only [Option.isSome_or, Bool.or_eq_true]
    obtain old | rfl := List.mem_or_eq_of_mem_set inside
    · exact (sound.read other old).imp_right .inr
    · obtain reading | read := sound.read running member
      · exact (readingIndex_of_step reading taken).imp_right .inl
      · exact .inr (.inr read)
  · intro other inside done
    obtain old | rfl := List.mem_or_eq_of_mem_set inside
    · exact before (sound.applied other old done)
    · exact here done

theorem Overlap.step_sound (sound : s.Sound database languageCode uid) {event : OverlapEvent}
    {after : Overlap} (taken : s.step languageCode uid event = some after) :
    after.Sound database languageCode uid := by
  cases event with
  | start =>
      obtain rfl := Option.some.inj taken
      refine ⟨sound.content, ?_, ?_, ?_, sound.held⟩
      · exact List.forall_mem_append.mpr ⟨sound.running, List.forall_mem_singleton.mpr rfl⟩
      · exact List.forall_mem_append.mpr ⟨sound.read, List.forall_mem_singleton.mpr (.inl rfl)⟩
      · exact List.forall_mem_append.mpr ⟨sound.applied, List.forall_mem_singleton.mpr nofun⟩
  | add zoneID key id =>
      obtain rfl := Option.some.inj taken
      exact ⟨sound.content.add _, sound.running, sound.read, sound.applied, sound.held⟩
  | reload =>
      obtain rfl := Option.some.inj taken
      refine ⟨sound.content, sound.running, sound.read, sound.applied, ?_⟩
      intro index here
      simpa [HoldsIds] using sound.held index here
  | fetch refresh event orders =>
      cases found : s.refreshes[refresh]? with
      | none =>
          simp only [step, found, Option.some.injEq] at taken
          exact taken ▸ sound
      | some running =>
          simp only [step, found, Option.bind_eq_bind, Option.bind_eq_some_iff] at taken
          obtain ⟨⟨fetch, delivered⟩, moved, rest⟩ := taken
          obtain ⟨kept, outcome⟩ := Running.step_sound sound.content
            (sound.running running (List.mem_of_getElem? found)) moved
          obtain ⟨rfl, same, -⟩ | ⟨-, now, rfl⟩ := outcome
          · obtain rfl := Option.some.inj rest
            refine sound.moved found moved s.screen (fun done => ?_) id sound.held
            exact sound.applied running (List.mem_of_getElem? found) (same.symm.trans done)
          · obtain ⟨screen, received, last⟩ := Option.bind_eq_some_iff.mp rest
            obtain rfl := Option.some.inj last
            apply sound.moved found moved screen (fun _ => rfl) (fun _ => rfl)
            intro index here
            obtain rfl := Option.some.inj here
            exact Screen.received_ids received (kept.delivered_ids now)

end Overlap

/-- Once every refresh has completed, the store and the list hold the ids of the
    index that was read last exactly if these are the ids that the refresh that
    completed last could bring. -/
theorem overlapping_refreshes_iff {database : Json} {languageCode : Option String} {uid : String}
    {screen : Screen} {events : List OverlapEvent} {s : Overlap}
    (ran : run (Overlap.step languageCode uid) { database := database, screen := screen } events =
      some s)
    (started : s.refreshes ≠ [])
    (completed : ∀ running ∈ s.refreshes, running.fetch.finished = true) :
    ∃ latest applied, s.latest = some latest ∧ s.applied = some applied ∧
      (HoldsIds s.screen (indexIds latest) ↔
        (validIds database applied).Perm (indexIds latest)) := by
  have start : Overlap.Sound database languageCode uid
      { database := database, screen := screen } :=
    ⟨⟨rfl, rfl⟩, nofun, nofun, nofun, nofun⟩
  have sound : s.Sound database languageCode uid :=
    run_keeps (fun _ _ _ sound taken => Overlap.step_sound sound taken) start ran
  obtain ⟨running, member⟩ := List.exists_mem_of_ne_nil s.refreshes started
  have done := completed running member
  obtain ⟨applied, put⟩ := Option.isSome_iff_exists.mp (sound.applied running member done)
  obtain ⟨latest, read⟩ : ∃ latest, s.latest = some latest := by
    obtain reading | read := sound.read running member
    · rw [reading] at done
      cases done
    · exact Option.isSome_iff_exists.mp read
  refine ⟨latest, applied, read, put, ?_⟩
  have held := sound.held applied put
  constructor
  · intro exact_ids
    have same := held.1.symm.trans exact_ids.1
    exact (List.map_perm_map_iff (Option.some_injective String)).mp same
  · intro same
    exact ⟨held.1.trans (same.map some), held.2.trans (same.map some)⟩

section Example

private def boxOf (item : String) : Json :=
  .obj [("dateCreated", .double 1), ("content", .obj [(item, .int 1)]),
    ("delSlotStart", .int 2000), ("senderID", .str "kim"), ("status", .str "sent")]

/-- Two requests, of which the index names the first. -/
private def kimsRequests : Json :=
  .obj [("userRequests", .obj [("kim", .obj [("north", .obj [("x1", .str "r1")])])]),
    ("requests", .obj [("north", .obj [("r1", boxOf "milk"), ("r2", boxOf "rice")])])]

private def blankScreen : Screen := ⟨[], ⟨[], none⟩, false, 0⟩

/-- The turns and answers of a fetch over one zone with so many entries. -/
private def fanned (entries : Nat) : List FetchEvent :=
  .turn :: List.replicate entries .turn ++ (List.range entries).flatMap fun position =>
    [.call 0 position .node, .call 0 position (.content .turn),
      .call 0 position (.content (.answer 0))]

private def ofRefresh (refresh : Nat) (events : List FetchEvent) : List OverlapEvent :=
  events.map fun event => .fetch refresh event fun _ => .listed

/-- The first refresh reads the index before the second request is added to it,
    and waits for its last answer while the second completes. -/
private def staleWaits : List OverlapEvent :=
  [.start, .start] ++ ofRefresh 0 [.index] ++ [.add "north" "x2" "r2"] ++
    ofRefresh 1 (.index :: fanned 2) ++ ofRefresh 0 (fanned 1).dropLast

private def answer : FetchEvent := .call 0 0 (.content (.answer 0))

private theorem staleWaits_reaches :
    ∃ s ∈ run (Overlap.step none "kim") { database := kimsRequests, screen := blankScreen }
      staleWaits,
    s.screen.saved.store.map CDRequest.id = [some "r1", some "r2"] ∧
    s.latest.map indexIds = some ["r1", "r2"] ∧
    (∀ running ∈ s.refreshes.tail, running.fetch.finished = true) ∧
    ∃ stale ∈ s.refreshes.head?, ∃ next ∈ stale.fetch.step s.database none answer,
      next.1.finished = true ∧
      ∃ delivered ∈ next.2, delivered.map Request.id = [some "r1"] := by
  decide +kernel

/-- The stale refresh completes last and takes the second request away. -/
theorem stale_refresh_loses_request :
    ¬ ∀ (events : List OverlapEvent) (s : Overlap),
      run (Overlap.step none "kim") { database := kimsRequests, screen := blankScreen } events =
        some s →
      s.refreshes ≠ [] → (∀ running ∈ s.refreshes, running.fetch.finished = true) →
      ∃ latest, s.latest = some latest ∧ HoldsIds s.screen (indexIds latest) := by
  intro keeps
  obtain ⟨s, ran, stored, latest, newer, stale, first, ⟨fetch, _⟩, taken, done, delivered, rfl,
    brought⟩ := staleWaits_reaches
  obtain ⟨others, refreshes⟩ := List.head?_eq_some_iff.mp first
  rw [refreshes, List.tail_cons] at newer
  have named : ∀ request ∈ delivered, request.id ≠ none := by
    intro request member unnamed
    have listed := List.mem_map_of_mem (f := Request.id) member
    simp [brought, unnamed] at listed
  have rows : ∀ row ∈ s.screen.saved.store, row.id ≠ none := by
    intro row member unnamed
    have listed := List.mem_map_of_mem (f := CDRequest.id) member
    simp [stored, unnamed] at listed
  obtain ⟨screen, received, -⟩ := s.screen.received_total (fun _ => .listed) none rows named
  have unread : indexRead s.database stale.fetch answer = none := by
    cases stale.fetch <;> rfl
  have completes : run (Overlap.step none "kim")
      { database := kimsRequests, screen := blankScreen }
      (staleWaits ++ ofRefresh 0 [answer]) = some { s with
        screen := screen, refreshes := ⟨fetch, stale.index⟩ :: others
        applied := some stale.index } := by
    rw [run_append, Option.mem_def.mp ran]
    simp [ofRefresh, Overlap.step, refreshes, Option.mem_def.mp taken, received, unread]
  obtain ⟨index, read, held⟩ := keeps _ _ completes (by simp) (by simpa [done] using newer)
  have both : indexIds index = ["r1", "r2"] := by
    rw [show s.latest = some index from read] at latest
    exact Option.some.inj latest
  have one : HoldsIds screen ["r1"] := Screen.received_ids received (.of_eq brought)
  have counts := (held.1.symm.trans one.1).length_eq
  rw [both] at counts
  exact absurd counts (by decide)

/-- A single refresh over an index whose entry is complete. -/
theorem overlapping_refreshes_iff_single : ∃ s latest,
    run (Overlap.step none "kim") { database := kimsRequests, screen := blankScreen }
      (.start :: ofRefresh 0 (.index :: fanned 1)) = some s ∧
    s.latest = some latest ∧ HoldsIds s.screen (indexIds latest) := by
  obtain ⟨s, ran, started, finished, read, put⟩ :
      ∃ s ∈ run (Overlap.step none "kim") { database := kimsRequests, screen := blankScreen }
        (.start :: ofRefresh 0 (.index :: fanned 1)),
      s.refreshes.length = 1 ∧ (∀ running ∈ s.refreshes, running.fetch.finished = true) ∧
      s.latest.map indexIds = some ["r1"] ∧
      s.applied.map (validIds kimsRequests) = some ["r1"] := by
    decide +kernel
  obtain ⟨latest, applied, known, brought, exactly⟩ :=
    overlapping_refreshes_iff ran (List.length_pos_iff.mp (by omega)) finished
  rw [known, Option.map_some, Option.some.injEq] at read
  rw [brought, Option.map_some, Option.some.injEq] at put
  exact ⟨s, latest, ran, known, exactly.mpr (.of_eq (put.trans read.symm))⟩

end Example

end Kasei.Landing
