import Kasei.CoreData.Sync
import Kasei.Landing.Delivery

/-! # When a refresh ends

`refreshData` passes a closure to `fetchAllUserRequests` that syncs the saved
requests, reloads the list and, 0.7 seconds later, ends the refresh indicator.
A fetch that runs out of answers without delivering leaves the indicator on.
Whether it does is decided by the database alone, not by the order of the
answers: a request without content starts a loop with no turns, a zone or index
without children likewise, without a user nothing is started, and an entry that
is no path ends the app.
-/

namespace Kasei.Landing

open JsonTree FanIn Runs CoreData

/-- The landing screen: the list it shows, the saved requests behind it, the
    refresh indicator, and the blocks of `asyncAfter` that have not run. -/
structure Screen where
  userRequests : List Request
  saved : Saved
  isRefreshing : Bool
  reloads : Nat

/-- The closure of `refreshData`. The sync makes its fetches in the orders from
    the first on, and the reload makes one more. -/
def Screen.received (orders : Nat → FetchOrder) (languageCode : Option String) (screen : Screen)
    (requests : Option (List Request)) : Option Screen :=
  match requests with
  | none => some { screen with reloads := screen.reloads + 1 }
  | some requests => do
      let saved ← updateSavedRequests (fun n => orders (n + 1)) languageCode screen.saved requests
      return { screen with
        saved := saved, userRequests := loadAllRequests (orders 0) saved.store
        reloads := screen.reloads + 1 }

theorem Screen.received_cases {orders : Nat → FetchOrder} {languageCode : Option String}
    {screen after : Screen} {requests : List Request}
    (received : screen.received orders languageCode (some requests) = some after) :
    ∃ saved,
      updateSavedRequests (fun n => orders (n + 1)) languageCode screen.saved requests =
        some saved ∧
      after = { screen with
        saved := saved, userRequests := loadAllRequests (orders 0) saved.store
        reloads := screen.reloads + 1 } := by
  simp only [Screen.received, Option.bind_eq_bind, Option.bind_eq_some_iff] at received
  obtain ⟨saved, synced, last⟩ := received
  exact ⟨saved, synced, (Option.some.inj last).symm⟩

theorem Screen.received_total (orders : Nat → FetchOrder) (languageCode : Option String)
    (screen : Screen) (ids : ∀ row ∈ screen.saved.store, row.id ≠ none) {requests : List Request}
    (named : ∀ request ∈ requests, request.id ≠ none) :
    ∃ after, screen.received orders languageCode (some requests) = some after ∧
      (∀ row ∈ after.saved.store, row.id ≠ none) ∧ after.reloads = screen.reloads + 1 := by
  obtain ⟨saved, synced⟩ :=
    updateSavedRequests_total (fun n => orders (n + 1)) languageCode requests ids
  have kept : ∀ row ∈ saved.store, row.id ≠ none :=
    ids_named (updateSavedRequests_ids synced) named
  refine ⟨{ screen with
    saved := saved, userRequests := loadAllRequests (orders 0) saved.store
    reloads := screen.reloads + 1 }, ?_, kept, rfl⟩
  simp only [received, synced, Option.bind_eq_bind, Option.bind_some]
  rfl

/-- The block that runs 0.7 seconds later. -/
def Screen.reload (screen : Screen) : Screen :=
  match screen.reloads with
  | 0 => screen
  | waiting + 1 => { screen with reloads := waiting, isRefreshing := false }

@[simp] theorem Screen.reload_saved (screen : Screen) : screen.reload.saved = screen.saved := by
  unfold Screen.reload
  split <;> rfl

@[simp] theorem Screen.reload_userRequests (screen : Screen) :
    screen.reload.userRequests = screen.userRequests := by
  unfold Screen.reload
  split <;> rfl

/-- A refresh under way; `completed` counts the calls of the closure. -/
structure Refresh where
  fetch : Fetch
  screen : Screen
  completed : Nat

def refreshData (currentUser : Option String) (screen : Screen) : Refresh :=
  ⟨fetchAllUserRequests currentUser, screen, 0⟩

inductive RefreshEvent where
  | fetch (event : FetchEvent) (orders : Nat → FetchOrder)
  | reload

def Refresh.step (database : Json) (languageCode : Option String) (refresh : Refresh) :
    RefreshEvent → Option Refresh
  | .fetch event orders => do
      let (fetch, delivered) ← refresh.fetch.step database languageCode event
      match delivered with
      | none => return { refresh with fetch := fetch }
      | some requests =>
          let screen ← refresh.screen.received orders languageCode (some requests)
          return ⟨fetch, screen, refresh.completed + 1⟩
  | .reload => some { refresh with screen := refresh.screen.reload }

/-- A zone has an entry, `child:` takes every entry, and every one whose node has
    the four fields has a content. -/
def ZoneCompletable (database : Json) (zoneSnap : DataSnapshot) : Prop :=
  zoneSnap.children ≠ [] ∧
    ∀ requestIDSnap ∈ zoneSnap.children, ∀ id, asString requestIDSnap.value = some id →
      TakesPath zoneSnap.key id ∧
        (decodeHead (requestNode database zoneSnap.key id) = none ∨
          contentOf database zoneSnap.key id ≠ [])

/-- A user is signed in, and the index is absent or every loop over it, its
    zones and the contents of its requests has at least one turn. -/
def Completable (database : Json) (currentUser : Option String) : Prop :=
  ∃ uid, currentUser = some uid ∧ ((indexNode database uid).isPresent = false ∨
    ((indexNode database uid).children ≠ [] ∧
      ∀ zoneSnap ∈ (indexNode database uid).children, ZoneCompletable database zoneSnap))

section Idle

variable {database : Json} {languageCode currentUser : Option String}
  {zoneSnaps : List DataSnapshot} {fan : FanOut}

theorem ZoneCall.idle_iff {zone : ZoneCall} : zone.work database = 0 ↔
    zone.ahead = [] ∧ ∀ call ∈ zone.calls, call.work database = 0 := by
  rw [ZoneCall.work, Nat.add_eq_zero_iff, total_eq_zero, and_comm]
  cases zone.ahead with
  | nil => simp
  | cons requestIDSnap rest => simp

theorem FanOut.idle_iff : fan.work database = 0 ↔
    fan.ahead = [] ∧ ∀ zone ∈ fan.zones, zone.work database = 0 := by
  rw [FanOut.work, Nat.add_eq_zero_iff, total_eq_zero, and_comm]
  cases fan.ahead with
  | nil => simp
  | cons zoneSnap rest => simp

theorem ZoneCall.Sound.finished_of_idle {zone : ZoneCall} {zoneSnap : DataSnapshot}
    (sound : zone.Sound database languageCode zoneSnap) (idle : zone.work database = 0) :
    zone.finished = true ↔ ZoneCompletable database zoneSnap := by
  obtain ⟨loopsDone, calls⟩ := ZoneCall.idle_iff.mp idle
  obtain ⟨issued, children, made⟩ := sound.started
  rw [loopsDone, List.append_nil] at children
  subst children
  have counted := sound.counted
  rw [loopsDone, List.length_nil, Nat.zero_add] at counted
  rw [ZoneCall.finished_iff, counted, pending_eq_zero, and_comm, ZoneCompletable]
  refine and_congr ?_ ⟨fun done requestIDSnap member id named => ?_, fun filled call member => ?_⟩
  · rw [← List.length_pos_iff, ← List.length_pos_iff, made.length_eq]
  · obtain ⟨call, inside, key, asked, takes, callSound⟩ := forall₂_exists made member
    rw [named] at asked
    obtain rfl := Option.some.inj asked
    exact ⟨takes, (callSound.finished_iff.mp (done call inside)).2⟩
  · obtain ⟨requestIDSnap, inside, id, named, -, callSound⟩ := sound.call_sound member
    exact callSound.finished_iff.mpr ⟨calls call member, (filled requestIDSnap inside id named).2⟩

theorem FanOut.Sound.finished_of_idle (sound : fan.Sound database languageCode zoneSnaps)
    (idle : fan.work database = 0) :
    fan.finished = true ↔
      zoneSnaps ≠ [] ∧ ∀ zoneSnap ∈ zoneSnaps, ZoneCompletable database zoneSnap := by
  obtain ⟨loopsDone, zones⟩ := FanOut.idle_iff.mp idle
  obtain ⟨reached, snaps, made⟩ := sound.started
  have counted := sound.counted
  rw [loopsDone, List.append_nil] at snaps
  rw [loopsDone, List.length_nil, Nat.zero_add] at counted
  rw [FanOut.finished_iff, counted, pending_eq_zero, and_comm]
  refine and_congr ?_ ⟨fun done zoneSnap member => ?_, fun filled zone member => ?_⟩
  · rw [snaps, ← List.length_pos_iff, ← List.length_pos_iff, List.length_reverse, made.length_eq]
  · rw [snaps, List.mem_reverse] at member
    obtain ⟨zone, inside, zoneSound⟩ := forall₂_exists made member
    exact (zoneSound.finished_of_idle (zones zone inside)).mp (done zone inside)
  · obtain ⟨zoneSnap, inside, zoneSound⟩ := sound.zone_sound member
    exact (zoneSound.finished_of_idle (zones zone member)).mpr (filled zoneSnap inside)

/-- A fetch with nothing left to happen has delivered exactly if the database
    lets it. -/
theorem Fetch.Sound.finished_of_idle {fetch : Fetch}
    (sound : fetch.Sound database languageCode currentUser) (idle : fetch.work database = 0) :
    fetch.finished = true ↔ Completable database currentUser := by
  cases fetch with
  | signedOut =>
      obtain rfl : currentUser = none := sound
      simp [finished, Completable]
  | readingIndex uid => simp [work] at idle
  | noIndex =>
      obtain ⟨uid, user, absent⟩ := sound
      exact iff_of_true rfl ⟨uid, user, .inl absent⟩
  | fanOut fan =>
      obtain ⟨uid, rfl, present, fanSound⟩ := sound
      have loops := fanSound.finished_of_idle idle
      simpa [Completable, present, finished] using loops
  | aborted =>
      obtain ⟨uid, rfl, present, zoneSnap, here, requestIDSnap, inside, id, named, illegal⟩ := sound
      refine iff_of_false (by simp [finished]) ?_
      rintro ⟨user, same, completable⟩
      obtain rfl := Option.some.inj same
      obtain absent | ⟨-, zones⟩ := completable
      · simp [present] at absent
      · exact illegal ((zones zoneSnap here).2 requestIDSnap inside id named).1

/-- Every entry names a request that can be read, under a path that `child:`
    takes. -/
def AllRead (database : Json) (languageCode : Option String) (zoneSnaps : List DataSnapshot) :
    Prop :=
  ∀ zoneSnap ∈ zoneSnaps, ∀ requestIDSnap ∈ zoneSnap.children,
    ∃ id, asString requestIDSnap.value = some id ∧ TakesPath zoneSnap.key id ∧
      Legible database languageCode zoneSnap.key id

theorem AllRead.readable (read : AllRead database languageCode zoneSnaps) :
    Readable database languageCode zoneSnaps where
  ids := by
    intro zoneSnap here requestIDSnap inside
    obtain ⟨id, named, -⟩ := read zoneSnap here requestIDSnap inside
    simp [named]
  contents := by
    intro zoneSnap here requestIDSnap inside id named
    obtain ⟨id', named', -, legible⟩ := read zoneSnap here requestIDSnap inside
    obtain rfl := Option.some.inj (named'.symm.trans named)
    exact legible

theorem FanOut.Sound.allRead (sound : fan.Sound database languageCode zoneSnaps)
    (idle : fan.work database = 0) : AllRead database languageCode zoneSnaps := by
  obtain ⟨loopsDone, zones⟩ := FanOut.idle_iff.mp idle
  obtain ⟨reached, snaps, made⟩ := sound.started
  rw [loopsDone, List.append_nil] at snaps
  intro zoneSnap here requestIDSnap inside
  rw [snaps, List.mem_reverse] at here
  obtain ⟨zone, member, zoneSound⟩ := forall₂_exists made here
  obtain ⟨innerDone, calls⟩ := ZoneCall.idle_iff.mp (zones zone member)
  obtain ⟨issued, children, issuedCalls⟩ := zoneSound.started
  rw [innerDone, List.append_nil] at children
  obtain ⟨call, there, id, named, takes, callSound⟩ :=
    forall₂_exists issuedCalls (children ▸ inside)
  exact ⟨id, named, takes, callSound.legible (calls call there)⟩

/-- A fetch with nothing left to happen has passed every cast by force and every
    path, unless it was ended by one of these. -/
theorem Fetch.Sound.allRead {fetch : Fetch}
    (sound : fetch.Sound database languageCode currentUser) (idle : fetch.work database = 0)
    (alive : fetch ≠ .aborted) :
    ∀ uid, currentUser = some uid →
      AllRead database languageCode (indexNode database uid).children := by
  intro uid user
  cases fetch with
  | signedOut =>
      obtain rfl : currentUser = none := sound
      cases user
  | readingIndex uid => simp [work] at idle
  | noIndex =>
      obtain ⟨other, known, absent⟩ := sound
      obtain rfl := Option.some.inj (known.symm.trans user)
      rw [children_of_absent absent]
      intro zoneSnap member
      cases member
  | fanOut fan =>
      obtain ⟨other, known, -, fanSound⟩ := sound
      obtain rfl := Option.some.inj (known.symm.trans user)
      exact fanSound.allRead idle
  | aborted => exact absurd rfl alive

theorem Fetch.not_aborted_of_finished {fetch : Fetch} (done : fetch.finished = true) :
    fetch ≠ .aborted := by
  rintro rfl
  cases done

end Idle

/-- The contract of a refresh: however the answers come, once none is left the
    closure has been called, and the indicator is off when its block has run. -/
def AlwaysEnds (database : Json) (languageCode currentUser : Option String) (screen : Screen) :
    Prop :=
  ∀ events final,
    run (Refresh.step database languageCode) (refreshData currentUser screen) events =
      some final →
    final.fetch.work database = 0 →
    0 < final.completed ∧ (final.screen.reloads = 0 → final.screen.isRefreshing = false)

/-- The invariant of a refresh. -/
structure Refresh.Sound (database : Json) (languageCode currentUser : Option String)
    (refresh : Refresh) : Prop where
  fetch : refresh.fetch.Sound database languageCode currentUser
  completed : refresh.completed = refresh.fetch.finished.toNat
  ending : refresh.completed = 0 ∨ 0 < refresh.screen.reloads ∨
    refresh.screen.isRefreshing = false
  ids : ∀ row ∈ refresh.screen.saved.store, row.id ≠ none

section Refreshing

variable {database : Json} {languageCode currentUser : Option String} {refresh : Refresh}

theorem Refresh.fetch_spec
    (typed : ∀ uid, currentUser = some uid → WellTyped database (indexNode database uid).children)
    (sound : refresh.Sound database languageCode currentUser) (event : FetchEvent)
    (orders : Nat → FetchOrder) :
    ∃ after delivered next,
      refresh.fetch.step database languageCode event = some (after, delivered) ∧
      refresh.step database languageCode (.fetch event orders) = some next ∧
      next.fetch = after ∧ next.Sound database languageCode currentUser := by
  obtain ⟨after, delivered, taken, kept, outcome⟩ := Fetch.step_spec typed sound.fetch event
  have completed := sound.completed
  obtain ⟨rfl, same, -⟩ | ⟨was, now, rfl⟩ := outcome
  · refine ⟨after, none, { refresh with fetch := after }, taken, by simp [step, taken], rfl,
      kept, ?_, sound.ending, sound.ids⟩
    rw [completed, same]
  · obtain ⟨-, uid, -, requests, perm, answers⟩ := kept.delivered now
    have named : ∀ request ∈ after.result, request.id ≠ none := by
      intro request member
      exact answers.named request (perm.mem_iff.mp member)
    obtain ⟨screen, received, ids, waiting⟩ :=
      refresh.screen.received_total orders languageCode sound.ids named
    have running : 0 < screen.reloads := by omega
    refine ⟨after, some after.result, ⟨after, screen, refresh.completed + 1⟩, taken, ?_, rfl,
      kept, ?_, .inr (.inl running), ids⟩
    · simp only [step, taken, received, Option.bind_eq_bind, Option.bind_some]
      rfl
    · simp only [was, Bool.toNat_false] at completed
      simp [completed, now]

theorem Refresh.step_spec
    (typed : ∀ uid, currentUser = some uid → WellTyped database (indexNode database uid).children)
    (sound : refresh.Sound database languageCode currentUser) (event : RefreshEvent) :
    ∃ after, refresh.step database languageCode event = some after ∧
      after.Sound database languageCode currentUser := by
  cases event with
  | fetch event orders =>
      obtain ⟨-, -, next, -, stepped, -, kept⟩ := Refresh.fetch_spec typed sound event orders
      exact ⟨next, stepped, kept⟩
  | reload =>
      refine ⟨_, rfl, sound.fetch, sound.completed, ?_, ?_⟩
      · simp only [Screen.reload]
        split
        · exact sound.ending
        · exact .inr (.inr rfl)
      · simpa using sound.ids

theorem Refresh.progress
    (typed : ∀ uid, currentUser = some uid → WellTyped database (indexNode database uid).children)
    (sound : refresh.Sound database languageCode currentUser)
    (busy : refresh.fetch.work database ≠ 0) :
    ∃ event next, refresh.step database languageCode event = some next ∧
      next.Sound database languageCode currentUser ∧
      next.fetch.work database < refresh.fetch.work database := by
  obtain ⟨event, less⟩ := Fetch.progress sound.fetch busy
  obtain ⟨after, delivered, next, taken, stepped, rfl, kept⟩ :=
    Refresh.fetch_spec typed sound event fun _ => .listed
  exact ⟨.fetch event fun _ => .listed, next, stepped, kept, less _ delivered taken⟩

theorem refreshData_sound {screen : Screen} (ids : ∀ row ∈ screen.saved.store, row.id ≠ none) :
    (refreshData currentUser screen).Sound database languageCode currentUser where
  fetch := fetchAllUserRequests_sound database languageCode currentUser
  completed := by cases currentUser <;> rfl
  ending := .inl rfl
  ids := ids

/-- A refresh always ends exactly if every loop it starts has a turn. -/
theorem refreshData_ends_iff
    (typed : ∀ uid, currentUser = some uid → WellTyped database (indexNode database uid).children)
    {screen : Screen} (ids : ∀ row ∈ screen.saved.store, row.id ≠ none) :
    AlwaysEnds database languageCode currentUser screen ↔ Completable database currentUser := by
  have start : (refreshData currentUser screen).Sound database languageCode currentUser :=
    refreshData_sound ids
  constructor
  · intro ends
    obtain ⟨events, final, ran, sound, idle⟩ := exists_run_to_rest
      (fun refresh : Refresh => refresh.fetch.work database)
      (fun refresh held busy => Refresh.progress typed held busy) start
    have called := (ends events final ran idle).1
    rw [sound.completed] at called
    rw [← sound.fetch.finished_of_idle idle]
    cases done : final.fetch.finished with
    | true => rfl
    | false => simp [done] at called
  · intro completable events final ran idle
    obtain ⟨reached, again, sound⟩ :=
      run_total (fun refresh event held => Refresh.step_spec typed held event) start events
    rw [ran] at again
    obtain rfl := Option.some.inj again
    have done := (sound.fetch.finished_of_idle idle).mpr completable
    have once : final.completed = 1 := by rw [sound.completed, done, Bool.toNat_true]
    refine ⟨by omega, fun ran => ?_⟩
    have ending := sound.ending
    rw [once, ran] at ending
    simpa using ending

end Refreshing

section Example

/-- A database with one request of one user, with or without a content. -/
private def oneRequest (content : List (String × Json)) : Json :=
  .obj [("userRequests", .obj [("amy", .obj [("north", .obj [("x1", .str "r1")])])]),
    ("requests", .obj [("north", .obj [("r1", .obj ([("dateCreated", .double 1),
      ("delSlotStart", .int 2000), ("senderID", .str "amy"), ("status", .str "sent")] ++
        content))])])]

private def refreshingScreen : Screen := ⟨[], ⟨[], none⟩, true, 0⟩

private def unknownItem : Json := oneRequest [("content", .obj [("milk", .int 2)])]

/-- An item that the catalogue does not have does not keep the refresh from
    ending. -/
theorem refreshData_ends_iff_unknown_item :
    AlwaysEnds unknownItem none (some "amy") refreshingScreen := by
  have quantities : ∀ zoneSnap ∈ (indexNode unknownItem "amy").children,
      ∀ requestIDSnap ∈ zoneSnap.children, ∀ id ∈ asString requestIDSnap.value,
      ∀ childSnap ∈ contentOf unknownItem zoneSnap.key id, asInt childSnap.value ≠ none := by
    decide
  have filled : ∀ zoneSnap ∈ (indexNode unknownItem "amy").children,
      zoneSnap.children ≠ [] ∧
      ∀ requestIDSnap ∈ zoneSnap.children, ∀ id ∈ asString requestIDSnap.value,
      isValidPathString s!"requests/{zoneSnap.key}/{id}" = true ∧
        (decodeHead (requestNode unknownItem zoneSnap.key id) = none ∨
          contentOf unknownItem zoneSnap.key id ≠ []) := by
    decide
  refine (refreshData_ends_iff ?_ ?_).mpr ⟨"amy", rfl, .inr ⟨by decide, filled⟩⟩
  · intro uid user
    obtain rfl := Option.some.inj user
    exact ⟨by decide, quantities⟩
  · intro row member
    cases member

/-- A request without content: all answers are in, and the indicator is on. -/
theorem refresh_without_content_hangs :
    ¬ AlwaysEnds (oneRequest []) none (some "amy") refreshingScreen := by
  intro ends
  have called := ends [.fetch .index fun _ => .listed, .fetch .turn fun _ => .listed,
    .fetch .turn fun _ => .listed, .fetch (.call 0 0 .node) fun _ => .listed] _ rfl rfl
  exact absurd called.1 (by decide)

end Example

end Kasei.Landing
