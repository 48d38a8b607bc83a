import Kasei.App.Gate

/-! # Whose requests the landing screen shows

The list comes from the saved requests, at launch and after every sync, and
nothing ties it to a user: signing out leaves it in place, and a fetch that was
started for one user syncs under another. It shows only the user's own requests
as long as every change of user, and every fetch that arrives, finds it so.
-/

namespace Kasei.App

open JsonTree Runs FanIn CoreData Landing

/-- What a signed-in user sees is the user's own. -/
def Private (device : Device) : Prop :=
  device.running = true → device.login = none → ∀ uid, device.currentUser = some uid →
    ∀ request ∈ device.screen.userRequests, request.senderID = uid

/-- A fetch delivers only requests that its user has sent. -/
def OwnRequests (device : Device) : Event → Prop
  | .fetched k requests _ _ => ∀ uid, device.fetches[k]? = some uid →
      ∀ request ∈ requests, request.senderID = uid
  | _ => True

/-- The step shows nobody the requests of another user: a launch finds saved
    requests of the persisted user only, a user who becomes the current one, or
    before whom the login screen goes away, finds a list of own requests, and a
    fetch that arrives was started for the current user or brings nothing. -/
def KeepsPrivate (database : Json) (device : Device) : Event → Prop
  | .launch _ _ => device.running = false → ∀ uid, device.currentUser = some uid →
      ∀ row ∈ device.screen.saved.store, row.senderID = uid
  | .authenticated k uid => device.running = true → device.login = none →
      (∃ login, device.attempts[k]? = some ⟨login, .authenticating⟩) →
      ∀ request ∈ device.screen.userRequests, request.senderID = uid
  | .roleReply k _ => ∀ login uid, device.attempts[k]? = some ⟨login, .lookingUp uid⟩ →
      Elderly database uid → (∃ screen, device.login = some screen ∧ screen.number = login) →
      ∀ user, device.currentUser = some user →
        ∀ request ∈ device.screen.userRequests, request.senderID = user
  | .fetched k requests _ _ => device.running = true → device.login = none →
      ∀ uid, device.fetches[k]? = some uid → ∀ user, device.currentUser = some user →
        uid = user ∨ requests = []
  | _ => True

/-- The invariant: what is saved is also shown, and to its own sender. -/
structure Guarded (device : Device) : Prop where
  shown : device.running = true → ∀ row ∈ device.screen.saved.store,
    ∃ request ∈ device.screen.userRequests, request.senderID = row.senderID
  own : Private device

section Steps

variable {database : Json} {device next : Device}

/-- A step that leaves the screen alone keeps the invariant if it changes
    neither the user nor what is in front. -/
theorem Guarded.unchanged (held : Guarded device) (running : next.running = device.running)
    (screen : next.screen = device.screen)
    (view : next.login = none → ∀ uid, next.currentUser = some uid →
      device.login = none ∧ device.currentUser = some uid) : Guarded next where
  shown := by
    rw [running, screen]
    exact held.shown
  own := by
    intro launched front uid user
    obtain ⟨before, same⟩ := view front uid user
    rw [screen]
    exact held.own (running ▸ launched) before uid same

theorem loaded_senders (order : FetchOrder) {store : List CDRequest} {uid : String}
    (rows : ∀ row ∈ store, row.senderID = uid) :
    ∀ request ∈ loadAllRequests order store, request.senderID = uid := by
  intro request member
  obtain ⟨row, inside, rfl⟩ := mem_loadAllRequests.mp member
  exact rows row inside

theorem loaded_shown (order : FetchOrder) (store : List CDRequest) :
    ∀ row ∈ store, ∃ request ∈ loadAllRequests order store, request.senderID = row.senderID :=
  fun row member => ⟨loadRequest order row, mem_loadAllRequests.mpr ⟨row, member, rfl⟩, rfl⟩

theorem guarded_launch {order : FetchOrder} {works : Bool}
    (rows : ∀ uid, device.currentUser = some uid →
      ∀ row ∈ device.screen.saved.store, row.senderID = uid) :
    Guarded (device.launch order works) := by
  cases user : device.currentUser with
  | none =>
      constructor
      · intro _
        simpa [Device.launch, Device.presentSignin, user] using
          loaded_shown order device.screen.saved.store
      · simp [Private, Device.launch, Device.presentSignin, user]
  | some uid =>
      constructor
      · intro _
        simpa [Device.launch, user] using loaded_shown order device.screen.saved.store
      · have senders := loaded_senders order (rows uid user)
        simpa [Private, Device.launch, user] using senders

theorem signout_eq_some {currentUser : Option String} {works : Bool} {uid : String}
    (user : signout currentUser works = some uid) : currentUser = some uid := by
  unfold signout at user
  split at user
  · cases user
  · exact user

theorem Guarded.refused (held : Guarded device) (login : Nat) {result : FirAuthHandlerResult}
    (refused : result ≠ .success) : Guarded (device.result login result) := by
  apply held.unchanged (result_running ..) (result_screen ..)
  intro front uid user
  rw [result_login] at front
  rw [result_currentUser] at user
  obtain absent | ⟨success, -⟩ := front
  · exact ⟨absent, user⟩
  · exact absurd success refused

theorem guarded_roleReply (held : Guarded device) {login : Nat} {uid : String} {works : Bool}
    (keeps : Elderly database uid →
      (∃ screen, device.login = some screen ∧ screen.number = login) →
      ∀ user, device.currentUser = some user →
        ∀ request ∈ device.screen.userRequests, request.senderID = user) :
    Guarded (device.roleReply database login uid works) := by
  unfold Device.roleReply
  cases looked : role database uid with
  | none => exact held.refused login (by decide)
  | some found =>
      by_cases elderly : found = "elderly"
      · subst elderly
        simp only [if_true]
        constructor
        · simpa using held.shown
        · intro running front user current
          rw [result_running] at running
          rw [result_login] at front
          rw [result_currentUser] at current
          rw [result_screen]
          obtain absent | ⟨-, own⟩ := front
          · exact held.own running absent user current
          · exact keeps looked own user current
      · simp only [if_neg elderly]
        have signedOut : Guarded { device with
            currentUser := signout device.currentUser works } :=
          held.unchanged rfl rfl fun front uid user => ⟨front, signout_eq_some user⟩
        exact signedOut.refused login (by decide)

/-- A fetch for the current user, or one that brings nothing, leaves only rows
    of that user in the store. -/
theorem guarded_fetched (held : Guarded device) {requests : List Request}
    {orders : Nat → FetchOrder} {languageCode : Option String} {screen : Screen}
    {fetches : List String}
    (keeps : device.running = true → device.login = none → ∀ user, device.currentUser = some user →
      ∀ request ∈ requests, request.senderID = user)
    (received : device.screen.received orders languageCode (some requests) = some screen) :
    Guarded { device with screen := screen, fetches := fetches } := by
  simp only [Screen.received, Option.bind_eq_bind, Option.bind_eq_some_iff] at received
  obtain ⟨saved, synced, last⟩ := received
  obtain rfl := Option.some.inj last
  constructor
  · intro _
    exact loaded_shown (orders 0) saved.store
  · intro running front user current
    have rows : ∀ row ∈ device.screen.saved.store, row.senderID = user := by
      intro row member
      obtain ⟨request, inside, same⟩ := held.shown running row member
      rw [← same]
      exact held.own running front user current request inside
    apply loaded_senders
    exact updateSavedRequests_rows (fun _ sender => sender) rows
      (keeps running front user current) synced

theorem guarded_step (held : Guarded device) {event : Event}
    (own : OwnRequests device event) (keeps : KeepsPrivate database device event)
    (taken : device.step database event = some next) : Guarded next := by
  cases Device.step_effect taken with
  | quiet _ same =>
      apply held.unchanged same.running same.screen
      intro front uid user
      exact ⟨same.login.mp front, same.currentUser ▸ user⟩
  | launched order works stopped => exact guarded_launch (keeps stopped)
  | terminated =>
      constructor
      · intro running
        cases running
      · intro running
        cases running
  | @authenticated k login uid found =>
      refine ⟨held.shown, ?_⟩
      intro running front user current
      obtain rfl := Option.some.inj current
      exact keeps running front ⟨login, found⟩
  | @roleReplied k login uid works found =>
      have ended : Guarded (device.moveTo k ⟨login, .lookingUp uid⟩ .ended) :=
        held.unchanged rfl rfl fun front _ user => ⟨front, user⟩
      exact guarded_roleReply ended (keeps login uid found)
  | signedOut works worksAgain =>
      refine ⟨held.shown, ?_⟩
      intro _ front
      cases front
  | @fetched k uid requests orders languageCode screen started received =>
      apply guarded_fetched held _ received
      intro running front user current request member
      obtain rfl | rfl := keeps running front uid started user current
      · exact own uid started request member
      · cases member

end Steps

/-- From a device on which the app is not running: if fetches deliver only what
    their users have sent and no step shows a list to another user, every state
    of the run shows users only their own requests. -/
theorem private_always {database : Json} {device : Device} (stopped : device.running = false)
    {events : List Event} (own : Along (Device.step database) OwnRequests device events)
    (keeps : Along (Device.step database) (KeepsPrivate database) device events) :
    Always (Device.step database) Private device events := by
  have start : Guarded device := by
    constructor <;> intro running <;> rw [stopped] at running <;> cases running
  have guarded : Always (Device.step database) Guarded device events :=
    (own.and keeps).always (fun _ _ _ held met taken => guarded_step held met.1 met.2 taken) start
  exact guarded.mono fun _ held => held.own

section Fetching

variable {database : Json} {languageCode : Option String} {uid : String}

/-- The index of a user lists only requests that the user has sent. -/
def OwnIndex (database : Json) (uid : String) : Prop :=
  ∀ entry ∈ validEntries database (indexNode database uid).children,
    ∀ head, decodeHead (requestNode database entry.1 entry.2) = some head → head.senderID = uid

/-- On such an index every fetch for the user delivers as `OwnRequests` asks. -/
theorem fetched_own (typed : WellTyped database (indexNode database uid).children)
    (own : OwnIndex database uid) {events : List FetchEvent} {fetch : Fetch}
    {completions : List (List Request)}
    (ran : run (recording (Fetch.step database languageCode)) (fetchAllUserRequests (some uid), [])
      events = some (fetch, completions)) :
    ∀ requests ∈ completions, ∀ request ∈ requests, request.senderID = uid := by
  obtain ⟨reached, again, sound⟩ := recording_total
    (fun _ event held => Fetch.step_spec (fun _ user => Option.some.inj user ▸ typed) held event)
    (fetchAllUserRequests_sound database languageCode (some uid)) events
  rw [fetchAllUserRequests_unfinished, ran] at again
  obtain ⟨rfl, rfl⟩ := Prod.mk.inj (Option.some.inj again)
  intro requests member request inside
  unfold deliveries at member
  split at member
  · rename_i done
    obtain rfl := List.mem_singleton.mp member
    obtain ⟨-, user, same, answered, perm, answers⟩ := sound.delivered done
    obtain rfl := Option.some.inj same
    obtain ⟨i, found⟩ := List.mem_iff_getElem?.mp (perm.mem_iff.mp inside)
    obtain ⟨entry, listed, ⟨head, decoded, shape, -⟩, -⟩ := forall₂_set answers found
    rw [shape]
    exact own entry listed head decoded
  · cases member

end Fetching

section Example

private def elders : Json :=
  .obj [("authroles", .obj [("amy", .str "elderly"), ("ben", .str "elderly")])]

private def sentByAmy : Request :=
  { id := some "r1", dateCreated := some 1, senderID := "amy", status := some "sent"
    delSlotStart := some 2, items := [] }

/-- A device on which Amy is still signed in from an earlier launch. -/
private def amysDevice : Device :=
  ⟨false, some "amy", none, 0, [], ⟨[], ⟨[cdrequest sentByAmy], none⟩, false, 0⟩, []⟩

/-- Amy starts the app again, and the fetch of the launch arrives. -/
theorem private_always_relaunch :
    Always (Device.step elders) Private amysDevice
      [.launch .listed true, .fetched 0 [sentByAmy] (fun _ => .listed) none] := by
  apply private_always rfl
  · refine ⟨trivial, ?_⟩
    rintro _ ⟨⟩
    refine ⟨?_, fun _ _ => trivial⟩
    intro uid started request member
    obtain rfl := List.mem_singleton.mp member
    exact Option.some.inj started
  · refine ⟨?_, ?_⟩
    · intro _ uid user row member
      obtain rfl := List.mem_singleton.mp member
      exact Option.some.inj user
    · rintro _ ⟨⟩
      refine ⟨?_, fun _ _ => trivial⟩
      intro _ _ uid started user current
      exact .inl ((Option.some.inj started).symm.trans (Option.some.inj current))

private def freshDevice : Device :=
  ⟨false, none, none, 0, [], ⟨[], ⟨[], none⟩, false, 0⟩, []⟩

/-- Amy signs in for the first time and refreshes. -/
private def amysSession : List Event :=
  [.launch .listed true, .signIn, .authenticated 0 "amy", .authCallback 0, .roleReply 0 true,
    .refresh]

/-- Her request arrives, she signs out, and Ben signs in on the same device. -/
private def bensSession : List Event :=
  [.fetched 0 [sentByAmy] (fun _ => .listed) none, .signOut true true, .signIn,
    .authenticated 1 "ben", .authCallback 1, .roleReply 1 true]

private def signedIn : Device :=
  ⟨true, some "amy", none, 1, [⟨0, .ended⟩], ⟨loadAllRequests .listed [], ⟨[], none⟩, false, 0⟩,
    ["amy"]⟩

private def synced : Device :=
  ⟨true, some "amy", none, 1, [⟨0, .ended⟩],
    ⟨loadAllRequests .listed [cdrequest sentByAmy], ⟨[cdrequest sentByAmy], none⟩, false, 1⟩, []⟩

private theorem first_fetch : signedIn.step elders
    (.fetched 0 [sentByAmy] (fun _ => .listed) none) = some synced := by
  simp [Device.step, signedIn, synced, Screen.received, updateSavedRequests, loadAllRequests,
    FetchOrder.listed, syncOld, saveRequest]

theorem second_user_sees_first :
    Along (Device.step elders) OwnRequests freshDevice (amysSession ++ bensSession) ∧
      ¬ Always (Device.step elders) Private freshDevice (amysSession ++ bensSession) := by
  constructor
  · apply Along.append
    · apply Along.of_forall
      simp [amysSession, OwnRequests]
    · rintro _ ⟨⟩
      refine ⟨?_, fun _ _ => Along.of_forall (by simp [OwnRequests])⟩
      intro uid started request member
      obtain rfl := List.mem_singleton.mp member
      exact Option.some.inj started
  · intro held
    have ran : run (Device.step elders) freshDevice (amysSession ++ bensSession) =
        run (Device.step elders) synced bensSession.tail := by
      rw [run_append,
        show run (Device.step elders) freshDevice amysSession = some signedIn from rfl]
      simp only [Option.bind_some, bensSession, run_cons, first_fetch, List.tail_cons]
    have shown := held.last (ran.trans rfl)
    have own := shown rfl rfl "ben" rfl (loadRequest .listed (cdrequest sentByAmy))
      (mem_loadAllRequests.mpr ⟨_, List.mem_singleton_self _, rfl⟩)
    exact absurd own (by decide)

end Example

end Kasei.App
