import Kasei.App.Device

/-! # The profile screen

A card over the landing screen with the details of whoever is signed in when it
loads, and the button that signs out. The details are read once; the user may
close the card before they come, and open another one. Until then, and for a
user without details, the card says that it is loading.

Nothing ties a card to the user it was opened for. What does is that the user
changes on a login screen only, provided that no attempt outlives its screen:
an attempt does so only if the button is tapped again while it is under way.
-/

namespace Kasei.App

open JsonTree Runs

structure ProfileDetails where
  name : String
  email : String
  address : String
  deriving Repr, DecidableEq

/-- A text or a number. The text -1 is taken for a missing code, too. -/
def postalCode (value : Json) : String :=
  let postalCode := (asString value).getD (toString ((asInt value).getD (-1)))
  if postalCode = "-1" then "Unavailable" else postalCode

/-- The three labels of the cell with the details. -/
structure ProfileDetailsCell where
  nameLabel : String
  emailLabel : String
  addressLabel : String
  deriving Repr, DecidableEq

/-- `reading` is the user whose details the card still waits for. -/
structure ProfileViewController where
  reading : Option String
  profileDetails : Option ProfileDetails
  deriving Repr, DecidableEq

/-- The device with all profile cards since the launch, and the one in front. -/
structure Home where
  device : Device
  cards : List ProfileViewController
  front : Option Nat

inductive HomeEvent where
  | app (event : Event)
  | clickedProfileBtn
  | clickedDismiss
  /-- The database answers what a card has asked for. -/
  | profileReply (k : Nat)
  /-- A button of the card, and whether Firebase can sign out twice. -/
  | buttonClicked (reuseId : String) (works worksAgain : Bool)

section Model

variable (database : Json) (localized : String → String)

/-- The answer to `retrieveProfileDetails` for a user. -/
def retrieveProfileDetails (uid : String) : Option ProfileDetails := do
  let snapshot := observeSingleEvent database ["elderly"] uid
  let name ← asString (snapshot.childSnapshot "Name").value
  let email ← asString (snapshot.childSnapshot "Email").value
  let address ← asString (snapshot.childSnapshot "Address").value
  let postalCode := postalCode (snapshot.childSnapshot "PostalCode").value
  return ⟨name, email, address ++ ", " ++ localized "Singapore" ++ " " ++ postalCode⟩

def profileDetailsCell (profileDetails : Option ProfileDetails) : ProfileDetailsCell :=
  let defaultText := localized "Loading..."
  { nameLabel := (profileDetails.map ProfileDetails.name).getD defaultText
    emailLabel := (profileDetails.map ProfileDetails.email).getD defaultText
    addressLabel := (profileDetails.map ProfileDetails.address).getD defaultText }

/-- Without a user the read completes at once, with nothing. -/
def ProfileViewController.viewDidLoad (currentUser : Option String) : ProfileViewController :=
  ⟨currentUser, none⟩

def ProfileViewController.received (card : ProfileViewController) : ProfileViewController :=
  match card.reading with
  | none => card
  | some uid => ⟨none, retrieveProfileDetails database localized uid⟩

namespace Home

def start (device : Device) : Home := ⟨device, [], none⟩

def frontCard (home : Home) : Option ProfileViewController := home.front.bind (home.cards[·]?)

/-- The cards go away before the user is signed out. -/
def handleSignOut (home : Home) (works worksAgain : Bool) : Option Home :=
  (home.device.step database (.signOut works worksAgain)).map fun device =>
    { home with device := device, front := none }

/-- The other button opens the settings of the phone. -/
def buttonClicked (home : Home) (reuseId : String) (works worksAgain : Bool) : Option Home :=
  if reuseId = "signOutCell" then home.handleSignOut database works worksAgain else some home

/-- The user signs out on a card only, and the cards end with the process. -/
def step (home : Home) : HomeEvent → Option Home
  | .app (.signOut _ _) => some home
  | .app .terminate => some (.start home.device.terminate)
  | .app event => (home.device.step database event).map fun device =>
      { home with device := device }
  | .clickedProfileBtn =>
      if home.device.running ∧ home.device.login = none ∧ home.front = none then
        some { home with
          cards := home.cards ++ [.viewDidLoad home.device.currentUser]
          front := some home.cards.length }
      else some home
  | .clickedDismiss => some { home with front := none }
  | .profileReply k =>
      match home.cards[k]? with
      | none => some home
      | some card => some { home with
          cards := home.cards.set k (card.received database localized) }
  | .buttonClicked reuseId works worksAgain =>
      match home.front with
      | none => some home
      | some _ => home.buttonClicked database reuseId works worksAgain

end Home

end Model

/-! ## No attempt outlives its screen -/

def Device.Idle (device : Device) : Prop := ∀ attempt ∈ device.attempts, attempt.stage = .ended

/-- One attempt at a time, each about the current user, and none behind a login
    screen that has gone. -/
structure Settled (device : Device) : Prop where
  alone : ∀ (i j : Nat) (one two : Attempt), device.attempts[i]? = some one →
    device.attempts[j]? = some two → one.stage ≠ .ended → two.stage ≠ .ended → i = j
  user : ∀ attempt ∈ device.attempts, ∀ uid, attempt.stage = .lookingUp uid →
    device.currentUser = some uid
  closed : device.login = none → device.currentUser ≠ none ∧ device.Idle

/-- The button of the login screen is not tapped while an attempt is under way. -/
def Patient (home : Home) : HomeEvent → Prop
  | .app .signIn => home.device.login = none ∨ home.device.Idle
  | _ => True

section Attempts

variable {database : Json} {device next : Device} {k : Nat} {attempt : Attempt}

theorem roleReply_running (login : Nat) (uid : String) (works : Bool) :
    (device.roleReply database login uid works).running = device.running := by
  unfold Device.roleReply
  split
  · exact result_running ..
  · split <;> exact result_running ..

theorem fetched_same {requests : List Request} {orders : Nat → CoreData.FetchOrder}
    {languageCode : Option String}
    (taken : device.step database (.fetched k requests orders languageCode) = some next) :
    next.attempts = device.attempts ∧ next.currentUser = device.currentUser ∧
      next.login = device.login := by
  simp only [Device.step] at taken
  split at taken
  · obtain rfl := Option.some.inj taken
    exact ⟨rfl, rfl, rfl⟩
  · obtain ⟨screen, -, last⟩ := Option.bind_eq_some_iff.mp taken
    obtain rfl := Option.some.inj last
    exact ⟨rfl, rfl, rfl⟩

theorem Settled.idle (idle : device.Idle)
    (closed : device.login = none → device.currentUser ≠ none) : Settled device where
  alone i _ one _ here _ running _ := absurd (idle one (List.mem_of_getElem? here)) running
  user attempt member uid stage := by
    rw [idle attempt member] at stage
    cases stage
  closed front := ⟨closed front, idle⟩

/-- The login screen is in front of whoever waits for an attempt. -/
theorem Settled.covered (settled : Settled device) (found : device.attempts[k]? = some attempt)
    (running : attempt.stage ≠ .ended) : device.login ≠ none := by
  intro gone
  exact running ((settled.closed gone).2 attempt (List.mem_of_getElem? found))

/-- The attempt that is under way goes on. -/
theorem Settled.moved (settled : Settled device) (found : device.attempts[k]? = some attempt)
    (running : attempt.stage ≠ .ended) {stage : AttemptStage}
    (attempts : next.attempts = device.attempts.set k { attempt with stage := stage })
    (looked : ∀ uid, stage = .lookingUp uid → next.currentUser = some uid)
    (closed : next.login = none → next.currentUser ≠ none ∧ stage = .ended) : Settled next := by
  have place : ∀ i one, next.attempts[i]? = some one →
      i = k ∧ one.stage = stage ∨ one.stage = .ended := by
    intro i one here
    rw [attempts, List.getElem?_set] at here
    split at here
    · rename_i own
      simp only [Option.ite_none_right_eq_some, Option.some.injEq] at here
      exact .inl ⟨own.symm, here.2 ▸ rfl⟩
    · rename_i other
      refine .inr (by_contra fun under => other ?_)
      exact settled.alone k i attempt one found here running under
  constructor
  · intro i j one two here there first second
    obtain ⟨rfl, -⟩ := (place i one here).resolve_right first
    obtain ⟨rfl, -⟩ := (place j two there).resolve_right second
    rfl
  · intro one member uid looking
    obtain ⟨i, here⟩ := List.mem_iff_getElem?.mp member
    obtain ⟨-, same⟩ | ended := place i one here
    · exact looked uid (same.symm.trans looking)
    · rw [ended] at looking
      cases looking
  · intro front
    obtain ⟨user, last⟩ := closed front
    refine ⟨user, fun one member => ?_⟩
    obtain ⟨i, here⟩ := List.mem_iff_getElem?.mp member
    obtain ⟨-, same⟩ | ended := place i one here
    · exact same.trans last
    · exact ended

theorem Settled.same (settled : Settled device) (attempts : next.attempts = device.attempts)
    (user : next.currentUser = device.currentUser)
    (login : next.login = none → device.login = none) : Settled next := by
  refine ⟨?_, ?_, fun front => ?_⟩
  · rw [attempts]
    exact settled.alone
  · rw [attempts, user]
    exact settled.user
  · rw [user, Device.Idle, attempts]
    exact settled.closed (login front)

theorem Settled.signIn (settled : Settled device)
    (patient : device.login = none ∨ device.Idle)
    (taken : device.step database .signIn = some next) : Settled next := by
  simp only [Device.step] at taken
  split at taken <;> obtain rfl := Option.some.inj taken
  · exact settled
  · rename_i screen front
    have idle : device.Idle := patient.resolve_left (by simp [front])
    have last : ∀ i one, (device.attempts ++ [⟨screen.number, .authenticating⟩])[i]? = some one →
        one.stage ≠ .ended → i = device.attempts.length ∧ one.stage = .authenticating := by
      intro i one here running
      rw [List.getElem?_append] at here
      split at here
      · exact absurd (idle one (List.mem_of_getElem? here)) running
      · obtain ⟨place, rfl⟩ := List.getElem?_eq_some_iff.mp here
        simp only [List.length_singleton, Nat.lt_one_iff] at place
        exact ⟨by omega, by simp [place]⟩
    refine ⟨fun i j one two here there first second => ?_, fun one member uid looking => ?_, ?_⟩
    · exact (last i one here first).1.trans (last j two there second).1.symm
    · obtain ⟨i, here⟩ := List.mem_iff_getElem?.mp member
      have started := (last i one here (by simp [looking])).2
      rw [looking] at started
      cases started
    · simp [front]

theorem Settled.authenticated (settled : Settled device) {uid : String}
    (taken : device.step database (.authenticated k uid) = some next) : Settled next := by
  simp only [Device.step] at taken
  split at taken <;> obtain rfl := Option.some.inj taken
  · rename_i login found
    exact settled.moved found (by simp) rfl (fun _ looking => (by cases looking))
      fun gone => absurd gone (settled.covered found (by simp))
  · exact settled

theorem Settled.signOut (settled : Settled device) {works worksAgain : Bool}
    (taken : device.step database (.signOut works worksAgain) = some next) : Settled next := by
  simp only [Device.step] at taken
  split at taken <;> obtain rfl := Option.some.inj taken
  · rename_i front
    exact .idle (settled.closed front.2).2 (by simp [Device.presentSignin])
  · exact settled

theorem Settled.authFailed (settled : Settled device) {error : Option AuthErrorCode}
    (taken : device.step database (.authFailed k error) = some next) : Settled next := by
  simp only [Device.step] at taken
  split at taken
  · rename_i login found
    have covered := settled.covered found (by simp)
    have ended : Settled (device.moveTo k ⟨login, .authenticating⟩ .ended) :=
      settled.moved found (by simp) rfl (fun _ looking => (by cases looking))
        fun gone => absurd gone covered
    split at taken <;> obtain rfl := Option.some.inj taken
    · rename_i authErr
      refine ended.same (result_attempts ..) (result_currentUser ..) fun gone => ?_
      rw [result_login] at gone
      cases authErr <;> simpa [handleAuthErrors] using gone
    · exact ended
  · obtain rfl := Option.some.inj taken
    exact settled

theorem Settled.authCallback (settled : Settled device)
    (taken : device.step database (.authCallback k) = some next) : Settled next := by
  simp only [Device.step] at taken
  split at taken
  · rename_i login found
    have covered := settled.covered found (by simp)
    split at taken <;> obtain rfl := Option.some.inj taken
    · rename_i uid user
      refine settled.moved found (by simp) rfl (fun other looking => ?_)
        fun gone => absurd gone covered
      obtain rfl := AttemptStage.lookingUp.inj looking
      exact user
    · exact settled.moved found (by simp) rfl (fun _ looking => (by cases looking))
        fun gone => absurd gone covered
  · obtain rfl := Option.some.inj taken
    exact settled

theorem Settled.roleReply (settled : Settled device) {works : Bool}
    (taken : device.step database (.roleReply k works) = some next) : Settled next := by
  simp only [Device.step] at taken
  split at taken <;> obtain rfl := Option.some.inj taken
  · rename_i login uid found
    have covered := settled.covered found (by simp)
    have user := settled.user _ (List.mem_of_getElem? found) uid rfl
    have ended : ∀ currentUser : Option String, Settled
        { device.moveTo k ⟨login, .lookingUp uid⟩ .ended with currentUser := currentUser } :=
      fun currentUser => settled.moved found (by simp) rfl (fun _ looking => (by cases looking))
        fun gone => absurd gone covered
    have refused : ∀ currentUser result, result ≠ .success → Settled (Device.result
        { device.moveTo k ⟨login, .lookingUp uid⟩ .ended with currentUser := currentUser } login
        result) := by
      intro currentUser result failed
      refine (ended currentUser).same (result_attempts ..) (result_currentUser ..) fun gone => ?_
      rw [result_login] at gone
      exact gone.resolve_right fun success => failed success.1
    unfold Device.roleReply
    split
    · exact refused device.currentUser .other (by decide)
    · split
      · have attempts : (Device.result (device.moveTo k ⟨login, .lookingUp uid⟩ .ended) login
            .success).attempts = (device.moveTo k ⟨login, .lookingUp uid⟩ .ended).attempts :=
          result_attempts ..
        refine settled.moved found (by simp) attempts (fun _ looking => (by cases looking))
          fun _ => ⟨?_, rfl⟩
        rw [result_currentUser]
        exact user ▸ Option.some_ne_none uid
      · exact refused _ .wrongRole (by decide)
  · exact settled

theorem settled_launch (device : Device) (order : CoreData.FetchOrder) (works : Bool) :
    Settled (device.launch order works) := by
  unfold Device.launch
  cases user : device.currentUser with
  | none =>
      exact .idle (by simp [Device.Idle, Device.presentSignin]) (by simp [Device.presentSignin])
  | some uid => exact .idle (by simp [Device.Idle]) (by simp)

theorem Device.step_running {event : Event} (taken : device.step database event = some next)
    (launches : ∀ order works, event ≠ .launch order works) (ends : event ≠ .terminate) :
    next.running = device.running := by
  cases Device.step_effect taken with
  | quiet _ same => exact same.running
  | launched order works => exact absurd rfl (launches order works)
  | terminated => exact absurd rfl ends
  | roleReplied works found => exact roleReply_running ..
  | authenticated | signedOut | fetched => rfl

theorem Settled.step {event : Event} (settled : Settled device) (running : device.running = true)
    (ends : event ≠ .terminate) (patient : event = .signIn → device.login = none ∨ device.Idle)
    (taken : device.step database event = some next) : Settled next := by
  cases event with
  | launch order works =>
      obtain rfl := Option.some.inj taken
      rw [if_pos running]
      exact settled
  | terminate => exact absurd rfl ends
  | signIn => exact settled.signIn (patient rfl) taken
  | authenticated k uid => exact settled.authenticated taken
  | authFailed k error => exact settled.authFailed taken
  | authCallback k => exact settled.authCallback taken
  | roleReply k works => exact settled.roleReply taken
  | signOut works worksAgain => exact settled.signOut taken
  | refresh =>
      obtain rfl := Option.some.inj taken
      rw [if_pos running]
      exact settled.same rfl rfl id
  | fetched k requests orders languageCode =>
      obtain ⟨attempts, user, login⟩ := fetched_same taken
      exact settled.same attempts user fun gone => login ▸ gone

theorem settled_step {event : Event} (settled : device.running = true → Settled device)
    (patient : event = .signIn → device.login = none ∨ device.Idle)
    (taken : device.step database event = some next) (running : next.running = true) :
    Settled next := by
  by_cases ends : event = .terminate
  · subst ends
    obtain rfl := Option.some.inj taken
    cases running
  · cases before : device.running with
    | true => exact (settled before).step before ends patient taken
    | false =>
        cases event with
        | launch order works =>
            obtain rfl := Option.some.inj taken
            rw [before, if_neg Bool.false_ne_true]
            exact settled_launch device order works
        | _ =>
            rw [Device.step_running taken (by simp) ends, before] at running
            cases running

/-- Without a login screen in front the user stays who it is until it signs out. -/
theorem Settled.steady {event : Event} (settled : Settled device)
    (running : device.running = true) (front : device.login = none) (ends : event ≠ .terminate)
    (stays : ∀ works worksAgain, event ≠ .signOut works worksAgain)
    (taken : device.step database event = some next) :
    next.running = true ∧ next.login = none ∧ next.currentUser = device.currentUser := by
  cases Device.step_effect taken with
  | quiet _ same => exact ⟨same.running.trans running, same.login.mpr front, same.currentUser⟩
  | launched order works stopped =>
      rw [running] at stopped
      cases stopped
  | terminated => exact absurd rfl ends
  | authenticated uid found => exact absurd front (settled.covered found (by simp))
  | roleReplied works found => exact absurd front (settled.covered found (by simp))
  | signedOut works worksAgain => exact absurd rfl (stays works worksAgain)
  | fetched => exact ⟨running, front, rfl⟩

end Attempts

/-! ## Whose details a card shows -/

/-- A card that waits for the details of the user, or has them. -/
inductive ProfileViewController.Of (database : Json) (localized : String → String) (uid : String) :
    ProfileViewController → Prop where
  | waiting : Of database localized uid ⟨some uid, none⟩
  | answered : Of database localized uid ⟨none, retrieveProfileDetails database localized uid⟩

/-- The card in front is one of the current user, behind whom no attempt is left. -/
structure Home.Sound (database : Json) (localized : String → String) (home : Home) : Prop where
  settled : home.device.running = true → Settled home.device
  front : ∀ k, home.front = some k → home.device.running = true ∧ home.device.login = none ∧
    ∃ uid card, home.device.currentUser = some uid ∧ home.cards[k]? = some card ∧
      card.Of database localized uid

section Cards

variable {database : Json} {localized : String → String} {home next : Home}

theorem Home.Sound.closed (settled : home.device.running = true → Settled home.device) :
    { home with front := none }.Sound database localized :=
  ⟨settled, fun _ front => (nomatch front)⟩

theorem ProfileViewController.Of.received {uid : String} {card : ProfileViewController}
    (own : card.Of database localized uid) :
    (card.received database localized).Of database localized uid := by
  cases own <;> exact .answered

theorem Home.step_app {event : Event} (ends : event ≠ .terminate)
    (stays : ∀ works worksAgain, event ≠ .signOut works worksAgain) :
    home.step database localized (.app event) =
      (home.device.step database event).map fun device => { home with device := device } := by
  cases event with
  | terminate => exact absurd rfl ends
  | signOut works worksAgain => exact absurd rfl (stays works worksAgain)
  | _ => rfl

theorem Home.Sound.app (sound : home.Sound database localized) {event : Event}
    (ends : event ≠ .terminate) (stays : ∀ works worksAgain, event ≠ .signOut works worksAgain)
    (patient : event = .signIn → home.device.login = none ∨ home.device.Idle) {device : Device}
    (taken : home.device.step database event = some device) :
    { home with device := device }.Sound database localized := by
  refine ⟨fun running => settled_step sound.settled patient taken running, fun k front => ?_⟩
  obtain ⟨running, login, uid, card, user, own⟩ := sound.front k front
  obtain ⟨running', login', same⟩ :=
    (sound.settled running).steady running login ends stays taken
  exact ⟨running', login', uid, card, same.trans user, own⟩

theorem Home.Sound.presented (sound : home.Sound database localized)
    (running : home.device.running = true) (login : home.device.login = none) :
    { home with
      cards := home.cards ++ [ProfileViewController.viewDidLoad home.device.currentUser]
      front := some home.cards.length }.Sound database localized := by
  refine ⟨sound.settled, fun k front => ⟨running, login, ?_⟩⟩
  obtain rfl := Option.some.inj front
  obtain ⟨uid, user⟩ := Option.ne_none_iff_exists'.mp ((sound.settled running).closed login).1
  refine ⟨uid, _, user, List.getElem?_concat_length, ?_⟩
  rw [user]
  exact .waiting

theorem Home.Sound.answered (sound : home.Sound database localized) {k : Nat}
    {card : ProfileViewController} (found : home.cards[k]? = some card) :
    { home with cards := home.cards.set k (card.received database localized) }.Sound database
      localized := by
  refine ⟨sound.settled, fun j front => ?_⟩
  obtain ⟨running, login, uid, other, user, there, own⟩ := sound.front j front
  by_cases same : k = j
  · subst same
    obtain rfl := Option.some.inj (found.symm.trans there)
    have inside := (List.getElem?_eq_some_iff.mp found).1
    exact ⟨running, login, uid, _, user, List.getElem?_set_self inside, own.received⟩
  · exact ⟨running, login, uid, other, user, (List.getElem?_set_ne same).trans there, own⟩

theorem Home.step_sound (sound : home.Sound database localized) {event : HomeEvent}
    (patient : Patient home event)
    (taken : home.step database localized event = some next) : next.Sound database localized := by
  cases event with
  | app event =>
      cases event with
      | signOut works worksAgain =>
          obtain rfl := Option.some.inj taken
          exact sound
      | terminate =>
          obtain rfl := Option.some.inj taken
          exact ⟨fun running => (nomatch running), fun _ front => (nomatch front)⟩
      | signIn =>
          rw [Home.step_app (by simp) (by simp)] at taken
          obtain ⟨device, moved, rfl⟩ := Option.map_eq_some_iff.mp taken
          exact sound.app (by simp) (by simp) (fun _ => patient) moved
      | _ =>
          rw [Home.step_app (by simp) (by simp)] at taken
          obtain ⟨device, moved, rfl⟩ := Option.map_eq_some_iff.mp taken
          exact sound.app (by simp) (by simp) (by simp) moved
  | clickedProfileBtn =>
      simp only [Home.step] at taken
      split at taken <;> obtain rfl := Option.some.inj taken
      · rename_i open_
        exact sound.presented open_.1 open_.2.1
      · exact sound
  | clickedDismiss =>
      obtain rfl := Option.some.inj taken
      exact .closed sound.settled
  | profileReply k =>
      simp only [Home.step] at taken
      split at taken <;> obtain rfl := Option.some.inj taken
      · exact sound
      · rename_i found
        exact sound.answered found
  | buttonClicked reuseId works worksAgain =>
      simp only [Home.step] at taken
      split at taken
      · obtain rfl := Option.some.inj taken
        exact sound
      · simp only [Home.buttonClicked] at taken
        split at taken
        · obtain ⟨device, moved, rfl⟩ := Option.map_eq_some_iff.mp taken
          refine ⟨fun running => ?_, fun _ front => (nomatch front)⟩
          exact settled_step sound.settled (by simp) moved running
        · obtain rfl := Option.some.inj taken
          exact sound

end Cards

/-- The card in front is about the user who is signed in: it says that it is
    loading, and once it has been answered, it has all the details there are. -/
def OwnProfile (database : Json) (localized : String → String) (home : Home) : Prop :=
  ∀ card, home.frontCard = some card → ∃ uid, home.device.currentUser = some uid ∧
    profileDetailsCell localized card.profileDetails =
      if card.reading = none then
        profileDetailsCell localized (retrieveProfileDetails database localized uid)
      else profileDetailsCell localized none

/-- Without a login screen no attempt is under way. -/
def NoneLeft (home : Home) : Prop :=
  home.device.running = true → home.device.login = none → home.device.Idle

/-- From a device on which the app is not running: as long as nobody signs in while
    an attempt is under way, no attempt outlives its login screen, and the profile
    is that of the user who is signed in, in every state and whatever is opened,
    closed and answered in between. -/
theorem profile_is_own {database : Json} {localized : String → String} {device : Device}
    (stopped : device.running = false) {events : List HomeEvent}
    (patient : Along (Home.step database localized) Patient (.start device) events) :
    Always (Home.step database localized)
      (fun home => NoneLeft home ∧ OwnProfile database localized home) (.start device)
      events := by
  have start : (Home.start device).Sound database localized := by
    refine ⟨fun running => ?_, fun _ front => (nomatch front)⟩
    rw [show (Home.start device).device.running = false from stopped] at running
    cases running
  have sound := patient.always
    (fun _ _ _ held met taken => Home.step_sound held met taken) start
  refine sound.mono fun home held => ⟨fun running gone => ?_, fun card inFront => ?_⟩
  · exact ((held.settled running).closed gone).2
  · obtain ⟨k, front, here⟩ := Option.bind_eq_some_iff.mp inFront
    obtain ⟨-, -, uid, _, user, there, own⟩ := held.front k front
    obtain rfl := Option.some.inj (here.symm.trans there)
    refine ⟨uid, user, ?_⟩
    cases own <;> rfl

section Example

private def neighbours : Json :=
  .obj [("authroles", .obj [("amy", .str "elderly"), ("ben", .str "elderly")]),
    ("elderly", .obj [("amy", .obj [("Name", .str "Amy"), ("Email", .str "amy@home"),
      ("Address", .str "1 Sea Road"), ("PostalCode", .int 680001)])])]

private def newPhone : Device :=
  ⟨false, none, none, 0, [], ⟨[], ⟨[], none⟩, false, 0⟩, []⟩

/-- Amy signs in, and opens her profile twice. -/
private def amysVisit : List HomeEvent :=
  [.app (.launch .listed true), .app .signIn, .app (.authenticated 0 "amy"),
    .app (.authCallback 0), .app (.roleReply 0 true), .clickedProfileBtn, .clickedDismiss,
    .clickedProfileBtn, .profileReply 1]

theorem profile_is_own_second_card :
    Always (Home.step neighbours id) (fun home => NoneLeft home ∧ OwnProfile neighbours id home)
      (.start newPhone) amysVisit ∧
      ∃ home card, run (Home.step neighbours id) (.start newPhone) amysVisit = some home ∧
        home.frontCard = some card ∧ profileDetailsCell id card.profileDetails =
          ⟨"Amy", "amy@home", "1 Sea Road, Singapore 680001"⟩ := by
  constructor
  · apply profile_is_own rfl
    refine ⟨trivial, ?_⟩
    rintro _ ⟨⟩
    refine ⟨.inr (List.forall_mem_nil _), ?_⟩
    rintro _ ⟨⟩
    exact .of_forall (by simp [Patient])
  · exact ⟨_, _, rfl, rfl, rfl⟩

/-- Ben's attempt was under way when Amy's brought her in. -/
example : (run (Home.step neighbours id) (.start newPhone)
    [.app (.launch .listed true), .app .signIn, .app .signIn, .app (.authenticated 0 "amy"),
      .app (.authCallback 0), .app (.roleReply 0 true), .clickedProfileBtn, .profileReply 0,
      .app (.authenticated 1 "ben")]).map (fun home => (home.device.currentUser,
        home.frontCard.map fun card => (profileDetailsCell id card.profileDetails).nameLabel)) =
    some (some "ben", some "Amy") := rfl

end Example

end Kasei.App
