import Kasei.Landing.Refresh

/-! # The app on a device

What launching, signing in and out, and refreshing do to one device. Firebase
keeps the current user across restarts and Core Data the saved requests;
everything else lives as long as the process. Signing in takes three replies:
Firebase signs the user in, then its callback asks for the role of whoever is
the current user by then, then the role comes. Attempts overlap freely, and
each answers to the login screen it was made on.

A profile screen, from which the user signs out, is only reached with no login
screen in front; `none` is a trap, which ends the process.
-/

namespace Kasei.App

open JsonTree CoreData Landing

inductive AuthErrorCode where
  | invalidEmail | missingEmail | wrongPassword | userNotFound | other
  deriving Repr, DecidableEq

inductive FirAuthHandlerResult where
  | invalidEmail | missingEmail | wrongDetails | wrongRole | other | success
  deriving Repr, DecidableEq

def handleAuthErrors : AuthErrorCode → FirAuthHandlerResult
  | .invalidEmail => .invalidEmail
  | .missingEmail => .missingEmail
  | .wrongPassword => .wrongDetails
  | .userNotFound => .wrongDetails
  | .other => .other

/-- A login screen; `number` tells it from those presented before it. -/
structure LoginScreen where
  number : Nat
  errorLabel : String
  emailError : Bool
  pwError : Bool
  deriving Repr, DecidableEq

/-- What a result does to the screen it is for: `none` when it is dismissed. -/
def LoginScreen.handleHandlerResult (screen : LoginScreen) :
    FirAuthHandlerResult → Option LoginScreen
  | .invalidEmail =>
      some { screen with errorLabel := "This is not an email!", emailError := true }
  | .missingEmail => some { screen with errorLabel := "No email found!", emailError := true }
  | .wrongDetails => some { screen with
      errorLabel := "Wrong email or password!", emailError := true, pwError := true }
  | .wrongRole => some { screen with errorLabel := "Not an elderly!", emailError := true }
  | .success => none
  | .other => some { screen with
      errorLabel := "An unknown error occured. Please try again later."
      emailError := true, pwError := true }

inductive AttemptStage where
  | authenticating
  | authenticated
  | lookingUp (uid : String)
  | ended
  deriving Repr, DecidableEq

/-- A call of `signin`, and the login screen whose closure gets its result. -/
structure Attempt where
  login : Nat
  stage : AttemptStage
  deriving Repr, DecidableEq

/-- `fetches` are the users that the fetches under way were started for. -/
structure Device where
  running : Bool
  currentUser : Option String
  login : Option LoginScreen
  logins : Nat
  attempts : List Attempt
  screen : Screen
  fetches : List String

/-- `works` says whether Firebase could sign out: a failure is only printed. -/
def signout (currentUser : Option String) (works : Bool) : Option String :=
  if works then none else currentUser

def role (database : Json) (uid : String) : Option String :=
  asString (observeSingleEvent database ["authroles"] uid).value

namespace Device

/-- A new login screen signs out once more when its view loads. -/
def presentSignin (device : Device) (works : Bool) : Device :=
  { device with
    currentUser := signout device.currentUser works
    login := some ⟨device.logins, "", false, false⟩
    logins := device.logins + 1 }

/-- A result reaches the login screen in front only if it is the one that the
    attempt was made on. -/
def result (device : Device) (login : Nat) (result : FirAuthHandlerResult) : Device :=
  match device.login with
  | none => device
  | some screen =>
      if screen.number = login then { device with login := screen.handleHandlerResult result }
      else device

def moveTo (device : Device) (k : Nat) (attempt : Attempt) (stage : AttemptStage) : Device :=
  { device with attempts := device.attempts.set k { attempt with stage := stage } }

/-- The scene connects, and the landing screen loads the saved requests and
    refreshes. -/
def launch (device : Device) (order : FetchOrder) (works : Bool) : Device :=
  let started := { device with
    running := true, login := none, attempts := []
    screen := { device.screen with
      userRequests := loadAllRequests order device.screen.saved.store }
    fetches := device.currentUser.toList }
  if device.currentUser.isSome then started else started.presentSignin works

def terminate (device : Device) : Device :=
  { device with
    running := false, login := none, attempts := [], fetches := []
    screen := { device.screen with userRequests := [], isRefreshing := false, reloads := 0 } }

/-- The answer to a role lookup for `uid`. -/
def roleReply (database : Json) (device : Device) (login : Nat) (uid : String) (works : Bool) :
    Device :=
  match role database uid with
  | none => device.result login .other
  | some role =>
      if role = "elderly" then device.result login .success
      else
        { device with currentUser := signout device.currentUser works }.result login .wrongRole

end Device

/-- A failed authentication brings an error code, or an error without one. -/
inductive Event where
  | launch (order : FetchOrder) (works : Bool)
  | terminate
  | signIn
  | authenticated (k : Nat) (uid : String)
  | authFailed (k : Nat) (error : Option AuthErrorCode)
  | authCallback (k : Nat)
  | roleReply (k : Nat) (works : Bool)
  | signOut (works worksAgain : Bool)
  | refresh
  | fetched (k : Nat) (requests : List Request) (orders : Nat → FetchOrder)
      (languageCode : Option String)

/-- What the app does; an event that cannot happen changes nothing. -/
def Device.step (database : Json) (device : Device) : Event → Option Device
  | .launch order works => some (if device.running then device else device.launch order works)
  | .terminate => some device.terminate
  | .signIn =>
      match device.login with
      | none => some device
      | some screen => some { device with
          attempts := device.attempts ++ [⟨screen.number, .authenticating⟩] }
  | .authenticated k uid =>
      match device.attempts[k]? with
      | some ⟨login, .authenticating⟩ =>
          some ({ device with currentUser := some uid }.moveTo k ⟨login, .authenticating⟩
            .authenticated)
      | _ => some device
  | .authFailed k error =>
      match device.attempts[k]? with
      | some ⟨login, .authenticating⟩ =>
          let ended := device.moveTo k ⟨login, .authenticating⟩ .ended
          match error with
          | some authErr => some (ended.result login (handleAuthErrors authErr))
          | none => some ended
      | _ => some device
  | .authCallback k =>
      match device.attempts[k]? with
      | some ⟨login, .authenticated⟩ =>
          match device.currentUser with
          | some uid => some (device.moveTo k ⟨login, .authenticated⟩ (.lookingUp uid))
          | none => some (device.moveTo k ⟨login, .authenticated⟩ .ended)
      | _ => some device
  | .roleReply k works =>
      match device.attempts[k]? with
      | some ⟨login, .lookingUp uid⟩ =>
          some ((device.moveTo k ⟨login, .lookingUp uid⟩ .ended).roleReply database login uid works)
      | _ => some device
  | .signOut works worksAgain =>
      if device.running ∧ device.login = none then
        some ({ device with currentUser := signout device.currentUser works }.presentSignin
          worksAgain)
      else some device
  | .refresh =>
      some (if device.running then
        { device with fetches := device.fetches ++ device.currentUser.toList } else device)
  | .fetched k requests orders languageCode =>
      match device.fetches[k]? with
      | none => some device
      | some _ => do
          let screen ← device.screen.received orders languageCode (some requests)
          return { device with screen := screen, fetches := device.fetches.eraseIdx k }

section Results

variable {device : Device}

@[simp] theorem result_running (login : Nat) (result : FirAuthHandlerResult) :
    (device.result login result).running = device.running := by
  unfold Device.result
  split
  · rfl
  · split <;> rfl

@[simp] theorem result_currentUser (login : Nat) (result : FirAuthHandlerResult) :
    (device.result login result).currentUser = device.currentUser := by
  unfold Device.result
  split
  · rfl
  · split <;> rfl

@[simp] theorem result_attempts (login : Nat) (result : FirAuthHandlerResult) :
    (device.result login result).attempts = device.attempts := by
  unfold Device.result
  split
  · rfl
  · split <;> rfl

@[simp] theorem result_screen (login : Nat) (result : FirAuthHandlerResult) :
    (device.result login result).screen = device.screen := by
  unfold Device.result
  split
  · rfl
  · split <;> rfl

/-- Only a success on the screen in front takes it away. -/
theorem result_login (login : Nat) (result : FirAuthHandlerResult) :
    (device.result login result).login = none ↔ device.login = none ∨
      (result = .success ∧ ∃ screen, device.login = some screen ∧ screen.number = login) := by
  unfold Device.result
  cases front : device.login with
  | none => simp [front]
  | some screen =>
      by_cases own : screen.number = login
      · cases result <;> simp [own, LoginScreen.handleHandlerResult]
      · simp [own, front]

end Results

/-- What the user sees and who the user is. -/
structure SameView (device next : Device) : Prop where
  running : next.running = device.running
  currentUser : next.currentUser = device.currentUser
  login : next.login = none ↔ device.login = none
  screen : next.screen = device.screen

theorem SameView.refl (device : Device) : SameView device device := ⟨rfl, rfl, .rfl, rfl⟩

/-- The event is not about what the user sees, or finds nothing under way that it
    could be about. -/
def Quiet (device : Device) : Event → Prop
  | .launch _ _ => device.running = true
  | .terminate => False
  | .authenticated k _ => ∀ login, device.attempts[k]? ≠ some ⟨login, .authenticating⟩
  | .roleReply k _ => ∀ login uid, device.attempts[k]? ≠ some ⟨login, .lookingUp uid⟩
  | .fetched k _ _ _ => device.fetches[k]? = none
  | _ => True

/-- Everything a step can do: six events have an effect of their own, and all
    else leaves the view as it was. -/
inductive Effect (database : Json) (device : Device) : Event → Device → Prop where
  | quiet {event : Event} {next : Device} (quiet : Quiet device event)
      (same : SameView device next) : Effect database device event next
  | launched (order : FetchOrder) (works : Bool) (stopped : device.running = false) :
      Effect database device (.launch order works) (device.launch order works)
  | terminated : Effect database device .terminate device.terminate
  | authenticated {k login : Nat} (uid : String)
      (found : device.attempts[k]? = some ⟨login, .authenticating⟩) :
      Effect database device (.authenticated k uid)
        ({ device with currentUser := some uid }.moveTo k ⟨login, .authenticating⟩ .authenticated)
  | roleReplied {k login : Nat} {uid : String} (works : Bool)
      (found : device.attempts[k]? = some ⟨login, .lookingUp uid⟩) :
      Effect database device (.roleReply k works)
        ((device.moveTo k ⟨login, .lookingUp uid⟩ .ended).roleReply database login uid works)
  | signedOut (works worksAgain : Bool) :
      Effect database device (.signOut works worksAgain)
        ({ device with currentUser := signout device.currentUser works }.presentSignin worksAgain)
  | fetched {k : Nat} {uid : String} {requests : List Request} {orders : Nat → FetchOrder}
      {languageCode : Option String} {screen : Screen} (started : device.fetches[k]? = some uid)
      (received : device.screen.received orders languageCode (some requests) = some screen) :
      Effect database device (.fetched k requests orders languageCode)
        { device with screen := screen, fetches := device.fetches.eraseIdx k }

theorem Device.step_effect {database : Json} {device next : Device} {event : Event}
    (taken : device.step database event = some next) : Effect database device event next := by
  cases event with
  | launch order works =>
      obtain rfl := Option.some.inj taken
      cases running : device.running with
      | true => exact .quiet running (SameView.refl device)
      | false => exact .launched order works running
  | terminate =>
      obtain rfl := Option.some.inj taken
      exact .terminated
  | signIn =>
      simp only [Device.step] at taken
      split at taken <;> obtain rfl := Option.some.inj taken <;>
        exact .quiet trivial ⟨rfl, rfl, .rfl, rfl⟩
  | authenticated k uid =>
      simp only [Device.step] at taken
      split at taken <;> obtain rfl := Option.some.inj taken
      · rename_i login found
        exact .authenticated uid found
      · rename_i other
        exact .quiet other (SameView.refl device)
  | authFailed k error =>
      simp only [Device.step] at taken
      split at taken
      · split at taken <;> obtain rfl := Option.some.inj taken
        · rename_i authErr
          refine .quiet trivial ⟨result_running .., result_currentUser .., ?_, result_screen ..⟩
          cases authErr <;> simp [result_login, handleAuthErrors, Device.moveTo]
        · exact .quiet trivial ⟨rfl, rfl, .rfl, rfl⟩
      · obtain rfl := Option.some.inj taken
        exact .quiet trivial (SameView.refl device)
  | authCallback k =>
      simp only [Device.step] at taken
      split at taken
      · split at taken <;> obtain rfl := Option.some.inj taken <;>
          exact .quiet trivial ⟨rfl, rfl, .rfl, rfl⟩
      · obtain rfl := Option.some.inj taken
        exact .quiet trivial (SameView.refl device)
  | roleReply k works =>
      simp only [Device.step] at taken
      split at taken <;> obtain rfl := Option.some.inj taken
      · rename_i login uid found
        exact .roleReplied works found
      · rename_i other
        exact .quiet other (SameView.refl device)
  | signOut works worksAgain =>
      simp only [Device.step] at taken
      split at taken <;> obtain rfl := Option.some.inj taken
      · exact .signedOut works worksAgain
      · exact .quiet trivial (SameView.refl device)
  | refresh =>
      obtain rfl := Option.some.inj taken
      refine .quiet trivial ?_
      split
      · exact ⟨rfl, rfl, .rfl, rfl⟩
      · exact SameView.refl device
  | fetched k requests orders languageCode =>
      simp only [Device.step] at taken
      split at taken
      · rename_i absent
        obtain rfl := Option.some.inj taken
        exact .quiet absent (SameView.refl device)
      · rename_i uid started
        obtain ⟨screen, received, last⟩ := Option.bind_eq_some_iff.mp taken
        obtain rfl := Option.some.inj last
        exact .fetched started received

end Kasei.App
