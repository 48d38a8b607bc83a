import Kasei.App.Device

/-! # The login screen

Two fields, a line under each, one label for errors and an indicator. Results
come when they come: while a field is edited, for an attempt that another one
has overtaken, or never. Moving to a field ends the editing of the other one
first; a field that is edited already does not begin again.
-/

namespace Kasei.App

open JsonTree Runs

inductive LoginFieldName where
  | email | pw
  deriving Repr, DecidableEq

/-- The named colours that a line under a field can have. -/
inductive LineColor where
  | textfieldAccent | accentStatic | error
  deriving Repr, DecidableEq

structure LoginField where
  text : String
  accentLine : LineColor
  hasError : Bool
  deriving Repr, DecidableEq

def LoginField.displayError (field : LoginField) : LoginField :=
  { field with text := "", accentLine := .error, hasError := true }

def LoginField.dismissError (field : LoginField) : LoginField :=
  { field with accentLine := .textfieldAccent, hasError := false }

/-- `editing` is the first responder, `accented` whether the title of the sign-in
    button has the accent colour. The button is never disabled. -/
structure LoginViewController where
  emailField : LoginField
  pwField : LoginField
  errorLabel : String
  editing : Option LoginFieldName
  accented : Bool
  aboutHidden : Bool
  animating : Bool
  deriving Repr, DecidableEq

namespace LoginViewController

def getLoginFieldFor (view : LoginViewController) : LoginFieldName → LoginField
  | .email => view.emailField
  | .pw => view.pwField

def modify (view : LoginViewController) (change : LoginField → LoginField) :
    LoginFieldName → LoginViewController
  | .email => { view with emailField := change view.emailField }
  | .pw => { view with pwField := change view.pwField }

def dismissErrors (view : LoginViewController) : LoginViewController :=
  { view with
    errorLabel := "", emailField := view.emailField.dismissError
    pwField := view.pwField.dismissError }

def updateFieldsOnEdit (view : LoginViewController) (name : LoginFieldName) :
    LoginViewController :=
  let view := if (view.getLoginFieldFor name).hasError then view.dismissErrors else view
  { view with accented := false }

def textFieldDidBeginEditing (view : LoginViewController) (name : LoginFieldName) :
    LoginViewController :=
  (view.updateFieldsOnEdit name).modify (fun field => { field with accentLine := .accentStatic })
    name

def textFieldDidEndEditing (view : LoginViewController) (name : LoginFieldName) :
    LoginViewController :=
  view.modify (fun field => { field with accentLine := .textfieldAccent }) name

def resignFirstResponder (view : LoginViewController) (name : LoginFieldName) :
    LoginViewController :=
  if view.editing = some name then { view.textFieldDidEndEditing name with editing := none }
  else view

def endEditing (view : LoginViewController) : LoginViewController :=
  match view.editing with
  | some name => view.resignFirstResponder name
  | none => view

def becomeFirstResponder (view : LoginViewController) (name : LoginFieldName) :
    LoginViewController :=
  if view.editing = some name then view
  else { view.endEditing with editing := some name }.textFieldDidBeginEditing name

def gotoNextFieldFor (view : LoginViewController) : LoginFieldName → LoginViewController
  | .email => view.becomeFirstResponder .pw
  | .pw => { view.resignFirstResponder .pw with accented := true }

/-- The return key is on the keyboard of the field that is edited. -/
def textFieldShouldReturn (view : LoginViewController) : LoginViewController :=
  match view.editing with
  | some name => view.gotoNextFieldFor name
  | none => view

def tapOutOfKeyboard (view : LoginViewController) : LoginViewController :=
  { view with accented := false }.endEditing

def type (view : LoginViewController) (text : String) : LoginViewController :=
  match view.editing with
  | some name => view.modify (fun field => { field with text := text }) name
  | none => view

def clickedSignIn (view : LoginViewController) : LoginViewController :=
  { view with accented := false, aboutHidden := true, animating := true }

def fail (view : LoginViewController) (text : String) (names : List LoginFieldName) :
    LoginViewController :=
  names.foldl (fun view name => view.modify LoginField.displayError name)
    { view with errorLabel := text }

def handleHandlerResult (view : LoginViewController) :
    FirAuthHandlerResult → LoginViewController
  | .invalidEmail => view.fail "This is not an email!" [.email]
  | .missingEmail => view.fail "No email found!" [.email]
  | .wrongDetails => view.fail "Wrong email or password!" [.email, .pw]
  | .wrongRole => view.fail "Not an elderly!" [.email]
  | .success => view
  | .other => view.fail "An unknown error occured. Please try again later." [.email, .pw]

/-- The closure that `signIn` hands to `signin`. -/
def signInResult (view : LoginViewController) (result : FirAuthHandlerResult) :
    LoginViewController :=
  { view with aboutHidden := false, animating := false }.handleHandlerResult result

/-- As the storyboard has it, with the focus that `viewDidLoad` gives. -/
def viewDidLoad : LoginViewController :=
  let blank : LoginField := ⟨"", .textfieldAccent, false⟩
  LoginViewController.becomeFirstResponder ⟨blank, blank, "", none, false, false, false⟩ .email

end LoginViewController

/-- A call of `signin` with what it was given. -/
structure LoginAttempt where
  email : String
  pw : String
  stage : AttemptStage
  deriving Repr, DecidableEq

/-- What the user gets to know and does about it: a failure is displayed, or a
    field is turned to. -/
inductive Notice where
  | failed (result : FirAuthHandlerResult)
  | turnedTo (name : LoginFieldName)
  deriving Repr, DecidableEq

/-- One login screen, until it is dismissed and after. `notices` records what has
    happened on it. -/
structure LoginSession where
  view : LoginViewController
  presented : Bool
  currentUser : Option String
  attempts : List LoginAttempt
  notices : List Notice

inductive LoginEvent where
  | tap (name : LoginFieldName)
  | type (text : String)
  | returnKey
  | tapOutOfKeyboard
  | clickedSignIn
  | authenticated (k : Nat) (uid : String)
  | authFailed (k : Nat) (error : Option AuthErrorCode)
  | authCallback (k : Nat)
  | roleReply (k : Nat) (works : Bool)

namespace LoginSession

def start (currentUser : Option String) (works : Bool) : LoginSession :=
  ⟨.viewDidLoad, true, signout currentUser works, [], []⟩

/-- The field that a view begins to edit on the way to another. -/
def turned (before after : LoginViewController) : List Notice :=
  if after.editing = before.editing then [] else (after.editing.map Notice.turnedTo).toList

/-- What the user does, while the screen is there. -/
def act (s : LoginSession) (view : LoginViewController) : LoginSession :=
  if s.presented then { s with view := view, notices := s.notices ++ turned s.view view } else s

def moveTo (s : LoginSession) (k : Nat) (attempt : LoginAttempt) (stage : AttemptStage) :
    LoginSession :=
  { s with attempts := s.attempts.set k { attempt with stage := stage } }

/-- The screen is dismissed on success. -/
def result (s : LoginSession) (result : FirAuthHandlerResult) : LoginSession :=
  { s with
    view := s.view.signInResult result
    presented := s.presented && result != .success
    notices := s.notices ++ if result = .success then [] else [.failed result] }

def roleReply (database : Json) (s : LoginSession) (uid : String) (works : Bool) : LoginSession :=
  match role database uid with
  | none => s.result .other
  | some role =>
      if role = "elderly" then s.result .success
      else { s with currentUser := signout s.currentUser works }.result .wrongRole

/-- An event that finds no attempt waiting for it changes nothing. -/
def step (database : Json) (s : LoginSession) : LoginEvent → Option LoginSession
  | .tap name => some (s.act (s.view.becomeFirstResponder name))
  | .type text => some (s.act (s.view.type text))
  | .returnKey => some (s.act s.view.textFieldShouldReturn)
  | .tapOutOfKeyboard => some (s.act s.view.tapOutOfKeyboard)
  | .clickedSignIn =>
      if s.presented then
        some { s.act s.view.clickedSignIn with attempts := s.attempts ++
          [⟨s.view.emailField.text, s.view.pwField.text, .authenticating⟩] }
      else some s
  | .authenticated k uid =>
      match s.attempts[k]? with
      | some ⟨email, pw, .authenticating⟩ =>
          some ({ s with currentUser := some uid }.moveTo k ⟨email, pw, .authenticating⟩
            .authenticated)
      | _ => some s
  | .authFailed k error =>
      match s.attempts[k]? with
      | some ⟨email, pw, .authenticating⟩ =>
          let ended := s.moveTo k ⟨email, pw, .authenticating⟩ .ended
          match error with
          | some authErr => some (ended.result (handleAuthErrors authErr))
          | none => some ended
      | _ => some s
  | .authCallback k =>
      match s.attempts[k]? with
      | some ⟨email, pw, .authenticated⟩ =>
          match s.currentUser with
          | some uid => some (s.moveTo k ⟨email, pw, .authenticated⟩ (.lookingUp uid))
          | none => some (s.moveTo k ⟨email, pw, .authenticated⟩ .ended)
      | _ => some s
  | .roleReply k works =>
      match s.attempts[k]? with
      | some ⟨email, pw, .lookingUp uid⟩ =>
          some ((s.moveTo k ⟨email, pw, .lookingUp uid⟩ .ended).roleReply database uid works)
      | _ => some s

end LoginSession

/-! ## What is on display -/

/-- The fields that a failure puts an error on. -/
def FirAuthHandlerResult.marks : FirAuthHandlerResult → LoginFieldName → Bool
  | .success, _ => false
  | _, .email => true
  | .wrongDetails, .pw => true
  | .other, .pw => true
  | _, .pw => false

def FirAuthHandlerResult.message : FirAuthHandlerResult → String
  | .invalidEmail => "This is not an email!"
  | .missingEmail => "No email found!"
  | .wrongDetails => "Wrong email or password!"
  | .wrongRole => "Not an elderly!"
  | .other => "An unknown error occured. Please try again later."
  | .success => ""

/-- The failures on display: all that came since the user last turned to a field
    that one of them had marked. -/
def Notice.apply (shown : List FirAuthHandlerResult) : Notice → List FirAuthHandlerResult
  | .failed result => shown ++ [result]
  | .turnedTo name => if shown.any (·.marks name) then [] else shown

/-- A field with a mark or without: its line is red under a mark only, and tells
    otherwise whether the field is edited. -/
structure LoginField.Fits (field : LoginField) (marked edited : Bool) : Prop where
  hasError : field.hasError = marked
  line : field.accentLine = .error ∧ marked = true ∨
    field.accentLine = if edited then .accentStatic else .textfieldAccent

/-- The label has the text of the last failure, and each field the marks of all. -/
structure Displays (shown : List FirAuthHandlerResult) (view : LoginViewController) : Prop where
  failures : ∀ result ∈ shown, result ≠ .success
  label : view.errorLabel = (shown.getLast?.map FirAuthHandlerResult.message).getD ""
  fields : ∀ name, (view.getLoginFieldFor name).Fits (shown.any (·.marks name))
    (decide (view.editing = some name))

namespace LoginViewController

variable (view : LoginViewController) (change : LoginField → LoginField) (name : LoginFieldName)

@[simp] theorem modify_errorLabel : (view.modify change name).errorLabel = view.errorLabel := by
  cases name <;> rfl

@[simp] theorem modify_editing : (view.modify change name).editing = view.editing := by
  cases name <;> rfl

@[simp] theorem modify_animating : (view.modify change name).animating = view.animating := by
  cases name <;> rfl

@[simp] theorem modify_aboutHidden : (view.modify change name).aboutHidden = view.aboutHidden := by
  cases name <;> rfl

theorem getLoginFieldFor_modify (other : LoginFieldName) :
    (view.modify change name).getLoginFieldFor other =
      if other = name then change (view.getLoginFieldFor other)
      else view.getLoginFieldFor other := by
  cases name <;> cases other <;> rfl

theorem getLoginFieldFor_signInResult (result : FirAuthHandlerResult) :
    (view.signInResult result).getLoginFieldFor name =
      if result.marks name then (view.getLoginFieldFor name).displayError
      else view.getLoginFieldFor name := by
  cases result <;> cases name <;> rfl

end LoginViewController

section Display

variable {shown : List FirAuthHandlerResult} {view : LoginViewController}

theorem Displays.ended (displays : Displays shown view) :
    Displays shown view.endEditing ∧ view.endEditing.editing = none := by
  unfold LoginViewController.endEditing
  split
  · rename_i old editing
    rw [LoginViewController.resignFirstResponder, if_pos editing,
      LoginViewController.textFieldDidEndEditing]
    refine ⟨⟨displays.failures, by simpa using displays.label, fun name => ?_⟩, rfl⟩
    have fits := displays.fields name
    change ((view.modify _ old).getLoginFieldFor name).Fits _ _
    rw [LoginViewController.getLoginFieldFor_modify]
    split
    · exact ⟨fits.hasError, .inr rfl⟩
    · rename_i other
      simpa [editing, Ne.symm other] using fits
  · rename_i none
    exact ⟨displays, none⟩

theorem displays_focus {name : LoginFieldName} (failures : ∀ result ∈ shown, result ≠ .success)
    (editing : view.editing = some name)
    (label : view.errorLabel = (shown.getLast?.map FirAuthHandlerResult.message).getD "")
    (fits : ∀ other, (view.getLoginFieldFor other).Fits (shown.any (·.marks other)) false) :
    Displays shown
      (view.modify (fun field => { field with accentLine := .accentStatic }) name) := by
  refine ⟨failures, by simpa using label, fun other => ?_⟩
  rw [LoginViewController.getLoginFieldFor_modify, LoginViewController.modify_editing, editing]
  split
  · rename_i same
    exact ⟨(fits other).hasError, .inr (by simp [same])⟩
  · rename_i different
    simpa [Ne.symm different] using fits other

theorem Displays.begun (displays : Displays shown view) (free : view.editing = none)
    (name : LoginFieldName) :
    Displays (Notice.apply shown (.turnedTo name))
      ({ view with editing := some name }.textFieldDidBeginEditing name) := by
  have fits := displays.fields
  simp only [free, reduceCtorEq, decide_false] at fits
  have own : ({ view with editing := some name } : LoginViewController).getLoginFieldFor name =
      view.getLoginFieldFor name := by cases name <;> rfl
  simp only [LoginViewController.textFieldDidBeginEditing, LoginViewController.updateFieldsOnEdit,
    own, Notice.apply, (fits name).hasError]
  split
  · -- the errors are dismissed
    refine displays_focus (by simp) rfl rfl fun other => ?_
    cases other <;> exact ⟨rfl, .inr rfl⟩
  · refine displays_focus displays.failures rfl displays.label fun other => ?_
    cases other
    · exact fits .email
    · exact fits .pw

/-- Every failure has a text and marks the email field. -/
theorem Displays.label_iff (displays : Displays shown view) :
    view.errorLabel ≠ "" ↔ view.emailField.hasError = true := by
  have email : view.emailField.hasError = shown.any (·.marks .email) :=
    (displays.fields .email).hasError
  have failures := displays.failures
  rw [email, displays.label]
  cases last : shown.getLast? with
  | none =>
      obtain rfl := List.getLast?_eq_none_iff.mp last
      simp
  | some result =>
      have member := List.mem_of_getLast? last
      have text : result.message ≠ "" ∧ result.marks .email = true := by
        have failure := failures result member
        cases result <;> first | exact absurd rfl failure | exact ⟨by decide, rfl⟩
      exact iff_of_true text.1 (List.any_eq_true.mpr ⟨result, member, text.2⟩)

theorem Displays.failed (displays : Displays shown view) {result : FirAuthHandlerResult}
    (failure : result ≠ .success) : Displays (shown ++ [result]) (view.signInResult result) := by
  have label : (view.signInResult result).errorLabel = result.message := by
    cases result <;> first | rfl | exact absurd rfl failure
  have editing : (view.signInResult result).editing = view.editing := by cases result <;> rfl
  refine ⟨fun shown member => ?_, by simp [label], fun name => ?_⟩
  · rcases List.mem_append.mp member with old | new
    · exact displays.failures shown old
    · exact List.mem_singleton.mp new ▸ failure
  rw [LoginViewController.getLoginFieldFor_signInResult, editing, List.any_append]
  have fits := displays.fields name
  cases marks : result.marks name with
  | true =>
      simp only [List.any_cons, marks, Bool.true_or, Bool.or_true, if_true]
      exact ⟨rfl, .inl ⟨rfl, rfl⟩⟩
  | false => simpa [marks] using fits

theorem Displays.congr {other : LoginViewController} (displays : Displays shown view)
    (label : other.errorLabel = view.errorLabel) (editing : other.editing = view.editing)
    (fields : ∀ name, (other.getLoginFieldFor name).hasError =
        (view.getLoginFieldFor name).hasError ∧
      (other.getLoginFieldFor name).accentLine = (view.getLoginFieldFor name).accentLine) :
    Displays shown other := by
  refine ⟨displays.failures, label.trans displays.label, fun name => ?_⟩
  obtain ⟨hasError, line⟩ := displays.fields name
  rw [editing]
  exact ⟨(fields name).1.trans hasError, by rwa [(fields name).2]⟩

theorem Displays.succeeded (displays : Displays shown view) :
    Displays shown (view.signInResult .success) :=
  displays.congr rfl rfl fun name => by cases name <;> exact ⟨rfl, rfl⟩

/-- What an action of the user does to the display is what the notices of it do. -/
def Shows (before after : LoginViewController) : Prop :=
  ∀ shown, Displays shown before →
    Displays ((LoginSession.turned before after).foldl Notice.apply shown) after

theorem turned_none {after : LoginViewController} (none : after.editing = none) :
    LoginSession.turned view after = [] := by
  simp [LoginSession.turned, none]

theorem shows_of_same {after : LoginViewController} (same : after.editing = view.editing)
    (displays : ∀ shown, Displays shown view → Displays shown after) : Shows view after := by
  intro shown before
  rw [LoginSession.turned, if_pos same]
  exact displays shown before

theorem textFieldDidBeginEditing_editing (name : LoginFieldName) :
    (view.textFieldDidBeginEditing name).editing = view.editing := by
  simp only [LoginViewController.textFieldDidBeginEditing, LoginViewController.modify_editing,
    LoginViewController.updateFieldsOnEdit]
  split <;> rfl

theorem becomeFirstResponder_shows (name : LoginFieldName) :
    Shows view (view.becomeFirstResponder name) := by
  unfold LoginViewController.becomeFirstResponder
  split
  · exact shows_of_same rfl fun _ => id
  · rename_i other
    intro shown displays
    obtain ⟨ended, free⟩ := displays.ended
    rw [LoginSession.turned, textFieldDidBeginEditing_editing, if_neg (Ne.symm other)]
    exact ended.begun free name

theorem type_shows (text : String) : Shows view (view.type text) := by
  unfold LoginViewController.type
  split
  · rename_i name editing
    refine shows_of_same (by simp) fun shown displays => ?_
    refine displays.congr (by simp) (by simp) fun other => ?_
    rw [LoginViewController.getLoginFieldFor_modify]
    split <;> exact ⟨rfl, rfl⟩
  · exact shows_of_same rfl fun _ => id

theorem Displays.accent (displays : Displays shown view) (accented : Bool) :
    Displays shown { view with accented := accented } :=
  displays.congr rfl rfl fun name => by cases name <;> exact ⟨rfl, rfl⟩

theorem tapOutOfKeyboard_shows : Shows view view.tapOutOfKeyboard := by
  intro shown displays
  obtain ⟨ended, free⟩ := (displays.accent false).ended
  rw [LoginViewController.tapOutOfKeyboard, turned_none free]
  exact ended

theorem textFieldShouldReturn_shows : Shows view view.textFieldShouldReturn := by
  unfold LoginViewController.textFieldShouldReturn
  split
  · rename_i name editing
    cases name with
    | email => exact becomeFirstResponder_shows .pw
    | pw =>
        intro shown displays
        obtain ⟨ended, free⟩ := displays.ended
        have resigned : view.resignFirstResponder .pw = view.endEditing := by
          simp [LoginViewController.endEditing, editing]
        rw [LoginViewController.gotoNextFieldFor, resigned, turned_none (by exact free)]
        exact ended.accent true
  · exact shows_of_same rfl fun _ => id

theorem clickedSignIn_shows : Shows view view.clickedSignIn :=
  shows_of_same rfl fun _ displays =>
    displays.congr rfl rfl fun name => by cases name <;> exact ⟨rfl, rfl⟩

end Display

section Sessions

variable {database : Json} {s next : LoginSession}

/-- The screen displays what its notices say. -/
def LoginSession.Faithful (s : LoginSession) : Prop :=
  Displays (s.notices.foldl Notice.apply []) s.view

theorem LoginSession.Faithful.act (faithful : s.Faithful) {view : LoginViewController}
    (shows : Shows s.view view) : (s.act view).Faithful := by
  unfold LoginSession.act
  split
  · rw [Faithful, List.foldl_append]
    exact shows _ faithful
  · exact faithful

theorem LoginSession.Faithful.result (faithful : s.Faithful) (result : FirAuthHandlerResult) :
    (s.result result).Faithful := by
  unfold LoginSession.result Faithful
  by_cases success : result = .success
  · subst success
    simpa using faithful.succeeded
  · simpa [success, Notice.apply] using faithful.failed success

theorem LoginSession.step_faithful (faithful : s.Faithful) {event : LoginEvent}
    (taken : s.step database event = some next) : next.Faithful := by
  cases event with
  | tap name =>
      obtain rfl := Option.some.inj taken
      exact faithful.act (becomeFirstResponder_shows name)
  | type text =>
      obtain rfl := Option.some.inj taken
      exact faithful.act (type_shows text)
  | returnKey =>
      obtain rfl := Option.some.inj taken
      exact faithful.act textFieldShouldReturn_shows
  | tapOutOfKeyboard =>
      obtain rfl := Option.some.inj taken
      exact faithful.act tapOutOfKeyboard_shows
  | clickedSignIn =>
      simp only [step] at taken
      split at taken <;> obtain rfl := Option.some.inj taken
      · exact faithful.act clickedSignIn_shows
      · exact faithful
  | authenticated k uid =>
      simp only [step] at taken
      split at taken <;> obtain rfl := Option.some.inj taken <;> exact faithful
  | authFailed k error =>
      simp only [step] at taken
      split at taken
      · split at taken <;> obtain rfl := Option.some.inj taken
        · exact Faithful.result (by exact faithful) _
        · exact faithful
      · obtain rfl := Option.some.inj taken
        exact faithful
  | authCallback k =>
      simp only [step] at taken
      split at taken
      · split at taken <;> obtain rfl := Option.some.inj taken <;> exact faithful
      · obtain rfl := Option.some.inj taken
        exact faithful
  | roleReply k works =>
      simp only [step] at taken
      split at taken <;> obtain rfl := Option.some.inj taken
      · unfold roleReply
        split
        · exact Faithful.result (by exact faithful) _
        · split <;> exact Faithful.result (by exact faithful) _
      · exact faithful

theorem LoginSession.step_total (database : Json) (s : LoginSession) (event : LoginEvent) :
    ∃ next, s.step database event = some next := by
  cases event <;> simp only [step] <;> repeat' split
  all_goals exact ⟨_, rfl⟩

end Sessions

/-- In every order of taps, attempts and replies: the label and the marks are those
    of the failures that came since the user last turned to a field that one of
    them had marked, and there is a text exactly while the email field is marked. -/
theorem login_displays (database : Json) (currentUser : Option String) (works : Bool)
    (events : List LoginEvent) :
    ∃ s, run (LoginSession.step database) (.start currentUser works) events = some s ∧
      Displays (s.notices.foldl Notice.apply []) s.view ∧
      (s.view.errorLabel ≠ "" ↔ s.view.emailField.hasError = true) := by
  have start : (LoginSession.start currentUser works).Faithful :=
    ⟨by simp [LoginSession.start], rfl, fun name => by cases name <;> exact ⟨rfl, .inr rfl⟩⟩
  have steps : ∀ (s : LoginSession) event, s.Faithful →
      ∃ next, s.step database event = some next ∧ next.Faithful := by
    intro s event faithful
    obtain ⟨next, taken⟩ := LoginSession.step_total database s event
    exact ⟨next, taken, LoginSession.step_faithful faithful taken⟩
  obtain ⟨s, ran, faithful⟩ := run_total steps start events
  exact ⟨s, ran, faithful, faithful.label_iff⟩

end Kasei.App
