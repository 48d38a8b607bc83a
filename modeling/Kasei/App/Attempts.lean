import Kasei.App.Login

/-! # The attempts of a login screen

Nothing keeps a user from signing in again while an attempt is under way. The
attempts share one indicator, which every result stops; some never bring one.
For the device behind the screen, only the attempts and their replies happen.
-/

namespace Kasei.App

open JsonTree Runs

def LoginSession.Busy (s : LoginSession) : Prop := ∃ attempt ∈ s.attempts, attempt.stage ≠ .ended

def LoginSession.BusyBesides (s : LoginSession) (k : Nat) : Prop :=
  ∃ j attempt, j ≠ k ∧ s.attempts[j]? = some attempt ∧ attempt.stage ≠ .ended

/-- The indicator turns exactly while an attempt is under way, in the place of the
    button that it hides. -/
def LoginSession.Truthful (s : LoginSession) : Prop :=
  s.view.aboutHidden = s.view.animating ∧ (s.view.animating = true ↔ s.Busy)

/-- An attempt ends with a result only when no other is under way, and without one
    only when another is. -/
def Attended (s : LoginSession) : LoginEvent → Prop
  | .authFailed k error => ∀ attempt, s.attempts[k]? = some attempt →
      attempt.stage = .authenticating → (error = none ↔ s.BusyBesides k)
  | .authCallback k => ∀ attempt, s.attempts[k]? = some attempt →
      attempt.stage = .authenticated → s.currentUser = none → s.BusyBesides k
  | .roleReply k _ => ∀ attempt uid, s.attempts[k]? = some attempt →
      attempt.stage = .lookingUp uid → ¬ s.BusyBesides k
  | _ => True

section Indicator

variable {database : Json} {s next : LoginSession} {view : LoginViewController}

/-- Editing leaves the indicator alone. -/
structure SameIndicator (view after : LoginViewController) : Prop where
  animating : after.animating = view.animating
  aboutHidden : after.aboutHidden = view.aboutHidden

theorem endEditing_indicator : SameIndicator view view.endEditing := by
  unfold LoginViewController.endEditing LoginViewController.resignFirstResponder
    LoginViewController.textFieldDidEndEditing
  split
  · split <;> constructor <;> simp
  · exact ⟨rfl, rfl⟩

theorem textFieldDidBeginEditing_indicator (name : LoginFieldName) :
    SameIndicator view (view.textFieldDidBeginEditing name) := by
  unfold LoginViewController.textFieldDidBeginEditing LoginViewController.updateFieldsOnEdit
    LoginViewController.dismissErrors
  constructor <;> simp only [LoginViewController.modify_animating,
    LoginViewController.modify_aboutHidden] <;> split <;> rfl

theorem becomeFirstResponder_indicator (name : LoginFieldName) :
    SameIndicator view (view.becomeFirstResponder name) := by
  unfold LoginViewController.becomeFirstResponder
  split
  · exact ⟨rfl, rfl⟩
  · have ended : SameIndicator view view.endEditing := endEditing_indicator
    have begun : SameIndicator { view.endEditing with editing := some name } _ :=
      textFieldDidBeginEditing_indicator name
    exact ⟨begun.animating.trans ended.animating, begun.aboutHidden.trans ended.aboutHidden⟩

theorem textFieldShouldReturn_indicator : SameIndicator view view.textFieldShouldReturn := by
  unfold LoginViewController.textFieldShouldReturn
  split
  · rename_i name editing
    cases name with
    | email => exact becomeFirstResponder_indicator .pw
    | pw =>
        have resigned : view.resignFirstResponder .pw = view.endEditing := by
          simp [LoginViewController.endEditing, editing]
        rw [LoginViewController.gotoNextFieldFor, resigned]
        exact ⟨endEditing_indicator.animating, endEditing_indicator.aboutHidden⟩
  · exact ⟨rfl, rfl⟩

theorem type_indicator (text : String) : SameIndicator view (view.type text) := by
  unfold LoginViewController.type
  split <;> constructor <;> simp

theorem tapOutOfKeyboard_indicator : SameIndicator view view.tapOutOfKeyboard :=
  ⟨endEditing_indicator.animating, endEditing_indicator.aboutHidden⟩

theorem act_truthful {after : LoginViewController} (same : SameIndicator s.view after) :
    (s.act after).Truthful ↔ s.Truthful := by
  unfold LoginSession.act
  split
  · simp only [LoginSession.Truthful, same.animating, same.aboutHidden, LoginSession.Busy]
  · rfl

theorem moveTo_truthful {k : Nat} {attempt : LoginAttempt} {stage : AttemptStage}
    (found : s.attempts[k]? = some attempt) (was : attempt.stage ≠ .ended) (now : stage ≠ .ended) :
    (s.moveTo k attempt stage).Truthful ↔ s.Truthful := by
  have inside := (List.getElem?_eq_some_iff.mp found).1
  have before : s.Busy := ⟨attempt, List.mem_of_getElem? found, was⟩
  have after : (s.moveTo k attempt stage).Busy :=
    ⟨{ attempt with stage := stage }, List.mem_set inside _, now⟩
  simp only [LoginSession.Truthful, before, after]
  rfl

theorem moveTo_ended_busy {k : Nat} {attempt : LoginAttempt}
    (found : s.attempts[k]? = some attempt) :
    (s.moveTo k attempt .ended).Busy ↔ s.BusyBesides k := by
  constructor
  · rintro ⟨other, member, running⟩
    obtain ⟨j, there⟩ := List.mem_iff_getElem?.mp member
    by_cases same : k = j
    · subst same
      have inside := (List.getElem?_eq_some_iff.mp found).1
      rw [LoginSession.moveTo, List.getElem?_set_self inside] at there
      obtain rfl := Option.some.inj there
      exact absurd rfl running
    · rw [LoginSession.moveTo, List.getElem?_set_ne same] at there
      exact ⟨j, other, Ne.symm same, there, running⟩
  · rintro ⟨j, other, apart, there, running⟩
    refine ⟨other, List.mem_of_getElem? (i := j) ?_, running⟩
    rw [LoginSession.moveTo, List.getElem?_set_ne (Ne.symm apart), there]

theorem ended_truthful {k : Nat} {attempt : LoginAttempt} (truthful : s.Truthful)
    (found : s.attempts[k]? = some attempt) (was : attempt.stage ≠ .ended) :
    ((s.moveTo k attempt .ended).Truthful ↔ s.BusyBesides k) ∧
      ∀ result, (((s.moveTo k attempt .ended).result result).Truthful ↔ ¬ s.BusyBesides k) := by
  have busy : s.Busy := ⟨attempt, List.mem_of_getElem? found, was⟩
  have turning : s.view.animating = true := truthful.2.mpr busy
  have left := moveTo_ended_busy found
  constructor
  · have animating : (s.moveTo k attempt .ended).view.animating = true := turning
    have hidden : (s.moveTo k attempt .ended).view.aboutHidden =
      (s.moveTo k attempt .ended).view.animating := truthful.1
    simp only [LoginSession.Truthful, hidden, animating, left, true_and, true_iff]
  · intro result
    have stopped : ((s.moveTo k attempt .ended).result result).view.animating = false := by
      cases result <;> rfl
    have shown : ((s.moveTo k attempt .ended).result result).view.aboutHidden = false := by
      cases result <;> rfl
    have same : ((s.moveTo k attempt .ended).result result).Busy ↔
        (s.moveTo k attempt .ended).Busy := Iff.rfl
    simp only [LoginSession.Truthful, stopped, shown, same, left, true_and, Bool.false_eq_true,
      false_iff]

theorem clickedSignIn_truthful (s : LoginSession) (attempt : LoginAttempt)
    (running : attempt.stage ≠ .ended) :
    LoginSession.Truthful
      { s with view := s.view.clickedSignIn, attempts := s.attempts ++ [attempt] } :=
  ⟨rfl, iff_of_true rfl ⟨attempt, by simp, running⟩⟩

theorem authFailed_truthful (truthful : s.Truthful) {k : Nat} {error : Option AuthErrorCode}
    (taken : s.step database (.authFailed k error) = some next) :
    next.Truthful ↔ Attended s (.authFailed k error) := by
  simp only [LoginSession.step] at taken
  split at taken
  · rename_i found
    obtain ⟨silent, told⟩ := ended_truthful truthful found (by simp)
    split at taken <;> obtain rfl := Option.some.inj taken
    · rw [told]
      simp [Attended, found]
    · rw [silent]
      simp [Attended, found]
  · rename_i other
    obtain rfl := Option.some.inj taken
    refine iff_of_true truthful fun attempt found stage => ?_
    obtain ⟨email, pw, _⟩ := attempt
    subst stage
    exact absurd found (other email pw)

theorem authCallback_truthful (truthful : s.Truthful) {k : Nat}
    (taken : s.step database (.authCallback k) = some next) :
    next.Truthful ↔ Attended s (.authCallback k) := by
  simp only [LoginSession.step] at taken
  split at taken
  · rename_i found
    split at taken <;> obtain rfl := Option.some.inj taken
    · rename_i uid user
      refine iff_of_true ((moveTo_truthful found (by simp) (by simp)).mpr truthful) ?_
      simp [Attended, user]
    · rename_i absent
      rw [(ended_truthful truthful found (by simp)).1]
      simp [Attended, found, absent]
  · rename_i other
    obtain rfl := Option.some.inj taken
    refine iff_of_true truthful fun attempt found stage => ?_
    obtain ⟨email, pw, _⟩ := attempt
    subst stage
    exact absurd found (other email pw)

theorem roleReply_truthful (truthful : s.Truthful) {k : Nat} {works : Bool}
    (taken : s.step database (.roleReply k works) = some next) :
    next.Truthful ↔ Attended s (.roleReply k works) := by
  simp only [LoginSession.step] at taken
  split at taken <;> obtain rfl := Option.some.inj taken
  · rename_i email pw uid found
    obtain ⟨-, told⟩ := ended_truthful truthful found (by simp)
    have attended : Attended s (.roleReply k works) ↔ ¬ s.BusyBesides k :=
      ⟨fun met => met _ uid found rfl, fun alone _ _ _ _ => alone⟩
    rw [attended]
    unfold LoginSession.roleReply
    split
    · exact told .other
    · split
      · exact told .success
      · exact told .wrongRole
  · rename_i other
    refine iff_of_true truthful fun attempt uid found stage => ?_
    obtain ⟨email, pw, _⟩ := attempt
    subst stage
    exact absurd found (other email pw uid)

theorem truthful_step (truthful : s.Truthful) {event : LoginEvent}
    (taken : s.step database event = some next) : next.Truthful ↔ Attended s event := by
  cases event with
  | tap name =>
      obtain rfl := Option.some.inj taken
      exact iff_of_true ((act_truthful (becomeFirstResponder_indicator name)).mpr truthful) trivial
  | type text =>
      obtain rfl := Option.some.inj taken
      exact iff_of_true ((act_truthful (type_indicator text)).mpr truthful) trivial
  | returnKey =>
      obtain rfl := Option.some.inj taken
      exact iff_of_true ((act_truthful textFieldShouldReturn_indicator).mpr truthful) trivial
  | tapOutOfKeyboard =>
      obtain rfl := Option.some.inj taken
      exact iff_of_true ((act_truthful tapOutOfKeyboard_indicator).mpr truthful) trivial
  | clickedSignIn =>
      simp only [LoginSession.step] at taken
      split at taken <;> obtain rfl := Option.some.inj taken
      · rename_i presented
        rw [LoginSession.act, if_pos presented]
        exact iff_of_true (clickedSignIn_truthful _ _ (by simp)) trivial
      · exact iff_of_true truthful trivial
  | authenticated k uid =>
      simp only [LoginSession.step] at taken
      split at taken <;> obtain rfl := Option.some.inj taken
      · rename_i found
        refine iff_of_true ((moveTo_truthful ?_ ?_ ?_).mpr truthful) trivial
        · exact found
        · simp
        · simp
      · exact iff_of_true truthful trivial
  | authFailed k error => exact authFailed_truthful truthful taken
  | authCallback k => exact authCallback_truthful truthful taken
  | roleReply k works => exact roleReply_truthful truthful taken

end Indicator

/-- The indicator tells the truth in every state of a session exactly if no attempt
    ends with a result while another is under way, and none without a result
    unless another is. -/
theorem indicator_truthful_iff (database : Json) (currentUser : Option String) (works : Bool)
    (events : List LoginEvent) :
    Always (LoginSession.step database) LoginSession.Truthful (.start currentUser works) events ↔
      Along (LoginSession.step database) Attended (.start currentUser works) events := by
  apply always_iff_along
  · intro s event trapped
    obtain ⟨next, taken⟩ := LoginSession.step_total database s event
    rw [taken] at trapped
    cases trapped
  · exact fun s event next truthful taken => truthful_step truthful taken
  · have still : ¬ LoginViewController.viewDidLoad.animating = true := by decide
    exact ⟨rfl, iff_of_false still (by simp [LoginSession.Busy, LoginSession.start])⟩

/-! ## The device behind the screen -/

/-- The event of the device that an event of the session is: editing is none. -/
def LoginEvent.device : LoginEvent → Option Event
  | .clickedSignIn => some .signIn
  | .authenticated k uid => some (.authenticated k uid)
  | .authFailed k error => some (.authFailed k error)
  | .authCallback k => some (.authCallback k)
  | .roleReply k works => some (.roleReply k works)
  | _ => none

/-- The device has the user, the attempts and the login screen of the session. -/
structure Behind (n : Nat) (s : LoginSession) (device : Device) : Prop where
  currentUser : device.currentUser = s.currentUser
  attempts : device.attempts = s.attempts.map fun attempt => ⟨n, attempt.stage⟩
  hidden : s.presented = false → device.login = none
  front : s.presented = true → ∃ screen, device.login = some screen ∧ screen.number = n

section Refinement

variable {database : Json} {n : Nat} {s next : LoginSession} {device : Device}

theorem Behind.act (behind : Behind n s device) (view : LoginViewController) :
    Behind n (s.act view) device := by
  unfold LoginSession.act
  split
  · exact ⟨behind.currentUser, behind.attempts, behind.hidden, behind.front⟩
  · exact behind

theorem Behind.moveTo (behind : Behind n s device) (k : Nat) (attempt : LoginAttempt)
    (stage was : AttemptStage) :
    Behind n (s.moveTo k attempt stage) (device.moveTo k ⟨n, was⟩ stage) where
  currentUser := behind.currentUser
  attempts := by
    simp only [Device.moveTo, LoginSession.moveTo, behind.attempts, List.map_set]
  hidden := behind.hidden
  front := behind.front

theorem Behind.result (behind : Behind n s device) (result : FirAuthHandlerResult) :
    Behind n (s.result result) (device.result n result) where
  currentUser := by
    rw [result_currentUser]
    exact behind.currentUser
  attempts := by
    rw [result_attempts]
    exact behind.attempts
  hidden := by
    intro gone
    rw [result_login]
    cases presented : s.presented with
    | false => exact .inl (behind.hidden presented)
    | true =>
        obtain rfl : result = .success := by simpa [LoginSession.result, presented] using gone
        exact .inr ⟨rfl, behind.front presented⟩
  front := by
    intro stays
    simp only [LoginSession.result, Bool.and_eq_true, bne_iff_ne] at stays
    obtain ⟨screen, front, own⟩ := behind.front stays.1
    simp only [Device.result, front, own, if_true]
    cases result <;>
      first | exact absurd rfl stays.2 | exact ⟨_, rfl, own⟩

theorem Behind.found (behind : Behind n s device) (k : Nat) :
    device.attempts[k]? = s.attempts[k]?.map fun attempt => ⟨n, attempt.stage⟩ := by
  rw [behind.attempts, List.getElem?_map]

theorem Behind.user {currentUser : Option String} (behind : Behind n s device) :
    Behind n { s with currentUser := currentUser } { device with currentUser := currentUser } :=
  ⟨rfl, behind.attempts, behind.hidden, behind.front⟩

theorem Behind.roleReply (behind : Behind n s device) (uid : String) (works : Bool) :
    Behind n (s.roleReply database uid works) (device.roleReply database n uid works) := by
  unfold LoginSession.roleReply Device.roleReply
  cases role database uid with
  | none => exact behind.result .other
  | some found =>
      by_cases elderly : found = "elderly"
      · simp only [elderly, if_true]
        exact behind.result .success
      · simp only [elderly, if_false, behind.currentUser]
        exact behind.user.result .wrongRole

theorem Behind.edit (behind : Behind n s device) {event : LoginEvent} (edits : event.device = none)
    (taken : s.step database event = some next) : Behind n next device := by
  cases event with
  | tap | type | returnKey | tapOutOfKeyboard =>
      obtain rfl := Option.some.inj taken
      exact behind.act _
  | _ => cases edits

theorem Behind.waiting (behind : Behind n s device) {k login : Nat} {stage : AttemptStage}
    (front : device.attempts[k]? = some ⟨login, stage⟩) :
    ∃ email pw, s.attempts[k]? = some ⟨email, pw, stage⟩ := by
  rw [behind.found] at front
  obtain ⟨⟨email, pw, _⟩, there, same⟩ := Option.map_eq_some_iff.mp front
  obtain ⟨-, rfl⟩ := Attempt.mk.inj same
  exact ⟨email, pw, there⟩

theorem Behind.signIn (behind : Behind n s device)
    (taken : s.step database .clickedSignIn = some next) :
    ∃ after, device.step database .signIn = some after ∧ Behind n next after := by
  simp only [LoginSession.step] at taken
  split at taken <;> obtain rfl := Option.some.inj taken
  · rename_i presented
    obtain ⟨screen, front, own⟩ := behind.front presented
    have acted := behind.act s.view.clickedSignIn
    refine ⟨{ device with attempts := device.attempts ++ [⟨screen.number, .authenticating⟩] },
      by simp only [Device.step, front], acted.currentUser, ?_, acted.hidden, acted.front⟩
    simp [behind.attempts, own]
  · rename_i gone
    have absent := behind.hidden (by simpa using gone)
    exact ⟨device, by simp only [Device.step, absent], behind⟩

theorem Behind.authenticated (behind : Behind n s device) {k : Nat} {uid : String}
    (taken : s.step database (.authenticated k uid) = some next) :
    ∃ after, device.step database (.authenticated k uid) = some after ∧ Behind n next after := by
  have found := behind.found k
  simp only [LoginSession.step] at taken
  split at taken <;> obtain rfl := Option.some.inj taken
  · rename_i there
    rw [there, Option.map_some] at found
    exact ⟨_, by simp only [Device.step, found]; rfl, behind.user.moveTo k _ _ _⟩
  · rename_i other
    refine ⟨device, ?_, behind⟩
    simp only [Device.step]
    split
    · rename_i front
      obtain ⟨email, pw, there⟩ := behind.waiting front
      exact absurd there (other email pw)
    · rfl

theorem Behind.authFailed (behind : Behind n s device) {k : Nat} {error : Option AuthErrorCode}
    (taken : s.step database (.authFailed k error) = some next) :
    ∃ after, device.step database (.authFailed k error) = some after ∧ Behind n next after := by
  have found := behind.found k
  simp only [LoginSession.step] at taken
  split at taken
  · rename_i email pw there
    rw [there, Option.map_some] at found
    have ended := behind.moveTo k ⟨email, pw, .authenticating⟩ .ended .authenticating
    simp only [Device.step, found]
    cases error <;> obtain rfl := Option.some.inj taken
    · exact ⟨_, rfl, ended⟩
    · exact ⟨_, rfl, ended.result _⟩
  · rename_i other
    obtain rfl := Option.some.inj taken
    refine ⟨device, ?_, behind⟩
    simp only [Device.step]
    split
    · rename_i front
      obtain ⟨email, pw, there⟩ := behind.waiting front
      exact absurd there (other email pw)
    · rfl

theorem Behind.authCallback (behind : Behind n s device) {k : Nat}
    (taken : s.step database (.authCallback k) = some next) :
    ∃ after, device.step database (.authCallback k) = some after ∧ Behind n next after := by
  have found := behind.found k
  simp only [LoginSession.step] at taken
  split at taken
  · rename_i there
    rw [there, Option.map_some] at found
    simp only [Device.step, found, behind.currentUser]
    cases user : s.currentUser <;> rw [user] at taken <;>
      obtain rfl := Option.some.inj taken <;> exact ⟨_, rfl, behind.moveTo k _ _ _⟩
  · rename_i other
    obtain rfl := Option.some.inj taken
    refine ⟨device, ?_, behind⟩
    simp only [Device.step]
    split
    · rename_i front
      obtain ⟨email, pw, there⟩ := behind.waiting front
      exact absurd there (other email pw)
    · rfl

theorem Behind.roleReplied (behind : Behind n s device) {k : Nat} {works : Bool}
    (taken : s.step database (.roleReply k works) = some next) :
    ∃ after, device.step database (.roleReply k works) = some after ∧ Behind n next after := by
  have found := behind.found k
  simp only [LoginSession.step] at taken
  split at taken <;> obtain rfl := Option.some.inj taken
  · rename_i email pw uid there
    rw [there, Option.map_some] at found
    exact ⟨_, by simp only [Device.step, found]; rfl, (behind.moveTo k _ _ _).roleReply uid works⟩
  · rename_i other
    refine ⟨device, ?_, behind⟩
    simp only [Device.step]
    split
    · rename_i uid front
      obtain ⟨email, pw, there⟩ := behind.waiting front
      exact absurd there (other email pw uid)
    · rfl

theorem Behind.attempt (behind : Behind n s device) {event : LoginEvent} {same : Event}
    (about : event.device = some same) (taken : s.step database event = some next) :
    ∃ after, device.step database same = some after ∧ Behind n next after := by
  cases event with
  | tap | type | returnKey | tapOutOfKeyboard => cases about
  | clickedSignIn =>
      obtain rfl := Option.some.inj about
      exact behind.signIn taken
  | authenticated k uid =>
      obtain rfl := Option.some.inj about
      exact behind.authenticated taken
  | authFailed k error =>
      obtain rfl := Option.some.inj about
      exact behind.authFailed taken
  | authCallback k =>
      obtain rfl := Option.some.inj about
      exact behind.authCallback taken
  | roleReply k works =>
      obtain rfl := Option.some.inj about
      exact behind.roleReplied taken

theorem Behind.run (behind : Behind n s device) (events : List LoginEvent) :
    ∃ last after, Runs.run (LoginSession.step database) s events = some last ∧
      Runs.run (Device.step database) device (events.filterMap LoginEvent.device) = some after ∧
      Behind n last after := by
  induction events generalizing s device with
  | nil => exact ⟨s, device, rfl, rfl, behind⟩
  | cons event rest ih =>
      obtain ⟨next, taken⟩ := LoginSession.step_total database s event
      cases about : event.device with
      | none =>
          obtain ⟨last, after, ran, went, kept⟩ := ih (behind.edit about taken)
          refine ⟨last, after, by rw [run_cons, taken, Option.bind_some, ran], ?_, kept⟩
          rw [List.filterMap_cons_none about, went]
      | some same =>
          obtain ⟨moved, stepped, there⟩ := behind.attempt about taken
          obtain ⟨last, after, ran, went, kept⟩ := ih there
          refine ⟨last, after, by rw [run_cons, taken, Option.bind_some, ran], ?_, kept⟩
          rw [List.filterMap_cons_some about, run_cons, stepped, Option.bind_some, went]

end Refinement

/-- A session on a login screen just presented, with no earlier attempts left, is a
    run of the device: with the same attempts, the same user, and a login screen in
    front exactly while the session has one. -/
theorem session_refines_device (database : Json) (device : Device) (works : Bool)
    (events : List LoginEvent) :
    ∃ s after, run (LoginSession.step database) (.start device.currentUser works) events = some s ∧
      run (Device.step database) ({ device with attempts := [] }.presentSignin works)
        (events.filterMap LoginEvent.device) = some after ∧
      after.currentUser = s.currentUser ∧ (after.login = none ↔ s.presented = false) ∧
      after.attempts.map Attempt.stage = s.attempts.map LoginAttempt.stage := by
  have start : Behind device.logins (.start device.currentUser works)
      ({ device with attempts := [] }.presentSignin works) :=
    ⟨rfl, rfl, fun gone => (by cases gone), fun _ => ⟨_, rfl, rfl⟩⟩
  obtain ⟨s, after, ran, went, behind⟩ := start.run events
  refine ⟨s, after, ran, went, behind.currentUser, ⟨fun gone => ?_, behind.hidden⟩, ?_⟩
  · by_contra presented
    obtain ⟨screen, front, -⟩ := behind.front (by simpa using presented)
    rw [gone] at front
    cases front
  · simp [behind.attempts, Function.comp_def]

end Kasei.App
