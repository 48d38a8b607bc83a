import Kasei.App.Device

/-! # The role gate

Only an elderly user is meant to get past the login screen. The launch asks
whether somebody is signed in, not who; a role reply acts on whoever is the
current user by then; and an attempt that authenticates after the screen was
dismissed changes the current user behind it. These are all the ways through:
a run keeps the gate exactly if it takes none of them.
-/

namespace Kasei.App

open JsonTree Runs

def Elderly (database : Json) (uid : String) : Prop := role database uid = some "elderly"

/-- No login screen in front means that an elderly user is signed in. -/
def Gate (database : Json) (device : Device) : Prop :=
  device.running = true → device.login = none →
    ∃ uid, device.currentUser = some uid ∧ Elderly database uid

/-- The step takes none of the ways around the gate. -/
def Checked (database : Json) (device : Device) : Event → Prop
  | .launch _ _ => device.running = false → ∀ uid, device.currentUser = some uid →
      Elderly database uid
  | .authenticated k uid => device.running = true → device.login = none →
      (∃ login, device.attempts[k]? = some ⟨login, .authenticating⟩) → Elderly database uid
  | .roleReply k works => device.running = true →
      ∀ login uid, device.attempts[k]? = some ⟨login, .lookingUp uid⟩ →
        ∀ found, role database uid = some found →
          (found = "elderly" → (∃ screen, device.login = some screen ∧ screen.number = login) →
            ∃ user, device.currentUser = some user ∧ Elderly database user) ∧
          (found ≠ "elderly" → works = true → device.login ≠ none)
  | _ => True

section Steps

variable {database : Json} {device : Device}

theorem gate_congr {next : Device} (same : SameView device next) :
    Gate database next ↔ Gate database device := by
  unfold Gate
  rw [same.running, same.currentUser, same.login]

theorem gate_launch (order : CoreData.FetchOrder) (works : Bool) :
    Gate database (device.launch order works) ↔
      ∀ uid, device.currentUser = some uid → Elderly database uid := by
  cases user : device.currentUser with
  | none => simp [Gate, Device.launch, Device.presentSignin, user]
  | some uid => simp [Gate, Device.launch, user]

/-- The answer to a role lookup keeps the gate exactly if it opens it for an
    elderly user and leaves it closed after a sign-out. -/
theorem gate_roleReply (held : Gate database device) (login : Nat) (uid : String) (works : Bool) :
    Gate database (device.roleReply database login uid works) ↔
      (device.running = true → ∀ found, role database uid = some found →
        (found = "elderly" → (∃ screen, device.login = some screen ∧ screen.number = login) →
          ∃ user, device.currentUser = some user ∧ Elderly database user) ∧
        (found ≠ "elderly" → works = true → device.login ≠ none)) := by
  unfold Device.roleReply
  cases looked : role database uid with
  | none =>
      have same : SameView device (device.result login .other) :=
        ⟨result_running .., result_currentUser .., by simp [result_login], result_screen ..⟩
      simp [gate_congr same, held]
  | some found =>
      by_cases elderly : found = "elderly"
      · subst elderly
        simp only [if_true, Option.some.injEq, forall_eq', ne_eq, not_true_eq_false,
          false_implies, and_true, true_implies]
        unfold Gate
        rw [result_running, result_currentUser, result_login]
        constructor
        · intro opened running front
          exact opened running (.inr ⟨rfl, front⟩)
        · intro checked running gone
          obtain absent | ⟨-, front⟩ := gone
          · exact held running absent
          · exact checked running front
      · simp only [if_false, Option.some.injEq, forall_eq', elderly, ne_eq,
          not_false_eq_true, false_implies, true_and, true_implies]
        unfold Gate
        rw [result_running, result_currentUser, result_login]
        simp only [reduceCtorEq, false_and, or_false]
        cases works with
        | false => simpa [signout, Gate] using held
        | true => simp [signout]

theorem checked_of_quiet {event : Event} (quiet : Quiet device event) :
    Checked database device event := by
  cases event with
  | launch order works =>
      intro stopped
      rw [show device.running = true from quiet] at stopped
      cases stopped
  | authenticated k uid =>
      intro _ _ found
      obtain ⟨login, found⟩ := found
      exact absurd found (quiet login)
  | roleReply k works =>
      intro _ login uid found
      exact absurd found (quiet login uid)
  | _ => trivial

theorem gate_step (held : Gate database device) {event : Event} {next : Device}
    (taken : device.step database event = some next) :
    Gate database next ↔ Checked database device event := by
  cases Device.step_effect taken with
  | quiet quiet same => exact iff_of_true ((gate_congr same).mpr held) (checked_of_quiet quiet)
  | launched order works stopped =>
      rw [gate_launch]
      simp [Checked, stopped]
  | terminated => simp [Checked, Gate, Device.terminate]
  | authenticated uid found => simp [Gate, Checked, Device.moveTo, found]
  | @roleReplied k login uid works found =>
      have ended : Gate database (device.moveTo k ⟨login, .lookingUp uid⟩ .ended) := held
      rw [gate_roleReply ended]
      simp [Checked, found, Device.moveTo]
  | signedOut works worksAgain => simp [Checked, Gate, Device.presentSignin]
  | fetched started received => exact iff_of_true held trivial

theorem checked_of_trap {event : Event} (trapped : device.step database event = none) :
    Checked database device event := by
  cases event with
  | authenticated k uid =>
      simp only [Device.step] at trapped
      split at trapped <;> cases trapped
  | roleReply k works =>
      simp only [Device.step] at trapped
      split at trapped <;> cases trapped
  | launch order works => cases trapped
  | _ => trivial

end Steps

/-- From a device on which the app is not running, a run keeps the gate in every
    state exactly if each of its steps is checked. -/
theorem gate_always_iff {database : Json} {device : Device} (stopped : device.running = false)
    (events : List Event) :
    Always (Device.step database) (Gate database) device events ↔
      Along (Device.step database) (Checked database) device events := by
  apply always_iff_along
  · exact fun _ _ trapped => checked_of_trap trapped
  · exact fun _ _ _ held taken => gate_step held taken
  · intro running
    rw [stopped] at running
    cases running

section Example

private def roles : Json :=
  .obj [("authroles", .obj [("amy", .str "elderly"), ("vic", .str "volunteer")])]

private def newDevice : Device :=
  ⟨false, none, none, 0, [], ⟨[], ⟨[], none⟩, false, 0⟩, []⟩

/-- A first sign-in by an elderly user. -/
theorem gate_always_iff_first_sign_in :
    Always (Device.step roles) (Gate roles) newDevice
      [.launch .listed true, .signIn, .authenticated 0 "amy", .authCallback 0,
        .roleReply 0 true] := by
  apply (gate_always_iff rfl _).mpr
  refine ⟨by simp [Checked, newDevice], ?_⟩
  rintro _ ⟨⟩
  refine ⟨trivial, ?_⟩
  rintro _ ⟨⟩
  refine ⟨fun _ covered => (by cases covered), ?_⟩
  rintro _ ⟨⟩
  refine ⟨trivial, ?_⟩
  rintro _ ⟨⟩
  refine ⟨?_, fun _ _ => trivial⟩
  intro _ login uid looking found known
  refine ⟨fun _ _ => ⟨"amy", rfl, by unfold Elderly; decide⟩, fun _ _ covered => (by cases covered)⟩

/-- A volunteer signs in, and the app is closed before the role is known. -/
theorem relaunch_passes_gate :
    ¬ Always (Device.step roles) (Gate roles) newDevice
      [.launch .listed true, .signIn, .authenticated 0 "vic", .terminate,
        .launch .listed true] := by
  intro held
  obtain ⟨uid, user, elderly⟩ := held.last rfl rfl rfl
  obtain rfl : "vic" = uid := Option.some.inj user
  exact absurd elderly (by unfold Elderly; decide)

end Example

end Kasei.App
