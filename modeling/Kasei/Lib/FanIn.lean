import Mathlib.Data.List.Perm.Basic
import Mathlib.Data.List.Forall2
import Kasei.Lib.Runs

/-! # Asynchronous calls and fan-in by a countdown

A call is a state that events move; some event may make it deliver its result
to a continuation. A well-behaved call delivers at most once, at the event that
finishes it, and this survives any order of the events.

A caller that starts several calls keeps an unsigned counter of those not done
yet and collects what they bring; the call that brings the counter to zero ends
the collection. One event changes one call of the list, so every fact about the
whole list follows from the difference at that place.
-/

namespace FanIn

open Runs

section Calls

variable {σ α ρ : Type*} {finished : σ → Bool} {result : σ → ρ}
  {step : σ → α → Option (σ × Option ρ)} {Inv : σ → Prop} {work : σ → Nat}

/-- One event of a call: nothing is delivered and the call is as finished as it
    was, or it finishes now and delivers its result. -/
def Outcome (finished : σ → Bool) (result : σ → ρ) (before after : σ) (delivered : Option ρ) :
    Prop :=
  (delivered = none ∧ finished after = finished before ∧
      (finished before = true → result after = result before)) ∨
    (finished before = false ∧ finished after = true ∧ delivered = some (result after))

theorem Outcome.refl (call : σ) : Outcome finished result call call none :=
  .inl ⟨rfl, rfl, fun _ => rfl⟩

theorem Outcome.waiting {before after : σ} (was : finished before = false)
    (now : finished after = false) : Outcome finished result before after none := by
  refine .inl ⟨rfl, now.trans was.symm, fun done => ?_⟩
  rw [was] at done
  cases done

/-- The steps of a call, with everything it has delivered so far. -/
def recording (step : σ → α → Option (σ × Option ρ)) (state : σ × List ρ) (event : α) :
    Option (σ × List ρ) :=
  (step state.1 event).map fun next => (next.1, state.2 ++ next.2.toList)

/-- What a call should have delivered by now. -/
def deliveries (finished : σ → Bool) (result : σ → ρ) (call : σ) : List ρ :=
  if finished call then [result call] else []

/-- A recorded call is in the invariant and has delivered what it should. -/
def Recorded (finished : σ → Bool) (result : σ → ρ) (Inv : σ → Prop) (state : σ × List ρ) : Prop :=
  state.2 = deliveries finished result state.1 ∧ Inv state.1

theorem Recorded.moved
    (sound : ∀ call event after delivered, Inv call → step call event = some (after, delivered) →
      Inv after ∧ Outcome finished result call after delivered)
    {state next : σ × List ρ} {event : α} (recorded : Recorded finished result Inv state)
    (moved : recording step state event = some next) : Recorded finished result Inv next := by
  obtain ⟨record, held⟩ := recorded
  obtain ⟨⟨after, delivered⟩, taken, rfl⟩ := Option.map_eq_some_iff.mp moved
  obtain ⟨kept, outcome⟩ := sound state.1 event after delivered held taken
  refine ⟨?_, kept⟩
  simp only [record]
  obtain ⟨rfl, same, frozen⟩ | ⟨was, now, rfl⟩ := outcome
  · unfold deliveries
    cases done : finished state.1 with
    | false => simp [same, done]
    | true => simp [same, done, frozen done]
  · simp [deliveries, was, now]

theorem Recorded.start {call : σ} (held : Inv call) :
    Recorded finished result Inv (call, deliveries finished result call) :=
  ⟨rfl, held⟩

/-- Whatever the order of the events was, a call has delivered its result once
    if it has finished. -/
theorem recording_run
    (sound : ∀ call event after delivered, Inv call → step call event = some (after, delivered) →
      Inv after ∧ Outcome finished result call after delivered)
    {call final : σ} {record : List ρ} (held : Inv call) {events : List α}
    (ran : run (recording step) (call, deliveries finished result call) events =
      some (final, record)) : record = deliveries finished result final ∧ Inv final :=
  run_keeps (fun _ _ _ recorded moved => Recorded.moved sound recorded moved)
    (Recorded.start held) ran

theorem recording_spec
    (spec : ∀ call event, Inv call → ∃ after delivered,
      step call event = some (after, delivered) ∧ Inv after ∧
        Outcome finished result call after delivered)
    (state : σ × List ρ) (event : α) (recorded : Recorded finished result Inv state) :
    ∃ next, recording step state event = some next ∧ Recorded finished result Inv next := by
  obtain ⟨after, delivered, taken, -, -⟩ := spec state.1 event recorded.2
  have moved : recording step state event = some (after, state.2 ++ delivered.toList) := by
    simp [recording, taken]
  refine ⟨_, moved, Recorded.moved ?_ recorded moved⟩
  intro call event after delivered held taken
  obtain ⟨_, _, again, sound⟩ := spec call event held
  obtain ⟨rfl, rfl⟩ := Prod.mk.inj (Option.some.inj (again.symm.trans taken))
  exact sound

theorem recording_total
    (spec : ∀ call event, Inv call → ∃ after delivered,
      step call event = some (after, delivered) ∧ Inv after ∧
        Outcome finished result call after delivered)
    {call : σ} (held : Inv call) (events : List α) :
    ∃ final, run (recording step) (call, deliveries finished result call) events =
      some (final, deliveries finished result final) ∧ Inv final := by
  obtain ⟨⟨final, record⟩, ran, same, inv⟩ :=
    run_total (recording_spec spec) (Recorded.start held) events
  simp only at same
  exact ⟨final, same ▸ ran, inv⟩

/-- If some event always brings a call with work left closer to its end, some
    events bring it there. -/
theorem recording_to_rest
    (spec : ∀ call event, Inv call → ∃ after delivered,
      step call event = some (after, delivered) ∧ Inv after ∧
        Outcome finished result call after delivered)
    (progress : ∀ call, Inv call → work call ≠ 0 → ∃ event, ∀ after delivered,
      step call event = some (after, delivered) → work after < work call)
    {call : σ} (held : Inv call) :
    ∃ events final, run (recording step) (call, deliveries finished result call) events =
      some (final, deliveries finished result final) ∧ Inv final ∧ work final = 0 := by
  have advance : ∀ state, Recorded finished result Inv state → work state.1 ≠ 0 →
      ∃ event next, recording step state event = some next ∧
        Recorded finished result Inv next ∧ work next.1 < work state.1 := by
    intro state recorded busy
    obtain ⟨event, less⟩ := progress state.1 recorded.2 busy
    obtain ⟨next, moved, kept⟩ := recording_spec spec state event recorded
    refine ⟨event, next, moved, kept, ?_⟩
    obtain ⟨⟨after, delivered⟩, taken, rfl⟩ := Option.map_eq_some_iff.mp moved
    exact less after delivered taken
  obtain ⟨events, ⟨final, record⟩, ran, ⟨same, inv⟩, idle⟩ :=
    exists_run_to_rest (fun state : σ × List ρ => work state.1) advance (Recorded.start held)
  simp only at same
  exact ⟨events, final, same ▸ ran, inv, idle⟩

end Calls

variable {α β γ : Type*}

/-- Take one from an unsigned counter; below zero it traps. -/
def decrement : Nat → Option Nat
  | 0 => none
  | count + 1 => some count

/-- The sum of a weight over all calls. -/
def total (weight : α → Nat) (calls : List α) : Nat :=
  calls.foldr (fun call sum => weight call + sum) 0

/-- How many calls are not done. -/
def pending (finished : α → Bool) : List α → Nat := total fun call => (!finished call).toNat

section Total

variable {weight : α → Nat} {calls : List α}

@[simp] theorem total_nil : total weight [] = 0 := rfl

@[simp] theorem total_cons (call : α) (rest : List α) :
    total weight (call :: rest) = weight call + total weight rest := rfl

@[simp] theorem total_append (first second : List α) :
    total weight (first ++ second) = total weight first + total weight second := by
  induction first with
  | nil => simp
  | cons call rest ih => simp [ih, Nat.add_assoc]

theorem total_set (weight : α → Nat) {i : Nat} {before : α} (found : calls[i]? = some before)
    (after : α) :
    total weight (calls.set i after) + weight before = total weight calls + weight after := by
  induction calls generalizing i with
  | nil => simp at found
  | cons call rest ih =>
      cases i with
      | zero =>
          simp only [List.getElem?_cons_zero, Option.some.injEq] at found
          subst found
          simp only [List.set_cons_zero, total_cons]
          omega
      | succ j =>
          rw [List.getElem?_cons_succ] at found
          have later := ih found
          simp only [List.set_cons_succ, total_cons]
          omega

theorem total_eq_zero : total weight calls = 0 ↔ ∀ call ∈ calls, weight call = 0 := by
  induction calls with
  | nil => simp
  | cons call rest ih => simp [ih]

theorem exists_of_total_ne_zero (busy : total weight calls ≠ 0) :
    ∃ (i : Nat) (call : α), calls[i]? = some call ∧ weight call ≠ 0 := by
  rw [Ne, total_eq_zero, not_forall] at busy
  obtain ⟨call, rest⟩ := busy
  obtain ⟨member, heavy⟩ := Classical.not_imp.mp rest
  obtain ⟨i, found⟩ := List.mem_iff_getElem?.mp member
  exact ⟨i, call, found, heavy⟩

end Total

section Pending

variable {finished : α → Bool} {calls : List α} {i : Nat} {before after : α}

theorem pending_set_same (found : calls[i]? = some before)
    (same : finished after = finished before) :
    pending finished (calls.set i after) = pending finished calls := by
  have change := total_set (fun call => (!finished call).toNat) found after
  rw [same] at change
  exact Nat.add_right_cancel change

theorem pending_set_finished (found : calls[i]? = some before) (was : finished before = false)
    (now : finished after = true) :
    pending finished (calls.set i after) + 1 = pending finished calls := by
  have change := total_set (fun call => (!finished call).toNat) found after
  rw [was, now] at change
  exact change

theorem pending_eq_zero : pending finished calls = 0 ↔ ∀ call ∈ calls, finished call = true := by
  simp [pending, total_eq_zero]

end Pending

section Results

variable {calls : List α} {i : Nat} {before after : α}

theorem gathered_set {gather : α → List β} {extra : List β} (found : calls[i]? = some before)
    (more : (gather after).Perm (gather before ++ extra)) :
    ((calls.set i after).flatMap gather).Perm (calls.flatMap gather ++ extra) := by
  induction calls generalizing i with
  | nil => simp at found
  | cons call rest ih =>
      cases i with
      | zero =>
          simp only [List.getElem?_cons_zero, Option.some.injEq] at found
          subst found
          simp only [List.set_cons_zero, List.flatMap_cons]
          apply (more.append_right _).trans
          rw [List.append_assoc, List.append_assoc]
          exact List.perm_append_comm.append_left _
      | succ j =>
          rw [List.getElem?_cons_succ] at found
          simp only [List.set_cons_succ, List.flatMap_cons, List.append_assoc]
          exact (ih found).append_left _

/-- What no two places gather belongs to one of them. -/
theorem index_unique {gather : α → List β} (distinct : (calls.flatMap gather).Nodup) {j : Nat}
    {one two : α} {token : β} (first : calls[i]? = some one) (second : calls[j]? = some two)
    (here : token ∈ gather one) (there : token ∈ gather two) : i = j := by
  induction calls generalizing i j with
  | nil => simp at first
  | cons call rest ih =>
      rw [List.flatMap_cons, List.nodup_append] at distinct
      obtain ⟨-, later, apart⟩ := distinct
      cases i with
      | zero =>
          cases j with
          | zero => rfl
          | succ j =>
              obtain rfl := Option.some.inj first
              rw [List.getElem?_cons_succ] at second
              have member := List.mem_flatMap.mpr ⟨two, List.mem_of_getElem? second, there⟩
              exact absurd rfl (apart token here token member)
      | succ i =>
          cases j with
          | zero =>
              obtain rfl := Option.some.inj second
              rw [List.getElem?_cons_succ] at first
              have member := List.mem_flatMap.mpr ⟨one, List.mem_of_getElem? first, here⟩
              exact absurd rfl (apart token there token member)
          | succ j => exact congrArg Nat.succ (ih later first second)

theorem results_set {result : α → Option β} (extra : Option β) (found : calls[i]? = some before)
    (more : (result after).toList = (result before).toList ++ extra.toList) :
    ((calls.set i after).filterMap result).Perm (calls.filterMap result ++ extra.toList) := by
  rw [List.filterMap_eq_flatMap_toList, List.filterMap_eq_flatMap_toList]
  exact gathered_set found (.of_eq more)

end Results

/-- Calls matched one by one with what they were made for: the changed call is
    matched with the same thing. -/
theorem forall₂_set {R : γ → α → Prop} {asked : List γ} {calls : List α}
    (matched : List.Forall₂ R asked calls) {i : Nat} {before : α}
    (found : calls[i]? = some before) :
    ∃ request ∈ asked, R request before ∧
      ∀ after, R request after → List.Forall₂ R asked (calls.set i after) := by
  induction matched generalizing i with
  | nil => simp at found
  | cons here later ih =>
      cases i with
      | zero =>
          simp only [List.getElem?_cons_zero, Option.some.injEq] at found
          subst found
          exact ⟨_, List.mem_cons_self, here, fun after kept => .cons kept later⟩
      | succ j =>
          rw [List.getElem?_cons_succ] at found
          obtain ⟨request, member, held, replace⟩ := ih found
          exact ⟨request, List.mem_cons_of_mem _ member, held,
            fun after kept => .cons here (replace after kept)⟩

theorem forall₂_exists {R : γ → α → Prop} {asked : List γ} {calls : List α}
    (matched : List.Forall₂ R asked calls) {request : γ} (member : request ∈ asked) :
    ∃ call ∈ calls, R request call := by
  induction matched with
  | nil => cases member
  | cons here later ih =>
      cases member with
      | head => exact ⟨_, List.mem_cons_self, here⟩
      | tail _ rest =>
          obtain ⟨call, inside, held⟩ := ih rest
          exact ⟨call, List.mem_cons_of_mem _ inside, held⟩

@[simp] theorem isEmpty_set (calls : List α) (i : Nat) (after : α) :
    (calls.set i after).isEmpty = calls.isEmpty := by
  cases calls with
  | nil => rfl
  | cons first rest => cases i <;> rfl

theorem set_ne_nil {calls : List α} {i : Nat} {before : α} (found : calls[i]? = some before)
    (after : α) : calls.set i after ≠ [] := by
  cases calls with
  | nil => simp at found
  | cons first rest => cases i <;> simp

theorem mem_tail_set {calls : List α} {i : Nat} {before after call : α}
    (found : calls[i]? = some before) (member : call ∈ (calls.set i after).tail) :
    call ∈ calls.tail ∨ (call = after ∧ before ∈ calls.tail) := by
  cases calls with
  | nil => simp at found
  | cons first rest =>
      cases i with
      | zero => exact .inl member
      | succ j =>
          rw [List.getElem?_cons_succ] at found
          exact (List.mem_or_eq_of_mem_set member).imp_right fun same =>
            ⟨same, List.mem_of_getElem? found⟩

end FanIn
