import Mathlib.Data.List.Basic

/-! # Runs of a partial step function

A system is a step function `σ → α → Option σ`: an action takes a state to the
next one, and `none` is a trap that ends the run. Everything a run is asked for
is one of two questions: does a property of single steps hold at each step
taken (`Along`), and does a property of states hold in each state reached
(`Always`). The rules below reduce both to one obligation per step. A `while`
loop is a run that takes its own steps until its guard fails.
-/

namespace Runs

variable {σ α : Type*} {step : σ → α → Option σ}

/-- The state after a list of actions; `none` once a step traps. -/
def run (step : σ → α → Option σ) : σ → List α → Option σ
  | s, [] => some s
  | s, a :: rest => (step s a).bind (run step · rest)

/-- `P` holds of every step the run takes. -/
def Along (step : σ → α → Option σ) (P : σ → α → Prop) : σ → List α → Prop
  | _, [] => True
  | s, a :: rest => P s a ∧ ∀ next, step s a = some next → Along step P next rest

/-- `Q` holds in every state the run reaches, the first one included. -/
def Always (step : σ → α → Option σ) (Q : σ → Prop) : σ → List α → Prop
  | s, [] => Q s
  | s, a :: rest => Q s ∧ ∀ next, step s a = some next → Always step Q next rest

instance Along.decidable {P : σ → α → Prop} [∀ s a, Decidable (P s a)] :
    ∀ s actions, Decidable (Along step P s actions)
  | _, [] => isTrue trivial
  | s, a :: rest =>
      have : Decidable (∀ next, step s a = some next → Along step P next rest) :=
        match step s a with
        | none => isTrue (by simp)
        | some next =>
            have : Decidable (Along step P next rest) := Along.decidable next rest
            decidable_of_iff (Along step P next rest) (by simp)
      inferInstanceAs (Decidable (P s a ∧ _))

@[simp] theorem run_nil (s : σ) : run step s [] = some s := rfl

@[simp] theorem run_cons (s : σ) (a : α) (rest : List α) :
    run step s (a :: rest) = (step s a).bind (run step · rest) := rfl

theorem run_append (s : σ) (first second : List α) :
    run step s (first ++ second) = (run step s first).bind (run step · second) := by
  induction first generalizing s with
  | nil => rfl
  | cons a rest ih =>
      simp only [List.cons_append, run_cons]
      cases taken : step s a with
      | none => rfl
      | some next => simpa only [Option.bind_some] using ih next

theorem run_map {β : Type*} (f : β → α) (s : σ) (actions : List β) :
    run step s (actions.map f) = run (fun s b => step s (f b)) s actions := by
  induction actions generalizing s with
  | nil => rfl
  | cons b rest ih =>
      simp only [List.map_cons, run_cons]
      exact congrArg _ (funext ih)

theorem run_keeps {Inv : σ → Prop} (keeps : ∀ s a next, Inv s → step s a = some next → Inv next)
    {s final : σ} (start : Inv s) {actions : List α} (ran : run step s actions = some final) :
    Inv final := by
  induction actions generalizing s with
  | nil =>
      obtain rfl := Option.some.inj ran
      exact start
  | cons a rest ih =>
      obtain ⟨next, taken, later⟩ := Option.bind_eq_some_iff.mp ran
      exact ih (keeps s a next start taken) later

theorem run_of_fixed {s : σ} {actions : List α} (fixed : ∀ a ∈ actions, step s a = some s) :
    run step s actions = some s := by
  induction actions with
  | nil => rfl
  | cons a rest ih =>
      rw [run_cons, fixed a List.mem_cons_self, Option.bind_some]
      exact ih fun b member => fixed b (List.mem_cons_of_mem a member)

/-- If no step traps under the invariant, no run does. -/
theorem run_total {Inv : σ → Prop}
    (total : ∀ s a, Inv s → ∃ next, step s a = some next ∧ Inv next)
    {s : σ} (start : Inv s) (actions : List α) :
    ∃ final, run step s actions = some final ∧ Inv final := by
  induction actions generalizing s with
  | nil => exact ⟨s, rfl, start⟩
  | cons a rest ih =>
      obtain ⟨next, taken, held⟩ := total s a start
      obtain ⟨final, ran, last⟩ := ih held
      exact ⟨final, by rw [run_cons, taken, Option.bind_some, ran], last⟩

/-- No run from here traps. -/
def Safe (step : σ → α → Option σ) (s : σ) : Prop := ∀ actions, run step s actions ≠ none

theorem Safe.of_total {Inv : σ → Prop}
    (total : ∀ s a, Inv s → ∃ next, step s a = some next ∧ Inv next) {s : σ} (start : Inv s) :
    Safe step s := by
  intro actions
  obtain ⟨final, ran, -⟩ := run_total total start actions
  simp [ran]

theorem Safe.next {s : σ} (safe : Safe step s) (a : α) :
    ∃ next, step s a = some next ∧ Safe step next := by
  cases taken : step s a with
  | none => exact absurd (by rw [run_cons, taken]; rfl) (safe [a])
  | some next =>
      refine ⟨next, rfl, fun actions trapped => safe (a :: actions) ?_⟩
      rw [run_cons, taken, Option.bind_some, trapped]

/-- If under the invariant some step always lowers a measure that is not zero,
    every state has a run on which the measure reaches zero. -/
theorem exists_run_to_rest (work : σ → Nat) {Inv : σ → Prop}
    (progress : ∀ s, Inv s → work s ≠ 0 →
      ∃ a next, step s a = some next ∧ Inv next ∧ work next < work s)
    {s : σ} (start : Inv s) :
    ∃ actions final, run step s actions = some final ∧ Inv final ∧ work final = 0 := by
  induction measure : work s using Nat.strongRecOn generalizing s with
  | ind size ih =>
      by_cases idle : work s = 0
      · exact ⟨[], s, rfl, start, idle⟩
      · obtain ⟨a, next, taken, held, less⟩ := progress s start idle
        obtain ⟨actions, final, ran, rest⟩ := ih (work next) (measure ▸ less) held rfl
        exact ⟨a :: actions, final, by rw [run_cons, taken, Option.bind_some, ran], rest⟩

theorem Along.imp (Inv : σ → Prop) {P R : σ → α → Prop}
    (gives : ∀ s a, Inv s → P s a → R s a)
    (keeps : ∀ s a next, Inv s → P s a → step s a = some next → Inv next)
    {s : σ} {actions : List α} (start : Inv s) (met : Along step P s actions) :
    Along step R s actions := by
  induction actions generalizing s with
  | nil => trivial
  | cons a rest ih =>
      obtain ⟨here, later⟩ := met
      exact ⟨gives s a start here, fun next taken =>
        ih (keeps s a next start here taken) (later next taken)⟩

theorem Along.of_forall {P : σ → α → Prop} {s : σ} {actions : List α}
    (holds : ∀ s, ∀ a ∈ actions, P s a) : Along step P s actions := by
  induction actions generalizing s with
  | nil => trivial
  | cons a rest ih =>
      exact ⟨holds s a List.mem_cons_self, fun next _ =>
        ih fun s b member => holds s b (List.mem_cons_of_mem a member)⟩

theorem Along.append {P : σ → α → Prop} {s : σ} {first second : List α}
    (met : Along step P s first)
    (later : ∀ t, run step s first = some t → Along step P t second) :
    Along step P s (first ++ second) := by
  induction first generalizing s with
  | nil => exact later s rfl
  | cons a rest ih =>
      refine ⟨met.1, fun next taken => ih (met.2 next taken) fun t ran => later t ?_⟩
      rw [run_cons, taken, Option.bind_some, ran]

theorem Along.and {P R : σ → α → Prop} {s : σ} {actions : List α}
    (first : Along step P s actions) (second : Along step R s actions) :
    Along step (fun s a => P s a ∧ R s a) s actions := by
  induction actions generalizing s with
  | nil => trivial
  | cons a rest ih =>
      exact ⟨⟨first.1, second.1⟩, fun next taken => ih (first.2 next taken) (second.2 next taken)⟩

theorem Along.after {P : σ → α → Prop} {s t : σ} (first : List α) {rest : List α} {a : α}
    (met : Along step P s (first ++ a :: rest)) (ran : run step s first = some t) : P t a := by
  induction first generalizing s with
  | nil =>
      obtain rfl := Option.some.inj ran
      exact met.1
  | cons b later ih =>
      obtain ⟨next, taken, remaining⟩ := Option.bind_eq_some_iff.mp ran
      exact ih (met.2 next taken) remaining

/-- A property of states that steps satisfying `P` keep holds in every state of
    a run whose steps all satisfy `P`. -/
theorem Along.always {Q : σ → Prop} {P : σ → α → Prop}
    (keeps : ∀ s a next, Q s → P s a → step s a = some next → Q next)
    {s : σ} {actions : List α} (start : Q s) (met : Along step P s actions) :
    Always step Q s actions := by
  induction actions generalizing s with
  | nil => exact start
  | cons a rest ih =>
      obtain ⟨here, later⟩ := met
      exact ⟨start, fun next taken => ih (keeps s a next start here taken) (later next taken)⟩

theorem Always.head {Q : σ → Prop} {s : σ} {actions : List α}
    (held : Always step Q s actions) : Q s := by
  cases actions with
  | nil => exact held
  | cons a rest => exact held.1

theorem Always.last {Q : σ → Prop} {s final : σ} {actions : List α}
    (held : Always step Q s actions) (ran : run step s actions = some final) : Q final := by
  induction actions generalizing s with
  | nil =>
      obtain rfl := Option.some.inj ran
      exact held
  | cons a rest ih =>
      obtain ⟨next, taken, later⟩ := Option.bind_eq_some_iff.mp ran
      exact ih (held.2 next taken) later

theorem Always.mono {Q R : σ → Prop} (weaken : ∀ s, Q s → R s) {s : σ} {actions : List α}
    (held : Always step Q s actions) : Always step R s actions := by
  induction actions generalizing s with
  | nil => exact weaken s held
  | cons a rest ih => exact ⟨weaken s held.1, fun next taken => ih (held.2 next taken)⟩

/-- In a run whose steps all satisfy `L`, which keeps an invariant: when a step
    from a good state reaches a good state exactly if the step satisfies `P`, the
    run stays good exactly if all its steps satisfy `P`. -/
theorem Along.always_iff {I Q : σ → Prop} {L P : σ → α → Prop}
    (keeps : ∀ s a next, I s → L s a → step s a = some next → I next)
    (trapped : ∀ s a, step s a = none → P s a)
    (exact_step : ∀ s a next, I s → L s a → Q s → step s a = some next → (Q next ↔ P s a))
    {s : σ} {actions : List α} (inv : I s) (start : Q s) (lawful : Along step L s actions) :
    Always step Q s actions ↔ Along step P s actions := by
  constructor
  · intro held
    induction actions generalizing s with
    | nil => trivial
    | cons a rest ih =>
        obtain ⟨here, later⟩ := lawful
        constructor
        · cases taken : step s a with
          | none => exact trapped s a taken
          | some next =>
              exact (exact_step s a next inv here start taken).mp (held.2 next taken).head
        · intro next taken
          exact ih (keeps s a next inv here taken) (held.2 next taken).head (later next taken)
            (held.2 next taken)
  · intro met
    refine Always.mono (fun _ both => both.2) (Along.always (Q := fun s => I s ∧ Q s) ?_
      ⟨inv, start⟩ (lawful.and met))
    rintro s a next ⟨inv, good⟩ ⟨here, covers⟩ taken
    exact ⟨keeps s a next inv here taken, (exact_step s a next inv here good taken).mpr covers⟩

theorem always_iff_along {Q : σ → Prop} {P : σ → α → Prop}
    (trapped : ∀ s a, step s a = none → P s a)
    (exact_step : ∀ s a next, Q s → step s a = some next → (Q next ↔ P s a))
    {s : σ} {actions : List α} (start : Q s) :
    Always step Q s actions ↔ Along step P s actions :=
  Along.always_iff (I := fun _ => True) (L := fun _ _ => True) (fun _ _ _ _ _ _ => trivial)
    trapped (fun s a next _ _ => exact_step s a next) trivial start
    (Along.of_forall fun _ _ _ => trivial)

/-! ## While loops -/

section Loops

variable {τ : Type*} {guard : σ → Bool} {body : σ → Option σ}

/-- `while guard { body }`. `none` is a trap in the body, or a loop that is not
    over when the fuel is used up. -/
def whileLoop (guard : σ → Bool) (body : σ → Option σ) : Nat → σ → Option σ
  | 0, s => if guard s then none else some s
  | fuel + 1, s => if guard s then (body s).bind (whileLoop guard body fuel) else some s

/-- With fuel for a measure that every turn lowers, a loop gives what the solution
    of its equation gives, traps included. -/
theorem whileLoop_eq (measure : σ → Nat) {result : σ → τ} {f : σ → Option τ}
    (ends : ∀ s, guard s = false → f s = some (result s))
    (turns : ∀ s, guard s = true → f s = (body s).bind f)
    (lowers : ∀ s next, guard s = true → body s = some next → measure next < measure s)
    {s : σ} {fuel : Nat} (enough : measure s ≤ fuel) :
    (whileLoop guard body fuel s).map result = f s := by
  induction fuel generalizing s with
  | zero =>
      cases more : guard s with
      | false => simp [whileLoop, more, ends s more]
      | true =>
          rw [turns s more]
          cases taken : body s with
          | none => simp [whileLoop, more]
          | some next =>
              have less := lowers s next more taken
              omega
  | succ fuel ih =>
      cases more : guard s with
      | false => simp [whileLoop, more, ends s more]
      | true =>
          rw [turns s more]
          cases taken : body s with
          | none => simp [whileLoop, more, taken]
          | some next =>
              have less := lowers s next more taken
              simp only [whileLoop, more, taken, if_true, Option.bind_some]
              exact ih (by omega)

/-- Two `for` loops over corresponding elements stay in step, and trap together. -/
theorem foldlM_rel {R : σ → τ → Prop} {turn : σ → α → Option σ}
    {turn' : τ → α → Option τ} {g : α → α} {todo : List α}
    (turns : ∀ a ∈ todo, ∀ s t, R s t → Option.Rel R (turn s a) (turn' t (g a)))
    {s : σ} {t : τ} (start : R s t) :
    Option.Rel R (todo.foldlM turn s) ((todo.map g).foldlM turn' t) := by
  induction todo generalizing s t with
  | nil => exact .some start
  | cons a rest ih =>
      rw [List.map_cons, List.foldlM_cons, List.foldlM_cons]
      have first := turns a List.mem_cons_self s t start
      revert first
      cases turn s a <;> cases turn' t (g a) <;> rintro ⟨⟩
      · exact .none
      · rename_i related
        exact ih (fun b later => turns b (List.mem_cons_of_mem a later)) related

end Loops

end Runs
