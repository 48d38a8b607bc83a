import Kasei.Checkout.Posts

/-! # The checkout screen

Send covers the screen with a card that takes all touches, and blocks the swipe
that would dismiss it; the closure of `postRequest` turns the card into a
success or a failure, and a second later the screen returns to the landing
screen. Everybody else posts in the meantime. If the cell with the pickers is
scrolled out of sight, Send only blocks the swipe. An exception on the way to the
tree ends the app, and the run with it.
-/

namespace Kasei.Checkout

open JsonTree Runs Counters Posting

/-- The result card: not there, with the indicator, or with one of the icons. -/
inductive Card where
  | hidden
  | sending
  | success
  | failure
  deriving Repr, DecidableEq

def Card.text : Card → String
  | .hidden => ""
  | .sending => "Sending..."
  | .success => "Success!"
  | .failure => "Something went wrong!"

structure CheckoutViewController where
  request : Option Request
  isModalInPresentation : Bool := false
  card : Card := .hidden

/-- A checkout and the posts of all clients. `own` are the calls that the screen
    has made, `returns` the blocks of `asyncAfter` that have not run, `unwinds`
    the returns to the landing screen. -/
structure Sending where
  posts : Posts
  screen : Option CheckoutViewController
  own : List Nat := []
  returns : Nat := 0
  unwinds : Nat := 0

def Sending.start (database : Json) (request : Option Request) : Sending :=
  { posts := Posts.start database, screen := some { request := request } }

/-- `detailCell` is the slot that the visible cell holds, `none` if the table has
    no cell for that row. -/
inductive CheckoutEvent where
  | clickedSend (currentUser : Option String) (clock : Clock) (detailCell : Option ℚ)
  | dimissClicked
  | swipedDown
  | traffic (event : PostEvent)
  | returnToMain

/-- The request as Send completes it. -/
def sentRequest (delSlotStart : ℚ) (request : Request) : Request :=
  { request with delSlotStart := some delSlotStart, status := some "sent" }

namespace Sending

/-- `clickedSend`, on a screen without the card. -/
def clickedSend (s : Sending) (screen : CheckoutViewController) (currentUser : Option String)
    (clock : Clock) (detailCell : Option ℚ) : Option Sending :=
  let modal := { screen with isModalInPresentation := true }
  match detailCell with
  | none => some { s with screen := some modal }
  | some delSlotStart =>
      let request := screen.request.map (sentRequest delSlotStart)
      let shown := { modal with request := request, card := .sending }
      match request with
      | none => some { s with screen := some shown }
      | some req => do
          let posts ← s.posts.post currentUser clock req
          return { s with
            posts := posts
            screen := some shown
            own := s.own ++ if currentUser.isSome then [s.posts.calls.length] else [] }

/-- The closure passed to `postRequest`. -/
def completed (s : Sending) (success : Bool) : Sending :=
  { s with
    screen := s.screen.map fun screen =>
      { screen with card := if success then .success else .failure }
    returns := s.returns + 1 }

def reports (posts : Posts) (k : Nat) : List Bool :=
  (posts.calls[k]?.map Call.completions).getD []

def threw (posts : Posts) (k : Nat) : Bool :=
  posts.calls[k]?.any fun call => decide (call.stage = .thrown)

/-- A step of the posts; what it reports to the calls of this screen goes to their
    closures. -/
def traffic (autoId : Nat → String) (s : Sending) (event : PostEvent) : Option Sending := do
  let posts ← s.posts.step autoId event
  let news := s.own.flatMap fun k => (reports posts k).drop (reports s.posts k).length
  if s.own.any (threw posts) then none else some (news.foldl completed { s with posts := posts })

/-- A touch under the card hits nothing. -/
def step (autoId : Nat → String) (s : Sending) : CheckoutEvent → Option Sending
  | .clickedSend currentUser clock detailCell =>
      match s.screen with
      | none => some s
      | some screen =>
          if screen.card = .hidden then s.clickedSend screen currentUser clock detailCell
          else some s
  | .dimissClicked =>
      match s.screen with
      | none => some s
      | some screen => some (if screen.card = .hidden then { s with screen := none } else s)
  | .swipedDown =>
      match s.screen with
      | none => some s
      | some screen =>
          some (if screen.isModalInPresentation then s else { s with screen := none })
  | .traffic event => s.traffic autoId event
  | .returnToMain =>
      match s.returns, s.screen with
      | 0, _ => some s
      | waiting + 1, none => some { s with returns := waiting }
      | waiting + 1, some _ =>
          some { s with screen := none, returns := waiting, unwinds := s.unwinds + 1 }

end Sending

/-- Where a checkout is. -/
inductive Phase (s : Sending) : Prop where
  /-- Nothing has been sent; the screen may be closed. -/
  | idle (screen : ∀ screen, s.screen = some screen → screen.card = .hidden) (own : s.own = [])
      (returns : s.returns = 0) (unwinds : s.unwinds = 0)
  /-- Sent without a user or without a request: no call was made. -/
  | stranded (screen : ∃ screen, s.screen = some screen ∧ screen.card = .sending ∧
        screen.isModalInPresentation = true) (own : s.own = [])
      (returns : s.returns = 0) (unwinds : s.unwinds = 0)
  | waiting (screen : ∃ screen, s.screen = some screen ∧ screen.card = .sending ∧
        screen.isModalInPresentation = true) (k : Nat) (call : Call) (own : s.own = [k])
      (made : s.posts.calls[k]? = some call) (open_ : call.completions = [])
      (returns : s.returns = 0) (unwinds : s.unwinds = 0)
  | reported (success : Bool) (screen : ∃ screen, s.screen = some screen ∧
        screen.card = (if success then .success else .failure) ∧
        screen.isModalInPresentation = true) (k : Nat) (call : Call) (own : s.own = [k])
      (made : s.posts.calls[k]? = some call) (told : call.completions = [success])
      (returns : s.returns = 1) (unwinds : s.unwinds = 0)
  | returned (success : Bool) (screen : s.screen = none) (k : Nat) (call : Call)
      (own : s.own = [k]) (made : s.posts.calls[k]? = some call)
      (told : call.completions = [success]) (returns : s.returns = 0) (unwinds : s.unwinds = 1)

section Calls

variable {autoId : Nat → String} {s next : Posts} {event : PostEvent} {k : Nat} {call : Call}

theorem Posts.step_call (taken : s.step autoId event = some next)
    (found : s.calls[k]? = some call) :
    ∃ after more, next.calls[k]? = some after ∧ after.completions = call.completions ++ more ∧
      after.uid = call.uid ∧ after.items = call.items ∧ after.reqDict = call.reqDict := by
  cases Posts.step_advance taken with
  | same => exact ⟨call, [], found, by simp, rfl, rfl, rfl⟩
  | posted uid clock req _ =>
      have inside := (List.getElem?_eq_some_iff.mp found).1
      exact ⟨call, [], by rw [List.getElem?_append_left inside, found], by simp, rfl, rfl, rfl⟩
  | @answered _ j before after draws write passed here reply =>
      by_cases own : j = k
      · subst own
        obtain rfl := Option.some.inj (here.symm.trans found)
        obtain ⟨more, told⟩ := reply.told
        have inside := (List.getElem?_eq_some_iff.mp found).1
        exact ⟨after, more, by simp [inside], told, reply.uid, reply.items, reply.reqDict⟩
      · exact ⟨call, [], by simp [own, found], by simp, rfl, rfl, rfl⟩
  | committed => exact ⟨call, [], found, by simp, rfl, rfl, rfl⟩

end Calls

/-- The invariant of a checkout. -/
structure Sending.Sound (autoId : Nat → String) (database : Json) (s : Sending) : Prop where
  posts : s.posts.Sound autoId database
  phase : Phase s

section Steps

variable {autoId : Nat → String} {database : Json} {s next : Sending}

theorem Sending.Sound.start (autoId : Nat → String) (database : Json) (request : Option Request) :
    (Sending.start database request).Sound autoId database :=
  ⟨Posts.Sound.start autoId database,
    .idle (fun _ here => (Option.some.inj here) ▸ rfl) rfl rfl rfl⟩

theorem Phase.unsent (phase : Phase s) {screen : CheckoutViewController}
    (here : s.screen = some screen) (hidden : screen.card = .hidden) :
    s.own = [] ∧ s.returns = 0 ∧ s.unwinds = 0 := by
  cases phase with
  | idle _ own returns unwinds => exact ⟨own, returns, unwinds⟩
  | stranded shown | waiting shown =>
      obtain ⟨other, there, card, -⟩ := shown
      obtain rfl := Option.some.inj (here.symm.trans there)
      cases hidden.symm.trans card
  | reported success shown =>
      obtain ⟨other, there, card, -⟩ := shown
      obtain rfl := Option.some.inj (here.symm.trans there)
      cases success <;> cases hidden.symm.trans card
  | returned _ gone => cases here.symm.trans gone

theorem Sending.send_sound (fresh : FreshIds autoId database) (sound : s.Sound autoId database)
    {screen : CheckoutViewController} (here : s.screen = some screen)
    (hidden : screen.card = .hidden) {currentUser : Option String} {clock : Clock}
    {detailCell : Option ℚ}
    (taken : s.clickedSend screen currentUser clock detailCell = some next) :
    next.Sound autoId database := by
  obtain ⟨own, returns, unwinds⟩ := sound.phase.unsent here hidden
  cases detailCell with
  | none =>
      obtain rfl := Option.some.inj taken
      exact ⟨sound.posts,
        .idle (fun _ there => (Option.some.inj there) ▸ hidden) own returns unwinds⟩
  | some delSlotStart =>
      cases asked : screen.request with
      | none =>
          simp only [clickedSend, asked, Option.map_none] at taken
          obtain rfl := Option.some.inj taken
          exact ⟨sound.posts, .stranded ⟨_, rfl, rfl, rfl⟩ own returns unwinds⟩
      | some request =>
          simp only [clickedSend, asked, Option.map_some, Option.bind_eq_bind] at taken
          obtain ⟨after, posted, last⟩ := Option.bind_eq_some_iff.mp taken
          obtain rfl := Option.some.inj last
          cases currentUser with
          | none =>
              obtain rfl := Option.some.inj posted
              exact ⟨sound.posts, .stranded ⟨_, rfl, rfl, rfl⟩ (by simp [own]) returns unwinds⟩
          | some uid =>
              have step : s.posts.step autoId
                  (.post (some uid) clock (sentRequest delSlotStart request)) = some after := posted
              have kept := Posts.step_sound fresh sound.posts step
              obtain ⟨-, rfl⟩ := Posts.post_user posted
              exact ⟨kept, .waiting ⟨_, rfl, rfl, rfl⟩ s.posts.calls.length
                (Call.begin uid clock.now _ _) (by simp [own]) List.getElem?_concat_length rfl
                returns unwinds⟩

theorem Posts.Sound.settled {posts after : Posts} (kept : after.Sound autoId database)
    {event : PostEvent} (step : posts.step autoId event = some after) {k : Nat} {call : Call}
    (made : posts.calls[k]? = some call) {success : Bool} (said : call.completions = [success]) :
    ∃ later, after.calls[k]? = some later ∧ later.completions = [success] := by
  obtain ⟨later, more, found, told, -⟩ := Posts.step_call step made
  have once := (kept.calls later (List.mem_of_getElem? found)).reported ▸
    Stage.reported_length later.stage
  rw [told, said] at once
  obtain rfl : more = [] := by simpa using once
  exact ⟨later, found, by rw [told, said]; rfl⟩

theorem Sending.traffic_sound (fresh : FreshIds autoId database) (sound : s.Sound autoId database)
    {event : PostEvent} (taken : s.traffic autoId event = some next) :
    next.Sound autoId database := by
  simp only [traffic, Option.bind_eq_bind] at taken
  obtain ⟨posts, step, rest⟩ := Option.bind_eq_some_iff.mp taken
  obtain ⟨-, last⟩ := Option.ite_none_left_eq_some.mp rest
  have kept := Posts.step_sound fresh sound.posts step
  cases sound.phase with
  | idle screen own returns unwinds =>
      simp only [own, List.flatMap_nil, List.foldl_nil] at last
      obtain rfl := Option.some.inj last
      exact ⟨kept, .idle screen rfl returns unwinds⟩
  | stranded screen own returns unwinds =>
      simp only [own, List.flatMap_nil, List.foldl_nil] at last
      obtain rfl := Option.some.inj last
      exact ⟨kept, .stranded screen rfl returns unwinds⟩
  | waiting screen k call own made open_ returns unwinds =>
      obtain ⟨later, more, found, told, -⟩ := Posts.step_call step made
      rw [open_, List.nil_append] at told
      have once := (kept.calls later (List.mem_of_getElem? found)).reported ▸
        Stage.reported_length later.stage
      rw [told] at once
      obtain ⟨shown, here, card, modal⟩ := screen
      match more, once with
      | [], _ =>
          simp only [own, List.flatMap_singleton, reports, found, made, Option.map_some,
            Option.getD_some, told, open_, List.drop_nil, List.foldl_nil] at last
          obtain rfl := Option.some.inj last
          exact ⟨kept, .waiting ⟨shown, here, card, modal⟩ k later rfl found told returns unwinds⟩
      | [success], _ =>
          simp only [own, List.flatMap_singleton, reports, found, made, Option.map_some,
            Option.getD_some, told, open_, List.length_nil, List.drop_zero, List.foldl_cons,
            List.foldl_nil, completed, here] at last
          obtain rfl := Option.some.inj last
          exact ⟨kept, .reported success ⟨_, rfl, rfl, modal⟩ k later rfl found told
            (by simp [returns]) unwinds⟩
  | reported success screen k call own made said returns unwinds =>
      obtain ⟨later, found, told⟩ := kept.settled step made said
      simp only [own, List.flatMap_singleton, reports, found, made, Option.map_some,
        Option.getD_some, told, said, List.drop_length, List.foldl_nil] at last
      obtain rfl := Option.some.inj last
      exact ⟨kept, .reported success screen k later rfl found told returns unwinds⟩
  | returned success screen k call own made said returns unwinds =>
      obtain ⟨later, found, told⟩ := kept.settled step made said
      simp only [own, List.flatMap_singleton, reports, found, made, Option.map_some,
        Option.getD_some, told, said, List.drop_length, List.foldl_nil] at last
      obtain rfl := Option.some.inj last
      exact ⟨kept, .returned success screen k later rfl found told returns unwinds⟩

/-- The screen can be closed only while nothing has been sent. -/
theorem Sending.Sound.closed (sound : s.Sound autoId database) {screen : CheckoutViewController}
    (here : s.screen = some screen)
    (free : screen.card = .hidden ∨ screen.isModalInPresentation = false) :
    { s with screen := none }.Sound autoId database := by
  have unsent : s.own = [] ∧ s.returns = 0 ∧ s.unwinds = 0 := by
    rcases free with hidden | loose
    · exact sound.phase.unsent here hidden
    · cases sound.phase with
      | idle _ own returns unwinds => exact ⟨own, returns, unwinds⟩
      | stranded shown | waiting shown | reported _ shown =>
          obtain ⟨other, there, -, modal⟩ := shown
          obtain rfl := Option.some.inj (here.symm.trans there)
          cases loose.symm.trans modal
      | returned _ gone => cases here.symm.trans gone
  obtain ⟨own, returns, unwinds⟩ := unsent
  exact ⟨sound.posts, .idle (fun _ there => nomatch there) own returns unwinds⟩

theorem Sending.return_sound (sound : s.Sound autoId database)
    (taken : s.step autoId .returnToMain = some next) : next.Sound autoId database := by
  simp only [step] at taken
  split at taken <;> obtain rfl := Option.some.inj taken
  · exact sound
  · rename_i waiting due gone
    cases sound.phase with
    | idle _ _ none | stranded _ _ none | waiting _ _ _ _ _ _ none =>
        cases none.symm.trans due
    | reported _ shown =>
        obtain ⟨other, there, -⟩ := shown
        cases gone.symm.trans there
    | returned _ _ _ _ _ _ _ none => cases none.symm.trans due
  · rename_i waiting screen due here
    cases sound.phase with
    | idle _ _ none | stranded _ _ none | waiting _ _ _ _ _ _ none =>
        cases none.symm.trans due
    | reported success _ k call own made told returns unwinds =>
        rw [due] at returns
        exact ⟨sound.posts, .returned success rfl k call own made told (by simpa using returns)
          (by simp [unwinds])⟩
    | returned _ _ _ _ _ _ _ none => cases none.symm.trans due

theorem Sending.step_sound (fresh : FreshIds autoId database) {event : CheckoutEvent}
    (sound : s.Sound autoId database) (taken : s.step autoId event = some next) :
    next.Sound autoId database := by
  cases event with
  | clickedSend currentUser clock detailCell =>
      simp only [step] at taken
      split at taken
      · obtain rfl := Option.some.inj taken
        exact sound
      · rename_i screen here
        split at taken
        · rename_i hidden
          exact send_sound fresh sound here hidden taken
        · obtain rfl := Option.some.inj taken
          exact sound
  | dimissClicked =>
      simp only [step] at taken
      split at taken <;> obtain rfl := Option.some.inj taken
      · exact sound
      · rename_i screen here
        split
        · rename_i hidden
          exact sound.closed here (.inl hidden)
        · exact sound
  | swipedDown =>
      simp only [step] at taken
      split at taken <;> obtain rfl := Option.some.inj taken
      · exact sound
      · rename_i screen here
        split
        · exact sound
        · rename_i loose
          exact sound.closed here (.inr (by simpa using loose))
  | traffic event => exact traffic_sound fresh sound taken
  | returnToMain => exact return_sound sound taken

end Steps

theorem Card.text_success (card : Card) : card.text = "Success!" ↔ card = .success := by
  cases card <;> decide

theorem Card.text_failure (card : Card) :
    card.text = "Something went wrong!" ↔ card = .failure := by
  cases card <;> decide

/-- In every order of taps, replies and posts of other clients: one request at most
    is posted from the screen; the card says that it succeeded exactly if both its
    nodes are in the tree, and that it failed exactly if the call said so; and the
    screen is left before anything is sent, or once, after the outcome is known. -/
theorem checkout_shows_outcome {autoId : Nat → String} {database : Json}
    (fresh : FreshIds autoId database) {request : Option Request} {events : List CheckoutEvent}
    {s : Sending}
    (ran : run (Sending.step autoId) (Sending.start database request) events = some s) :
    s.own.length ≤ 1 ∧ s.unwinds ≤ 1 ∧
    (∀ screen, s.screen = some screen →
      (screen.card.text = "Success!" ↔ ∃ k ∈ s.own, ∃ call, s.posts.calls[k]? = some call ∧
        call.Stored autoId s.posts.database) ∧
      (screen.card.text = "Something went wrong!" ↔ ∃ k ∈ s.own, ∃ call,
        s.posts.calls[k]? = some call ∧ call.completions = [false])) ∧
    (s.screen = none → (s.own = [] ∧ s.unwinds = 0) ∨
      (s.unwinds = 1 ∧ ∃ k ∈ s.own, ∃ call, s.posts.calls[k]? = some call ∧
        call.completions ≠ [])) := by
  have sound : s.Sound autoId database :=
    run_keeps (fun _ _ _ => Sending.step_sound fresh) (Sending.Sound.start autoId database request)
      ran
  have stored : ∀ {k : Nat} {call : Call}, s.posts.calls[k]? = some call →
      (call.Stored autoId s.posts.database ↔ call.completions = [true]) := fun found =>
    (sound.posts.sent_iff_stored fresh (List.mem_of_getElem? found)).symm
  simp only [Card.text_success, Card.text_failure]
  cases sound.phase with
  | idle hidden own returns unwinds =>
      refine ⟨by simp [own], by simp [unwinds], fun screen here => ?_, fun _ => .inl ⟨own, unwinds⟩⟩
      simp [hidden screen here, own]
  | stranded shown own returns unwinds =>
      obtain ⟨shown, there, card, -⟩ := shown
      refine ⟨by simp [own], by simp [unwinds], fun screen here => ?_, fun gone => ?_⟩
      · obtain rfl := Option.some.inj (here.symm.trans there)
        simp [card, own]
      · cases gone.symm.trans there
  | waiting shown k call own made open_ returns unwinds =>
      obtain ⟨shown, there, card, -⟩ := shown
      refine ⟨by simp [own], by simp [unwinds], fun screen here => ?_, fun gone => ?_⟩
      · obtain rfl := Option.some.inj (here.symm.trans there)
        simp [card, own, made, stored made, open_]
      · cases gone.symm.trans there
  | reported success shown k call own made told returns unwinds =>
      obtain ⟨shown, there, card, -⟩ := shown
      refine ⟨by simp [own], by simp [unwinds], fun screen here => ?_, fun gone => ?_⟩
      · obtain rfl := Option.some.inj (here.symm.trans there)
        cases success <;> simp [card, own, made, stored made, told]
      · cases gone.symm.trans there
  | returned success gone k call own made told returns unwinds =>
      refine ⟨by simp [own], by simp [unwinds], fun screen here => ?_, fun _ => .inr ⟨unwinds, ?_⟩⟩
      · cases gone.symm.trans here
      · exact ⟨k, by simp [own], call, made, by simp [told]⟩

section Example

private def corasHome : Json :=
  .obj [("elderly", .obj [("cora", .obj [("ZoneID", .str "north")])])]

private theorem corasHome_homes : Homes corasHome [("cora", "north")] := ⟨rfl, rfl, rfl⟩

private theorem corasHome_fresh : FreshIds countingIds corasHome := corasHome_homes.fresh (by simp)

private def corasMilk : Request :=
  { id := none, dateCreated := none, senderID := "cora", status := none, delSlotStart := none
    items := [{ id := "milk", name := "Milk", icon := "m", qty := 2, bgCol := "blue" }] }

private def corasClock : Clock := ⟨1611000000, 1611014400⟩

private theorem corasSlot :
    delSlotMillis (sentRequest 1611100800 corasMilk).delSlotStart corasClock.defaultSlot =
      some 1611100800000 := by
  have whole : rounded 1611100800 = 1611100800 := by norm_num [rounded]
  simp only [delSlotMillis, sentRequest, Option.getD_some, whole]
  rfl

/-- A tap with the pickers out of sight, one with them in sight, a tap on the cross
    under the card, and the three replies. -/
private def corasTaps : List CheckoutEvent :=
  [.clickedSend (some "cora") corasClock none,
    .clickedSend (some "cora") corasClock (some 1611100800), .traffic (.zoneReply 0),
    .dimissClicked, .traffic (.requestReply 0 true), .traffic (.indexReply 0 true)]

private theorem corasTaps_run : ∃ s screen,
    run (Sending.step countingIds) (Sending.start corasHome (some corasMilk)) corasTaps = some s ∧
      s.screen = some screen ∧ screen.card.text = "Success!" := by
  simp only [corasTaps, run_cons, Sending.step, Sending.start, Sending.clickedSend, if_true,
    Option.bind_some, Option.map_some, Posts.post, corasSlot]
  exact ⟨_, _, rfl, rfl, rfl⟩

/-- The card reports a success, so both nodes are there. -/
theorem checkout_shows_outcome_success : ∃ s call,
    run (Sending.step countingIds) (Sending.start corasHome (some corasMilk)) corasTaps = some s ∧
      call ∈ s.posts.calls ∧ call.Stored countingIds s.posts.database := by
  obtain ⟨s, screen, ran, here, text⟩ := corasTaps_run
  obtain ⟨-, -, shows, -⟩ := checkout_shows_outcome corasHome_fresh ran
  obtain ⟨k, -, call, found, stored⟩ := (shows screen here).1.mp text
  exact ⟨s, call, ran, List.mem_of_getElem? found, stored⟩

end Example

/-! ## Coming back from Send -/

section Returning

variable {autoId : Nat → String} {database : Json} {s next : Sending}

/-- The replies that a call still waits for. -/
def Stage.work : Stage → Nat
  | .lookingUp => 3
  | .writing _ _ => 2
  | .indexing _ _ _ => 1
  | _ => 0

theorem Posts.step_throws {posts after : Posts} {event : PostEvent} {k : Nat} {call later : Call}
    (step : posts.step autoId event = some after) (found : posts.calls[k]? = some call)
    (there : after.calls[k]? = some later) : later.Throws database ↔ call.Throws database := by
  obtain ⟨other, -, here, -, uid, items, -⟩ := Posts.step_call step found
  obtain rfl := Option.some.inj (there.symm.trans here)
  simp only [Call.Throws, uid, items]

/-- A reply brings a call that has not reported closer to its report. -/
theorem Posts.progress {posts : Posts} {k : Nat} {call : Call} (found : posts.calls[k]? = some call)
    (sound : call.Sound database) (safe : ¬ call.Throws database) (open_ : call.completions = []) :
    ∃ event after later, posts.step autoId event = some after ∧
      after.calls[k]? = some later ∧ later.stage.work < call.stage.work := by
  have inside := (List.getElem?_eq_some_iff.mp found).1
  cases stage : call.stage with
  | lookingUp =>
      refine ⟨.zoneReply k, _, ?_, Posts.step_zoneReply found stage, ?_⟩
      · exact (posts.zoneReply k call).calls[k]?.getD call
      · unfold Posts.zoneReply
        split
        · split <;> simp [inside, Call.moveTo, Stage.work]
        · simp [inside, Call.complete, Stage.work]
  | writing zoneid key =>
      refine ⟨.requestReply k false, _, call.complete (.refused (some key)) false,
        Posts.step_requestReply found stage false, ?_⟩
      simp [Posts.requestReply, inside, Call.complete, Stage.work]
  | indexing zoneid key index =>
      refine ⟨.indexReply k false, _, call.complete (.halfStored zoneid key index) false,
        (Posts.step_indexReply found stage false).trans rfl, ?_⟩
      simp [inside, Call.complete, Stage.work]
  | stored | halfStored | refused =>
      have told := sound.reported
      rw [open_, stage] at told
      cases told
  | thrown => exact absurd (sound.threw stage) safe

/-- What is still to happen before the screen returns. -/
def Sending.work (s : Sending) : Nat :=
  if s.unwinds = 1 then 0
  else 1 + (s.own.map fun k => (s.posts.calls[k]?.map fun call => call.stage.work).getD 0).sum

theorem Sending.foldl_completed (news : List Bool) (s : Sending) :
    (news.foldl completed s).posts = s.posts ∧ (news.foldl completed s).own = s.own ∧
      (news.foldl completed s).unwinds = s.unwinds := by
  induction news generalizing s with
  | nil => exact ⟨rfl, rfl, rfl⟩
  | cons success rest ih => exact ih (s.completed success)

theorem Sending.traffic_some {event : PostEvent} {posts : Posts}
    (step : s.posts.step autoId event = some posts) (alive : s.own.any (threw posts) = false) :
    ∃ next, s.traffic autoId event = some next ∧ next.posts = posts ∧ next.own = s.own ∧
      next.unwinds = s.unwinds := by
  simp only [traffic, step, alive, Option.bind_eq_bind, Option.bind_some, Bool.false_eq_true,
    if_false]
  exact ⟨_, rfl, foldl_completed _ _⟩

/-- A call has been made, and its replies end in a report. -/
structure Sending.Going (database : Json) (s : Sending) : Prop where
  made : s.own ≠ []
  safe : ∀ k ∈ s.own, ∀ call, s.posts.calls[k]? = some call → ¬ call.Throws database

theorem Sending.progress (fresh : FreshIds autoId database) (sound : s.Sound autoId database)
    (going : s.Going database) (busy : s.work ≠ 0) :
    ∃ event next, s.step autoId event = some next ∧
      (next.Sound autoId database ∧ next.Going database) ∧ next.work < s.work := by
  cases sound.phase with
  | idle _ own | stranded _ own => exact absurd own going.made
  | waiting screen k call own found open_ returns unwinds =>
      have safe := going.safe k (by simp [own]) call found
      obtain ⟨event, posts, later, step, there, closer⟩ := Posts.progress found
        (sound.posts.calls call (List.mem_of_getElem? found)) safe open_
      have still : ¬ later.Throws database := fun throws =>
        safe ((Posts.step_throws step found there).mp throws)
      have kept := Posts.step_sound fresh sound.posts step
      have alive : s.own.any (threw posts) = false := by
        have stage : later.stage ≠ .thrown := fun thrown =>
          still ((kept.calls later (List.mem_of_getElem? there)).threw thrown)
        simp [own, threw, there, stage]
      obtain ⟨next, taken, same, calls, unwound⟩ := Sending.traffic_some step alive
      refine ⟨.traffic event, next, taken,
        ⟨traffic_sound fresh sound taken, calls ▸ going.made, ?_⟩, ?_⟩
      · rw [calls, own, same]
        rintro j here other made
        obtain rfl := List.mem_singleton.mp here
        exact Option.some.inj (there.symm.trans made) ▸ still
      · simp only [work, same, calls, unwound, unwinds, own, List.map_singleton,
          List.sum_singleton, there, found, Option.map_some, Option.getD_some]
        simpa using closer
  | reported success screen k call own found told returns unwinds =>
      obtain ⟨shown, here, -⟩ := screen
      have taken : s.step autoId .returnToMain =
          some { s with screen := none, returns := 0, unwinds := s.unwinds + 1 } := by
        simp only [step, returns, here]
      exact ⟨.returnToMain, _, taken,
        ⟨step_sound fresh sound taken, going.made, going.safe⟩, by simp [work, unwinds]⟩
  | returned success screen k call own found told returns unwinds => simp [work, unwinds] at busy

theorem Sending.exists_return (fresh : FreshIds autoId database)
    (sound : s.Sound autoId database) (going : s.Going database) :
    ∃ more final, run (Sending.step autoId) s more = some final ∧ final.unwinds = 1 := by
  obtain ⟨more, final, ran, -, rest⟩ := exists_run_to_rest Sending.work
    (fun s held busy => Sending.progress fresh held.1 held.2 busy) ⟨sound, going⟩
  refine ⟨more, final, ran, ?_⟩
  simp only [work] at rest
  split at rest
  · assumption
  · omega

/-- Sent, without a call that could report. -/
structure Sending.Stranded (database : Json) (s : Sending) : Prop where
  calls : ∀ k ∈ s.own, ∃ call, s.posts.calls[k]? = some call ∧ call.Throws database
  returns : s.returns = 0
  unwinds : s.unwinds = 0
  screen : ∃ screen, s.screen = some screen ∧ screen.card = .sending ∧
    screen.isModalInPresentation = true

theorem Call.Sound.unreported {call : Call} (sound : call.Sound database)
    (throws : call.Throws database) : call.completions = [] := by
  rw [sound.reported]
  rcases sound.silent throws with stage | stage <;> rw [stage] <;> rfl

theorem Sending.step_stranded (fresh : FreshIds autoId database) {event : CheckoutEvent}
    (sound : s.Sound autoId database) (stranded : s.Stranded database)
    (taken : s.step autoId event = some next) : next.Stranded database := by
  obtain ⟨calls, returns, unwinds, screen, here, card, modal⟩ := stranded
  have still : s.Stranded database := ⟨calls, returns, unwinds, screen, here, card, modal⟩
  cases event with
  | clickedSend | dimissClicked =>
      simp only [step, here, card, reduceCtorEq, if_false] at taken
      obtain rfl := Option.some.inj taken
      exact still
  | swipedDown =>
      simp only [step, here, modal, if_true] at taken
      obtain rfl := Option.some.inj taken
      exact still
  | traffic event =>
      simp only [step, traffic, Option.bind_eq_bind] at taken
      obtain ⟨posts, moved, rest⟩ := Option.bind_eq_some_iff.mp taken
      obtain ⟨-, last⟩ := Option.ite_none_left_eq_some.mp rest
      have kept := Posts.step_sound fresh sound.posts moved
      have waiting : ∀ k ∈ s.own, ∃ call, posts.calls[k]? = some call ∧ call.Throws database := by
        intro k own
        obtain ⟨call, found, throws⟩ := calls k own
        obtain ⟨later, -, there, -⟩ := Posts.step_call moved found
        exact ⟨later, there, (Posts.step_throws moved found there).mpr throws⟩
      have silent : (s.own.flatMap fun k =>
          (reports posts k).drop (reports s.posts k).length) = [] := by
        refine List.flatMap_eq_nil_iff.mpr fun k own => ?_
        obtain ⟨later, there, throws⟩ := waiting k own
        have unreported := (kept.calls later (List.mem_of_getElem? there)).unreported throws
        simp [reports, there, unreported]
      rw [silent, List.foldl_nil] at last
      obtain rfl := Option.some.inj last
      exact ⟨waiting, returns, unwinds, screen, here, card, modal⟩
  | returnToMain =>
      simp only [step, returns] at taken
      obtain rfl := Option.some.inj taken
      exact still

theorem Sending.Stranded.run (fresh : FreshIds autoId database) {events : List CheckoutEvent}
    (sound : s.Sound autoId database) (stranded : s.Stranded database)
    (ran : run (Sending.step autoId) s events = some next) : next.Stranded database := by
  have steps : ∀ (s : Sending) event next,
      s.Sound autoId database ∧ s.Stranded database → s.step autoId event = some next →
        next.Sound autoId database ∧ next.Stranded database := fun _ _ _ held taken =>
    ⟨Sending.step_sound fresh held.1 taken, Sending.step_stranded fresh held.1 held.2 taken⟩
  exact (run_keeps steps ⟨sound, stranded⟩ ran).2

/-- A user is signed in, the screen has a request, and `child:` and `setValue` do
    not throw once the zone of the user is found. -/
def Sendable (database : Json) (currentUser : Option String) (request : Option Request) : Prop :=
  ∃ uid req, currentUser = some uid ∧ request = some req ∧
    ((retrieveSubzone database (some uid)).2 = true →
      isWritable (retrieveSubzone database (some uid)).1 req.items = true)

theorem Sending.sent (sound : s.Sound autoId database) {screen : CheckoutViewController}
    (here : s.screen = some screen) (hidden : screen.card = .hidden) {currentUser : Option String}
    {clock : Clock} {slot : ℚ}
    (sent : s.step autoId (.clickedSend currentUser clock (some slot)) = some next) :
    ¬ Sendable database currentUser screen.request ∧ next.Stranded database ∨
      Sendable database currentUser screen.request ∧ next.Going database := by
  obtain ⟨own, returns, unwinds⟩ := sound.phase.unsent here hidden
  simp only [step, here, hidden, if_true, clickedSend] at sent
  cases asked : screen.request with
  | none =>
      simp only [asked, Option.map_none] at sent
      obtain rfl := Option.some.inj sent
      exact .inl ⟨by simp [Sendable], by simp [own], returns, unwinds, _, rfl, rfl, rfl⟩
  | some req =>
      simp only [asked, Option.map_some, Option.bind_eq_bind] at sent
      obtain ⟨posts, posted, last⟩ := Option.bind_eq_some_iff.mp sent
      obtain rfl := Option.some.inj last
      cases currentUser with
      | none =>
          exact .inl ⟨by simp [Sendable], by simp [own], returns, unwinds, _, rfl, rfl, rfl⟩
      | some uid =>
          obtain ⟨-, rfl⟩ := Posts.post_user posted
          by_cases sendable : Sendable database (some uid) (some req)
          · refine .inr ⟨sendable, by simp [own], ?_⟩
            simpa [own, Call.Throws, Call.begin, sentRequest, Sendable] using sendable
          · refine .inl ⟨sendable, ?_, returns, unwinds, _, rfl, rfl, rfl⟩
            simpa [own, Call.Throws, Call.begin, sentRequest, Sendable] using sendable

end Returning

/-- After Send, with the pickers in sight: the screen can come back to the landing
    screen exactly if what it sends is sendable. Otherwise the card keeps saying
    that it is sending, whatever happens, until an exception ends the app. -/
theorem checkout_returns_iff {autoId : Nat → String} {database : Json}
    (fresh : FreshIds autoId database) {request : Option Request} {events : List CheckoutEvent}
    {s next : Sending}
    (ran : run (Sending.step autoId) (Sending.start database request) events = some s)
    {screen : CheckoutViewController} (here : s.screen = some screen)
    (hidden : screen.card = .hidden) {currentUser : Option String} {clock : Clock} {slot : ℚ}
    (sent : s.step autoId (.clickedSend currentUser clock (some slot)) = some next) :
    ((∃ more final, run (Sending.step autoId) next more = some final ∧ final.unwinds = 1) ↔
      Sendable database currentUser screen.request) ∧
    (¬ Sendable database currentUser screen.request → ∀ more final,
      run (Sending.step autoId) next more = some final →
        ∃ shown, final.screen = some shown ∧ shown.card.text = "Sending...") := by
  have sound : s.Sound autoId database :=
    run_keeps (fun _ _ _ => Sending.step_sound fresh) (Sending.Sound.start autoId database request)
      ran
  have after := Sending.step_sound fresh sound sent
  rcases Sending.sent sound here hidden sent with ⟨unsendable, stranded⟩ | ⟨sendable, going⟩
  · refine ⟨iff_of_false ?_ unsendable, fun _ more final ran => ?_⟩
    · rintro ⟨more, final, ran, back⟩
      rw [(stranded.run fresh after ran).unwinds] at back
      cases back
    · obtain ⟨shown, there, card, -⟩ := (stranded.run fresh after ran).screen
      exact ⟨shown, there, by rw [card]; rfl⟩
  · exact ⟨iff_of_true (Sending.exists_return fresh after going) sendable,
      fun unsendable => absurd sendable unsendable⟩

section Example

private theorem corasSend (currentUser : Option String) : ∃ next,
    (Sending.start corasHome (some corasMilk)).step countingIds
      (.clickedSend currentUser corasClock (some 1611100800)) = some next := by
  simp only [Sending.step, Sending.start, Sending.clickedSend, if_true, Option.map_some]
  cases currentUser with
  | none => exact ⟨_, rfl⟩
  | some uid =>
      simp only [Posts.post, corasSlot]
      exact ⟨_, rfl⟩

/-- With a user the screen can come back; without one it says that it is sending. -/
theorem checkout_returns_iff_signed_in :
    (∃ next more final, (Sending.start corasHome (some corasMilk)).step countingIds
        (.clickedSend (some "cora") corasClock (some 1611100800)) = some next ∧
      run (Sending.step countingIds) next more = some final ∧ final.unwinds = 1) ∧
    ∃ next, (Sending.start corasHome (some corasMilk)).step countingIds
        (.clickedSend none corasClock (some 1611100800)) = some next ∧
      ∀ more final, run (Sending.step countingIds) next more = some final →
        ∃ shown, final.screen = some shown ∧ shown.card.text = "Sending..." := by
  obtain ⟨with_, sent⟩ := corasSend (some "cora")
  obtain ⟨without, lost⟩ := corasSend none
  have start : run (Sending.step countingIds) (Sending.start corasHome (some corasMilk)) [] =
    some (Sending.start corasHome (some corasMilk)) := rfl
  obtain ⟨more, final, back⟩ := (checkout_returns_iff corasHome_fresh start rfl rfl sent).1.mpr
    ⟨"cora", corasMilk, rfl, rfl, fun _ => by decide⟩
  refine ⟨⟨with_, more, final, sent, back⟩, without, lost, ?_⟩
  refine (checkout_returns_iff corasHome_fresh start rfl rfl lost).2 ?_
  rintro ⟨uid, req, user, -⟩
  cases user

end Example

end Kasei.Checkout
