import Kasei.Basket.Loading
import Kasei.Checkout.Live
import Kasei.Checkout.Screen
import Kasei.CoreData.Freshness

/-! # From the basket to the list

One order on its way through the whole app: the basket becomes a request at
checkout, the request becomes two nodes of the tree, a refresh reads them back,
the sync saves them, and the landing screen lists them. In between everybody
else posts, and answers come in any order.
-/

namespace Kasei.Checkout

open JsonTree Runs FanIn Basket CoreData Landing Posting RoundTrip

section Posts

variable {autoId : Nat → String} {database : Json} {s next : Posts} {k : Nat} {call : Call}

theorem Posts.run_call {events : List PostEvent}
    (ran : run (Posts.step autoId) s events = some next) (found : s.calls[k]? = some call) :
    ∃ after, next.calls[k]? = some after ∧ after.uid = call.uid ∧ after.items = call.items ∧
      after.reqDict = call.reqDict := by
  induction events generalizing s call with
  | nil =>
      obtain rfl := Option.some.inj ran
      exact ⟨call, found, rfl, rfl, rfl⟩
  | cons event rest ih =>
      obtain ⟨middle, taken, later⟩ := Option.bind_eq_some_iff.mp ran
      obtain ⟨after, more, there, -, uid, items, reqDict⟩ := Posts.step_call taken found
      obtain ⟨last, end_, uid', items', reqDict'⟩ := ih later there
      exact ⟨last, end_, uid'.trans uid, items'.trans items, reqDict'.trans reqDict⟩

theorem Posts.post_call {uid : String} {clock : Clock} {req : Request}
    (taken : s.step autoId (.post (some uid) clock req) = some next) :
    next.calls[s.calls.length]? =
      some (Call.begin uid clock.now (slotMillis clock req) req) := by
  simp only [Posts.step, Posts.post, delSlotMillis_eq, Option.bind_eq_bind] at taken
  obtain ⟨millis, fits, last⟩ := Option.bind_eq_some_iff.mp taken
  obtain ⟨-, same⟩ := Option.ite_none_right_eq_some.mp fits
  obtain rfl := Option.some.inj same
  obtain rfl := Option.some.inj last
  simp

end Posts

section Refresh

variable {database : Json} {languageCode currentUser : Option String} {start : Screen}
  {refresh after : Refresh}

/-- A refresh leaves the saved requests alone until it delivers; from then on the
    screen lists what the sync of the delivered requests has saved. -/
structure Refreshed (languageCode : Option String) (start : Screen) (refresh : Refresh) : Prop where
  waiting : refresh.fetch.finished = false → refresh.screen.saved = start.saved
  done : refresh.fetch.finished = true → ∃ orders order saved,
    updateSavedRequests orders languageCode start.saved refresh.fetch.result = some saved ∧
      refresh.screen.userRequests = loadAllRequests order saved.store

theorem Refreshed.step {event : RefreshEvent} (refreshed : Refreshed languageCode start refresh)
    (sound : refresh.fetch.Sound database languageCode currentUser)
    (taken : refresh.step database languageCode event = some after) :
    Refreshed languageCode start after ∧
      after.fetch.Sound database languageCode currentUser := by
  cases event with
  | reload =>
      obtain rfl := Option.some.inj taken
      exact ⟨⟨fun waits => by simpa using refreshed.waiting waits,
        fun done => by simpa using refreshed.done done⟩, sound⟩
  | fetch event orders =>
      simp only [Refresh.step, Option.bind_eq_bind] at taken
      obtain ⟨⟨fetch, delivered⟩, moved, rest⟩ := Option.bind_eq_some_iff.mp taken
      obtain ⟨kept, outcome⟩ := Fetch.step_sound sound moved
      obtain ⟨rfl, same, frozen⟩ | ⟨was, now, rfl⟩ := outcome
      · obtain rfl := Option.some.inj rest
        refine ⟨⟨fun waits => refreshed.waiting (same ▸ waits), fun done => ?_⟩, kept⟩
        rw [same] at done
        rw [frozen done]
        exact refreshed.done done
      · obtain ⟨screen, received, last⟩ := Option.bind_eq_some_iff.mp rest
        obtain rfl := Option.some.inj last
        obtain ⟨saved, synced, rfl⟩ := Screen.received_cases received
        rw [refreshed.waiting was] at synced
        refine ⟨⟨fun waits => ?_, fun _ => ⟨_, _, saved, synced, rfl⟩⟩, kept⟩
        exact absurd (waits.symm.trans now) (by simp)

theorem refreshData_refreshed {events : List RefreshEvent}
    (ran : run (Refresh.step database languageCode) (refreshData currentUser start) events =
      some refresh) :
    Refreshed languageCode start refresh ∧
      refresh.fetch.Sound database languageCode currentUser := by
  have keeps : ∀ (s : Refresh) event next,
      Refreshed languageCode start s ∧ s.fetch.Sound database languageCode currentUser →
        s.step database languageCode event = some next →
      Refreshed languageCode start next ∧ next.fetch.Sound database languageCode currentUser :=
    fun _ _ _ held taken => held.1.step held.2 taken
  refine run_keeps keeps ?_ ran
  refine ⟨⟨fun _ => rfl, fun done => ?_⟩,
    fetchAllUserRequests_sound database languageCode currentUser⟩
  cases currentUser <;> cases done

end Refresh

/-- The request that checkout takes over from the basket. -/
def orderOf (shop : Shop) (newRequest : Request) (slot : ℚ) : Request :=
  sentRequest slot { newRequest with items := shop.items.map shop.heap }

/-- What the basket promises to the post, once the checkout button is there. -/
theorem orderOf_proper {catalogue : Json} {languageCode : Option String} {heap : Heap}
    {taps : List ShopEvent} {shop : Shop}
    (shopped : run (Shop.step catalogue languageCode) { heap := heap } taps = some shop)
    (ready : shop.actionBarHidden = false) (newRequest : Request) (slot : ℚ) :
    (orderOf shop newRequest slot).items ≠ [] ∧
      ((orderOf shop newRequest slot).items.map RequestItem.id).Nodup := by
  obtain ⟨orderly, -, -, t, f, -, -, simulates⟩ :=
    run_followed (Shop.Orderly.start heap) (Simulates.start heap) shopped
  constructor
  · rw [orderly.bar, decide_eq_false_iff_not, Nat.le_zero, List.length_eq_zero_iff] at ready
    simpa [orderOf, sentRequest] using ready
  · simpa [orderOf, sentRequest, Function.comp_def] using simulates.distinct

/-- The landing screen lists an order: as new, under the slot that was picked, to
    the second, and with the quantities of the basket. -/
structure Lists (shop : Shop) (newRequest : Request) (slot : ℚ) (listed : List Request)
    (id : String) (shown : Request) : Prop where
  member : shown ∈ listed
  named : shown.id = some id
  sender : shown.senderID = newRequest.senderID
  status : shown.status = some "sent"
  slot : shown.delSlotStart = some (rounded slot : ℚ)
  isNew : shown.isNew = some true
  items : (itemCounts shown.items).Perm (itemCounts (shop.items.map shop.heap))

section Arrival

variable {database : Json} {languageCode : Option String} {uid zoneid index id : String}
  {clock : Clock} {slot : ℚ} {shop : Shop} {newRequest : Request}

theorem refreshData_runs {screen : Screen} (inOrder : InOrder database uid)
    (named : ∀ row ∈ screen.saved.store, row.id ≠ none) (languageCode : Option String)
    (events : List RefreshEvent) :
    ∃ refresh, run (Refresh.step database languageCode) (refreshData (some uid) screen) events =
        some refresh ∧
      ∃ rest final, run (Refresh.step database languageCode) refresh rest = some final ∧
        final.fetch.work database = 0 := by
  have typed : ∀ user, some uid = some user →
      WellTyped database (indexNode database user).children := by
    rintro user same
    obtain rfl := Option.some.inj same
    exact inOrder.wellTyped
  have steps : ∀ (s : Refresh) event, s.Sound database languageCode (some uid) →
      ∃ after, s.step database languageCode event = some after ∧
        after.Sound database languageCode (some uid) :=
    fun _ event held => Refresh.step_spec typed held event
  obtain ⟨refresh, reached, sound⟩ := run_total steps (refreshData_sound named) events
  obtain ⟨rest, final, ended, -, idle⟩ := exists_run_to_rest
    (fun refresh : Refresh => refresh.fetch.work database)
    (fun _ held busy => Refresh.progress typed held busy) sound
  exact ⟨refresh, reached, rest, final, ended, idle⟩

theorem readsBack_fits {read : Request} (back : ReadsBack (orderOf shop newRequest slot) slot read)
    (fits : ∀ r ∈ shop.items, -2 ^ 31 ≤ (shop.heap r).qty ∧ (shop.heap r).qty < 2 ^ 31) :
    ∀ item ∈ read.items, -2 ^ 31 ≤ item.qty ∧ item.qty < 2 ^ 31 := by
  intro item inside
  have counted := back.items.mem_iff.mp
    (List.mem_map_of_mem (f := fun item => (item.id, item.qty)) inside)
  simp only [orderOf, sentRequest, List.map_map, List.mem_map, Function.comp_apply,
    Prod.mk.injEq] at counted
  obtain ⟨r, there, -, qty⟩ := counted
  rw [← qty]
  exact fits r there

theorem lists_of_saved {order : FetchOrder} {read : Request} {saved : Saved}
    (back : ReadsBack (orderOf shop newRequest slot) slot read) (named : read.id = some id)
    (fits : ∀ r ∈ shop.items, -2 ^ 31 ≤ (shop.heap r).qty ∧ (shop.heap r).qty < 2 ^ 31)
    (row : cdrequest read ∈ saved.store) :
    ∃ shown, Lists shop newRequest slot (loadAllRequests order saved.store) id shown := by
  have restored := restores_loadRequest order (readsBack_fits back fits)
  refine ⟨loadRequest order (cdrequest read), mem_loadAllRequests.mpr ⟨_, row, rfl⟩,
    restored.id.trans named, restored.senderID.trans back.sender,
    restored.status.trans back.status, restored.delSlotStart.trans back.slot, restored.isNew, ?_⟩
  have counts := restored.items.map fun attributes => (attributes.1, attributes.2.2.2.1)
  simp only [List.map_map, Function.comp_def, itemAttributes] at counts
  exact counts.trans back.items

/-- A request whose two nodes are in the tree is listed after a refresh. -/
theorem lists_of_stored {screen : Screen} {events : List RefreshEvent} {refresh : Refresh}
    (nonempty : (orderOf shop newRequest slot).items ≠ [])
    (distinct : ((orderOf shop newRequest slot).items.map RequestItem.id).Nodup)
    (keys : ∀ item ∈ (orderOf shop newRequest slot).items, isValidKey item.id = true)
    (zone : isValidKey zoneid = true) (legal : isValidKey id = true)
    (stored : database.get (requestPath zoneid id) =
      requestDictionary clock.now (rounded slot * 1000) (orderOf shop newRequest slot))
    (indexed : database.get (indexPath uid zoneid index) = .str id)
    (inOrder : InOrder database uid)
    (decodable : ∀ r ∈ shop.items, getRequestItem database languageCode (shop.heap r).id ≠ none)
    (fits : ∀ r ∈ shop.items, -2 ^ 31 ≤ (shop.heap r).qty ∧ (shop.heap r).qty < 2 ^ 31)
    (unsaved : ∀ row ∈ screen.saved.store, row.id ≠ some id)
    (ran : run (Refresh.step database languageCode) (refreshData (some uid) screen) events =
      some refresh)
    (idle : refresh.fetch.work database = 0) :
    ∃ shown, Lists shop newRequest slot refresh.screen.userRequests id shown := by
  obtain ⟨refreshed, sound⟩ := refreshData_refreshed ran
  have done := (sound.finished_of_idle idle).mpr inOrder.completable
  obtain ⟨-, user, same, requests, brought, answers⟩ := sound.delivered done
  obtain rfl := Option.some.inj same
  obtain ⟨orders, order, saved, synced, listed⟩ := refreshed.done done
  -- the fetch reads the node
  have node : (requestNode database zoneid id).value = requestDictionary clock.now
      (rounded slot * 1000) (orderOf shop newRequest slot) := stored
  have entry : (zoneid, id) ∈ validEntries database (indexNode database uid).children :=
    mem_validEntries_iff.mpr
      ⟨indexed_of_get zone indexed, by simp [decodeHead_of_posted node]⟩
  obtain ⟨read, member, fit⟩ := forall₂_exists answers entry
  have back : ReadsBack (orderOf shop newRequest slot) slot read := by
    refine readsBack_of_requestFor nonempty distinct keys node ?_ fit
    intro item inside
    obtain ⟨r, there, rfl⟩ := List.mem_map.mp inside
    exact decodable r there
  have named : read.id = some id := fit.named.trans (by rw [requestNode_key _ _ legal])
  -- the sync saves it
  have row : cdrequest read ∈ saved.store := by
    refine updateSavedRequests_saves (fun _ row inside => ?_) (brought.mem_iff.mpr member) synced
    rintro ⟨old, -⟩
    exact unsaved row inside (old.trans named)
  rw [listed]
  exact lists_of_saved back named fits row

end Arrival

/-- Whatever was tapped to fill the basket, whoever else posts before, during and
    after, and in whichever order everything is answered: if the post of the
    basket reports success, a refresh of the user gets through all its answers,
    and has then listed the order. -/
theorem order_arrives {autoId : Nat → String} {database : Json} (fresh : FreshIds autoId database)
    (zones : KeyZones database) (inOrder : ∀ uid, InOrder database uid)
    {catalogue : Json} {shopLanguage : Option String} {heap : Heap} {taps : List ShopEvent}
    {shop : Shop}
    (shopped : run (Shop.step catalogue shopLanguage) { heap := heap } taps = some shop)
    (ready : shop.actionBarHidden = false)
    (newRequest : Request) (slot : ℚ) (uid : String) (clock : Clock)
    {earlier later : List PostEvent} (proper : ∀ event ∈ earlier ++ later, Proper event)
    {before s : Posts} (ran : run (Posts.step autoId) (Posts.start database) earlier = some before)
    (posted : run (Posts.step autoId) before
      (.post (some uid) clock (orderOf shop newRequest slot) :: later) = some s)
    {call : Call} (made : s.calls[before.calls.length]? = some call)
    (succeeded : call.completions = [true])
    {languageCode : Option String}
    (decodable : ∀ r ∈ shop.items, getRequestItem s.database languageCode (shop.heap r).id ≠ none)
    (fits : ∀ r ∈ shop.items, -2 ^ 31 ≤ (shop.heap r).qty ∧ (shop.heap r).qty < 2 ^ 31)
    {screen : Screen} (named : ∀ row ∈ screen.saved.store, row.id ≠ none)
    (unsaved : ∀ row ∈ screen.saved.store, ∀ key ∈ call.keys, row.id ≠ some (autoId key)) :
    ∃ key ∈ call.keys, ∀ events, ∃ refresh,
      run (Refresh.step s.database languageCode) (refreshData (some uid) screen) events =
        some refresh ∧
      (refresh.fetch.work s.database = 0 → ∃ shown,
        Lists shop newRequest slot refresh.screen.userRequests (autoId key) shown ∧
          ∀ rendering, summaryCell rendering shown ≠ none) ∧
      ∃ rest final, run (Refresh.step s.database languageCode) refresh rest = some final ∧
        final.fetch.work s.database = 0 := by
  obtain ⟨nonempty, distinct⟩ := orderOf_proper shopped ready newRequest slot
  have whole : run (Posts.step autoId) (Posts.start database)
      (earlier ++ .post (some uid) clock (orderOf shop newRequest slot) :: later) = some s := by
    rw [run_append, ran, Option.bind_some, posted]
  have serving := Posts.run_serving fresh zones inOrder (fun event member => by
    rcases List.mem_append.mp member with first | rest
    · exact proper event (List.mem_append_left _ first)
    · rcases List.mem_cons.mp rest with rfl | last
      · exact ⟨nonempty, rfl⟩
      · exact proper event (List.mem_append_right _ last)) whole
  obtain ⟨middle, taken, rest⟩ := Option.bind_eq_some_iff.mp posted
  obtain ⟨same, made', user, items, reqDict⟩ := Posts.run_call rest (Posts.post_call taken)
  obtain rfl := Option.some.inj (made.symm.trans made')
  obtain ⟨zoneid, key, index, sent⟩ :=
    serving.sound.sent (List.mem_of_getElem? made) succeeded
  have stored := sent.stored
  have indexed := sent.indexed
  have keys := sent.ids
  rw [reqDict] at stored
  rw [user] at indexed
  rw [items] at keys
  have served := serving.inOrder uid
  refine ⟨key, sent.drawn, fun events => ?_⟩
  obtain ⟨refresh, reached, ends⟩ := refreshData_runs served named languageCode events
  refine ⟨refresh, reached, fun idle => ?_, ends⟩
  obtain ⟨shown, lists⟩ := lists_of_stored nonempty distinct keys (zones zoneid sent.zone)
    (fresh.key key) stored indexed served decodable fits
    (fun row inside => unsaved row inside key sent.drawn) reached idle
  refine ⟨shown, lists, fun rendering => summaryCell_ne_none_iff.mpr ?_⟩
  exact ⟨"sent", lists.status, by decide⟩

section Example

private def dorasHome : Json :=
  .obj [("elderly", .obj [("dora", .obj [("ZoneID", .str "north")])]),
    ("items", .obj [("salt", .obj [("name", .str "Salt"), ("icon", .str "s"),
      ("bgCol", .str "white"), ("limit", .int 3)])])]

private theorem dorasHome_homes : Homes dorasHome [("dora", "north")] := ⟨rfl, rfl, rfl⟩

private theorem dorasHome_fresh : FreshIds countingIds dorasHome := dorasHome_homes.fresh (by simp)

private theorem dorasHome_zones : KeyZones dorasHome := dorasHome_homes.keyZones (by simp)

private def nothing : Heap := fun _ => { id := "", name := "", icon := "", qty := 0, bgCol := "" }

private def dorasTaps : List ShopEvent :=
  [.cellTapped ["salt", "gone"], .answered 0 1, .answered 0 0, .categoryTap 0 .plus,
    .clickedDismiss]

private def dorasShop : Shop :=
  (run (Shop.step dorasHome none) { heap := nothing } dorasTaps).getD { heap := nothing }

private theorem dorasTaps_run :
    run (Shop.step dorasHome none) { heap := nothing } dorasTaps = some dorasShop := rfl

private def dorasRequest : Request :=
  { id := none, dateCreated := none, senderID := "dora", status := none, delSlotStart := none
    items := [] }

private theorem doras_posts : ∃ s call,
    run (Posts.step countingIds) (Posts.start dorasHome)
      [.post (some "dora") ⟨1611000000, 1611014400⟩ (orderOf dorasShop dorasRequest 1611100800),
        .zoneReply 0, .requestReply 0 true, .indexReply 0 true] = some s ∧
      s.calls[0]? = some call ∧ call.completions = [true] ∧
      getRequestItem s.database none "salt" ≠ none := by
  have whole : rounded 1611100800 = 1611100800 := by norm_num [rounded]
  have slot : delSlotMillis (orderOf dorasShop dorasRequest 1611100800).delSlotStart 1611014400 =
      some 1611100800000 := by
    simp only [delSlotMillis, orderOf, sentRequest, Option.getD_some, whole]
    rfl
  simp only [run_cons, Posts.step, Posts.post, slot]
  exact ⟨_, _, rfl, rfl, rfl, by decide⟩

/-- One of two items exists, is put into the basket and ordered. -/
theorem order_arrives_salt : ∃ s : Posts, ∃ call ∈ s.calls, ∃ key ∈ call.keys,
    ∀ events, ∃ refresh,
      run (Refresh.step s.database none) (refreshData (some "dora") ⟨[], ⟨[], none⟩, true, 0⟩)
        events = some refresh ∧
      (refresh.fetch.work s.database = 0 → ∃ shown,
        Lists dorasShop dorasRequest 1611100800 refresh.screen.userRequests (countingIds key)
          shown ∧ ∀ rendering, summaryCell rendering shown ≠ none) ∧
      ∃ rest final, run (Refresh.step s.database none) refresh rest = some final ∧
        final.fetch.work s.database = 0 := by
  obtain ⟨s, call, posted, made, succeeded, salt⟩ := doras_posts
  have basket : dorasShop.items = [0] ∧ (dorasShop.heap 0).id = "salt" ∧
      (dorasShop.heap 0).qty = 1 := by decide
  refine ⟨s, call, List.mem_of_getElem? made, ?_⟩
  have alone : run (Posts.step countingIds) (Posts.start dorasHome) [] =
      some (Posts.start dorasHome) := rfl
  refine order_arrives dorasHome_fresh dorasHome_zones dorasHome_homes.inOrder dorasTaps_run
    (by decide) dorasRequest 1611100800 "dora" _ (by simp [Proper]) alone posted made succeeded
    ?_ ?_ (by simp) (by simp)
  · simp [basket, salt]
  · simp [basket]

end Example

end Kasei.Checkout
