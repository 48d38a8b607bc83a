import Kasei.Models.ItemCategory
import Kasei.Landing.Refresh

/-! # Showing what was read

The list and the details of a request unwrap its status by force, and look up
the text for it by force. A status is read with a guard that only asks for a
string, so one without a text is saved, and traps when it is shown: after the
refresh, and again after every launch. The unwraps in the load itself are of
columns that `saveRequest` fills from fields that are never nil, which the type
of a row says.
-/

namespace Kasei.Landing

open JsonTree FanIn Runs CoreData

/-- `NSLocalizedString` and the two date formats, for the language in use. -/
structure Rendering where
  localized : String → String
  slotStart : ℚ → String
  slotEnd : ℚ → String

def statusMap : List (String × String) :=
  [("done", "Completed!"), ("otw", "Delivering..."), ("prep", "Preparing..."),
    ("sent", "Request Sent")]

def getStatus (rendering : Rendering) (code : String) : Option String :=
  (statusMap.lookup code).map rendering.localized

/-- `StatusMap.getStatus(for: request.status!)`. -/
def statusText (rendering : Rendering) (request : Request) : Option String := do
  let status ← request.status
  getStatus rendering status

/-- A slot is two hours long. -/
def delSlotString (rendering : Rendering) (request : Request) : Option String :=
  request.delSlotStart.map fun slotStart =>
    rendering.slotStart slotStart ++ " - " ++ rendering.slotEnd (slotStart + 60 * 60 * 2)

structure RequestSummaryCell where
  statusLabel : String
  deliverySlotLabel : Option String
  isNewIndicatorHidden : Bool
  contentSummary : String
  deriving Repr, DecidableEq

/-- The cell of a row of the landing list. -/
def summaryCell (rendering : Rendering) (request : Request) : Option RequestSummaryCell := do
  let text ← statusText rendering request
  let summaryStrings := request.items.map fun item => toString item.qty ++ " " ++ item.name
  return {
    statusLabel := text
    deliverySlotLabel := delSlotString rendering request
    isNewIndicatorHidden := !request.isNew.getD false
    contentSummary := ", ".intercalate summaryStrings }

/-- A row of the contents: the title, the icon and the count. -/
structure ContentCell where
  title : String
  icon : String
  count : Int
  deriving Repr, DecidableEq

structure RequestDetails where
  statusLabel : String
  deliverySlotLabel : Option String
  contents : List ContentCell
  deriving Repr, DecidableEq

/-- The cells of the detail screen. -/
def requestDetails (rendering : Rendering) (request : Request) : Option RequestDetails := do
  let text ← statusText rendering request
  return {
    statusLabel := text
    deliverySlotLabel := delSlotString rendering request
    contents := request.items.map fun item => ⟨item.name, item.icon, item.qty⟩ }

/-- The landing screen of one user, from launch to launch. -/
structure Phone where
  languageCode : Option String
  screen : Screen
  refreshes : List Fetch
  categories : Option (List ItemCategory)

inductive PhoneEvent where
  /-- The process starts again, maybe in another language. -/
  | launch (languageCode : Option String) (order : FetchOrder)
  | refresh
  | fetch (refresh : Nat) (event : FetchEvent) (orders : Nat → FetchOrder)
  | reload
  | cell (row : Nat)
  | details (row : Nat)
  /-- The categories screen opens, and its read is answered. -/
  | categories

/-- `viewDidLoad`: the saved requests are shown before any refresh. -/
def Phone.launch (currentUser : Option String) (saved : Saved) (languageCode : Option String)
    (order : FetchOrder) : Phone where
  languageCode := languageCode
  screen := ⟨loadAllRequests order saved.store, saved, false, 0⟩
  refreshes := [fetchAllUserRequests currentUser]
  categories := none

/-- Show the request of a row, if the list has one. -/
def Phone.show {Cell : Type} (phone : Phone) (row : Nat) (cell : Request → Option Cell) :
    Option Phone :=
  match phone.screen.userRequests[row]? with
  | none => some phone
  | some request => (cell request).map fun _ => phone

/-- An event of a fetch as the app sees it, which the exception of `child:` ends. -/
def Fetch.stepAlive (database : Json) (languageCode : Option String) (fetch : Fetch)
    (event : FetchEvent) : Option (Fetch × Option (List Request)) :=
  match fetch.step database languageCode event with
  | some (.aborted, _) => none
  | moved => moved

def Phone.step (database : Json) (currentUser : Option String)
    (rendering : Option String → Rendering) (phone : Phone) : PhoneEvent → Option Phone
  | .launch languageCode order => some (.launch currentUser phone.screen.saved languageCode order)
  | .refresh =>
      some { phone with refreshes := phone.refreshes ++ [fetchAllUserRequests currentUser] }
  | .fetch refresh event orders =>
      match phone.refreshes[refresh]? with
      | none => some phone
      | some fetch => do
          let (after, delivered) ← fetch.stepAlive database phone.languageCode event
          let phone := { phone with refreshes := phone.refreshes.set refresh after }
          match delivered with
          | none => return phone
          | some requests =>
              let screen ← phone.screen.received orders phone.languageCode (some requests)
              return { phone with screen := screen }
  | .reload => some { phone with screen := phone.screen.reload }
  | .cell row => phone.show row (summaryCell (rendering phone.languageCode))
  | .details row => phone.show row (requestDetails (rendering phone.languageCode))
  | .categories => do
      let categories ← getItemCategories database phone.languageCode
      return { phone with categories := categories }

/-- A status that has a text. -/
def Shown (status : Option String) : Prop :=
  ∃ code, status = some code ∧ statusMap.lookup code ≠ none

/-- The casts by force that the reads reach succeed, `child:` takes every path
    and, if a refresh can complete, every request that it brings has a status with
    a text. -/
structure Presentable (database : Json) (currentUser languageCode : Option String) : Prop where
  index : ∀ uid, currentUser = some uid →
    AllRead database languageCode (indexNode database uid).children
  statuses : Completable database currentUser → ∀ uid, currentUser = some uid →
    ∀ entry ∈ validEntries database (indexNode database uid).children,
      Shown (asString ((requestNode database entry.1 entry.2).childSnapshot "status").value)
  categories : CategoriesReadable database languageCode

theorem Fetch.stepAlive_eq_some_iff {database : Json} {languageCode : Option String}
    {fetch after : Fetch} {event : FetchEvent} {delivered : Option (List Request)} :
    fetch.stepAlive database languageCode event = some (after, delivered) ↔
      fetch.step database languageCode event = some (after, delivered) ∧ after ≠ .aborted := by
  unfold Fetch.stepAlive
  cases fetch.step database languageCode event with
  | none => simp
  | some moved =>
      obtain ⟨next, brought⟩ := moved
      cases next <;> simp +contextual [eq_comm]

section Cells

variable {rendering : Rendering} {request : Request}

theorem statusText_ne_none_iff : statusText rendering request ≠ none ↔ Shown request.status := by
  unfold statusText Shown getStatus
  cases request.status with
  | none => simp
  | some code => simp [-List.lookup_eq_none_iff]

theorem summaryCell_ne_none_iff : summaryCell rendering request ≠ none ↔ Shown request.status := by
  rw [← statusText_ne_none_iff, summaryCell]
  cases statusText rendering request <;> simp

theorem requestDetails_ne_none_iff :
    requestDetails rendering request ≠ none ↔ Shown request.status := by
  rw [← statusText_ne_none_iff, requestDetails]
  cases statusText rendering request <;> simp

theorem Phone.show_eq {phone : Phone} {Cell : Type} {cell : Request → Option Cell}
    (shown : ∀ request ∈ phone.screen.userRequests, cell request ≠ none) (row : Nat) :
    phone.show row cell = some phone := by
  unfold Phone.show
  cases found : phone.screen.userRequests[row]? with
  | none => rfl
  | some request =>
      obtain ⟨built, made⟩ := Option.ne_none_iff_exists'.mp
        (shown request (List.mem_of_getElem? found))
      simp [made]

theorem Phone.shown_of_show {phone : Phone} {Cell : Type} {cell : Request → Option Cell}
    (shows : ∀ row, phone.show row cell ≠ none) :
    ∀ request ∈ phone.screen.userRequests, cell request ≠ none := by
  intro request member trapped
  obtain ⟨row, found⟩ := List.mem_iff_getElem?.mp member
  exact shows row (by simp [Phone.show, found, trapped])

end Cells

/-- The invariant of a phone: every status that is saved or listed has a text. -/
structure Phone.Sound (database : Json) (currentUser : Option String) (phone : Phone) : Prop where
  refreshes : ∀ fetch ∈ phone.refreshes, fetch.Sound database phone.languageCode currentUser
  rows : ∀ row ∈ phone.screen.saved.store, row.id ≠ none ∧ Shown row.status
  listed : ∀ request ∈ phone.screen.userRequests, Shown request.status

section Enough

variable {database : Json} {currentUser languageCode : Option String}
  {rendering : Option String → Rendering} {phone : Phone}

theorem shown_of_rows {store : List CDRequest} (order : FetchOrder)
    (rows : ∀ row ∈ store, row.id ≠ none ∧ Shown row.status) :
    ∀ request ∈ loadAllRequests order store, Shown request.status := by
  intro request member
  obtain ⟨row, inside, rfl⟩ := mem_loadAllRequests.mp member
  exact (rows row inside).2

theorem Phone.launch_sound {saved : Saved}
    (rows : ∀ row ∈ saved.store, row.id ≠ none ∧ Shown row.status)
    (languageCode : Option String) (order : FetchOrder) :
    (Phone.launch currentUser saved languageCode order).Sound database currentUser where
  refreshes := List.forall_mem_singleton.mpr (fetchAllUserRequests_sound ..)
  rows := rows
  listed := shown_of_rows order rows

theorem Fetch.Sound.shown {fetch : Fetch}
    (presentable : Presentable database currentUser languageCode)
    (sound : fetch.Sound database languageCode currentUser) (done : fetch.finished = true) :
    ∀ request ∈ fetch.result, request.id ≠ none ∧ Shown request.status := by
  obtain ⟨idle, uid, user, requests, brought, answers⟩ := sound.delivered done
  have completable := (sound.finished_of_idle idle).mp done
  intro request member
  have inside := brought.mem_iff.mp member
  obtain ⟨i, found⟩ := List.mem_iff_getElem?.mp inside
  obtain ⟨entry, valid, fits, -⟩ := forall₂_set answers found
  refine ⟨answers.named request inside, ?_⟩
  rw [fits.status]
  exact presentable.statuses completable uid user entry valid

theorem Fetch.Sound.alive {fetch : Fetch}
    (presentable : Presentable database currentUser languageCode)
    (sound : fetch.Sound database languageCode currentUser) : fetch ≠ .aborted := by
  rintro rfl
  obtain ⟨uid, user, -, zoneSnap, here, requestIDSnap, inside, id, named, illegal⟩ := sound
  obtain ⟨id', named', takes, -⟩ :=
    presentable.index uid user zoneSnap here requestIDSnap inside
  obtain rfl := Option.some.inj (named.symm.trans named')
  exact illegal takes

theorem Screen.received_shown (orders : Nat → FetchOrder) (languageCode : Option String)
    (screen : Screen) {requests : List Request}
    (rows : ∀ row ∈ screen.saved.store, row.id ≠ none ∧ Shown row.status)
    (brought : ∀ request ∈ requests, request.id ≠ none ∧ Shown request.status) :
    ∃ after, screen.received orders languageCode (some requests) = some after ∧
      (∀ row ∈ after.saved.store, row.id ≠ none ∧ Shown row.status) ∧
      ∀ request ∈ after.userRequests, Shown request.status := by
  obtain ⟨after, received, -⟩ := screen.received_total orders languageCode
    (fun row member => (rows row member).1) fun request member => (brought request member).1
  obtain ⟨saved, synced, rfl⟩ := Screen.received_cases received
  have kept : ∀ row ∈ saved.store, row.id ≠ none ∧ Shown row.status :=
    updateSavedRequests_rows (fun _ known => known) rows brought synced
  exact ⟨_, received, kept, shown_of_rows _ kept⟩

/-- An event of one of the refreshes. -/
theorem Phone.fetch_sound (presentable : Presentable database currentUser phone.languageCode)
    (sound : phone.Sound database currentUser) (refresh : Nat) (event : FetchEvent)
    (orders : Nat → FetchOrder) :
    ∃ after, phone.step database currentUser rendering (.fetch refresh event orders) =
        some after ∧
      after.Sound database currentUser := by
  cases found : phone.refreshes[refresh]? with
  | none => exact ⟨phone, by simp [step, found], sound⟩
  | some fetch =>
      have fetchSound := sound.refreshes fetch (List.mem_of_getElem? found)
      obtain ⟨after, delivered, moved⟩ := Fetch.step_total
        (fun uid user => (presentable.index uid user).readable) fetchSound event
      obtain ⟨kept, outcome⟩ := Fetch.step_sound fetchSound moved
      have taken := Fetch.stepAlive_eq_some_iff.mpr ⟨moved, kept.alive presentable⟩
      have refreshes : ∀ other ∈ phone.refreshes.set refresh after,
          other.Sound database phone.languageCode currentUser := by
        intro other member
        obtain old | rfl := List.mem_or_eq_of_mem_set member
        · exact sound.refreshes other old
        · exact kept
      obtain ⟨rfl, -, -⟩ | ⟨-, now, rfl⟩ := outcome
      · exact ⟨{ phone with refreshes := phone.refreshes.set refresh after },
          by simp [step, found, taken], refreshes, sound.rows, sound.listed⟩
      · obtain ⟨screen, received, rows, listed⟩ := phone.screen.received_shown orders
          phone.languageCode sound.rows (kept.shown presentable now)
        exact ⟨{ phone with refreshes := phone.refreshes.set refresh after, screen := screen },
          by simp [step, found, taken, received], refreshes, rows, listed⟩

theorem Phone.step_sound
    (presentable : ∀ languageCode, Presentable database currentUser languageCode)
    (sound : phone.Sound database currentUser) (event : PhoneEvent) :
    ∃ after, phone.step database currentUser rendering event = some after ∧
      after.Sound database currentUser := by
  cases event with
  | launch languageCode order => exact ⟨_, rfl, Phone.launch_sound sound.rows languageCode order⟩
  | refresh =>
      refine ⟨_, rfl, ?_, sound.rows, sound.listed⟩
      exact List.forall_mem_append.mpr ⟨sound.refreshes,
        List.forall_mem_singleton.mpr (fetchAllUserRequests_sound ..)⟩
  | fetch refresh event orders =>
      exact Phone.fetch_sound (presentable phone.languageCode) sound refresh event orders
  | reload =>
      refine ⟨_, rfl, sound.refreshes, ?_, ?_⟩
      · simpa using sound.rows
      · simpa using sound.listed
  | cell row =>
      refine ⟨phone, Phone.show_eq (fun request member => ?_) row, sound⟩
      exact summaryCell_ne_none_iff.mpr (sound.listed request member)
  | details row =>
      refine ⟨phone, Phone.show_eq (fun request member => ?_) row, sound⟩
      exact requestDetails_ne_none_iff.mpr (sound.listed request member)
  | categories =>
      obtain ⟨categories, loaded⟩ := Option.ne_none_iff_exists'.mp
        (getItemCategories_ne_none_iff.mpr (presentable phone.languageCode).categories)
      refine ⟨{ phone with categories := categories }, by simp [step, loaded], ?_⟩
      exact ⟨sound.refreshes, sound.rows, sound.listed⟩

end Enough

/-- The first refresh after the installation, on its own: until it completes
    nothing is saved, and then the list has every status that it brought. -/
structure FirstRefresh (database : Json) (currentUser languageCode : Option String)
    (rendering : Option String → Rendering) (phone : Phone) (fetch : Fetch) : Prop where
  language : phone.languageCode = languageCode
  refreshes : phone.refreshes = [fetch]
  sound : fetch.Sound database languageCode currentUser
  alive : fetch ≠ .aborted
  safe : Safe (Phone.step database currentUser rendering) phone
  waiting : fetch.finished = false → phone.screen.saved.store = []
  listed : fetch.finished = true → ∀ request ∈ fetch.result,
    ∃ shown ∈ phone.screen.userRequests, shown.status = request.status

section Needed

variable {database : Json} {currentUser languageCode : Option String}
  {rendering : Option String → Rendering} {phone : Phone} {fetch : Fetch}

theorem Screen.received_of_empty {orders : Nat → FetchOrder} {screen after : Screen}
    {requests : List Request} (empty : screen.saved.store = [])
    (received : screen.received orders languageCode (some requests) = some after) :
    ∀ request ∈ requests, ∃ shown ∈ after.userRequests, shown.status = request.status := by
  obtain ⟨saved, synced, rfl⟩ := Screen.received_cases received
  intro request member
  refine ⟨loadRequest (orders 0) (cdrequest request), mem_loadAllRequests.mpr ⟨_, ?_, rfl⟩, rfl⟩
  rw [updateSavedRequests_of_empty empty synced]
  exact List.mem_map_of_mem member

theorem FirstRefresh.progress
    (first : FirstRefresh database currentUser languageCode rendering phone fetch)
    (busy : fetch.work database ≠ 0) :
    ∃ event next after, phone.step database currentUser rendering event = some next ∧
      FirstRefresh database currentUser languageCode rendering next after ∧
      after.work database < fetch.work database := by
  obtain ⟨event, less⟩ := Fetch.progress first.sound busy
  obtain ⟨next, taken, safe⟩ := first.safe.next (.fetch 0 event fun _ => .listed)
  have stepped := taken
  simp only [Phone.step, first.refreshes, List.getElem?_cons_zero, first.language,
    Option.bind_eq_bind, Option.bind_eq_some_iff, List.set_cons_zero] at stepped
  obtain ⟨⟨after, delivered⟩, movedAlive, rest⟩ := stepped
  obtain ⟨moved, alive⟩ := Fetch.stepAlive_eq_some_iff.mp movedAlive
  obtain ⟨kept, outcome⟩ := Fetch.step_sound first.sound moved
  refine ⟨_, next, after, taken, ?_, less after delivered moved⟩
  obtain ⟨rfl, same, frozen⟩ | ⟨was, now, rfl⟩ := outcome
  · obtain rfl := Option.some.inj rest
    refine ⟨rfl, rfl, kept, alive, safe, fun unfinished => ?_, fun done => ?_⟩
    · exact first.waiting (same.symm.trans unfinished)
    · have before := same.symm.trans done
      rw [frozen before]
      exact first.listed before
  · obtain ⟨screen, received, last⟩ := Option.bind_eq_some_iff.mp rest
    obtain rfl := Option.some.inj last
    refine ⟨rfl, rfl, kept, alive, safe, fun unfinished => ?_, fun _ => ?_⟩
    · simp [now] at unfinished
    · exact Screen.received_of_empty (first.waiting was) received

/-- A phone that never traps can take its first refresh to the end. -/
theorem exists_first_refresh
    (safe : Safe (Phone.step database currentUser rendering)
      (Phone.launch currentUser ⟨[], none⟩ languageCode .listed)) :
    ∃ phone fetch, FirstRefresh database currentUser languageCode rendering phone fetch ∧
      fetch.work database = 0 := by
  have start : FirstRefresh database currentUser languageCode rendering
      (Phone.launch currentUser ⟨[], none⟩ languageCode .listed)
      (fetchAllUserRequests currentUser) := by
    refine ⟨rfl, rfl, fetchAllUserRequests_sound .., ?_, safe, fun _ => rfl, fun done => ?_⟩
    · cases currentUser <;> simp [fetchAllUserRequests]
    · cases currentUser <;> cases done
  have progress : ∀ phone, (∃ fetch,
        FirstRefresh database currentUser languageCode rendering phone fetch) →
      total (Fetch.work database) phone.refreshes ≠ 0 →
      ∃ event next, phone.step database currentUser rendering event = some next ∧
        (∃ after, FirstRefresh database currentUser languageCode rendering next after) ∧
        total (Fetch.work database) next.refreshes <
          total (Fetch.work database) phone.refreshes := by
    rintro phone ⟨fetch, first⟩ busy
    rw [first.refreshes] at busy ⊢
    obtain ⟨event, next, after, taken, later, less⟩ := first.progress (by simpa using busy)
    exact ⟨event, next, taken, ⟨after, later⟩, by simpa [later.refreshes] using less⟩
  obtain ⟨-, phone, -, ⟨fetch, first⟩, idle⟩ := exists_run_to_rest _ progress ⟨_, start⟩
  rw [first.refreshes] at idle
  exact ⟨phone, fetch, first, by simpa using idle⟩

/-- No run traps exactly if what it reads can be presented in every language. -/
theorem never_traps_iff (database : Json) (currentUser : Option String)
    (rendering : Option String → Rendering) :
    (∀ languageCode order, Safe (Phone.step database currentUser rendering)
        (Phone.launch currentUser ⟨[], none⟩ languageCode order)) ↔
      ∀ languageCode, Presentable database currentUser languageCode := by
  constructor
  · intro safe languageCode
    obtain ⟨phone, fetch, first, idle⟩ := exists_first_refresh (safe languageCode .listed)
    refine ⟨first.sound.allRead idle first.alive, fun completable uid user entry valid => ?_, ?_⟩
    · have done := (first.sound.finished_of_idle idle).mpr completable
      obtain ⟨-, other, known, requests, brought, answers⟩ := first.sound.delivered done
      obtain rfl := Option.some.inj (known.symm.trans user)
      obtain ⟨request, inside, fits⟩ := forall₂_exists answers valid
      obtain ⟨shown, listed, same⟩ := first.listed done request (brought.mem_iff.mpr inside)
      rw [← fits.status, ← same]
      have built : ∀ row, phone.show row (summaryCell (rendering phone.languageCode)) ≠ none := by
        intro row
        obtain ⟨next, built, -⟩ := first.safe.next (.cell row)
        exact Option.ne_none_iff_exists'.mpr ⟨next, built⟩
      exact summaryCell_ne_none_iff.mp (Phone.shown_of_show built shown listed)
    · obtain ⟨next, loaded, -⟩ := (safe languageCode .listed).next .categories
      apply getItemCategories_ne_none_iff.mp
      intro trapped
      simp [Phone.step, Phone.launch, trapped] at loaded
  · intro presentable languageCode order
    exact Safe.of_total (fun phone event sound => Phone.step_sound presentable sound event)
      (Phone.launch_sound (by simp) languageCode order)

end Needed

section Example

private def cancelled : Json :=
  .obj [("userRequests", .obj [("lee", .obj [("north", .obj [("x1", .str "r1")])])]),
    ("requests", .obj [("north", .obj [("r1", .obj [("dateCreated", .double 1),
      ("content", .obj [("milk", .int 2)]), ("delSlotStart", .int 2000),
      ("senderID", .str "lee"), ("status", .str "cancelled")])])])]

private def plain : Rendering := ⟨id, fun _ => "", fun _ => ""⟩

/-- One refresh saves the request, and the next launch shows it. -/
private def relaunched : List PhoneEvent :=
  [.index, .turn, .turn, .call 0 0 .node, .call 0 0 (.content .turn),
    .call 0 0 (.content (.answer 0))].map (fun event => .fetch 0 event fun _ => .listed) ++
  [.launch none .listed, .cell 0]

/-- A status without a text is accepted, saved, and traps at the next launch. -/
theorem saved_status_traps :
    ¬ Safe (Phone.step cancelled (some "lee") fun _ => plain)
      (Phone.launch (some "lee") ⟨[], none⟩ none .listed) := by
  intro safe
  have trapped : (run (Phone.step cancelled (some "lee") fun _ => plain)
      (Phone.launch (some "lee") ⟨[], none⟩ none .listed) relaunched).isNone = true := by
    decide +kernel
  exact safe relaunched (Option.isNone_iff_eq_none.mp trapped)

end Example

end Kasei.Landing
