import Kasei.Landing.Display

/-! # The table and the list behind it

A table asks for its row count when it is reloaded, and for a cell whenever a
row scrolls into view. A completed refresh replaces the list at once and reloads
the table 0.7 seconds later. In between the table still goes by the list that it
was reloaded with.
-/

namespace Kasei.Landing

open JsonTree Runs CoreData

/-- What the table remembers: the list that it was reloaded with, which gives
    its row count, and the request that each visible cell was built from. -/
structure Table where
  loaded : List Request
  visible : Nat → Option Request

def reloadData (userRequests : List Request) : Table := ⟨userRequests, fun _ => none⟩

/-- The landing screen with its table, the refreshes under way, and the request
    of the detail screen that was presented last. -/
structure LandingView where
  screen : Screen
  table : Table
  refreshes : List Fetch
  detail : Option Request

/-- A reply reads the database as it then is. -/
inductive LandingEvent where
  | refresh (currentUser : Option String)
  | fetch (refresh : Nat) (database : Json) (event : FetchEvent) (orders : Nat → FetchOrder)
  | reload
  /-- The table asks for the cell of a row. -/
  | cell (row : Nat)
  /-- A tap on the details button of the cell in a row. -/
  | tap (row : Nat)

def viewDidLoad (currentUser : Option String) (saved : Saved) (order : FetchOrder) :
    LandingView where
  screen := ⟨loadAllRequests order saved.store, saved, false, 0⟩
  table := reloadData (loadAllRequests order saved.store)
  refreshes := [fetchAllUserRequests currentUser]
  detail := none

/-- `userRequests[row]` traps outside the list, and so does a status without a
    text when the cell is built. -/
def LandingView.cellForRow (rendering : Rendering) (view : LandingView) (row : Nat) :
    Option LandingView := do
  let request ← view.screen.userRequests[row]?
  let _ ← summaryCell rendering request
  return { view with table := { view.table with
    visible := Function.update view.table.visible row (some request) } }

def LandingView.presentDetailView (view : LandingView) (row : Nat) : Option LandingView := do
  let request ← view.screen.userRequests[row]?
  return { view with detail := some request }

def LandingView.step (languageCode : Option String) (rendering : Rendering) (view : LandingView) :
    LandingEvent → Option LandingView
  | .refresh currentUser =>
      some { view with refreshes := view.refreshes ++ [fetchAllUserRequests currentUser] }
  | .fetch refresh database event orders =>
      match view.refreshes[refresh]? with
      | none => some view
      | some fetch => do
          let (after, delivered) ← fetch.step database languageCode event
          let view := { view with refreshes := view.refreshes.set refresh after }
          match delivered with
          | none => return view
          | some requests =>
              let screen ← view.screen.received orders languageCode (some requests)
              return { view with screen := screen }
  | .reload =>
      match view.screen.reloads with
      | 0 => some view
      | _ + 1 => some { view with
          screen := view.screen.reload, table := reloadData view.screen.userRequests }
  | .cell row =>
      if row < view.table.loaded.length then view.cellForRow rendering row else some view
  | .tap row =>
      match view.table.visible row with
      | none => some view
      | some _ => view.presentDetailView row

/-- An access to the list is in range, and a tap opens the request that the cell
    shows. -/
def Agrees (view : LandingView) : LandingEvent → Prop
  | .cell row =>
      row < view.table.loaded.length → row < view.screen.userRequests.length
  | .tap row => ∀ shown ∈ view.table.visible row,
      ∃ opened ∈ view.screen.userRequests[row]?, opened.id = shown.id
  | _ => True

/-- A row has the request that it had when the table was reloaded. -/
def InPlace (view : LandingView) (row : Nat) : Prop :=
  (view.screen.userRequests[row]?).map Request.id = (view.table.loaded[row]?).map Request.id

instance (view : LandingView) (row : Nat) : Decidable (InPlace view row) :=
  inferInstanceAs (Decidable (Option.map _ _ = _))

/-- The rows that the table uses are in place. -/
def UsesPlaced (view : LandingView) : LandingEvent → Prop
  | .cell row => row < view.table.loaded.length → InPlace view row
  | .tap row => view.table.visible row ≠ none → InPlace view row
  | _ => True

instance (view : LandingView) : ∀ event, Decidable (Agrees view event)
  | .cell row => inferInstanceAs (Decidable (row < view.table.loaded.length → _))
  | .tap row => inferInstanceAs (Decidable (∀ shown ∈ view.table.visible row,
      ∃ opened ∈ view.screen.userRequests[row]?, opened.id = shown.id))
  | .refresh _ | .fetch .. | .reload => isTrue trivial

instance (view : LandingView) : ∀ event, Decidable (UsesPlaced view event)
  | .cell row => inferInstanceAs (Decidable (row < view.table.loaded.length → InPlace view row))
  | .tap row => inferInstanceAs (Decidable (view.table.visible row ≠ none → InPlace view row))
  | .refresh _ | .fetch .. | .reload => isTrue trivial

/-- The visible cells show what the table was reloaded with. -/
def ShowsLoaded (view : LandingView) : Prop :=
  ∀ row, ∀ shown ∈ view.table.visible row,
    (view.table.loaded[row]?).map Request.id = some shown.id

section Agreement

variable {languageCode : Option String} {rendering : Rendering} {view next : LandingView}

/-- Only the reload and the cells touch the table. -/
theorem LandingView.step_fetch_table {refresh : Nat} {database : Json} {event : FetchEvent}
    {orders : Nat → FetchOrder}
    (taken : view.step languageCode rendering (.fetch refresh database event orders) = some next) :
    next.table = view.table := by
  simp only [step] at taken
  split at taken
  · obtain rfl := Option.some.inj taken
    rfl
  · obtain ⟨⟨after, delivered⟩, -, rest⟩ := Option.bind_eq_some_iff.mp taken
    cases delivered with
    | none =>
        obtain rfl := Option.some.inj rest
        rfl
    | some requests =>
        obtain ⟨screen, -, last⟩ := Option.bind_eq_some_iff.mp rest
        obtain rfl := Option.some.inj last
        rfl

theorem ShowsLoaded.built (held : ShowsLoaded view) {row : Nat} (placed : InPlace view row)
    (built : view.cellForRow rendering row = some next) : ShowsLoaded next := by
  simp only [LandingView.cellForRow, Option.bind_eq_bind, Option.bind_eq_some_iff] at built
  obtain ⟨request, found, -, -, last⟩ := built
  obtain rfl := Option.some.inj last
  intro other shown visible
  rw [Option.mem_def] at visible
  by_cases same : other = row
  · subst same
    simp only [Function.update_self, Option.some.injEq] at visible
    subst visible
    rw [← placed, found, Option.map_some]
  · simp only [Function.update_of_ne same] at visible
    exact held other shown visible

theorem showsLoaded_step (held : ShowsLoaded view) {event : LandingEvent}
    (placed : UsesPlaced view event)
    (taken : view.step languageCode rendering event = some next) : ShowsLoaded next := by
  cases event with
  | refresh currentUser =>
      obtain rfl := Option.some.inj taken
      exact held
  | fetch refresh database event orders =>
      unfold ShowsLoaded
      rw [LandingView.step_fetch_table taken]
      exact held
  | reload =>
      simp only [LandingView.step] at taken
      split at taken
      · obtain rfl := Option.some.inj taken
        exact held
      · obtain rfl := Option.some.inj taken
        intro row shown visible
        cases visible
  | cell row =>
      simp only [LandingView.step] at taken
      split at taken
      · rename_i below
        exact held.built (placed below) taken
      · obtain rfl := Option.some.inj taken
        exact held
  | tap row =>
      simp only [LandingView.step] at taken
      split at taken
      · obtain rfl := Option.some.inj taken
        exact held
      · obtain ⟨request, -, last⟩ := Option.bind_eq_some_iff.mp taken
        obtain rfl := Option.some.inj last
        exact held

theorem InPlace.found {row : Nat} {id : Option String} (placed : InPlace view row)
    (known : (view.table.loaded[row]?).map Request.id = some id) :
    ∃ opened ∈ view.screen.userRequests[row]?, opened.id = id := by
  unfold InPlace at placed
  rw [known, Option.map_eq_some_iff] at placed
  exact placed

theorem agrees_of_placed (held : ShowsLoaded view) {event : LandingEvent}
    (placed : UsesPlaced view event) : Agrees view event := by
  cases event with
  | refresh currentUser => trivial
  | fetch refresh database event orders => trivial
  | reload => trivial
  | cell row =>
      intro below
      obtain ⟨request, found, -⟩ := (placed below).found (by
        rw [List.getElem?_eq_getElem below, Option.map_some])
      exact (List.getElem?_eq_some_iff.mp found).1
  | tap row =>
      intro shown visible
      exact (placed (by simp [Option.mem_def.mp visible])).found (held row shown visible)

/-- In a run in which the table uses only rows that are in place, every access
    is in range and every tap opens the request that the cell shows. -/
theorem table_agrees {currentUser : Option String} {saved : Saved} {order : FetchOrder}
    {events : List LandingEvent}
    (placed : Along (LandingView.step languageCode rendering) UsesPlaced
      (viewDidLoad currentUser saved order) events) :
    Along (LandingView.step languageCode rendering) Agrees
      (viewDidLoad currentUser saved order) events := by
  have start : ShowsLoaded (viewDidLoad currentUser saved order) := by
    intro row shown visible
    cases visible
  exact Along.imp ShowsLoaded (fun _ _ held uses => agrees_of_placed held uses)
    (fun _ _ _ held uses taken => showsLoaded_step held uses taken) start placed

end Agreement

section Example

private def noahs : Request where
  id := some "r1"
  dateCreated := some 1
  senderID := "noah"
  status := some "sent"
  delSlotStart := some 2
  items := []

private def unstyled : Rendering := ⟨id, fun _ => "", fun _ => ""⟩

private def noahsView : LandingView :=
  viewDidLoad (some "noah") ⟨[cdrequest noahs], none⟩ .listed

private def reply (database : Json) (event : FetchEvent) : LandingEvent :=
  .fetch 0 database event fun _ => .listed

private def noahsRequests : Json :=
  .obj [("userRequests", .obj [("noah", .obj [("north", .obj [("x1", .str "r1")])])]),
    ("requests", .obj [("north", .obj [("r1", .obj [("dateCreated", .double 1),
      ("content", .obj [("milk", .int 2)]), ("delSlotStart", .int 2000),
      ("senderID", .str "noah"), ("status", .str "otw")])])])]

/-- The refresh brings the request with a new status, and the cell is tapped
    before the reload. -/
private def tappedEarly : List LandingEvent :=
  [.cell 0] ++ [.index, .turn, .turn, .call 0 0 .node, .call 0 0 (.content .turn),
    .call 0 0 (.content (.answer 0))].map (reply noahsRequests) ++ [.tap 0]

theorem table_agrees_same_request :
    Along (LandingView.step none unstyled) Agrees noahsView tappedEarly :=
  table_agrees (by decide +kernel)

/-- The refresh finds no requests, and the table asks for the row that it
    remembers. -/
theorem emptied_list_traps :
    ¬ Along (LandingView.step none unstyled) Agrees noahsView
      [reply (.obj []) .index, .cell 0] := by
  decide +kernel

end Example

end Kasei.Landing
