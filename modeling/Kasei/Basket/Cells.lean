import Kasei.Basket.Resync

/-! # The cells and their buttons

Nothing but a disabled plus button keeps a quantity below what remains of an
item. A cell computes its buttons when its count is assigned, from the maximum
that it has at that moment; both screens assign the count first and the maximum
afterwards, so a cell's buttons follow the maximum of the row it showed before,
or 99 in a fresh cell.
-/

namespace Kasei.Basket

open JsonTree Runs

/-- The state of a `RequestItemCell` that its observers read and write. Both
    buttons of the nib are enabled. -/
structure RequestItemCell where
  title : String := "Title"
  icon : String := ""
  maxCount : Option Int := none
  count : Int := 0
  plusEnabled : Bool := true
  minusEnabled : Bool := true
  deriving Repr, DecidableEq

namespace RequestItemCell

/-- The observer of `count`. -/
def setCount (cell : RequestItemCell) (count : Int) : RequestItemCell :=
  { cell with
    count := count
    plusEnabled := count < cell.maxCount.getD 99
    minusEnabled := 0 < count }

def buildInstance (dequeued : RequestItemCell) (title icon : String) : RequestItemCell :=
  { dequeued with title := title, icon := icon }

def isEnabled (cell : RequestItemCell) : Button → Bool
  | .plus => cell.plusEnabled
  | .minus => cell.minusEnabled

end RequestItemCell

/-- The maximum that both screens give to a cell. -/
def maxCount (item : RequestItem) : Int :=
  min (item.qtyLimit.getD 99) (item.qtyRemaining.getD 99)

/-- `tableView(_:cellForRowAt:)` of both screens on the dequeued cell. -/
def cellForRow (item : RequestItem) (dequeued : RequestItemCell) : RequestItemCell :=
  { (dequeued.buildInstance item.name item.icon).setCount item.qty with
    maxCount := some (maxCount item) }

/-- A table view: the cell of each row, and every cell as a reload left it. -/
structure Table where
  shown : List RequestItemCell := []
  configured : List RequestItemCell := []

namespace Table

/-- The cell given to a row: a fresh one, or one that was configured earlier. -/
def dequeue (table : Table) (choice : Option Nat) : RequestItemCell :=
  (choice.bind (table.configured[·]?)).getD {}

def reloadData (table : Table) (choice : Nat → Option Nat) (items : List RequestItem) : Table :=
  let shown := items.mapIdx fun row item => cellForRow item (table.dequeue (choice row))
  { shown := shown, configured := table.configured ++ shown }

end Table

/-- The session with the tables of the two screens. -/
structure Screens where
  session : Session
  basketTable : Table := {}
  categoryTable : Table := {}

/-- An event with the cells that the tables choose if they reload. -/
structure Touch where
  event : Event
  basketCells : Nat → Option Nat
  categoryCells : Nat → Option Nat

/-- The cell under a tap. The basket screen is covered while a category is open. -/
def tappedCell (s : Screens) : Event → Option RequestItemCell
  | .categoryTap row _ => s.categoryTable.shown[row]?
  | .basketTap row _ => if s.session.screen = none then s.basketTable.shown[row]? else none
  | _ => none

def reloadTables (s : Screens) (session : Session) (touch : Touch) : Screens where
  session := session
  basketTable := s.basketTable.reloadData touch.basketCells (session.items.map session.heap)
  categoryTable := s.categoryTable.reloadData touch.categoryCells (session.rows.map session.heap)

section Touches

variable (database : Json) (languageCode : Option String)

/-- A tap on an enabled button. `update` calls back, and the tables reload, only
    past its guard on the limit. -/
def press (s : Screens) (touch : Touch) (button : Button) : Option Screens :=
  match tapped s.session touch.event, tappedCell s touch.event with
  | some item, some cell =>
      if cell.isEnabled button then do
        let session ← step database languageCode s.session touch.event
        if (s.session.heap item).qtyLimit = none then return { s with session := session }
        else return reloadTables s session touch
      else some s
  | _, _ => some s

/-- A category screen is a new view controller with a table of its own. -/
def touchStep (s : Screens) (touch : Touch) : Option Screens :=
  match touch.event with
  | .openCategory _ => do
      let session ← step database languageCode s.session touch.event
      let table : Table := {}
      return { s with
        session := session
        categoryTable := table.reloadData touch.categoryCells (session.rows.map session.heap) }
  | .closeCategory => do
      let session ← step database languageCode s.session touch.event
      return { s with session := session, categoryTable := {} }
  | .categoryTap _ button | .basketTap _ button => press database languageCode s touch button

end Touches

/-- No entry exceeds its maximum. -/
def Within (heap : Heap) (items : List Ref) : Prop :=
  ∀ r ∈ items, (heap r).qty ≤ maxCount (heap r)

/-- `update` itself keeps the quantity below the maximum, because the entry's
    limit is no more than what remains. -/
def Capped (heap : Heap) (items : List Ref) (item : Ref) : Prop :=
  ∃ b ∈ items, (heap b).id = (heap item).id ∧
    (heap b).qtyLimit.getD 99 ≤ (heap b).qtyRemaining.getD 99

def pressed : Event → Option Button
  | .categoryTap _ button | .basketTap _ button => some button
  | _ => none

/-- An enabled plus button that should be enabled: the count that the cell shows
    is below the maximum that it has by now, or the entry is capped. A new entry
    has a name of its own. -/
def Rightful (s : Screens) (touch : Touch) : Prop :=
  pressed touch.event = some .plus →
    ∀ item cell, tapped s.session touch.event = some item →
      tappedCell s touch.event = some cell → cell.plusEnabled = true →
      (s.session.heap item).qtyLimit ≠ none →
        (cell.count < cell.maxCount.getD 99 ∨ Capped s.session.heap s.session.items item) ∧
          ((∀ b ∈ s.session.items, (s.session.heap b).id ≠ (s.session.heap item).id) →
            ∀ b ∈ s.session.items, (s.session.heap b).name ≠ (s.session.heap item).name)

/-- The cells of a table have the counts and maxima of the objects of its rows. -/
def Shows (table : Table) (heap : Heap) (rows : List Ref) : Prop :=
  table.shown.map (fun cell => (cell.count, cell.maxCount)) =
    rows.map fun r => ((heap r).qty, some (maxCount (heap r)))

section Tables

variable {heap : Heap} {rows : List Ref}

theorem reloadData_shows (table : Table) (choice : Nat → Option Nat) :
    Shows (table.reloadData choice (rows.map heap)) heap rows := by
  apply List.ext_getElem?
  intro row
  cases listed : rows[row]? <;>
    simp [Table.reloadData, listed, cellForRow, RequestItemCell.setCount]

theorem Shows.congr {table : Table} (shows : Shows table heap rows) {after : Heap}
    (same : ∀ r ∈ rows, after r = heap r) : Shows table after rows := by
  unfold Shows
  rw [shows]
  exact List.map_congr_left fun r member => by rw [same r member]

theorem Shows.cell {table : Table} (shows : Shows table heap rows) {row : Nat} {item : Ref}
    {cell : RequestItemCell} (hit : rows[row]? = some item) (under : table.shown[row]? = some cell) :
    cell.count = (heap item).qty ∧ cell.maxCount = some (maxCount (heap item)) := by
  have same := congrArg (·[row]?) shows
  simp only [List.getElem?_map, hit, under, Option.map_some, Option.some.injEq,
    Prod.mk.injEq] at same
  exact same

end Tables

theorem OnlyQty.maxCount {before after : Heap} (same : OnlyQty before after) (r : Ref) :
    Basket.maxCount (after r) = Basket.maxCount (before r) := by
  rw [same r]
  rfl

section Update

variable {heap : Heap} {items : List Ref} {item : Ref} {button : Button} {updated : Updated}
  (outcome : Outcome heap items item button.modifier updated)
include outcome

theorem Outcome.names (names : (items.map fun r => (heap r).name).Nodup)
    (newName : button = .plus → (∀ b ∈ items, (heap b).id ≠ (heap item).id) →
      ∀ b ∈ items, (heap b).name ≠ (heap item).name) :
    (updated.items.map fun r => (updated.heap r).name).Nodup := by
  have labels := outcome.onlyQty
  simp only [labels.name]
  cases outcome with
  | noLimit | absent => exact names
  | changed =>
      simp only
      split
      · exact names.sublist (List.filter_sublist.map _)
      · exact names
  | added _ missing adds =>
      exact nodup_labels_append names (newName (Button.eq_plus adds) missing)

/-- `update` keeps the maxima if a plus finds the item below its maximum, or
    capped. -/
theorem Within.kept (within : Within heap items)
    (distinct : (items.map fun r => (heap r).id).Nodup)
    (alike : ∀ b ∈ items, (heap b).id = (heap item).id →
      (heap b).qty = (heap item).qty ∧ maxCount (heap b) = maxCount (heap item))
    (below : button = .plus →
      (heap item).qty < maxCount (heap item) ∨ Capped heap items item) :
    Within updated.heap updated.items := by
  have labels := outcome.onlyQty
  intro r member
  rw [labels.maxCount]
  cases outcome with
  | noLimit | absent => exact within r member
  | @changed entry limit qty inside same limited value =>
      have older : r ∈ items := by
        simp only at member
        split at member
        · exact List.mem_of_mem_filter member
        · exact member
      by_cases here : r = entry
      · subst here
        simp only [setQty_qty_self]
        have current := within r older
        obtain ⟨sameQty, sameMax⟩ := alike r older same
        cases button with
        | minus =>
            simp only [Button.modifier] at value
            omega
        | plus =>
            simp only [Button.modifier] at value
            rcases below rfl with less | ⟨b, there, sameId, cap⟩
            · omega
            · obtain rfl : b = r := List.inj_on_of_nodup_map distinct there older
                (sameId.trans same.symm)
              rw [limited, Option.getD_some] at cap
              have capped : maxCount (heap b) = limit := by
                rw [maxCount, limited, Option.getD_some, min_eq_left cap]
              omega
      · simp only [setQty_of_ne heap here]
        exact within r older
  | added _ missing adds =>
      rcases List.mem_append.mp member with older | last
      · have other : r ≠ item := by
          rintro rfl
          exact missing r older rfl
        simp only [setQty_of_ne heap other]
        exact within r older
      · obtain rfl := List.mem_singleton.mp last
        simp only [setQty_qty_self]
        rcases below (Button.eq_plus adds) with less | ⟨b, there, sameId, _⟩
        · omega
        · exact absurd sameId (missing b there)

end Update

section Sessions

variable (database : Json) (languageCode : Option String)

/-- The session's part of the invariant: names are distinct, so the resync edits
    no entry, and a row has the quantity of the entry with its id. -/
structure Kept (s : Session) : Prop where
  sound : Sound s
  catalogued : Catalogued database languageCode s
  names : (s.items.map fun r => (s.heap r).name).Nodup
  within : Within s.heap s.items
  synced : ∀ r ∈ s.rows, ∀ b ∈ s.items, (s.heap b).id = (s.heap r).id →
    (s.heap b).qty = (s.heap r).qty

structure Enforced (s : Screens) : Prop where
  kept : Kept database languageCode s.session
  basketShows : Shows s.basketTable s.session.heap s.session.items
  categoryShows : Shows s.categoryTable s.session.heap s.session.rows

/-- A plus on the item keeps the invariant. -/
structure Permitted (s : Session) (item : Ref) : Prop where
  below : (s.heap item).qty < maxCount (s.heap item) ∨ Capped s.heap s.items item
  newName : (∀ b ∈ s.items, (s.heap b).id ≠ (s.heap item).id) →
    ∀ b ∈ s.items, (s.heap b).name ≠ (s.heap item).name

variable {database languageCode}

theorem Kept.resync {s : Session} (sound : Sound s)
    (catalogued : Catalogued database languageCode s)
    (names : (s.items.map fun r => (s.heap r).name).Nodup) (within : Within s.heap s.items) :
    Kept database languageCode { s with heap := updateItemsFromBasket s.heap s.rows s.items } ∧
      ∀ r ∈ s.items, updateItemsFromBasket s.heap s.rows s.items r = s.heap r := by
  have labels := updateItemsFromBasket_onlyQty s.heap s.rows s.items
  obtain ⟨unchanged, copied⟩ := updateItemsFromBasket_spec names s.rows
  have entries : ∀ r ∈ s.items, updateItemsFromBasket s.heap s.rows s.items r = s.heap r :=
    fun r member => unchanged r (.inl member)
  refine ⟨⟨sound.of_onlyQty labels, fun r held => (catalogued r held).of_onlyQty labels,
    by simpa only [labels.name] using names, ?_, ?_⟩, entries⟩
  · intro r member
    simp only [entries r member]
    exact within r member
  · intro r row b entry same
    simp only [labels.id] at same ⊢
    have named := ((catalogued b (.inl entry)).same (catalogued r (.inr row)) same).1
    rcases copied r row with ⟨alone, _⟩ | ⟨other, inside, alike, qty⟩
    · exact absurd named (alone b entry)
    · obtain rfl : other = b :=
        List.inj_on_of_nodup_map names inside entry (alike.trans named.symm)
      rw [entries other entry, qty]

theorem Kept.start (heap : Heap) : Kept database languageCode (Session.start heap) where
  sound := Sound.start heap
  catalogued := Catalogued.start heap
  names := List.nodup_nil
  within := by simp [Within, Session.start]
  synced := by simp [Session.start]

theorem Kept.opened {s : Session} (kept : Kept database languageCode s) (itemIDs : List String) :
    Kept database languageCode (loadItems database languageCode s itemIDs) ∧
      (loadItems database languageCode s itemIDs).items = s.items ∧
      ∀ r ∈ s.items, (loadItems database languageCode s itemIDs).heap r = s.heap r := by
  have loadedSound := kept.sound.loaded database languageCode itemIDs
  have loadedCatalogued := kept.catalogued.loaded kept.sound itemIDs
  obtain ⟨items, _, heap, _⟩ := loadItem_fold database languageCode itemIDs (s, [])
  unfold loadItems
  generalize itemIDs.foldl (loadItem database languageCode) (s, []) = loaded at *
  have same : ∀ r ∈ loaded.1.items, loaded.1.heap r = s.heap r := by
    intro r member
    rw [items] at member
    exact heap r (kept.sound.allocated r member)
  have names : (loaded.1.items.map fun r => (loaded.1.heap r).name).Nodup := by
    rw [List.map_congr_left fun r member => by rw [same r member], items]
    exact kept.names
  have within : Within loaded.1.heap loaded.1.items := by
    intro r member
    rw [same r member]
    exact kept.within r (items ▸ member)
  obtain ⟨kept', entries⟩ := Kept.resync loadedSound loadedCatalogued names within
  refine ⟨kept', items, fun r member => ?_⟩
  have inside : r ∈ loaded.1.items := items ▸ member
  exact (entries r inside).trans (same r inside)

theorem Kept.closed {s : Session} (kept : Kept database languageCode s) :
    Kept database languageCode { s with screen := none } where
  sound := ⟨kept.sound.distinct, kept.sound.limits, kept.sound.allocated, by simp⟩
  catalogued := kept.catalogued.taken kept.sound .closed
  names := kept.names
  within := kept.within
  synced := by simp [Session.rows]

section Tapped

variable {s : Session} (kept : Kept database languageCode s) {item : Ref} {button : Button}
  {updated : Updated} (outcome : Outcome s.heap s.items item button.modifier updated)
  (held : item ∈ s.items ∨ item ∈ s.rows) (permitted : button = .plus → Permitted s item)
include kept outcome held permitted

/-- An entry is like the tapped item of its id, be it a row or an entry. -/
theorem Kept.within_updated : Within updated.heap updated.items := by
  refine Within.kept outcome kept.within kept.sound.distinct ?_ fun plus => (permitted plus).below
  intro b entry same
  have labels := (kept.catalogued b (.inl entry)).same (kept.catalogued item held) same
  refine ⟨?_, by rw [maxCount, maxCount, labels.2.1, labels.2.2]⟩
  obtain inside | row := held
  · rw [List.inj_on_of_nodup_map kept.sound.distinct entry inside same]
  · exact kept.synced item row b entry same

theorem Kept.categoryTapped {row : Nat} {screen : List Ref} (opened : s.screen = some screen)
    (hit : screen[row]? = some item) :
    Kept database languageCode { s with
      heap := if updated.calledBack then
        updateItemsFromBasket updated.heap screen updated.items else updated.heap
      items := updated.items } := by
  have rows : s.rows = screen := by simp [Session.rows, opened]
  have shown := Session.mem_rows opened hit
  have old := kept.sound.shown screen opened item (List.mem_of_getElem? hit)
  obtain ⟨-, rfl⟩ | ⟨-, called⟩ := kept.catalogued.called held outcome
  · exact kept
  · rw [if_pos called, ← rows]
    exact (Kept.resync (kept.sound.updated old outcome) (kept.catalogued.updated held outcome)
      (outcome.names kept.names fun plus => (permitted plus).newName)
      (kept.within_updated outcome held permitted)).1

theorem Kept.basketTapped (inside : item ∈ s.items) (closed : s.screen = none) :
    Kept database languageCode { s with heap := updated.heap, items := updated.items } where
  sound := kept.sound.updated (kept.sound.allocated item inside) outcome
  catalogued := kept.catalogued.updated held outcome
  names := outcome.names kept.names fun plus => (permitted plus).newName
  within := kept.within_updated outcome held permitted
  synced := by simp [Session.rows, closed]

end Tapped

section Touches

variable {s : Screens} {touch : Touch}

theorem Enforced.start (heap : Heap) :
    Enforced database languageCode { session := Session.start heap } where
  kept := Kept.start heap
  basketShows := rfl
  categoryShows := rfl

theorem Enforced.reloaded {session : Session} (kept : Kept database languageCode session) :
    Enforced database languageCode (reloadTables s session touch) where
  kept := kept
  basketShows := reloadData_shows _ _
  categoryShows := reloadData_shows _ _

theorem Enforced.cell (held : Enforced database languageCode s) {event : Event} {item : Ref}
    (hit : tapped s.session event = some item) {cell : RequestItemCell}
    (under : tappedCell s event = some cell) :
    cell.count = (s.session.heap item).qty ∧
      cell.maxCount = some (maxCount (s.session.heap item)) := by
  cases event with
  | openCategory | closeCategory => cases hit
  | categoryTap row =>
      refine held.categoryShows.cell ?_ under
      obtain ⟨screen, opened, there⟩ := Option.bind_eq_some_iff.mp hit
      rw [Session.rows, opened]
      exact there
  | basketTap row =>
      simp only [tappedCell] at under
      split at under
      · exact held.basketShows.cell hit under
      · cases under

theorem Enforced.pressed (held : Enforced database languageCode s) (rightful : Rightful s touch)
    {button : Button} (which : pressed touch.event = some button) {item : Ref}
    (hit : tapped s.session touch.event = some item) {cell : RequestItemCell}
    (under : tappedCell s touch.event = some cell) (enabled : cell.isEnabled button = true)
    {session : Session} (taken : Taken database languageCode s.session touch.event session) :
    (s.session.heap item).qtyLimit = none ∧ session = s.session ∨
      (s.session.heap item).qtyLimit ≠ none ∧ Kept database languageCode session := by
  obtain ⟨count, maximum⟩ := held.cell hit under
  have permitted : (s.session.heap item).qtyLimit ≠ none → button = .plus →
      Permitted s.session item := by
    rintro limited rfl
    obtain ⟨below, newName⟩ := rightful which item cell hit under enabled limited
    rw [count, maximum, Option.getD_some] at below
    exact ⟨below, newName⟩
  cases event : touch.event with
  | openCategory | closeCategory => rw [event] at hit; cases hit
  | categoryTap row pushed =>
      rw [event] at which hit taken
      obtain rfl := Option.some.inj which
      cases taken with
      | missedRow missed => rw [tapped, missed] at hit; cases hit
      | @categoryTapped _ _ screen other updated opened there outcome =>
          obtain rfl : other = item := by simpa [tapped, opened, there] using hit
          have shown := Session.mem_rows opened there
          obtain ⟨none, rfl⟩ | ⟨limited, called⟩ :=
            held.kept.catalogued.called (.inr shown) outcome
          · exact .inl ⟨none, rfl⟩
          · exact .inr ⟨limited, held.kept.categoryTapped outcome (.inr shown)
              (permitted limited) opened there⟩
  | basketTap row pushed =>
      rw [event] at which hit taken under
      obtain rfl := Option.some.inj which
      cases taken with
      | missedEntry missed => rw [tapped, missed] at hit; cases hit
      | @basketTapped _ _ other updated there outcome =>
          obtain rfl : other = item := by simpa [tapped, there] using hit
          have inside := List.mem_of_getElem? there
          have closed : s.session.screen = none := by
            simp only [tappedCell] at under
            split at under
            · assumption
            · cases under
          have limited := held.kept.sound.limits other inside
          exact .inr ⟨limited, held.kept.basketTapped outcome (.inl inside) (permitted limited)
            inside closed⟩

theorem Enforced.press (held : Enforced database languageCode s) (rightful : Rightful s touch)
    {button : Button} (which : Basket.pressed touch.event = some button) {next : Screens}
    (stepped : press database languageCode s touch button = some next) :
    Enforced database languageCode next := by
  unfold Basket.press at stepped
  split at stepped
  · rename_i item cell hit under
    split at stepped
    · rename_i enabled
      obtain ⟨session, moved, rest⟩ := Option.bind_eq_some_iff.mp stepped
      have taken := held.kept.sound.step_inv database languageCode moved
      obtain ⟨none, rfl⟩ | ⟨limited, kept⟩ :=
        held.pressed rightful which hit under enabled taken
      · rw [if_pos none] at rest
        obtain rfl := Option.some.inj rest
        exact held
      · rw [if_neg limited] at rest
        obtain rfl := Option.some.inj rest
        exact Enforced.reloaded kept
    · obtain rfl := Option.some.inj stepped
      exact held
  · obtain rfl := Option.some.inj stepped
    exact held

theorem Enforced.step (held : Enforced database languageCode s) (rightful : Rightful s touch)
    {next : Screens} (stepped : touchStep database languageCode s touch = some next) :
    Enforced database languageCode next := by
  unfold touchStep at stepped
  split at stepped
  · rename_i itemIDs event
    obtain ⟨kept, items, entries⟩ := held.kept.opened itemIDs
    rw [event] at stepped
    obtain rfl := Option.some.inj stepped
    refine ⟨kept, ?_, reloadData_shows _ _⟩
    simp only [items]
    exact held.basketShows.congr entries
  · rename_i event
    rw [event] at stepped
    obtain rfl := Option.some.inj stepped
    exact ⟨held.kept.closed, held.basketShows, rfl⟩
  · rename_i event
    exact held.press rightful (by rw [event]; rfl) stepped
  · rename_i event
    exact held.press rightful (by rw [event]; rfl) stepped

/-- In every session over every catalogue, whichever cells the tables reuse, no
    basket item exceeds its maximum, if every enabled plus that is pressed is
    rightfully enabled. -/
theorem enabled_buttons_enforce (heap : Heap) {touches : List Touch}
    (rightful : Along (touchStep database languageCode) Rightful
      { session := Session.start heap } touches) :
    Always (touchStep database languageCode)
      (fun s => ∀ r ∈ s.session.items, (s.session.heap r).qty ≤
        min ((s.session.heap r).qtyLimit.getD 99) ((s.session.heap r).qtyRemaining.getD 99))
      { session := Session.start heap } touches :=
  (Along.always (fun _ _ _ held met stepped => held.step met stepped) (Enforced.start heap)
    rightful).mono fun _ held => held.kept.within

end Touches

end Sessions

section FreshCell

private def spices (remaining : Int) : Json :=
  .obj [("items", .obj [("salt", .obj [("name", .str "Salt"), ("icon", .str "s"),
    ("bgCol", .str "white"), ("limit", .int 3), ("remaining", .int remaining)])])]

private def unused : Heap := fun _ => { id := "", name := "", icon := "", qty := 0, bgCol := "" }

/-- Open the category in fresh cells and press plus once. -/
private def firstPlus : List Touch :=
  [⟨.openCategory ["salt"], fun _ => none, fun _ => none⟩,
    ⟨.categoryTap 0 .plus, fun _ => none, fun _ => none⟩]

theorem enabled_buttons_enforce_first_plus :
    Always (touchStep (spices 2) none)
      (fun s => ∀ r ∈ s.session.items, (s.session.heap r).qty ≤
        min ((s.session.heap r).qtyLimit.getD 99) ((s.session.heap r).qtyRemaining.getD 99))
      { session := Session.start unused } firstPlus := by
  refine enabled_buttons_enforce unused ⟨by simp [Rightful, pressed], ?_⟩
  rintro _ ⟨⟩
  refine ⟨?_, fun _ _ => trivial⟩
  rintro - item cell - under - -
  obtain rfl := Option.some.inj under
  exact ⟨.inl (by decide), fun _ b entry => absurd entry List.not_mem_nil⟩

/-- Nothing remains of the item, but the fresh cell enables its plus button
    before it learns its maximum. -/
theorem fresh_cell_exceeds_remaining :
    ¬ Always (touchStep (spices 0) none)
      (fun s => ∀ r ∈ s.session.items, (s.session.heap r).qty ≤
        min ((s.session.heap r).qtyLimit.getD 99) ((s.session.heap r).qtyRemaining.getD 99))
      { session := Session.start unused } firstPlus := by
  intro held
  have above := (held.2 _ rfl).2 _ rfl 0 List.mem_cons_self
  exact absurd above (by decide)

end FreshCell

end Kasei.Basket
