import Mathlib.Data.List.Forall2
import Kasei.Lib.FanIn
import Kasei.Basket.Resync

/-! # Loading a category

A session opens a category in one step. The screen itself reads its items one
by one: the answers come back in any order, between taps in the basket, between
answers for screens that the user has dismissed meanwhile, and each of them
allocates an object. Until the last one is in, the screen shows no row. A
session in steps of single answers therefore looks like one that opens a category
at its last answer, if its screen is in front by then. The objects of the two have
different addresses, so they are compared through a renaming of the objects that
are still in use.
-/

namespace Kasei.Basket

open JsonTree Runs

/-- An `ItemsViewController` with its reads on their way. The callbacks of the
    reads hold the screen, so it lives on when it is dismissed. -/
structure ItemsViewController where
  itemIDs : List String
  outstanding : List String
  counter : Int
  items : List Ref := []
  /-- The number of rows that the last `reloadData` of the table found. -/
  rowCount : Nat := 0

/-- A `NewRequestViewController` with its basket, and every category screen that
    was presented. The action bar of the nib is hidden. -/
structure Shop where
  heap : Heap
  next : Nat := 0
  items : List Ref := []
  actionBarHidden : Bool := true
  rowCount : Nat := 0
  screens : List ItemsViewController := []
  front : Option Nat := none

inductive ShopEvent where
  /-- A category is tapped, and its screen presented. -/
  | cellTapped (itemIDs : List String)
  | clickedDismiss
  /-- The database answers one of the reads that a screen still waits for. -/
  | answered (screen read : Nat)
  | categoryTap (row : Nat) (button : Button)
  | basketTap (row : Nat) (button : Button)
  deriving Repr, DecidableEq

/-- `child:` takes the path of the item. -/
def takesItem (id : String) : Bool := isValidPathString s!"items/{id}"

namespace Shop

def frontScreen (s : Shop) : Option ItemsViewController := s.front.bind (s.screens[·]?)

/-- `CategoriesViewController.cellTapped`. -/
def present (s : Shop) (itemIDs : List String) : Shop :=
  { s with
    screens := s.screens ++
      [{ itemIDs := itemIDs, outstanding := itemIDs, counter := itemIDs.length }]
    front := some s.screens.length }

/-- `NewRequestViewController.updateView`. -/
def updateView (s : Shop) (items : List Ref) : Shop :=
  { s with items := items, actionBarHidden := items.length ≤ 0, rowCount := items.length }

/-- An item that decodes is a new object at the end of the screen's array. -/
def append (s : Shop) (items : List Ref) : Option RequestItem → Shop × List Ref
  | none => (s, items)
  | some item =>
      ({ s with heap := fun r => if r = s.next then item else s.heap r, next := s.next + 1 },
        items ++ [s.next])

/-- `plusClicked` and `minusClicked` of the category screen. The array is indexed
    without a check. -/
def categoryTapped (s : Shop) (screen : ItemsViewController) (index row : Nat)
    (modifier : Int) : Option Shop := do
  let item ← screen.items[row]?
  let updated ← update s.heap s.items item modifier
  if updated.calledBack then
    return { s.updateView updated.items with
      heap := updateItemsFromBasket updated.heap screen.items updated.items
      screens := s.screens.set index { screen with rowCount := screen.items.length } }
  else return { s with heap := updated.heap, items := updated.items }

def basketTapped (s : Shop) (row : Nat) (modifier : Int) : Option Shop := do
  let item ← s.items[row]?
  let updated ← update s.heap s.items item modifier
  let changed := { s with heap := updated.heap, items := updated.items }
  if updated.calledBack then return changed.updateView updated.items else return changed

variable (database : Json) (languageCode : Option String)

/-- The callback of one read. -/
def received (s : Shop) (screen : ItemsViewController) (index read : Nat) (id : String) : Shop :=
  let (s, items) := s.append screen.items (getRequestItem database languageCode id)
  let waiting := { screen with
    outstanding := screen.outstanding.eraseIdx read
    counter := screen.counter - 1
    items := items }
  if waiting.counter = 0 then
    { s with
      heap := updateItemsFromBasket s.heap items s.items
      screens := s.screens.set index { waiting with rowCount := items.length } }
  else { s with screens := s.screens.set index waiting }

/-- The card of a screen in front covers the categories. The first thing that a
    new screen does is to read its items, and `child:` throws for an id that is no
    path. -/
def step (s : Shop) : ShopEvent → Option Shop
  | .cellTapped itemIDs =>
      match s.front with
      | some _ => some s
      | none => if itemIDs.all takesItem then some (s.present itemIDs) else none
  | .clickedDismiss => some { s with front := none }
  | .answered index read =>
      match s.screens[index]? with
      | none => some s
      | some screen =>
          match screen.outstanding[read]? with
          | none => some s
          | some id => some (s.received database languageCode screen index read id)
  | .categoryTap row button =>
      match s.front, s.frontScreen with
      | some index, some screen =>
          if row < screen.rowCount then s.categoryTapped screen index row button.modifier
          else some s
      | _, _ => some s
  | .basketTap row button =>
      if row < s.rowCount then s.basketTapped row button.modifier else some s

end Shop

/-! ## What the events alone tell -/

/-- A screen that was presented, and the number of answers it waits for. -/
structure Presented where
  itemIDs : List String
  waiting : Nat

structure Log where
  screens : List Presented := []
  front : Option Nat := none

/-- An event, and what it is for a session that opens a category in one step: the
    last answer opens it, if its screen is still in front. -/
def Log.step (log : Log) : ShopEvent → Log × Option Event
  | .cellTapped itemIDs =>
      match log.front with
      | some _ => (log, none)
      | none => (⟨log.screens ++ [⟨itemIDs, itemIDs.length⟩], some log.screens.length⟩,
          if itemIDs = [] then some (.openCategory []) else none)
  | .clickedDismiss => ({ log with front := none }, some .closeCategory)
  | .answered index read =>
      match log.screens[index]? with
      | none => (log, none)
      | some screen =>
          if read < screen.waiting then
            ({ log with
                screens := log.screens.set index { screen with waiting := screen.waiting - 1 } },
              if log.front = some index ∧ screen.waiting = 1 then
                some (.openCategory screen.itemIDs) else none)
          else (log, none)
  | .categoryTap row button => (log, some (.categoryTap row button))
  | .basketTap row button => (log, some (.basketTap row button))

/-- The log of a run, and the session that it stands for. -/
def Log.follow (log : Log) : List ShopEvent → Log × List Event
  | [] => (log, [])
  | event :: rest =>
      let later := (log.step event).1.follow rest
      (later.1, (log.step event).2.toList ++ later.2)

def Log.frontScreen (log : Log) : Option Presented := log.front.bind (log.screens[·]?)

/-- The same event, up to the order in which the items of a category come. -/
inductive Event.Like : Event → Event → Prop where
  | same (event : Event) : Like event event
  | opened {answered itemIDs : List String} (all : answered.Perm itemIDs) :
      Like (.openCategory answered) (.openCategory itemIDs)

section Renaming

/-- The second heap has the objects of the first that are still held, under the
    references that `f` gives them. -/
structure Renamed (f : Ref → Ref) (held : Set Ref) (heap heap' : Heap) : Prop where
  apart : Set.InjOn f held
  same : ∀ r ∈ held, heap' (f r) = heap r

variable {f : Ref → Ref} {held : Set Ref} {heap heap' : Heap}

theorem Renamed.setQty (renamed : Renamed f held heap heap') {ref : Ref} (member : ref ∈ held)
    (qty : Int) : Renamed f held (setQty heap ref qty) (setQty heap' (f ref) qty) where
  apart := renamed.apart
  same := by
    intro r here
    unfold Basket.setQty
    by_cases equal : r = ref
    · rw [if_pos equal, if_pos (congrArg f equal), renamed.same r here]
    · rw [if_neg equal, if_neg (renamed.apart.ne here member equal), renamed.same r here]

theorem Renamed.syncEntry (renamed : Renamed f held heap heap') {item basketItem : Ref}
    (row : item ∈ held) (entry : basketItem ∈ held) :
    Renamed f held (syncEntry item heap basketItem) (syncEntry (f item) heap' (f basketItem)) := by
  unfold Basket.syncEntry
  rw [renamed.same item row, renamed.same basketItem entry]
  split
  · exact renamed.setQty row _
  · exact renamed

theorem Renamed.syncEntries {items : List Ref} {item : Ref} (row : item ∈ held)
    (entries : ∀ r ∈ items, r ∈ held) (renamed : Renamed f held heap heap') :
    Renamed f held (items.foldl (Basket.syncEntry item) heap)
      ((items.map f).foldl (Basket.syncEntry (f item)) heap') := by
  induction items generalizing heap heap' with
  | nil => exact renamed
  | cons basketItem rest ih =>
      exact ih (fun r later => entries r (List.mem_cons_of_mem _ later))
        (renamed.syncEntry row (entries basketItem List.mem_cons_self))

theorem Renamed.updateItemsFromBasket {screen items : List Ref} (rows : ∀ r ∈ screen, r ∈ held)
    (entries : ∀ r ∈ items, r ∈ held) (renamed : Renamed f held heap heap') :
    Renamed f held (updateItemsFromBasket heap screen items)
      (updateItemsFromBasket heap' (screen.map f) (items.map f)) := by
  unfold Basket.updateItemsFromBasket
  induction screen generalizing heap heap' with
  | nil => exact renamed
  | cons item rest ih =>
      exact ih (fun r later => rows r (List.mem_cons_of_mem _ later))
        (renamed.syncEntries (rows item List.mem_cons_self) entries)

/-- The variables of the two search loops, and the results of `update`. -/
structure Alike (f : Ref → Ref) (held : Set Ref) (heap heap' : Heap) (items items' : List Ref)
    (flag flag' : Bool) : Prop where
  renamed : Renamed f held heap heap'
  entries : ∀ r ∈ items, r ∈ held
  items : items' = items.map f
  flag : flag' = flag

theorem removeItem_renamed (renamed : Renamed f held heap heap') {items : List Ref}
    (entries : ∀ r ∈ items, r ∈ held) (id : String) :
    removeItem heap' (items.map f) id = (removeItem heap items id).map f := by
  unfold removeItem
  rw [List.filter_map]
  congr 1
  apply List.filter_congr
  intro r member
  simp only [Function.comp_apply, renamed.same r (entries r member)]

theorem updateEntry_renamed {search search' : Search} {i : Ref} (member : i ∈ held)
    (alike : Alike f held search.heap search'.heap search.items search'.items search.found
      search'.found) (id : String) (modifier : Int) :
    Option.Rel (fun s s' => Alike f held s.heap s'.heap s.items s'.items s.found s'.found)
      (updateEntry id modifier search i) (updateEntry id modifier search' (f i)) := by
  unfold updateEntry
  rw [alike.renamed.same i member]
  by_cases found : (search.heap i).id = id
  · rw [if_pos found, if_pos found]
    cases limited : (search.heap i).qtyLimit with
    | none => exact .none
    | some limit =>
        refine .some ?_
        have renamed := alike.renamed.setQty member
          (min ((search.heap i).qty + modifier) limit)
        refine ⟨renamed, ?_, ?_, rfl⟩
        · intro r here
          split at here
          · exact alike.entries r (List.mem_of_mem_filter here)
          · exact alike.entries r here
        · simp only [setQty_id, alike.renamed.same i member, alike.items]
          split
          · exact removeItem_renamed renamed alike.entries _
          · rfl
  · rw [if_neg found, if_neg found]
    exact .some alike

/-- `update` does the same to two baskets with the same objects. -/
theorem update_renamed (renamed : Renamed f held heap heap') {items : List Ref} {item : Ref}
    (entries : ∀ r ∈ items, r ∈ held) (member : item ∈ held) (modifier : Int) :
    Option.Rel (fun u u' => Alike f held u.heap u'.heap u.items u'.items u.calledBack
        u'.calledBack)
      (update heap items item modifier) (update heap' (items.map f) (f item) modifier) := by
  unfold update
  rw [renamed.same item member]
  split
  · exact .some ⟨renamed, entries, rfl, rfl⟩
  · have turns : ∀ i ∈ items, ∀ s s' : Search,
        Alike f held s.heap s'.heap s.items s'.items s.found s'.found →
        Option.Rel (fun s s' : Search =>
            Alike f held s.heap s'.heap s.items s'.items s.found s'.found)
          (updateEntry (heap item).id modifier s i)
          (updateEntry (heap item).id modifier s' (f i)) :=
      fun i inside s t alike => updateEntry_renamed (entries i inside) alike _ _
    have start : Alike f held heap heap' items (items.map f) false false :=
      ⟨renamed, entries, rfl, rfl⟩
    have searched := foldlM_rel (s := ⟨heap, items, false⟩) (t := ⟨heap', items.map f, false⟩)
      turns start
    revert searched
    cases items.foldlM (updateEntry (heap item).id modifier) ⟨heap, items, false⟩ <;>
      cases (items.map f).foldlM (updateEntry (heap item).id modifier)
        ⟨heap', items.map f, false⟩ <;> rintro ⟨⟩
    · exact .none
    · rename_i search search' alike
      simp only [Option.bind_eq_bind, Option.bind_some, alike.flag]
      split
      · refine .some ⟨?_, ?_, ?_, rfl⟩
        · simpa only [alike.renamed.same item member] using alike.renamed.setQty member _
        · intro r here
          rcases List.mem_append.mp here with older | last
          · exact alike.entries r older
          · exact List.mem_singleton.mp last ▸ member
        · rw [alike.items, List.map_append]
          rfl
      · exact .some ⟨alike.renamed, alike.entries, alike.items, rfl⟩

end Renaming

theorem Outcome.untouched {heap : Heap} {items : List Ref} {item r : Ref} {modifier : Int}
    {updated : Updated} (outcome : Outcome heap items item modifier updated) (outside : r ∉ items)
    (other : r ≠ item) : updated.heap r = heap r := by
  cases outcome with
  | noLimit | absent => rfl
  | changed inside =>
      refine setQty_of_ne heap ?_ _
      rintro rfl
      exact outside inside
  | added => exact setQty_of_ne heap other _

theorem Outcome.not_calledBack {heap : Heap} {items : List Ref} {item : Ref} {modifier : Int}
    {updated : Updated} (outcome : Outcome heap items item modifier updated)
    (silent : updated.calledBack = false) : updated = ⟨heap, items, false⟩ := by
  cases outcome with
  | noLimit => rfl
  | changed | added | absent => cases silent

namespace Shop

/-- The rows that the front screen shows: none before the last answer. -/
def shown (s : Shop) : Option (List Ref) :=
  s.frontScreen.bind fun screen => if screen.outstanding = [] then some screen.items else none

/-- The objects that a tap can reach. -/
def held (s : Shop) : Set Ref := {r | r ∈ s.items ∨ ∃ rows, s.shown = some rows ∧ r ∈ rows}

/-- What the log knows of a shop. -/
def log (s : Shop) : Log :=
  ⟨s.screens.map fun screen => ⟨screen.itemIDs, screen.outstanding.length⟩, s.front⟩

theorem isSome_shown (s : Shop) :
    s.shown.isSome = true ↔ ∃ screen, s.log.frontScreen = some screen ∧ screen.waiting = 0 := by
  simp only [Shop.shown, Shop.frontScreen, Log.frontScreen, Shop.log]
  cases s.front with
  | none => simp
  | some index =>
      rw [Option.bind_some, Option.bind_some, List.getElem?_map]
      cases s.screens[index]? with
      | none => simp
      | some screen => by_cases loaded : screen.outstanding = [] <;> simp [loaded]

end Shop

section Loading

variable (database : Json) (languageCode : Option String)

/-- A screen between two answers. As long as it waits for one, its objects are as
    they were decoded, in the order of the answers so far. -/
structure ItemsViewController.Loading (heap : Heap) (next : Nat) (screen : ItemsViewController) :
    Prop where
  counted : screen.counter = screen.outstanding.length
  rows : screen.rowCount = if screen.outstanding = [] then screen.items.length else 0
  asked : ∃ answered, (answered ++ screen.outstanding).Perm screen.itemIDs ∧
    (screen.outstanding ≠ [] →
      screen.items.map heap = answered.filterMap (getRequestItem database languageCode))
  nodup : screen.items.Nodup
  allocated : ∀ r ∈ screen.items, r < next

/-- What every run keeps. No object belongs to two screens, and the objects of a
    screen that still loads are in no basket. -/
structure Shop.Orderly (s : Shop) : Prop where
  loading : ∀ (i : Nat) (screen : ItemsViewController), s.screens[i]? = some screen →
    screen.Loading database languageCode s.heap s.next
  owned : ∀ (i j : Nat) (one two : ItemsViewController) (r : Ref), s.screens[i]? = some one →
    s.screens[j]? = some two → r ∈ one.items → r ∈ two.items → i = j
  apart : ∀ r ∈ s.items, ∀ (i : Nat) (screen : ItemsViewController),
    s.screens[i]? = some screen → r ∈ screen.items → screen.outstanding = []
  entries : ∀ r ∈ s.items, r < s.next
  there : ∀ index, s.front = some index → index < s.screens.length
  bar : s.actionBarHidden = decide (s.items.length ≤ 0)
  table : s.rowCount = s.items.length

variable {database languageCode}

theorem ItemsViewController.Loading.of_same {heap heap' : Heap} {next next' : Nat}
    {screen : ItemsViewController} (loading : screen.Loading database languageCode heap next)
    (same : screen.outstanding ≠ [] → ∀ r ∈ screen.items, heap' r = heap r)
    (grown : next ≤ next') : screen.Loading database languageCode heap' next' where
  counted := loading.counted
  rows := loading.rows
  asked := by
    obtain ⟨answered, asked, objects⟩ := loading.asked
    refine ⟨answered, asked, fun waits => ?_⟩
    rw [← objects waits]
    exact List.map_congr_left (same waits)
  nodup := loading.nodup
  allocated := fun r member => lt_of_lt_of_le (loading.allocated r member) grown

section Held

variable {s : Shop} (orderly : s.Orderly database languageCode)
include orderly

theorem Shop.Orderly.front_screen {index : Nat} (front : s.front = some index) :
    ∃ screen, s.screens[index]? = some screen ∧ s.frontScreen = some screen := by
  refine ⟨_, List.getElem?_eq_getElem (orderly.there index front), ?_⟩
  rw [Shop.frontScreen, front, Option.bind_some,
    List.getElem?_eq_getElem (orderly.there index front)]

omit orderly in
theorem Shop.shown_eq_some {rows : List Ref} (shown : s.shown = some rows) :
    ∃ index screen, s.front = some index ∧ s.screens[index]? = some screen ∧
      screen.outstanding = [] ∧ screen.items = rows := by
  obtain ⟨screen, front, rest⟩ := Option.bind_eq_some_iff.mp shown
  obtain ⟨index, at_front, found⟩ := Option.bind_eq_some_iff.mp front
  split at rest
  · exact ⟨index, screen, at_front, found, ‹_›, Option.some.inj rest⟩
  · cases rest

theorem Shop.Orderly.held_loaded {r : Ref} (held : r ∈ s.held) {i : Nat}
    {screen : ItemsViewController} (found : s.screens[i]? = some screen)
    (member : r ∈ screen.items) : screen.outstanding = [] := by
  obtain entry | ⟨rows, shown, row⟩ := held
  · exact orderly.apart r entry i screen found member
  · obtain ⟨index, front, -, there, loaded, rfl⟩ := Shop.shown_eq_some shown
    obtain rfl := orderly.owned i index screen front r found there member row
    obtain rfl := Option.some.inj (found.symm.trans there)
    exact loaded

theorem Shop.Orderly.held_allocated {r : Ref} (held : r ∈ s.held) : r < s.next := by
  obtain entry | ⟨rows, shown, row⟩ := held
  · exact orderly.entries r entry
  · obtain ⟨index, front, -, there, -, rfl⟩ := Shop.shown_eq_some shown
    exact (orderly.loading index front there).allocated r row

theorem Shop.Orderly.tapped {heap : Heap} {items : List Ref}
    (untouched : ∀ r, r ∉ s.held → heap r = s.heap r) (reached : ∀ r ∈ items, r ∈ s.held) :
    ({ s.updateView items with heap := heap } : Shop).Orderly database languageCode where
  loading := by
    intro i screen found
    refine (orderly.loading i screen found).of_same (fun waits r member => ?_) le_rfl
    exact untouched r fun held => waits (orderly.held_loaded held found member)
  owned := orderly.owned
  apart := fun r member i screen found row => orderly.held_loaded (reached r member) found row
  entries := fun r member => orderly.held_allocated (reached r member)
  there := orderly.there
  bar := rfl
  table := rfl

end Held

section Answers

/-- The screen after the answer to one of its reads. -/
def ItemsViewController.answered (screen : ItemsViewController) (read : Nat) (items : List Ref) :
    ItemsViewController where
  itemIDs := screen.itemIDs
  outstanding := screen.outstanding.eraseIdx read
  counter := screen.counter - 1
  items := items
  rowCount := if screen.outstanding.eraseIdx read = [] then items.length else screen.rowCount

/-- What appending to the array of a screen does to the objects. -/
structure Appended (s : Shop) (items : List Ref) (decoded : Option RequestItem)
    (after : Shop × List Ref) : Prop where
  frame : after.1 = { s with heap := after.1.heap, next := after.1.next }
  same : ∀ r, r < s.next → after.1.heap r = s.heap r
  grown : s.next ≤ after.1.next
  objects : after.2.map after.1.heap = items.map s.heap ++ decoded.toList
  fresh : ∀ r ∈ after.2, r ∈ items ∨ s.next ≤ r
  allocated : ∀ r ∈ after.2, r < after.1.next
  nodup : after.2.Nodup

theorem Shop.append_spec {s : Shop} {items : List Ref} (nodup : items.Nodup)
    (allocated : ∀ r ∈ items, r < s.next) (decoded : Option RequestItem) :
    Appended s items decoded (s.append items decoded) := by
  cases decoded with
  | none =>
      refine ⟨rfl, fun _ _ => rfl, le_rfl, ?_, fun r member => .inl member, allocated, nodup⟩
      simp [Shop.append]
  | some item =>
      refine ⟨rfl, fun r old => if_neg (Nat.ne_of_lt old), Nat.le_succ _, ?_, ?_, ?_, ?_⟩
      · simp only [Shop.append, List.map_append, List.map_cons, List.map_nil, if_pos,
          Option.toList_some, List.append_cancel_right_eq]
        exact List.map_congr_left fun r member => if_neg (Nat.ne_of_lt (allocated r member))
      · intro r member
        exact (List.mem_append.mp member).imp_right fun last => (List.mem_singleton.mp last).ge
      · intro r member
        rcases List.mem_append.mp member with older | last
        · exact Nat.lt_succ_of_lt (allocated r older)
        · exact List.mem_singleton.mp last ▸ Nat.lt_succ_self _
      · refine nodup.append (List.nodup_singleton _) ?_
        intro r older last
        exact absurd (allocated r older) (List.mem_singleton.mp last ▸ lt_irrefl _)

variable {s : Shop} {index read : Nat} {screen : ItemsViewController} {id : String}

theorem ItemsViewController.Loading.last_iff {heap : Heap} {next : Nat}
    (loading : screen.Loading database languageCode heap next)
    (asked : screen.outstanding[read]? = some id) :
    screen.counter - 1 = 0 ↔ screen.outstanding.eraseIdx read = [] := by
  have inside := (List.getElem?_eq_some_iff.mp asked).1
  rw [loading.counted, ← List.length_eq_zero_iff, List.length_eraseIdx_of_lt inside]
  omega

variable (database languageCode) in
/-- What the callback of one read does: `loaded` is the heap before the resync,
    if there is one. -/
structure Received (s : Shop) (screen : ItemsViewController) (index read : Nat)
    (heap loaded : Heap) (next : Nat) (rows : List Ref) (after : Shop) : Prop where
  frame : after = { s with
    heap := heap, next := next, screens := s.screens.set index (screen.answered read rows) }
  grown : s.next ≤ next
  older : ∀ r, r < s.next → loaded r = s.heap r
  fresh : ∀ r ∈ rows, r ∈ screen.items ∨ s.next ≤ r
  untouched : ∀ r, r ∉ rows → heap r = loaded r
  loading : (screen.answered read rows).Loading database languageCode heap next
  last : screen.outstanding.eraseIdx read = [] →
    heap = updateItemsFromBasket loaded rows s.items ∧
      ∃ answered : List String, answered.Perm screen.itemIDs ∧
        rows.map loaded = answered.filterMap (getRequestItem database languageCode)

theorem Shop.received_spec (orderly : s.Orderly database languageCode)
    (found : s.screens[index]? = some screen) (asked : screen.outstanding[read]? = some id) :
    ∃ heap loaded next rows, Received database languageCode s screen index read heap loaded next
      rows (s.received database languageCode screen index read id) := by
  have before := orderly.loading index screen found
  have appended := s.append_spec before.nodup before.allocated
    (getRequestItem database languageCode id)
  have waits : screen.outstanding ≠ [] := by
    intro none
    rw [none] at asked
    cases asked
  obtain ⟨answers, all, objects⟩ := before.asked
  -- one more answer
  have more : ((answers ++ [id]) ++ screen.outstanding.eraseIdx read).Perm screen.itemIDs := by
    obtain ⟨inside, rfl⟩ := List.getElem?_eq_some_iff.mp asked
    rw [List.append_assoc]
    exact ((List.getElem_cons_eraseIdx_perm inside).append_left answers).trans all
  have counted : screen.counter - 1 = (screen.outstanding.eraseIdx read).length := by
    have inside := (List.getElem?_eq_some_iff.mp asked).1
    rw [before.counted, List.length_eraseIdx_of_lt inside]
    omega
  have rows : screen.rowCount = 0 := by rw [before.rows, if_neg waits]
  unfold Shop.received
  simp only [before.last_iff asked]
  generalize s.append screen.items (getRequestItem database languageCode id) = after at *
  have decoded : after.2.map after.1.heap =
      (answers ++ [id]).filterMap (getRequestItem database languageCode) := by
    rw [appended.objects, objects waits, List.filterMap_append]
    cases decoded : getRequestItem database languageCode id <;> simp [decoded]
  by_cases last : screen.outstanding.eraseIdx read = []
  · rw [if_pos last]
    refine ⟨updateItemsFromBasket after.1.heap after.2 s.items, after.1.heap, after.1.next,
      after.2, ?_, appended.grown, appended.same, appended.fresh,
      fun r outside => updateItemsFromBasket_untouched (.inl outside), ?_, fun _ => ⟨rfl, ?_⟩⟩
    · rw [appended.frame]
      simp [ItemsViewController.answered, last]
    · exact ⟨counted, by simp [ItemsViewController.answered, last],
        ⟨_, more, fun waits => absurd last waits⟩, appended.nodup, appended.allocated⟩
    · rw [last, List.append_nil] at more
      exact ⟨_, more, decoded⟩
  · rw [if_neg last]
    refine ⟨after.1.heap, after.1.heap, after.1.next, after.2, ?_, appended.grown, appended.same,
      appended.fresh, fun _ _ => rfl, ?_, fun none => absurd none last⟩
    · rw [appended.frame]
      simp [ItemsViewController.answered, last]
    · exact ⟨counted, by simp [ItemsViewController.answered, last, rows],
        ⟨_, more, fun _ => decoded⟩, appended.nodup, appended.allocated⟩

section Received

variable {heap loaded : Heap} {next : Nat} {rows : List Ref} {after : Shop}
  (received : Received database languageCode s screen index read heap loaded next rows after)
include received

theorem Received.same {r : Ref} (old : r < s.next) (other : r ∉ screen.items) :
    heap r = s.heap r := by
  rw [received.untouched r, received.older r old]
  intro row
  obtain mine | new := received.fresh r row
  · exact other mine
  · exact Nat.not_lt.mpr new old

variable (orderly : s.Orderly database languageCode) (found : s.screens[index]? = some screen)
include orderly found

omit orderly in
theorem Received.screens {i : Nat} {one : ItemsViewController}
    (here : after.screens[i]? = some one) :
    (i = index ∧ one = screen.answered read rows) ∨ (i ≠ index ∧ s.screens[i]? = some one) := by
  have inside : index < s.screens.length := (List.getElem?_eq_some_iff.mp found).1
  rw [received.frame, List.getElem?_set] at here
  split at here
  · simp_all
  · exact .inr ⟨Ne.symm ‹_›, here⟩

theorem Received.others {i : Nat} {one : ItemsViewController} (other : i ≠ index)
    (there : s.screens[i]? = some one) {r : Ref} (member : r ∈ one.items) :
    r ∉ rows ∧ heap r = s.heap r := by
  have old := (orderly.loading i one there).allocated r member
  have foreign : r ∉ screen.items := fun mine =>
    other (orderly.owned i index one screen r there found member mine)
  refine ⟨fun row => ?_, received.same old foreign⟩
  obtain mine | new := received.fresh r row
  · exact foreign mine
  · exact Nat.not_lt.mpr new old

theorem Received.keeps (waits : screen.outstanding ≠ []) :
    after.Orderly database languageCode := by
  refine ⟨?loading, ?owned, ?apart, ?entries, ?front, ?bar, ?table⟩
  case loading =>
    intro i one here
    obtain ⟨rfl, rfl⟩ | ⟨other, there⟩ := received.screens found here
    · rw [received.frame]
      exact received.loading
    · rw [received.frame]
      refine (orderly.loading i one there).of_same (fun _ r member => ?_) received.grown
      exact (received.others orderly found other there member).2
  case owned =>
    intro i j one two r first second mine yours
    obtain ⟨rfl, rfl⟩ | ⟨other, there⟩ := received.screens found first <;>
      obtain ⟨rfl, rfl⟩ | ⟨other', there'⟩ := received.screens found second
    · rfl
    · exact absurd mine (received.others orderly found other' there' yours).1
    · exact absurd yours (received.others orderly found other there mine).1
    · exact orderly.owned i j one two r there there' mine yours
  case apart =>
    intro r entry i one here row
    rw [received.frame] at entry
    obtain ⟨rfl, rfl⟩ | ⟨other, there⟩ := received.screens found here
    · obtain mine | new := received.fresh r row
      · exact absurd (orderly.apart r entry i screen found mine) waits
      · exact absurd (orderly.entries r entry) (Nat.not_lt.mpr new)
    · exact orderly.apart r entry i one there row
  case entries =>
    intro r entry
    rw [received.frame] at entry ⊢
    exact lt_of_lt_of_le (orderly.entries r entry) received.grown
  case front =>
    intro i front
    rw [received.frame] at front ⊢
    simpa only [List.length_set] using orderly.there i front
  case bar =>
    rw [received.frame]
    exact orderly.bar
  case table =>
    rw [received.frame]
    exact orderly.table

omit orderly in
theorem Received.frontScreen : after.frontScreen =
    if s.front = some index then some (screen.answered read rows) else s.frontScreen := by
  have inside : index < s.screens.length := (List.getElem?_eq_some_iff.mp found).1
  rw [received.frame, Shop.frontScreen, Shop.frontScreen]
  cases s.front with
  | none => rfl
  | some i =>
      by_cases here : i = index
      · simp [here, inside]
      · simp [here, List.getElem?_set_ne (Ne.symm here)]

omit orderly in
/-- The last answer for the front screen brings up its rows, and no other answer
    changes what is on display. -/
theorem Received.display (waits : screen.outstanding ≠ []) :
    (s.front = some index ∧ screen.outstanding.eraseIdx read = [] ∧ after.shown = some rows) ∨
    (¬ (s.front = some index ∧ screen.outstanding.eraseIdx read = []) ∧
      after.shown = s.shown) := by
  have before : s.front = some index → s.frontScreen = some screen := by
    intro front
    rw [Shop.frontScreen, front, Option.bind_some, found]
  have now := received.frontScreen found
  unfold Shop.shown
  rw [now]
  by_cases front : s.front = some index
  · rw [if_pos front, before front]
    by_cases last : screen.outstanding.eraseIdx read = []
    · exact .inl ⟨front, last, by simp [ItemsViewController.answered, last]⟩
    · exact .inr ⟨fun both => last both.2, by simp [ItemsViewController.answered, last, waits]⟩
  · rw [if_neg front]
    exact .inr ⟨fun both => front both.1, rfl⟩

omit orderly in
theorem Received.logged (asked : screen.outstanding[read]? = some id) :
    s.log.step (.answered index read) = (after.log,
      if s.front = some index ∧ screen.outstanding.eraseIdx read = [] then
        some (.openCategory screen.itemIDs) else none) := by
  have inside := (List.getElem?_eq_some_iff.mp asked).1
  have last : screen.outstanding.eraseIdx read = [] ↔ screen.outstanding.length = 1 := by
    rw [← List.length_eq_zero_iff, List.length_eraseIdx_of_lt inside]
    omega
  have there : s.log.screens[index]? = some ⟨screen.itemIDs, screen.outstanding.length⟩ := by
    simp [Shop.log, found]
  have counted : after.log =
      ⟨s.log.screens.set index ⟨screen.itemIDs, screen.outstanding.length - 1⟩, s.front⟩ := by
    rw [received.frame]
    simp [Shop.log, ItemsViewController.answered, List.map_set,
      List.length_eraseIdx_of_lt inside]
  simp only [Log.step, there, inside, if_true, counted, last]
  rfl

end Received

end Answers

section Simulation

/-- The session has the basket and the rows of the shop, up to the references. -/
structure Simulates (f : Ref → Ref) (s : Shop) (t : Session) : Prop where
  sound : Sound t
  renamed : Renamed f s.held s.heap t.heap
  items : t.items = s.items.map f
  screen : t.screen = s.shown.map (·.map f)

variable {f : Ref → Ref} {s after : Shop} {t : Session}

/-- The session stays where it is while the objects in use stay as they are. -/
theorem Simulates.frame (simulates : Simulates f s t) (items : after.items = s.items)
    (shown : after.shown = s.shown) (same : ∀ r ∈ s.held, after.heap r = s.heap r) :
    Simulates f after t := by
  have held : after.held = s.held := by
    unfold Shop.held
    rw [items, shown]
  refine ⟨simulates.sound, ⟨held ▸ simulates.renamed.apart, ?_⟩, items ▸ simulates.items,
    shown ▸ simulates.screen⟩
  intro r member
  rw [held] at member
  rw [same r member]
  exact simulates.renamed.same r member

/-- The objects that a session gives to the decoded items of a category. -/
def allocate (heap : Heap) (next : Nat) (decoded : List RequestItem) : Heap :=
  fun (r : Nat) => if r < next then heap r else (decoded[r - next]?).getD (heap r)

theorem allocate_nil (heap : Heap) (next : Nat) : allocate heap next [] = heap := by
  funext r
  simp [allocate]

theorem allocate_cons (heap : Heap) (next : Nat) (item : RequestItem) (rest : List RequestItem) :
    allocate (fun r => if r = next then item else heap r) (next + 1) rest =
      allocate heap next (item :: rest) := by
  funext (r : Nat)
  unfold allocate
  obtain old | rfl | later := Nat.lt_trichotomy r next
  · rw [if_pos (Nat.lt_succ_of_lt old), if_pos old]
    exact if_neg (Nat.ne_of_lt old)
  · simp
  · obtain ⟨k, rfl⟩ : ∃ k, r = next + 1 + k := ⟨r - next - 1, by omega⟩
    rw [if_neg (by omega), if_neg (by omega), Nat.add_sub_cancel_left,
      show next + 1 + k - next = k + 1 by omega, List.getElem?_cons_succ]
    congr 1
    exact if_neg (Nat.ne_of_gt later)

theorem loadItem_fold_eq (itemIDs : List String) (t : Session) (rows : List Ref) :
    itemIDs.foldl (loadItem database languageCode) (t, rows) =
      let decoded := itemIDs.filterMap (getRequestItem database languageCode)
      ({ t with heap := allocate t.heap t.next decoded, next := t.next + decoded.length },
        rows ++ List.range' t.next decoded.length) := by
  induction itemIDs generalizing t rows with
  | nil => simp [allocate_nil]
  | cons id rest ih =>
      rw [List.foldl_cons]
      cases decoded : getRequestItem database languageCode id with
      | none =>
          rw [loadItem, decoded, ih]
          simp [decoded]
      | some item =>
          rw [loadItem, decoded, ih]
          simp only [List.filterMap_cons, decoded, List.length_cons, List.range'_succ,
            List.append_assoc, List.singleton_append, allocate_cons, Prod.mk.injEq,
            Session.mk.injEq, and_true, true_and]
          omega

/-- The references that the session gives to the rows of a screen that is fully
    loaded; all other references stay as they are. -/
def rename (f : Ref → Ref) (next : Nat) (rows : List Ref) : Ref → Ref :=
  fun r => if r ∈ rows then next + rows.idxOf r else f r

theorem rename_rows (f : Ref → Ref) (next : Nat) {rows : List Ref} (nodup : rows.Nodup) :
    rows.map (rename f next rows) = List.range' next rows.length := by
  apply List.ext_getElem
  · simp
  · intro i inside _
    rw [List.length_map] at inside
    simp [rename, nodup.idxOf_getElem i inside]

theorem Renamed.mono {heap heap' : Heap} {some all : Set Ref}
    (renamed : Renamed f all heap heap') (fewer : some ⊆ all) : Renamed f some heap heap' :=
  ⟨renamed.apart.mono fewer, fun r member => renamed.same r (fewer member)⟩

/-- The objects of the rows are allocated under new references, next to those of
    the basket. -/
theorem Renamed.opened {heap heap' loaded : Heap} {items rows : List Ref} {next : Nat}
    (renamed : Renamed f {r | r ∈ items} heap heap') (below : ∀ r ∈ items, f r < next)
    (apart : ∀ r ∈ items, r ∉ rows) (same : ∀ r ∈ items, loaded r = heap r) :
    Renamed (rename f next rows) {r | r ∈ items ∨ r ∈ rows} loaded
      (allocate heap' next (rows.map loaded)) := by
  have old : ∀ r ∈ items, rename f next rows r = f r := fun r entry => if_neg (apart r entry)
  have new : ∀ r ∈ rows, rename f next rows r = next + rows.idxOf r := fun r row => if_pos row
  have distinct : ∀ r ∈ items, ∀ k, f r ≠ next + k := fun r entry k equal =>
    Nat.not_lt.mpr (Nat.le_add_right next k) (equal ▸ below r entry)
  constructor
  · rintro r (entry | row) q (entry' | row') equal
    · rw [old r entry, old q entry'] at equal
      exact renamed.apart entry entry' equal
    · rw [old r entry, new q row'] at equal
      exact absurd equal (distinct r entry _)
    · rw [new r row, old q entry'] at equal
      exact absurd equal.symm (distinct q entry' _)
    · rw [new r row, new q row'] at equal
      exact (List.idxOf_inj row).mp (Nat.add_left_cancel equal)
  · rintro r (entry | row)
    · rw [old r entry, same r entry, allocate, if_pos (below r entry)]
      exact renamed.same r entry
    · have inside := List.idxOf_lt_length_of_mem row
      rw [new r row, allocate, if_neg (by omega), Nat.add_sub_cancel_left, List.getElem?_map,
        List.getElem?_eq_getElem inside, List.getElem_idxOf]
      rfl

theorem Simulates.opened (simulates : Simulates f s t) {rows : List Ref} {loaded : Heap}
    {answered : List String} (nodup : rows.Nodup) (apart : ∀ r ∈ s.items, r ∉ rows)
    (same : ∀ r ∈ s.items, loaded r = s.heap r)
    (decoded : rows.map loaded = answered.filterMap (getRequestItem database languageCode))
    (items : after.items = s.items) (shown : after.shown = some rows)
    (heap : after.heap = updateItemsFromBasket loaded rows s.items) :
    Simulates (rename f t.next rows) after (loadItems database languageCode t answered) := by
  have held : after.held = {r | r ∈ s.items ∨ r ∈ rows} := by
    unfold Shop.held
    rw [items, shown]
    simp
  have below : ∀ r ∈ s.items, f r < t.next := fun r entry =>
    simulates.sound.allocated _ (simulates.items ▸ List.mem_map_of_mem entry)
  have entries : t.items = s.items.map (rename f t.next rows) := by
    rw [simulates.items]
    exact List.map_congr_left fun r entry => (if_neg (apart r entry)).symm
  have basket : Renamed f {r | r ∈ s.items} s.heap t.heap :=
    simulates.renamed.mono fun r entry => .inl entry
  have renamed := basket.opened below apart same
  rw [← held] at renamed
  have result : loadItems database languageCode t answered = { t with
      heap := updateItemsFromBasket (allocate t.heap t.next (rows.map loaded))
        (rows.map (rename f t.next rows)) (s.items.map (rename f t.next rows))
      next := t.next + rows.length
      screen := some (rows.map (rename f t.next rows)) } := by
    rw [loadItems, loadItem_fold_eq, ← decoded, rename_rows f t.next nodup, ← entries]
    simp
  have inScreen : ∀ r ∈ rows, r ∈ after.held := fun r row => by rw [held]; exact .inr row
  have inBasket : ∀ r ∈ s.items, r ∈ after.held := fun r entry => by rw [held]; exact .inl entry
  have resynced := renamed.updateItemsFromBasket inScreen inBasket
  refine ⟨simulates.sound.loadItems database languageCode answered, ?_, ?_, ?_⟩
  · rw [result, heap]
    exact resynced
  · rw [result, items]
    exact entries
  · rw [result, shown]
    rfl

section Taps

theorem Simulates.distinct (simulates : Simulates f s t) :
    (s.items.map fun r => (s.heap r).id).Nodup := by
  have distinct := simulates.sound.distinct
  rw [simulates.items, List.map_map] at distinct
  rwa [List.map_congr_left fun r entry => by
    rw [Function.comp_apply, simulates.renamed.same r (.inl entry)]] at distinct

theorem Simulates.updated (simulates : Simulates f s t) {item : Ref} (held : item ∈ s.held)
    (modifier : Int) :
    ∃ updated updated', update s.heap s.items item modifier = some updated ∧
      Outcome s.heap s.items item modifier updated ∧
      update t.heap t.items (f item) modifier = some updated' ∧
      Alike f s.held updated.heap updated'.heap updated.items updated'.items updated.calledBack
        updated'.calledBack := by
  have limits : ∀ r ∈ s.items, (s.heap r).qtyLimit ≠ none := by
    intro r entry
    rw [← simulates.renamed.same r (.inl entry)]
    exact simulates.sound.limits _ (simulates.items ▸ List.mem_map_of_mem entry)
  obtain ⟨updated, ran, outcome⟩ := update_outcome simulates.distinct limits item modifier
  have alike := update_renamed simulates.renamed (fun r entry => .inl entry) held modifier
  rw [ran, ← simulates.items] at alike
  revert alike
  cases ran' : update t.heap t.items (f item) modifier <;> rintro ⟨⟩
  exact ⟨updated, _, ran, outcome, rfl, ‹_›⟩

/-- A tap in the shop is the same tap in the session, with whatever objects the
    handlers have written to. -/
theorem Simulates.tapped (simulates : Simulates f s t) {heap heap' : Heap} {items : List Ref}
    (renamed : Renamed f s.held heap heap') (reached : ∀ r ∈ items, r ∈ s.held)
    (sound : Sound { t with heap := heap', items := items.map f }) :
    Simulates f { s.updateView items with heap := heap }
      { t with heap := heap', items := items.map f } where
  sound := sound
  renamed := by
    refine renamed.mono ?_
    rintro r (entry | row)
    · exact reached r entry
    · exact .inr row
  items := rfl
  screen := simulates.screen

theorem Outcome.outside_held {rows : List Ref} (shown : ∀ r ∈ rows, r ∈ s.held) {item : Ref}
    (held : item ∈ s.held) {modifier : Int} {updated : Updated}
    (outcome : Outcome s.heap s.items item modifier updated) {r : Ref} (outside : r ∉ s.held) :
    updated.heap r = s.heap r ∧
      updateItemsFromBasket updated.heap rows updated.items r = s.heap r := by
  have written : updated.heap r = s.heap r := by
    refine outcome.untouched (fun entry => outside (.inl entry)) ?_
    rintro rfl
    exact outside held
  refine ⟨written, ?_⟩
  rw [updateItemsFromBasket_untouched (.inl fun row => outside (shown r row)), written]

variable (orderly : s.Orderly database languageCode)
include orderly

theorem Shop.Orderly.updateView_self : s.updateView s.items = s := by
  rw [Shop.updateView, ← orderly.bar, ← orderly.table]

variable (database languageCode f s t) in
/-- A tap in the shop and the same tap in the session. -/
def Tapped (event : ShopEvent) (action : Event) : Prop :=
  ∃ after next, s.step database languageCode event = some after ∧
    Basket.step database languageCode t action = some next ∧
    after.Orderly database languageCode ∧ Simulates f after next ∧ after.log = s.log

theorem Simulates.missed (simulates : Simulates f s t) {event : ShopEvent} {action : Event}
    (still : s.step database languageCode event = some s)
    (still' : Basket.step database languageCode t action = some t) :
    Tapped database languageCode f s t event action :=
  ⟨s, t, still, still', orderly, simulates, rfl⟩

theorem Simulates.categoryRow (simulates : Simulates f s t) {index row : Nat}
    {screen : ItemsViewController} {item : Ref} (front : s.front = some index)
    (found : s.screens[index]? = some screen) (loaded : screen.outstanding = [])
    (hit : screen.items[row]? = some item) (button : Button) :
    Tapped database languageCode f s t (.categoryTap row button) (.categoryTap row button) := by
  have inFront : s.frontScreen = some screen := by rw [Shop.frontScreen, front]; exact found
  have shown : s.shown = some screen.items := by simp [Shop.shown, inFront, loaded]
  have opened : t.screen = some (screen.items.map f) := by rw [simulates.screen, shown]; rfl
  have rows : screen.rowCount = screen.items.length := by
    rw [(orderly.loading index screen found).rows, if_pos loaded]
  have below : row < screen.rowCount := by
    rw [rows]
    exact (List.getElem?_eq_some_iff.mp hit).1
  have reach : ∀ r ∈ screen.items, r ∈ s.held :=
    fun r member => .inr ⟨screen.items, shown, member⟩
  have held := reach item (List.mem_of_getElem? hit)
  obtain ⟨updated, updated', ran, outcome, ran', alike⟩ := simulates.updated held button.modifier
  have moved : Basket.step database languageCode t (.categoryTap row button) =
      some { t with
        heap := if updated.calledBack then
          updateItemsFromBasket updated'.heap (screen.items.map f) updated'.items
          else updated'.heap
        items := updated.items.map f } := by
    simp [Basket.step, Basket.tapped, opened, hit, categoryClicked, ran', alike.items, alike.flag]
  obtain ⟨_, moved', sound⟩ :=
    step_sound database languageCode simulates.sound (.categoryTap row button)
  obtain rfl := Option.some.inj (moved.symm.trans moved')
  have outside := fun r => outcome.outside_held reach held (r := r)
  cases called : updated.calledBack with
  | true =>
      rw [called] at moved sound
      have resynced := alike.renamed.updateItemsFromBasket reach alike.entries
      rw [← alike.items] at resynced
      have stays : s.screens.set index { screen with rowCount := screen.items.length } =
          s.screens := by
        obtain ⟨inside, rfl⟩ := List.getElem?_eq_some_iff.mp found
        rw [← rows]
        exact List.set_getElem_self inside
      refine ⟨_, _, ?_, moved, ?_, simulates.tapped resynced alike.entries sound, rfl⟩
      · simp [Shop.step, front, inFront, below, Shop.categoryTapped, hit, ran, called, stays,
          Shop.updateView]
      · exact orderly.tapped (fun r out => (outside r out).2) alike.entries
  | false =>
      rw [called] at moved sound
      refine ⟨_, _, ?_, moved, ?_, simulates.tapped alike.renamed alike.entries sound, rfl⟩
      · have silent := outcome.not_calledBack called
        simp [Shop.step, front, inFront, below, Shop.categoryTapped, hit, ran, silent,
          orderly.updateView_self]
      · exact orderly.tapped (fun r out => (outside r out).1) alike.entries

theorem Simulates.categoryTapped (simulates : Simulates f s t) (row : Nat) (button : Button) :
    Tapped database languageCode f s t (.categoryTap row button) (.categoryTap row button) := by
  cases front : s.front with
  | none =>
      have closed : t.screen = none := by
        rw [simulates.screen, Shop.shown, Shop.frontScreen, front]
        rfl
      exact simulates.missed orderly (by simp [Shop.step, front]) (by simp [Basket.step, closed])
  | some index =>
      obtain ⟨screen, found, inFront⟩ := orderly.front_screen front
      have loading := orderly.loading index screen found
      by_cases loaded : screen.outstanding = []
      · cases hit : screen.items[row]? with
        | none =>
            have opened : t.screen = some (screen.items.map f) := by
              rw [simulates.screen, Shop.shown, inFront]
              simp [loaded]
            have beside : ¬ row < screen.rowCount := by
              rw [loading.rows, if_pos loaded]
              exact Nat.not_lt.mpr (List.getElem?_eq_none_iff.mp hit)
            exact simulates.missed orderly (by simp [Shop.step, front, inFront, beside])
              (by simp [Basket.step, Basket.tapped, opened, hit])
        | some item => exact simulates.categoryRow orderly front found loaded hit button
      · -- the rows are not there yet
        have closed : t.screen = none := by
          rw [simulates.screen, Shop.shown, inFront]
          simp [loaded]
        have rows : screen.rowCount = 0 := by rw [loading.rows, if_neg loaded]
        exact simulates.missed orderly (by simp [Shop.step, front, inFront, rows])
          (by simp [Basket.step, closed])

theorem Simulates.basketTapped (simulates : Simulates f s t) (row : Nat) (button : Button) :
    Tapped database languageCode f s t (.basketTap row button) (.basketTap row button) := by
  cases hit : s.items[row]? with
  | none =>
      have beside : ¬ row < s.rowCount := by
        rw [orderly.table]
        exact Nat.not_lt.mpr (List.getElem?_eq_none_iff.mp hit)
      exact simulates.missed orderly (by simp [Shop.step, beside])
        (by simp [Basket.step, Basket.tapped, simulates.items, hit])
  | some item =>
      have below : row < s.rowCount := by
        rw [orderly.table]
        exact (List.getElem?_eq_some_iff.mp hit).1
      have held : item ∈ s.held := .inl (List.mem_of_getElem? hit)
      obtain ⟨updated, updated', ran, outcome, ran', alike⟩ :=
        simulates.updated held button.modifier
      have moved : Basket.step database languageCode t (.basketTap row button) =
          some { t with heap := updated'.heap, items := updated.items.map f } := by
        rw [Basket.step, Basket.tapped, simulates.items, List.getElem?_map, hit]
        simp [basketClicked, ran', alike.items]
      obtain ⟨_, moved', sound⟩ :=
        step_sound database languageCode simulates.sound (.basketTap row button)
      obtain rfl := Option.some.inj (moved.symm.trans moved')
      refine ⟨_, _, ?_, moved, ?_, simulates.tapped alike.renamed alike.entries sound, rfl⟩
      · cases called : updated.calledBack with
        | true => simp [Shop.step, below, Shop.basketTapped, hit, ran, called, Shop.updateView]
        | false =>
            have silent := outcome.not_calledBack called
            simp [Shop.step, below, Shop.basketTapped, hit, ran, silent, orderly.updateView_self]
      · refine orderly.tapped (fun r out => ?_) alike.entries
        exact (outcome.outside_held (List.forall_mem_nil _) held out).1

end Taps

section Steps

variable (database languageCode) in
/-- A session follows one event of the shop, as the log says. -/
structure Follows (s : Shop) (t : Session) (event : ShopEvent) (after : Shop)
    (events : List Event) (next : Session) : Prop where
  stepped : s.step database languageCode event = some after
  ran : run (Basket.step database languageCode) t events = some next
  orderly : after.Orderly database languageCode
  simulates : ∃ g, Simulates g after next
  logged : after.log = (s.log.step event).1
  events : List.Forall₂ Event.Like events (s.log.step event).2.toList

theorem Follows.idle {event : ShopEvent} (orderly : s.Orderly database languageCode)
    (simulates : Simulates f s t) (still : s.step database languageCode event = some s)
    (nothing : s.log.step event = (s.log, none)) :
    Follows database languageCode s t event s [] t where
  stepped := still
  ran := rfl
  orderly := orderly
  simulates := ⟨f, simulates⟩
  logged := by rw [nothing]
  events := by rw [nothing]; exact .nil

theorem Shop.present_screens {itemIDs : List String} {i : Nat} {one : ItemsViewController}
    (here : (s.present itemIDs).screens[i]? = some one) :
    s.screens[i]? = some one ∨
      one = { itemIDs := itemIDs, outstanding := itemIDs, counter := itemIDs.length } := by
  simp only [Shop.present] at here
  rw [List.getElem?_append] at here
  split at here
  · exact .inl here
  · obtain ⟨zero, same⟩ := List.getElem?_eq_some_iff.mp here
    simp only [List.length_singleton, Nat.lt_one_iff] at zero
    exact .inr (by simpa [zero] using same.symm)

theorem Shop.Orderly.present (orderly : s.Orderly database languageCode)
    (itemIDs : List String) : (s.present itemIDs).Orderly database languageCode := by
  refine ⟨?loading, ?owned, ?apart, orderly.entries, ?front, orderly.bar, orderly.table⟩
  case loading =>
    intro i one here
    obtain there | rfl := Shop.present_screens here
    · exact orderly.loading i one there
    · exact ⟨rfl, by simp, ⟨[], .refl _, fun _ => rfl⟩, List.nodup_nil, by simp⟩
  case owned =>
    intro i j one two r first second mine yours
    obtain there | rfl := Shop.present_screens first
    · obtain there' | rfl := Shop.present_screens second
      · exact orderly.owned i j one two r there there' mine yours
      · cases yours
    · cases mine
  case apart =>
    intro r entry i one here row
    obtain there | rfl := Shop.present_screens here
    · exact orderly.apart r entry i one there row
    · cases row
  case front => simp [Shop.present]

/-- A screen is presented only with ids that `child:` takes. -/
def Shop.Takes (s : Shop) : ShopEvent → Prop
  | .cellTapped itemIDs => s.front = none → itemIDs.all takesItem = true
  | _ => True

theorem Shop.takes_of_step {event : ShopEvent}
    (taken : s.step database languageCode event = some after) : s.Takes event := by
  cases event with
  | cellTapped itemIDs =>
      intro front
      simp only [Shop.step, front] at taken
      exact (Option.ite_none_right_eq_some.mp taken).1
  | _ => trivial

variable (orderly : s.Orderly database languageCode) (simulates : Simulates f s t)
include orderly simulates

theorem Shop.Orderly.presented {itemIDs : List String} (takes : s.Takes (.cellTapped itemIDs)) :
    ∃ after events next,
      Follows database languageCode s t (.cellTapped itemIDs) after events next := by
  cases front : s.front with
  | some index =>
      refine ⟨s, [], t, .idle orderly simulates (by simp [Shop.step, front]) ?_⟩
      have same : s.log.front = some index := front
      simp only [Log.step, same]
  | none =>
      have stepped : s.step database languageCode (.cellTapped itemIDs) =
          some (s.present itemIDs) := by
        simp only [Shop.step, front, if_pos (takes front)]
      have nothing : s.shown = none := by simp [Shop.shown, Shop.frontScreen, front]
      have inFront : (s.present itemIDs).frontScreen = some
          { itemIDs := itemIDs, outstanding := itemIDs, counter := itemIDs.length } := by
        simp [Shop.frontScreen, Shop.present]
      have logged : s.log.step (.cellTapped itemIDs) = ((s.present itemIDs).log,
          if itemIDs = [] then some (.openCategory []) else none) := by
        have same : s.log.front = none := front
        simp only [Log.step, same]
        simp [Shop.log, Shop.present]
      by_cases empty : itemIDs = []
      · -- a category without items shows its rows at once
        subst empty
        have decoded : List.map s.heap [] =
            List.filterMap (getRequestItem database languageCode) [] := rfl
        refine ⟨_, [.openCategory []], loadItems database languageCode t [], stepped, rfl,
          orderly.present [], ⟨_, simulates.opened List.nodup_nil (by simp) (fun _ _ => rfl)
            decoded rfl (by simp [Shop.shown, inFront]) rfl⟩, by rw [logged], ?_⟩
        rw [logged]
        exact .cons (.same _) .nil
      · have same : (s.present itemIDs).shown = s.shown := by
          rw [nothing]
          simp [Shop.shown, inFront, empty]
        refine ⟨_, [], t, stepped, rfl, orderly.present itemIDs,
          ⟨f, simulates.frame rfl same fun _ _ => rfl⟩, by rw [logged], ?_⟩
        rw [logged, if_neg empty]
        exact .nil

theorem Shop.Orderly.dismissed :
    ∃ after events next, Follows database languageCode s t .clickedDismiss after events next := by
  refine ⟨_, [.closeCategory], { t with screen := none }, rfl, rfl, ?_, ⟨f, ?_⟩, rfl,
    .cons (.same _) .nil⟩
  · exact ⟨orderly.loading, orderly.owned, orderly.apart, orderly.entries, by simp, orderly.bar,
      orderly.table⟩
  · refine ⟨⟨simulates.sound.distinct, simulates.sound.limits, simulates.sound.allocated, by simp⟩,
      simulates.renamed.mono ?_, simulates.items, rfl⟩
    rintro r (entry | ⟨rows, shown, -⟩)
    · exact .inl entry
    · cases shown

theorem Shop.Orderly.answered (index read : Nat) :
    ∃ after events next,
      Follows database languageCode s t (.answered index read) after events next := by
  cases found : s.screens[index]? with
  | none =>
      refine ⟨s, [], t, .idle orderly simulates (by simp [Shop.step, found]) ?_⟩
      simp [Log.step, Shop.log, found]
  | some screen =>
      cases asked : screen.outstanding[read]? with
      | none =>
          refine ⟨s, [], t, .idle orderly simulates (by simp [Shop.step, found, asked]) ?_⟩
          have beyond := List.getElem?_eq_none_iff.mp asked
          simp [Log.step, Shop.log, found, beyond]
      | some id =>
          have waits : screen.outstanding ≠ [] := by
            intro none
            rw [none] at asked
            cases asked
          obtain ⟨heap, loaded, next, rows, received⟩ := s.received_spec orderly found asked
          have stepped : s.step database languageCode (.answered index read) =
              some (s.received database languageCode screen index read id) := by
            simp [Shop.step, found, asked]
          have kept := received.keeps orderly found waits
          have logged := received.logged found asked
          have apart : ∀ r ∈ s.held, r ∉ screen.items := fun r held member =>
            waits (orderly.held_loaded held found member)
          have items : (s.received database languageCode screen index read id).items = s.items := by
            rw [received.frame]
          obtain ⟨front, last, shown⟩ | ⟨other, shown⟩ := received.display found waits
          · -- the last answer for the front screen
            obtain ⟨resynced, answered, all, decoded⟩ := received.last last
            refine ⟨_, [.openCategory answered], loadItems database languageCode t answered,
              stepped, rfl, kept, ⟨_, simulates.opened received.loading.nodup ?_ ?_ decoded items
                shown ?_⟩, by rw [logged], ?_⟩
            · intro r entry row
              obtain mine | new := received.fresh r row
              · exact apart r (.inl entry) mine
              · exact Nat.not_lt.mpr new (orderly.entries r entry)
            · exact fun r entry => received.older r (orderly.entries r entry)
            · rw [received.frame]
              exact resynced
            · rw [logged, if_pos ⟨front, last⟩]
              exact .cons (.opened all) .nil
          · refine ⟨_, [], t, stepped, rfl, kept, ⟨f, simulates.frame items shown ?_⟩,
              by rw [logged], ?_⟩
            · intro r held
              rw [received.frame]
              exact received.same (orderly.held_allocated held) (apart r held)
            · rw [logged, if_neg other]
              exact .nil

theorem Shop.Orderly.followed {event : ShopEvent} (takes : s.Takes event) :
    ∃ after events next, Follows database languageCode s t event after events next := by
  have tapped : ∀ {event : ShopEvent} {action : Event},
      s.log.step event = (s.log, some action) →
      Tapped database languageCode f s t event action →
      ∃ after events next, Follows database languageCode s t event after events next := by
    rintro event action logged ⟨after, next, stepped, moved, kept, follows, same⟩
    have ran : run (Basket.step database languageCode) t [action] = some next := by
      rw [run_cons, moved]
      rfl
    refine ⟨after, [action], next, stepped, ran, kept, ⟨f, follows⟩, ?_, ?_⟩
    · rw [same, logged]
    · rw [logged]
      exact .cons (.same _) .nil
  cases event with
  | cellTapped itemIDs => exact orderly.presented simulates takes
  | clickedDismiss => exact orderly.dismissed simulates
  | answered index read => exact orderly.answered simulates index read
  | categoryTap row button => exact tapped rfl (simulates.categoryTapped orderly row button)
  | basketTap row button => exact tapped rfl (simulates.basketTapped orderly row button)

end Steps

theorem Shop.Orderly.start (heap : Heap) :
    Shop.Orderly database languageCode { heap := heap } :=
  ⟨by simp, by simp, by simp, by simp, by simp, rfl, rfl⟩

theorem Simulates.start (heap : Heap) : Simulates id { heap := heap } (Session.start heap) :=
  ⟨Sound.start heap, ⟨Set.injOn_id _, fun _ _ => rfl⟩, rfl, rfl⟩

theorem run_followed {events : List ShopEvent} (orderly : s.Orderly database languageCode)
    (simulates : Simulates f s t)
    (ran : run (Shop.step database languageCode) s events = some after) :
    after.Orderly database languageCode ∧ after.log = (s.log.follow events).1 ∧
      ∃ session next g, List.Forall₂ Event.Like session (s.log.follow events).2 ∧
        run (step database languageCode) t session = some next ∧ Simulates g after next := by
  induction events generalizing s t f with
  | nil =>
      obtain rfl := Option.some.inj ran
      exact ⟨orderly, rfl, [], t, f, .nil, rfl, simulates⟩
  | cons event rest ih =>
      obtain ⟨middle, taken, later⟩ := Option.bind_eq_some_iff.mp ran
      obtain ⟨_, first, next, follows⟩ := orderly.followed simulates (Shop.takes_of_step taken)
      obtain rfl := Option.some.inj (taken.symm.trans follows.stepped)
      obtain ⟨g, simulates'⟩ := follows.simulates
      obtain ⟨orderly', logged, session, last, h, like, went, end_⟩ :=
        ih follows.orderly simulates' later
      rw [follows.logged] at logged like
      refine ⟨orderly', logged, first ++ session, last, h, List.rel_append follows.events like,
        ?_, end_⟩
      rw [run_append, follows.ran, Option.bind_some, went]

end Simulation

/-- The ids in a category are keys of the catalogue. -/
def ShopEvent.Keyed : ShopEvent → Prop
  | .cellTapped itemIDs => ∀ id ∈ itemIDs, isValidKey id = true
  | _ => True

theorem takesItem_of_key {id : String} (key : isValidKey id = true) : takesItem id = true := by
  have cut : s!"items/{id}" = "items/" ++ id := rfl
  rw [takesItem, cut, isValidPathString_append (by decide), inPath_of_key key]

theorem run_of_keyed (heap : Heap) {events : List ShopEvent}
    (keyed : ∀ event ∈ events, event.Keyed) :
    ∃ s, run (Shop.step database languageCode) { heap := heap } events = some s := by
  suffices total : ∀ (s : Shop) (t : Session) f, s.Orderly database languageCode →
      Simulates f s t → ∃ after, run (Shop.step database languageCode) s events = some after from
    total _ _ _ (Shop.Orderly.start heap) (Simulates.start heap)
  induction events with
  | nil => exact fun s _ _ _ _ => ⟨s, rfl⟩
  | cons event rest ih =>
      intro s t f orderly simulates
      have takes : s.Takes event := by
        have key := keyed event List.mem_cons_self
        cases event with
        | cellTapped itemIDs =>
            exact fun _ => List.all_eq_true.mpr fun id member => takesItem_of_key (key id member)
        | _ => trivial
      obtain ⟨middle, _, next, follows⟩ := orderly.followed simulates takes
      obtain ⟨g, simulates'⟩ := follows.simulates
      obtain ⟨after, went⟩ := ih (fun event member => keyed event (List.mem_cons_of_mem _ member))
        middle next g follows.orderly simulates'
      exact ⟨after, by rw [run_cons, follows.stepped, Option.bind_some, went]⟩

/-- Whatever the order in which the reads of all category screens are answered,
    no handler traps, and the basket and the rows on display are those of a
    session that opens a category in one step: at the last of its answers, if its
    screen is in front then, and with its items in some order. What the user does
    comes in between as it came. A screen in front shows its rows exactly if it
    waits for nothing, and the checkout button is there exactly if the basket is
    not empty. -/
theorem loading_is_atomic (heap : Heap) {events : List ShopEvent}
    (keyed : ∀ event ∈ events, event.Keyed) :
    ∃ s, run (Shop.step database languageCode) { heap := heap } events = some s ∧
      (s.actionBarHidden = true ↔ s.items = []) ∧
      (s.shown.isSome = true ↔
        ∃ screen, (Log.follow {} events).1.frontScreen = some screen ∧ screen.waiting = 0) ∧
      ∃ session t, List.Forall₂ Event.Like session (Log.follow {} events).2 ∧
        run (step database languageCode) (Session.start heap) session = some t ∧
        t.items.map t.heap = s.items.map s.heap ∧
        t.screen.map (·.map t.heap) = s.shown.map (·.map s.heap) := by
  obtain ⟨s, ran⟩ := run_of_keyed heap keyed
  obtain ⟨orderly, logged, session, t, f, like, ran', simulates⟩ :=
    run_followed (Shop.Orderly.start heap) (Simulates.start heap) ran
  have contents : ∀ rows : List Ref, (∀ r ∈ rows, r ∈ s.held) →
      (rows.map f).map t.heap = rows.map s.heap := by
    intro rows held
    rw [List.map_map]
    exact List.map_congr_left fun r member => simulates.renamed.same r (held r member)
  refine ⟨s, ran, ?_, ?_, session, t, like, ran', ?_, ?_⟩
  · rw [orderly.bar, decide_eq_true_iff, Nat.le_zero, List.length_eq_zero_iff]
  · rw [s.isSome_shown, logged]
    rfl
  · rw [simulates.items]
    exact contents s.items fun r entry => .inl entry
  · rw [simulates.screen]
    cases shown : s.shown with
    | none => rfl
    | some rows =>
        exact congrArg some (contents rows fun r row => .inr ⟨rows, shown, row⟩)

section Example

private def saltOnly : Json :=
  .obj [("items", .obj [("salt", .obj [("name", .str "Salt"), ("icon", .str "s"),
    ("bgCol", .str "white"), ("limit", .int 3)])])]

private def noObjects : Heap := fun _ => { id := "", name := "", icon := "", qty := 0, bgCol := "" }

/-- The first screen is closed between its answers, the second gets all of them. -/
private def twoScreens : List ShopEvent :=
  [.cellTapped ["salt", "gone"], .answered 0 1, .clickedDismiss, .cellTapped ["gone", "salt"],
    .answered 0 0, .answered 1 1, .answered 1 0, .categoryTap 0 .plus]

theorem loading_is_atomic_two_screens :
    ∃ s session t, run (Shop.step saltOnly none) { heap := noObjects } twoScreens = some s ∧
      s.shown.isSome = true ∧
      List.Forall₂ Event.Like session
        [.closeCategory, .openCategory ["gone", "salt"], .categoryTap 0 .plus] ∧
      run (step saltOnly none) (Session.start noObjects) session = some t ∧
      t.items.map t.heap = s.items.map s.heap := by
  have keyed : ∀ event ∈ twoScreens, event.Keyed := by
    have salt : isValidKey "salt" = true := by decide
    have gone : isValidKey "gone" = true := by decide
    simp [twoScreens, ShopEvent.Keyed, salt, gone]
  obtain ⟨s, ran, -, shows, session, t, like, went, items, -⟩ :=
    @loading_is_atomic saltOnly none noObjects twoScreens keyed
  exact ⟨s, session, t, ran, shows.mpr ⟨⟨["gone", "salt"], 0⟩, rfl, rfl⟩, like, went, items⟩

end Example

end Loading

end Kasei.Basket
