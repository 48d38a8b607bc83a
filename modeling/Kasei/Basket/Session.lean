import Kasei.Lib.Runs
import Kasei.Models.RequestItem

/-! # The basket and the screens that edit it

`RequestItem` is a class: the basket and the open category screen hold
references, sometimes to one object, and every quantity is written through
them. A session keeps the objects in a heap and runs the two view controllers'
handlers on it.

Swift's `Int` is unbounded here. A quantity moves by one per tap, so no session
that a user can make comes near the 64-bit limits. A string stands for its
normal form, here and wherever names and ids are compared: on these Swift's `==`
is equality.
-/

namespace Kasei.Basket

open JsonTree

abbrev Ref := Nat

abbrev Heap := Ref → RequestItem

def setQty (heap : Heap) (ref : Ref) (qty : Int) : Heap :=
  fun r => if r = ref then { heap r with qty := qty } else heap r

def removeItem (heap : Heap) (items : List Ref) (id : String) : List Ref :=
  items.filter fun item => (heap item).id ≠ id

/-- The variables of the search loop in `Basket.update`. -/
structure Search where
  heap : Heap
  items : List Ref
  found : Bool

/-- One turn of the loop; `none` is the forced unwrap of a nil `qtyLimit`. -/
def updateEntry (id : String) (modifier : Int) (search : Search) (i : Ref) : Option Search :=
  if (search.heap i).id = id then do
    let limit ← (search.heap i).qtyLimit
    let qty := min ((search.heap i).qty + modifier) limit
    let heap := setQty search.heap i qty
    let items := if qty ≤ 0 then removeItem heap search.items (heap i).id else search.items
    return ⟨heap, items, true⟩
  else return search

structure Updated where
  heap : Heap
  items : List Ref
  calledBack : Bool

/-- `Basket.update`. The loop runs over the array as it was when it started,
    while `removeItem` changes the array itself. -/
def update (heap : Heap) (items : List Ref) (item : Ref) (modifier : Int) : Option Updated :=
  if (heap item).qtyLimit = none then some ⟨heap, items, false⟩
  else do
    let search ← items.foldlM (updateEntry (heap item).id modifier) ⟨heap, items, false⟩
    if !search.found && modifier > 0 then
      return ⟨setQty search.heap item ((search.heap item).qty + 1), search.items ++ [item], true⟩
    else return ⟨search.heap, search.items, true⟩

def syncEntry (item : Ref) (heap : Heap) (basketItem : Ref) : Heap :=
  if (heap item).name = (heap basketItem).name then setQty heap item (heap basketItem).qty
  else heap

/-- The resync of the category screen, which matches by name. -/
def updateItemsFromBasket (heap : Heap) (screen items : List Ref) : Heap :=
  screen.foldl (fun heap item => items.foldl (syncEntry item) heap) heap

structure Session where
  heap : Heap
  next : Nat
  items : List Ref
  screen : Option (List Ref)

/-- A new request: an empty basket and no category screen. -/
def Session.start (heap : Heap) : Session := ⟨heap, 0, [], none⟩

inductive Button where
  | plus
  | minus
  deriving Repr, DecidableEq

def Button.modifier : Button → Int
  | .plus => 1
  | .minus => -1

inductive Event where
  /-- Open a category; the ids are listed in the order their reads are answered. -/
  | openCategory (itemIDs : List String)
  | closeCategory
  | categoryTap (row : Nat) (button : Button)
  | basketTap (row : Nat) (button : Button)
  deriving Repr, DecidableEq

section Handlers

variable (database : Json) (languageCode : Option String)

/-- One answered read of `loadItems`: an item that decodes becomes a new object
    on the screen. -/
def loadItem (loaded : Session × List Ref) (id : String) : Session × List Ref :=
  match getRequestItem database languageCode id with
  | none => loaded
  | some item =>
      ({ loaded.1 with
          heap := fun r => if r = loaded.1.next then item else loaded.1.heap r
          next := loaded.1.next + 1 },
        loaded.2 ++ [loaded.1.next])

def loadItems (s : Session) (itemIDs : List String) : Session :=
  let loaded := itemIDs.foldl (loadItem database languageCode) (s, [])
  { loaded.1 with
    heap := updateItemsFromBasket loaded.1.heap loaded.2 loaded.1.items
    screen := some loaded.2 }

/-- `ItemsViewController.plusClicked` and `minusClicked`. -/
def categoryClicked (s : Session) (screen : List Ref) (item : Ref) (modifier : Int) :
    Option Session := do
  let updated ← update s.heap s.items item modifier
  let heap := if updated.calledBack then
    updateItemsFromBasket updated.heap screen updated.items else updated.heap
  return { s with heap := heap, items := updated.items }

/-- `NewRequestViewController.plusClicked` and `minusClicked`; `updateView`
    writes the array it is given back into the basket. -/
def basketClicked (s : Session) (item : Ref) (modifier : Int) : Option Session := do
  let updated ← update s.heap s.items item modifier
  return { s with heap := updated.heap, items := updated.items }

/-- The row that a tap hits. A tap beside the rows hits nothing, like the guard
    in `getItem`. -/
def tapped (s : Session) : Event → Option Ref
  | .categoryTap row _ => s.screen.bind (·[row]?)
  | .basketTap row _ => s.items[row]?
  | _ => none

def step (s : Session) (event : Event) : Option Session :=
  match event with
  | .openCategory itemIDs => some (loadItems database languageCode s itemIDs)
  | .closeCategory => some { s with screen := none }
  | .categoryTap _ button =>
      match s.screen, tapped s event with
      | some screen, some item => categoryClicked s screen item button.modifier
      | _, _ => some s
  | .basketTap _ button =>
      match tapped s event with
      | some item => basketClicked s item button.modifier
      | none => some s

end Handlers

/-- `prepare(for:sender:)` before the checkout screen. -/
def checkout (s : Session) (newRequest : Request) : Request :=
  { newRequest with items := s.items.map s.heap }

end Kasei.Basket
