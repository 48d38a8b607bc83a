import Kasei.Models.Snapshot

/-! # Items and requests

The two records of the app, and the decoder of a catalogue node. `RequestItem`
is a class in the source; here it is the content of one object, and the modules
about the basket keep the objects themselves in a heap.
-/

namespace Kasei

open JsonTree

structure RequestItem where
  id : String
  name : String
  icon : String
  qty : Int
  qtyLimit : Option Int := none
  qtyRemaining : Option Int := none
  bgCol : String
  deriving Repr, DecidableEq

/-- Dates are exact seconds since 1970. -/
structure Request where
  id : Option String
  dateCreated : Option ℚ
  senderID : String
  status : Option String
  delSlotStart : Option ℚ
  items : List RequestItem
  isNew : Option Bool := none
  deriving Repr, DecidableEq

/-- The value the completion of `getRequestItem` receives once `items/id` has
    been read. Chinese falls back to the plain name; the two limits are kept
    only when they are integers. -/
def getRequestItem (database : Json) (languageCode : Option String) (id : String) :
    Option RequestItem := do
  let snapshot := observeSingleEvent database ["items"] id
  let path := if languageCode = some "zh" then "name_zh" else "name"
  let name ← (asString (snapshot.childSnapshot path).value).or
    (asString (snapshot.childSnapshot "name").value)
  let icon ← asString (snapshot.childSnapshot "icon").value
  let bgCol ← asString (snapshot.childSnapshot "bgCol").value
  return {
    id := id, name := name, icon := icon, qty := 0, bgCol := bgCol
    qtyLimit := asInt (snapshot.childSnapshot "limit").value
    qtyRemaining := asInt (snapshot.childSnapshot "remaining").value }

theorem getRequestItem_fresh {database : Json} {languageCode : Option String} {id : String}
    {item : RequestItem} (decoded : getRequestItem database languageCode id = some item) :
    item.id = id ∧ item.qty = 0 := by
  simp only [getRequestItem, Option.bind_eq_bind, Option.bind_eq_some_iff, Option.pure_def,
    Option.some.injEq] at decoded
  obtain ⟨name, _, icon, _, bgCol, _, rfl⟩ := decoded
  exact ⟨rfl, rfl⟩

theorem getRequestItem_remaining {database : Json} {languageCode : Option String} {id : String}
    {item : RequestItem} (decoded : getRequestItem database languageCode id = some item) :
    item.qtyRemaining = asInt (database.get ["items", id, "remaining"]) := by
  simp only [getRequestItem, Option.bind_eq_bind, Option.bind_eq_some_iff, Option.pure_def,
    Option.some.injEq] at decoded
  obtain ⟨name, _, icon, _, bgCol, _, rfl⟩ := decoded
  rfl

end Kasei
