import Kasei.Models.DatabasePath
import Mathlib.Data.Rat.Floor

/-! # Firebase snapshots and the casts out of them

A single read answers with a `DataSnapshot`: the last key of the path read and
the node found there. Decoders look at children by name and cast leaf values
with `as?`, which goes through `NSNumber` for numbers and booleans.

The ids of users and items stand in a path as one name each: they are keys of the
tree, and what a category lists is taken for keys of the catalogue. The zone of a
post and the ids of an index are read from leaves as well and put into a path;
these are checked and cut as `child:` does it.
-/

namespace Kasei

open JsonTree

/-- The values of Swift's 64-bit `Int`; arithmetic that leaves them traps. -/
def fitsInt (n : Int) : Bool := -2 ^ 63 ≤ n && n < 2 ^ 63

/-- An integer that survives `Double(exactly:)`: at most 53 significant bits. -/
def fitsDouble (n : Int) : Bool := n.natAbs % 2 ^ (n.natAbs.log2 - 52) == 0

/-- `value as? String`. -/
def asString : Json → Option String
  | .str value => some value
  | _ => none

/-- `value as? Int`: a number with an integral value in range, or a boolean. -/
def asInt : Json → Option Int
  | .int value => some value
  | .double value => if value.den = 1 && fitsInt value.num then some value.num else none
  | .bool value => some (if value then 1 else 0)
  | _ => none

/-- `value as? Double`. -/
def asDouble : Json → Option ℚ
  | .double value => some value
  | .int value => if fitsDouble value then some value else none
  | .bool value => some (if value then 1 else 0)
  | _ => none

structure DataSnapshot where
  key : String
  value : Json
  deriving Repr

namespace DataSnapshot

/-- `exists()`. -/
def isPresent (snap : DataSnapshot) : Bool := !snap.value.isEmpty

def children (snap : DataSnapshot) : List DataSnapshot :=
  snap.value.entries.map fun entry => ⟨entry.1, entry.2⟩

def childrenCount (snap : DataSnapshot) : Nat := snap.children.length

def childSnapshot (snap : DataSnapshot) (path : String) : DataSnapshot :=
  ⟨path, snap.value.child path⟩

end DataSnapshot

theorem children_of_absent {snap : DataSnapshot} (absent : snap.isPresent = false) :
    snap.children = [] := by
  simp only [DataSnapshot.isPresent, Bool.not_eq_false'] at absent
  unfold DataSnapshot.children
  cases value : snap.value with
  | obj children =>
      cases children with
      | nil => rfl
      | cons first rest => simp [value, Json.isEmpty] at absent
  | _ => rfl

/-- What `observeSingleEvent(of: .value)` on `parent/key` answers. -/
def observeSingleEvent (database : Json) (parent : Path) (key : String) : DataSnapshot :=
  ⟨key, database.get (parent ++ [key])⟩

/-- The same for a path of any length: its last piece is the key of the answer. -/
def snapshotAt (database : Json) (path : Path) : DataSnapshot :=
  ⟨path.getLastD "", database.get path⟩

/-- A dictionary as `setValue` stores it: entries without a value are not kept. -/
def ofDictionary (entries : List (String × Json)) : Json :=
  .obj (entries.filter fun entry => !entry.2.isEmpty)

end Kasei
