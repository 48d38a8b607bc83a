import Kasei.CoreData.Sync
import Kasei.Lib.Runs

/-! # The loops of the sync as they are written

`updateSavedRequests` with its two loops, its indices and its forced unwraps: a
`while` over the old requests, in it a `for` over the indices that the new list
had when the turn began, and both lists shrinking as it goes. Every access that
can fail is a trap. The loops compute what the recursion `syncOld` computes, so
that what is known of the recursion holds of them.
-/

namespace Kasei.CoreData.Loops

open Runs

/-- The variables of `updateSavedRequests`, the store, and the answers that the
    store has still to give. -/
structure SyncState where
  oldRequests : List Request
  newRequests : List Request
  store : List CDRequest
  orders : Nat → FetchOrder

/-- `remove(at:)`. -/
def removeAt (requests : List Request) (i : Nat) : Option (List Request) :=
  if i < requests.length then some (requests.eraseIdx i) else none

/-- `removeFirst()`. -/
def removeFirst : List Request → Option (List Request)
  | [] => none
  | _ :: rest => some rest

/-- The `for` loop from an index on. The flag is `hasMatch`. -/
def forLoop (changedLocale : Bool) : List Nat → SyncState → Option (SyncState × Bool)
  | [], s => some (s, false)
  | i :: rest, s =>
      if changedLocale then some (s, false)
      else do
        let first ← s.oldRequests.head?
        let new ← s.newRequests[i]?
        if first.id = new.id ∧ first.status = new.status then
          let store ←
            if first.isNew.getD false then first.id.map (markRequestAsOld (s.orders 0) s.store)
            else some s.store
          let newRequests ← removeAt s.newRequests i
          let oldRequests ← removeFirst s.oldRequests
          -- the `break` comes right after the removals, so no later index is read
          return ({ s with oldRequests := oldRequests, newRequests := newRequests, store := store },
            true)
        else forLoop changedLocale rest s

/-- One turn of the `while` loop. It makes at most one fetch by id. -/
def turn (changedLocale : Bool) (s : SyncState) : Option SyncState := do
  let (s, hasMatch) ← forLoop changedLocale (List.range s.newRequests.length) s
  let later := fun n => s.orders (n + 1)
  if hasMatch then return { s with orders := later }
  else
    let first ← s.oldRequests.head?
    let id ← first.id
    let oldRequests ← removeFirst s.oldRequests
    return { s with
      oldRequests := oldRequests, store := deleteRequest (s.orders 0) s.store id, orders := later }

def hasOld (s : SyncState) : Bool := 0 < s.oldRequests.length

def updateSavedRequests (fuel : Nat) (orders : Nat → FetchOrder) (languageCode : Option String)
    (saved : Saved) (newRequests : List Request) : Option Saved := do
  let changedLocale := saved.currLocale != languageCode
  let s ← whileLoop hasOld (turn changedLocale) fuel
    ⟨loadAllRequests (orders 0) saved.store, newRequests, saved.store, fun n => orders (n + 1)⟩
  return {
    store := s.newRequests.foldl saveRequest s.store
    currLocale := if changedLocale then languageCode else saved.currLocale }

section Turns

variable {changedLocale : Bool} {first : Request} {rest newRequests : List Request}
  {store : List CDRequest} {orders : Nat → FetchOrder}

/-- What the body of the `for` loop does at an index that matches. -/
def matched (first : Request) (rest newRequests : List Request) (store : List CDRequest)
    (orders : Nat → FetchOrder) (i : Nat) : Option SyncState :=
  (if first.isNew.getD false then first.id.map (markRequestAsOld (orders 0) store)
    else some store).map fun store => ⟨rest, newRequests.eraseIdx i, store, orders⟩

/-- From any index on, the `for` loop stays in range and stops at the first match. -/
theorem forLoop_range' {k n : Nat} (inside : k + n = newRequests.length) :
    forLoop false (List.range' k n) ⟨first :: rest, newRequests, store, orders⟩ =
      match (newRequests.drop k).findIdx? fun new =>
        first.id = new.id ∧ first.status = new.status with
      | some j => (matched first rest newRequests store orders (k + j)).map (·, true)
      | none => some (⟨first :: rest, newRequests, store, orders⟩, false) := by
  induction n generalizing k with
  | zero =>
      have exhausted : newRequests.drop k = [] := List.drop_eq_nil_of_le (by omega)
      simp [forLoop, exhausted]
  | succ n ih =>
      have short : k < newRequests.length := by omega
      rw [List.range'_succ, List.drop_eq_getElem_cons short, List.findIdx?_cons]
      simp only [forLoop, Bool.false_eq_true, if_false, List.head?_cons, Option.bind_eq_bind,
        Option.bind_some, List.getElem?_eq_getElem short, decide_eq_true_eq]
      split
      · simp only [matched, removeAt, removeFirst, short, if_true, Option.bind_some,
          Option.pure_def, Nat.add_zero]
        split
        · cases first.id <;> rfl
        · rfl
      · rw [ih (by omega)]
        cases (newRequests.drop (k + 1)).findIdx? fun new =>
            first.id = new.id ∧ first.status = new.status with
        | none => rfl
        | some j => simp only [Option.map_some, Nat.add_assoc, Nat.add_comm 1 j]

theorem forLoop_eq : forLoop changedLocale (List.range newRequests.length)
    ⟨first :: rest, newRequests, store, orders⟩ =
      match findMatch changedLocale first newRequests with
      | some i => (matched first rest newRequests store orders i).map (·, true)
      | none => some (⟨first :: rest, newRequests, store, orders⟩, false) := by
  cases changedLocale with
  | true => cases newRequests.length <;> simp [forLoop, findMatch, List.range_succ_eq_map]
  | false =>
      rw [List.range_eq_range', forLoop_range' (Nat.zero_add _)]
      simp only [findMatch, Bool.false_eq_true, if_false, List.drop_zero, Nat.zero_add]

/-- One turn with an old request to visit: the only trap is its missing id. -/
theorem turn_eq : turn changedLocale ⟨first :: rest, newRequests, store, orders⟩ =
    match findMatch changedLocale first newRequests with
    | some i => (matched first rest newRequests store orders i).map fun s =>
        { s with orders := fun n => orders (n + 1) }
    | none => first.id.map fun id =>
        ⟨rest, newRequests, deleteRequest (orders 0) store id, fun n => orders (n + 1)⟩ := by
  simp only [turn, forLoop_eq]
  cases findMatch changedLocale first newRequests with
  | none =>
      simp only [Option.bind_eq_bind, Option.bind_some, Bool.false_eq_true, if_false,
        List.head?_cons, removeFirst, Option.pure_def]
      cases first.id <;> rfl
  | some i =>
      simp only [matched, Option.bind_eq_bind, Option.pure_def]
      split
      · cases first.id <;> rfl
      · rfl

/-- What the recursion gives from a state of the loop. -/
def recursion (changedLocale : Bool) (s : SyncState) : Option (List Request × List CDRequest) :=
  syncOld s.orders changedLocale s.oldRequests s.newRequests s.store

/-- One turn of the loop is one unfolding of the recursion, traps included. -/
theorem recursion_turn :
    recursion changedLocale ⟨first :: rest, newRequests, store, orders⟩ =
      (turn changedLocale ⟨first :: rest, newRequests, store, orders⟩).bind
        (recursion changedLocale) := by
  rw [turn_eq]
  simp only [recursion, syncOld]
  cases findMatch changedLocale first newRequests with
  | none => cases first.id <;> rfl
  | some i =>
      simp only [matched]
      split
      · cases first.id <;> rfl
      · rfl

theorem turn_oldRequests {next : SyncState}
    (taken : turn changedLocale ⟨first :: rest, newRequests, store, orders⟩ = some next) :
    next.oldRequests = rest := by
  rw [turn_eq] at taken
  split at taken
  · obtain ⟨s, here, rfl⟩ := Option.map_eq_some_iff.mp taken
    obtain ⟨_, _, rfl⟩ := Option.map_eq_some_iff.mp here
    rfl
  · obtain ⟨_, _, rfl⟩ := Option.map_eq_some_iff.mp taken
    rfl

end Turns

theorem whileLoop_recursion (changedLocale : Bool) (s : SyncState) {fuel : Nat}
    (enough : s.oldRequests.length ≤ fuel) :
    (whileLoop hasOld (turn changedLocale) fuel s).map (fun s => (s.newRequests, s.store)) =
      recursion changedLocale s := by
  apply whileLoop_eq (fun s => s.oldRequests.length) _ _ _ enough
  · rintro ⟨_ | ⟨first, rest⟩, newRequests, store, orders⟩ ended
    · rfl
    · simp [hasOld] at ended
  · rintro ⟨_ | ⟨first, rest⟩, newRequests, store, orders⟩ more
    · simp [hasOld] at more
    · exact recursion_turn
  · rintro ⟨_ | ⟨first, rest⟩, newRequests, store, orders⟩ next more taken
    · simp [hasOld] at more
    · rw [turn_oldRequests taken]
      exact Nat.lt_succ_self _

theorem updateSavedRequests_eq {orders : Nat → FetchOrder} {languageCode : Option String}
    {saved : Saved} {newRequests : List Request} {fuel : Nat} (enough : saved.store.length ≤ fuel) :
    updateSavedRequests fuel orders languageCode saved newRequests =
      CoreData.updateSavedRequests orders languageCode saved newRequests := by
  have turns : (loadAllRequests (orders 0) saved.store).length ≤ fuel := by
    rw [(loadAllRequests_perm (orders 0) saved.store).length_eq, List.length_map]
    exact enough
  have loop := whileLoop_recursion (saved.currLocale != languageCode)
    ⟨loadAllRequests (orders 0) saved.store, newRequests, saved.store, fun n => orders (n + 1)⟩
    turns
  simp only [recursion] at loop
  simp only [updateSavedRequests, CoreData.updateSavedRequests, ← loop]
  cases whileLoop hasOld _ fuel _ <;> rfl

/-- Whatever the store and the new list hold more than once, in either state of the
    language and whichever row a fetch by id returns first, the loops end within
    one turn for each row, no access traps, and the store has the ids asked for,
    each as often as it was asked for. -/
theorem updateSavedRequests_repairs (orders : Nat → FetchOrder) (languageCode : Option String)
    {saved : Saved} (newRequests : List Request) (ids : ∀ row ∈ saved.store, row.id ≠ none)
    {fuel : Nat} (enough : saved.store.length ≤ fuel) :
    ∃ after, updateSavedRequests fuel orders languageCode saved newRequests = some after ∧
      (after.store.map CDRequest.id).Perm (newRequests.map Request.id) := by
  rw [updateSavedRequests_eq enough]
  obtain ⟨after, synced⟩ := updateSavedRequests_total orders languageCode newRequests ids
  exact ⟨after, synced, updateSavedRequests_ids synced⟩

section Example

private def order (id status : String) : Request :=
  { id := some id, dateCreated := some 1, senderID := "amy", status := some status
    delSlotStart := some 2, items := [] }

private def repeatedRows : Saved :=
  ⟨[cdrequest (order "a" "sent"), cdrequest (order "a" "otw"), cdrequest (order "b" "sent"),
    cdrequest (order "b" "sent")], some "en"⟩

/-- Two rows of one id with different statuses, two alike, and an id asked for
    twice. -/
theorem updateSavedRequests_repairs_repeated :
    ∃ after, updateSavedRequests 4 (fun _ => .listed) (some "en") repeatedRows
        [order "a" "otw", order "c" "sent", order "c" "sent"] = some after ∧
      (after.store.map CDRequest.id).Perm [some "a", some "c", some "c"] :=
  updateSavedRequests_repairs (fun _ => .listed) (some "en") _ (by decide) (by decide)

end Example

end Kasei.CoreData.Loops
