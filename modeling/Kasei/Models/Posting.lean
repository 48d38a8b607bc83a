import Kasei.Models.Counters

/-! # When posting is all-or-nothing

A half-written request is live for whoever reads `requests/zone` although its
sender was told that it failed. The two writes are not undone when the second
is rejected, and the guard on the signed-in user returns without a completion;
these, a slot that overflows, and a zone or an item id for which Firebase throws
are the only ways out of the contract.
-/

namespace Kasei.Posting

open JsonTree Runs Counters

/-- `childByAutoId` draws keys that no node of the tree has. -/
structure FreshKeys (database : Json) (replies : PostReplies) : Prop where
  request : ∀ zoneid, database.get (requestPath zoneid replies.requestKey) = .null
  index : ∀ uid zoneid, database.get (indexPath uid zoneid replies.indexKey) = .null

/-- The milliseconds `postRequest` stores for the slot, before the check that
    they fit. -/
def slotMillis (clock : Clock) (req : Request) : Int :=
  rounded (req.delSlotStart.getD (clock.defaultSlot * 1000)) * 1000

def BothStored (database later : Json) (uid : String) (clock : Clock) (req : Request)
    (replies : PostReplies) : Prop :=
  let zoneid := (retrieveSubzone database (some uid)).1
  later.get (requestPath zoneid replies.requestKey) =
      requestDictionary clock.now (slotMillis clock req) req ∧
    later.get (indexPath uid zoneid replies.indexKey) = .str replies.requestKey

/-- One completion, `true` exactly when both nodes are in the tree, and `false`
    only with the tree as it was; also after any of the counter transactions
    that the call started have committed. -/
def AllOrNothing (database : Json) (currentUser : Option String) (clock : Clock) (req : Request)
    (replies : PostReplies) : Prop :=
  ∃ posted result, postRequest database currentUser clock req replies = some posted ∧
    posted.completions = [result] ∧
    ∀ transactions later, transactions ⊆ posted.transactions →
      run (fun d (t : Transaction) => t.commit d) posted.database transactions = some later →
      (result = true ↔ ∃ uid, currentUser = some uid ∧
        BothStored database later uid clock req replies) ∧
      (result = false → later = database)

theorem delSlotMillis_eq (clock : Clock) (req : Request) :
    delSlotMillis req.delSlotStart clock.defaultSlot =
      if fitsInt (slotMillis clock req) then some (slotMillis clock req) else none := by
  unfold delSlotMillis toInt64 slotMillis
  generalize rounded (req.delSlotStart.getD (clock.defaultSlot * 1000)) = whole
  by_cases small : fitsInt whole
  · simp only [if_pos small, Option.bind_eq_bind, Option.bind_some]
  · have large : ¬ fitsInt (whole * 1000) := by
      simp only [fitsInt, Bool.and_eq_true, decide_eq_true_eq] at small ⊢
      omega
    simp only [if_neg small, if_neg large, Option.bind_eq_bind, Option.bind_none]

theorem get_run_of_apart {database later : Json} {transactions : List Transaction} {path : Path}
    (apart : ∀ t ∈ transactions, Apart t.path path)
    (committed : run (fun d (t : Transaction) => t.commit d) database transactions = some later) :
    later.get path = database.get path := by
  induction transactions generalizing database with
  | nil =>
      obtain rfl := Option.some.inj committed
      rfl
  | cons t rest ih =>
      obtain ⟨next, first, remaining⟩ := Option.bind_eq_some_iff.mp committed
      rw [ih (fun u member => apart u (List.mem_cons_of_mem t member)) remaining]
      simp only [Transaction.commit] at first
      split at first
      · obtain rfl := Option.some.inj first
        exact Json.get_set_of_apart database (apart t List.mem_cons_self) _
      · cases first

theorem updateCounters_apart {items : List RequestItem} {zoneid : String} {t : Transaction}
    (member : t ∈ updateCounters items zoneid) (top : String) (rest : Path)
    (outside : top = "requests" ∨ top = "userRequests") : Apart t.path (top :: rest) := by
  obtain ⟨item, _, here⟩ := List.mem_flatMap.mp member
  simp only [List.mem_cons, List.not_mem_nil, or_false] at here
  rcases here with rfl | rfl | rfl <;> rcases outside with rfl | rfl <;>
    exact .inl (by decide)

theorem not_stored {database : Json} {uid : String} {clock : Clock} {req : Request}
    {replies : PostReplies} (fresh : FreshKeys database replies) :
    ¬ BothStored database database uid clock req replies := by
  rintro ⟨_, index⟩
  rw [fresh.index] at index
  cases index

/-- A call that reports `false` and starts nothing meets the contract exactly
    if it left the tree alone. -/
theorem allOrNothing_of_false {database : Json} (written : Json) {uid : String} {clock : Clock}
    {req : Request} {replies : PostReplies} (fresh : FreshKeys database replies)
    (outcome : postRequest database (some uid) clock req replies = some ⟨written, [false], []⟩) :
    AllOrNothing database (some uid) clock req replies ↔ written = database := by
  constructor
  · rintro ⟨posted, result, called, completed, holds⟩
    rw [outcome] at called
    obtain rfl := Option.some.inj called
    obtain rfl := (List.cons.inj completed).1
    exact (holds [] written (List.nil_subset _) rfl).2 rfl
  · rintro rfl
    refine ⟨_, false, outcome, rfl, fun transactions later none committed => ?_⟩
    obtain rfl := List.subset_nil.mp none
    obtain rfl := Option.some.inj committed
    refine ⟨⟨(fun reported => nomatch reported), ?_⟩, fun _ => rfl⟩
    rintro ⟨user, _, stored⟩
    exact absurd stored (not_stored fresh)

theorem set_request_ne {database : Json} {replies : PostReplies}
    (fresh : FreshKeys database replies) (zoneid : String) (now : ℚ) (millis : Int)
    (req : Request) :
    database.set (requestPath zoneid replies.requestKey) (requestDictionary now millis req) ≠
      database := by
  intro same
  have read := congrArg (Json.get · (requestPath zoneid replies.requestKey)) same
  simp only [Json.get_set_self, fresh.request] at read
  cases read

theorem stored_of_accepted (database : Json) (uid : String) (clock : Clock) (req : Request)
    (replies : PostReplies) {transactions : List Transaction} {later : Json} {zoneid : String}
    (zone : (retrieveSubzone database (some uid)).1 = zoneid)
    (started : transactions ⊆ updateCounters req.items zoneid)
    (committed : run (fun d (t : Transaction) => t.commit d)
      (setValue (setValue database (requestPath zoneid replies.requestKey)
          (requestDictionary clock.now (slotMillis clock req) req) true)
        (indexPath uid zoneid replies.indexKey) (.str replies.requestKey) true)
      transactions = some later) :
    BothStored database later uid clock req replies := by
  simp only [BothStored, zone]
  have untouched : ∀ top rest, top = "requests" ∨ top = "userRequests" →
      ∀ t ∈ transactions, Apart t.path (top :: rest) :=
    fun top rest outside t member => updateCounters_apart (started member) top rest outside
  constructor
  · rw [requestPath, get_run_of_apart (untouched _ _ (.inl rfl)) committed]
    simp only [setValue, if_true]
    have apart : Apart (indexPath uid zoneid replies.indexKey)
        (requestPath zoneid replies.requestKey) := .inl (by decide)
    exact (Json.get_set_of_apart _ apart _).trans (Json.get_set_self ..)
  · rw [indexPath, get_run_of_apart (untouched _ _ (.inr rfl)) committed]
    exact Json.get_set_self ..

theorem not_allOrNothing_of_silent {database : Json} {currentUser : Option String} {clock : Clock}
    {req : Request} {replies : PostReplies} (after : Option Json)
    (outcome : postRequest database currentUser clock req replies =
      after.map fun tree => ⟨tree, [], []⟩) :
    ¬ AllOrNothing database currentUser clock req replies := by
  rintro ⟨posted, result, called, completed, _⟩
  rw [outcome] at called
  obtain ⟨tree, -, rfl⟩ := Option.map_eq_some_iff.mp called
  cases completed

/-- A call that gets to its first write meets the contract unless the index entry
    is rejected after the request node has been accepted, or the loop throws. -/
theorem allOrNothing_of_writable {database : Json} {uid zoneid : String} {clock : Clock}
    {req : Request} {replies : PostReplies} (fresh : FreshKeys database replies)
    (fits : fitsInt (slotMillis clock req) = true)
    (zone : retrieveSubzone database (some uid) = (zoneid, true))
    (writable : isWritable zoneid req.items = true) :
    AllOrNothing database (some uid) clock req replies ↔ (replies.requestAccepted = true →
      replies.indexAccepted = true ∧ isCountable req.items = true) := by
  have slot := delSlotMillis_eq clock req
  rw [if_pos fits] at slot
  cases first : replies.requestAccepted with
  | false =>
      rw [allOrNothing_of_false database fresh
        (by simp [postRequest, slot, zone, writable, first, setValue])]
      simp
  | true =>
      cases second : replies.indexAccepted with
      | false =>
          -- the request node stays, and the sender is told `false`
          rw [allOrNothing_of_false _ fresh
            (by simp only [postRequest, slot, zone, writable, first, second]; rfl)]
          simpa [setValue] using set_request_ne fresh zoneid _ _ req
      | true =>
          cases counted : isCountable req.items with
          | false =>
              refine iff_of_false (not_allOrNothing_of_silent none ?_) (by simp)
              simp [postRequest, slot, zone, writable, first, second, counted]
          | true =>
              refine iff_of_true ⟨_, true, by
                simp only [postRequest, slot, zone, writable, first, second, counted]; rfl,
                rfl, ?_⟩ fun _ => ⟨rfl, rfl⟩
              intro transactions later started committed
              refine ⟨iff_of_true rfl ⟨uid, rfl, ?_⟩, fun reported => nomatch reported⟩
              exact stored_of_accepted database uid clock req replies (by rw [zone]) started
                committed

/-- The contract of `postRequest` holds exactly for a signed-in user and a slot
    in range, if the zone is not found or else nothing throws and the index entry
    is not rejected after the request node has been accepted. -/
theorem postRequest_allOrNothing_iff {database : Json} {currentUser : Option String}
    {clock : Clock} {req : Request} {replies : PostReplies} (fresh : FreshKeys database replies) :
    AllOrNothing database currentUser clock req replies ↔
      currentUser.isSome ∧ fitsInt (slotMillis clock req) ∧
        ((retrieveSubzone database currentUser).2 = true →
          isWritable (retrieveSubzone database currentUser).1 req.items = true ∧
          (replies.requestAccepted = true →
            replies.indexAccepted = true ∧ isCountable req.items = true)) := by
  cases currentUser with
  | none => exact iff_of_false (not_allOrNothing_of_silent (some database) rfl) (by simp)
  | some uid =>
      have slot := delSlotMillis_eq clock req
      by_cases fits : fitsInt (slotMillis clock req)
      · rw [if_pos fits] at slot
        simp only [Option.isSome_some, fits, true_and]
        cases zone : retrieveSubzone database (some uid) with
        | mk zoneid found =>
            cases found with
            | false =>
                rw [allOrNothing_of_false database fresh
                  (by simp [postRequest, slot, zone])]
                simp
            | true =>
                cases writable : isWritable zoneid req.items with
                | false =>
                    refine iff_of_false (not_allOrNothing_of_silent (some database) ?_) (by simp)
                    simp [postRequest, slot, zone, writable]
                | true =>
                    rw [allOrNothing_of_writable fresh fits zone writable]
                    simp
      · rw [if_neg fits] at slot
        refine iff_of_false (not_allOrNothing_of_silent none ?_) fun ⟨_, inRange, _⟩ => fits inRange
        simp [postRequest, slot]

section HalfWritten

private def amysZone : Json :=
  .obj [("elderly", .obj [("amy", .obj [("ZoneID", .str "north")])])]

private def amysRequest : Request :=
  { id := none, dateCreated := none, senderID := "amy", status := some "sent"
    delSlotStart := some 1611100800
    items := [{ id := "milk", name := "Milk", icon := "m", qty := 2, bgCol := "blue" }] }

private theorem amysKeys_fresh (first second : Bool) :
    FreshKeys amysZone ⟨"r1", "x1", first, second⟩ :=
  ⟨fun _ => Json.get_of_absent rfl _, fun _ _ => Json.get_of_absent rfl _⟩

private theorem amysSlot_fits : fitsInt (slotMillis ⟨1611000000, 1611014400⟩ amysRequest) := by
  have whole : rounded 1611100800 = 1611100800 := by norm_num [rounded]
  simp only [slotMillis, amysRequest, Option.getD_some, whole]
  decide

/-- Both writes accepted: the request and its index entry are there. -/
theorem postRequest_stores_both :
    AllOrNothing amysZone (some "amy") ⟨1611000000, 1611014400⟩ amysRequest
      ⟨"r1", "x1", true, true⟩ :=
  (postRequest_allOrNothing_iff (amysKeys_fresh true true)).mpr
    ⟨rfl, amysSlot_fits, by decide⟩

/-- The index entry is rejected: the sender hears `false`, the request stays. -/
theorem rejected_index_leaves_request :
    ¬ AllOrNothing amysZone (some "amy") ⟨1611000000, 1611014400⟩ amysRequest
      ⟨"r1", "x1", true, false⟩ := by
  have slot := delSlotMillis_eq ⟨1611000000, 1611014400⟩ amysRequest
  rw [if_pos amysSlot_fits] at slot
  rw [allOrNothing_of_false _ (amysKeys_fresh true false)
    (by simp only [postRequest, slot]; rfl)]
  exact set_request_ne (amysKeys_fresh true false) "north" _ _ amysRequest

end HalfWritten

end Kasei.Posting
