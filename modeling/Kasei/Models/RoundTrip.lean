import Mathlib.Tactic.Linarith
import Kasei.Models.Posting
import Kasei.Models.GetRequest

/-! # A posted request is read back

The encoder writes a dictionary of quantities and a slot in whole milliseconds;
the decoder reads both back through one catalogue read per key. The two formats
meet in `decodeHead_requestDictionary` and `content_requestDictionary`; the
order of the answers is left to the invariant of `getRequest`.
-/

namespace Kasei.RoundTrip

open JsonTree Runs FanIn Posting

section Encoding

variable {now : ℚ} {millis : Int} {req : Request}

theorem contentDictionary_ne_nil (nonempty : req.items ≠ [])
    (distinct : (req.items.map RequestItem.id).Nodup) : contentDictionary req.items ≠ [] := by
  rw [contentDictionary_of_distinct distinct]
  simpa using nonempty

theorem requestDictionary_eq (nonempty : contentDictionary req.items ≠ [])
    (keys : ∀ item ∈ req.items, isValidKey item.id = true) :
    requestDictionary now millis req = .obj
      [("dateCreated", .double now),
       ("content", .obj ((contentDictionary req.items).map fun e => (e.1, .int e.2))),
       ("delSlotStart", .int millis), ("senderID", .str req.senderID),
       ("status", .str (req.status.getD ""))] := by
  rw [requestDictionary, nodeFrom_of_keys keys]
  cases entries : contentDictionary req.items with
  | nil => exact absurd entries nonempty
  | cons first rest => rfl

theorem decodeHead_requestDictionary (key : String) :
    decodeHead ⟨key, requestDictionary now millis req⟩ =
      some ⟨key, now, req.senderID, req.status.getD "", millis / 1000⟩ := by
  rw [requestDictionary]
  generalize nodeFrom (contentDictionary req.items) = content
  cases empty : content.isEmpty with
  | true =>
      simp only [ofDictionary, List.filter_cons, empty]
      rfl
  | false =>
      simp only [ofDictionary, List.filter_cons, empty]
      rfl

theorem content_requestDictionary (nonempty : req.items ≠ [])
    (distinct : (req.items.map RequestItem.id).Nodup)
    (keys : ∀ item ∈ req.items, isValidKey item.id = true) (key : String) :
    (DataSnapshot.childSnapshot ⟨key, requestDictionary now millis req⟩ "content").children =
      req.items.map fun item => ⟨item.id, .int item.qty⟩ := by
  rw [requestDictionary_eq (contentDictionary_ne_nil nonempty distinct) keys]
  change (((contentDictionary req.items).map fun e => (e.1, Json.int e.2)).map
    fun entry => (⟨entry.1, entry.2⟩ : DataSnapshot)) = _
  simp [contentDictionary_of_distinct distinct]

end Encoding

/-- What has to agree between the request posted and the one read. -/
structure ReadsBack (req : Request) (slot : ℚ) (read : Request) : Prop where
  sender : read.senderID = req.senderID
  status : read.status = some (req.status.getD "")
  slot : read.delSlotStart = some (rounded slot : ℚ)
  items : (read.items.map fun item => (item.id, item.qty)).Perm
    (req.items.map fun item => (item.id, item.qty))

section Posted

variable {database later : Json} {currentUser : Option String} {clock : Clock} {req : Request}
  {replies : PostReplies} {posted : Posted} {slot : ℚ}

/-- The call gets as far as writing the request node. -/
structure Writes (database : Json) (currentUser : Option String) (req : Request)
    (replies : PostReplies) : Prop where
  signedIn : currentUser ≠ none
  found : (retrieveSubzone database currentUser).2 = true
  writable : isWritable (retrieveSubzone database currentUser).1 req.items = true
  accepted : replies.requestAccepted = true

theorem writes_of_succeeded
    (ran : postRequest database currentUser clock req replies = some posted)
    (succeeded : posted.completions = [true]) :
    Writes database currentUser req replies ∧ replies.indexAccepted = true ∧
      isCountable req.items = true := by
  cases currentUser with
  | none =>
      obtain rfl := Option.some.inj ran
      cases succeeded
  | some uid =>
      simp only [postRequest, Option.bind_eq_bind] at ran
      obtain ⟨millis, -, rest⟩ := Option.bind_eq_some_iff.mp ran
      split at rest
      · obtain rfl := Option.some.inj rest
        cases succeeded
      · rename_i zoneid zone
        split at rest
        · rename_i writable
          split at rest
          · rename_i accepted
            split at rest
            · rename_i indexed
              obtain ⟨countable, -⟩ := Option.ite_none_right_eq_some.mp rest
              exact ⟨⟨Option.some_ne_none uid, by rw [zone], by rw [zone]; exact writable, accepted⟩,
                indexed, countable⟩
            · obtain rfl := Option.some.inj rest
              cases succeeded
          · obtain rfl := Option.some.inj rest
            cases succeeded
        · obtain rfl := Option.some.inj rest
          cases succeeded

/-- What such a call does: unless the slot overflows, the request node is stored,
    and then the index decides. The counter loop may throw only after that. -/
theorem postRequest_of_writes (writes : Writes database currentUser req replies) :
    ∃ uid zoneid, (retrieveSubzone database currentUser).1 = zoneid ∧
      postRequest database currentUser clock req replies =
        if fitsInt (slotMillis clock req) ∧
            (replies.indexAccepted = true → isCountable req.items = true) then
          some {
            database := setValue
              (database.set (requestPath zoneid replies.requestKey)
                (requestDictionary clock.now (slotMillis clock req) req))
              (indexPath uid zoneid replies.indexKey) (.str replies.requestKey)
              replies.indexAccepted
            completions := [replies.indexAccepted]
            transactions :=
              if replies.indexAccepted then updateCounters req.items zoneid else [] }
        else none := by
  obtain ⟨signedIn, found, writable, accepted⟩ := writes
  obtain ⟨uid, rfl⟩ := Option.ne_none_iff_exists'.mp signedIn
  refine ⟨uid, _, rfl, ?_⟩
  simp only [postRequest, delSlotMillis_eq]
  by_cases fits : fitsInt (slotMillis clock req) = true
  · simp only [fits, if_true, true_and, Option.bind_eq_bind, Option.bind_some]
    split
    · rename_i zone
      rw [zone] at found
      cases found
    · rename_i zoneid zone
      rw [zone] at writable
      cases indexed : replies.indexAccepted with
      | true => simp [zone, writable, accepted, setValue]
      | false => simp [zone, writable, accepted, setValue]
  · simp [fits]

theorem postRequest_ne_none_iff (writes : Writes database currentUser req replies)
    (rejected : replies.indexAccepted = false) :
    postRequest database currentUser clock req replies ≠ none ↔
      fitsInt (slotMillis clock req) = true := by
  obtain ⟨uid, zoneid, -, called⟩ := postRequest_of_writes writes
  rw [called]
  cases fitsInt (slotMillis clock req) <;> simp [rejected]

/-- The request node is there also if the write of the index was rejected. -/
theorem request_stored (writes : Writes database currentUser req replies)
    (ran : postRequest database currentUser clock req replies = some posted) :
    posted.database.get
        (requestPath (retrieveSubzone database currentUser).1 replies.requestKey) =
      requestDictionary clock.now (slotMillis clock req) req := by
  obtain ⟨uid, zoneid, zone, called⟩ := postRequest_of_writes writes
  rw [called] at ran
  obtain ⟨-, same⟩ := Option.ite_none_right_eq_some.mp ran
  obtain rfl := Option.some.inj same
  have apart : Apart (indexPath uid zoneid replies.indexKey)
      (requestPath zoneid replies.requestKey) := .inl (by decide)
  rw [zone, setValue]
  split
  · rw [Json.get_set_of_apart _ apart, Json.get_set_self]
  · rw [Json.get_set_self]

theorem contentItems_quantities {languageCode : Option String} {items : List RequestItem}
    (decodable : ∀ item ∈ items, getRequestItem later languageCode item.id ≠ none) :
    (contentItems later languageCode (items.map fun item => ⟨item.id, .int item.qty⟩)).map
        (fun item => (item.id, item.qty)) = items.map fun item => (item.id, item.qty) := by
  induction items with
  | nil => rfl
  | cons item rest ih =>
      obtain ⟨decoded, found⟩ := Option.ne_none_iff_exists'.mp (decodable item List.mem_cons_self)
      have here : contentItem later languageCode ⟨item.id, .int item.qty⟩ =
          some { decoded with qty := item.qty } := by
        simp [contentItem, found, asInt]
      have others := ih fun other member => decodable other (List.mem_cons_of_mem item member)
      simp only [contentItems, List.map_cons, List.filterMap_cons_some here,
        (getRequestItem_fresh found).1] at others ⊢
      rw [others]

theorem keys_of_succeeded
    (ran : postRequest database currentUser clock req replies = some posted)
    (succeeded : posted.completions = [true]) : ∀ item ∈ req.items, isValidKey item.id = true := by
  obtain ⟨writes, -, countable⟩ := writes_of_succeeded ran succeeded
  exact (passes_iff.mp ⟨writes.writable, countable⟩).2

theorem requestNode_posted
    (ran : postRequest database currentUser clock req replies = some posted)
    (succeeded : posted.completions = [true]) (planned : req.delSlotStart = some slot)
    (kept : later.get (requestPath (retrieveSubzone database currentUser).1 replies.requestKey) =
      posted.database.get
        (requestPath (retrieveSubzone database currentUser).1 replies.requestKey)) :
    (requestNode later (retrieveSubzone database currentUser).1 replies.requestKey).value =
      requestDictionary clock.now (rounded slot * 1000) req := by
  have planning : slotMillis clock req = rounded slot * 1000 := by
    rw [slotMillis, planned, Option.getD_some]
  rw [request_stored (writes_of_succeeded ran succeeded).1 ran, planning] at kept
  exact kept

theorem contentOf_posted {zoneID id : String} (nonempty : req.items ≠ [])
    (distinct : (req.items.map RequestItem.id).Nodup)
    (keys : ∀ item ∈ req.items, isValidKey item.id = true)
    (node : (requestNode later zoneID id).value =
      requestDictionary clock.now (rounded slot * 1000) req) :
    contentOf later zoneID id = req.items.map fun item => ⟨item.id, .int item.qty⟩ := by
  rw [contentOf, DataSnapshot.childSnapshot, node]
  exact content_requestDictionary nonempty distinct keys ""

theorem decodeHead_of_posted {zoneID id : String} {millis : Int}
    (node : (requestNode later zoneID id).value = requestDictionary clock.now millis req) :
    decodeHead (requestNode later zoneID id) = some ⟨(requestNode later zoneID id).key, clock.now,
      req.senderID, req.status.getD "", millis / 1000⟩ := by
  have decoded : ∀ key, decodeHead ⟨key, requestDictionary clock.now millis req⟩ =
      some ⟨key, clock.now, req.senderID, req.status.getD "", millis / 1000⟩ :=
    decodeHead_requestDictionary
  rw [← decoded, ← node]

/-- A request that reads as its node says agrees with the one posted. -/
theorem readsBack_of_requestFor {languageCode : Option String} {zoneID id : String}
    {read : Request} (nonempty : req.items ≠ [])
    (distinct : (req.items.map RequestItem.id).Nodup)
    (keys : ∀ item ∈ req.items, isValidKey item.id = true)
    (node : (requestNode later zoneID id).value =
      requestDictionary clock.now (rounded slot * 1000) req)
    (decodable : ∀ item ∈ req.items, getRequestItem later languageCode item.id ≠ none)
    (fits : RequestFor later languageCode zoneID id read) : ReadsBack req slot read := by
  obtain ⟨head, decoded, shape, items⟩ := fits
  rw [decodeHead_of_posted node] at decoded
  obtain rfl := Option.some.inj decoded
  rw [contentOf_posted nonempty distinct keys node] at items
  have quantities := items.map fun item => (item.id, item.qty)
  rw [contentItems_quantities decodable] at quantities
  rw [shape]
  refine ⟨rfl, rfl, ?_, quantities⟩
  simp [RequestHead.request]

theorem delivered_of_idle {languageCode : Option String} {zoneID id : String}
    {call : GetRequest} (nonempty : req.items ≠ [])
    (distinct : (req.items.map RequestItem.id).Nodup)
    (keys : ∀ item ∈ req.items, isValidKey item.id = true)
    (node : (requestNode later zoneID id).value =
      requestDictionary clock.now (rounded slot * 1000) req)
    (decodable : ∀ item ∈ req.items, getRequestItem later languageCode item.id ≠ none)
    (sound : call.Sound later languageCode zoneID id) (idle : call.work later = 0) :
    ∃ read, deliveries GetRequest.finished GetRequest.result call = [some read] ∧
      ReadsBack req slot read := by
  have filled : contentOf later zoneID id ≠ [] := by
    simpa [contentOf_posted nonempty distinct keys node] using nonempty
  have done := sound.finished_iff.mpr ⟨idle, .inr filled⟩
  obtain ⟨missing, -⟩ | ⟨read, result, fits⟩ := sound.result_spec done
  · rw [decodeHead_of_posted node] at missing
    cases missing
  · exact ⟨read, by simp [deliveries, done, result],
      readsBack_of_requestFor nonempty distinct keys node decodable fits⟩

/-- Whatever the order of the answers, the call waits without delivering, can
    always be brought to its end, and has then delivered the request once. -/
theorem getRequest_reads_back (languageCode : Option String)
    (ran : postRequest database currentUser clock req replies = some posted)
    (succeeded : posted.completions = [true]) (planned : req.delSlotStart = some slot)
    (nonempty : req.items ≠ []) (distinct : (req.items.map RequestItem.id).Nodup)
    (kept : later.get (requestPath (retrieveSubzone database currentUser).1 replies.requestKey) =
      posted.database.get
        (requestPath (retrieveSubzone database currentUser).1 replies.requestKey))
    (decodable : ∀ item ∈ req.items, getRequestItem later languageCode item.id ≠ none)
    (events : List RequestEvent) :
    ∃ call deliveries,
      run (recording (GetRequest.step later languageCode))
          (getRequest (retrieveSubzone database currentUser).1 replies.requestKey, []) events =
        some (call, deliveries) ∧
      (call.work later ≠ 0 → deliveries = []) ∧
      (call.work later = 0 → ∃ read, deliveries = [some read] ∧ ReadsBack req slot read) ∧
      ∃ rest final read,
        run (recording (GetRequest.step later languageCode)) (call, deliveries) rest =
          some (final, [some read]) ∧
        final.work later = 0 ∧ ReadsBack req slot read := by
  have node := requestNode_posted ran succeeded planned kept
  have keys := keys_of_succeeded ran succeeded
  generalize (retrieveSubzone database currentUser).1 = zoneID at node ⊢
  have quantities : IntegerQuantities later zoneID replies.requestKey := by
    intro childSnap member
    rw [contentOf_posted nonempty distinct keys node] at member
    obtain ⟨item, -, rfl⟩ := List.mem_map.mp member
    simp [asInt]
  have start : (getRequest zoneID replies.requestKey).Sound later languageCode zoneID
      replies.requestKey := ⟨rfl, rfl⟩
  have delivered : ∀ call : GetRequest,
      call.Sound later languageCode zoneID replies.requestKey → call.work later = 0 →
      ∃ read, deliveries GetRequest.finished GetRequest.result call = [some read] ∧
        ReadsBack req slot read := fun _ => delivered_of_idle nonempty distinct keys node decodable
  obtain ⟨call, reached, sound⟩ :=
    recording_total (fun _ event held => GetRequest.step_spec quantities held event) start events
  refine ⟨call, _, reached, ?_, delivered call sound, ?_⟩
  · intro busy
    have waiting : call.finished ≠ true := fun done => busy (sound.finished_iff.mp done).1
    simp [deliveries, waiting]
  · obtain ⟨rest, final, ended, last, idle⟩ := recording_to_rest
      (fun _ event held => GetRequest.step_spec quantities held event)
      (fun _ held busy => GetRequest.progress held busy) sound
    obtain ⟨read, brought, agrees⟩ := delivered final last idle
    rw [brought] at ended
    exact ⟨rest, final, read, ended, idle, agrees⟩

end Posted

section Example

private def catalogueNode (name : String) : Json :=
  .obj [("name", .str name), ("icon", .str "box"), ("bgCol", .str "blue")]

private def bensZone : Json :=
  .obj [("elderly", .obj [("ben", .obj [("ZoneID", .str "north")])]),
    ("items", .obj [("milk", catalogueNode "Milk"), ("rice", catalogueNode "Rice")])]

private def bensRequest : Request :=
  { id := none, dateCreated := none, senderID := "ben", status := none
    delSlotStart := some (3222201601 / 2)
    items := [{ id := "milk", name := "Milk", icon := "box", qty := 2, bgCol := "blue" },
      { id := "rice", name := "Rice", icon := "box", qty := 1, bgCol := "blue" }] }

private theorem bensSlot : delSlotMillis bensRequest.delSlotStart 1611014400 =
    some 1611100801000 := by
  have whole : rounded (3222201601 / 2) = 1611100801 := by norm_num [rounded]
  simp only [delSlotMillis, bensRequest, Option.getD_some, whole]
  rfl

/-- No status, and a slot on a half second. -/
theorem getRequest_reads_back_half_second :
    ∃ posted, postRequest bensZone (some "ben") ⟨1611000000, 1611014400⟩ bensRequest
        ⟨"r1", "x1", true, true⟩ = some posted ∧
      ∃ events final read,
        run (recording (GetRequest.step posted.database none)) (getRequest "north" "r1", [])
            events = some (final, [some read]) ∧
        final.work posted.database = 0 ∧ ReadsBack bensRequest (3222201601 / 2) read := by
  obtain ⟨posted, ran, succeeded, stored⟩ : ∃ posted,
      postRequest bensZone (some "ben") ⟨1611000000, 1611014400⟩ bensRequest
        ⟨"r1", "x1", true, true⟩ = some posted ∧ posted.completions = [true] ∧
      ∀ item ∈ bensRequest.items, getRequestItem posted.database none item.id ≠ none := by
    refine ⟨_, by simp only [postRequest, bensSlot]; rfl, rfl, ?_⟩
    decide
  obtain ⟨call, deliveries, reached, -, -, delivered⟩ :=
    getRequest_reads_back none ran succeeded rfl (by decide) (by decide) rfl stored []
  obtain ⟨rfl, rfl⟩ := Prod.mk.inj (Option.some.inj reached)
  exact ⟨posted, ran, delivered⟩

end Example

/-! ## The unit of the slot

A chosen slot is rounded in seconds and stored in milliseconds. The default slot
is taken to milliseconds first, and then scaled with the others once more. -/

section Rounding

theorem abs_rounded_sub_le (value : ℚ) : |(rounded value : ℚ) - value| ≤ 1 / 2 := by
  unfold rounded
  rw [abs_le]
  split
  · have below := Int.floor_le (value + 1 / 2)
    have above := Int.lt_floor_add_one (value + 1 / 2)
    constructor <;> linarith
  · have below := Int.ceil_lt_add_one (value - 1 / 2)
    have above := Int.le_ceil (value - 1 / 2)
    constructor <;> linarith

/-- Halves are rounded away from zero, so the bound on the value is strict. -/
theorem abs_rounded_le_iff (value : ℚ) (n : Int) :
    |rounded value| ≤ n ↔ |value| < n + 1 / 2 := by
  unfold rounded
  split
  · rename_i sign
    have whole : 0 ≤ ⌊value + 1 / 2⌋ := Int.floor_nonneg.mpr (by linarith)
    rw [abs_of_nonneg whole, abs_of_nonneg sign, ← Int.lt_add_one_iff, Int.floor_lt]
    push_cast
    constructor <;> intro bound <;> linarith
  · rename_i sign
    rw [not_le] at sign
    have whole : ⌈value - 1 / 2⌉ ≤ 0 := Int.ceil_le.mpr (by push_cast; linarith)
    rw [abs_of_nonpos whole, abs_of_neg sign, neg_le, ← Int.sub_one_lt_iff, Int.lt_ceil]
    push_cast
    constructor <;> intro bound <;> linarith

end Rounding

/-- The slot that the request asks for. -/
def chosenSlot (clock : Clock) (req : Request) : ℚ := req.delSlotStart.getD clock.defaultSlot

/-- A rejected entry leaves the tree as it is between the replies to the two writes. -/
def unindexed (replies : PostReplies) : PostReplies :=
  { replies with indexAccepted := false }

/-- The call stores a slot that is read back within half a second of the chosen
    one, before the reply to the index write and after it. -/
def KeepsSlot (database : Json) (currentUser : Option String) (clock : Clock) (req : Request)
    (replies : PostReplies) : Prop :=
  let read := fun posted : Posted => decodeHead (requestNode posted.database
    (retrieveSubzone database currentUser).1 replies.requestKey)
  ∃ written head, postRequest database currentUser clock req (unindexed replies) = some written ∧
    read written = some head ∧ |head.delSlotStart - chosenSlot clock req| ≤ 1 / 2 ∧
    ∀ posted, postRequest database currentUser clock req replies = some posted →
      read posted = some head

section Slots

variable {database : Json} {currentUser : Option String} {clock : Clock} {req : Request}
  {replies : PostReplies}

theorem keepsSlot_iff_millis (writes : Writes database currentUser req replies) :
    KeepsSlot database currentUser clock req replies ↔
      fitsInt (slotMillis clock req) = true ∧
        |(slotMillis clock req : ℚ) / 1000 - chosenSlot clock req| ≤ 1 / 2 := by
  have early : Writes database currentUser req (unindexed replies) :=
    ⟨writes.signedIn, writes.found, writes.writable, writes.accepted⟩
  have decoded : ∀ {after posted}, Writes database currentUser req after →
      after.requestKey = replies.requestKey →
      postRequest database currentUser clock req after = some posted →
      decodeHead (requestNode posted.database (retrieveSubzone database currentUser).1
        replies.requestKey) = some ⟨(requestNode database
          (retrieveSubzone database currentUser).1 replies.requestKey).key, clock.now,
          req.senderID, req.status.getD "", slotMillis clock req / 1000⟩ := by
    intro after posted there same ran
    rw [← same]
    exact decodeHead_of_posted (request_stored there ran)
  constructor
  · rintro ⟨written, head, ran, read, near, -⟩
    refine ⟨(postRequest_ne_none_iff early rfl).mp (by simp [ran]), ?_⟩
    obtain rfl := Option.some.inj (read.symm.trans (decoded early rfl ran))
    exact near
  · rintro ⟨fits, near⟩
    obtain ⟨written, ran⟩ :=
      Option.ne_none_iff_exists'.mp ((postRequest_ne_none_iff early rfl).mpr fits)
    exact ⟨written, _, ran, decoded early rfl ran, near, fun posted => decoded writes rfl⟩

/-- 2⁶³ milliseconds are 9223372036854775 seconds and a fraction. -/
theorem fitsInt_seconds_iff (whole : Int) :
    fitsInt (whole * 1000) = true ↔ |whole| ≤ 9223372036854775 := by
  simp only [fitsInt, Bool.and_eq_true, decide_eq_true_eq, abs_le]
  omega

theorem rounded_thousandfold_eq_zero_iff (slot : ℚ) :
    rounded (slot * 1000) = 0 ↔ |slot| < 1 / 2000 := by
  have small := abs_rounded_le_iff (slot * 1000) 0
  rw [abs_nonpos_iff, abs_mul, abs_of_pos (by norm_num : (0 : ℚ) < 1000)] at small
  rw [small]
  push_cast
  constructor <;> intro bound <;> linarith

/-- A time and its thousandfold are near only where both round to zero. -/
theorem near_thousandfold_iff (slot : ℚ) :
    |(rounded (slot * 1000) : ℚ) - slot| ≤ 1 / 2 ↔ |slot| < 1 / 2000 := by
  rw [← rounded_thousandfold_eq_zero_iff]
  have moved := abs_rounded_sub_le (slot * 1000)
  generalize rounded (slot * 1000) = whole at moved ⊢
  rw [abs_le] at moved ⊢
  constructor
  · intro near
    -- a whole number other than zero is too far from its thousandth
    have low : (-1 : ℚ) < whole := by linarith
    have high : (whole : ℚ) < 1 := by linarith
    have low' : -1 < whole := by exact_mod_cast low
    have high' : whole < 1 := by exact_mod_cast high
    omega
  · rintro rfl
    push_cast at *
    constructor <;> linarith

/-- A slot of the request's own is kept unless it overflows; the default slot is
    not, unless it is the start of 1970. -/
theorem keepsSlot_iff (writes : Writes database currentUser req replies) :
    KeepsSlot database currentUser clock req replies ↔
      (∃ slot, req.delSlotStart = some slot ∧ |slot| < 18446744073709551 / 2) ∨
        req.delSlotStart = none ∧ |clock.defaultSlot| < 1 / 2000 := by
  rw [keepsSlot_iff_millis writes, slotMillis, chosenSlot, fitsInt_seconds_iff]
  push_cast
  rw [mul_div_cancel_right₀ _ (by norm_num : (1000 : ℚ) ≠ 0)]
  cases planned : req.delSlotStart with
  | some slot =>
      have bound := abs_rounded_le_iff slot 9223372036854775
      norm_num at bound
      simp only [Option.getD_some, abs_rounded_sub_le, and_true, Option.some.injEq, exists_eq_left',
        reduceCtorEq, false_and, or_false]
      exact bound
  | none =>
      simp only [Option.getD_none, near_thousandfold_iff, reduceCtorEq, false_and, exists_false,
        false_or, true_and, and_iff_right_iff_imp]
      intro start
      rw [(rounded_thousandfold_eq_zero_iff clock.defaultSlot).mpr start]
      decide

end Slots

section Example

private theorem ben_writes (delSlotStart : Option ℚ) (indexAccepted : Bool) :
    Writes bensZone (some "ben") { bensRequest with delSlotStart := delSlotStart }
      ⟨"r1", "x1", true, indexAccepted⟩ :=
  ⟨Option.some_ne_none _, rfl, rfl, rfl⟩

/-- The slot on a half second; the write of the index is rejected. -/
theorem keepsSlot_iff_half_second : KeepsSlot bensZone (some "ben") ⟨1611000000, 1611014400⟩
    bensRequest ⟨"r1", "x1", true, false⟩ :=
  (keepsSlot_iff (ben_writes _ false)).mpr (.inl ⟨_, rfl, by norm_num [abs_of_pos]⟩)

/-- Without a slot, 8 o'clock on 19 January 2021 is read back a thousand times as
    far from 1970. -/
theorem default_slot_is_not_kept : ¬ KeepsSlot bensZone (some "ben") ⟨1611000000, 1611014400⟩
    { bensRequest with delSlotStart := none } ⟨"r1", "x1", true, true⟩ := by
  rw [keepsSlot_iff_millis (ben_writes _ true)]
  rintro ⟨-, near⟩
  have whole : rounded (1611014400 * 1000) = 1611014400000 := by norm_num [rounded]
  simp only [slotMillis, chosenSlot, Option.getD_none, whole] at near
  norm_num [abs_of_pos] at near

end Example

end Kasei.RoundTrip
