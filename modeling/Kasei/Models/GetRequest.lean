import Kasei.Lib.FanIn
import Kasei.Models.RequestItem

/-! # Reading a request

`getRequest` reads the request node and hands its content to `getAllItems`,
whose loop starts one catalogue read per child. Calls are states: the captured
variables, the children the loop has not reached, and the reads that are not
answered. An event is one turn of a loop or one answer, so a list of events is
an interleaving, answers during the loop included. An event that names no
outstanding read changes nothing; `none` is a trap.
-/

namespace Kasei

open JsonTree FanIn

/-- `returned` records that `onComplete` has been called. -/
structure GetAllItems where
  items : List RequestItem
  counter : Nat
  ahead : List DataSnapshot
  outstanding : List DataSnapshot
  returned : Bool
  deriving Repr

def getAllItems (snap : DataSnapshot) : GetAllItems :=
  ⟨[], snap.childrenCount, snap.children, [], false⟩

inductive ItemEvent where
  | turn
  | answer (read : Nat)
  deriving Repr, DecidableEq

/-- The closure around one `getRequestItem`: the decoded item with the quantity
    of its own child, which is cast by force. -/
def appendItem (database : Json) (languageCode : Option String) (items : List RequestItem)
    (childSnap : DataSnapshot) : Option (List RequestItem) :=
  match getRequestItem database languageCode childSnap.key with
  | some i => (asInt childSnap.value).map fun qty => items ++ [{ i with qty := qty }]
  | none => some items

/-- The call after one event, and the list `onComplete` receives if it is called. -/
def GetAllItems.step (database : Json) (languageCode : Option String) (call : GetAllItems) :
    ItemEvent → Option (GetAllItems × Option (List RequestItem))
  | .turn =>
      match call.ahead with
      | [] => some (call, none)
      | childSnap :: rest =>
          some ({ call with ahead := rest, outstanding := call.outstanding ++ [childSnap] }, none)
  | .answer read =>
      match call.outstanding[read]? with
      | none => some (call, none)
      | some childSnap => do
          let items ← appendItem database languageCode call.items childSnap
          let counter ← decrement call.counter
          let waiting := { call with
            items := items, counter := counter, outstanding := call.outstanding.eraseIdx read }
          if counter = 0 then return ({ waiting with returned := true }, some items)
          else return (waiting, none)

structure RequestHead where
  id : String
  dateCreated : ℚ
  senderID : String
  status : String
  delSlotStart : ℚ
  deriving Repr, DecidableEq

/-- The four guards of `getRequest`. The slot is stored in milliseconds. -/
def decodeHead (snapshot : DataSnapshot) : Option RequestHead := do
  let dateCreatedSeconds ← asDouble (snapshot.childSnapshot "dateCreated").value
  let senderID ← asString (snapshot.childSnapshot "senderID").value
  let status ← asString (snapshot.childSnapshot "status").value
  let delSlotStart ← asInt (snapshot.childSnapshot "delSlotStart").value
  return {
    id := snapshot.key, dateCreated := dateCreatedSeconds, senderID := senderID
    status := status, delSlotStart := delSlotStart / 1000 }

theorem decodeHead_spec {snapshot : DataSnapshot} {head : RequestHead}
    (decoded : decodeHead snapshot = some head) :
    head.id = snapshot.key ∧ asString (snapshot.childSnapshot "status").value = head.status := by
  simp only [decodeHead, Option.bind_eq_bind, Option.bind_eq_some_iff] at decoded
  obtain ⟨_, -, _, -, status, known, _, -, last⟩ := decoded
  obtain rfl := Option.some.inj last
  exact ⟨rfl, known⟩

def RequestHead.request (head : RequestHead) (items : List RequestItem) : Request where
  id := head.id
  dateCreated := head.dateCreated
  senderID := head.senderID
  status := head.status
  delSlotStart := head.delSlotStart
  items := items

/-- What is read for a request whose path `child:` has taken. -/
def requestNode (database : Json) (zoneID id : String) : DataSnapshot :=
  snapshotAt database (requestPath zoneID id)

theorem requestNode_key (database : Json) (zoneID : String) {id : String}
    (valid : isValidKey id = true) : (requestNode database zoneID id).key = id := by
  have path : requestPath zoneID id = ("requests" :: pieces zoneID) ++ [id] := by
    rw [requestPath, pieces_of_key valid, List.cons_append]
  calc (requestNode database zoneID id).key
      = (("requests" :: pieces zoneID) ++ [id]).getLastD "" := congrArg (List.getLastD · "") path
    _ = id := List.getLastD_concat

theorem requestNode_congr {database after : Json} {zoneID id : String}
    (same : after.get (requestPath zoneID id) = database.get (requestPath zoneID id)) :
    requestNode after zoneID id = requestNode database zoneID id :=
  congrArg (DataSnapshot.mk _) same

inductive GetRequest where
  | reading (zoneID id : String)
  | missing
  | gathering (head : RequestHead) (call : GetAllItems)
  deriving Repr

def getRequest (zoneID id : String) : GetRequest := .reading zoneID id

inductive RequestEvent where
  | node
  | content (event : ItemEvent)
  deriving Repr, DecidableEq

/-- As for `getAllItems`; what `onComplete` receives is itself optional. -/
def GetRequest.step (database : Json) (languageCode : Option String) :
    GetRequest → RequestEvent → Option (GetRequest × Option (Option Request))
  | .reading zoneID id, .node =>
      let snapshot := requestNode database zoneID id
      match decodeHead snapshot with
      | none => some (.missing, some none)
      | some head =>
          some (.gathering head (getAllItems (snapshot.childSnapshot "content")), none)
  | .gathering head call, .content event => do
      let (call, delivered) ← call.step database languageCode event
      return (.gathering head call, delivered.map fun items => some (head.request items))
  | call, _ => some (call, none)

def GetRequest.finished : GetRequest → Bool
  | .reading _ _ => false
  | .missing => true
  | .gathering _ call => call.returned

def GetRequest.result : GetRequest → Option Request
  | .gathering head call => if call.returned then some (head.request call.items) else none
  | _ => none

/-- What is still to happen to a call: turns of its loop and answers. -/
def GetAllItems.work (call : GetAllItems) : Nat := 2 * call.ahead.length + call.outstanding.length

def contentOf (database : Json) (zoneID id : String) : List DataSnapshot :=
  ((requestNode database zoneID id).childSnapshot "content").children

def GetRequest.work (database : Json) : GetRequest → Nat
  | .reading zoneID id => 1 + 2 * (contentOf database zoneID id).length
  | .missing => 0
  | .gathering _ call => call.work

/-- The item a content entry stands for, if its catalogue node decodes. -/
def contentItem (database : Json) (languageCode : Option String) (childSnap : DataSnapshot) :
    Option RequestItem := do
  let i ← getRequestItem database languageCode childSnap.key
  let qty ← asInt childSnap.value
  return { i with qty := qty }

def contentItems (database : Json) (languageCode : Option String) (content : List DataSnapshot) :
    List RequestItem :=
  content.filterMap (contentItem database languageCode)

/-- A content entry whose quantity is an integer, if it is looked at. -/
def Castable (database : Json) (languageCode : Option String) (childSnap : DataSnapshot) : Prop :=
  getRequestItem database languageCode childSnap.key ≠ none → asInt childSnap.value ≠ none

section Items

variable {database : Json} {languageCode : Option String}

theorem appendItem_some {items after : List RequestItem} {childSnap : DataSnapshot}
    (appended : appendItem database languageCode items childSnap = some after) :
    after = items ++ (contentItem database languageCode childSnap).toList := by
  unfold appendItem at appended
  unfold contentItem
  cases found : getRequestItem database languageCode childSnap.key with
  | none =>
      rw [found] at appended
      obtain rfl := Option.some.inj appended
      simp
  | some i =>
      rw [found] at appended
      obtain ⟨qty, cast, rfl⟩ := Option.map_eq_some_iff.mp appended
      simp [cast]

/-- The forced cast of the quantity is reached only when the item decodes. -/
theorem appendItem_eq_none_iff {items : List RequestItem} {childSnap : DataSnapshot} :
    appendItem database languageCode items childSnap = none ↔
      ¬ Castable database languageCode childSnap := by
  unfold appendItem Castable
  cases getRequestItem database languageCode childSnap.key with
  | none => simp
  | some i => simp

/-- The invariant of `getAllItems` on the children of a content node. -/
structure GetAllItems.Sound (database : Json) (languageCode : Option String)
    (content : List DataSnapshot) (call : GetAllItems) : Prop where
  counted : call.counter = call.ahead.length + call.outstanding.length
  within : ∀ childSnap ∈ call.ahead ++ call.outstanding, childSnap ∈ content
  gathered :
    (call.items ++ contentItems database languageCode (call.outstanding ++ call.ahead)).Perm
      (contentItems database languageCode content)
  returned_iff : call.returned = true ↔ content ≠ [] ∧ call.work = 0
  cast : ∀ childSnap ∈ content, childSnap ∈ call.ahead ++ call.outstanding ∨
    Castable database languageCode childSnap

theorem getAllItems_sound (snap : DataSnapshot) :
    (getAllItems snap).Sound database languageCode snap.children where
  counted := rfl
  within := by simp [getAllItems]
  gathered := by simp [getAllItems]
  returned_iff := by simp [getAllItems, GetAllItems.work]
  cast := fun childSnap member => .inl (by simpa [getAllItems] using member)

variable {content : List DataSnapshot} {call : GetAllItems}

theorem GetAllItems.Sound.waiting (sound : call.Sound database languageCode content)
    (busy : call.work ≠ 0) : call.returned = false := by
  cases flag : call.returned with
  | false => rfl
  | true => exact absurd (sound.returned_iff.mp flag).2 busy

theorem GetAllItems.Sound.turn (sound : call.Sound database languageCode content)
    {childSnap : DataSnapshot} {rest : List DataSnapshot} (next : call.ahead = childSnap :: rest) :
    GetAllItems.Sound database languageCode content
      { call with ahead := rest, outstanding := call.outstanding ++ [childSnap] } where
  counted := by
    have counted := sound.counted
    simp only [next, List.length_cons, List.length_append, List.length_nil] at counted ⊢
    omega
  within := by
    intro other member
    apply sound.within other
    simp only [next, List.mem_append, List.mem_cons] at member ⊢
    tauto
  gathered := by simpa [next] using sound.gathered
  returned_iff := by
    have busy : call.work ≠ 0 := by simp [work, next]
    simp [sound.waiting busy, work]
  cast := by
    intro other member
    apply (sound.cast other member).imp_left
    intro waits
    simp only [next, List.mem_append, List.mem_cons] at waits ⊢
    tauto

/-- The read answered is one of those the counter stands for, and what it
    brings moves from the outstanding reads to the items. -/
theorem GetAllItems.Sound.answer (sound : call.Sound database languageCode content)
    {read counter : Nat} {childSnap : DataSnapshot}
    (asked : call.outstanding[read]? = some childSnap) (counted : call.counter = counter + 1)
    (castable : Castable database languageCode childSnap) :
    GetAllItems.Sound database languageCode content
      { call with
        items := call.items ++ (contentItem database languageCode childSnap).toList
        counter := counter, outstanding := call.outstanding.eraseIdx read
        returned := decide (counter = 0) } := by
  obtain ⟨inside, rfl⟩ := List.getElem?_eq_some_iff.mp asked
  have length := List.length_eraseIdx_of_lt inside
  have total := sound.counted
  have nonempty : content ≠ [] :=
    List.ne_nil_of_mem (sound.within _ (List.mem_append_right _ (List.getElem_mem inside)))
  refine ⟨?_, ?_, ?_, ?_, ?_⟩
  · simp only
    omega
  · intro other member
    apply sound.within other
    simp only [List.mem_append] at member ⊢
    exact member.imp_right List.mem_of_mem_eraseIdx
  · have moved := ((List.getElem_cons_eraseIdx_perm inside).append_right call.ahead).filterMap
      (contentItem database languageCode)
    refine List.Perm.trans ?_ sound.gathered
    rw [List.append_assoc]
    apply List.Perm.append_left
    refine List.Perm.trans (.of_eq ?_) moved
    simp only [contentItems, List.cons_append, List.filterMap_cons]
    cases contentItem database languageCode call.outstanding[read] with
    | none => rfl
    | some item => rfl
  · simp only [decide_eq_true_eq, work, nonempty, ne_eq, not_false_eq_true, true_and]
    omega
  · intro other member
    obtain waits | cast := sound.cast other member
    · by_cases same : other = call.outstanding[read]
      · exact .inr (same ▸ castable)
      · refine .inl ?_
        have moved := (List.getElem_cons_eraseIdx_perm inside).mem_iff (a := other)
        simp only [List.mem_append, List.mem_cons] at waits moved ⊢
        exact waits.imp_right fun here => (moved.mpr here).resolve_left same
    · exact .inr cast

theorem GetAllItems.Sound.counter_pos (sound : call.Sound database languageCode content)
    {read : Nat} {childSnap : DataSnapshot} (asked : call.outstanding[read]? = some childSnap) :
    ∃ counter, call.counter = counter + 1 := by
  have inside := (List.getElem?_eq_some_iff.mp asked).1
  have total := sound.counted
  exact ⟨call.counter - 1, by omega⟩

theorem GetAllItems.step_sound (sound : call.Sound database languageCode content)
    {event : ItemEvent} {after : GetAllItems} {delivered : Option (List RequestItem)}
    (taken : call.step database languageCode event = some (after, delivered)) :
    after.Sound database languageCode content ∧
      Outcome GetAllItems.returned GetAllItems.items call after delivered := by
  cases event with
  | turn =>
      cases next : call.ahead with
      | nil =>
          simp only [step, next, Option.some.injEq, Prod.mk.injEq] at taken
          obtain ⟨rfl, rfl⟩ := taken
          exact ⟨sound, .refl call⟩
      | cons childSnap rest =>
          simp only [step, next, Option.some.injEq, Prod.mk.injEq] at taken
          obtain ⟨rfl, rfl⟩ := taken
          exact ⟨sound.turn next, .inl ⟨rfl, rfl, fun _ => rfl⟩⟩
  | answer read =>
      cases asked : call.outstanding[read]? with
      | none =>
          simp only [step, asked, Option.some.injEq, Prod.mk.injEq] at taken
          obtain ⟨rfl, rfl⟩ := taken
          exact ⟨sound, .refl call⟩
      | some childSnap =>
          obtain ⟨counter, counted⟩ := sound.counter_pos asked
          have waiting : call.returned = false := by
            have inside := (List.getElem?_eq_some_iff.mp asked).1
            apply sound.waiting
            simp only [work]
            omega
          simp only [step, asked, counted, decrement, Option.bind_eq_bind,
            Option.bind_eq_some_iff] at taken
          obtain ⟨items, appended, _, ⟨⟩, rest⟩ := taken
          have castable : Castable database languageCode childSnap := by
            by_contra trap
            rw [appendItem_eq_none_iff.mpr trap] at appended
            cases appended
          obtain rfl := appendItem_some appended
          have kept := sound.answer asked counted castable
          split at rest
          · rename_i last
            rw [decide_eq_true last] at kept
            obtain ⟨rfl, rfl⟩ := Prod.mk.inj (Option.some.inj rest)
            exact ⟨kept, .inr ⟨waiting, rfl, rfl⟩⟩
          · rename_i last
            rw [decide_eq_false last] at kept
            rw [waiting] at rest
            obtain ⟨rfl, rfl⟩ := Prod.mk.inj (Option.some.inj rest)
            exact ⟨kept, .waiting waiting rfl⟩

/-- No event traps but the answer to a read whose quantity is no integer. -/
theorem GetAllItems.step_total (sound : call.Sound database languageCode content)
    (castable : ∀ childSnap ∈ content, Castable database languageCode childSnap)
    (event : ItemEvent) :
    ∃ after delivered, call.step database languageCode event = some (after, delivered) := by
  cases event with
  | turn =>
      cases next : call.ahead with
      | nil => exact ⟨call, none, by simp [step, next]⟩
      | cons childSnap rest => exact ⟨_, none, by simp only [step, next]; rfl⟩
  | answer read =>
      cases asked : call.outstanding[read]? with
      | none => exact ⟨call, none, by simp [step, asked]⟩
      | some childSnap =>
          obtain ⟨counter, counted⟩ := sound.counter_pos asked
          have cast := castable childSnap
            (sound.within _ (List.mem_append_right _ (List.mem_of_getElem? asked)))
          obtain ⟨items, appended⟩ := Option.ne_none_iff_exists'.mp
            (fun none => appendItem_eq_none_iff.mp none cast :
              appendItem database languageCode call.items childSnap ≠ none)
          simp only [step, asked, appended, counted, decrement, Option.bind_eq_bind,
            Option.bind_some]
          split
          · exact ⟨_, _, rfl⟩
          · exact ⟨_, _, rfl⟩

theorem GetAllItems.progress (database : Json) (languageCode : Option String)
    (busy : call.work ≠ 0) :
    ∃ event, ∀ after delivered, call.step database languageCode event = some (after, delivered) →
      after.work < call.work := by
  cases next : call.ahead with
  | cons childSnap rest =>
      refine ⟨.turn, fun after delivered taken => ?_⟩
      simp only [step, next, Option.some.injEq, Prod.mk.injEq] at taken
      obtain ⟨rfl, -⟩ := taken
      simp only [work, next, List.length_append, List.length_cons, List.length_nil]
      omega
  | nil =>
      cases waiting : call.outstanding with
      | nil => simp [work, next, waiting] at busy
      | cons childSnap rest =>
          refine ⟨.answer 0, fun after delivered taken => ?_⟩
          simp only [step, waiting, List.getElem?_cons_zero, Option.bind_eq_bind] at taken
          obtain ⟨items, -, rest⟩ := Option.bind_eq_some_iff.mp taken
          obtain ⟨counter, -, last⟩ := Option.bind_eq_some_iff.mp rest
          split at last
          · cases last
            simp [work, waiting]
          · cases last
            simp [work, waiting]

end Items

/-- The quantities under the content of a request are integers. -/
def IntegerQuantities (database : Json) (zoneID id : String) : Prop :=
  ∀ childSnap ∈ contentOf database zoneID id, asInt childSnap.value ≠ none

/-- A request whose content can be read, if its node has the four fields. -/
def Legible (database : Json) (languageCode : Option String) (zoneID id : String) : Prop :=
  decodeHead (requestNode database zoneID id) ≠ none →
    ∀ childSnap ∈ contentOf database zoneID id, Castable database languageCode childSnap

theorem IntegerQuantities.legible {database : Json} {zoneID id : String}
    (quantities : IntegerQuantities database zoneID id) (languageCode : Option String) :
    Legible database languageCode zoneID id :=
  fun _ childSnap member _ => quantities childSnap member

/-- A request as it should be read: the four fields of its node, and the items
    of its content in any order. -/
def RequestFor (database : Json) (languageCode : Option String) (zoneID id : String)
    (request : Request) : Prop :=
  ∃ head, decodeHead (requestNode database zoneID id) = some head ∧
    request = head.request request.items ∧
    request.items.Perm (contentItems database languageCode (contentOf database zoneID id))

section RequestFor

variable {database : Json} {languageCode : Option String} {zoneID id : String} {request : Request}

theorem RequestFor.named (fits : RequestFor database languageCode zoneID id request) :
    request.id = some (requestNode database zoneID id).key := by
  obtain ⟨head, decoded, shape, -⟩ := fits
  rw [shape]
  exact congrArg some (decodeHead_spec decoded).1

theorem RequestFor.status (fits : RequestFor database languageCode zoneID id request) :
    request.status =
      asString ((requestNode database zoneID id).childSnapshot "status").value := by
  obtain ⟨head, decoded, shape, -⟩ := fits
  rw [shape]
  exact (decodeHead_spec decoded).2.symm

end RequestFor

/-- The invariant of `getRequest`. -/
def GetRequest.Sound (database : Json) (languageCode : Option String) (zoneID id : String) :
    GetRequest → Prop
  | .reading zone key => zone = zoneID ∧ key = id
  | .missing => decodeHead (requestNode database zoneID id) = none
  | .gathering head call =>
      decodeHead (requestNode database zoneID id) = some head ∧
        call.Sound database languageCode (contentOf database zoneID id)

section Requests

variable {database : Json} {languageCode : Option String} {zoneID id : String} {call : GetRequest}

theorem GetRequest.result_of_unfinished (open_ : call.finished = false) : call.result = none := by
  cases call with
  | reading _ _ => rfl
  | missing => rfl
  | gathering head call =>
      simp only [finished] at open_
      simp [result, open_]

/-- A call is finished when nothing is left to happen to it, except that a
    request without content never is. -/
theorem GetRequest.Sound.finished_iff (sound : call.Sound database languageCode zoneID id) :
    call.finished = true ↔ call.work database = 0 ∧
      (decodeHead (requestNode database zoneID id) = none ∨ contentOf database zoneID id ≠ []) := by
  cases call with
  | reading zone key => simp [finished, work]
  | missing => simp [finished, work, show decodeHead _ = none from sound]
  | gathering head call =>
      obtain ⟨decoded, items⟩ := sound
      simp [finished, work, decoded, items.returned_iff, and_comm]

theorem GetRequest.Sound.result_spec (sound : call.Sound database languageCode zoneID id)
    (done : call.finished = true) :
    (decodeHead (requestNode database zoneID id) = none ∧ call.result = none) ∨
      ∃ request, call.result = some request ∧
        RequestFor database languageCode zoneID id request := by
  cases call with
  | reading zone key => simp [finished] at done
  | missing => exact .inl ⟨sound, rfl⟩
  | gathering head call =>
      obtain ⟨decoded, items⟩ := sound
      have returned : call.returned = true := done
      have idle := (items.returned_iff.mp returned).2
      simp only [GetAllItems.work, Nat.add_eq_zero_iff, Nat.mul_eq_zero, List.length_eq_zero_iff,
        OfNat.ofNat_ne_zero, false_or] at idle
      refine .inr ⟨head.request call.items, by simp [result, returned], head, decoded, rfl, ?_⟩
      simpa [idle.1, idle.2, contentItems, RequestHead.request] using items.gathered

theorem GetRequest.step_sound (sound : call.Sound database languageCode zoneID id)
    {event : RequestEvent} {after : GetRequest} {delivered : Option (Option Request)}
    (taken : call.step database languageCode event = some (after, delivered)) :
    after.Sound database languageCode zoneID id ∧
      Outcome GetRequest.finished GetRequest.result call after delivered := by
  cases call with
  | missing =>
      obtain ⟨rfl, rfl⟩ := Prod.mk.inj (Option.some.inj taken)
      exact ⟨sound, .refl _⟩
  | reading zone key =>
      cases event with
      | content event =>
          obtain ⟨rfl, rfl⟩ := Prod.mk.inj (Option.some.inj taken)
          exact ⟨sound, .refl _⟩
      | node =>
          obtain ⟨rfl, rfl⟩ := sound
          cases decoded : decodeHead (requestNode database zone key) with
          | none =>
              simp only [step, decoded, Option.some.injEq, Prod.mk.injEq] at taken
              obtain ⟨rfl, rfl⟩ := taken
              exact ⟨decoded, .inr ⟨rfl, rfl, rfl⟩⟩
          | some head =>
              simp only [step, decoded, Option.some.injEq, Prod.mk.injEq] at taken
              obtain ⟨rfl, rfl⟩ := taken
              exact ⟨⟨decoded, getAllItems_sound _⟩, .inl ⟨rfl, rfl, fun _ => rfl⟩⟩
  | gathering head call =>
      cases event with
      | node =>
          obtain ⟨rfl, rfl⟩ := Prod.mk.inj (Option.some.inj taken)
          exact ⟨sound, .refl _⟩
      | content event =>
          obtain ⟨decoded, items⟩ := sound
          simp only [step, Option.bind_eq_bind, Option.bind_eq_some_iff] at taken
          obtain ⟨⟨next, brought⟩, moved, rest⟩ := taken
          obtain ⟨rfl, rfl⟩ := Prod.mk.inj (Option.some.inj rest)
          obtain ⟨kept, outcome⟩ := GetAllItems.step_sound items moved
          refine ⟨⟨decoded, kept⟩, ?_⟩
          obtain ⟨rfl, same, frozen⟩ | ⟨was, now, rfl⟩ := outcome
          · refine .inl ⟨rfl, same, fun done => ?_⟩
            simp only [finished] at done
            simp only [result, same, frozen done]
          · exact .inr ⟨was, now, by simp [result, now]⟩

theorem GetRequest.step_total (legible : Legible database languageCode zoneID id)
    (sound : call.Sound database languageCode zoneID id) (event : RequestEvent) :
    ∃ after delivered, call.step database languageCode event = some (after, delivered) := by
  cases call with
  | missing => exact ⟨.missing, none, rfl⟩
  | reading zone key =>
      cases event with
      | content event => exact ⟨.reading zone key, none, rfl⟩
      | node =>
          cases decoded : decodeHead (requestNode database zone key) with
          | none => exact ⟨.missing, some none, by simp [step, decoded]⟩
          | some head => exact ⟨_, none, by simp only [step, decoded]; rfl⟩
  | gathering head call =>
      cases event with
      | node => exact ⟨.gathering head call, none, rfl⟩
      | content event =>
          obtain ⟨decoded, items⟩ := sound
          obtain ⟨after, delivered, taken⟩ :=
            GetAllItems.step_total items (legible (by simp [decoded])) event
          exact ⟨.gathering head after, delivered.map fun items => some (head.request items),
            by simp [step, taken]⟩

theorem GetRequest.step_spec (quantities : IntegerQuantities database zoneID id)
    (sound : call.Sound database languageCode zoneID id) (event : RequestEvent) :
    ∃ after delivered, call.step database languageCode event = some (after, delivered) ∧
      after.Sound database languageCode zoneID id ∧
      Outcome GetRequest.finished GetRequest.result call after delivered := by
  obtain ⟨after, delivered, taken⟩ :=
    step_total (quantities.legible languageCode) sound event
  exact ⟨after, delivered, taken, step_sound sound taken⟩

theorem GetRequest.progress (sound : call.Sound database languageCode zoneID id)
    (busy : call.work database ≠ 0) :
    ∃ event, ∀ after delivered, call.step database languageCode event = some (after, delivered) →
      after.work database < call.work database := by
  cases call with
  | missing => exact absurd rfl busy
  | reading zone key =>
      refine ⟨.node, fun after delivered taken => ?_⟩
      cases decoded : decodeHead (requestNode database zone key) with
      | none =>
          simp only [step, decoded, Option.some.injEq, Prod.mk.injEq] at taken
          obtain ⟨rfl, -⟩ := taken
          simp [work]
      | some head =>
          simp only [step, decoded, Option.some.injEq, Prod.mk.injEq] at taken
          obtain ⟨rfl, -⟩ := taken
          simp only [work, getAllItems, GetAllItems.work, contentOf, List.length_nil]
          omega
  | gathering head call =>
      obtain ⟨event, less⟩ := GetAllItems.progress database languageCode busy
      refine ⟨.content event, fun after delivered taken => ?_⟩
      simp only [step, Option.bind_eq_bind, Option.bind_eq_some_iff] at taken
      obtain ⟨⟨next, brought⟩, moved, rest⟩ := taken
      obtain ⟨rfl, -⟩ := Prod.mk.inj (Option.some.inj rest)
      exact less next brought moved

theorem GetRequest.Sound.legible (sound : call.Sound database languageCode zoneID id)
    (idle : call.work database = 0) : Legible database languageCode zoneID id := by
  cases call with
  | reading zone key => simp [work] at idle
  | missing => exact fun decoded => absurd sound decoded
  | gathering head call =>
      obtain ⟨-, items⟩ := sound
      simp only [work, GetAllItems.work, Nat.add_eq_zero_iff, Nat.mul_eq_zero,
        List.length_eq_zero_iff, OfNat.ofNat_ne_zero, false_or] at idle
      intro _ childSnap member
      apply (items.cast childSnap member).resolve_left
      simp [idle.1, idle.2]

end Requests

end Kasei
