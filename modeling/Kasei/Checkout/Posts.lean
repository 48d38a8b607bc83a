import Kasei.Lib.FanIn
import Kasei.Models.Posting

/-! # Posts of many clients on one tree

`postRequest` in its stages. Between the zone lookup, the two writes and the
counter transactions the tree belongs to everybody: other clients post, and
every reply comes when it comes. `childByAutoId` is a parameter, the keys it
draws one after the other; what the app relies on is that they differ from each
other and from every name that is in the tree or in a zone.
-/

namespace Kasei.Checkout

open JsonTree Runs Counters Posting
open FanIn (gathered_set index_unique)

/-- How far a call is, with the keys drawn for it. The last four stages are its
    ends, named after what it has left in the tree; `thrown` also ends the app of
    its user. -/
inductive Stage where
  | lookingUp
  | writing (zoneid : String) (key : Nat)
  | indexing (zoneid : String) (key index : Nat)
  | stored (zoneid : String) (key index : Nat)
  | halfStored (zoneid : String) (key index : Nat)
  | refused (key : Option Nat)
  | thrown
  deriving Repr, DecidableEq

/-- A call of `postRequest` that got past its guard. `reqDict` was built when it
    was made; `completions` are the values its closure has received. -/
structure Call where
  uid : String
  items : List RequestItem
  reqDict : Json
  stage : Stage
  completions : List Bool

structure Posts where
  database : Json
  drawn : Nat
  calls : List Call
  inFlight : List Transaction

def Posts.start (database : Json) : Posts := ⟨database, 0, [], []⟩

inductive PostEvent where
  | post (currentUser : Option String) (clock : Clock) (req : Request)
  | zoneReply (k : Nat)
  | requestReply (k : Nat) (accepted : Bool)
  | indexReply (k : Nat) (accepted : Bool)
  | commit (index : Nat)

def Call.moveTo (call : Call) (stage : Stage) : Call := { call with stage := stage }

/-- A call once its guard on the user and its slot have passed. -/
def Call.begin (uid : String) (now : ℚ) (delSlotStart : Int) (req : Request) : Call :=
  ⟨uid, req.items, requestDictionary now delSlotStart req, .lookingUp, []⟩

/-- The last stage of a call, with the call of its closure. -/
def Call.complete (call : Call) (stage : Stage) (success : Bool) : Call :=
  { call with stage := stage, completions := call.completions ++ [success] }

section Steps

variable (autoId : Nat → String)

def Posts.post (s : Posts) (currentUser : Option String) (clock : Clock) (req : Request) :
    Option Posts :=
  match currentUser with
  | none => some s
  | some uid => do
      let delSlotStart ← delSlotMillis req.delSlotStart clock.defaultSlot
      return { s with calls := s.calls ++ [Call.begin uid clock.now delSlotStart req] }

def Posts.zoneReply (s : Posts) (k : Nat) (call : Call) : Posts :=
  match retrieveSubzone s.database (some call.uid) with
  | (zoneid, true) =>
      if isWritable zoneid call.items then { s with
        drawn := s.drawn + 1
        calls := s.calls.set k (call.moveTo (.writing zoneid s.drawn)) }
      else { s with calls := s.calls.set k (call.moveTo .thrown) }
  | (_, false) => { s with calls := s.calls.set k (call.complete (.refused none) false) }

def Posts.requestReply (s : Posts) (k : Nat) (call : Call) (zoneid : String) (key : Nat)
    (accepted : Bool) : Posts :=
  let written := setValue s.database (requestPath zoneid (autoId key)) call.reqDict accepted
  if accepted then { s with
    database := written
    drawn := s.drawn + 1
    calls := s.calls.set k (call.moveTo (.indexing zoneid key s.drawn)) }
  else { s with
    database := written
    calls := s.calls.set k (call.complete (.refused (some key)) false) }

def Posts.indexReply (s : Posts) (k : Nat) (call : Call) (zoneid : String) (key index : Nat)
    (accepted : Bool) : Option Posts :=
  let indexed := setValue s.database (indexPath call.uid zoneid (autoId index))
    (.str (autoId key)) accepted
  if accepted then
    if isCountable call.items then some { s with
      database := indexed
      calls := s.calls.set k (call.complete (.stored zoneid key index) true)
      inFlight := s.inFlight ++ updateCounters call.items zoneid }
    else none
  else some { s with
    database := indexed
    calls := s.calls.set k (call.complete (.halfStored zoneid key index) false) }

/-- A reply to a call that waits for something else changes nothing. -/
def Posts.step (s : Posts) : PostEvent → Option Posts
  | .post currentUser clock req => s.post currentUser clock req
  | .zoneReply k =>
      match s.calls[k]? with
      | some ⟨uid, items, reqDict, .lookingUp, completions⟩ =>
          some (s.zoneReply k ⟨uid, items, reqDict, .lookingUp, completions⟩)
      | _ => some s
  | .requestReply k accepted =>
      match s.calls[k]? with
      | some ⟨uid, items, reqDict, .writing zoneid key, completions⟩ =>
          some (s.requestReply autoId k ⟨uid, items, reqDict, .writing zoneid key, completions⟩
            zoneid key accepted)
      | _ => some s
  | .indexReply k accepted =>
      match s.calls[k]? with
      | some ⟨uid, items, reqDict, .indexing zoneid key index, completions⟩ =>
          s.indexReply autoId k
            ⟨uid, items, reqDict, .indexing zoneid key index, completions⟩ zoneid key index
            accepted
      | _ => some s
  | .commit index =>
      match s.inFlight[index]? with
      | none => some s
      | some transaction => do
          let database ← transaction.commit s.database
          return { s with database := database, inFlight := s.inFlight.eraseIdx index }

variable {autoId} {s : Posts} {k : Nat} {call : Call}

theorem Posts.step_zoneReply (found : s.calls[k]? = some call) (stage : call.stage = .lookingUp) :
    s.step autoId (.zoneReply k) = some (s.zoneReply k call) := by
  obtain ⟨uid, items, reqDict, _, completions⟩ := call
  subst stage
  simp only [Posts.step, found]

theorem Posts.step_requestReply (found : s.calls[k]? = some call) {zoneid : String} {key : Nat}
    (stage : call.stage = .writing zoneid key) (accepted : Bool) :
    s.step autoId (.requestReply k accepted) =
      some (s.requestReply autoId k call zoneid key accepted) := by
  obtain ⟨uid, items, reqDict, _, completions⟩ := call
  subst stage
  simp only [Posts.step, found]

theorem Posts.step_indexReply (found : s.calls[k]? = some call) {zoneid : String}
    {key index : Nat} (stage : call.stage = .indexing zoneid key index) (accepted : Bool) :
    s.step autoId (.indexReply k accepted) =
      s.indexReply autoId k call zoneid key index accepted := by
  obtain ⟨uid, items, reqDict, _, completions⟩ := call
  subst stage
  simp only [Posts.step, found]

end Steps

/-! ## What a call has drawn, written and ordered -/

def Call.keys (call : Call) : List Nat :=
  match call.stage with
  | .lookingUp => []
  | .writing _ key => [key]
  | .indexing _ key index => [key, index]
  | .stored _ key index => [key, index]
  | .halfStored _ key index => [key, index]
  | .refused key => key.toList
  | .thrown => []

/-- The zone that the lookup brought. -/
def Call.zone (call : Call) : Option String :=
  match call.stage with
  | .writing zoneid _ => some zoneid
  | .indexing zoneid _ _ => some zoneid
  | .stored zoneid _ _ => some zoneid
  | .halfStored zoneid _ _ => some zoneid
  | _ => none

/-- The writes of a call that were accepted. -/
def Call.writes (autoId : Nat → String) (call : Call) : List (Path × Json) :=
  match call.stage with
  | .indexing zoneid key _ => [(requestPath zoneid (autoId key), call.reqDict)]
  | .halfStored zoneid key _ => [(requestPath zoneid (autoId key), call.reqDict)]
  | .stored zoneid key index =>
      [(requestPath zoneid (autoId key), call.reqDict),
       (indexPath call.uid zoneid (autoId index), .str (autoId key))]
  | _ => []

/-- What the counters have been told of. -/
def Call.orders (call : Call) : List Order :=
  match call.stage with
  | .stored zoneid _ _ => [⟨zoneid, call.items⟩]
  | _ => []

/-- `child:` or `setValue` throws as soon as the zone of the user is known. -/
def Call.Throws (database : Json) (call : Call) : Prop :=
  (retrieveSubzone database (some call.uid)).2 = true ∧
    isWritable (retrieveSubzone database (some call.uid)).1 call.items = false

/-- What the closure should have received. -/
def Stage.reported : Stage → List Bool
  | .stored _ _ _ => [true]
  | .halfStored _ _ _ => [false]
  | .refused _ => [false]
  | _ => []

/-- A zone in which some user lives. -/
def IsZone (database : Json) (zoneid : String) : Prop :=
  ∃ uid, retrieveSubzone database (some uid) = (zoneid, true)

/-- Every zone in which some user lives has a key for its name. -/
def KeyZones (database : Json) : Prop :=
  ∀ zoneid, IsZone database zoneid → isValidKey zoneid = true

/-- The keys that `childByAutoId` draws are keys, and new ones: they differ from
    each other, from every name under which a request or an entry could be in the
    tree, and from the names in the zones. -/
structure FreshIds (autoId : Nat → String) (database : Json) : Prop where
  injective : Function.Injective autoId
  key : ∀ n, isValidKey (autoId n) = true
  request : ∀ zoneid n, database.get (requestPath zoneid (autoId n)) = .null
  index : ∀ uid zoneid n, database.get (indexPath uid zoneid (autoId n)) = .null
  zone : ∀ zoneid, IsZone database zoneid → ∀ n, autoId n ∉ pieces zoneid

/-- The two kinds of node that a post writes. -/
inductive PostedPath (autoId : Nat → String) (database : Json) : Path → Prop where
  | request (zoneid : String) (key : Nat) (zone : IsZone database zoneid) :
      PostedPath autoId database (requestPath zoneid (autoId key))
  | index (uid zoneid : String) (index : Nat) (zone : IsZone database zoneid) :
      PostedPath autoId database (indexPath uid zoneid (autoId index))

section Paths

variable {autoId : Nat → String} {database : Json}

theorem isZone_iff {zoneid : String} : IsZone database zoneid ↔
    ∃ uid, asString (database.get ["elderly", uid, "ZoneID"]) = some zoneid := by
  refine exists_congr fun uid => ?_
  simp only [retrieveSubzone, observeSingleEvent, List.cons_append, List.nil_append]
  cases asString (database.get ["elderly", uid, "ZoneID"]) <;> simp

theorem FreshIds.requestPath_eq (fresh : FreshIds autoId database) (zoneid : String) (n : Nat) :
    requestPath zoneid (autoId n) = "requests" :: (pieces zoneid ++ [autoId n]) := by
  rw [requestPath, pieces_of_key (fresh.key n)]

theorem FreshIds.key_of_last (fresh : FreshIds autoId database) {above other : Path} {n m : Nat}
    (same : above ++ [autoId n] = other ++ [autoId m]) : n = m :=
  fresh.injective (List.singleton_inj.mp (List.append_inj' same rfl).2)

theorem FreshIds.apart (fresh : FreshIds autoId database) {zoneid zone : String}
    (one : IsZone database zoneid) (two : IsZone database zone) {n m : Nat}
    (different : pieces zoneid ++ [autoId n] ≠ pieces zone ++ [autoId m]) :
    Apart (pieces zoneid ++ [autoId n]) (pieces zone ++ [autoId m]) :=
  Apart.of_last (fresh.zone zone two n) (fresh.zone zoneid one m) different

theorem PostedPath.apart (fresh : FreshIds autoId database) {path other : Path}
    (one : PostedPath autoId database path) (two : PostedPath autoId database other)
    (different : path ≠ other) : Apart path other := by
  cases one with
  | request zoneid key here =>
      cases two with
      | request zone own there =>
          rw [fresh.requestPath_eq, fresh.requestPath_eq] at different ⊢
          exact .inr (fresh.apart here there fun same => different (by rw [same]))
      | index => exact .inl (by decide)
  | index uid zoneid index here =>
      cases two with
      | request => exact .inl (by decide)
      | index user zone own there =>
          by_cases same : uid = user
          · subst same
            refine .inr (.inr (fresh.apart here there fun tails => different ?_))
            rw [indexPath, tails, indexPath]
          · exact .inr (.inl same)

theorem PostedPath.elsewhere {path : Path} (posted : PostedPath autoId database path)
    {top : String} (other : top ∉ ["requests", "userRequests"]) (rest : Path) :
    Apart path (top :: rest) := by
  simp only [List.mem_cons, List.not_mem_nil, or_false, not_or] at other
  cases posted with
  | request => exact .inl (Ne.symm other.1)
  | index => exact .inl (Ne.symm other.2)

end Paths

theorem PostedPath.apart_counter {autoId : Nat → String} {database : Json} {path other : Path}
    (posted : PostedPath autoId database path) (counter : CounterPath other) :
    Apart path other := by
  cases posted <;> cases counter <;> exact .inl (by decide)

/-- The write of a reply, which uses up a key of its call. -/
inductive Keyed (autoId : Nat → String) (call : Call) : Path × Json → Prop where
  | request (zoneid : String) {key : Nat} (zone : call.zone = some zoneid)
      (drawn : key ∈ call.keys) (first : call.writes autoId = []) :
      Keyed autoId call (requestPath zoneid (autoId key), call.reqDict)
  | index (zoneid : String) {key index : Nat} (zone : call.zone = some zoneid)
      (counted : isCountable call.items = true) (drawn : index ∈ call.keys)
      (second : call.writes autoId = [(requestPath zoneid (autoId key), call.reqDict)]) :
      Keyed autoId call (indexPath call.uid zoneid (autoId index), .str (autoId key))

/-- What a reply does to its call: at most one key is drawn, one write accepted
    and one order passed on. -/
structure Answered (autoId : Nat → String) (s : Posts) (before after : Call) (draws : Bool)
    (write : Option (Path × Json)) (passed : List Order) : Prop where
  uid : after.uid = before.uid
  items : after.items = before.items
  reqDict : after.reqDict = before.reqDict
  keys : after.keys = before.keys ++ if draws then [s.drawn] else []
  writes : after.writes autoId = before.writes autoId ++ write.toList
  orders : after.orders = before.orders ++ passed
  counted : passed ≠ [] → isCountable before.items = true
  keyed : ∀ w, write = some w → Keyed autoId before w
  zone : ∀ zoneid, after.zone = some zoneid → before.zone = some zoneid ∨
    retrieveSubzone s.database (some before.uid) = (zoneid, true) ∧
      isWritable zoneid before.items = true
  alive : before.stage ≠ .thrown
  threw : after.stage = .thrown → before.Throws s.database
  throws : before.Throws s.database → before.stage = .lookingUp → after.stage = .thrown
  reported : before.completions = before.stage.reported →
    after.completions = after.stage.reported
  told : ∃ more, after.completions = before.completions ++ more

/-- Everything a step can do. -/
inductive Advance (autoId : Nat → String) (s : Posts) : PostEvent → Posts → Prop where
  | same {event : PostEvent} : Advance autoId s event s
  | posted (uid : String) (clock : Clock) (req : Request)
      (fits : fitsInt (slotMillis clock req) = true) :
      Advance autoId s (.post (some uid) clock req) { s with
        calls := s.calls ++ [Call.begin uid clock.now (slotMillis clock req) req] }
  | answered {event : PostEvent} {k : Nat} {before after : Call} {draws : Bool}
      {write : Option (Path × Json)} {passed : List Order} (found : s.calls[k]? = some before)
      (answered : Answered autoId s before after draws write passed) :
      Advance autoId s event {
        database := write.elim s.database fun w => s.database.set w.1 w.2
        drawn := s.drawn + draws.toNat
        calls := s.calls.set k after
        inFlight := s.inFlight ++ started passed }
  | committed {index : Nat} {transaction : Transaction} {database : Json}
      (found : s.inFlight[index]? = some transaction)
      (commits : transaction.commit s.database = some database) :
      Advance autoId s (.commit index)
        { s with database := database, inFlight := s.inFlight.eraseIdx index }

section Advance

variable {autoId : Nat → String} {s next : Posts} {event : PostEvent}

theorem Posts.zoneReply_advance {k : Nat} {call : Call} (found : s.calls[k]? = some call)
    (stage : call.stage = .lookingUp) : Advance autoId s event (s.zoneReply k call) := by
  unfold Posts.zoneReply
  split
  · rename_i zoneid zone
    split
    · rename_i writable
      have reply : Answered autoId s call (call.moveTo (.writing zoneid s.drawn)) true none [] := by
        constructor <;> simp [Call.moveTo, Call.keys, Call.writes, Call.orders, Call.zone,
          Stage.reported, stage]
        · exact ⟨zone, writable⟩
        · simp [Call.Throws, zone, writable]
      have moved : Advance autoId s event _ := .answered found reply
      simpa [started] using moved
    · rename_i unwritable
      have reply : Answered autoId s call (call.moveTo .thrown) false none [] := by
        constructor <;> simp [Call.moveTo, Call.keys, Call.writes, Call.orders, Call.zone,
          Stage.reported, stage]
        simp [Call.Throws, zone, unwritable]
      have moved : Advance autoId s event _ := .answered found reply
      simpa [started] using moved
  · rename_i missing
    have reply : Answered autoId s call (call.complete (.refused none) false) false none [] := by
      constructor <;> simp [Call.complete, Call.keys, Call.writes, Call.orders, Call.zone,
        Stage.reported, stage]
      simp [Call.Throws, missing]
    have moved : Advance autoId s event _ := .answered found reply
    simpa [started] using moved

theorem Posts.requestReply_advance {k : Nat} {call : Call} {zoneid : String} {key : Nat}
    (found : s.calls[k]? = some call) (stage : call.stage = .writing zoneid key)
    (accepted : Bool) :
    Advance autoId s event (s.requestReply autoId k call zoneid key accepted) := by
  unfold Posts.requestReply
  cases accepted with
  | true =>
      have reply : Answered autoId s call (call.moveTo (.indexing zoneid key s.drawn)) true
          (some (requestPath zoneid (autoId key), call.reqDict)) [] := by
        constructor <;> simp [Call.moveTo, Call.keys, Call.writes, Call.orders, Call.zone,
          Stage.reported, stage]
        exact .request zoneid (by simp [Call.zone, stage]) (by simp [Call.keys, stage])
          (by simp [Call.writes, stage])
      have moved : Advance autoId s event _ := .answered found reply
      simpa [started, setValue] using moved
  | false =>
      have reply : Answered autoId s call (call.complete (.refused (some key)) false) false none
          [] := by
        constructor <;> simp [Call.complete, Call.keys, Call.writes, Call.orders, Call.zone,
          Stage.reported, stage]
      have moved : Advance autoId s event _ := .answered found reply
      simpa [started, setValue] using moved

theorem Posts.indexReply_advance {k : Nat} {call : Call} {zoneid : String} {key index : Nat}
    (found : s.calls[k]? = some call) (stage : call.stage = .indexing zoneid key index)
    {accepted : Bool}
    (taken : s.indexReply autoId k call zoneid key index accepted = some next) :
    Advance autoId s event next := by
  simp only [Posts.indexReply] at taken
  cases accepted with
  | true =>
      simp only [if_true] at taken
      obtain ⟨counted, last⟩ := Option.ite_none_right_eq_some.mp taken
      obtain rfl := Option.some.inj last
      have reply : Answered autoId s call (call.complete (.stored zoneid key index) true) false
          (some (indexPath call.uid zoneid (autoId index), .str (autoId key)))
          [⟨zoneid, call.items⟩] := by
        constructor <;> simp [Call.complete, Call.keys, Call.writes, Call.orders, Call.zone,
          Stage.reported, stage]
        · exact counted
        · exact .index zoneid (by simp [Call.zone, stage]) counted (by simp [Call.keys, stage])
            (by simp [Call.writes, stage])
      have moved : Advance autoId s event _ := .answered found reply
      simpa [started, setValue] using moved
  | false =>
      simp only [Bool.false_eq_true, if_false] at taken
      obtain rfl := Option.some.inj taken
      have reply : Answered autoId s call (call.complete (.halfStored zoneid key index) false) false
          none [] := by
        constructor <;> simp [Call.complete, Call.keys, Call.writes, Call.orders, Call.zone,
          Stage.reported, stage]
      have moved : Advance autoId s event _ := .answered found reply
      simpa [started, setValue] using moved

theorem Posts.post_user {uid : String} {clock : Clock} {req : Request}
    (taken : s.post (some uid) clock req = some next) :
    fitsInt (slotMillis clock req) = true ∧ next = { s with
      calls := s.calls ++ [Call.begin uid clock.now (slotMillis clock req) req] } := by
  simp only [Posts.post, delSlotMillis_eq, Option.bind_eq_bind] at taken
  obtain ⟨millis, fits, last⟩ := Option.bind_eq_some_iff.mp taken
  obtain ⟨inRange, same⟩ := Option.ite_none_right_eq_some.mp fits
  obtain rfl := Option.some.inj same
  exact ⟨inRange, (Option.some.inj last).symm⟩

theorem Posts.step_advance (taken : s.step autoId event = some next) :
    Advance autoId s event next := by
  cases event with
  | post currentUser clock req =>
      cases currentUser with
      | none =>
          obtain rfl := Option.some.inj taken
          exact .same
      | some uid =>
          obtain ⟨inRange, rfl⟩ := Posts.post_user taken
          exact .posted uid clock req inRange
  | zoneReply k =>
      simp only [Posts.step] at taken
      split at taken <;> obtain rfl := Option.some.inj taken
      · rename_i found
        exact zoneReply_advance found rfl
      · exact .same
  | requestReply k accepted =>
      simp only [Posts.step] at taken
      split at taken <;> obtain rfl := Option.some.inj taken
      · rename_i found
        exact requestReply_advance found rfl accepted
      · exact .same
  | indexReply k accepted =>
      simp only [Posts.step] at taken
      split at taken
      · rename_i found
        exact indexReply_advance found rfl taken
      · obtain rfl := Option.some.inj taken
        exact .same
  | commit index =>
      simp only [Posts.step] at taken
      split at taken
      · obtain rfl := Option.some.inj taken
        exact .same
      · rename_i transaction found
        obtain ⟨database, commits, last⟩ := Option.bind_eq_some_iff.mp taken
        obtain rfl := Option.some.inj last
        exact .committed found commits

end Advance

/-! ## The invariant -/

def Posts.written (autoId : Nat → String) (s : Posts) : List (Path × Json) :=
  s.calls.flatMap (Call.writes autoId)

def Posts.orders (s : Posts) : List Order := s.calls.flatMap Call.orders

/-- What one call keeps to by itself. -/
structure Call.Sound (database : Json) (call : Call) : Prop where
  zone : ∀ zoneid, call.zone = some zoneid →
    retrieveSubzone database (some call.uid) = (zoneid, true) ∧
      isWritable zoneid call.items = true
  counted : call.orders ≠ [] → isCountable call.items = true
  threw : call.stage = .thrown → call.Throws database
  silent : call.Throws database → call.stage = .lookingUp ∨ call.stage = .thrown
  reported : call.completions = call.stage.reported
  made : ∃ now millis req, call.reqDict = requestDictionary now millis req ∧
    call.items = req.items

/-- The path separates from every other counter that a post can start a
    transaction on. -/
def SeparateCounter (database : Json) (path : Path) : Prop :=
  ∀ zoneid items, IsZone database zoneid → ∀ t ∈ updateCounters items zoneid,
    t.path ≠ path → Apart t.path path

structure Posts.Sound (autoId : Nat → String) (database : Json) (s : Posts) : Prop where
  below : ∀ key ∈ s.calls.flatMap Call.keys, key < s.drawn
  distinct : (s.calls.flatMap Call.keys).Nodup
  calls : ∀ call ∈ s.calls, call.Sound database
  stored : ∀ w ∈ s.written autoId, s.database.get w.1 = w.2
  untouched : ∀ top rest, top ∉ ["items", "requestCounter"] →
    (∀ w ∈ s.written autoId, Apart w.1 (top :: rest)) →
    s.database.get (top :: rest) = database.get (top :: rest)
  counters : ∀ t ∈ s.inFlight, ∃ zoneid items, IsZone database zoneid ∧
    t ∈ updateCounters items zoneid
  balance : ∀ path, CounterPath path → SeparateCounter database path →
    counterAt s.database path + total s.inFlight path =
      counterAt database path + total (started s.orders) path

section Invariant

variable {autoId : Nat → String} {database : Json} {s : Posts}

theorem Posts.Sound.start (autoId : Nat → String) (database : Json) :
    (Posts.start database).Sound autoId database where
  below := by simp [Posts.start]
  distinct := by simp [Posts.start]
  calls := by simp [Posts.start]
  stored := by simp [Posts.start, Posts.written]
  untouched := fun _ _ _ _ => rfl
  counters := by simp [Posts.start]
  balance := by simp [Posts.start, Posts.orders, started, total]

theorem Call.Sound.isZone {call : Call} (sound : call.Sound database) {zoneid : String}
    (zone : call.zone = some zoneid) : IsZone database zoneid :=
  ⟨call.uid, (sound.zone zoneid zone).1⟩

theorem Keyed.posted {call : Call} {w : Path × Json} (keyed : Keyed autoId call w)
    (sound : call.Sound database) : PostedPath autoId database w.1 := by
  cases keyed with
  | request zoneid zone => exact .request _ _ (sound.isZone zone)
  | index zoneid zone => exact .index _ _ _ (sound.isZone zone)

theorem Call.zone_of_order {call : Call} {order : Order} (member : order ∈ call.orders) :
    call.zone = some order.zoneid := by
  unfold Call.orders at member
  split at member
  · rename_i zoneid key index stage
    obtain rfl := List.mem_singleton.mp member
    simp [Call.zone, stage]
  · cases member

theorem mem_writes {call : Call} {w : Path × Json} (member : w ∈ call.writes autoId) :
    ∃ zoneid key, call.zone = some zoneid ∧
      (key ∈ call.keys ∧ w = (requestPath zoneid (autoId key), call.reqDict) ∨
        ∃ index ∈ call.keys, w = (indexPath call.uid zoneid (autoId index), .str (autoId key)) ∧
          call.stage = .stored zoneid key index) := by
  unfold Call.writes at member
  split at member
  · rename_i zoneid key index stage
    obtain rfl := List.mem_singleton.mp member
    exact ⟨zoneid, key, by simp [Call.zone, stage], .inl ⟨by simp [Call.keys, stage], rfl⟩⟩
  · rename_i zoneid key index stage
    obtain rfl := List.mem_singleton.mp member
    exact ⟨zoneid, key, by simp [Call.zone, stage], .inl ⟨by simp [Call.keys, stage], rfl⟩⟩
  · rename_i zoneid key index stage
    refine ⟨zoneid, key, by simp [Call.zone, stage], ?_⟩
    rcases List.mem_cons.mp member with rfl | later
    · exact .inl ⟨by simp [Call.keys, stage], rfl⟩
    · obtain rfl := List.mem_singleton.mp later
      exact .inr ⟨index, by simp [Call.keys, stage], rfl, stage⟩
  · cases member

theorem posted_of_mem_writes {call : Call} (sound : call.Sound database) {w : Path × Json}
    (member : w ∈ call.writes autoId) : PostedPath autoId database w.1 := by
  obtain ⟨zoneid, key, zone, ⟨-, rfl⟩ | ⟨index, -, rfl, -⟩⟩ := mem_writes member
  · exact .request _ _ (sound.isZone zone)
  · exact .index _ _ _ (sound.isZone zone)

theorem Posts.Sound.posted_of_written (sound : s.Sound autoId database) {w : Path × Json}
    (member : w ∈ s.written autoId) : PostedPath autoId database w.1 := by
  obtain ⟨call, inside, there⟩ := List.mem_flatMap.mp member
  exact posted_of_mem_writes (sound.calls call inside) there

/-- The path of a node names the key that was drawn for it. -/
theorem shared_key (fresh : FreshIds autoId database) {one two : Call} {w v : Path × Json}
    (first : w ∈ one.writes autoId) (second : v ∈ two.writes autoId) (same : w.1 = v.1) :
    ∃ key, key ∈ one.keys ∧ key ∈ two.keys := by
  obtain ⟨zone, key, -, ⟨held, rfl⟩ | ⟨index, held, rfl, -⟩⟩ := mem_writes first <;>
    obtain ⟨zone', key', -, ⟨drawn, rfl⟩ | ⟨index', drawn, rfl, -⟩⟩ := mem_writes second
  · simp only [fresh.requestPath_eq, List.cons.injEq, true_and] at same
    exact ⟨key, held, fresh.key_of_last same ▸ drawn⟩
  · simp [requestPath, indexPath] at same
  · simp [requestPath, indexPath] at same
  · simp only [indexPath, List.cons.injEq, true_and] at same
    exact ⟨index, held, fresh.key_of_last same.2 ▸ drawn⟩

/-- A key that a call holds has not been used by anyone else, and by the call
    itself only for the other kind of node. -/
theorem Posts.Sound.unused (sound : s.Sound autoId database) (fresh : FreshIds autoId database)
    {k : Nat} {call : Call} (found : s.calls[k]? = some call) {w : Path × Json}
    (keyed : Keyed autoId call w) : ∀ other ∈ s.written autoId, other.1 ≠ w.1 := by
  rintro other member same
  obtain ⟨owner, inside, there⟩ := List.mem_flatMap.mp member
  obtain ⟨j, foundOwner⟩ := List.mem_iff_getElem?.mp inside
  have mine : ∀ key, key ∈ owner.keys → key ∈ call.keys → other ∈ call.writes autoId := by
    intro key held drawn
    obtain rfl := index_unique sound.distinct foundOwner found held drawn
    rw [found] at foundOwner
    obtain rfl := Option.some.inj foundOwner
    exact there
  cases keyed with
  | request zoneid zone drawn first =>
      obtain ⟨zone, key, -, ⟨held, rfl⟩ | ⟨index, -, rfl, -⟩⟩ := mem_writes there
      · simp only [fresh.requestPath_eq, List.cons.injEq, true_and] at same
        obtain rfl := fresh.key_of_last same
        have used := mine key held drawn
        rw [first] at used
        cases used
      · simp [requestPath, indexPath] at same
  | index zoneid zone counted drawn second =>
      obtain ⟨zone, key, -, ⟨-, rfl⟩ | ⟨index, held, rfl, -⟩⟩ := mem_writes there
      · simp [requestPath, indexPath] at same
      · simp only [indexPath, List.cons.injEq, true_and] at same
        obtain rfl := fresh.key_of_last same.2
        have used := mine index held drawn
        rw [second, List.mem_singleton] at used
        simp [requestPath, indexPath] at used

theorem Posts.Sound.apart_written (sound : s.Sound autoId database)
    (fresh : FreshIds autoId database) {k : Nat} {call : Call} (found : s.calls[k]? = some call)
    {w : Path × Json} (keyed : Keyed autoId call w) :
    ∀ other ∈ s.written autoId, Apart other.1 w.1 := fun other member =>
  (sound.posted_of_written member).apart fresh
    (keyed.posted (sound.calls call (List.mem_of_getElem? found)))
    (sound.unused fresh found keyed other member)

theorem Posts.Sound.free (sound : s.Sound autoId database) (fresh : FreshIds autoId database)
    {k : Nat} {call : Call} (found : s.calls[k]? = some call) {w : Path × Json}
    (keyed : Keyed autoId call w) : s.database.get w.1 = .null := by
  have apart := sound.apart_written fresh found keyed
  cases keyed with
  | request zoneid => exact (sound.untouched _ _ (by decide) apart).trans (fresh.request zoneid _)
  | index zoneid => exact (sound.untouched _ _ (by decide) apart).trans (fresh.index _ zoneid _)

theorem Posts.Sound.elsewhere (sound : s.Sound autoId database) {top : String}
    (other : top ∉ ["requests", "userRequests", "items", "requestCounter"]) (rest : Path) :
    s.database.get (top :: rest) = database.get (top :: rest) := by
  simp only [List.mem_cons, List.not_mem_nil, or_false, not_or] at other
  refine sound.untouched top rest (by simp [other]) fun w member => ?_
  exact (sound.posted_of_written member).elsewhere (by simp [other]) rest

theorem retrieveSubzone_congr {before after : Json} {uid : String}
    (same : after.get ["elderly", uid, "ZoneID"] = before.get ["elderly", uid, "ZoneID"]) :
    retrieveSubzone after (some uid) = retrieveSubzone before (some uid) := by
  simp only [retrieveSubzone, observeSingleEvent, List.cons_append, List.nil_append, same]

theorem Posts.Sound.posted (sound : s.Sound autoId database) (uid : String) (now : ℚ)
    (millis : Int) (req : Request) :
    { s with calls := s.calls ++ [Call.begin uid now millis req] }.Sound autoId database := by
  have keys : (s.calls ++ [Call.begin uid now millis req]).flatMap Call.keys =
      s.calls.flatMap Call.keys := by simp [Call.keys, Call.begin]
  have writes : (s.calls ++ [Call.begin uid now millis req]).flatMap (Call.writes autoId) =
      s.written autoId := by simp [Posts.written, Call.writes, Call.begin]
  have orders : (s.calls ++ [Call.begin uid now millis req]).flatMap Call.orders = s.orders := by
    simp [Posts.orders, Call.orders, Call.begin]
  constructor
  · rw [keys]
    exact sound.below
  · rw [keys]
    exact sound.distinct
  · intro call member
    rcases List.mem_append.mp member with old | new
    · exact sound.calls call old
    · obtain rfl := List.mem_singleton.mp new
      exact ⟨fun zoneid zone => by simp [Call.zone, Call.begin] at zone,
        fun ordered => absurd rfl ordered, fun thrown => (nomatch thrown), fun _ => .inl rfl, rfl,
        now, millis, req, rfl, rfl⟩
  · rw [Posts.written, writes]
    exact sound.stored
  · rw [Posts.written, writes]
    exact sound.untouched
  · exact sound.counters
  · rw [Posts.orders, orders]
    exact sound.balance

theorem Posts.Sound.committed (sound : s.Sound autoId database) {index : Nat} {t : Transaction}
    {after : Json} (found : s.inFlight[index]? = some t)
    (commits : t.commit s.database = some after) :
    { s with database := after, inFlight := s.inFlight.eraseIdx index }.Sound autoId
      database := by
  obtain ⟨zoneid, items, zone, own⟩ := sound.counters t (List.mem_of_getElem? found)
  have counter := counterPath_of_mem own
  obtain ⟨inRange, here⟩ := List.getElem?_eq_some_iff.mp found
  have split : (t :: s.inFlight.eraseIdx index).Perm s.inFlight :=
    here ▸ List.getElem_cons_eraseIdx_perm inRange
  have written : after = s.database.set t.path
      (.int (counterAt s.database t.path + t.amount)) := by
    simp only [Transaction.commit] at commits
    split at commits
    · exact (Option.some.inj commits).symm
    · cases commits
  constructor
  · exact sound.below
  · exact sound.distinct
  · exact sound.calls
  · intro w member
    have apart := ((sound.posted_of_written member).apart_counter counter).symm
    rw [written, Json.get_set_of_apart _ apart]
    exact sound.stored w member
  · intro top rest other apart
    rw [written, Json.get_set_of_apart _ (counter.elsewhere other rest)]
    exact sound.untouched top rest other apart
  · intro u member
    exact sound.counters u (List.mem_of_mem_eraseIdx member)
  · intro path isCounter separate
    have before := sound.balance path isCounter separate
    rw [← total_perm split] at before
    have moved := counterAt_commit (separate zoneid items zone t own) commits
    simp only [total, List.map_cons, List.sum_cons, Posts.orders] at before ⊢
    simp only [moved]
    omega

section Answers

variable {k : Nat} {before after : Call} {draws : Bool} {write : Option (Path × Json)}
  {passed : List Order}

theorem Answered.get_eq (reply : Answered autoId s before after draws write passed)
    (own : before.Sound database) {path : Path}
    (apart : ∀ w, write = some w → PostedPath autoId database w.1 → Apart w.1 path) :
    (write.elim s.database fun w => s.database.set w.1 w.2).get path = s.database.get path := by
  cases new : write with
  | none => rfl
  | some w => exact Json.get_set_of_apart _ (apart w new ((reply.keyed w new).posted own)) _

theorem Answered.call_sound (reply : Answered autoId s before after draws write passed)
    (sound : s.Sound autoId database) (own : before.Sound database) : after.Sound database := by
  have zones : retrieveSubzone s.database (some before.uid) =
      retrieveSubzone database (some before.uid) :=
    retrieveSubzone_congr (sound.elsewhere (by decide) _)
  have same : after.Throws database ↔ before.Throws s.database := by
    simp only [Call.Throws, reply.uid, reply.items, zones]
  refine ⟨fun zoneid zone => ?_, fun ordered => ?_, fun thrown => same.mpr (reply.threw thrown),
    fun throws => ?_, reply.reported own.reported, ?_⟩
  · rw [reply.uid, reply.items]
    rcases reply.zone zoneid zone with earlier | ⟨looked, writable⟩
    · exact own.zone zoneid earlier
    · exact ⟨zones ▸ looked, writable⟩
  · rw [reply.items]
    rw [reply.orders, ne_eq, List.append_eq_nil_iff, not_and_or] at ordered
    exact ordered.elim own.counted reply.counted
  · have before' := same.mp throws
    have earlier : before.Throws database := by simpa only [Call.Throws, zones] using before'
    rcases own.silent earlier with asking | thrown
    · exact .inr (reply.throws before' asking)
    · exact absurd thrown reply.alive
  · obtain ⟨now, millis, req, dictionary, items⟩ := own.made
    exact ⟨now, millis, req, reply.reqDict.trans dictionary, reply.items.trans items⟩

theorem Posts.Sound.drawn_key (sound : s.Sound autoId database) (found : s.calls[k]? = some before)
    (reply : Answered autoId s before after draws write passed) :
    (∀ key ∈ (s.calls.set k after).flatMap Call.keys, key < s.drawn + draws.toNat) ∧
      ((s.calls.set k after).flatMap Call.keys).Nodup := by
  have keys := gathered_set found (.of_eq reply.keys)
  cases draws with
  | false =>
      simp only [Bool.false_eq_true, if_false, List.append_nil] at keys
      exact ⟨fun key member => sound.below key (keys.mem_iff.mp member),
        keys.nodup_iff.mpr sound.distinct⟩
  | true =>
      simp only [if_true] at keys
      have unused : s.drawn ∉ s.calls.flatMap Call.keys := fun old =>
        Nat.lt_irrefl _ (sound.below _ old)
      refine ⟨fun key member => ?_, keys.nodup_iff.mpr ?_⟩
      · rcases List.mem_append.mp (keys.mem_iff.mp member) with old | new
        · exact Nat.lt_succ_of_lt (sound.below key old)
        · obtain rfl := List.mem_singleton.mp new
          exact Nat.lt_succ_self _
      · refine List.nodup_append.mpr ⟨sound.distinct, List.nodup_singleton _, ?_⟩
        rintro key old other new rfl
        obtain rfl := List.mem_singleton.mp new
        exact unused old

theorem Posts.total_started (found : s.calls[k]? = some before)
    (reply : Answered autoId s before after draws write passed) (path : Path) :
    total (started ((s.calls.set k after).flatMap Call.orders)) path =
      total (started s.orders) path + total (started passed) path := by
  have orders := gathered_set found (.of_eq reply.orders)
  rw [← total_append]
  refine total_perm ?_ path
  simpa [started, Posts.orders] using orders.flatMap_right _

theorem Posts.Sound.answered (sound : s.Sound autoId database)
    (fresh : FreshIds autoId database) (found : s.calls[k]? = some before)
    (reply : Answered autoId s before after draws write passed) :
    Posts.Sound autoId database {
      database := write.elim s.database fun w => s.database.set w.1 w.2
      drawn := s.drawn + draws.toNat
      calls := s.calls.set k after
      inFlight := s.inFlight ++ started passed } := by
  have own := sound.calls before (List.mem_of_getElem? found)
  have writes := gathered_set found (.of_eq reply.writes)
  obtain ⟨below, distinct⟩ := sound.drawn_key found reply
  refine ⟨below, distinct, ?calls, ?stored, ?untouched, ?counters, ?balance⟩
  case calls =>
    intro call member
    rcases List.mem_or_eq_of_mem_set member with old | rfl
    · exact sound.calls call old
    · exact reply.call_sound sound own
  case stored =>
    intro w member
    rcases List.mem_append.mp (writes.mem_iff.mp member) with old | new
    · refine (reply.get_eq own fun other here _ => ?_).trans (sound.stored w old)
      exact (sound.apart_written fresh found (reply.keyed other here) w old).symm
    · obtain rfl := Option.mem_toList.mp new
      exact Json.get_set_self ..
  case untouched =>
    intro top rest other apart
    have unread : ∀ w, w ∈ s.written autoId ∨ write = some w → Apart w.1 (top :: rest) := by
      intro w member
      refine apart w (writes.mem_iff.mpr (List.mem_append.mpr (member.imp_right ?_)))
      exact fun here => Option.mem_toList.mpr here
    refine (reply.get_eq own fun w here _ => unread w (.inr here)).trans
      (sound.untouched top rest other fun w member => unread w (.inl member))
  case counters =>
    intro t member
    rcases List.mem_append.mp member with old | new
    · exact sound.counters t old
    · obtain ⟨order, inside, there⟩ := List.mem_flatMap.mp new
      have zone := Call.zone_of_order (reply.orders ▸ List.mem_append_right _ inside)
      exact ⟨order.zoneid, order.items, (reply.call_sound sound own).isZone zone, there⟩
  case balance =>
    intro path counter separate
    have start := sound.balance path counter separate
    have more := Posts.total_started found reply path
    have kept : (write.elim s.database fun w => s.database.set w.1 w.2).get path =
        s.database.get path :=
      reply.get_eq own fun w _ posted => posted.apart_counter counter
    simp only [counterAt, kept, total_append, Posts.orders] at start more ⊢
    omega

end Answers

theorem Posts.step_sound (fresh : FreshIds autoId database) {next : Posts} {event : PostEvent}
    (sound : s.Sound autoId database) (taken : s.step autoId event = some next) :
    next.Sound autoId database := by
  cases Posts.step_advance taken with
  | same => exact sound
  | posted uid clock req _ => exact sound.posted uid clock.now _ req
  | answered found reply => exact sound.answered fresh found reply
  | committed found commits => exact sound.committed found commits

theorem Posts.run_sound (fresh : FreshIds autoId database) {events : List PostEvent}
    (ran : run (Posts.step autoId) (Posts.start database) events = some s) :
    s.Sound autoId database :=
  run_keeps (fun _ _ _ => Posts.step_sound fresh) (Posts.Sound.start autoId database) ran

theorem Stage.reported_length (stage : Stage) : stage.reported.length ≤ 1 := by
  cases stage <;> simp [Stage.reported]

theorem Call.Sound.reported_iff {call : Call} (sound : call.Sound database) :
    call.completions = [true] ↔ ∃ zoneid key index, call.stage = .stored zoneid key index := by
  rw [sound.reported]
  cases call.stage <;> simp [Stage.reported]

/-- An entry of the index that is in the tree under a key of a call is that call's. -/
theorem Posts.Sound.own_index (sound : s.Sound autoId database)
    (fresh : FreshIds autoId database) {k : Nat} {call : Call} (found : s.calls[k]? = some call)
    {uid zoneid : String} {index : Nat} (drawn : index ∈ call.keys)
    (there : s.database.get (indexPath uid zoneid (autoId index)) ≠ .null) :
    ∃ zone key own, call.stage = .stored zone key own := by
  by_cases unwritten : ∀ w ∈ s.written autoId, Apart w.1 (indexPath uid zoneid (autoId index))
  · rw [indexPath, sound.untouched _ _ (by decide) unwritten] at there
    exact absurd (fresh.index uid zoneid index) there
  · simp only [not_forall] at unwritten
    obtain ⟨w, member, together⟩ := unwritten
    obtain ⟨owner, inside, mine⟩ := List.mem_flatMap.mp member
    obtain ⟨zone, key, named, ⟨-, rfl⟩ | ⟨other, held, rfl, stage⟩⟩ := mem_writes mine
    · exact absurd (.inl (by decide)) together
    · have lives := (sound.calls owner inside).isZone named
      have same : other = index := by
        rcases prefix_of_not_apart together with below | above
        · -- an entry is a leaf, so nothing is below it
          obtain ⟨rest, path⟩ := below
          cases rest with
          | nil =>
              simp only [List.append_nil, indexPath, List.cons.injEq, true_and] at path
              exact fresh.key_of_last path.2
          | cons name rest =>
              have leaf := sound.stored _ member
              rw [← path, Json.get_append, leaf] at there
              exact absurd (Json.get_of_leaf rfl name rest) there
        · -- and no zone goes through the key
          simp only [indexPath, List.cons_prefix_cons, true_and] at above
          rcases List.prefix_concat_iff.mp above.2 with path | within
          · exact (fresh.key_of_last path).symm
          · exact absurd (within.subset List.mem_concat_self) (fresh.zone zone lives index)
      subst same
      obtain ⟨j, foundOwner⟩ := List.mem_iff_getElem?.mp inside
      obtain rfl := index_unique sound.distinct foundOwner found held drawn
      rw [found] at foundOwner
      obtain rfl := Option.some.inj foundOwner
      exact ⟨zone, key, other, stage⟩

end Invariant

/-- Both nodes of a call are in the tree, under keys of its own. -/
def Call.Stored (autoId : Nat → String) (database : Json) (call : Call) : Prop :=
  ∃ zoneid key index, key ∈ call.keys ∧ index ∈ call.keys ∧
    database.get (requestPath zoneid (autoId key)) = call.reqDict ∧
    database.get (indexPath call.uid zoneid (autoId index)) = .str (autoId key)

theorem Posts.Sound.sent_iff_stored {autoId : Nat → String} {database : Json} {s : Posts}
    (sound : s.Sound autoId database) (fresh : FreshIds autoId database) {call : Call}
    (member : call ∈ s.calls) :
    call.completions = [true] ↔ call.Stored autoId s.database := by
  refine (sound.calls call member).reported_iff.trans ⟨?_, ?_⟩
  · rintro ⟨zoneid, key, index, stage⟩
    have kept : ∀ w ∈ call.writes autoId, s.database.get w.1 = w.2 :=
      fun w inside => sound.stored w (List.mem_flatMap.mpr ⟨call, member, inside⟩)
    refine ⟨zoneid, key, index, by simp [Call.keys, stage], by simp [Call.keys, stage],
      kept (requestPath zoneid (autoId key), call.reqDict) (by simp [Call.writes, stage]),
      kept (indexPath call.uid zoneid (autoId index), .str (autoId key))
        (by simp [Call.writes, stage])⟩
  · rintro ⟨zoneid, key, index, -, drawn, -, indexed⟩
    obtain ⟨k, found⟩ := List.mem_iff_getElem?.mp member
    have there : s.database.get (indexPath call.uid zoneid (autoId index)) ≠ .null := by
      simp [indexed]
    exact sound.own_index fresh found drawn there

/-- However the replies of all clients are interleaved: a call reports once at
    most, and `true` exactly if both nodes are in the tree under its own keys; what
    is not as it was before, counters apart, is in a node that exactly one call
    wrote, and as it wrote it, or above such a node. -/
theorem posts_report_what_is_stored {autoId : Nat → String} {database : Json}
    (fresh : FreshIds autoId database) {events : List PostEvent} {s : Posts}
    (ran : run (Posts.step autoId) (Posts.start database) events = some s) :
    (∀ call ∈ s.calls, call.completions.length ≤ 1 ∧
      (call.completions = [true] ↔ call.Stored autoId s.database)) ∧
    ∀ top rest, top ∉ ["items", "requestCounter"] →
      s.database.get (top :: rest) ≠ database.get (top :: rest) →
      (∃! k : Nat, ∃ call : Call, s.calls[k]? = some call ∧ ∃ w ∈ call.writes autoId, ∃ below,
        top :: rest = w.1 ++ below ∧ s.database.get (top :: rest) = w.2.get below) ∨
      ∃ call ∈ s.calls, ∃ w ∈ call.writes autoId, ∃ name below,
        w.1 = top :: rest ++ name :: below ∧ s.database.get w.1 = w.2 := by
  have sound := Posts.run_sound fresh ran
  refine ⟨fun call member => ⟨(sound.calls call member).reported ▸ Stage.reported_length _,
    sound.sent_iff_stored fresh member⟩, fun top rest other changed => ?_⟩
  by_cases unwritten : ∀ w ∈ s.written autoId, Apart w.1 (top :: rest)
  · exact absurd (sound.untouched top rest other unwritten) changed
  · simp only [not_forall] at unwritten
    obtain ⟨w, member, together⟩ := unwritten
    obtain ⟨call, inside, mine⟩ := List.mem_flatMap.mp member
    have within : ∀ below, top :: rest = w.1 ++ below →
        ∃! k : Nat, ∃ call : Call, s.calls[k]? = some call ∧ ∃ w ∈ call.writes autoId, ∃ below,
          top :: rest = w.1 ++ below ∧ s.database.get (top :: rest) = w.2.get below := by
      intro below path
      obtain ⟨k, found⟩ := List.mem_iff_getElem?.mp inside
      refine ⟨k, ⟨call, found, w, mine, below, path, ?_⟩, ?_⟩
      · rw [path, Json.get_append, sound.stored w member]
      · rintro j ⟨owner, foundOwner, v, theirs, under, path', -⟩
        have same : v.1 = w.1 := by
          by_contra different
          have posted := sound.posted_of_written
            (List.mem_flatMap.mpr ⟨owner, List.mem_of_getElem? foundOwner, theirs⟩)
          have apart := posted.apart fresh (sound.posted_of_written member) different
          rcases List.prefix_or_prefix_of_prefix ⟨under, path'.symm⟩ ⟨below, path.symm⟩ with
            above | above
          · exact not_apart_of_prefix above apart
          · exact not_apart_of_prefix above apart.symm
        obtain ⟨key, held, drawn⟩ := shared_key fresh theirs mine same
        exact index_unique sound.distinct foundOwner found held drawn
    rcases prefix_of_not_apart together with ⟨below, path⟩ | ⟨below, path⟩
    · exact .inl (within below path.symm)
    · cases below with
      | nil => exact .inl (within [] (by simpa using path))
      | cons name below =>
          exact .inr ⟨call, inside, w, mine, name, below, path.symm, sound.stored w member⟩

section Example

/-- Keys of growing length. -/
def countingIds (n : Nat) : String := String.ofList (List.replicate (n + 1) 'k')

theorem countingIds_injective : Function.Injective countingIds := by
  intro n m same
  have lengths := congrArg (fun key : String => key.toList.length) same
  simpa [countingIds] using lengths

/-- A tree where the users live in these zones, and that nobody has posted to. -/
structure Homes (database : Json) (homes : List (String × String)) : Prop where
  elderly : database.child "elderly" =
    .obj (homes.map fun home => (home.1, .obj [("ZoneID", .str home.2)]))
  requests : database.child "requests" = .null
  index : database.child "userRequests" = .null

theorem Homes.zone {database : Json} {homes : List (String × String)} (here : Homes database homes)
    {zoneid : String} (zone : IsZone database zoneid) : zoneid ∈ homes.map Prod.snd := by
  obtain ⟨uid, found⟩ := isZone_iff.mp zone
  simp only [Json.get, here.elderly] at found
  clear here
  induction homes with
  | nil => cases found
  | cons home rest ih =>
      by_cases same : uid = home.1
      · simp only [Json.child, Json.entries, List.map_cons, List.lookup_cons, same, beq_self_eq_true,
          Option.getD_some, asString, Option.some.injEq] at found
        exact List.mem_map.mpr ⟨home, List.mem_cons_self, found⟩
      · refine List.mem_cons_of_mem _ (ih ?_)
        simpa [Json.child, Json.entries, List.lookup_cons, beq_false_of_ne same] using found

theorem Homes.zone_north {database : Json} {homes : List (String × String)}
    (here : Homes database homes) (north : ∀ home ∈ homes, home.2 = "north") {zoneid : String}
    (zone : IsZone database zoneid) : zoneid = "north" := by
  obtain ⟨home, lives, rfl⟩ := List.mem_map.mp (here.zone zone)
  exact north home lives

theorem Homes.fresh {database : Json} {homes : List (String × String)}
    (here : Homes database homes) (north : ∀ home ∈ homes, home.2 = "north") :
    FreshIds countingIds database where
  injective := countingIds_injective
  key := fun n => by
    simp [isValidKey, isValidPathString, inPath, invalidPathCharacters, countingIds]
  request := fun _ _ => Json.get_of_absent here.requests _
  index := fun _ _ _ => Json.get_of_absent here.index _
  zone := fun zoneid zone n => by
    have cut : pieces "north" = ["north"] := by decide
    rw [here.zone_north north zone, cut, List.mem_singleton]
    intro same
    have letters := congrArg String.toList same
    simp [countingIds, List.replicate_succ] at letters

theorem Homes.keyZones {database : Json} {homes : List (String × String)}
    (here : Homes database homes) (north : ∀ home ∈ homes, home.2 = "north") :
    KeyZones database := by
  intro zoneid zone
  rw [here.zone_north north zone]
  decide

private def twoTenants : Json :=
  .obj [("elderly", .obj [("amy", .obj [("ZoneID", .str "north")]),
    ("ben", .obj [("ZoneID", .str "north")])])]

private theorem twoTenants_homes : Homes twoTenants [("amy", "north"), ("ben", "north")] :=
  ⟨rfl, rfl, rfl⟩

private theorem twoTenants_zones : KeyZones twoTenants :=
  twoTenants_homes.keyZones (by simp)

private theorem twoTenants_fresh : FreshIds countingIds twoTenants :=
  twoTenants_homes.fresh (by simp)

private def twoMilk (senderID : String) : Request :=
  { id := none, dateCreated := none, senderID := senderID, status := some "sent"
    delSlotStart := some 1611100800
    items := [{ id := "milk", name := "Milk", icon := "m", qty := 2, bgCol := "blue" }] }

private def morning : Clock := ⟨1611000000, 1611014400⟩

private theorem morning_slot (senderID : String) :
    delSlotMillis (twoMilk senderID).delSlotStart morning.defaultSlot = some 1611100800000 := by
  have whole : rounded 1611100800 = 1611100800 := by norm_num [rounded]
  simp only [delSlotMillis, twoMilk, Option.getD_some, whole]
  rfl

private def crossing : List PostEvent :=
  [.post (some "amy") morning (twoMilk "amy"), .post (some "ben") morning (twoMilk "ben"),
    .zoneReply 1, .zoneReply 0, .requestReply 0 true, .requestReply 1 true, .indexReply 1 true,
    .indexReply 0 false, .commit 0]

private theorem crossing_runs : ∃ s,
    run (Posts.step countingIds) (Posts.start twoTenants) crossing = some s ∧
      s.calls.map Call.completions = [[false], [true]] ∧
      counterAt s.database (stockPath "milk") = -2 := by
  simp only [crossing, run_cons, Posts.step, Posts.post, morning_slot]
  exact ⟨_, rfl, rfl, rfl⟩

/-- Two posts cross; the index entry of the first is rejected. -/
theorem posts_report_what_is_stored_crossing : ∃ s,
    run (Posts.step countingIds) (Posts.start twoTenants) crossing = some s ∧
      s.calls.map Call.completions = [[false], [true]] ∧
      ∀ call ∈ s.calls, call.completions.length ≤ 1 := by
  obtain ⟨s, ran, completed, -⟩ := crossing_runs
  exact ⟨s, ran, completed, fun call member =>
    ((posts_report_what_is_stored twoTenants_fresh ran).1 call member).1⟩

end Example

/-- The order that a call reported as sent stands for. -/
def Call.order (database : Json) (call : Call) : Order :=
  ⟨(retrieveSubzone database (some call.uid)).1, call.items⟩

/-- The calls that were reported as sent. -/
def Posts.sent (s : Posts) : List Call := s.calls.filter fun call => call.completions = [true]

section Sent

variable {database : Json}

theorem Call.Sound.orders_eq {call : Call} (sound : call.Sound database) :
    call.orders = if call.completions = [true] then [call.order database] else [] := by
  rw [sound.reported]
  cases stage : call.stage with
  | stored zoneid key index =>
      have zone := (sound.zone zoneid (by simp [Call.zone, stage])).1
      simp [Call.orders, Call.order, Stage.reported, stage, zone]
  | _ => simp [Call.orders, Stage.reported, stage]

theorem Call.Sound.order_zone {call : Call} (sound : call.Sound database)
    (sent : call.completions = [true]) : IsZone database (call.order database).zoneid := by
  obtain ⟨zoneid, key, index, stage⟩ := sound.reported_iff.mp sent
  have zone := (sound.zone zoneid (by simp [Call.zone, stage])).1
  exact ⟨call.uid, by simp [Call.order, zone]⟩

theorem orders_eq_sent {calls : List Call} (sound : ∀ call ∈ calls, call.Sound database) :
    calls.flatMap Call.orders =
      (calls.filter fun call => call.completions = [true]).map (Call.order database) := by
  induction calls with
  | nil => rfl
  | cons call rest ih =>
      have others := ih fun other member => sound other (List.mem_cons_of_mem call member)
      rw [List.flatMap_cons, others, (sound call List.mem_cons_self).orders_eq]
      by_cases sent : call.completions = [true] <;> simp [sent]

end Sent

theorem KeyZones.separate {database : Json} (keys : KeyZones database) (zone : Zone) (id : String) :
    SeparateCounter database (requestCounterPath zone.1 id) :=
  fun zoneid _ lives _ member => separate_zone (keys zoneid lives) zone.2 member id

/-- Once the transactions in flight are added, every counter has moved by what the
    calls reported as sent have ordered, and by nothing else; those of a zone too,
    if the zones are keys. -/
theorem counters_account_for_sent {autoId : Nat → String} {database : Json}
    (fresh : FreshIds autoId database) {events : List PostEvent} {s : Posts}
    (ran : run (Posts.step autoId) (Posts.start database) events = some s) (id : String) :
    counterAt s.database (stockPath id) + total s.inFlight (stockPath id) =
        counterAt database (stockPath id) - (s.sent.map fun call => quantityOf call.items id).sum ∧
      counterAt s.database (requestedPath id) + total s.inFlight (requestedPath id) =
        counterAt database (requestedPath id) +
          (s.sent.map fun call => quantityOf call.items id).sum ∧
      (KeyZones database → ∀ zone : Zone,
        counterAt s.database (requestCounterPath zone.1 id) +
            total s.inFlight (requestCounterPath zone.1 id) =
          counterAt database (requestCounterPath zone.1 id) +
            zoneQuantity (s.sent.map (Call.order database)) zone.1 id) := by
  have sound := Posts.run_sound fresh ran
  have orders : s.orders = s.sent.map (Call.order database) := orders_eq_sent sound.calls
  have moved : ∀ path, CounterPath path → SeparateCounter database path →
      counterAt s.database path + total s.inFlight path = counterAt database path +
        (s.sent.map fun call => total (updateCounters call.items (call.order database).zoneid)
          path).sum := by
    intro path counter separate
    rw [sound.balance path counter separate, total_started, orders, List.map_map]
    rfl
  refine ⟨?_, ?_, fun keys zone => ?_⟩
  · rw [moved _ (.stock id) fun _ _ _ _ own => (counterPath_of_mem own).separate_stock id]
    simp only [total_stock]
    have negated : (s.sent.map fun call => -quantityOf call.items id).sum =
        -(s.sent.map fun call => quantityOf call.items id).sum := by
      rw [List.sum_neg, List.map_map]
      rfl
    omega
  · rw [moved _ (.requested id) fun _ _ _ _ own => (counterPath_of_mem own).separate_requested id]
    simp only [total_requested]
  · rw [moved _ (.requestCounter zone.1 id) (keys.separate zone id), zoneQuantity, List.map_map]
    congr 2
    refine List.map_congr_left fun call member => ?_
    obtain ⟨inside, sent⟩ := List.mem_filter.mp member
    have lives := (sound.calls call inside).order_zone (of_decide_eq_true sent)
    exact total_requestCounter call.items (keys _ lives) zone.2 id

/-- Of the two posts that cross, one counts, also in its zone. -/
theorem counters_account_for_sent_crossing : ∃ s,
    run (Posts.step countingIds) (Posts.start twoTenants) crossing = some s ∧
      counterAt s.database (stockPath "milk") = -2 ∧
      counterAt s.database (stockPath "milk") + total s.inFlight (stockPath "milk") =
        counterAt twoTenants (stockPath "milk") -
          (s.sent.map fun call => quantityOf call.items "milk").sum ∧
      counterAt s.database (requestCounterPath "north" "milk") +
          total s.inFlight (requestCounterPath "north" "milk") =
        counterAt twoTenants (requestCounterPath "north" "milk") +
          zoneQuantity (s.sent.map (Call.order twoTenants)) "north" "milk" := by
  obtain ⟨s, ran, -, stock⟩ := crossing_runs
  obtain ⟨taken, -, zones⟩ := counters_account_for_sent twoTenants_fresh ran "milk"
  exact ⟨s, ran, stock, taken, zones twoTenants_zones ⟨"north", by decide⟩⟩

/-! ## A call that is left alone -/

/-- The replies that `postRequest` takes as given, one after the other. -/
def alone (currentUser : Option String) (clock : Clock) (req : Request)
    (requestAccepted indexAccepted : Bool) : List PostEvent :=
  [.post currentUser clock req, .zoneReply 0, .requestReply 0 requestAccepted,
    .indexReply 0 indexAccepted]

/-- Without other clients in between, the stages are `postRequest`. -/
theorem postRequest_eq_run (autoId : Nat → String) (database : Json) (currentUser : Option String)
    (clock : Clock) (req : Request) (requestAccepted indexAccepted : Bool) :
    postRequest database currentUser clock req
        ⟨autoId 0, autoId 1, requestAccepted, indexAccepted⟩ =
      (run (Posts.step autoId) (Posts.start database)
        (alone currentUser clock req requestAccepted indexAccepted)).map fun s =>
          ⟨s.database, s.calls.flatMap Call.completions, s.inFlight⟩ := by
  cases currentUser with
  | none => rfl
  | some uid =>
      simp only [postRequest, alone, run_cons, Posts.step, Posts.post, Posts.start,
        Option.bind_eq_bind]
      cases delSlotMillis req.delSlotStart clock.defaultSlot with
      | none => rfl
      | some millis =>
          rcases zone : retrieveSubzone database (some uid) with ⟨zoneid, found⟩
          cases found with
          | false => simp [Call.begin, Posts.zoneReply, zone, Call.complete]
          | true =>
              cases writable : isWritable zoneid req.items with
              | false => simp [Call.begin, Posts.zoneReply, zone, writable, Call.moveTo]
              | true =>
                  cases requestAccepted with
                  | false =>
                      simp [Call.begin, Posts.zoneReply, zone, writable, Call.moveTo,
                        Posts.requestReply, Call.complete]
                  | true =>
                      cases indexAccepted <;> cases counted : isCountable req.items <;>
                        simp [Call.begin, Posts.zoneReply, zone, writable, Call.moveTo,
                          Posts.requestReply, Posts.indexReply, counted, Call.complete]

end Kasei.Checkout
