import Kasei.Models.RequestItem

/-! # Posting a request

`postRequest` is a chain of replies: the zone lookup, the write of the request
node, the write of its index entry, and then the counter transactions that
`updateCounters` starts. What the outside decides (the keys that
`childByAutoId` draws and whether each write is accepted) is `PostReplies`; a
rejected write leaves the tree alone.

`child:` throws for a zone that is no path, and `setValue` for an item id that
is no key. The app ends there, with nothing written and nothing reported. `none`
is a trap, or the same exception in the counter loop: `setValue` lets three
names pass that `child:` does not.
-/

namespace Kasei

open JsonTree

/-- One `runTransactionBlock`: read the counter, a missing or non-integer one
    as 0, and add. -/
structure Transaction where
  path : Path
  amount : Int
  deriving Repr, DecidableEq

def counterAt (database : Json) (path : Path) : Int :=
  (asInt (database.get path)).getD 0

def Transaction.commit (database : Json) (transaction : Transaction) : Option Json :=
  let value := counterAt database transaction.path + transaction.amount
  if fitsInt value then some (database.set transaction.path (.int value)) else none

/-! An item id that gets here has passed `setValue` as a key, so it is one name. -/

def stockPath (id : String) : Path := ["items", id, "stock"]
def requestedPath (id : String) : Path := ["items", id, "requested"]
def requestCounterPath (zoneid id : String) : Path := "requestCounter" :: (pieces zoneid ++ [id])

theorem pieces_requestCounter (zoneid : String) {id : String} (key : isValidKey id = true) :
    pieces s!"requestCounter/{zoneid}/{id}" = requestCounterPath zoneid id := by
  have cut := pieces_path "requestCounter" zoneid id
  rwa [pieces_of_key key] at cut

def updateCounters (items : List RequestItem) (zoneid : String) : List Transaction :=
  items.flatMap fun item =>
    [⟨stockPath item.id, -item.qty⟩,
     ⟨requestCounterPath zoneid item.id, item.qty⟩,
     ⟨requestedPath item.id, item.qty⟩]

/-- `rounded()`: to the nearest integer, halves away from zero. -/
def rounded (value : ℚ) : Int :=
  if 0 ≤ value then ⌊value + 1 / 2⌋ else ⌈value - 1 / 2⌉

/-- `Int64(_)` of an integral value, and checked multiplication. -/
def toInt64 (n : Int) : Option Int := if fitsInt n then some n else none

/-- `*` binds tighter than `??`, so only the default slot is scaled before the
    rounding; both are scaled after it. -/
def delSlotMillis (delSlotStart : Option ℚ) (defaultSlot : ℚ) : Option Int := do
  let whole ← toInt64 (rounded (delSlotStart.getD (defaultSlot * 1000)))
  toInt64 (whole * 1000)

def contentDictionary (items : List RequestItem) : List (String × Int) :=
  items.foldl (fun dictionary itm => insertEntry itm.id itm.qty dictionary) []

/-- The names that `setValue` reads as something else than a child. -/
def metadataKeys : List String := [".priority", ".value", ".sv"]

/-- Which keys of a dictionary of numbers `setValue` takes. Beside `.value` it
    looks at no other key, and `.sv` has to stand alone. -/
def isValidDictionary (keys : List String) : Bool :=
  keys.contains ".value" ||
    if keys.contains ".sv" then keys.length == 1
    else keys.all fun key => metadataKeys.contains key || isValidKey key

/-- `nodeFrom`: what `setValue` makes of such a dictionary. -/
def nodeFrom (entries : List (String × Int)) : Json :=
  match entries.lookup ".value" with
  | some value => .int value
  | none => ofDictionary
      ((entries.filter fun e => !metadataKeys.contains e.1).map fun e => (e.1, .int e.2))

def requestDictionary (now : ℚ) (delSlotStart : Int) (req : Request) : Json :=
  ofDictionary
    [("dateCreated", .double now),
     ("content", nodeFrom (contentDictionary req.items)),
     ("delSlotStart", .int delSlotStart),
     ("senderID", .str req.senderID),
     ("status", .str (req.status.getD ""))]

/-- The two arguments of the completion of `retrieveSubzone`. -/
def retrieveSubzone (database : Json) (currentUser : Option String) : String × Bool :=
  match currentUser with
  | none => ("", false)
  | some uid =>
      match asString (observeSingleEvent database ["elderly", uid] "ZoneID").value with
      | some zoneid => (zoneid, true)
      | none => ("", false)

/-- The clock at the call: `Date()` and the calendar's 8 o'clock of that day. -/
structure Clock where
  now : ℚ
  defaultSlot : ℚ

structure PostReplies where
  requestKey : String
  indexKey : String
  requestAccepted : Bool
  indexAccepted : Bool

structure Posted where
  database : Json
  completions : List Bool
  transactions : List Transaction

def setValue (database : Json) (path : Path) (value : Json) (accepted : Bool) : Json :=
  if accepted then database.set path value else database

def indexPath (uid zoneid key : String) : Path := "userRequests" :: uid :: (pieces zoneid ++ [key])

theorem pieces_index {uid : String} (user : isValidKey uid = true) (zoneid key : String) :
    pieces s!"userRequests/{uid}/{zoneid}" ++ [key] = indexPath uid zoneid key := by
  have cut := pieces_path "userRequests" uid zoneid
  rw [pieces_of_key user] at cut
  exact congrArg (· ++ [key]) cut

/-- Neither `child:` nor `setValue` throws on the way to the first write. -/
def isWritable (zoneid : String) (items : List RequestItem) : Bool :=
  isValidPathString s!"requests/{zoneid}" &&
    isValidDictionary ((contentDictionary items).map Prod.fst)

/-- `child:` does not throw in the counter loop. -/
def isCountable (items : List RequestItem) : Bool :=
  items.all fun item => isValidPathString s!"items/{item.id}/stock"

def postRequest (database : Json) (currentUser : Option String) (clock : Clock) (req : Request)
    (replies : PostReplies) : Option Posted :=
  match currentUser with
  | none => some ⟨database, [], []⟩
  | some uid => do
      let delSlotStart ← delSlotMillis req.delSlotStart clock.defaultSlot
      let reqDict := requestDictionary clock.now delSlotStart req
      match retrieveSubzone database currentUser with
      | (_, false) => return ⟨database, [false], []⟩
      | (zoneid, true) =>
          if isWritable zoneid req.items then
            let written := setValue database (requestPath zoneid replies.requestKey) reqDict
              replies.requestAccepted
            if replies.requestAccepted then
              let indexed := setValue written (indexPath uid zoneid replies.indexKey)
                (.str replies.requestKey) replies.indexAccepted
              if replies.indexAccepted then
                if isCountable req.items then
                  return ⟨indexed, [true], updateCounters req.items zoneid⟩
                else none
              else return ⟨indexed, [false], []⟩
            else return ⟨written, [false], []⟩
          else return ⟨database, [], []⟩

/-- With distinct ids the dictionary has one entry per item, in list order. -/
theorem contentDictionary_of_distinct {items : List RequestItem}
    (distinct : (items.map RequestItem.id).Nodup) :
    contentDictionary items = items.map fun itm => (itm.id, itm.qty) := by
  have appended : ∀ (rest : List RequestItem) (dictionary : List (String × Int)),
      (dictionary.map Prod.fst ++ rest.map RequestItem.id).Nodup →
      rest.foldl (fun dictionary itm => insertEntry itm.id itm.qty dictionary) dictionary =
        dictionary ++ rest.map fun itm => (itm.id, itm.qty) := by
    intro rest
    induction rest with
    | nil =>
        intro dictionary _
        simp
    | cons itm later ih =>
        intro dictionary separate
        have fresh : itm.id ∉ dictionary.map Prod.fst := by
          intro member
          exact (List.nodup_append.mp separate).2.2 _ member _ (by simp) rfl
        rw [List.foldl_cons, insertEntry_of_fresh _ fresh, ih]
        · simp
        · simpa using separate
  simpa [contentDictionary] using appended items [] (by simpa using distinct)

section Checks

variable {zoneid : String} {items : List RequestItem}

theorem mem_contentKeys {key : String} :
    key ∈ (contentDictionary items).map Prod.fst ↔ ∃ item ∈ items, item.id = key := by
  have folded : ∀ (rest : List RequestItem) (dictionary : List (String × Int)),
      key ∈ (rest.foldl (fun dictionary itm => insertEntry itm.id itm.qty dictionary)
        dictionary).map Prod.fst ↔
      (∃ item ∈ rest, item.id = key) ∨ key ∈ dictionary.map Prod.fst := by
    intro rest
    induction rest with
    | nil =>
        intro dictionary
        simp
    | cons itm later ih =>
        intro dictionary
        have first : (∃ item ∈ itm :: later, item.id = key) ↔
            key = itm.id ∨ ∃ item ∈ later, item.id = key := by simp [eq_comm]
        rw [List.foldl_cons, ih, mem_keys_insertEntry, first, or_left_comm, or_assoc]
  simpa [contentDictionary] using folded items []

theorem isValidPathString_requests (zoneid : String) :
    isValidPathString s!"requests/{zoneid}" = inPath zoneid :=
  isValidPathString_append (by decide : isValidPathString "requests/" = true) zoneid

theorem isCountable_eq (items : List RequestItem) :
    isCountable items = items.all fun item => inPath item.id := by
  have stock : ∀ id, isValidPathString s!"items/{id}/stock" = inPath id := by
    intro id
    have cut : s!"items/{id}/stock" = "items/" ++ (id ++ "/stock") := String.append_assoc
    have tail : inPath "/stock" = true := by decide
    rw [cut, isValidPathString_append (by decide), inPath_append, tail, Bool.and_true]
  simp only [isCountable, stock]

/-- What gets past `setValue` and the counter loop are keys, and keys get past both. -/
theorem passes_iff : isWritable zoneid items = true ∧ isCountable items = true ↔
    inPath zoneid = true ∧ ∀ item ∈ items, isValidKey item.id = true := by
  simp only [isWritable, isValidPathString_requests, isCountable_eq, Bool.and_eq_true,
    List.all_eq_true, and_assoc, and_congr_right_iff]
  intro zone
  constructor
  · rintro ⟨dictionary, countable⟩
    have plain : ∀ key ∈ metadataKeys, key ∉ (contentDictionary items).map Prod.fst := by
      intro key metadata member
      obtain ⟨item, inside, rfl⟩ := mem_contentKeys.mp member
      have legal := countable item inside
      simp only [metadataKeys, List.mem_cons, List.not_mem_nil, or_false] at metadata
      rcases metadata with same | same | same <;> rw [same] at legal <;> revert legal <;> decide
    simp only [isValidDictionary, List.contains_eq_mem, plain ".value" (by decide),
      plain ".sv" (by decide), decide_false, Bool.false_or, Bool.false_eq_true, if_false,
      List.all_eq_true, Bool.or_eq_true, decide_eq_true_eq] at dictionary
    intro item inside
    have member := mem_contentKeys.mpr ⟨item, inside, rfl⟩
    exact (dictionary item.id member).resolve_left fun metadata => plain _ metadata member
  · intro ids
    have plain : ∀ key ∈ (contentDictionary items).map Prod.fst, isValidKey key = true := by
      intro key member
      obtain ⟨item, inside, rfl⟩ := mem_contentKeys.mp member
      exact ids item inside
    have value : ".value" ∉ (contentDictionary items).map Prod.fst :=
      fun member => absurd (plain _ member) (by decide)
    have sv : ".sv" ∉ (contentDictionary items).map Prod.fst :=
      fun member => absurd (plain _ member) (by decide)
    refine ⟨?_, fun item inside => inPath_of_key (ids item inside)⟩
    simp only [isValidDictionary, List.contains_eq_mem, value, sv, decide_false, Bool.false_or,
      Bool.false_eq_true, if_false, List.all_eq_true, Bool.or_eq_true]
    exact fun key member => .inr (plain key member)

theorem nodeFrom_of_keys (ids : ∀ item ∈ items, isValidKey item.id = true) :
    nodeFrom (contentDictionary items) =
      .obj ((contentDictionary items).map fun e => (e.1, .int e.2)) := by
  have plain : ∀ e ∈ contentDictionary items, e.1 ∉ metadataKeys := by
    intro e inside metadata
    obtain ⟨item, member, same⟩ := mem_contentKeys.mp (List.mem_map_of_mem (f := Prod.fst) inside)
    have valid := ids item member
    simp only [metadataKeys, List.mem_cons, List.not_mem_nil, or_false] at metadata
    rw [same] at valid
    rcases metadata with name | name | name <;> rw [name] at valid <;> revert valid <;> decide
  have value : (contentDictionary items).lookup ".value" = none := by
    simp only [List.lookup_eq_none_iff, bne_iff_ne]
    intro e inside same
    exact plain e inside (same ▸ by decide)
  have kept : (contentDictionary items).filter (fun e => !metadataKeys.contains e.1) =
      contentDictionary items := by
    simp only [List.filter_eq_self, List.contains_eq_mem]
    intro e inside
    simp [plain e inside]
  rw [nodeFrom, value]
  simp only [kept]
  simp [ofDictionary, List.filter_map, Function.comp_def, Json.isEmpty]

end Checks

end Kasei
