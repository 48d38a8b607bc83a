import Kasei.Models.Posting

/-! # Ordering more than there is

A client learns what remains of an item when it reads the catalogue, and checks
its quantity against that number. The stock is taken later, by a transaction
that subtracts whatever was ordered. The stock stays non-negative as long as
each transaction finds that what others took since the read, and its own
quantity, are covered by the number that was read.
-/

namespace Kasei.Overselling

open JsonTree Runs Counters

def remainingPath (id : String) : Path := ["items", id, "remaining"]

/-- An item that some client read, and how many transactions had committed. -/
structure Read where
  item : RequestItem
  logged : Nat

/-- A transaction that has been started and the read its item came from. -/
structure Started where
  transaction : Transaction
  read : Nat

/-- The database, all catalogue reads, the transactions in flight and those that
    have committed, oldest first. -/
structure Market where
  database : Json
  reads : List Read := []
  inFlight : List Started := []
  log : List Transaction := []

/-- One line of an order: an item as it was read, with a quantity. -/
structure Line where
  read : Nat
  qty : Int

inductive Event where
  /-- Whoever keeps `remaining` writes it; nothing in the app does. -/
  | remain (id : String) (value : Json)
  | read (languageCode : Option String) (id : String)
  | post (uid : String) (clock : Clock) (req : Request) (lines : List Line)
      (replies : PostReplies)
  | commit (index : Nat)

/-- The items of an order, each with its read; a line of no read is no item. -/
def basket (s : Market) (lines : List Line) : List (Nat × RequestItem) :=
  lines.filterMap fun line =>
    s.reads[line.read]?.map fun read => (line.read, { read.item with qty := line.qty })

/-- `updateCounters` starts three transactions per item. -/
def link (transactions : List Transaction) (items : List (Nat × RequestItem)) : List Started :=
  (transactions.zip (items.flatMap fun entry => [entry.1, entry.1, entry.1])).map fun started =>
    ⟨started.1, started.2⟩

def step (s : Market) (event : Event) : Option Market :=
  match event with
  | .remain id value => some { s with database := s.database.set (remainingPath id) value }
  | .read languageCode id =>
      match getRequestItem s.database languageCode id with
      | none => some s
      | some item => some { s with reads := s.reads ++ [⟨item, s.log.length⟩] }
  | .post uid clock req lines replies => do
      let items := basket s lines
      let posted ← postRequest s.database (some uid) clock
        { req with items := items.map Prod.snd } replies
      return { s with
        database := posted.database
        inFlight := s.inFlight ++ link posted.transactions items }
  | .commit index =>
      match s.inFlight[index]? with
      | none => some s
      | some started => do
          let database ← started.transaction.commit s.database
          return { s with
            database := database
            inFlight := s.inFlight.eraseIdx index
            log := s.log ++ [started.transaction] }

/-- A client that reads an item finds `remaining` equal to `stock`, and orders at
    most what it read as remaining. -/
def Lawful (s : Market) (event : Event) : Prop :=
  match event with
  | .read _ id => s.database.get (remainingPath id) = s.database.get (stockPath id)
  | .post _ _ _ lines _ => ∀ line ∈ lines, ∀ read, s.reads[line.read]? = some read →
      ∃ remaining, read.item.qtyRemaining = some remaining ∧ line.qty ≤ remaining
  | _ => True

/-- What the committed transactions took from an item since it was read. -/
def takenSince (s : Market) (read : Read) : Int :=
  -total (s.log.drop read.logged) (stockPath read.item.id)

/-- A transaction on a stock that commits takes no more than is left of the
    number that its client read. -/
def Covered (s : Market) (event : Event) : Prop :=
  match event with
  | .commit index => ∀ started, s.inFlight[index]? = some started →
      started.transaction.commit s.database ≠ none →
      ∀ id, started.transaction.path = stockPath id →
      ∀ read remaining, s.reads[started.read]? = some read →
        read.item.qtyRemaining = some remaining →
        takenSince s read + -started.transaction.amount ≤ remaining
  | _ => True

def NonNegative (s : Market) : Prop := ∀ id, 0 ≤ counterAt s.database (stockPath id)

/-- A counter transaction, which on a stock comes from a read of that item. -/
structure Linked (reads : List Read) (started : Started) : Prop where
  counter : CounterPath started.transaction.path
  source : ∀ id, started.transaction.path = stockPath id →
    ∃ read remaining, reads[started.read]? = some read ∧ read.item.id = id ∧
      read.item.qtyRemaining = some remaining

/-- The stock is what was read, less what was taken since. -/
structure Tracked (s : Market) : Prop where
  logged : ∀ read ∈ s.reads, read.logged ≤ s.log.length
  stock : ∀ read ∈ s.reads, ∀ remaining, read.item.qtyRemaining = some remaining →
    counterAt s.database (stockPath read.item.id) = remaining - takenSince s read
  linked : ∀ started ∈ s.inFlight, Linked s.reads started

theorem Tracked.start (database : Json) : Tracked { database := database } where
  logged := by simp
  stock := by simp
  linked := by simp

theorem postRequest_stock {database : Json} {uid : String} {clock : Clock} {req : Request}
    {replies : PostReplies} {posted : Posted}
    (post : postRequest database (some uid) clock req replies = some posted) :
    (∀ id, counterAt posted.database (stockPath id) = counterAt database (stockPath id)) ∧
      (posted.transactions = [] ∨
        ∃ zoneid, posted.transactions = updateCounters req.items zoneid) := by
  have written : ∀ (tree : Json) (top : String) (rest : Path) (value : Json) (accepted : Bool)
      (id : String), top ≠ "items" →
      counterAt (setValue tree (top :: rest) value accepted) (stockPath id) =
        counterAt tree (stockPath id) := by
    intro tree top rest value accepted id other
    unfold setValue
    split
    · have apart : Apart (top :: rest) (stockPath id) := Or.inl other
      rw [counterAt, Json.get_set_of_apart tree apart, counterAt]
    · rfl
  simp only [postRequest, Option.bind_eq_bind, Option.bind_eq_some_iff] at post
  obtain ⟨slot, -, post⟩ := post
  split at post
  · obtain rfl := Option.some.inj post
    exact ⟨fun _ => rfl, .inl rfl⟩
  · split at post
    · split at post
      · split at post
        · split at post
          · obtain rfl := Option.some.inj post
            refine ⟨fun id => ?_, .inr ⟨_, rfl⟩⟩
            exact (written _ _ _ _ _ _ (by decide)).trans (written _ _ _ _ _ _ (by decide))
          · cases post
        · obtain rfl := Option.some.inj post
          refine ⟨fun id => ?_, .inl rfl⟩
          exact (written _ _ _ _ _ _ (by decide)).trans (written _ _ _ _ _ _ (by decide))
      · obtain rfl := Option.some.inj post
        exact ⟨fun id => written _ _ _ _ _ _ (by decide), .inl rfl⟩
    · obtain rfl := Option.some.inj post
      exact ⟨fun _ => rfl, .inl rfl⟩

/-- Every started transaction belongs to one of the items, and to its read. -/
theorem mem_link {items : List (Nat × RequestItem)} {zoneid : String} {started : Started}
    (member : started ∈ link (updateCounters (items.map Prod.snd) zoneid) items) :
    ∃ entry ∈ items, started.read = entry.1 ∧
      started.transaction ∈ updateCounters [entry.2] zoneid := by
  induction items with
  | nil => simp [link, updateCounters] at member
  | cons entry rest ih =>
      simp only [link, updateCounters, List.map_cons, List.flatMap_cons, List.cons_append,
        List.nil_append, List.zip_cons_cons, List.mem_cons] at member
      have own : ∀ t, t ∈ updateCounters [entry.2] zoneid ↔
          t = ⟨stockPath entry.2.id, -entry.2.qty⟩ ∨
            t = ⟨requestCounterPath zoneid entry.2.id, entry.2.qty⟩ ∨
            t = ⟨requestedPath entry.2.id, entry.2.qty⟩ := by
        simp [updateCounters]
      rcases member with rfl | rfl | rfl | later
      · exact ⟨entry, List.mem_cons_self, rfl, (own _).mpr (.inl rfl)⟩
      · exact ⟨entry, List.mem_cons_self, rfl, (own _).mpr (.inr (.inl rfl))⟩
      · exact ⟨entry, List.mem_cons_self, rfl, (own _).mpr (.inr (.inr rfl))⟩
      · obtain ⟨other, inside, belongs⟩ := ih later
        exact ⟨other, List.mem_cons_of_mem entry inside, belongs⟩

section Steps

variable {s : Market}

theorem takenSince_concat {read : Read} (logged : read.logged ≤ s.log.length)
    (t : Transaction) (database : Json) (inFlight : List Started) :
    takenSince ⟨database, s.reads, inFlight, s.log ++ [t]⟩ read =
      takenSince s read - if t.path = stockPath read.item.id then t.amount else 0 := by
  simp only [takenSince, List.drop_append_of_le_length logged, total_append]
  simp only [total, List.map_cons, List.map_nil, List.sum_cons, List.sum_nil, add_zero]
  omega

theorem Tracked.of_stock (tracked : Tracked s) {database : Json}
    (same : ∀ id, counterAt database (stockPath id) = counterAt s.database (stockPath id)) :
    Tracked { s with database := database } where
  logged := tracked.logged
  stock := by
    intro read member remaining known
    rw [same]
    exact tracked.stock read member remaining known
  linked := tracked.linked

theorem remain_stock (database : Json) (name : String) (value : Json) (id : String) :
    counterAt (database.set (remainingPath name) value) (stockPath id) =
      counterAt database (stockPath id) := by
  have apart : Apart (remainingPath name) (stockPath id) :=
    Apart.of_ne rfl (by simp [remainingPath, stockPath])
  rw [counterAt, Json.get_set_of_apart database apart, counterAt]

theorem Tracked.read (tracked : Tracked s) {languageCode : Option String} {id : String}
    (lawful : Lawful s (.read languageCode id)) {item : RequestItem}
    (decoded : getRequestItem s.database languageCode id = some item) :
    Tracked { s with reads := s.reads ++ [⟨item, s.log.length⟩] } where
  logged := by
    intro read member
    rcases List.mem_append.mp member with older | last
    · exact tracked.logged read older
    · obtain rfl := List.mem_singleton.mp last
      exact le_refl _
  stock := by
    intro read member remaining known
    rcases List.mem_append.mp member with older | last
    · exact tracked.stock read older remaining known
    · obtain rfl := List.mem_singleton.mp last
      have nothing : takenSince { s with reads := s.reads ++ [⟨item, s.log.length⟩] }
          ⟨item, s.log.length⟩ = 0 := by
        simp [takenSince, total]
      rw [nothing, sub_zero, (getRequestItem_fresh decoded).1]
      rw [getRequestItem_remaining decoded] at known
      have equal : s.database.get ["items", id, "remaining"] = s.database.get (stockPath id) :=
        lawful
      simp only [counterAt, ← equal, known, Option.getD_some]
  linked := by
    intro started member
    refine ⟨(tracked.linked started member).counter, fun name path => ?_⟩
    obtain ⟨read, remaining, found, rest⟩ := (tracked.linked started member).source name path
    have inside : started.read < s.reads.length := (List.getElem?_eq_some_iff.mp found).1
    exact ⟨read, remaining, (List.getElem?_append_left inside).trans found, rest⟩

theorem linked_of_post {lines : List Line}
    (lawful : ∀ line ∈ lines, ∀ read, s.reads[line.read]? = some read →
      ∃ remaining, read.item.qtyRemaining = some remaining ∧ line.qty ≤ remaining)
    {zoneid : String} {started : Started}
    (member : started ∈ link (updateCounters ((basket s lines).map Prod.snd) zoneid)
      (basket s lines)) : Linked s.reads started := by
  obtain ⟨entry, inside, belongs, own⟩ := mem_link member
  obtain ⟨line, listed, found⟩ := List.mem_filterMap.mp inside
  obtain ⟨read, known, rfl⟩ := Option.map_eq_some_iff.mp found
  refine ⟨counterPath_of_mem own, fun id path => ?_⟩
  obtain ⟨remaining, has, -⟩ := lawful line listed read known
  refine ⟨read, remaining, by rw [belongs, known], ?_, has⟩
  simp only [updateCounters, List.flatMap_cons, List.flatMap_nil, List.append_nil, List.mem_cons,
    List.not_mem_nil, or_false] at own
  rcases own with stock | zone | requested
  · rw [stock] at path
    simpa [stockPath] using path
  · rw [zone] at path
    simp [requestCounterPath, stockPath] at path
  · rw [requested] at path
    simp [requestedPath, stockPath] at path

theorem Tracked.commit (tracked : Tracked s) {index : Nat} {started : Started}
    (found : s.inFlight[index]? = some started) {database : Json}
    (committed : started.transaction.commit s.database = some database) :
    Tracked ⟨database, s.reads, s.inFlight.eraseIdx index, s.log ++ [started.transaction]⟩ where
  logged := by
    intro read member
    have before := tracked.logged read member
    simp only [List.length_append]
    omega
  stock := by
    intro read member remaining known
    have counter := (tracked.linked started (List.mem_of_getElem? found)).counter
    simp only [takenSince_concat (tracked.logged read member)]
    rw [counterAt_commit (counter.separate_stock _) committed,
      tracked.stock read member remaining known]
    omega
  linked := fun other member => tracked.linked other (List.mem_of_mem_eraseIdx member)

theorem Tracked.step (tracked : Tracked s) {event : Event} (lawful : Lawful s event)
    {next : Market} (stepped : Overselling.step s event = some next) : Tracked next := by
  cases event with
  | remain name value =>
      obtain rfl := Option.some.inj stepped
      exact tracked.of_stock (remain_stock s.database name value)
  | read languageCode id =>
      simp only [Overselling.step] at stepped
      split at stepped
      · obtain rfl := Option.some.inj stepped
        exact tracked
      · rename_i item decoded
        obtain rfl := Option.some.inj stepped
        exact tracked.read lawful decoded
  | post uid clock req lines replies =>
      obtain ⟨posted, post, rest⟩ := Option.bind_eq_some_iff.mp stepped
      obtain rfl := Option.some.inj rest
      obtain ⟨stock, transactions⟩ := postRequest_stock post
      have kept := tracked.of_stock stock
      refine ⟨kept.logged, kept.stock, fun started member => ?_⟩
      rcases List.mem_append.mp member with older | new
      · exact kept.linked started older
      · rcases transactions with none | ⟨zoneid, loop⟩
        · simp [none, link] at new
        · rw [loop] at new
          exact linked_of_post lawful new
  | commit index =>
      simp only [Overselling.step] at stepped
      split at stepped
      · obtain rfl := Option.some.inj stepped
        exact tracked
      · rename_i started found
        obtain ⟨database, committed, rest⟩ := Option.bind_eq_some_iff.mp stepped
        obtain rfl := Option.some.inj rest
        exact tracked.commit found committed

theorem nonNegative_commit_iff (tracked : Tracked s) (good : NonNegative s) {index : Nat}
    {started : Started} (found : s.inFlight[index]? = some started) {database : Json}
    (committed : started.transaction.commit s.database = some database) :
    (∀ id, 0 ≤ counterAt database (stockPath id)) ↔ Covered s (.commit index) := by
  have linked := tracked.linked started (List.mem_of_getElem? found)
  have moved : ∀ id, counterAt database (stockPath id) =
      counterAt s.database (stockPath id) +
        if started.transaction.path = stockPath id then started.transaction.amount else 0 :=
    fun id => counterAt_commit (linked.counter.separate_stock id) committed
  constructor
  · rintro after other again - id path read remaining known has
    obtain rfl := Option.some.inj (found.symm.trans again)
    obtain ⟨source, -, same, rfl, -⟩ := linked.source id path
    obtain rfl := Option.some.inj (known.symm.trans same)
    have stock := tracked.stock read (List.mem_of_getElem? known) remaining has
    have left := after read.item.id
    rw [moved, if_pos path, stock] at left
    omega
  · intro covered id
    rw [moved]
    by_cases path : started.transaction.path = stockPath id
    · obtain ⟨read, remaining, known, rfl, has⟩ := linked.source id path
      have stock := tracked.stock read (List.mem_of_getElem? known) remaining has
      have enough := covered started found (by simp [committed]) _ path read remaining known has
      rw [if_pos path, stock]
      omega
    · rw [if_neg path, add_zero]
      exact good id

/-- Only a transaction on a stock can make it negative. -/
theorem nonNegative_step_iff (tracked : Tracked s) {event : Event} (good : NonNegative s)
    {next : Market} (stepped : Overselling.step s event = some next) :
    NonNegative next ↔ Covered s event := by
  cases event with
  | remain name value =>
      obtain rfl := Option.some.inj stepped
      exact iff_of_true (fun id => (good id).trans_eq (remain_stock s.database name value id).symm)
        trivial
  | read languageCode id =>
      simp only [Overselling.step] at stepped
      split at stepped <;> obtain rfl := Option.some.inj stepped <;>
        exact iff_of_true good trivial
  | post uid clock req lines replies =>
      obtain ⟨posted, post, rest⟩ := Option.bind_eq_some_iff.mp stepped
      obtain rfl := Option.some.inj rest
      have stock := (postRequest_stock post).1
      exact iff_of_true (fun id => (good id).trans_eq (stock id).symm) trivial
  | commit index =>
      simp only [Overselling.step] at stepped
      split at stepped
      · rename_i missing
        obtain rfl := Option.some.inj stepped
        apply iff_of_true good
        intro started found
        rw [missing] at found
        cases found
      · rename_i started found
        obtain ⟨database, committed, rest⟩ := Option.bind_eq_some_iff.mp stepped
        obtain rfl := Option.some.inj rest
        exact nonNegative_commit_iff tracked good found committed

theorem covered_of_trap {event : Event} (trapped : Overselling.step s event = none) :
    Covered s event := by
  cases event with
  | remain | read | post => trivial
  | commit index =>
      intro started found commits
      obtain ⟨database, committed⟩ := Option.ne_none_iff_exists'.mp commits
      simp [Overselling.step, found, committed] at trapped

end Steps

/-- Under any interleaving of reads, posts and transactions, the stocks stay
    non-negative exactly if every transaction on a stock is covered by the number
    that its client read. -/
theorem stocks_nonNegative_iff {database : Json}
    (start : ∀ id, 0 ≤ counterAt database (stockPath id)) {events : List Event}
    (lawful : Along step Lawful { database := database } events) :
    Always step NonNegative { database := database } events ↔
      Along step Covered { database := database } events :=
  Along.always_iff (fun _ _ _ tracked here stepped => tracked.step here stepped)
    (fun _ _ trapped => covered_of_trap trapped)
    (fun _ _ _ tracked _ good stepped => nonNegative_step_iff tracked good stepped)
    (Tracked.start database) start lawful

section LastOne

private def lastRice : Json :=
  .obj [("items", .obj [("rice", .obj [("name", .str "Rice"), ("icon", .str "r"),
      ("bgCol", .str "red"), ("stock", .int 1), ("remaining", .int 1)])]),
    ("elderly", .obj [("amy", .obj [("ZoneID", .str "north")]),
      ("bo", .obj [("ZoneID", .str "north")])])]

private def plainRequest (uid : String) : Request :=
  { id := none, dateCreated := none, senderID := uid, status := some "sent"
    delSlotStart := some 1611100800, items := [] }

private def orderOne (uid : String) (read : Nat) (key : String) : Event :=
  .post uid ⟨1611000000, 1611014400⟩ (plainRequest uid) [⟨read, 1⟩] ⟨key, key, true, true⟩

private theorem lastRice_stocked : ∀ id, 0 ≤ counterAt lastRice (stockPath id) := by
  intro id
  by_cases same : id = "rice"
  · subst same
    decide
  · have missing : lastRice.get (stockPath id) = .null := by
      simp [lastRice, stockPath, Json.get, Json.child, Json.entries, List.lookup_cons,
        beq_false_of_ne same]
    simp [counterAt, missing, asInt]

private theorem order_lawful {s : Market} {uid : String} {read : Nat} {key : String} {seen : Read}
    (known : s.reads[read]? = some seen) (remaining : seen.item.qtyRemaining = some 1) :
    Lawful s (orderOne uid read key) := by
  intro line listed other found
  obtain rfl := List.mem_singleton.mp listed
  obtain rfl := Option.some.inj (known.symm.trans found)
  exact ⟨1, remaining, le_refl 1⟩

private theorem order_step {s : Market} {uid : String} (read : Nat) (key : String)
    (lives : retrieveSubzone s.database (some uid) = ("north", true))
    (writable : isWritable "north" ((basket s [⟨read, 1⟩]).map Prod.snd) = true)
    (countable : isCountable ((basket s [⟨read, 1⟩]).map Prod.snd) = true) :
    step s (orderOne uid read key) = some { s with
      database := (s.database.set (requestPath "north" key)
          (requestDictionary 1611000000 1611100800000
            { plainRequest uid with items := (basket s [⟨read, 1⟩]).map Prod.snd })).set
        (indexPath uid "north" key) (.str key)
      inFlight := s.inFlight ++
        link (updateCounters ((basket s [⟨read, 1⟩]).map Prod.snd) "north")
          (basket s [⟨read, 1⟩]) } := by
  have whole : rounded 1611100800 = 1611100800 := by norm_num [rounded]
  have slot : delSlotMillis (some 1611100800) 1611014400 = some 1611100800000 := by
    simp only [delSlotMillis, Option.getD_some, whole]
    decide
  simp only [step, orderOne, plainRequest, postRequest, slot, lives, Option.bind_eq_bind,
    Option.bind_some, setValue, writable, countable, if_true]
  rfl

theorem stocks_nonNegative_one_order :
    Always step NonNegative { database := lastRice }
      [.read none "rice", orderOne "amy" 0 "a", .commit 0] := by
  refine (stocks_nonNegative_iff lastRice_stocked ?_).mpr ?_
  · refine ⟨rfl, fun s first => ?_⟩
    obtain rfl := Option.some.inj first
    refine ⟨order_lawful rfl rfl, fun s second => ?_⟩
    exact ⟨trivial, fun _ _ => trivial⟩
  · refine ⟨trivial, fun s first => ?_⟩
    obtain rfl := Option.some.inj first
    refine ⟨trivial, fun s second => ?_⟩
    obtain rfl := Option.some.inj ((order_step 0 "a" rfl rfl rfl).symm.trans second)
    refine ⟨?_, fun _ _ => trivial⟩
    rintro started found - id path read remaining known has
    obtain rfl := Option.some.inj found
    obtain rfl := Option.some.inj known
    obtain rfl := Option.some.inj has
    decide

/-- Two clients read the last one, both order it, and both transactions commit. -/
theorem two_orders_oversell :
    (∀ id, 0 ≤ counterAt lastRice (stockPath id)) ∧
      Along step Lawful { database := lastRice }
        [.read none "rice", .read none "rice", orderOne "amy" 0 "a", orderOne "bo" 1 "b",
          .commit 0, .commit 2] ∧
      ¬ Always step NonNegative { database := lastRice }
        [.read none "rice", .read none "rice", orderOne "amy" 0 "a", orderOne "bo" 1 "b",
          .commit 0, .commit 2] := by
  refine ⟨lastRice_stocked, ?_, fun held => ?_⟩
  · refine ⟨rfl, fun s first => ?_⟩
    obtain rfl := Option.some.inj first
    refine ⟨rfl, fun s second => ?_⟩
    obtain rfl := Option.some.inj second
    refine ⟨order_lawful rfl rfl, fun s third => ?_⟩
    obtain rfl := Option.some.inj ((order_step 0 "a" rfl rfl rfl).symm.trans third)
    refine ⟨order_lawful rfl rfl, fun s fourth => ?_⟩
    exact ⟨trivial, fun _ _ => ⟨trivial, fun _ _ => trivial⟩⟩
  · have ordered := ((held.2 _ rfl).2 _ rfl).2 _ (order_step 0 "a" rfl rfl rfl)
    have both := ordered.2 _ (order_step 1 "b" rfl rfl rfl)
    have sold := (both.2 _ rfl).2 _ rfl "rice"
    exact absurd sold (by decide)

end LastOne

end Kasei.Overselling
