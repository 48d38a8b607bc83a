import Kasei.CoreData.Sync
import Kasei.Lib.Runs

/-! # Syncs that are cut short

`updateSavedRequests` is one call, but the disk sees it as a sequence of writes:
every deletion, mark and new row is saved by itself, and the language of the
sync is recorded last. The process may end between any two of them. What is
left is read at the next launch, by a sync that knows nothing of the one before.
-/

namespace Kasei.CoreData

open JsonTree Runs

/-- A change that is on the disk once it is made. -/
inductive Write where
  | deleteRequest (order : FetchOrder) (id : String)
  | markRequestAsOld (order : FetchOrder) (id : String)
  | saveRequest (request : Request)
  | setLocale (languageCode : Option String)

def Write.apply (saved : Saved) : Write → Saved
  | .deleteRequest order id =>
      { saved with store := CoreData.deleteRequest order saved.store id }
  | .markRequestAsOld order id =>
      { saved with store := CoreData.markRequestAsOld order saved.store id }
  | .saveRequest request => { saved with store := CoreData.saveRequest saved.store request }
  | .setLocale languageCode => { saved with currLocale := languageCode }

/-- The writes of the loop over the old requests, up to its end or to the forced
    unwrap of a nil id, and the new requests left over at its end. -/
def loopWrites (orders : Nat → FetchOrder) (changedLocale : Bool) :
    List Request → List Request → List Write × Option (List Request)
  | [], newRequests => ([], some newRequests)
  | old :: rest, newRequests =>
      match findMatch changedLocale old newRequests with
      | some i =>
          let later :=
            loopWrites (fun n => orders (n + 1)) changedLocale rest (newRequests.eraseIdx i)
          if old.isNew.getD false then
            match old.id with
            | some id => (.markRequestAsOld (orders 0) id :: later.1, later.2)
            | none => ([], none)
          else later
      | none =>
          let later := loopWrites (fun n => orders (n + 1)) changedLocale rest newRequests
          match old.id with
          | some id => (.deleteRequest (orders 0) id :: later.1, later.2)
          | none => ([], none)

section Sync

variable (orders : Nat → FetchOrder) (languageCode : Option String) (saved : Saved)
  (newRequests : List Request)

/-- The loop of `updateSavedRequests`. -/
def syncLoop : List Write × Option (List Request) :=
  loopWrites (fun n => orders (n + 1)) (saved.currLocale != languageCode)
    (loadAllRequests (orders 0) saved.store) newRequests

/-- What follows the loop, if it comes to its end. -/
def syncTail : List Write :=
  match (syncLoop orders languageCode saved newRequests).2 with
  | none => []
  | some remaining => remaining.map .saveRequest ++
      if saved.currLocale != languageCode then [.setLocale languageCode] else []

def syncWrites : List Write :=
  (syncLoop orders languageCode saved newRequests).1 ++
    syncTail orders languageCode saved newRequests

end Sync

/-- What is on the device between two processes. -/
structure Disk where
  firstLaunch : Bool
  saved : Saved

/-- An app that was never launched. -/
def Disk.installed : Disk := ⟨false, ⟨[], none⟩⟩

inductive DiskEvent where
  | launch (languageCode : Option String)
  /-- A sync that is cut short after a number of writes, if it has more. -/
  | sync (orders : Nat → FetchOrder) (languageCode : Option String) (newRequests : List Request)
      (writes : Nat)

/-- The defaults that `AppDelegate` sets at the first launch. -/
def Disk.didFinishLaunching (disk : Disk) (languageCode : Option String) : Disk :=
  if !disk.firstLaunch then ⟨true, { disk.saved with currLocale := languageCode }⟩ else disk

/-- No sync runs before the first launch. -/
def Disk.step (disk : Disk) : DiskEvent → Option Disk
  | .launch languageCode => some (disk.didFinishLaunching languageCode)
  | .sync orders languageCode newRequests writes =>
      if disk.firstLaunch then
        some { disk with
          saved := ((syncWrites orders languageCode disk.saved newRequests).take writes).foldl
            Write.apply disk.saved }
      else some disk

/-- The loop as a sequence of writes is the loop of the sync. -/
theorem syncOld_writes {old : List Request} :
    ∀ {orders : Nat → FetchOrder} {changedLocale : Bool} {newRequests : List Request}
      (saved : Saved),
      syncOld orders changedLocale old newRequests saved.store =
        (loopWrites orders changedLocale old newRequests).2.map fun remaining =>
          (remaining, ((loopWrites orders changedLocale old newRequests).1.foldl Write.apply
            saved).store) := by
  induction old with
  | nil => exact fun _ => rfl
  | cons first rest ih =>
      intro orders changedLocale newRequests saved
      cases found : findMatch changedLocale first newRequests with
      | none =>
          cases named : first.id with
          | none => simp [syncOld, loopWrites, found, named]
          | some id =>
              simp only [syncOld, loopWrites, found, named, Option.bind_eq_bind, Option.bind_some,
                List.foldl_cons]
              exact ih (Write.apply saved (.deleteRequest (orders 0) id))
      | some i =>
          by_cases isNew : first.isNew.getD false = true
          · cases named : first.id with
            | none => simp [syncOld, loopWrites, found, named, isNew]
            | some id =>
                simp only [syncOld, loopWrites, found, named, isNew, if_true, Option.map_some,
                  Option.bind_eq_bind, Option.bind_some, List.foldl_cons]
                exact ih (Write.apply saved (.markRequestAsOld (orders 0) id))
          · simp only [syncOld, loopWrites, found, isNew, Option.bind_eq_bind, Option.bind_some]
            exact ih saved

/-- A write of the loop: it saves no row. -/
def Write.Shrinks : Write → Prop
  | .deleteRequest _ _ | .markRequestAsOld _ _ => True
  | .saveRequest _ | .setLocale _ => False

theorem loopWrites_shrink {old : List Request} :
    ∀ {orders : Nat → FetchOrder} {changedLocale : Bool} {newRequests : List Request},
      ∀ write ∈ (loopWrites orders changedLocale old newRequests).1, write.Shrinks := by
  induction old with
  | nil => simp [loopWrites]
  | cons first rest ih =>
      intro orders changedLocale newRequests write member
      simp only [loopWrites] at member
      split at member
      · split at member
        · split at member
          · obtain rfl | later := List.mem_cons.mp member
            · trivial
            · exact ih write later
          · cases member
        · exact ih write member
      · split at member
        · obtain rfl | later := List.mem_cons.mp member
          · trivial
          · exact ih write later
        · cases member

/-- Under a new language nothing matches, and every new request is left over. -/
theorem loopWrites_changed {old newRequests remaining : List Request} :
    ∀ {orders : Nat → FetchOrder},
      (loopWrites orders true old newRequests).2 = some remaining → remaining = newRequests := by
  induction old with
  | nil => exact fun done => (Option.some.inj done).symm
  | cons first rest ih =>
      intro orders done
      simp only [loopWrites, findMatch, if_true] at done
      split at done
      · exact ih done
      · cases done

section Cut

variable {orders : Nat → FetchOrder} {languageCode : Option String} {saved : Saved}
  {newRequests : List Request}

theorem foldl_saves (requests : List Request) (saved : Saved) :
    (requests.map Write.saveRequest).foldl Write.apply saved =
      { saved with store := saved.store ++ requests.map cdrequest } := by
  induction requests generalizing saved with
  | nil => simp
  | cons request rest ih =>
      rw [List.map_cons, List.foldl_cons, ih]
      simp [Write.apply, saveRequest]

theorem shrunk_locale {writes : List Write} (shrink : ∀ write ∈ writes, write.Shrinks)
    (saved : Saved) : (writes.foldl Write.apply saved).currLocale = saved.currLocale := by
  induction writes generalizing saved with
  | nil => rfl
  | cons write rest ih =>
      rw [List.foldl_cons, ih (fun other later => shrink other (List.mem_cons_of_mem _ later))]
      have here := shrink write List.mem_cons_self
      cases write with
      | deleteRequest | markRequestAsOld => rfl
      | saveRequest | setLocale => cases here

theorem shrunk_rows {P : CDRequest → Prop} (blind : ∀ row, P row → P { row with isNew := false })
    {writes : List Write} (shrink : ∀ write ∈ writes, write.Shrinks) {saved : Saved}
    (rows : ∀ row ∈ saved.store, P row) :
    ∀ row ∈ (writes.foldl Write.apply saved).store, P row := by
  induction writes generalizing saved with
  | nil => exact rows
  | cons write rest ih =>
      refine ih (fun other later => shrink other (List.mem_cons_of_mem _ later)) ?_
      have here := shrink write List.mem_cons_self
      cases write with
      | deleteRequest => exact fun row member => rows row (deleteRequest_sublist.subset member)
      | markRequestAsOld => exact markRequestAsOld_rows blind rows
      | saveRequest | setLocale => cases here

theorem shrunk_distinct {writes : List Write} (shrink : ∀ write ∈ writes, write.Shrinks)
    {saved : Saved} (distinct : (saved.store.map CDRequest.id).Nodup) :
    ((writes.foldl Write.apply saved).store.map CDRequest.id).Nodup := by
  induction writes generalizing saved with
  | nil => exact distinct
  | cons write rest ih =>
      refine ih (fun other later => shrink other (List.mem_cons_of_mem _ later)) ?_
      have here := shrink write List.mem_cons_self
      cases write with
      | deleteRequest => exact distinct.sublist (deleteRequest_sublist.map _)
      | markRequestAsOld => exact markRequestAsOld_ids.nodup_iff.mpr distinct
      | saveRequest | setLocale => cases here

variable (orders languageCode saved newRequests) in
/-- What a sync leaves behind that is cut short after `writes` writes: it was cut
    in its loop, or while it saved rows, or it came to its end. -/
inductive Cut (writes : Nat) : Saved → Prop where
  | shrunk {done : List Write} : (∀ write ∈ done, write.Shrinks) →
      Cut writes (done.foldl Write.apply saved)
  | saving {remaining store} (count : Nat) :
      syncOld (fun n => orders (n + 1)) (saved.currLocale != languageCode)
        (loadAllRequests (orders 0) saved.store) newRequests saved.store =
          some (remaining, store) →
      (syncLoop orders languageCode saved newRequests).1.length < writes →
      writes < (syncWrites orders languageCode saved newRequests).length →
      Cut writes ⟨store ++ (remaining.take count).map cdrequest, saved.currLocale⟩
  | complete {synced} : updateSavedRequests orders languageCode saved newRequests = some synced →
      Cut writes synced

theorem syncLoop_shrink :
    ∀ write ∈ (syncLoop orders languageCode saved newRequests).1, write.Shrinks :=
  fun write member => loopWrites_shrink write member

theorem syncOld_eq (orders : Nat → FetchOrder) (languageCode : Option String) (saved : Saved)
    (newRequests : List Request) :
    syncOld (fun n => orders (n + 1)) (saved.currLocale != languageCode)
        (loadAllRequests (orders 0) saved.store) newRequests saved.store =
      (syncLoop orders languageCode saved newRequests).2.map fun remaining =>
        (remaining, ((syncLoop orders languageCode saved newRequests).1.foldl Write.apply
          saved).store) :=
  syncOld_writes saved

/-- A sync that comes to its end is the sequence of all its writes. -/
theorem updateSavedRequests_writes {remaining : List Request}
    (done : (syncLoop orders languageCode saved newRequests).2 = some remaining) :
    updateSavedRequests orders languageCode saved newRequests =
      some ((syncWrites orders languageCode saved newRequests).foldl Write.apply saved) := by
  simp only [updateSavedRequests, syncOld_eq, done, Option.map_some, Option.bind_eq_bind,
    Option.bind_some, foldl_saveRequest]
  rw [syncWrites, syncTail, done, List.foldl_append, List.foldl_append, foldl_saves,
    shrunk_locale syncLoop_shrink]
  split <;> rfl

theorem sync_cut (orders : Nat → FetchOrder) (languageCode : Option String) (saved : Saved)
    (newRequests : List Request) (writes : Nat) :
    Cut orders languageCode saved newRequests writes
      (((syncWrites orders languageCode saved newRequests).take writes).foldl Write.apply
        saved) := by
  have loop := syncOld_eq orders languageCode saved newRequests
  by_cases inLoop : writes ≤ (syncLoop orders languageCode saved newRequests).1.length
  · rw [syncWrites, List.take_append_of_le_length inLoop]
    exact .shrunk fun write member => syncLoop_shrink write (List.mem_of_mem_take member)
  · cases done : (syncLoop orders languageCode saved newRequests).2 with
    | none =>
        rw [syncWrites, syncTail, done, List.append_nil, List.take_of_length_le (by omega)]
        exact .shrunk syncLoop_shrink
    | some remaining =>
        by_cases all : (syncWrites orders languageCode saved newRequests).length ≤ writes
        · rw [List.take_of_length_le all]
          exact .complete (updateSavedRequests_writes done)
        · -- the loop is over, and some of the new rows are saved
          have within : writes - (syncLoop orders languageCode saved newRequests).1.length ≤
              (remaining.map Write.saveRequest).length := by
            rw [syncWrites, syncTail, done, List.length_append, List.length_append] at all
            split at all <;> simp only [List.length_singleton, List.length_nil] at all <;> omega
          rw [done] at loop
          have cut := Cut.saving
            (writes - (syncLoop orders languageCode saved newRequests).1.length) loop
            (Nat.lt_of_not_le inLoop) (Nat.lt_of_not_le all)
          rw [syncWrites, syncTail, done, List.take_append, List.take_of_length_le (by omega),
            List.take_append_of_le_length within, List.foldl_append, ← List.map_take, foldl_saves,
            shrunk_locale syncLoop_shrink]
          exact cut

theorem Cut.distinct {writes : Nat} {left : Saved}
    (cut : Cut orders languageCode saved newRequests writes left)
    (distinct : (saved.store.map CDRequest.id).Nodup)
    (named : ∀ row ∈ saved.store, row.id ≠ none)
    (newDistinct : (newRequests.map Request.id).Nodup)
    (newNamed : ∀ request ∈ newRequests, request.id ≠ none) :
    (left.store.map CDRequest.id).Nodup ∧ ∀ row ∈ left.store, row.id ≠ none := by
  have blind : ∀ row : CDRequest, row.id ≠ none → { row with isNew := false }.id ≠ none :=
    fun _ known => known
  cases cut with
  | shrunk shrink => exact ⟨shrunk_distinct shrink distinct, shrunk_rows blind shrink named⟩
  | @saving remaining store count ran =>
      have loaded := (loadAllRequests_perm (orders 0) saved.store).map Request.id
      rw [List.map_map] at loaded
      have ids := syncOld_ids [] loaded.symm ran
      obtain ⟨within, kept⟩ := syncOld_rows blind named ran
      constructor
      · refine (ids.nodup_iff.mpr newDistinct).sublist ?_
        rw [List.map_append, List.map_map]
        exact ((List.take_sublist count remaining).map Request.id).append_left _
      · intro row member
        obtain older | new := List.mem_append.mp member
        · exact kept row older
        · obtain ⟨request, among, rfl⟩ := List.mem_map.mp new
          exact newNamed request (within (List.mem_of_mem_take among))
  | complete synced =>
      have ids := updateSavedRequests_ids synced
      exact ⟨ids.nodup_iff.mpr newDistinct, ids_named ids newNamed⟩

end Cut

/-- The ids of the lists that are synced. -/
def DiskEvent.Distinct : DiskEvent → Prop
  | .launch _ => True
  | .sync _ _ newRequests _ => (newRequests.map Request.id).Nodup ∧
      ∀ request ∈ newRequests, request.id ≠ none

theorem Disk.step_distinct {disk next : Disk} {event : DiskEvent} (lists : event.Distinct)
    (distinct : (disk.saved.store.map CDRequest.id).Nodup ∧
      ∀ row ∈ disk.saved.store, row.id ≠ none)
    (stepped : disk.step event = some next) :
    (next.saved.store.map CDRequest.id).Nodup ∧ ∀ row ∈ next.saved.store, row.id ≠ none := by
  cases event with
  | launch languageCode =>
      obtain rfl := Option.some.inj stepped
      unfold Disk.didFinishLaunching
      split <;> exact distinct
  | sync orders languageCode newRequests writes =>
      simp only [Disk.step] at stepped
      split at stepped <;> obtain rfl := Option.some.inj stepped
      · exact (sync_cut orders languageCode disk.saved newRequests writes).distinct distinct.1
          distinct.2 lists.1 lists.2
      · exact distinct

/-- However many syncs were cut short, and wherever, since the app was installed, if
    each was of requests with different ids: the next sync that is not cut short
    comes to its end, and leaves one row for each fetched request and no other. -/
theorem cut_syncs_recover {events : List DiskEvent} (lists : ∀ event ∈ events, event.Distinct)
    {disk : Disk} (ran : run Disk.step .installed events = some disk)
    (orders : Nat → FetchOrder) (languageCode : Option String) {newRequests : List Request}
    (distinct : (newRequests.map Request.id).Nodup) :
    ∃ after, updateSavedRequests orders languageCode disk.saved newRequests = some after ∧
      (after.store.map fun row => (row.id, row.status)).Perm
        (newRequests.map fun request => (request.id, request.status)) ∧
      after.currLocale = languageCode ∧
      (syncWrites orders languageCode disk.saved newRequests).foldl Write.apply disk.saved =
        after := by
  have kept := Always.last (Along.always (fun _ _ _ held met stepped =>
    Disk.step_distinct met held stepped) (s := Disk.installed) (by simp [Disk.installed])
    (Along.of_forall fun _ => lists)) ran
  obtain ⟨after, synced⟩ :=
    updateSavedRequests_total orders languageCode newRequests kept.2
  refine ⟨after, synced, updateSavedRequests_keys kept.1 distinct synced,
    updateSavedRequests_locale synced, ?_⟩
  obtain ⟨remaining, store, loop, -⟩ := updateSavedRequests_some synced
  rw [syncOld_eq] at loop
  obtain ⟨left, done, -⟩ := Option.map_eq_some_iff.mp loop
  exact Option.some.inj ((updateSavedRequests_writes done).symm.trans synced)

section Example

private def ordered (id status : String) : Request :=
  { id := some id, dateCreated := some 1, senderID := "amy", status := some status
    delSlotStart := some 2, items := [] }

/-- The first sync is cut short after one of two rows, the second one in its loop. -/
private def cutTwice : List DiskEvent :=
  [.launch (some "en"),
    .sync (fun _ => .listed) (some "en") [ordered "a" "sent", ordered "b" "sent"] 1,
    .sync (fun _ => .listed) (some "zh") [ordered "b" "sent", ordered "a" "otw"] 1]

theorem cut_syncs_recover_twice :
    ∃ disk after, run Disk.step .installed cutTwice = some disk ∧
      updateSavedRequests (fun _ => .listed) (some "en") disk.saved
        [ordered "b" "otw", ordered "a" "otw"] = some after ∧
      (after.store.map fun row => (row.id, row.status)).Perm
        [(some "b", some "otw"), (some "a", some "otw")] := by
  have lists : ∀ event ∈ cutTwice, event.Distinct := by
    simp [cutTwice, DiskEvent.Distinct, ordered]
  have distinct : ([ordered "b" "otw", ordered "a" "otw"].map fun req => req.id).Nodup := by
    decide
  obtain ⟨after, synced, rows, -⟩ :=
    cut_syncs_recover lists rfl (fun _ => .listed) (some "en") distinct
  exact ⟨_, after, rfl, synced, rows⟩

end Example

section Language

variable (database : Json)

/-- The items of a row are named as the catalogue names them in a language. -/
def InLanguage (languageCode : Option String) (row : CDRequest) : Prop :=
  ∀ cditem ∈ row.items, ∃ item, getRequestItem database languageCode cditem.id = some item ∧
    cditem.name = item.name

/-- The items of the lists that are synced were decoded in the language of the
    sync. -/
def DiskEvent.Decoded : DiskEvent → Prop
  | .launch _ => True
  | .sync _ languageCode newRequests _ => ∀ request ∈ newRequests, ∀ item ∈ request.items,
      ∃ decoded, getRequestItem database languageCode item.id = some decoded ∧
        item.name = decoded.name

/-- No sync under a new language is cut short after its first new row and before
    it has recorded the language. -/
def Untorn (disk : Disk) : DiskEvent → Prop
  | .launch _ => True
  | .sync orders languageCode newRequests writes =>
      disk.saved.currLocale = languageCode ∨
        writes ≤ (syncLoop orders languageCode disk.saved newRequests).1.length ∨
        (syncWrites orders languageCode disk.saved newRequests).length ≤ writes

variable {database}

theorem inLanguage_cdrequest {languageCode : Option String} {request : Request}
    (decoded : ∀ item ∈ request.items, ∃ decoded,
      getRequestItem database languageCode item.id = some decoded ∧ item.name = decoded.name) :
    InLanguage database languageCode (cdrequest request) := by
  intro cditem member
  obtain ⟨item, inside, rfl⟩ := List.mem_map.mp member
  exact decoded item inside

theorem updateSavedRequests_changed {orders : Nat → FetchOrder} {languageCode : Option String}
    {saved after : Saved} {newRequests : List Request}
    (changed : saved.currLocale ≠ languageCode)
    (synced : updateSavedRequests orders languageCode saved newRequests = some after) :
    after.store = newRequests.map cdrequest := by
  obtain ⟨remaining, store, ran, rfl⟩ := updateSavedRequests_some synced
  have loaded := (loadAllRequests_perm (orders 0) saved.store).map Request.id
  rw [List.map_map] at loaded
  have ids := (syncOld_ids [] loaded.symm ran).length_eq
  rw [syncOld_eq] at ran
  obtain ⟨left, done, same⟩ := Option.map_eq_some_iff.mp ran
  obtain ⟨rfl, -⟩ := Prod.mk.inj same
  rw [syncLoop, bne_iff_ne.mpr changed] at done
  rw [loopWrites_changed done] at ids ⊢
  have empty : store = [] := by
    rw [← List.length_eq_zero_iff]
    simpa using ids
  rw [empty, List.nil_append]

/-- The rows after a sync that is not torn are in the language on record. -/
theorem Cut.inLanguage {orders : Nat → FetchOrder} {languageCode : Option String} {saved : Saved}
    {newRequests : List Request} {writes : Nat} {left : Saved}
    (cut : Cut orders languageCode saved newRequests writes left)
    (decoded : ∀ request ∈ newRequests, InLanguage database languageCode (cdrequest request))
    (untorn : saved.currLocale = languageCode ∨
      writes ≤ (syncLoop orders languageCode saved newRequests).1.length ∨
      (syncWrites orders languageCode saved newRequests).length ≤ writes)
    (rows : ∀ row ∈ saved.store, InLanguage database saved.currLocale row) :
    ∀ row ∈ left.store, InLanguage database left.currLocale row := by
  have blind : ∀ language row, InLanguage database language row →
      InLanguage database language { row with isNew := false } := fun _ _ held => held
  cases cut with
  | shrunk shrink =>
      rw [shrunk_locale shrink]
      exact shrunk_rows (blind _) shrink rows
  | @saving remaining store count ran after before =>
      have unchanged : saved.currLocale = languageCode := by
        rcases untorn with same | early | late
        · exact same
        · omega
        · omega
      obtain ⟨within, kept⟩ := syncOld_rows (blind _) rows ran
      intro row member
      obtain older | new := List.mem_append.mp member
      · exact kept row older
      · obtain ⟨request, among, rfl⟩ := List.mem_map.mp new
        rw [unchanged]
        exact decoded request (within (List.mem_of_mem_take among))
  | complete synced =>
      rw [updateSavedRequests_locale synced]
      by_cases unchanged : saved.currLocale = languageCode
      · rw [unchanged] at rows
        exact updateSavedRequests_rows (blind _) rows decoded synced
      · rw [updateSavedRequests_changed unchanged synced]
        intro row member
        obtain ⟨request, asked, rfl⟩ := List.mem_map.mp member
        exact decoded request asked

/-- What every run without a torn sync keeps. -/
structure Disk.Consistent (database : Json) (disk : Disk) : Prop where
  fresh : disk.firstLaunch = false → disk.saved.store = []
  language : ∀ row ∈ disk.saved.store, InLanguage database disk.saved.currLocale row

theorem Disk.Consistent.step {disk next : Disk} {event : DiskEvent}
    (consistent : disk.Consistent database) (decoded : event.Decoded database)
    (untorn : Untorn disk event) (stepped : disk.step event = some next) :
    next.Consistent database := by
  cases event with
  | launch languageCode =>
      obtain rfl := Option.some.inj stepped
      unfold Disk.didFinishLaunching
      cases launched : disk.firstLaunch with
      | true => exact consistent
      | false => exact ⟨by simp, by simp [consistent.fresh launched]⟩
  | sync orders languageCode newRequests writes =>
      simp only [Disk.step] at stepped
      split at stepped <;> obtain rfl := Option.some.inj stepped
      · rename_i launched
        refine ⟨fun fresh => ?_, ?_⟩
        · simp [launched] at fresh
        · exact (sync_cut orders languageCode disk.saved newRequests writes).inLanguage
            (fun request asked => inLanguage_cdrequest (decoded request asked)) untorn
            consistent.language
      · exact consistent

/-- In every run of launches and syncs, in any languages and cut short anywhere
    but between the first new row and the record of a new language, all rows are
    named in the language on record. -/
theorem cache_language {events : List DiskEvent} (decoded : ∀ event ∈ events, event.Decoded database)
    (untorn : Along Disk.step Untorn .installed events) :
    Always Disk.step
      (fun disk => ∀ row ∈ disk.saved.store, InLanguage database disk.saved.currLocale row)
      .installed events := by
  refine Always.mono (Q := Disk.Consistent database) (fun _ consistent => consistent.language) ?_
  refine Along.always (fun _ _ _ held met stepped => held.step met.1 met.2 stepped) ?_
    (Along.and (Along.of_forall fun _ => decoded) untorn)
  exact ⟨fun _ => rfl, by simp [Disk.installed]⟩

private def salt : Json :=
  .obj [("items", .obj [("salt", .obj [("name", .str "Salt"), ("name_zh", .str "盐"),
    ("icon", .str "s"), ("bgCol", .str "white")])])]

private def orderedSalt (name : String) : Request :=
  { id := some "a", dateCreated := some 1, senderID := "amy", status := some "sent"
    delSlotStart := some 2
    items := [{ id := "salt", name := name, icon := "s", qty := 1, bgCol := "white" }] }

/-- A first sync in the other language, and a second one that is cut short. -/
private def relocated : List DiskEvent :=
  [.launch (some "en"), .sync (fun _ => .listed) (some "zh") [orderedSalt "盐"] 2,
    .sync (fun _ => .listed) (some "en") [orderedSalt "Salt"] 1]

private theorem loadAllRequests_nil (order : FetchOrder) : loadAllRequests order [] = [] := by
  simpa using loadAllRequests_perm order []

theorem cache_language_relocated :
    Always Disk.step
      (fun disk => ∀ row ∈ disk.saved.store, InLanguage salt disk.saved.currLocale row)
      .installed relocated := by
  refine cache_language ?_ ⟨trivial, ?_⟩
  · intro event member
    simp only [relocated, List.mem_cons, List.not_mem_nil, or_false] at member
    obtain rfl | rfl | rfl := member
    · trivial
    · simp only [DiskEvent.Decoded, orderedSalt, List.mem_singleton, forall_eq]
      exact ⟨_, rfl, rfl⟩
    · simp only [DiskEvent.Decoded, orderedSalt, List.mem_singleton, forall_eq]
      exact ⟨_, rfl, rfl⟩
  · rintro _ ⟨⟩
    refine ⟨.inr (.inr ?_), ?_⟩
    · simp [Disk.didFinishLaunching, Disk.installed, syncWrites, syncTail, syncLoop,
        loadAllRequests_nil, loopWrites]
    · intro next stepped
      refine ⟨.inr (.inl ?_), fun _ _ => trivial⟩
      obtain rfl := Option.some.inj stepped
      simp [Disk.didFinishLaunching, Disk.installed, syncWrites, syncTail, syncLoop, Write.apply,
        saveRequest, loadAllRequests, FetchOrder.listed, loopWrites, findMatch, loadRequest,
        cdrequest, orderedSalt]

end Language

end Kasei.CoreData
