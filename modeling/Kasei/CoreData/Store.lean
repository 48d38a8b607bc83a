import Mathlib.Data.List.Sort
import Mathlib.Data.String.Basic
import Kasei.Models.RequestItem

/-! # The saved requests

`CDHandler` over a store of rows. A fetch returns the rows it selects in an
order of its own, and a to-many relationship its members in no order at all:
both choices are a `FetchOrder`, so a statement about every one of them is a
statement about every answer Core Data may give. Fetches and saves succeed.
-/

namespace Kasei.CoreData

structure CDRequestItem where
  id : String
  name : String
  icon : String
  qty : Int
  bgCol : String
  deriving Repr, DecidableEq

/-- A row. `saveRequest` is its only writer, and a request always has a
    sender, so that attribute is never nil. -/
structure CDRequest where
  id : Option String
  dateCreated : Option ℚ
  senderID : String
  status : Option String
  delSlotStart : Option ℚ
  isNew : Bool
  items : List CDRequestItem
  deriving Repr, DecidableEq

/-- An `Integer 32` attribute. -/
def toInt32 (n : Int) : Int := n.bmod (2 ^ 32)

theorem toInt32_of_fits {n : Int} (low : -2 ^ 31 ≤ n) (high : n < 2 ^ 31) : toInt32 n = n := by
  unfold toInt32
  exact Int.bmod_eq_of_le (by omega) (by omega)

structure FetchOrder where
  rows : List CDRequest → List CDRequest
  items : List CDRequestItem → List CDRequestItem
  rows_perm : ∀ selected, (rows selected).Perm selected
  items_perm : ∀ members, (items members).Perm members

/-- The rows and members as the store lists them. -/
def FetchOrder.listed : FetchOrder := ⟨id, id, fun _ => .refl _, fun _ => .refl _⟩

def cdrequest (request : Request) : CDRequest where
  id := request.id
  dateCreated := request.dateCreated
  senderID := request.senderID
  status := request.status
  delSlotStart := request.delSlotStart
  isNew := true
  items := request.items.map fun item =>
    ⟨item.id, item.name, item.icon, toInt32 item.qty, item.bgCol⟩

def saveRequest (store : List CDRequest) (request : Request) : List CDRequest :=
  store ++ [cdrequest request]

theorem foldl_saveRequest (requests : List Request) (store : List CDRequest) :
    requests.foldl saveRequest store = store ++ requests.map cdrequest := by
  induction requests generalizing store with
  | nil => simp
  | cons request rest ih => simp [List.foldl_cons, ih, saveRequest]

/-- The first row that a fetch by id returns. -/
def firstWithId (order : FetchOrder) (store : List CDRequest) (id : String) : Option CDRequest :=
  (order.rows (store.filter fun row => row.id = some id)).head?

def deleteRequest (order : FetchOrder) (store : List CDRequest) (id : String) :
    List CDRequest :=
  match firstWithId order store id with
  | some row => store.erase row
  | none => store

def markRequestAsOld (order : FetchOrder) (store : List CDRequest) (id : String) :
    List CDRequest :=
  match firstWithId order store id with
  | some row => store.replace row { row with isNew := false }
  | none => store

/-- Dates in the store's order, where no date comes before every date. -/
def dateLE : Option ℚ → Option ℚ → Bool
  | none, _ => true
  | some _, none => false
  | some first, some second => first ≤ second

/-- Swift orders strings by the scalars of their normal forms. -/
def loadRequest (order : FetchOrder) (cdr : CDRequest) : Request where
  id := cdr.id
  dateCreated := cdr.dateCreated
  senderID := cdr.senderID
  status := cdr.status
  delSlotStart := cdr.delSlotStart
  items := ((order.items cdr.items).mergeSort fun a b => !(b.name < a.name)).map fun cdi =>
    { id := cdi.id, name := cdi.name, icon := cdi.icon, qty := cdi.qty, bgCol := cdi.bgCol }
  isNew := some cdr.isNew

/-- Newest first; requests of one date come in the order of the fetch. -/
def loadAllRequests (order : FetchOrder) (store : List CDRequest) : List Request :=
  ((order.rows store).mergeSort fun a b => dateLE b.dateCreated a.dateCreated).map
    (loadRequest order)

theorem sortedRows_perm (order : FetchOrder) (store : List CDRequest) :
    ((order.rows store).mergeSort fun a b => dateLE b.dateCreated a.dateCreated).Perm store :=
  (List.mergeSort_perm _ _).trans (order.rows_perm store)

theorem sortedItems_perm (order : FetchOrder) (row : CDRequest) :
    ((order.items row.items).mergeSort fun a b => !(b.name < a.name)).Perm row.items :=
  (List.mergeSort_perm _ _).trans (order.items_perm row.items)

theorem loadAllRequests_perm (order : FetchOrder) (store : List CDRequest) :
    (loadAllRequests order store).Perm (store.map (loadRequest order)) :=
  (sortedRows_perm order store).map _

theorem mem_loadAllRequests {order : FetchOrder} {store : List CDRequest} {request : Request} :
    request ∈ loadAllRequests order store ↔ ∃ row ∈ store, loadRequest order row = request := by
  rw [(loadAllRequests_perm order store).mem_iff, List.mem_map]

theorem firstWithId_mem {order : FetchOrder} {store : List CDRequest} {id : String}
    {row : CDRequest} (found : firstWithId order store id = some row) :
    row ∈ store ∧ row.id = some id := by
  have member := (order.rows_perm _).mem_iff.mp (List.mem_of_mem_head? found)
  simpa only [List.mem_filter, decide_eq_true_eq] using member

theorem firstWithId_isSome (order : FetchOrder) {store : List CDRequest} {row : CDRequest}
    {id : String} (member : row ∈ store) (same : row.id = some id) :
    ∃ first, firstWithId order store id = some first := by
  cases found : firstWithId order store id with
  | some first => exact ⟨first, rfl⟩
  | none =>
      have empty := List.head?_eq_none_iff.mp found
      have selected : row ∈ store.filter fun row => row.id = some id :=
        List.mem_filter.mpr ⟨member, decide_eq_true same⟩
      rw [← (order.rows_perm _).mem_iff, empty] at selected
      cases selected

/-! ## The two orders of a loaded list -/

section Orders

theorem nameLE_iff {a b : CDRequestItem} : (!decide (b.name < a.name)) = true ↔ a.name ≤ b.name := by
  simp only [Bool.not_eq_eq_eq_not, Bool.not_true, decide_eq_false_iff_not, not_lt]

theorem nameLE_trans (a b c : CDRequestItem) (first : (!decide (b.name < a.name)) = true)
    (second : (!decide (c.name < b.name)) = true) : (!decide (c.name < a.name)) = true := by
  rw [nameLE_iff] at *
  exact le_trans first second

theorem nameLE_total (a b : CDRequestItem) :
    (!decide (b.name < a.name) || !decide (a.name < b.name)) = true := by
  rw [Bool.or_eq_true, nameLE_iff, nameLE_iff]
  exact le_total _ _

theorem dateLE_trans {a b c : Option ℚ} (first : dateLE a b) (second : dateLE b c) :
    dateLE a c := by
  cases a <;> cases b <;> cases c <;> simp_all [dateLE]
  exact le_trans first second

theorem dateLE_total (a b : Option ℚ) : dateLE a b || dateLE b a := by
  cases a <;> cases b <;> simp [dateLE, le_total]

theorem dateLE_antisymm {a b : Option ℚ} (first : dateLE a b) (second : dateLE b a) : a = b := by
  cases a <;> cases b <;> simp_all [dateLE]
  exact le_antisymm first second

/-- Decoding keeps the date, so the rows may be decoded before they are sorted. -/
theorem loadAllRequests_eq (order : FetchOrder) (store : List CDRequest) :
    loadAllRequests order store = ((order.rows store).map (loadRequest order)).mergeSort
      fun a b => dateLE b.dateCreated a.dateCreated :=
  List.map_mergeSort fun _ _ _ _ => rfl

theorem laterFirst_trans (a b c : Request) (below : dateLE b.dateCreated a.dateCreated)
    (above : dateLE c.dateCreated b.dateCreated) : dateLE c.dateCreated a.dateCreated :=
  dateLE_trans above below

theorem loadAllRequests_sorted (order : FetchOrder) (store : List CDRequest) :
    (loadAllRequests order store).Pairwise fun a b => dateLE b.dateCreated a.dateCreated := by
  rw [loadAllRequests_eq]
  exact List.pairwise_mergeSort laterFirst_trans (fun _ _ => dateLE_total _ _) _

theorem loadRequest_sorted (order : FetchOrder) (row : CDRequest) :
    (loadRequest order row).items.Pairwise fun a b => a.name ≤ b.name := by
  apply List.pairwise_map.mpr
  have sorted := List.pairwise_mergeSort nameLE_trans nameLE_total (order.items row.items)
  exact sorted.imp nameLE_iff.mp

end Orders

/-! ## Loading does not depend on the order of what is stored

Rows of distinct dates and items of distinct names come out in one order. -/

section Canonical

/-- Sorting by a total order in which no two members tie. -/
theorem mergeSort_eq_of_perm {α : Type} {le : α → α → Bool}
    (trans : ∀ a b c, le a b → le b c → le a c) (total : ∀ a b, le a b || le b a)
    {first second : List α} (rows : first.Perm second)
    (apart : ∀ a ∈ first, ∀ b ∈ first, le a b → le b a → a = b) :
    first.mergeSort le = second.mergeSort le := by
  refine List.Perm.eq_of_pairwise ?_ (List.pairwise_mergeSort trans total first)
    (List.pairwise_mergeSort trans total second)
    ((List.mergeSort_perm first le).trans (rows.trans (List.mergeSort_perm second le).symm))
  intro a b left right
  rw [List.mem_mergeSort] at left right
  exact apart a left b (rows.mem_iff.mpr right)

/-- Rows that differ in the order of their items only. -/
def SameRow (one two : CDRequest) : Prop :=
  two = { one with items := two.items } ∧ two.items.Perm one.items

theorem SameRow.refl (row : CDRequest) : SameRow row row := ⟨rfl, .refl _⟩

theorem loadRequest_same {one two : CDRequest} (same : SameRow one two)
    (names : (one.items.map CDRequestItem.name).Nodup) (first second : FetchOrder) :
    loadRequest first one = loadRequest second two := by
  obtain ⟨labels, items⟩ := same
  have listed := (first.items_perm one.items).trans
    (items.symm.trans (second.items_perm two.items).symm)
  have sorted : ((first.items one.items).mergeSort fun a b => !(b.name < a.name)) =
      (second.items two.items).mergeSort fun a b => !(b.name < a.name) := by
    apply mergeSort_eq_of_perm nameLE_trans nameLE_total listed
    intro a left b right below above
    rw [nameLE_iff] at below above
    exact List.inj_on_of_nodup_map names ((first.items_perm _).mem_iff.mp left)
      ((first.items_perm _).mem_iff.mp right) (le_antisymm below above)
  simp only [loadRequest, sorted]
  rw [labels]

/-- Two stores with the same rows, up to the order of rows and items, are loaded
    alike. -/
theorem loadAllRequests_same {one two : List CDRequest} {rows others : List CDRequest}
    (left : one.Perm rows) (right : two.Perm others) (same : List.Forall₂ SameRow rows others)
    (dates : (one.map CDRequest.dateCreated).Nodup)
    (names : ∀ row ∈ one, (row.items.map CDRequestItem.name).Nodup) (first second : FetchOrder) :
    loadAllRequests first one = loadAllRequests second two := by
  have decoded : rows.map (loadRequest first) = others.map (loadRequest second) := by
    have everyName : ∀ row ∈ rows, (row.items.map CDRequestItem.name).Nodup :=
      fun row member => names row (left.mem_iff.mpr member)
    clear left right
    induction same with
    | nil => rfl
    | @cons row other _ _ here later ih =>
        rw [List.map_cons, List.map_cons,
          loadRequest_same here (everyName row List.mem_cons_self) first second,
          ih fun row member => everyName row (List.mem_cons_of_mem _ member)]
  have loaded : ((first.rows one).map (loadRequest first)).Perm
      ((second.rows two).map (loadRequest second)) :=
    (((first.rows_perm one).trans left).map _).trans
      ((List.Perm.of_eq decoded).trans (((second.rows_perm two).trans right).map _).symm)
  rw [loadAllRequests_eq, loadAllRequests_eq]
  apply mergeSort_eq_of_perm laterFirst_trans (fun a b => dateLE_total _ _) loaded
  intro a leftMember b rightMember below above
  obtain ⟨row, inside, rfl⟩ := List.mem_map.mp leftMember
  obtain ⟨other, there, rfl⟩ := List.mem_map.mp rightMember
  rw [List.inj_on_of_nodup_map dates ((first.rows_perm one).mem_iff.mp inside)
    ((first.rows_perm one).mem_iff.mp there) (dateLE_antisymm above below)]

end Canonical

/-! ## Loading undoes saving -/

section Restored

/-- The attributes of an item that are saved and read back. -/
def itemAttributes (item : RequestItem) : String × String × String × Int × String :=
  (item.id, item.name, item.icon, item.qty, item.bgCol)

/-- A loaded request has what was saved, with its items by name. -/
structure Restores (request loaded : Request) : Prop where
  id : loaded.id = request.id
  dateCreated : loaded.dateCreated = request.dateCreated
  senderID : loaded.senderID = request.senderID
  status : loaded.status = request.status
  delSlotStart : loaded.delSlotStart = request.delSlotStart
  isNew : loaded.isNew = some true
  items : (loaded.items.map itemAttributes).Perm (request.items.map itemAttributes)
  names : loaded.items.Pairwise fun a b => a.name ≤ b.name

theorem loadRequest_items {request : Request} (order : FetchOrder)
    (fits : ∀ item ∈ request.items, -2 ^ 31 ≤ item.qty ∧ item.qty < 2 ^ 31) :
    ((loadRequest order (cdrequest request)).items.map itemAttributes).Perm
      (request.items.map itemAttributes) := by
  have listed := (sortedItems_perm order (cdrequest request)).map
    fun cdi => (cdi.id, cdi.name, cdi.icon, cdi.qty, cdi.bgCol)
  have written : ((cdrequest request).items.map
      fun cdi => (cdi.id, cdi.name, cdi.icon, cdi.qty, cdi.bgCol)) =
      request.items.map itemAttributes := by
    simp only [cdrequest, List.map_map]
    apply List.map_congr_left
    intro item member
    simp only [Function.comp_apply, itemAttributes,
      toInt32_of_fits (fits item member).1 (fits item member).2]
  rw [← written, loadRequest, List.map_map]
  exact listed

theorem restores_loadRequest {request : Request} (order : FetchOrder)
    (fits : ∀ item ∈ request.items, -2 ^ 31 ≤ item.qty ∧ item.qty < 2 ^ 31) :
    Restores request (loadRequest order (cdrequest request)) :=
  ⟨rfl, rfl, rfl, rfl, rfl, rfl, loadRequest_items order fits, loadRequest_sorted order _⟩

/-- Requests saved one after another come back, each as it was saved, newest first,
    whatever the order in which the store lists rows and items. -/
theorem loading_undoes_saving (order : FetchOrder) {requests : List Request}
    (fits : ∀ request ∈ requests, ∀ item ∈ request.items,
      -2 ^ 31 ≤ item.qty ∧ item.qty < 2 ^ 31) :
    ∃ listed, listed.Perm requests ∧
      List.Forall₂ Restores listed (loadAllRequests order (requests.foldl saveRequest [])) ∧
      (loadAllRequests order (requests.foldl saveRequest [])).Pairwise fun a b =>
        dateLE b.dateCreated a.dateCreated := by
  have loaded := loadAllRequests_perm order (requests.foldl saveRequest [])
  rw [foldl_saveRequest, List.nil_append, List.map_map] at loaded
  have each : List.Forall₂ (flip Restores)
      (requests.map (loadRequest order ∘ cdrequest)) requests := by
    rw [List.forall₂_map_left_iff, List.forall₂_same]
    exact fun request member => restores_loadRequest order (fits request member)
  rw [foldl_saveRequest, List.nil_append]
  obtain ⟨listed, restored, rows⟩ := List.perm_comp_forall₂ loaded each
  exact ⟨listed, rows, restored.flip, loadAllRequests_sorted order _⟩

private def undated : Request :=
  { id := none, dateCreated := none, senderID := "amy", status := none, delSlotStart := none
    items := [] }

private def basketOf (date : ℚ) : Request :=
  { id := some "r1", dateCreated := some date, senderID := "amy", status := some "sent"
    delSlotStart := some 7200
    items := [{ id := "rice", name := "Rice", icon := "bag", qty := 2 ^ 31 - 1, bgCol := "red" },
      { id := "milk", name := "Milk", icon := "box", qty := -1, bgCol := "blue" }] }

/-- An undated request, two requests under one id, and items out of order. -/
theorem loading_undoes_saving_repeated_id :
    ∃ listed, listed.Perm [undated, basketOf 1, basketOf 2] ∧
      List.Forall₂ Restores listed
        (loadAllRequests .listed ([undated, basketOf 1, basketOf 2].foldl saveRequest [])) := by
  have fits : ∀ request ∈ [undated, basketOf 1, basketOf 2], ∀ item ∈ request.items,
      -2 ^ 31 ≤ item.qty ∧ item.qty < 2 ^ 31 := by
    simp [undated, basketOf]
  obtain ⟨listed, rows, restored, -⟩ := loading_undoes_saving .listed fits
  exact ⟨listed, rows, restored⟩

end Restored

end Kasei.CoreData
