import Mathlib.Algebra.BigOperators.Finprod
import Kasei.Lib.Runs
import Kasei.Models.PostRequest

/-! # Conservation of the stock counters

Orders placed by any number of clients start three transactions per item. Each
commits once, so a schedule is any reordering of all of them; a counter ends at
its first value plus the amounts of the transactions on its own path, whatever
the order, because two counter paths are equal or separate. For that the zones
and ids have to be keys: `child:` takes zone `north/` for zone `north`.
-/

namespace Kasei.Counters

open JsonTree Runs

/-- A list of items for which `updateCounters` runs in one zone. -/
structure Order where
  zoneid : String
  items : List RequestItem

/-- Zone and ids are database keys, which `child:` takes as one name each. -/
structure Order.Keyed (order : Order) : Prop where
  zone : isValidKey order.zoneid = true
  ids : ∀ item ∈ order.items, isValidKey item.id = true

def started (orders : List Order) : List Transaction :=
  orders.flatMap fun order => updateCounters order.items order.zoneid

def quantityOf (items : List RequestItem) (id : String) : Int :=
  (items.map fun item => if item.id = id then item.qty else 0).sum

/-- What the transactions on one path add up to. -/
def total (transactions : List Transaction) (path : Path) : Int :=
  (transactions.map fun t => if t.path = path then t.amount else 0).sum

theorem total_append (first second : List Transaction) (path : Path) :
    total (first ++ second) path = total first path + total second path := by
  simp only [total, List.map_append, List.sum_append]

theorem total_perm {first second : List Transaction} (same : first.Perm second) (path : Path) :
    total first path = total second path :=
  (same.map _).sum_eq

theorem counterAt_commit {database next : Json} {t : Transaction} {path : Path}
    (separate : t.path ≠ path → Apart t.path path) (committed : t.commit database = some next) :
    counterAt next path = counterAt database path + if t.path = path then t.amount else 0 := by
  simp only [Transaction.commit] at committed
  split at committed
  · obtain rfl := Option.some.inj committed
    by_cases same : t.path = path
    · simp only [counterAt, ← same, Json.get_set_self, asInt, Option.getD_some, if_true]
    · simp only [counterAt, Json.get_set_of_apart database (separate same), if_neg same, add_zero]
  · cases committed

theorem counterAt_run {database final : Json} {schedule : List Transaction} {path : Path}
    (separate : ∀ t ∈ schedule, t.path ≠ path → Apart t.path path)
    (committed : run (fun d (t : Transaction) => t.commit d) database schedule = some final) :
    counterAt final path = counterAt database path + total schedule path := by
  induction schedule generalizing database with
  | nil =>
      obtain rfl := Option.some.inj committed
      simp [total]
  | cons t rest ih =>
      obtain ⟨next, first, later⟩ := Option.bind_eq_some_iff.mp committed
      rw [ih (fun u member => separate u (List.mem_cons_of_mem t member)) later,
        counterAt_commit (separate t List.mem_cons_self) first]
      simp only [total, List.map_cons, List.sum_cons, add_assoc]

/-- The path of a counter. -/
inductive CounterPath : Path → Prop where
  | stock (id : String) : CounterPath (stockPath id)
  | requested (id : String) : CounterPath (requestedPath id)
  | requestCounter (zoneid id : String) : CounterPath (requestCounterPath zoneid id)

theorem counterPath_of_mem {items : List RequestItem} {zoneid : String} {t : Transaction}
    (member : t ∈ updateCounters items zoneid) : CounterPath t.path := by
  obtain ⟨item, -, here⟩ := List.mem_flatMap.mp member
  simp only [List.mem_cons, List.not_mem_nil, or_false] at here
  rcases here with rfl | rfl | rfl
  · exact .stock item.id
  · exact .requestCounter zoneid item.id
  · exact .requested item.id

theorem CounterPath.elsewhere {path : Path} (counter : CounterPath path) {top : String}
    (other : top ∉ ["items", "requestCounter"]) (rest : Path) : Apart path (top :: rest) := by
  simp only [List.mem_cons, List.not_mem_nil, or_false, not_or] at other
  cases counter with
  | stock | requested => exact .inl (Ne.symm other.1)
  | requestCounter => exact .inl (Ne.symm other.2)

/-- The counters of an item separate from all others, whatever the zones are. -/
theorem CounterPath.separate_item {path : Path} (counter : CounterPath path) {id field : String}
    (different : path ≠ ["items", id, field]) : Apart path ["items", id, field] := by
  cases counter with
  | stock | requested => exact Apart.of_ne rfl different
  | requestCounter => exact .inl (by decide)

theorem CounterPath.separate_stock {path : Path} (counter : CounterPath path) (id : String) :
    path ≠ stockPath id → Apart path (stockPath id) := counter.separate_item

theorem CounterPath.separate_requested {path : Path} (counter : CounterPath path) (id : String) :
    path ≠ requestedPath id → Apart path (requestedPath id) := counter.separate_item

theorem requestCounterPath_of_key {zoneid : String} (zone : isValidKey zoneid = true)
    (id : String) : requestCounterPath zoneid id = ["requestCounter", zoneid, id] := by
  rw [requestCounterPath, pieces_of_key zone]
  rfl

theorem separate_zone {items : List RequestItem} {zoneid zone : String}
    (posted : isValidKey zoneid = true) (key : isValidKey zone = true) {t : Transaction}
    (member : t ∈ updateCounters items zoneid) (id : String)
    (different : t.path ≠ requestCounterPath zone id) :
    Apart t.path (requestCounterPath zone id) := by
  rw [requestCounterPath_of_key key] at different ⊢
  obtain ⟨item, -, here⟩ := List.mem_flatMap.mp member
  simp only [List.mem_cons, List.not_mem_nil, or_false] at here
  rcases here with rfl | rfl | rfl
  · exact .inl (by decide)
  · simp only [requestCounterPath_of_key posted] at different ⊢
    exact Apart.of_ne rfl different
  · exact .inl (by decide)

theorem total_updateCounters_cons (item : RequestItem) (rest : List RequestItem)
    (zoneid : String) (path : Path) :
    total (updateCounters (item :: rest) zoneid) path =
      (if stockPath item.id = path then -item.qty else 0) +
      (if requestCounterPath zoneid item.id = path then item.qty else 0) +
      (if requestedPath item.id = path then item.qty else 0) +
      total (updateCounters rest zoneid) path := by
  simp only [total, updateCounters, List.flatMap_cons, List.cons_append, List.nil_append,
    List.map_cons, List.sum_cons, add_assoc]

theorem quantityOf_cons (item : RequestItem) (rest : List RequestItem) (id : String) :
    quantityOf (item :: rest) id = (if item.id = id then item.qty else 0) + quantityOf rest id := by
  simp only [quantityOf, List.map_cons, List.sum_cons]

/-- Without repeated ids the counter loop takes from an item what the content
    dictionary stores for it. -/
theorem quantityOf_of_distinct {items : List RequestItem}
    (distinct : (items.map RequestItem.id).Nodup) (id : String) :
    quantityOf items id = ((contentDictionary items).lookup id).getD 0 := by
  rw [contentDictionary_of_distinct distinct]
  induction items with
  | nil => rfl
  | cons item rest ih =>
      simp only [List.map_cons, List.nodup_cons] at distinct
      rw [quantityOf_cons, ih distinct.2, List.map_cons, List.lookup_cons]
      by_cases same : item.id = id
      · have missing : (rest.map fun itm => (itm.id, itm.qty)).lookup id = none := by
          simp only [List.lookup_eq_none_iff, List.mem_map, bne_iff_ne]
          rintro entry ⟨itm, member, rfl⟩ equal
          exact distinct.1 (List.mem_map.mpr ⟨itm, member, equal.symm.trans same.symm⟩)
        simp [missing, same]
      · simp [same, beq_false_of_ne (Ne.symm same)]

theorem total_stock (items : List RequestItem) (zoneid id : String) :
    total (updateCounters items zoneid) (stockPath id) = -quantityOf items id := by
  induction items with
  | nil => rfl
  | cons item rest ih =>
      rw [total_updateCounters_cons, quantityOf_cons, ih]
      by_cases same : item.id = id
      · simp [stockPath, requestCounterPath, requestedPath, same]
        omega
      · simp [stockPath, requestCounterPath, requestedPath, same]

theorem total_requested (items : List RequestItem) (zoneid id : String) :
    total (updateCounters items zoneid) (requestedPath id) = quantityOf items id := by
  induction items with
  | nil => rfl
  | cons item rest ih =>
      rw [total_updateCounters_cons, quantityOf_cons, ih]
      simp [stockPath, requestCounterPath, requestedPath]

theorem total_requestCounter (items : List RequestItem) {zoneid zone : String}
    (posted : isValidKey zoneid = true) (key : isValidKey zone = true) (id : String) :
    total (updateCounters items zoneid) (requestCounterPath zone id) =
      if zoneid = zone then quantityOf items id else 0 := by
  induction items with
  | nil => simp [updateCounters, total, quantityOf]
  | cons item rest ih =>
      rw [total_updateCounters_cons, quantityOf_cons, ih, requestCounterPath_of_key posted,
        requestCounterPath_of_key key]
      by_cases sameZone : zoneid = zone <;> simp [stockPath, requestedPath, sameZone]

theorem total_started (orders : List Order) (path : Path) :
    total (started orders) path =
      (orders.map fun o => total (updateCounters o.items o.zoneid) path).sum := by
  induction orders with
  | nil => rfl
  | cons order rest ih =>
      simp only [started, List.flatMap_cons, total_append, List.map_cons, List.sum_cons]
      exact congrArg _ ih

section Zones

/-- What the orders of one zone ask of an item. -/
def zoneQuantity (orders : List Order) (zone id : String) : Int :=
  (orders.map fun o => if o.zoneid = zone then quantityOf o.items id else 0).sum

/-- The zones whose name is a key. -/
abbrev Zone := { zone : String // isValidKey zone = true }

/-- Only zones that have a node hold a count, so the sum over all zones is finite. -/
theorem finite_requestCounters (database : Json) (id : String) :
    (Function.support fun zone : Zone =>
      counterAt database (requestCounterPath zone.1 id)).Finite := by
  have named := List.finite_toSet ((database.child "requestCounter").entries.map Prod.fst)
  refine (named.preimage Subtype.val_injective.injOn).subset ?_
  intro zone nonzero
  apply Json.mem_entries_of_child
  intro absent
  apply nonzero
  simp only [counterAt, requestCounterPath_of_key zone.2, Json.get, absent]
  rfl

theorem finite_zoneQuantity (orders : List Order) (id : String) :
    (Function.support fun zone : Zone => zoneQuantity orders zone.1 id).Finite := by
  have named := List.finite_toSet (orders.map Order.zoneid)
  refine (named.preimage Subtype.val_injective.injOn).subset ?_
  intro zone nonzero
  by_contra absent
  refine nonzero (List.sum_eq_zero ?_)
  intro share member
  obtain ⟨order, here, rfl⟩ := List.mem_map.mp member
  exact if_neg fun same => absent (List.mem_map.mpr ⟨order, here, same⟩)

theorem finsum_zoneQuantity {orders : List Order} (keyed : ∀ order ∈ orders, order.Keyed)
    (id : String) : ∑ᶠ zone : Zone, zoneQuantity orders zone.1 id =
      (orders.map fun o => quantityOf o.items id).sum := by
  induction orders with
  | nil => simp [zoneQuantity]
  | cons order rest ih =>
      have split : ∀ zone : Zone, zoneQuantity (order :: rest) zone.1 id =
          (if order.zoneid = zone.1 then quantityOf order.items id else 0) +
            zoneQuantity rest zone.1 id := by
        intro zone
        simp only [zoneQuantity, List.map_cons, List.sum_cons]
      let own : Zone := ⟨order.zoneid, (keyed order List.mem_cons_self).zone⟩
      have finite : (Function.support fun zone : Zone =>
          if order.zoneid = zone.1 then quantityOf order.items id else 0).Finite := by
        apply (Set.finite_singleton own).subset
        intro zone nonzero
        by_contra other
        exact nonzero (if_neg fun same => other (Subtype.ext same.symm))
      rw [finsum_congr split, finsum_add_distrib finite (finite_zoneQuantity rest id),
        ih fun o member => keyed o (List.mem_cons_of_mem order member), List.map_cons,
        List.sum_cons]
      congr 1
      rw [finsum_eq_single _ own fun zone other => if_neg fun same =>
        other (Subtype.ext same.symm), if_pos rfl]

end Zones

variable {database final : Json} {orders : List Order} {schedule : List Transaction}

theorem counterAt_final (interleaved : schedule.Perm (started orders))
    (committed : run (fun d (t : Transaction) => t.commit d) database schedule = some final)
    (path : Path) (separate : ∀ order ∈ orders, ∀ t ∈ updateCounters order.items order.zoneid,
      t.path ≠ path → Apart t.path path) :
    counterAt final path = counterAt database path +
      (orders.map fun o => total (updateCounters o.items o.zoneid) path).sum := by
  rw [← total_started, ← total_perm interleaved]
  refine counterAt_run (fun t member => ?_) committed
  obtain ⟨order, inside, own⟩ := List.mem_flatMap.mp (interleaved.mem_iff.mp member)
  exact separate order inside t own

/-- Whatever the interleaving, every counter moves by exactly what was ordered,
    so `stock + requested` and `requested` less the zones' counts stay put. -/
theorem counters_conserved (keyed : ∀ order ∈ orders, order.Keyed)
    (interleaved : schedule.Perm (started orders))
    (committed : run (fun d (t : Transaction) => t.commit d) database schedule = some final)
    (id : String) :
    counterAt final (stockPath id) =
        counterAt database (stockPath id) - (orders.map fun o => quantityOf o.items id).sum ∧
      counterAt final (requestedPath id) =
        counterAt database (requestedPath id) + (orders.map fun o => quantityOf o.items id).sum ∧
      (∀ zone : Zone, counterAt final (requestCounterPath zone.1 id) =
        counterAt database (requestCounterPath zone.1 id) + zoneQuantity orders zone.1 id) ∧
      counterAt final (stockPath id) + counterAt final (requestedPath id) =
        counterAt database (stockPath id) + counterAt database (requestedPath id) ∧
      counterAt final (requestedPath id) -
          ∑ᶠ zone : Zone, counterAt final (requestCounterPath zone.1 id) =
        counterAt database (requestedPath id) -
          ∑ᶠ zone : Zone, counterAt database (requestCounterPath zone.1 id) := by
  have stock := counterAt_final interleaved committed (stockPath id)
    fun order _ t own => (counterPath_of_mem own).separate_stock id
  have requested := counterAt_final interleaved committed (requestedPath id)
    fun order _ t own => (counterPath_of_mem own).separate_requested id
  have zones : ∀ zone : Zone, counterAt final (requestCounterPath zone.1 id) =
      counterAt database (requestCounterPath zone.1 id) + zoneQuantity orders zone.1 id := by
    intro zone
    rw [counterAt_final interleaved committed (requestCounterPath zone.1 id)
      fun order inside t own => separate_zone (keyed order inside).zone zone.2 own id]
    congr 2
    exact List.map_congr_left fun order inside =>
      total_requestCounter order.items (keyed order inside).zone zone.2 id
  simp only [total_stock] at stock
  simp only [total_requested] at requested
  have negated : (orders.map fun o => -quantityOf o.items id).sum =
      -(orders.map fun o => quantityOf o.items id).sum := by
    rw [List.sum_neg, List.map_map]
    rfl
  have allZones : ∑ᶠ zone : Zone, counterAt final (requestCounterPath zone.1 id) =
      (∑ᶠ zone : Zone, counterAt database (requestCounterPath zone.1 id)) +
        (orders.map fun o => quantityOf o.items id).sum := by
    rw [finsum_congr zones, finsum_add_distrib (finite_requestCounters database id)
      (finite_zoneQuantity orders id), finsum_zoneQuantity keyed]
  refine ⟨by omega, requested, zones, by omega, by omega⟩

private def milk (qty : Int) : RequestItem :=
  { id := "milk", name := "Milk", icon := "m", qty := qty, bgCol := "blue" }

private def twoOrders : List Order := [⟨"north", [milk 2]⟩, ⟨"south", [milk 1, milk 1]⟩]

private def fiveMilk : Json := .obj [("items", .obj [("milk", .obj [("stock", .int 5)])])]

private theorem twoOrders_keyed : ∀ order ∈ twoOrders, order.Keyed := by
  simp only [twoOrders, List.mem_cons, List.not_mem_nil, or_false, forall_eq_or_imp, forall_eq]
  exact ⟨⟨by decide, by decide⟩, ⟨by decide, by decide⟩⟩

/-- Two zones order the same item, one of them twice in a list, and the
    transactions commit in reverse. -/
theorem counters_conserved_reversed :
    ∃ final, run (fun d (t : Transaction) => t.commit d) fiveMilk (started twoOrders).reverse =
        some final ∧
      counterAt final (stockPath "milk") = 1 ∧ counterAt final (requestedPath "milk") = 4 := by
  obtain ⟨final, committed⟩ : ∃ final, run (fun d (t : Transaction) => t.commit d) fiveMilk
      (started twoOrders).reverse = some final := ⟨_, rfl⟩
  have moved := counters_conserved twoOrders_keyed (List.reverse_perm (started twoOrders))
    committed "milk"
  exact ⟨final, committed, moved.1, moved.2.1⟩

private def sameZone : List Order := [⟨"north", [milk 1]⟩, ⟨"north/", [milk 2]⟩]

/-- A zone with a slash at its end counts in the zone without it. -/
theorem slash_shares_counter :
    ∃ final, run (fun d (t : Transaction) => t.commit d) fiveMilk (started sameZone) =
        some final ∧
      counterAt final (requestCounterPath "north" "milk") ≠
        counterAt fiveMilk (requestCounterPath "north" "milk") +
          zoneQuantity sameZone "north" "milk" :=
  ⟨_, rfl, by decide⟩

end Kasei.Counters
