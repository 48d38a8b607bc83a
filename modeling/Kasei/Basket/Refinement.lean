import Kasei.Basket.Resync

/-! # The basket as a map of quantities

What the basket is for: a map from item ids to quantities that a tap moves by
one, between nothing and the item's limit. The objects behind it follow the map
as long as every object that enters the basket enters with no quantity of its
own. `updateItemsFromBasket` copies quantities into the rows of a screen by
name and never clears them, so a row can keep the count of an entry that has
left the basket, or that only shares its name.
-/

namespace Kasei.Basket

open JsonTree Runs

/-- No entry and a quantity are different things. -/
abbrev Quantities := String → Option Int

namespace Quantities

def plus (limit : Int) (q : Quantities) (id : String) : Quantities :=
  Function.update q id (some (min ((q id).getD 0 + 1) limit))

def minus (q : Quantities) (id : String) : Quantities :=
  Function.update q id ((q id).bind fun n => if n - 1 = 0 then none else some (n - 1))

def tap (limit : Int) (q : Quantities) (id : String) : Button → Quantities
  | .plus => q.plus limit id
  | .minus => q.minus id

end Quantities

def quantities (heap : Heap) (items : List Ref) : Quantities :=
  fun id => (items.find? fun r => (heap r).id = id).map fun r => (heap r).qty

section Quantities

variable {heap : Heap} {items : List Ref}

theorem quantities_of_mem (distinct : (items.map fun r => (heap r).id).Nodup) {r : Ref}
    (member : r ∈ items) : quantities heap items (heap r).id = some (heap r).qty := by
  induction items with
  | nil => cases member
  | cons first rest ih =>
      simp only [List.map_cons, List.nodup_cons] at distinct
      by_cases same : (heap first).id = (heap r).id
      · rcases List.mem_cons.mp member with rfl | later
        · simp [quantities]
        · exact absurd (List.mem_map.mpr ⟨r, later, same.symm⟩) distinct.1
      · rcases List.mem_cons.mp member with rfl | later
        · exact absurd rfl same
        · simpa [quantities, same] using ih distinct.2 later

theorem quantities_of_absent {id : String} (absent : ∀ r ∈ items, (heap r).id ≠ id) :
    quantities heap items id = none := by
  simp only [quantities, Option.map_eq_none_iff, List.find?_eq_none, decide_eq_true_eq]
  exact absent

theorem quantities_eq (distinct : (items.map fun r => (heap r).id).Nodup) {q : Quantities}
    (entries : ∀ r ∈ items, q (heap r).id = some (heap r).qty)
    (others : ∀ id, (∀ r ∈ items, (heap r).id ≠ id) → q id = none) :
    quantities heap items = q := by
  funext id
  by_cases present : ∃ r ∈ items, (heap r).id = id
  · obtain ⟨r, member, rfl⟩ := present
    rw [quantities_of_mem distinct member, entries r member]
  · have absent : ∀ r ∈ items, (heap r).id ≠ id := fun r member same => present ⟨r, member, same⟩
    rw [quantities_of_absent absent, others id absent]

end Quantities

section Refinement

variable (database : Json) (languageCode : Option String)

/-- An object decoded from the catalogue, up to its quantity. -/
def FromCatalogue (item : RequestItem) : Prop :=
  ∃ decoded, getRequestItem database languageCode item.id = some decoded ∧
    item.name = decoded.name ∧ item.qtyLimit = decoded.qtyLimit

/-- Every item of the catalogue may be ordered at least once. -/
def Orderable : Prop :=
  ∀ id item, getRequestItem database languageCode id = some item →
    ∃ limit, item.qtyLimit = some limit ∧ 1 ≤ limit

def limitOf (id : String) : Int :=
  ((getRequestItem database languageCode id).bind RequestItem.qtyLimit).getD 0

def abstractStep (s : Session) (event : Event) (q : Quantities) : Quantities :=
  match event, tapped s event with
  | .categoryTap _ button, some item | .basketTap _ button, some item =>
      q.tap (limitOf database languageCode (s.heap item).id) (s.heap item).id button
  | _, _ => q

/-- One event acts on the basket as on the map. -/
def Refines (s : Session) (event : Event) : Prop :=
  ∃ next, step database languageCode s event = some next ∧
    quantities next.heap next.items =
      abstractStep database languageCode s event (quantities s.heap s.items)

/-- Plus on a category row whose id is not in the basket finds the row's object
    without a quantity. -/
def StartsFromZero (s : Session) (event : Event) : Prop :=
  ∀ row item, event = .categoryTap row .plus → tapped s event = some item →
    (∀ r ∈ s.items, (s.heap r).id ≠ (s.heap item).id) → (s.heap item).qty = 0

/-- The basket's part of the invariant. Names are distinct because a second
    object of a name never starts from zero. -/
structure Stocked (heap : Heap) (items : List Ref) : Prop where
  distinct : (items.map fun r => (heap r).id).Nodup
  names : (items.map fun r => (heap r).name).Nodup
  decoded : ∀ r ∈ items, FromCatalogue database languageCode (heap r)
  bounded : ∀ r ∈ items, 1 ≤ (heap r).qty ∧
    (heap r).qty ≤ limitOf database languageCode (heap r).id

/-- The screen's part: a row that shares its name with an entry has a count. -/
structure Shown (heap : Heap) (items screen : List Ref) : Prop where
  decoded : ∀ r ∈ screen, FromCatalogue database languageCode (heap r)
  nonneg : ∀ r ∈ screen, 0 ≤ (heap r).qty
  counted : ∀ r ∈ screen, ∀ b ∈ items, (heap b).name = (heap r).name → 1 ≤ (heap r).qty

structure Faithful (s : Session) : Prop where
  sound : Sound s
  stocked : Stocked database languageCode s.heap s.items
  shown : ∀ screen, s.screen = some screen → Shown database languageCode s.heap s.items screen

variable {database languageCode}

theorem FromCatalogue.limit (orderable : Orderable database languageCode) {item : RequestItem}
    (decoded : FromCatalogue database languageCode item) :
    item.qtyLimit = some (limitOf database languageCode item.id) ∧
      1 ≤ limitOf database languageCode item.id := by
  obtain ⟨original, found, _, sameLimit⟩ := decoded
  obtain ⟨limit, limited, positive⟩ := orderable item.id original found
  simp only [limitOf, found, Option.bind_some, limited, Option.getD_some]
  exact ⟨sameLimit.trans limited, positive⟩

theorem FromCatalogue.of_onlyQty {before after : Heap} (same : OnlyQty before after) {r : Ref}
    (decoded : FromCatalogue database languageCode (before r)) :
    FromCatalogue database languageCode (after r) := by
  unfold FromCatalogue
  rw [same.id, same.name, same.qtyLimit]
  exact decoded

section Update

variable {heap : Heap} {items : List Ref} {entry item : Ref}

theorem Stocked.id_ne (stocked : Stocked database languageCode heap items) {r : Ref}
    (member : r ∈ items) (inside : entry ∈ items) (other : r ≠ entry) :
    (heap r).id ≠ (heap entry).id :=
  fun same => other (List.inj_on_of_nodup_map stocked.distinct member inside same)

theorem Stocked.set (stocked : Stocked database languageCode heap items) (inside : entry ∈ items)
    {qty : Int} (positive : 1 ≤ qty)
    (limited : qty ≤ limitOf database languageCode (heap entry).id) :
    Stocked database languageCode (setQty heap entry qty) items ∧
      quantities (setQty heap entry qty) items =
        Function.update (quantities heap items) (heap entry).id (some qty) := by
  have stocked' : Stocked database languageCode (setQty heap entry qty) items := {
    distinct := by simpa only [setQty_id] using stocked.distinct
    names := by simpa only [setQty_name] using stocked.names
    decoded := fun r member => (stocked.decoded r member).of_onlyQty (OnlyQty.setQty heap entry qty)
    bounded := by
      intro r member
      by_cases same : r = entry
      · subst same
        rw [setQty_qty_self, setQty_id]
        exact ⟨positive, limited⟩
      · rw [setQty_of_ne heap same]
        exact stocked.bounded r member }
  refine ⟨stocked', quantities_eq stocked'.distinct ?_ ?_⟩
  · intro r member
    rw [setQty_id]
    by_cases same : r = entry
    · subst same
      rw [Function.update_self, setQty_qty_self]
    · rw [Function.update_of_ne (stocked.id_ne member inside same), setQty_of_ne heap same,
        quantities_of_mem stocked.distinct member]
  · intro id absent
    simp only [setQty_id] at absent
    rw [Function.update_of_ne (Ne.symm (absent entry inside)), quantities_of_absent absent]

theorem Stocked.drop (stocked : Stocked database languageCode heap items) (entry : Ref)
    (qty : Int) :
    Stocked database languageCode (setQty heap entry qty)
        (items.filter fun r => (heap r).id ≠ (heap entry).id) ∧
      quantities (setQty heap entry qty) (items.filter fun r => (heap r).id ≠ (heap entry).id) =
        Function.update (quantities heap items) (heap entry).id none := by
  have remaining : ∀ r ∈ items.filter fun r => (heap r).id ≠ (heap entry).id,
      r ∈ items ∧ r ≠ entry ∧ (heap r).id ≠ (heap entry).id := by
    intro r member
    obtain ⟨older, apart⟩ := List.mem_filter.mp member
    simp only [ne_eq, decide_not, Bool.not_eq_eq_eq_not, Bool.not_true,
      decide_eq_false_iff_not] at apart
    exact ⟨older, fun same => apart (same ▸ rfl), apart⟩
  have stocked' : Stocked database languageCode (setQty heap entry qty)
      (items.filter fun r => (heap r).id ≠ (heap entry).id) := {
    distinct := by
      simpa only [setQty_id] using stocked.distinct.sublist (List.filter_sublist.map _)
    names := by simpa only [setQty_name] using stocked.names.sublist (List.filter_sublist.map _)
    decoded := fun r member => (stocked.decoded r (remaining r member).1).of_onlyQty
      (OnlyQty.setQty heap entry qty)
    bounded := by
      intro r member
      rw [setQty_of_ne heap (remaining r member).2.1]
      exact stocked.bounded r (remaining r member).1 }
  refine ⟨stocked', quantities_eq stocked'.distinct ?_ ?_⟩
  · intro r member
    obtain ⟨older, other, apart⟩ := remaining r member
    rw [setQty_id, Function.update_of_ne apart, setQty_of_ne heap other,
      quantities_of_mem stocked.distinct older]
  · intro id absent
    simp only [setQty_id] at absent
    by_cases same : id = (heap entry).id
    · rw [same, Function.update_self]
    · rw [Function.update_of_ne same]
      apply quantities_of_absent
      intro r member equal
      refine absent r (List.mem_filter.mpr ⟨member, ?_⟩) equal
      simpa [equal] using same

theorem Stocked.add (stocked : Stocked database languageCode heap items)
    (known : FromCatalogue database languageCode (heap item))
    (limited : 1 ≤ limitOf database languageCode (heap item).id)
    (newId : ∀ r ∈ items, (heap r).id ≠ (heap item).id)
    (newName : ∀ r ∈ items, (heap r).name ≠ (heap item).name) :
    Stocked database languageCode (setQty heap item 1) (items ++ [item]) ∧
      quantities (setQty heap item 1) (items ++ [item]) =
        Function.update (quantities heap items) (heap item).id (some 1) := by
  have others : ∀ r ∈ items, r ≠ item := fun r member same => newId r member (same ▸ rfl)
  have stocked' : Stocked database languageCode (setQty heap item 1) (items ++ [item]) := {
    distinct := by
      simp only [setQty_id]
      exact nodup_labels_append stocked.distinct newId
    names := by
      simp only [setQty_name]
      exact nodup_labels_append stocked.names newName
    decoded := by
      intro r member
      apply FromCatalogue.of_onlyQty (OnlyQty.setQty heap item 1)
      rcases List.mem_append.mp member with older | last
      · exact stocked.decoded r older
      · exact List.mem_singleton.mp last ▸ known
    bounded := by
      intro r member
      rcases List.mem_append.mp member with older | last
      · rw [setQty_of_ne heap (others r older)]
        exact stocked.bounded r older
      · obtain rfl := List.mem_singleton.mp last
        rw [setQty_qty_self, setQty_id]
        exact ⟨le_refl 1, limited⟩ }
  refine ⟨stocked', quantities_eq stocked'.distinct ?_ ?_⟩
  · intro r member
    rw [setQty_id]
    rcases List.mem_append.mp member with older | last
    · rw [Function.update_of_ne (newId r older), setQty_of_ne heap (others r older),
        quantities_of_mem stocked.distinct older]
    · obtain rfl := List.mem_singleton.mp last
      rw [Function.update_self, setQty_qty_self]
  · intro id absent
    simp only [setQty_id] at absent
    rw [Function.update_of_ne (Ne.symm (absent item (by simp))), quantities_of_absent]
    exact fun r member => absent r (List.mem_append_left _ member)

/-- `update` acts on the map and keeps the basket in order, if an object that
    it would append starts from zero under a name of its own. -/
theorem Stocked.updated (orderable : Orderable database languageCode)
    (stocked : Stocked database languageCode heap items)
    (known : FromCatalogue database languageCode (heap item)) {button : Button}
    (starts : button = .plus → (∀ r ∈ items, (heap r).id ≠ (heap item).id) →
      (heap item).qty = 0 ∧ ∀ r ∈ items, (heap r).name ≠ (heap item).name)
    {updated : Updated} (outcome : Outcome heap items item button.modifier updated) :
    updated.calledBack = true ∧ Stocked database languageCode updated.heap updated.items ∧
      quantities updated.heap updated.items =
        (quantities heap items).tap (limitOf database languageCode (heap item).id)
          (heap item).id button := by
  obtain ⟨itemLimit, orderableOnce⟩ := known.limit orderable
  cases outcome with
  | noLimit missing => rw [missing] at itemLimit; cases itemLimit
  | @changed entry limit qty inside same limited value =>
      obtain ⟨lower, upper⟩ := stocked.bounded entry inside
      have current := quantities_of_mem stocked.distinct inside
      obtain rfl : limitOf database languageCode (heap entry).id = limit := by
        have entryLimit := ((stocked.decoded entry inside).limit orderable).1
        rw [limited] at entryLimit
        exact (Option.some.inj entryLimit).symm
      rw [← same] at orderableOnce ⊢
      refine ⟨rfl, ?_⟩
      cases button with
      | plus =>
          simp only [Button.modifier] at value
          simp only [Quantities.tap, Quantities.plus, current, Option.getD_some, ← value]
          rw [if_neg (by omega)]
          exact stocked.set inside (by omega) (by omega)
      | minus =>
          simp only [Button.modifier] at value
          obtain rfl : qty = (heap entry).qty - 1 := by omega
          simp only [Quantities.tap, Quantities.minus, current, Option.bind_some]
          by_cases last : (heap entry).qty - 1 = 0
          · rw [if_pos (by omega), if_pos last]
            exact stocked.drop entry _
          · rw [if_neg (by omega), if_neg last]
            exact stocked.set inside (by omega) (by omega)
  | added _ missing adds =>
      cases button with
      | plus =>
          obtain ⟨zero, newName⟩ := starts rfl missing
          refine ⟨rfl, ?_⟩
          simp only [zero, Quantities.tap, Quantities.plus, quantities_of_absent missing,
            Option.getD_none]
          rw [min_eq_left (by omega)]
          exact stocked.add known orderableOnce missing newName
      | minus => cases adds
  | absent _ missing takes =>
      cases button with
      | plus => cases takes
      | minus =>
          refine ⟨rfl, stocked, ?_⟩
          have nothing := quantities_of_absent missing
          simp only [Quantities.tap, Quantities.minus, nothing, Option.bind_none]
          exact (Function.update_eq_self_iff.mpr nothing.symm).symm

theorem Stocked.congr (stocked : Stocked database languageCode heap items) (after : Heap)
    (same : ∀ r ∈ items, after r = heap r) :
    Stocked database languageCode after items ∧
      quantities after items = quantities heap items := by
  have ids : items.map (fun r => (after r).id) = items.map fun r => (heap r).id :=
    List.map_congr_left fun r member => by rw [same r member]
  have names : items.map (fun r => (after r).name) = items.map fun r => (heap r).name :=
    List.map_congr_left fun r member => by rw [same r member]
  refine ⟨⟨ids ▸ stocked.distinct, names ▸ stocked.names, ?_, ?_⟩,
    quantities_eq (ids ▸ stocked.distinct) ?_ ?_⟩
  · intro r member
    rw [same r member]
    exact stocked.decoded r member
  · intro r member
    rw [same r member]
    exact stocked.bounded r member
  · intro r member
    rw [same r member]
    exact quantities_of_mem stocked.distinct member
  · intro id absent
    exact quantities_of_absent fun r member => same r member ▸ absent r member

/-- The resync changes no entry and gives every row of a stocked name a count. -/
theorem Stocked.synced (stocked : Stocked database languageCode heap items) (screen : List Ref)
    (rows : ∀ r ∈ screen, FromCatalogue database languageCode (heap r) ∧ 0 ≤ (heap r).qty) :
    Stocked database languageCode (updateItemsFromBasket heap screen items) items ∧
      Shown database languageCode (updateItemsFromBasket heap screen items) items screen ∧
      quantities (updateItemsFromBasket heap screen items) items = quantities heap items := by
  obtain ⟨unchanged, copied⟩ := updateItemsFromBasket_spec stocked.names screen
  have labels := updateItemsFromBasket_onlyQty heap screen items
  obtain ⟨stocked', same⟩ := stocked.congr _ fun r member => unchanged r (.inl member)
  refine ⟨stocked', ⟨?_, ?_, ?_⟩, same⟩
  · exact fun r member => (rows r member).1.of_onlyQty labels
  · intro r member
    rcases copied r member with ⟨_, kept⟩ | ⟨b, inside, _, qty⟩
    · rw [kept]
      exact (rows r member).2
    · have := (stocked.bounded b inside).1
      omega
  · intro r member b inside name
    rw [labels.name, labels.name] at name
    rcases copied r member with ⟨alone, _⟩ | ⟨other, stockedOther, _, qty⟩
    · exact absurd name (alone b inside)
    · have := (stocked.bounded other stockedOther).1
      omega

theorem Stocked.nonneg (orderable : Orderable database languageCode)
    (stocked : Stocked database languageCode heap items) {button : Button} {updated : Updated}
    (outcome : Outcome heap items item button.modifier updated) {r : Ref}
    (before : 0 ≤ (heap r).qty) : 0 ≤ (updated.heap r).qty := by
  have moves : -1 ≤ button.modifier := by cases button <;> decide
  cases outcome with
  | noLimit => exact before
  | absent => exact before
  | @changed entry limit qty inside same limited value =>
      obtain ⟨lower, _⟩ := stocked.bounded entry inside
      obtain ⟨entryLimit, positive⟩ := (stocked.decoded entry inside).limit orderable
      rw [limited] at entryLimit
      have := Option.some.inj entryLimit
      by_cases other : r = entry
      · subst other
        rw [setQty_qty_self]
        omega
      · simpa only [setQty_of_ne heap other] using before
  | added =>
      by_cases other : r = item
      · subst other
        rw [setQty_qty_self]
        omega
      · simpa only [setQty_of_ne heap other] using before

/-- A tap on the basket screen leaves the rows of an open category in order,
    although nothing resyncs them. -/
theorem Shown.basketTap {screen : List Ref} (orderable : Orderable database languageCode)
    (stocked : Stocked database languageCode heap items)
    (shown : Shown database languageCode heap items screen) (inside : item ∈ items)
    {button : Button} {updated : Updated}
    (outcome : Outcome heap items item button.modifier updated)
    (stocked' : Stocked database languageCode updated.heap updated.items) :
    Shown database languageCode updated.heap updated.items screen := by
  have labels := outcome.onlyQty
  refine ⟨fun r member => (shown.decoded r member).of_onlyQty labels,
    fun r member => stocked.nonneg orderable outcome (shown.nonneg r member), ?_⟩
  intro r member b left name
  rw [labels.name, labels.name] at name
  have older : b ∈ items := by
    cases outcome with
    | noLimit => exact left
    | absent => exact left
    | changed =>
        simp only at left
        split at left
        · exact List.mem_of_mem_filter left
        · exact left
    | added _ missing => exact absurd rfl (missing item inside)
  by_cases stays : r ∈ items
  · obtain rfl := List.inj_on_of_nodup_map stocked.names older stays name
    exact (stocked'.bounded b left).1
  · have kept : updated.heap r = heap r := by
      cases outcome with
      | noLimit => rfl
      | absent => rfl
      | changed entryInside =>
          refine setQty_of_ne heap ?_ _
          rintro rfl
          exact stays entryInside
      | added _ missing => exact absurd rfl (missing item inside)
    rw [kept]
    exact shown.counted r member b older name

end Update

theorem Faithful.openCategory {s : Session} (faithful : Faithful database languageCode s)
    (itemIDs : List String) :
    Faithful database languageCode (loadItems database languageCode s itemIDs) ∧
      quantities (loadItems database languageCode s itemIDs).heap
        (loadItems database languageCode s itemIDs).items = quantities s.heap s.items := by
  have sound := faithful.sound.loadItems database languageCode itemIDs
  obtain ⟨items, _, heap, rows⟩ := loadItem_fold database languageCode itemIDs (s, [])
  unfold loadItems at sound ⊢
  generalize itemIDs.foldl (loadItem database languageCode) (s, []) = loaded at *
  simp only at items heap rows
  obtain ⟨stocked, same⟩ := faithful.stocked.congr loaded.1.heap
    fun r member => heap r (faithful.sound.allocated r member)
  rw [← items] at stocked same
  have fresh : ∀ r ∈ loaded.2, FromCatalogue database languageCode (loaded.1.heap r) ∧
      0 ≤ (loaded.1.heap r).qty := by
    intro r member
    obtain ⟨_, id, -, decoded⟩ := (rows r member).resolve_left List.not_mem_nil
    obtain ⟨sameId, zero⟩ := getRequestItem_fresh decoded
    exact ⟨⟨_, sameId.symm ▸ decoded, rfl, rfl⟩, zero.ge⟩
  obtain ⟨stocked', shown, unchanged⟩ := stocked.synced loaded.2 fresh
  refine ⟨⟨sound, stocked', ?_⟩, unchanged.trans (same.trans (by rw [items]))⟩
  rintro screen ⟨⟩
  exact shown

section Taps

variable {s : Session} {row : Nat} {button : Button} {item : Ref} {updated : Updated}

theorem Faithful.categoryTap (orderable : Orderable database languageCode)
    (faithful : Faithful database languageCode s)
    (starts : StartsFromZero s (.categoryTap row button)) {screen : List Ref}
    (opened : s.screen = some screen) (hit : screen[row]? = some item)
    (outcome : Outcome s.heap s.items item button.modifier updated) :
    updated.calledBack = true ∧
      Stocked database languageCode (updateItemsFromBasket updated.heap screen updated.items)
        updated.items ∧
      Shown database languageCode (updateItemsFromBasket updated.heap screen updated.items)
        updated.items screen ∧
      quantities (updateItemsFromBasket updated.heap screen updated.items) updated.items =
        (quantities s.heap s.items).tap (limitOf database languageCode (s.heap item).id)
          (s.heap item).id button := by
  have member := List.mem_of_getElem? hit
  have shown := faithful.shown screen opened
  have zero : button = .plus → (∀ b ∈ s.items, (s.heap b).id ≠ (s.heap item).id) →
      (s.heap item).qty = 0 ∧ ∀ b ∈ s.items, (s.heap b).name ≠ (s.heap item).name := by
    rintro rfl missing
    have zero := starts row item rfl (by simp [tapped, opened, hit]) missing
    refine ⟨zero, fun b inside name => ?_⟩
    have := shown.counted item member b inside name
    omega
  obtain ⟨called, stocked, acts⟩ :=
    faithful.stocked.updated orderable (shown.decoded item member) zero outcome
  obtain ⟨stocked', shown', unchanged⟩ := stocked.synced screen
    fun r here => ⟨(shown.decoded r here).of_onlyQty outcome.onlyQty,
      faithful.stocked.nonneg orderable outcome (shown.nonneg r here)⟩
  exact ⟨called, stocked', shown', unchanged.trans acts⟩

theorem Faithful.basketTap (orderable : Orderable database languageCode)
    (faithful : Faithful database languageCode s) (hit : s.items[row]? = some item)
    (outcome : Outcome s.heap s.items item button.modifier updated) :
    Stocked database languageCode updated.heap updated.items ∧
      (∀ screen, s.screen = some screen →
        Shown database languageCode updated.heap updated.items screen) ∧
      quantities updated.heap updated.items =
        (quantities s.heap s.items).tap (limitOf database languageCode (s.heap item).id)
          (s.heap item).id button := by
  have inside := List.mem_of_getElem? hit
  obtain ⟨-, stocked, acts⟩ := faithful.stocked.updated orderable
    (faithful.stocked.decoded item inside)
    (fun _ missing => absurd rfl (missing item inside)) outcome
  refine ⟨stocked, fun screen opened => ?_, acts⟩
  exact (faithful.shown screen opened).basketTap orderable faithful.stocked inside outcome stocked

end Taps

/-- An event that meets the condition keeps the invariant and acts as the map. -/
theorem Faithful.taken (orderable : Orderable database languageCode) {s next : Session}
    (faithful : Faithful database languageCode s) {event : Event}
    (starts : StartsFromZero s event) (taken : Taken database languageCode s event next) :
    Faithful database languageCode next ∧
      quantities next.heap next.items =
        abstractStep database languageCode s event (quantities s.heap s.items) := by
  have sound := faithful.sound.taken taken
  cases taken with
  | opened itemIDs => exact faithful.openCategory itemIDs
  | closed => exact ⟨⟨sound, faithful.stocked, by simp⟩, rfl⟩
  | missedRow missed => exact ⟨faithful, by simp [abstractStep, tapped, missed]⟩
  | missedEntry missed => exact ⟨faithful, by simp [abstractStep, tapped, missed]⟩
  | categoryTapped opened hit outcome =>
      obtain ⟨called, stocked, shown, acts⟩ :=
        faithful.categoryTap orderable starts opened hit outcome
      simp only [called, if_true] at sound ⊢
      refine ⟨⟨sound, stocked, fun rows still => ?_⟩, ?_⟩
      · obtain rfl := Option.some.inj (opened.symm.trans still)
        exact shown
      · simpa only [abstractStep, tapped, opened, Option.bind_some, hit] using acts
  | basketTapped hit outcome =>
      obtain ⟨stocked, shown, acts⟩ := faithful.basketTap orderable hit outcome
      exact ⟨⟨sound, stocked, shown⟩, by simpa only [abstractStep, tapped, hit] using acts⟩

theorem Faithful.step (orderable : Orderable database languageCode) {s : Session}
    (faithful : Faithful database languageCode s) {event : Event}
    (starts : StartsFromZero s event) :
    ∃ next, Basket.step database languageCode s event = some next ∧
      Faithful database languageCode next ∧
      quantities next.heap next.items =
        abstractStep database languageCode s event (quantities s.heap s.items) := by
  obtain ⟨next, stepped, taken⟩ := step_taken database languageCode faithful.sound event
  exact ⟨next, stepped, faithful.taken orderable starts taken⟩

theorem Faithful.start (heap : Heap) : Faithful database languageCode (Session.start heap) where
  sound := Sound.start heap
  stocked := ⟨List.nodup_nil, List.nodup_nil, by simp [Session.start], by simp [Session.start]⟩
  shown := by simp [Session.start]

/-- From an empty basket, every event of a session acts on the basket as on the
    map, if every plus on a category row that is not in the basket finds the
    row's object without a quantity. -/
theorem basket_refines (orderable : Orderable database languageCode) (heap : Heap)
    {events : List Event}
    (starts : Along (Basket.step database languageCode) StartsFromZero (Session.start heap)
      events) :
    Along (Basket.step database languageCode) (Refines database languageCode)
      (Session.start heap) events := by
  refine Along.imp (Faithful database languageCode) ?_ ?_ (Faithful.start heap) starts
  · intro s event faithful met
    obtain ⟨next, taken, _, acts⟩ := faithful.step orderable met
    exact ⟨next, taken, acts⟩
  · intro s event next faithful met taken
    obtain ⟨other, again, kept, _⟩ := faithful.step orderable met
    obtain rfl := Option.some.inj (taken.symm.trans again)
    exact kept

end Refinement

section StaleRow

private def dairy : Json :=
  .obj [("items", .obj [("milk", .obj [("name", .str "Milk"), ("icon", .str "m"),
    ("bgCol", .str "blue"), ("limit", .int 3)])])]

private def blank : Heap := fun _ => { id := "", name := "", icon := "", qty := 0, bgCol := "" }

private theorem dairy_orderable : Orderable dairy none := by
  intro id item decoded
  by_cases same : id = "milk"
  · subst same
    obtain rfl := Option.some.inj decoded
    exact ⟨3, rfl, by decide⟩
  · have missing : dairy.get ["items", id] = .null := by
      simp [dairy, Json.get, Json.child, Json.entries, List.lookup_cons, beq_false_of_ne same]
    simp [getRequestItem, observeSingleEvent, missing, DataSnapshot.childSnapshot, Json.child,
      Json.entries, asString] at decoded

theorem basket_refines_first_tap :
    Along (step dairy none) (Refines dairy none) (Session.start blank)
      [.openCategory ["milk"], .categoryTap 0 .plus] := by
  refine basket_refines dairy_orderable blank ⟨by simp [StartsFromZero], ?_⟩
  rintro _ ⟨⟩
  refine ⟨?_, fun _ _ => trivial⟩
  rintro row item - hit -
  obtain rfl : item = 0 := (Option.some.inj hit).symm
  rfl

/-- Order one, reopen the category, take it out again and order one: the row
    still holds the count that was copied when the screen opened, so the basket
    ends with two. -/
theorem reopened_row_orders_two :
    Orderable dairy none ∧
      ¬ Along (step dairy none) (Refines dairy none) (Session.start blank)
        [.openCategory ["milk"], .categoryTap 0 .plus, .closeCategory, .openCategory ["milk"],
          .categoryTap 0 .minus, .categoryTap 0 .plus] := by
  refine ⟨dairy_orderable, fun met => ?_⟩
  obtain ⟨next, taken, acts⟩ := met.after
    ([Event.openCategory ["milk"], .categoryTap 0 .plus, .closeCategory,
      .openCategory ["milk"], .categoryTap 0 .minus] : List Event) rfl
  obtain rfl := Option.some.inj taken
  have two := congrFun acts "milk"
  cases two

end StaleRow

end Kasei.Basket
