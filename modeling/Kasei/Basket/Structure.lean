import Kasei.Basket.Session
import Kasei.Models.Counters

/-! # The structure of the basket

Whatever the catalogue holds, the entries of the basket have distinct ids and a
limit: `update` appends only what it did not find and only past its guard on
the limit. The encoder of the request and the counter loop agree because of it.
-/

namespace Kasei.Basket

open JsonTree Runs

section Heap

/-- Only quantities differ. -/
def OnlyQty (before after : Heap) : Prop :=
  ∀ r, after r = { before r with qty := (after r).qty }

theorem OnlyQty.refl (heap : Heap) : OnlyQty heap heap := fun _ => rfl

theorem OnlyQty.trans {first second third : Heap} (left : OnlyQty first second)
    (right : OnlyQty second third) : OnlyQty first third := by
  intro r
  rw [right r, left r]

theorem OnlyQty.setQty (heap : Heap) (ref : Ref) (qty : Int) :
    OnlyQty heap (setQty heap ref qty) := by
  intro r
  unfold Basket.setQty
  split <;> rfl

variable {before after : Heap} (same : OnlyQty before after)
include same

theorem OnlyQty.id (r : Ref) : (after r).id = (before r).id := by rw [same r]

theorem OnlyQty.name (r : Ref) : (after r).name = (before r).name := by rw [same r]

theorem OnlyQty.qtyLimit (r : Ref) : (after r).qtyLimit = (before r).qtyLimit := by rw [same r]

end Heap

@[simp] theorem setQty_id (heap : Heap) (ref r : Ref) (qty : Int) :
    (setQty heap ref qty r).id = (heap r).id := (OnlyQty.setQty heap ref qty).id r

@[simp] theorem setQty_name (heap : Heap) (ref r : Ref) (qty : Int) :
    (setQty heap ref qty r).name = (heap r).name := (OnlyQty.setQty heap ref qty).name r

@[simp] theorem setQty_qtyLimit (heap : Heap) (ref r : Ref) (qty : Int) :
    (setQty heap ref qty r).qtyLimit = (heap r).qtyLimit :=
  (OnlyQty.setQty heap ref qty).qtyLimit r

theorem syncEntry_onlyQty (item basketItem : Ref) (heap : Heap) :
    OnlyQty heap (syncEntry item heap basketItem) := by
  unfold syncEntry
  split
  · exact OnlyQty.setQty heap item _
  · exact OnlyQty.refl heap

theorem syncEntries_onlyQty (item : Ref) (items : List Ref) (heap : Heap) :
    OnlyQty heap (items.foldl (syncEntry item) heap) := by
  induction items generalizing heap with
  | nil => exact OnlyQty.refl heap
  | cons basketItem rest ih => exact (syncEntry_onlyQty item basketItem heap).trans (ih _)

theorem updateItemsFromBasket_onlyQty (heap : Heap) (screen items : List Ref) :
    OnlyQty heap (updateItemsFromBasket heap screen items) := by
  unfold updateItemsFromBasket
  induction screen generalizing heap with
  | nil => exact OnlyQty.refl heap
  | cons item rest ih => exact (syncEntries_onlyQty item items heap).trans (ih _)

section Update

theorem foldlM_absent {id : String} {modifier : Int} {todo : List Ref} {search : Search}
    (absent : ∀ r ∈ todo, (search.heap r).id ≠ id) :
    todo.foldlM (updateEntry id modifier) search = some search := by
  induction todo with
  | nil => rfl
  | cons i rest ih =>
      have skipped : updateEntry id modifier search i = some search := by
        simp [updateEntry, absent i List.mem_cons_self]
      rw [List.foldlM_cons, skipped]
      exact ih fun r member => absent r (List.mem_cons_of_mem i member)

theorem Button.eq_plus {button : Button} (adds : 0 < button.modifier) : button = .plus := by
  cases button with
  | plus => rfl
  | minus => cases adds

/-- What `update` does to the heap and the array, case by case. -/
inductive Outcome (heap : Heap) (items : List Ref) (item : Ref) (modifier : Int) :
    Updated → Prop where
  | noLimit : (heap item).qtyLimit = none → Outcome heap items item modifier ⟨heap, items, false⟩
  | changed {entry limit qty} : entry ∈ items → (heap entry).id = (heap item).id →
      (heap entry).qtyLimit = some limit → qty = min ((heap entry).qty + modifier) limit →
      Outcome heap items item modifier
        ⟨setQty heap entry qty,
          if qty ≤ 0 then items.filter fun r => (heap r).id ≠ (heap item).id else items, true⟩
  | added : (heap item).qtyLimit ≠ none → (∀ r ∈ items, (heap r).id ≠ (heap item).id) →
      0 < modifier →
      Outcome heap items item modifier
        ⟨setQty heap item ((heap item).qty + 1), items ++ [item], true⟩
  | absent : (heap item).qtyLimit ≠ none → (∀ r ∈ items, (heap r).id ≠ (heap item).id) →
      modifier ≤ 0 → Outcome heap items item modifier ⟨heap, items, true⟩

theorem Outcome.onlyQty {heap : Heap} {items : List Ref} {item : Ref} {modifier : Int}
    {updated : Updated} (outcome : Outcome heap items item modifier updated) :
    OnlyQty heap updated.heap := by
  cases outcome with
  | noLimit | absent => exact OnlyQty.refl heap
  | changed | added => exact OnlyQty.setQty heap _ _

variable {heap : Heap} {items : List Ref}

/-- On a basket with distinct ids and limits, `update` never fails its forced
    unwrap, and at most one entry is found. -/
theorem update_outcome (distinct : (items.map fun r => (heap r).id).Nodup)
    (limits : ∀ r ∈ items, (heap r).qtyLimit ≠ none) (item : Ref) (modifier : Int) :
    ∃ updated, update heap items item modifier = some updated ∧
      Outcome heap items item modifier updated := by
  unfold update
  by_cases noLimit : (heap item).qtyLimit = none
  · rw [if_pos noLimit]
    exact ⟨_, rfl, .noLimit noLimit⟩
  · rw [if_neg noLimit]
    by_cases present : ∃ entry ∈ items, (heap entry).id = (heap item).id
    · obtain ⟨entry, member, same⟩ := present
      obtain ⟨limit, limited⟩ := Option.ne_none_iff_exists'.mp (limits entry member)
      obtain ⟨first, later, rfl⟩ := List.append_of_mem member
      refine ⟨_, ?_, .changed member same limited rfl⟩
      -- the other entries have other ids, so the loop only stops at this one
      simp only [List.map_append, List.map_cons] at distinct
      have apart := List.nodup_middle.mp distinct
      rw [List.nodup_cons, List.mem_append, not_or] at apart
      have skipFirst : ∀ r ∈ first, (heap r).id ≠ (heap item).id := by
        intro r here
        rw [← same]
        exact fun equal => apart.1.1 (List.mem_map.mpr ⟨r, here, equal⟩)
      have skipLater : ∀ r ∈ later, (heap r).id ≠ (heap item).id := by
        intro r here
        rw [← same]
        exact fun equal => apart.1.2 (List.mem_map.mpr ⟨r, here, equal⟩)
      rw [List.foldlM_append, foldlM_absent skipFirst]
      simp only [Option.bind_eq_bind, Option.bind_some, List.foldlM_cons]
      rw [show updateEntry (heap item).id modifier
          ⟨heap, first ++ entry :: later, false⟩ entry = some ⟨_, _, true⟩ by
        simp only [updateEntry, if_pos same, limited, Option.bind_eq_bind, Option.bind_some]
        rfl]
      rw [Option.bind_some, foldlM_absent (by simpa using skipLater), Option.bind_some]
      simp only [Bool.not_true, Bool.false_and, Bool.false_eq_true, if_false, removeItem,
        setQty_id, same]
      rfl
    · have missing : ∀ r ∈ items, (heap r).id ≠ (heap item).id :=
        fun r member same => present ⟨r, member, same⟩
      rw [foldlM_absent missing]
      by_cases adds : 0 < modifier
      · exact ⟨_, by simp [adds], .added noLimit missing adds⟩
      · exact ⟨_, by simp [adds], .absent noLimit missing (Int.not_lt.mp adds)⟩

end Update

theorem nodup_labels_append {β : Type} {label : Ref → β} {items : List Ref} {item : Ref}
    (distinct : (items.map label).Nodup) (fresh : ∀ r ∈ items, label r ≠ label item) :
    ((items ++ [item]).map label).Nodup := by
  rw [List.map_append]
  apply distinct.append (List.nodup_singleton _)
  intro value here last
  obtain ⟨r, member, rfl⟩ := List.mem_map.mp here
  exact fresh r member (List.mem_singleton.mp last)

/-- What every session keeps, whatever the catalogue. The bounds on references
    make the objects of a new screen new. -/
structure Sound (s : Session) : Prop where
  distinct : (s.items.map fun r => (s.heap r).id).Nodup
  limits : ∀ r ∈ s.items, (s.heap r).qtyLimit ≠ none
  allocated : ∀ r ∈ s.items, r < s.next
  shown : ∀ rows, s.screen = some rows → ∀ r ∈ rows, r < s.next

theorem Sound.start (heap : Heap) : Sound (Session.start heap) where
  distinct := List.nodup_nil
  limits := by simp [Session.start]
  allocated := by simp [Session.start]
  shown := by simp [Session.start]

theorem Sound.of_onlyQty {s : Session} (sound : Sound s) {heap : Heap}
    (same : OnlyQty s.heap heap) : Sound { s with heap := heap } where
  distinct := by simpa only [same.id] using sound.distinct
  limits := by
    intro r member
    rw [same.qtyLimit]
    exact sound.limits r member
  allocated := sound.allocated
  shown := sound.shown

theorem Sound.updated {s : Session} (sound : Sound s) {item : Ref} {modifier : Int}
    (old : item < s.next) {updated : Updated}
    (outcome : Outcome s.heap s.items item modifier updated) :
    Sound { s with heap := updated.heap, items := updated.items } := by
  cases outcome with
  | noLimit => exact sound
  | absent => exact sound
  | @changed entry limit qty member same limited value =>
      have kept := sound.of_onlyQty (OnlyQty.setQty s.heap entry qty)
      split
      · exact {
          distinct := kept.distinct.sublist (List.filter_sublist.map _)
          limits := fun r here => kept.limits r (List.mem_of_mem_filter here)
          allocated := fun r here => kept.allocated r (List.mem_of_mem_filter here)
          shown := kept.shown }
      · exact kept
  | added limited missing adds =>
      have kept := sound.of_onlyQty (OnlyQty.setQty s.heap item ((s.heap item).qty + 1))
      refine ⟨?_, ?_, ?_, kept.shown⟩
      · apply nodup_labels_append kept.distinct
        simpa only [setQty_id] using missing
      · intro r here
        rcases List.mem_append.mp here with member | last
        · exact kept.limits r member
        · obtain rfl := List.mem_singleton.mp last
          simpa only [setQty_qtyLimit] using limited
      · intro r here
        rcases List.mem_append.mp here with member | last
        · exact sound.allocated r member
        · obtain rfl := List.mem_singleton.mp last
          exact old

section Sessions

variable (database : Json) (languageCode : Option String)

/-- Loading only allocates: what was there before keeps its content, and every
    new row is an object that was just decoded. -/
theorem loadItem_fold (itemIDs : List String) (loaded : Session × List Ref) :
    let after := itemIDs.foldl (loadItem database languageCode) loaded
    after.1.items = loaded.1.items ∧ loaded.1.next ≤ after.1.next ∧
      (∀ r < loaded.1.next, after.1.heap r = loaded.1.heap r) ∧
      ∀ r ∈ after.2, r ∈ loaded.2 ∨ (r < after.1.next ∧
        ∃ id ∈ itemIDs, getRequestItem database languageCode id = some (after.1.heap r)) := by
  induction itemIDs generalizing loaded with
  | nil => exact ⟨rfl, le_refl _, fun _ _ => rfl, fun _ here => .inl here⟩
  | cons id rest ih =>
      obtain ⟨items, next, heap, rows⟩ := ih (loadItem database languageCode loaded id)
      cases decoded : getRequestItem database languageCode id with
      | none =>
          have skipped : loadItem database languageCode loaded id = loaded := by
            simp [loadItem, decoded]
          rw [skipped] at items next heap rows
          simp only [List.foldl_cons, skipped]
          refine ⟨items, next, heap, fun r here => (rows r here).imp_right ?_⟩
          exact And.imp_right fun ⟨other, member, found⟩ =>
            ⟨other, List.mem_cons_of_mem id member, found⟩
      | some item =>
          simp only [loadItem, decoded] at items next heap rows
          simp only [List.foldl_cons, loadItem, decoded]
          refine ⟨items, by omega, ?_, ?_⟩
          · intro r old
            rw [heap r (Nat.lt_succ_of_lt old), if_neg (Nat.ne_of_lt old)]
          · intro r here
            rcases rows r here with older | fresh
            · rcases List.mem_append.mp older with member | last
              · exact .inl member
              · obtain rfl := List.mem_singleton.mp last
                refine .inr ⟨next, id, List.mem_cons_self, ?_⟩
                rw [heap _ (Nat.lt_succ_self _), if_pos rfl, decoded]
            · obtain ⟨new, other, member, found⟩ := fresh
              exact .inr ⟨new, other, List.mem_cons_of_mem id member, found⟩

theorem Sound.loaded {s : Session} (sound : Sound s) (itemIDs : List String) :
    let loaded := itemIDs.foldl (loadItem database languageCode) (s, [])
    Sound { loaded.1 with screen := some loaded.2 } := by
  obtain ⟨items, next, heap, rows⟩ := loadItem_fold database languageCode itemIDs (s, [])
  generalize itemIDs.foldl (loadItem database languageCode) (s, []) = loaded at *
  refine ⟨?_, ?_, ?_, ?_⟩
  · have unchanged : ∀ r ∈ s.items, (loaded.1.heap r).id = (s.heap r).id :=
      fun r member => by rw [heap r (sound.allocated r member)]
    simp only [items]
    rw [List.map_congr_left unchanged]
    exact sound.distinct
  · intro r member
    simp only [items] at member
    rw [heap r (sound.allocated r member)]
    exact sound.limits r member
  · intro r member
    simp only [items] at member
    exact lt_of_lt_of_le (sound.allocated r member) next
  · rintro _ ⟨⟩ r here
    rcases rows r here with older | fresh
    · simp at older
    · exact fresh.1

theorem Sound.loadItems {s : Session} (sound : Sound s) (itemIDs : List String) :
    Sound (loadItems database languageCode s itemIDs) :=
  (sound.loaded database languageCode itemIDs).of_onlyQty (updateItemsFromBasket_onlyQty _ _ _)

/-- What one event does to a session, with the search loop of `update` already
    run. -/
inductive Taken (s : Session) : Event → Session → Prop where
  | opened (itemIDs : List String) :
      Taken s (.openCategory itemIDs) (loadItems database languageCode s itemIDs)
  | closed : Taken s .closeCategory { s with screen := none }
  | missedRow {row button} : s.screen.bind (·[row]?) = none → Taken s (.categoryTap row button) s
  | missedEntry {row button} : s.items[row]? = none → Taken s (.basketTap row button) s
  | categoryTapped {row button screen item updated} : s.screen = some screen →
      screen[row]? = some item → Outcome s.heap s.items item button.modifier updated →
      Taken s (.categoryTap row button) { s with
        heap := if updated.calledBack then
          updateItemsFromBasket updated.heap screen updated.items else updated.heap
        items := updated.items }
  | basketTapped {row button item updated} : s.items[row]? = some item →
      Outcome s.heap s.items item button.modifier updated →
      Taken s (.basketTap row button) { s with heap := updated.heap, items := updated.items }

theorem step_taken {s : Session} (sound : Sound s) (event : Event) :
    ∃ next, step database languageCode s event = some next ∧
      Taken database languageCode s event next := by
  cases event with
  | openCategory itemIDs => exact ⟨_, rfl, .opened itemIDs⟩
  | closeCategory => exact ⟨_, rfl, .closed⟩
  | categoryTap row button =>
      cases opened : s.screen with
      | none => exact ⟨s, by simp [step, opened], .missedRow (by simp [opened])⟩
      | some screen =>
          cases hit : screen[row]? with
          | none => exact ⟨s, by simp [step, tapped, opened, hit], .missedRow (by simp [opened, hit])⟩
          | some item =>
              obtain ⟨updated, ran, outcome⟩ :=
                update_outcome sound.distinct sound.limits item button.modifier
              refine ⟨_, ?_, .categoryTapped opened hit outcome⟩
              simp [step, tapped, opened, hit, categoryClicked, ran]
  | basketTap row button =>
      cases hit : s.items[row]? with
      | none => exact ⟨s, by simp [step, tapped, hit], .missedEntry hit⟩
      | some item =>
          obtain ⟨updated, ran, outcome⟩ :=
            update_outcome sound.distinct sound.limits item button.modifier
          refine ⟨_, ?_, .basketTapped hit outcome⟩
          simp [step, tapped, hit, basketClicked, ran]

variable {database languageCode} in
theorem Sound.taken {s next : Session} (sound : Sound s) {event : Event}
    (taken : Taken database languageCode s event next) : Sound next := by
  cases taken with
  | opened itemIDs => exact sound.loadItems database languageCode itemIDs
  | closed => exact ⟨sound.distinct, sound.limits, sound.allocated, by simp⟩
  | missedRow | missedEntry => exact sound
  | @categoryTapped row button screen item updated opened hit outcome =>
      have old := sound.shown screen opened item (List.mem_of_getElem? hit)
      apply (sound.updated old outcome).of_onlyQty
      split
      · exact updateItemsFromBasket_onlyQty updated.heap screen updated.items
      · exact OnlyQty.refl updated.heap
  | basketTapped hit outcome =>
      exact sound.updated (sound.allocated _ (List.mem_of_getElem? hit)) outcome

theorem step_sound {s : Session} (sound : Sound s) (event : Event) :
    ∃ next, step database languageCode s event = some next ∧ Sound next := by
  obtain ⟨next, stepped, taken⟩ := step_taken database languageCode sound event
  exact ⟨next, stepped, sound.taken taken⟩

theorem Sound.step_inv {s next : Session} (sound : Sound s) {event : Event}
    (stepped : step database languageCode s event = some next) :
    Taken database languageCode s event next := by
  obtain ⟨after, same, taken⟩ := step_taken database languageCode sound event
  obtain rfl := Option.some.inj (same.symm.trans stepped)
  exact taken

theorem session_sound (heap : Heap) (events : List Event) :
    ∃ s, run (step database languageCode) (Session.start heap) events = some s ∧ Sound s :=
  run_total (fun _ event sound => step_sound database languageCode sound event)
    (Sound.start heap) events

def Session.rows (s : Session) : List Ref := s.screen.getD []

/-- An object is as the catalogue has it, up to its quantity. -/
def AsDecoded (item : RequestItem) : Prop :=
  getRequestItem database languageCode item.id = some { item with qty := 0 }

/-- Every entry and every row is an object of the catalogue. -/
def Catalogued (s : Session) : Prop :=
  ∀ r, r ∈ s.items ∨ r ∈ s.rows → AsDecoded database languageCode (s.heap r)

section Catalogued

variable {database languageCode}

theorem AsDecoded.of_onlyQty {before after : Heap} (same : OnlyQty before after) {r : Ref}
    (decoded : AsDecoded database languageCode (before r)) :
    AsDecoded database languageCode (after r) := by
  unfold AsDecoded
  rw [same r]
  exact decoded

/-- Two objects of one id differ in their quantity only. -/
theorem AsDecoded.same {first second : RequestItem}
    (one : AsDecoded database languageCode first) (two : AsDecoded database languageCode second)
    (same : first.id = second.id) :
    first.name = second.name ∧ first.qtyLimit = second.qtyLimit ∧
      first.qtyRemaining = second.qtyRemaining := by
  unfold AsDecoded at one two
  rw [same, two, Option.some.injEq, RequestItem.mk.injEq] at one
  obtain ⟨-, name, -, -, limit, remaining, -⟩ := one
  exact ⟨name.symm, limit.symm, remaining.symm⟩

theorem Catalogued.start (heap : Heap) : Catalogued database languageCode (Session.start heap) := by
  simp [Catalogued, Session.start, Session.rows]

theorem Outcome.mem_items {heap : Heap} {items : List Ref} {item r : Ref} {modifier : Int}
    {updated : Updated} (outcome : Outcome heap items item modifier updated)
    (member : r ∈ updated.items) : r ∈ items ∨ r = item := by
  cases outcome with
  | noLimit | absent => exact .inl member
  | changed =>
      simp only at member
      split at member
      · exact .inl (List.mem_of_mem_filter member)
      · exact .inl member
  | added => exact (List.mem_append.mp member).imp_right List.mem_singleton.mp

theorem Catalogued.loaded {s : Session} (sound : Sound s)
    (catalogued : Catalogued database languageCode s) (itemIDs : List String) :
    let loaded := itemIDs.foldl (loadItem database languageCode) (s, [])
    Catalogued database languageCode { loaded.1 with screen := some loaded.2 } := by
  obtain ⟨items, _, heap, rows⟩ := loadItem_fold database languageCode itemIDs (s, [])
  generalize itemIDs.foldl (loadItem database languageCode) (s, []) = loaded at *
  show Catalogued database languageCode { loaded.1 with screen := some loaded.2 }
  rintro r (entry | row)
  · simp only [items] at entry
    rw [heap r (sound.allocated r entry)]
    exact catalogued r (.inl entry)
  · obtain ⟨-, id, -, decoded⟩ := (rows r row).resolve_left List.not_mem_nil
    obtain ⟨sameId, zero⟩ := getRequestItem_fresh decoded
    subst sameId
    unfold AsDecoded
    rw [← zero]
    exact decoded

theorem Catalogued.updated {s : Session} (catalogued : Catalogued database languageCode s)
    {item : Ref} (held : item ∈ s.items ∨ item ∈ s.rows) {modifier : Int} {updated : Updated}
    (outcome : Outcome s.heap s.items item modifier updated) :
    Catalogued database languageCode
      { s with heap := updated.heap, items := updated.items } := by
  rintro r (entry | row)
  · refine AsDecoded.of_onlyQty outcome.onlyQty (catalogued r ?_)
    obtain older | rfl := outcome.mem_items entry
    · exact .inl older
    · exact held
  · exact AsDecoded.of_onlyQty outcome.onlyQty (catalogued r (.inr row))

/-- `update` calls back exactly past its guard on the limit. -/
theorem Catalogued.called {s : Session} (catalogued : Catalogued database languageCode s)
    {item : Ref} (held : item ∈ s.items ∨ item ∈ s.rows) {modifier : Int} {updated : Updated}
    (outcome : Outcome s.heap s.items item modifier updated) :
    (s.heap item).qtyLimit = none ∧ updated = ⟨s.heap, s.items, false⟩ ∨
      (s.heap item).qtyLimit ≠ none ∧ updated.calledBack = true := by
  cases outcome with
  | noLimit none => exact .inl ⟨none, rfl⟩
  | @changed entry _ _ inside same limited =>
      have alike := (catalogued entry (.inl inside)).same (catalogued item held) same
      rw [← alike.2.1, limited]
      exact .inr ⟨Option.some_ne_none _, rfl⟩
  | added limited | absent limited => exact .inr ⟨limited, rfl⟩

theorem Session.mem_rows {s : Session} {screen : List Ref} (opened : s.screen = some screen)
    {row : Nat} {item : Ref} (hit : screen[row]? = some item) : item ∈ s.rows := by
  simpa only [Session.rows, opened, Option.getD_some] using List.mem_of_getElem? hit

theorem Catalogued.taken {s next : Session} (sound : Sound s)
    (catalogued : Catalogued database languageCode s) {event : Event}
    (taken : Taken database languageCode s event next) :
    Catalogued database languageCode next := by
  cases taken with
  | opened itemIDs =>
      intro r held
      exact (catalogued.loaded sound itemIDs r held).of_onlyQty
        (updateItemsFromBasket_onlyQty _ _ _)
  | closed => exact fun r held => catalogued r (.inl (held.resolve_right List.not_mem_nil))
  | missedRow | missedEntry => exact catalogued
  | @categoryTapped row button screen item updated opened hit outcome =>
      have kept := catalogued.updated (.inr (Session.mem_rows opened hit)) outcome
      intro r held
      refine AsDecoded.of_onlyQty ?_ (kept r held)
      split
      · exact updateItemsFromBasket_onlyQty updated.heap screen updated.items
      · exact OnlyQty.refl updated.heap
  | basketTapped hit outcome =>
      exact catalogued.updated (.inl (List.mem_of_getElem? hit)) outcome

theorem session_catalogued {heap : Heap} {events : List Event} {s : Session}
    (reached : run (step database languageCode) (Session.start heap) events = some s) :
    Sound s ∧ Catalogued database languageCode s := by
  have keeps : ∀ s event, Sound s ∧ Catalogued database languageCode s →
      ∃ next, step database languageCode s event = some next ∧
        Sound next ∧ Catalogued database languageCode next := by
    rintro s event ⟨sound, catalogued⟩
    obtain ⟨next, stepped, taken⟩ := step_taken database languageCode sound event
    exact ⟨next, stepped, sound.taken taken, catalogued.taken sound taken⟩
  obtain ⟨final, ran, kept⟩ := run_total keeps ⟨Sound.start heap, Catalogued.start heap⟩ events
  obtain rfl := Option.some.inj (ran.symm.trans reached)
  exact kept

end Catalogued

/-- In every session over every catalogue no forced unwrap fails, the entries
    have distinct ids and a limit, and at checkout the stored content and the
    stock transactions agree on every id. -/
theorem basket_structure (heap : Heap) (events : List Event) (newRequest : Request) :
    ∃ s, run (step database languageCode) (Session.start heap) events = some s ∧
      (s.items.map fun r => (s.heap r).id).Nodup ∧
      (∀ r ∈ s.items, (s.heap r).qtyLimit ≠ none) ∧
      (contentDictionary (checkout s newRequest).items).length = s.items.length ∧
      (∀ r ∈ s.items, (contentDictionary (checkout s newRequest).items).lookup (s.heap r).id =
        some (s.heap r).qty) ∧
      ∀ id zoneid, ((contentDictionary (checkout s newRequest).items).lookup id).getD 0 =
        -Counters.total (updateCounters (checkout s newRequest).items zoneid) (stockPath id) := by
  obtain ⟨s, ran, sound⟩ := session_sound database languageCode heap events
  have distinct : ((checkout s newRequest).items.map RequestItem.id).Nodup := by
    simpa only [checkout, List.map_map, Function.comp_def] using sound.distinct
  refine ⟨s, ran, sound.distinct, sound.limits, ?_, ?_, ?_⟩
  · rw [contentDictionary_of_distinct distinct, List.length_map]
    exact List.length_map ..
  · intro r member
    rw [contentDictionary_of_distinct distinct]
    refine lookup_of_mem ?_ (List.mem_map.mpr ⟨s.heap r, List.mem_map_of_mem member, rfl⟩)
    simpa only [List.map_map, Function.comp_def] using distinct
  · intro id zoneid
    rw [Counters.total_stock, neg_neg, Counters.quantityOf_of_distinct distinct]

end Sessions

end Kasei.Basket
