import Kasei.Basket.Structure
import Kasei.Lib.Copies

/-! # The resync of the category screen

`updateItemsFromBasket` gives every row the quantity of the basket entries with
its name, one after the other, through the objects themselves. What a row ends
with is the quantity of the last entry of its name that is another object, so
the resync is a sequence of copies. A row may be an entry of the basket: then
the copy edits the basket, unless no other entry has its name.
-/

namespace Kasei.Basket

open Copies

/-- The last entry with the name of an item that is not the item itself. -/
def lastNamesake (heap : Heap) (items : List Ref) (item : Ref) : Option Ref :=
  (items.filter fun b => b ≠ item ∧ (heap b).name = (heap item).name).getLast?

section Objects

variable {heap : Heap} {ref r : Ref}

theorem setQty_self (heap : Heap) (ref : Ref) : setQty heap ref (heap ref).qty = heap := by
  funext r
  unfold setQty
  split
  · rename_i same
    rw [same]
  · rfl

theorem setQty_of_ne (heap : Heap) (other : r ≠ ref) (qty : Int) :
    setQty heap ref qty r = heap r := if_neg other

theorem setQty_qty_self (heap : Heap) (ref : Ref) (qty : Int) :
    (setQty heap ref qty ref).qty = qty := by simp [setQty]

theorem setQty_setQty (heap : Heap) (ref : Ref) (first second : Int) :
    setQty (setQty heap ref first) ref second = setQty heap ref second := by
  funext r
  unfold setQty
  split <;> rfl

theorem setQty_qty (heap : Heap) (ref : Ref) (qty : Int) :
    (fun r => (setQty heap ref qty r).qty) = Function.update (fun r => (heap r).qty) ref qty := by
  funext r
  unfold setQty
  by_cases here : r = ref
  · simp [here]
  · simp [here]

theorem OnlyQty.eq_of_qty {before after : Heap} (same : OnlyQty before after)
    (qty : (after r).qty = (before r).qty) : after r = before r := by
  rw [same r, qty]

end Objects

section Namesakes

variable {heap : Heap} {items screen : List Ref} {item b : Ref}

theorem lastNamesake_some (found : lastNamesake heap items item = some b) :
    b ∈ items ∧ b ≠ item ∧ (heap b).name = (heap item).name := by
  have member := List.mem_of_getLast? found
  simpa only [List.mem_filter, decide_eq_true_eq] using member

theorem lastNamesake_none : lastNamesake heap items item = none ↔
    ∀ b ∈ items, (heap b).name = (heap item).name → b = item := by
  simp only [lastNamesake, List.getLast?_eq_none_iff, List.filter_eq_nil_iff, decide_eq_true_eq,
    not_and]
  apply forall₂_congr
  intro b _
  rw [not_imp_not]

theorem OnlyQty.lastNamesake {after : Heap} (same : OnlyQty heap after) :
    lastNamesake after items = lastNamesake heap items := by
  funext item
  simp only [Basket.lastNamesake, same.name]

theorem lastNamesake_concat (earlier : List Ref) :
    lastNamesake heap (earlier ++ [b]) item =
      if b ≠ item ∧ (heap b).name = (heap item).name then some b
      else lastNamesake heap earlier item := by
  unfold lastNamesake
  rw [List.filter_append, List.filter_singleton]
  by_cases last : b ≠ item ∧ (heap b).name = (heap item).name
  · simp [last]
  · simp [last]

/-- The inner loop copies from the last namesake. -/
theorem syncEntries_eq (heap : Heap) (items : List Ref) (item : Ref) :
    items.foldl (syncEntry item) heap = match lastNamesake heap items item with
      | some b => setQty heap item (heap b).qty
      | none => heap := by
  induction items using List.reverseRecOn with
  | nil => rfl
  | append_singleton earlier b ih =>
      have labels := syncEntries_onlyQty item earlier heap
      have others : ∀ r, r ≠ item → earlier.foldl (syncEntry item) heap r = heap r := by
        intro r other
        rw [ih]
        split
        · exact setQty_of_ne heap other _
        · rfl
      rw [List.foldl_append, List.foldl_cons, List.foldl_nil, lastNamesake_concat, syncEntry,
        labels.name, labels.name]
      by_cases named : (heap item).name = (heap b).name
      · by_cases own : b = item
        · subst own
          rw [if_pos rfl, setQty_self, ih]
          simp
        · rw [if_pos named, if_pos ⟨own, named.symm⟩, others b own, ih]
          split
          · exact setQty_setQty heap item _ _
          · rfl
      · rw [if_neg named, if_neg (fun both => named both.2.symm), ih]

theorem updateItemsFromBasket_qty (heap : Heap) (screen items : List Ref) :
    (fun r => (updateItemsFromBasket heap screen items r).qty) =
      copies (lastNamesake heap items) (fun r => (heap r).qty) screen := by
  unfold updateItemsFromBasket
  induction screen generalizing heap with
  | nil => rfl
  | cons item rest ih =>
      have labels := syncEntries_onlyQty item items heap
      rw [List.foldl_cons, ih, labels.lastNamesake, copies_cons]
      congr 1
      rw [syncEntries_eq]
      cases found : lastNamesake heap items item with
      | none => simp only [copy, found]
      | some b =>
          simp only [copy, found]
          exact setQty_qty heap item _

/-- Of the entries with one name, the last two read from each other and all
    others from the last. -/
theorem lastNamesake_paired (heap : Heap) (items : List Ref) :
    Paired (lastNamesake heap items) {r | r ∈ items} := by
  induction items using List.reverseRecOn with
  | nil => exact fun _ inside => absurd inside List.not_mem_nil
  | append_singleton earlier last ih =>
      have reads : ∀ {r}, r ≠ last → (heap r).name = (heap last).name →
          lastNamesake heap (earlier ++ [last]) r = some last := fun other named => by
        rw [lastNamesake_concat, if_pos ⟨Ne.symm other, named.symm⟩]
      have own : lastNamesake heap (earlier ++ [last]) last = lastNamesake heap earlier last := by
        rw [lastNamesake_concat, if_neg (fun both => both.1 rfl)]
      have skips : ∀ {r}, (heap r).name ≠ (heap last).name →
          lastNamesake heap (earlier ++ [last]) r = lastNamesake heap earlier r :=
        fun named => by
          rw [lastNamesake_concat, if_neg (fun both => named both.2.symm)]
      have within : ∀ {r}, r ∈ earlier → r ∈ {r | r ∈ earlier ++ [last]} :=
        fun inside => List.mem_append_left _ inside
      have there : last ∈ {r | r ∈ earlier ++ [last]} :=
        List.mem_append_right _ List.mem_cons_self
      intro item inside b found
      by_cases named : (heap item).name = (heap last).name
      · by_cases here : item = last
        · -- the last entry reads from the last one before it
          subst here
          obtain ⟨member, other, same⟩ := lastNamesake_some (own ▸ found)
          exact ⟨other, within member, item, there, reads other same, found⟩
        · -- all others read from the last entry
          obtain rfl := Option.some.inj ((reads here named).symm.trans found)
          have before : item ∈ earlier :=
            (List.mem_append.mp inside).resolve_right fun final =>
              here (List.mem_singleton.mp final)
          cases second : lastNamesake heap earlier last with
          | none => exact absurd (lastNamesake_none.mp second item before named) here
          | some partner =>
              obtain ⟨member, other, same⟩ := lastNamesake_some second
              exact ⟨Ne.symm here, there, partner, within member, own.trans second,
                reads other same⟩
      · have before : item ∈ earlier :=
          (List.mem_append.mp inside).resolve_right fun final =>
            named (by rw [List.mem_singleton.mp final])
        rw [skips named] at found
        obtain ⟨other, member, partner, member', second, back⟩ := ih item before b found
        have sameName := (lastNamesake_some found).2.2
        have sameName' := (lastNamesake_some second).2.2
        refine ⟨other, within member, partner, within member', ?_, ?_⟩
        · rw [skips (by rwa [sameName]), second]
        · rw [skips (by rwa [sameName', sameName]), back]

end Namesakes

/-- What the resync leaves in one row: its own count if no entry has its name,
    the count of such an entry otherwise. -/
def Synced (before after : Heap) (items : List Ref) (r : Ref) : Prop :=
  ((∀ b ∈ items, (before b).name ≠ (before r).name) ∧ after r = before r) ∨
    ∃ b ∈ items, (before b).name = (before r).name ∧ (after r).qty = (before b).qty

section Untouched

variable {heap : Heap} {items screen : List Ref} {r b : Ref}

theorem updateItemsFromBasket_untouched
    (untouched : r ∉ screen ∨ lastNamesake heap items r = none) :
    updateItemsFromBasket heap screen items r = heap r := by
  apply (updateItemsFromBasket_onlyQty heap screen items).eq_of_qty
  have after := congrFun (updateItemsFromBasket_qty heap screen items) r
  exact after.trans (copies_untouched untouched)

theorem updateItemsFromBasket_of_namesake (member : r ∈ screen)
    (found : lastNamesake heap items r = some b)
    (untouched : b ∉ screen ∨ lastNamesake heap items b = none) :
    (updateItemsFromBasket heap screen items r).qty = (heap b).qty := by
  have after := congrFun (updateItemsFromBasket_qty heap screen items) r
  exact after.trans (copies_of_source member found untouched)

/-- With distinct names in the basket the resync never writes to an entry. -/
theorem updateItemsFromBasket_spec (names : (items.map fun r => (heap r).name).Nodup)
    (screen : List Ref) :
    (∀ r, r ∈ items ∨ r ∉ screen → updateItemsFromBasket heap screen items r = heap r) ∧
      ∀ r ∈ screen, Synced heap (updateItemsFromBasket heap screen items) items r := by
  have alone : ∀ r ∈ items, lastNamesake heap items r = none := fun r inside =>
    lastNamesake_none.mpr fun b member named => List.inj_on_of_nodup_map names member inside named
  constructor
  · intro r which
    exact updateItemsFromBasket_untouched (which.symm.imp_right (alone r))
  · intro r member
    cases found : lastNamesake heap items r with
    | some b =>
        obtain ⟨inside, -, named⟩ := lastNamesake_some found
        exact .inr ⟨b, inside, named,
          updateItemsFromBasket_of_namesake member found (.inr (alone b inside))⟩
    | none =>
        have kept : updateItemsFromBasket heap screen items r = heap r :=
          updateItemsFromBasket_untouched (.inr found)
        by_cases inside : r ∈ items
        · exact .inr ⟨r, inside, rfl, by rw [kept]⟩
        · refine .inl ⟨fun b there named => inside ?_, kept⟩
          rwa [← lastNamesake_none.mp found b there named]

end Untouched

/-- The resync leaves the quantities in the basket alone. -/
def KeepsBasket (heap : Heap) (screen items : List Ref) : Prop :=
  ∀ b ∈ items, (updateItemsFromBasket heap screen items b).qty = (heap b).qty

/-- The resync edits no entry of the basket exactly if every row that is one has
    the quantity of the last other entry of its name. -/
theorem keepsBasket_iff (heap : Heap) (screen items : List Ref) :
    KeepsBasket heap screen items ↔
      ∀ item ∈ screen, item ∈ items → ∀ b, lastNamesake heap items item = some b →
        (heap b).qty = (heap item).qty := by
  have after := updateItemsFromBasket_qty heap screen items
  have kept : KeepsBasket heap screen items ↔ ∀ b ∈ {r | r ∈ items},
      copies (lastNamesake heap items) (fun r => (heap r).qty) screen b = (heap b).qty := by
    rw [← after]
    rfl
  rw [kept]
  exact copies_unchanged_iff (lastNamesake_paired heap items)

/-- Two entries named alike, both of them rows of the open screen. -/
private def namesakes : Heap
  | 0 => { id := "milk1", name := "Milk", icon := "box", qty := 1, qtyLimit := some 3, bgCol := "" }
  | _ => { id := "milk2", name := "Milk", icon := "jug", qty := 2, qtyLimit := some 3, bgCol := "" }

/-- The first entry takes the quantity of the second. -/
theorem resync_edits_namesake :
    ([0, 1].map fun r => (namesakes r).id).Nodup ∧ ¬ KeepsBasket namesakes [0, 1] [0, 1] := by
  refine ⟨by decide, fun kept => ?_⟩
  exact absurd (kept 0 List.mem_cons_self) (by decide)

end Kasei.Basket
