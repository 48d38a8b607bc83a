import Kasei.Basket.Refinement

/-! # The rows of the open category

A row shows the quantity of the basket entry with its id, or nothing. The resync
writes to a row only when it finds an entry of the row's name, so the rows agree
with the basket as long as names tell the ids apart and an entry that leaves the
basket takes the count of its rows with it.
-/

namespace Kasei.Basket

open JsonTree Runs

/-- Every row has the quantity of the entry with its id, or none at all. -/
def Matches (s : Session) : Prop :=
  ∀ r ∈ s.rows, (s.heap r).qty = (quantities s.heap s.items (s.heap r).id).getD 0

/-- An entry with the name of a row is the entry of that row. -/
def NamesTell (heap : Heap) (rows items : List Ref) : Prop :=
  ∀ r ∈ rows, ∀ b ∈ items, (heap b).name = (heap r).name → (heap b).id = (heap r).id

section Resync

variable {heap : Heap} {rows items : List Ref}

theorem NamesTell.of_onlyQty {after : Heap} (tell : NamesTell heap rows items)
    (same : OnlyQty heap after) : NamesTell after rows items := by
  intro r row b entry named
  rw [same.name, same.name] at named
  rw [same.id, same.id]
  exact tell r row b entry named

variable (distinct : (items.map fun r => (heap r).id).Nodup) (tell : NamesTell heap rows items)
include distinct tell

theorem entry_untouched {b : Ref} (entry : b ∈ items) :
    b ∉ rows ∨ lastNamesake heap items b = none := by
  by_cases row : b ∈ rows
  · refine .inr (lastNamesake_none.mpr fun other inside named => ?_)
    exact List.inj_on_of_nodup_map distinct inside entry (tell b row other inside named)
  · exact .inl row

theorem resync_entry {b : Ref} (entry : b ∈ items) :
    updateItemsFromBasket heap rows items b = heap b :=
  updateItemsFromBasket_untouched (entry_untouched distinct tell entry)

theorem resync_quantities :
    quantities (updateItemsFromBasket heap rows items) items = quantities heap items := by
  have labels := updateItemsFromBasket_onlyQty heap rows items
  refine quantities_eq (by simpa only [labels.id] using distinct) ?_ ?_
  · intro b entry
    rw [resync_entry distinct tell entry]
    exact quantities_of_mem distinct entry
  · intro id absent
    exact quantities_of_absent fun b entry => labels.id b ▸ absent b entry

theorem resync_row (named : ∀ r ∈ rows, ∀ b ∈ items, (heap b).id = (heap r).id →
      (heap b).name = (heap r).name) {r : Ref} (row : r ∈ rows) :
    (updateItemsFromBasket heap rows items r).qty =
      (quantities heap items (heap r).id).getD (heap r).qty := by
  by_cases present : ∃ b ∈ items, (heap b).id = (heap r).id
  · obtain ⟨b, entry, same⟩ := present
    rw [← same, quantities_of_mem distinct entry, Option.getD_some]
    by_cases own : b = r
    · subst own
      rw [resync_entry distinct tell entry]
    · cases found : lastNamesake heap items r with
      | none => exact absurd (lastNamesake_none.mp found b entry (named r row b entry same)) own
      | some other =>
          obtain ⟨inside, -, alike⟩ := lastNamesake_some found
          obtain rfl : other = b := List.inj_on_of_nodup_map distinct inside entry
            ((tell r row other inside alike).trans same.symm)
          exact updateItemsFromBasket_of_namesake row found (entry_untouched distinct tell entry)
  · have absent : ∀ b ∈ items, (heap b).id ≠ (heap r).id :=
      fun b entry same => present ⟨b, entry, same⟩
    rw [quantities_of_absent absent, Option.getD_none, updateItemsFromBasket_untouched]
    refine .inr (lastNamesake_none.mpr fun b entry alike => ?_)
    exact absurd (tell r row b entry alike) (absent b entry)

end Resync

section Sessions

variable (database : Json) (languageCode : Option String)

/-- An entry that the tap takes out of the basket leaves no count behind in the
    rows of its id. -/
def LeavesNoCount (s : Session) (item : Ref) (button : Button) : Prop :=
  ∀ b ∈ s.items, (s.heap b).id = (s.heap item).id →
    ∀ limit, (s.heap b).qtyLimit = some limit →
      min ((s.heap b).qty + button.modifier) limit ≤ 0 →
      ∀ r ∈ s.rows, (s.heap r).id = (s.heap item).id →
        if r = b then min ((s.heap b).qty + button.modifier) limit = 0 else (s.heap r).qty = 0

/-- An item that the tap puts into the basket shares its name with no row of
    another id. -/
def EntersUnderOwnName (s : Session) (item : Ref) (button : Button) : Prop :=
  button = .plus → (∀ b ∈ s.items, (s.heap b).id ≠ (s.heap item).id) →
    ∀ r ∈ s.rows, (s.heap r).name = (s.heap item).name → (s.heap r).id = (s.heap item).id

/-- What keeps the rows in step with the basket: no item of a category that
    opens shares its name with an entry of another id, and a tap leaves no count
    behind and adds no such entry. -/
def InStep (s : Session) (event : Event) : Prop :=
  match event with
  | .openCategory itemIDs => ∀ id ∈ itemIDs, ∀ item,
      getRequestItem database languageCode id = some item →
        ∀ b ∈ s.items, (s.heap b).name = item.name → (s.heap b).id = id
  | .categoryTap _ button => ∀ item, tapped s event = some item →
      (s.heap item).qtyLimit ≠ none →
        LeavesNoCount s item button ∧ EntersUnderOwnName s item button
  | _ => True

/-- The invariant of the open screen. -/
structure RowsInStep (s : Session) : Prop where
  sound : Sound s
  catalogued : Catalogued database languageCode s
  tell : NamesTell s.heap s.rows s.items
  agree : Matches s

variable {database languageCode}

/-- The resync brings rows into step that have no count without an entry. -/
theorem matches_of_resync {s : Session} (sound : Sound s)
    (catalogued : Catalogued database languageCode s) (tell : NamesTell s.heap s.rows s.items)
    (cleared : ∀ r ∈ s.rows, (∀ b ∈ s.items, (s.heap b).id ≠ (s.heap r).id) →
      (s.heap r).qty = 0) :
    RowsInStep database languageCode
      { s with heap := updateItemsFromBasket s.heap s.rows s.items } := by
  have labels := updateItemsFromBasket_onlyQty s.heap s.rows s.items
  have named : ∀ r ∈ s.rows, ∀ b ∈ s.items, (s.heap b).id = (s.heap r).id →
      (s.heap b).name = (s.heap r).name := fun r row b entry same =>
    ((catalogued b (.inl entry)).same (catalogued r (.inr row)) same).1
  refine ⟨sound.of_onlyQty labels, fun r held => (catalogued r held).of_onlyQty labels,
    tell.of_onlyQty labels, ?_⟩
  intro r row
  rw [resync_row sound.distinct tell named row, resync_quantities sound.distinct tell, labels.id]
  by_cases present : ∃ b ∈ s.items, (s.heap b).id = (s.heap r).id
  · obtain ⟨b, entry, same⟩ := present
    rw [← same, quantities_of_mem sound.distinct entry]
    rfl
  · have absent : ∀ b ∈ s.items, (s.heap b).id ≠ (s.heap r).id :=
      fun b entry same => present ⟨b, entry, same⟩
    rw [quantities_of_absent absent, cleared r row absent]

theorem RowsInStep.opened {s : Session} (sound : Sound s)
    (catalogued : Catalogued database languageCode s) {itemIDs : List String}
    (inStep : InStep database languageCode s (.openCategory itemIDs)) :
    RowsInStep database languageCode (loadItems database languageCode s itemIDs) := by
  have loadedSound := sound.loaded database languageCode itemIDs
  have loadedCatalogued := catalogued.loaded sound itemIDs
  obtain ⟨items, _, heap, rows⟩ := loadItem_fold database languageCode itemIDs (s, [])
  unfold loadItems
  generalize itemIDs.foldl (loadItem database languageCode) (s, []) = loaded at *
  refine matches_of_resync loadedSound loadedCatalogued ?_ ?_
  · intro r row b entry named
    simp only [items] at entry
    obtain ⟨-, id, listed, decoded⟩ := (rows r row).resolve_left List.not_mem_nil
    simp only [heap b (sound.allocated b entry)] at named ⊢
    rw [(getRequestItem_fresh decoded).1]
    exact inStep id listed _ decoded b entry named
  · intro r row _
    obtain ⟨-, id, -, decoded⟩ := (rows r row).resolve_left List.not_mem_nil
    exact (getRequestItem_fresh decoded).2

section Update

variable {s : Session} (held : RowsInStep database languageCode s) {item : Ref} {button : Button}
  {updated : Updated} (outcome : Outcome s.heap s.items item button.modifier updated)
include held outcome

/-- Names still tell the ids apart: only the tapped item is new in the basket. -/
theorem RowsInStep.tell_updated (enters : EntersUnderOwnName s item button) :
    NamesTell updated.heap s.rows updated.items := by
  suffices NamesTell s.heap s.rows updated.items from this.of_onlyQty outcome.onlyQty
  intro r row b entry named
  by_cases inside : b ∈ s.items
  · exact held.tell r row b inside named
  · obtain rfl := (outcome.mem_items entry).resolve_left inside
    cases outcome with
    | noLimit | absent => exact absurd entry inside
    | changed =>
        simp only at entry
        split at entry
        · exact absurd (List.mem_of_mem_filter entry) inside
        · exact absurd entry inside
    | added _ missing adds =>
        exact (enters (Button.eq_plus adds) missing r row named.symm).symm

theorem RowsInStep.cleared_updated (leaves : LeavesNoCount s item button) {r : Ref}
    (row : r ∈ s.rows) (absent : ∀ b ∈ updated.items, (s.heap b).id ≠ (s.heap r).id) :
    (updated.heap r).qty = 0 := by
  have before : (∀ b ∈ s.items, (s.heap b).id ≠ (s.heap r).id) → (s.heap r).qty = 0 := by
    intro missing
    rw [held.agree r row, quantities_of_absent missing]
    rfl
  cases outcome with
  | noLimit | absent => exact before absent
  | @changed entry limit qty inside same limited value =>
      simp only at absent ⊢
      by_cases own : (s.heap r).id = (s.heap item).id
      · -- the tap took the entry of this row out of the basket
        have out : qty ≤ 0 := by
          by_contra stays
          rw [if_neg stays] at absent
          exact absent entry inside (same.trans own.symm)
        subst value
        have left := leaves entry inside same limit limited out r row own
        by_cases shared : r = entry
        · rw [if_pos shared] at left
          rw [shared, setQty_qty_self, left]
        · rw [if_neg shared] at left
          rw [setQty_of_ne s.heap shared, left]
      · have other : r ≠ entry := by
          rintro rfl
          exact own same
        rw [setQty_of_ne s.heap other]
        apply before
        intro b entry here
        have stays : (s.heap b).id ≠ (s.heap item).id := here ▸ own
        refine absent b ?_ here
        split
        · exact List.mem_filter.mpr ⟨entry, by simpa using stays⟩
        · exact entry
  | added =>
      simp only at absent ⊢
      have other : r ≠ item := by
        rintro rfl
        exact absent r (List.mem_append_right _ List.mem_cons_self) rfl
      rw [setQty_of_ne s.heap other]
      exact before fun b entry => absent b (List.mem_append_left _ entry)

theorem RowsInStep.calledBack (row : item ∈ s.rows) (old : item < s.next)
    (leaves : LeavesNoCount s item button) (enters : EntersUnderOwnName s item button) :
    RowsInStep database languageCode
      { s with
        heap := updateItemsFromBasket updated.heap s.rows updated.items
        items := updated.items } := by
  refine matches_of_resync (held.sound.updated old outcome)
    (held.catalogued.updated (.inr row) outcome) (held.tell_updated outcome enters) ?_
  intro r shown absent
  simp only [outcome.onlyQty.id] at absent
  exact held.cleared_updated outcome leaves shown absent

end Update

theorem RowsInStep.clicked {s next : Session} (held : RowsInStep database languageCode s)
    {row : Nat} {button : Button}
    (inStep : InStep database languageCode s (.categoryTap row button))
    (taken : Taken database languageCode s (.categoryTap row button) next) :
    RowsInStep database languageCode next := by
  cases taken with
  | missedRow => exact held
  | @categoryTapped _ _ screen item updated opened hit outcome =>
      have rows : s.rows = screen := by simp [Session.rows, opened]
      have shown := Session.mem_rows opened hit
      have old := held.sound.shown screen opened item (List.mem_of_getElem? hit)
      obtain ⟨-, rfl⟩ | ⟨limited, called⟩ := held.catalogued.called (.inr shown) outcome
      · exact held
      · obtain ⟨leaves, enters⟩ := inStep item (by simp [tapped, opened, hit]) limited
        rw [if_pos called, ← rows]
        exact held.calledBack outcome shown old leaves enters

/-- A tap on the open screen. -/
abbrev rowTap (tap : Nat × Button) : Event := .categoryTap tap.1 tap.2

/-- In every session, from the moment a category is loaded and through every
    sequence of taps on it, each row has the quantity of the basket entry with its
    id, if the opening and the taps keep the rows in step. -/
theorem rows_match_basket {heap : Heap} {events : List Event} {s : Session}
    (reached : run (step database languageCode) (Session.start heap) events = some s)
    {itemIDs : List String} {taps : List (Nat × Button)}
    (inStep : Along (step database languageCode) (InStep database languageCode) s
      (.openCategory itemIDs :: taps.map rowTap)) :
    Always (step database languageCode) Matches (loadItems database languageCode s itemIDs)
      (taps.map rowTap) := by
  obtain ⟨sound, catalogued⟩ := session_catalogued reached
  obtain ⟨opens, later⟩ := inStep
  have taps_only : Along (step database languageCode) (fun _ event => ∃ tap, event = rowTap tap)
      (loadItems database languageCode s itemIDs) (taps.map rowTap) := by
    apply Along.of_forall
    intro _ event member
    obtain ⟨tap, -, rfl⟩ := List.mem_map.mp member
    exact ⟨tap, rfl⟩
  have start := RowsInStep.opened sound catalogued opens
  refine (Along.always ?_ start ((later _ rfl).and taps_only)).mono fun _ held => held.agree
  rintro t event next held ⟨met, tap, rfl⟩ stepped
  exact held.clicked met (held.sound.step_inv database languageCode stepped)

end Sessions

section Reopened

private def pantry : Json :=
  .obj [("items", .obj [("rice", .obj [("name", .str "Rice"), ("icon", .str "r"),
    ("bgCol", .str "red"), ("limit", .int 3)])])]

private def bare : Heap := fun _ => { id := "", name := "", icon := "", qty := 0, bgCol := "" }

theorem rows_match_basket_first_tap :
    Always (step pantry none) Matches
      (loadItems pantry none (Session.start bare) ["rice"]) ([(0, .plus)].map rowTap) := by
  refine @rows_match_basket pantry none bare [] _ rfl _ _ ⟨?_, ?_⟩
  · intro id _ item _ b entry
    cases entry
  · rintro _ ⟨⟩
    refine ⟨?_, fun _ _ => trivial⟩
    rintro item hit -
    obtain rfl : item = 0 := (Option.some.inj hit).symm
    refine ⟨fun b entry => absurd entry List.not_mem_nil, ?_⟩
    rintro - - r row -
    obtain rfl := List.mem_singleton.mp row
    rfl

/-- Order one, reopen the category and take it out again: the row keeps the
    count that was copied when the screen opened. -/
theorem reopened_row_keeps_count :
    ∃ s, run (step pantry none) (Session.start bare)
        [.openCategory ["rice"], .categoryTap 0 .plus, .closeCategory] = some s ∧
      ¬ Always (step pantry none) Matches (loadItems pantry none s ["rice"])
        ([(0, .minus)].map rowTap) := by
  refine ⟨_, rfl, fun held => ?_⟩
  have shown := held.2 _ rfl 1 List.mem_cons_self
  cases shown

end Reopened

end Kasei.Basket
