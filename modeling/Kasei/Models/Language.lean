import Mathlib.Data.List.Flatten
import Kasei.Models.RequestItem
import Kasei.Models.ItemCategory

/-! # What a change of language shows

Both decoders look for a Chinese name when the language is Chinese. An item
without one goes by its plain name; a category without one is skipped. The two
lists of categories are compared node by node: a category is the node it was
read from, and its name is what may differ.
-/

namespace Kasei.Language

open JsonTree

/-- What one node adds to the list. -/
def added (languageCode : Option String) (categorySnap : DataSnapshot) : List ItemCategory :=
  (appendCategory languageCode [] categorySnap).getD []

/-- The categories of the tree, each with the node that it was read from. -/
def categoriesRead (database : Json) (languageCode : Option String) :
    List (DataSnapshot × ItemCategory) :=
  (observeSingleEvent database [] "categories").children.flatMap fun categorySnap =>
    (added languageCode categorySnap).map fun category => (categorySnap, category)

/-- The call returns the categories read, or never if there is no tree. -/
def ReturnsRead (database : Json) (languageCode : Option String) : Prop :=
  getItemCategories database languageCode =
    some (if (observeSingleEvent database [] "categories").isPresent then
      some ((categoriesRead database languageCode).map Prod.snd) else none)

/-- A category without its name. -/
def untitled (entry : DataSnapshot × ItemCategory) : DataSnapshot × String × List String :=
  (entry.1, entry.2.icon, entry.2.itemIDs)

/-- Chinese shows all that the language shows, in its order, under other names. -/
structure HidesNothing (database : Json) (languageCode : Option String) : Prop where
  shown : ReturnsRead database languageCode
  translated : ReturnsRead database (some "zh")
  categories : ((categoriesRead database languageCode).map untitled).Sublist
    ((categoriesRead database (some "zh")).map untitled)
  items : ∀ id item, getRequestItem database languageCode id = some item →
    ∃ name, getRequestItem database (some "zh") id = some { item with name := name }

/-- The items of every category are strings. -/
def ItemsTyped (database : Json) : Prop :=
  ∀ categorySnap ∈ (observeSingleEvent database [] "categories").children,
    ∀ childSnap ∈ (categorySnap.childSnapshot "items").children, asString childSnap.value ≠ none

/-- Every category with a name and an icon has a Chinese name. -/
def Translated (database : Json) : Prop :=
  ∀ categorySnap ∈ (observeSingleEvent database [] "categories").children,
    asString (categorySnap.childSnapshot "category").value ≠ none →
    asString (categorySnap.childSnapshot "icon").value ≠ none →
    asString (categorySnap.childSnapshot "category_zh").value ≠ none

section Categories

variable {database : Json} {languageCode : Option String} {categorySnap : DataSnapshot}

theorem appendCategory_append (categories : List ItemCategory) :
    appendCategory languageCode categories categorySnap =
      (appendCategory languageCode [] categorySnap).map (categories ++ ·) := by
  unfold appendCategory
  split
  · simp
  · split
    · simp
    · cases itemIDs categorySnap <;> rfl

theorem foldlM_appendCategory {snaps : List DataSnapshot}
    (readable : ∀ categorySnap ∈ snaps, ListsStrings languageCode categorySnap)
    (categories : List ItemCategory) :
    snaps.foldlM (appendCategory languageCode) categories =
      some (categories ++ snaps.flatMap (added languageCode)) := by
  induction snaps generalizing categories with
  | nil => simp
  | cons categorySnap rest ih =>
      obtain ⟨here, later⟩ := List.forall_mem_cons.mp readable
      have goesOn : appendCategory languageCode [] categorySnap ≠ none :=
        appendCategory_ne_none_iff.mpr here
      obtain ⟨more, adds⟩ := Option.ne_none_iff_exists'.mp goesOn
      rw [List.foldlM_cons, appendCategory_append, adds, Option.map_some, Option.bind_eq_bind,
        Option.bind_some, ih later, List.flatMap_cons, added, adds, Option.getD_some,
        List.append_assoc]

theorem returnsRead_of_typed (typed : ItemsTyped database) (languageCode : Option String) :
    ReturnsRead database languageCode := by
  have readable : ∀ categorySnap ∈ (observeSingleEvent database [] "categories").children,
      ListsStrings languageCode categorySnap := fun snap member _ _ => typed snap member
  have names : (categoriesRead database languageCode).map Prod.snd =
      (observeSingleEvent database [] "categories").children.flatMap (added languageCode) := by
    simp [categoriesRead, List.map_flatMap, Function.comp_def]
  simp only [ReturnsRead, getItemCategories, foldlM_appendCategory readable, names]
  split <;> rfl

theorem added_eq {itemids : List String} (listed : itemIDs categorySnap = some itemids) :
    added languageCode categorySnap =
      match asString (categorySnap.childSnapshot (categoryPath languageCode)).value,
        asString (categorySnap.childSnapshot "icon").value with
      | some category, some icon => [⟨category, icon, itemids⟩]
      | _, _ => [] := by
  unfold added appendCategory
  cases asString (categorySnap.childSnapshot (categoryPath languageCode)).value with
  | none => rfl
  | some category =>
      cases asString (categorySnap.childSnapshot "icon").value with
      | none => rfl
      | some icon => simp [listed]

theorem mem_categoriesRead {entry : DataSnapshot × ItemCategory} :
    entry ∈ categoriesRead database languageCode ↔
      entry.1 ∈ (observeSingleEvent database [] "categories").children ∧
        entry.2 ∈ added languageCode entry.1 := by
  obtain ⟨node, category⟩ := entry
  simp only [categoriesRead, List.mem_flatMap, List.mem_map, Prod.mk.injEq]
  constructor
  · rintro ⟨_, inside, _, adds, rfl, rfl⟩
    exact ⟨inside, adds⟩
  · rintro ⟨inside, adds⟩
    exact ⟨node, inside, category, adds, rfl, rfl⟩

/-- A node that is translated adds the same category in Chinese. -/
theorem added_sublist (other : languageCode ≠ some "zh") {itemids : List String}
    (listed : itemIDs categorySnap = some itemids)
    (translated : asString (categorySnap.childSnapshot "category").value ≠ none →
      asString (categorySnap.childSnapshot "icon").value ≠ none →
      asString (categorySnap.childSnapshot "category_zh").value ≠ none) :
    ((added languageCode categorySnap).map fun category =>
        untitled (categorySnap, category)).Sublist
      ((added (some "zh") categorySnap).map fun category => untitled (categorySnap, category)) := by
  simp only [added_eq listed, categoryPath, if_neg other, if_true]
  cases named : asString (categorySnap.childSnapshot "category").value with
  | none => exact List.nil_sublist _
  | some category =>
      cases drawn : asString (categorySnap.childSnapshot "icon").value with
      | none => exact List.nil_sublist _
      | some icon =>
          obtain ⟨title, found⟩ := Option.ne_none_iff_exists'.mp
            (translated (by simp [named]) (by simp [drawn]))
          rw [found]
          exact List.Sublist.refl _

/-- The categories of a language are among those of Chinese exactly if every
    category that can be shown is translated. -/
theorem categoriesRead_sublist_iff (other : languageCode ≠ some "zh")
    (typed : ItemsTyped database) :
    ((categoriesRead database languageCode).map untitled).Sublist
      ((categoriesRead database (some "zh")).map untitled) ↔ Translated database := by
  have lists : ∀ categorySnap ∈ (observeSingleEvent database [] "categories").children,
      ∃ itemids, itemIDs categorySnap = some itemids := fun categorySnap inside =>
    Option.ne_none_iff_exists'.mp (itemIDs_ne_none_iff.mpr (typed categorySnap inside))
  constructor
  · intro kept categorySnap inside named drawn
    obtain ⟨itemids, listed⟩ := lists categorySnap inside
    obtain ⟨category, title⟩ := Option.ne_none_iff_exists'.mp named
    obtain ⟨icon, picture⟩ := Option.ne_none_iff_exists'.mp drawn
    have shown : (categorySnap, ⟨category, icon, itemids⟩) ∈
        categoriesRead database languageCode := by
      rw [mem_categoriesRead, added_eq listed, categoryPath, if_neg other, title, picture]
      exact ⟨inside, List.mem_singleton_self _⟩
    obtain ⟨⟨node, translation⟩, read, same⟩ :=
      List.mem_map.mp (kept.subset (List.mem_map_of_mem shown))
    obtain ⟨rfl, -⟩ := Prod.mk.inj same
    have adds := (mem_categoriesRead.mp read).2
    rw [added_eq listed] at adds
    -- a node without a Chinese name adds nothing
    intro missing
    simp [categoryPath, missing] at adds
  · intro translated
    simp only [categoriesRead, List.map_flatMap, List.map_map]
    apply List.Sublist.flatMap_right
    intro categorySnap inside
    obtain ⟨itemids, listed⟩ := lists categorySnap inside
    exact added_sublist other listed (translated categorySnap inside)

end Categories

theorem getRequestItem_zh {database : Json} {languageCode : Option String} {id : String}
    {item : RequestItem} (other : languageCode ≠ some "zh")
    (decoded : getRequestItem database languageCode id = some item) :
    ∃ name, getRequestItem database (some "zh") id = some { item with name := name } := by
  simp only [getRequestItem, if_neg other, Option.or_self, Option.bind_eq_bind,
    Option.bind_eq_some_iff, Option.pure_def, Option.some.injEq] at decoded
  obtain ⟨name, named, icon, drawn, bgCol, coloured, rfl⟩ := decoded
  simp only [getRequestItem, if_true, named, drawn, coloured, Option.bind_eq_bind]
  cases asString ((observeSingleEvent database ["items"] id).childSnapshot "name_zh").value with
  | none => exact ⟨name, rfl⟩
  | some title => exact ⟨title, rfl⟩

/-- Going from any other language to Chinese hides nothing exactly if every category
    with a name and an icon has a Chinese name. -/
theorem hidesNothing_iff {database : Json} {languageCode : Option String}
    (other : languageCode ≠ some "zh") (typed : ItemsTyped database) :
    HidesNothing database languageCode ↔ Translated database := by
  rw [← categoriesRead_sublist_iff other typed]
  constructor
  · exact fun hides => hides.categories
  · intro kept
    exact ⟨returnsRead_of_typed typed _, returnsRead_of_typed typed _, kept,
      fun _ _ decoded => getRequestItem_zh other decoded⟩

section Example

private def pantry (titles : List (String × Json)) : Json :=
  .obj [("categories", .obj [
      ("c1", .obj ([("category", .str "Grains")] ++ titles ++
        [("icon", .str "sack"), ("items", .obj [("0", .str "rice")])])),
      ("c2", .obj [("category_zh", .str "饮料"), ("icon", .str "cup")])]),
    ("items", .obj [("rice", .obj [("name", .str "Rice"), ("icon", .str "bag"),
      ("bgCol", .str "red")])])]

private theorem pantry_typed {titles : List (String × Json)}
    (few : titles = [] ∨ titles = [("category_zh", .str "谷物")]) : ItemsTyped (pantry titles) := by
  obtain rfl | rfl := few <;> unfold ItemsTyped <;> decide

/-- Every category that English shows is translated, and the item is not. -/
theorem hidesNothing_iff_translated :
    HidesNothing (pantry [("category_zh", .str "谷物")]) (some "en") := by
  apply (hidesNothing_iff (by decide) (pantry_typed (.inr rfl))).mpr
  unfold Translated
  decide

/-- A category without a Chinese name is gone in Chinese. -/
theorem untranslated_category_is_hidden : ¬ HidesNothing (pantry []) (some "en") := by
  intro hides
  have kept := (hides.categories.map fun entry => entry.1.key).subset
  have shown : "c1" ∈ ((categoriesRead (pantry []) (some "en")).map untitled).map
      fun entry => entry.1.key := by decide
  exact absurd (kept shown) (by decide)

end Example

end Kasei.Language
