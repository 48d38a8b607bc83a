import Kasei.Models.Snapshot

/-! # The categories of the catalogue

`getItemCategories` skips a category without a name in the language in use or
without an icon. The ids of its items it casts by force.
-/

namespace Kasei

open JsonTree

structure ItemCategory where
  category : String
  icon : String
  itemIDs : List String
  deriving Repr, DecidableEq

def categoryPath (languageCode : Option String) : String :=
  if languageCode = some "zh" then "category_zh" else "category"

/-- The loop over the children of `items`. -/
def itemIDs (categorySnap : DataSnapshot) : Option (List String) :=
  (categorySnap.childSnapshot "items").children.mapM fun childSnap => asString childSnap.value

/-- One turn of the loop over the categories; both guards continue with the next. -/
def appendCategory (languageCode : Option String) (categories : List ItemCategory)
    (categorySnap : DataSnapshot) : Option (List ItemCategory) :=
  match asString (categorySnap.childSnapshot (categoryPath languageCode)).value with
  | none => some categories
  | some category =>
      match asString (categorySnap.childSnapshot "icon").value with
      | none => some categories
      | some icon => do
          let itemids ← itemIDs categorySnap
          return categories ++ [⟨category, icon, itemids⟩]

/-- What `onComplete` receives, if it is called. `none` is a trap. -/
def getItemCategories (database : Json) (languageCode : Option String) :
    Option (Option (List ItemCategory)) :=
  let snapshot := observeSingleEvent database [] "categories"
  if snapshot.isPresent then
    (snapshot.children.foldlM (appendCategory languageCode) []).map some
  else some none

/-- A category that is not skipped has only strings among its items. -/
def ListsStrings (languageCode : Option String) (categorySnap : DataSnapshot) : Prop :=
  asString (categorySnap.childSnapshot (categoryPath languageCode)).value ≠ none →
    asString (categorySnap.childSnapshot "icon").value ≠ none →
    ∀ childSnap ∈ (categorySnap.childSnapshot "items").children, asString childSnap.value ≠ none

/-- Every category of the catalogue does. -/
def CategoriesReadable (database : Json) (languageCode : Option String) : Prop :=
  ∀ categorySnap ∈ (observeSingleEvent database [] "categories").children,
    ListsStrings languageCode categorySnap

section Categories

variable {database : Json} {languageCode : Option String} {categorySnap : DataSnapshot}

theorem itemIDs_ne_none_iff : itemIDs categorySnap ≠ none ↔
    ∀ childSnap ∈ (categorySnap.childSnapshot "items").children,
      asString childSnap.value ≠ none := by
  unfold itemIDs
  induction (categorySnap.childSnapshot "items").children with
  | nil => simp
  | cons childSnap rest ih =>
      rw [List.forall_mem_cons, ← ih, List.mapM_cons]
      cases asString childSnap.value with
      | none => simp
      | some id => cases rest.mapM fun childSnap => asString childSnap.value <;> simp

theorem appendCategory_ne_none_iff {categories : List ItemCategory} :
    appendCategory languageCode categories categorySnap ≠ none ↔
      ListsStrings languageCode categorySnap := by
  unfold appendCategory ListsStrings
  rw [← itemIDs_ne_none_iff]
  cases asString (categorySnap.childSnapshot (categoryPath languageCode)).value with
  | none => simp
  | some category =>
      cases asString (categorySnap.childSnapshot "icon").value with
      | none => simp
      | some icon => cases itemIDs categorySnap <;> simp

/-- The loop goes through exactly if none of its turns traps. -/
theorem foldlM_appendCategory_ne_none_iff {snaps : List DataSnapshot}
    {categories : List ItemCategory} :
    snaps.foldlM (appendCategory languageCode) categories ≠ none ↔
      ∀ categorySnap ∈ snaps, ListsStrings languageCode categorySnap := by
  induction snaps generalizing categories with
  | nil => simp
  | cons categorySnap rest ih =>
      have here : appendCategory languageCode categories categorySnap ≠ none ↔
        ListsStrings languageCode categorySnap := appendCategory_ne_none_iff
      rw [List.forall_mem_cons, ← here, List.foldlM_cons]
      cases appendCategory languageCode categories categorySnap with
      | none => simp
      | some after => simpa using ih

theorem getItemCategories_ne_none_iff :
    getItemCategories database languageCode ≠ none ↔
      CategoriesReadable database languageCode := by
  unfold getItemCategories CategoriesReadable
  cases present : (observeSingleEvent database [] "categories").isPresent with
  | false => simp [children_of_absent present, present]
  | true =>
      have loop : (observeSingleEvent database [] "categories").children.foldlM
          (appendCategory languageCode) [] ≠ none ↔ _ := foldlM_appendCategory_ne_none_iff
      simpa [present] using loop

end Categories

end Kasei
