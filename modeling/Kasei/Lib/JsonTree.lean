import Mathlib.Data.Rat.Defs
import Mathlib.Data.List.Nodup

/-! # JSON trees addressed by paths

A database of the key-path kind is one tree: a node is a leaf value or a list
of named children, and a node that is absent reads as `null`. Writing replaces
what stands at a path and creates the nodes above it. The laws are the usual
two: a write is read back at its own path, and is invisible at every path that
separates from it.
-/

namespace JsonTree

section Entries

variable {κ β : Type*} [DecidableEq κ]

/-- Set the value of one key, keeping the place of a key already there. -/
def insertEntry (key : κ) (value : β) : List (κ × β) → List (κ × β)
  | [] => [(key, value)]
  | (name, old) :: rest =>
      if name = key then (key, value) :: rest else (name, old) :: insertEntry key value rest

@[simp] theorem lookup_insertEntry_self (key : κ) (value : β) (entries : List (κ × β)) :
    (insertEntry key value entries).lookup key = some value := by
  induction entries with
  | nil => simp [insertEntry]
  | cons entry rest ih =>
      rcases entry with ⟨name, old⟩
      by_cases same : name = key
      · simp [insertEntry, same]
      · simp [insertEntry, same, List.lookup_cons, beq_false_of_ne (Ne.symm same), ih]

theorem lookup_insertEntry_of_ne {key other : κ} (apart : other ≠ key) (value : β)
    (entries : List (κ × β)) :
    (insertEntry key value entries).lookup other = entries.lookup other := by
  induction entries with
  | nil => simp [insertEntry, List.lookup_cons, beq_false_of_ne apart]
  | cons entry rest ih =>
      rcases entry with ⟨name, old⟩
      by_cases same : name = key
      · simp [insertEntry, same, List.lookup_cons, beq_false_of_ne apart]
      · simp [insertEntry, same, List.lookup_cons, ih]

theorem insertEntry_of_fresh {key : κ} (value : β) {entries : List (κ × β)}
    (fresh : key ∉ entries.map Prod.fst) :
    insertEntry key value entries = entries ++ [(key, value)] := by
  induction entries with
  | nil => rfl
  | cons entry rest ih =>
      rcases entry with ⟨name, old⟩
      simp only [List.map_cons, List.mem_cons, not_or] at fresh
      simp only [insertEntry, if_neg (Ne.symm fresh.1), List.cons_append, ih fresh.2]

theorem mem_insertEntry {key : κ} {value : β} {entries : List (κ × β)} {entry : κ × β}
    (member : entry ∈ insertEntry key value entries) :
    entry = (key, value) ∨ entry ∈ entries := by
  induction entries with
  | nil => exact .inl (List.mem_singleton.mp member)
  | cons first rest ih =>
      rcases first with ⟨name, old⟩
      unfold insertEntry at member
      split at member
      · exact (List.mem_cons.mp member).imp_right (List.mem_cons_of_mem _)
      · rcases List.mem_cons.mp member with rfl | later
        · exact .inr List.mem_cons_self
        · exact (ih later).imp_right (List.mem_cons_of_mem _)

theorem mem_insertEntry_self (key : κ) (value : β) (entries : List (κ × β)) :
    (key, value) ∈ insertEntry key value entries := by
  induction entries with
  | nil => exact List.mem_singleton_self _
  | cons first rest ih =>
      rcases first with ⟨name, old⟩
      unfold insertEntry
      split
      · exact List.mem_cons_self
      · exact List.mem_cons_of_mem _ ih

theorem mem_insertEntry_of_mem (key : κ) (value : β) {entries : List (κ × β)} {entry : κ × β}
    (member : entry ∈ entries) :
    entry ∈ insertEntry key value entries ∨
      entry.1 = key ∧ entries.lookup key = some entry.2 := by
  induction entries with
  | nil => cases member
  | cons first rest ih =>
      rcases first with ⟨name, old⟩
      unfold insertEntry
      split
      · rename_i same
        rcases List.mem_cons.mp member with rfl | later
        · exact .inr ⟨same, by simp [same]⟩
        · exact .inl (List.mem_cons_of_mem _ later)
      · rename_i other
        rcases List.mem_cons.mp member with rfl | later
        · exact .inl List.mem_cons_self
        · refine (ih later).imp (List.mem_cons_of_mem _) fun ⟨same, found⟩ => ⟨same, ?_⟩
          simp [List.lookup_cons, beq_false_of_ne (Ne.symm other), found]

theorem mem_keys_insertEntry {key name : κ} {value : β} {entries : List (κ × β)} :
    name ∈ (insertEntry key value entries).map Prod.fst ↔
      name = key ∨ name ∈ entries.map Prod.fst := by
  induction entries with
  | nil => simp [insertEntry]
  | cons entry rest ih =>
      rcases entry with ⟨other, old⟩
      by_cases same : other = key
      · simp [insertEntry, same]
      · simp only [insertEntry, if_neg same, List.map_cons, List.mem_cons, ih]
        exact or_left_comm

theorem insertEntry_ne_nil (key : κ) (value : β) (entries : List (κ × β)) :
    insertEntry key value entries ≠ [] := by
  cases entries with
  | nil => simp [insertEntry]
  | cons entry rest =>
      rcases entry with ⟨name, old⟩
      unfold insertEntry
      split <;> simp

theorem lookup_of_mem {entries : List (κ × β)} (distinct : (entries.map Prod.fst).Nodup)
    {key : κ} {value : β} (member : (key, value) ∈ entries) :
    entries.lookup key = some value := by
  induction entries with
  | nil => simp at member
  | cons entry rest ih =>
      rcases entry with ⟨name, old⟩
      simp only [List.map_cons, List.nodup_cons] at distinct
      rcases List.mem_cons.mp member with same | later
      · obtain ⟨rfl, rfl⟩ := Prod.mk.inj same
        simp
      · have apart : key ≠ name := by
          rintro rfl
          exact distinct.1 (List.mem_map.mpr ⟨_, later, rfl⟩)
        simp [List.lookup_cons, beq_false_of_ne apart, ih distinct.2 later]

end Entries

/-- A node of the tree. Numbers keep the two representations a JSON decoder
    tells apart: integers, and doubles as the exact rational they denote. -/
inductive Json where
  | null
  | bool (value : Bool)
  | int (value : Int)
  | double (value : ℚ)
  | str (value : String)
  | obj (children : List (String × Json))
  deriving Repr

/-- Names of the edges from the root to a node. -/
abbrev Path := List String

namespace Json

/-- The named children of a node; a leaf has none. -/
def entries : Json → List (String × Json)
  | .obj children => children
  | _ => []

/-- Neither a leaf value nor any child: such a node is not there. -/
def isEmpty : Json → Bool
  | .null => true
  | .obj [] => true
  | _ => false

/-- The child of that name, `null` when there is none. -/
def child (node : Json) (name : String) : Json :=
  (node.entries.lookup name).getD .null

def setChild (node : Json) (name : String) (value : Json) : Json :=
  .obj (insertEntry name value node.entries)

/-- The node at a path below this one. -/
def get : Json → Path → Json
  | node, [] => node
  | node, name :: rest => (node.child name).get rest

/-- Replace the node at a path; leaves on the way become inner nodes. -/
def set : Json → Path → Json → Json
  | _, [], value => value
  | node, name :: rest, value => node.setChild name ((node.child name).set rest value)

@[simp] theorem child_setChild_self (node : Json) (name : String) (value : Json) :
    (node.setChild name value).child name = value := by
  simp [child, setChild, entries]

theorem child_setChild_of_ne (node : Json) {name other : String} (apart : other ≠ name)
    (value : Json) : (node.setChild name value).child other = node.child other := by
  simp [child, setChild, entries, lookup_insertEntry_of_ne apart]

theorem get_append (node : Json) (above below : Path) :
    node.get (above ++ below) = (node.get above).get below := by
  induction above generalizing node with
  | nil => rfl
  | cons name rest ih => exact ih (node.child name)

theorem get_of_leaf {node : Json} (leaf : node.entries = []) (name : String) (rest : Path) :
    node.get (name :: rest) = .null := by
  have nothing : ∀ path : Path, Json.null.get path = .null := by
    intro path
    induction path with
    | nil => rfl
    | cons edge later ih => exact ih
  have absent : node.child name = .null := by rw [child, leaf]; rfl
  rw [get, absent, nothing]

theorem get_of_absent {node : Json} {name : String} (absent : node.child name = .null)
    (rest : Path) : node.get (name :: rest) = .null := by
  rw [get, absent]
  cases rest with
  | nil => rfl
  | cons edge later => exact get_of_leaf rfl edge later

@[simp] theorem get_set_self (node : Json) (path : Path) (value : Json) :
    (node.set path value).get path = value := by
  induction path generalizing node with
  | nil => rfl
  | cons name rest ih => simp only [set, Json.get, child_setChild_self, ih]

theorem get_set_append (node : Json) (above below : Path) (value : Json) :
    (node.set (above ++ below) value).get above = (node.get above).set below value := by
  induction above generalizing node with
  | nil => rfl
  | cons name rest ih => simp only [List.cons_append, set, Json.get, child_setChild_self, ih]

theorem child_entry {node : Json} {name : String} (present : node.child name ≠ .null) :
    (name, node.child name) ∈ node.entries := by
  unfold child at present ⊢
  cases found : node.entries.lookup name with
  | none =>
      rw [found] at present
      exact absurd rfl present
  | some value =>
      obtain ⟨before, after, split, -⟩ := List.lookup_eq_some_iff.mp found
      simp [split]

theorem child_mem_entries {node : Json} {name : String} {entry : String × Json}
    (member : entry ∈ (node.child name).entries) : (name, node.child name) ∈ node.entries := by
  apply child_entry
  intro absent
  rw [absent] at member
  cases member

theorem mem_entries_of_child {node : Json} {name : String} (present : node.child name ≠ .null) :
    name ∈ node.entries.map Prod.fst := by
  by_contra absent
  have missing : node.entries.lookup name = none := by
    simp only [List.mem_map, not_exists, not_and, Prod.forall] at absent
    simp only [List.lookup_eq_none_iff, Prod.forall, bne_iff_ne]
    intro key value member same
    exact absent key value member same.symm
  exact present (by simp [child, missing])

end Json

/-- Two paths that take different edges at some point, neither being a prefix
    of the other. -/
def Apart : Path → Path → Prop
  | name :: rest, other :: later => name ≠ other ∨ Apart rest later
  | _, _ => False

theorem Apart.of_ne {path other : Path} (sameLength : path.length = other.length)
    (different : path ≠ other) : Apart path other := by
  induction path generalizing other with
  | nil =>
      obtain rfl := List.length_eq_zero_iff.mp sameLength.symm
      exact absurd rfl different
  | cons name rest ih =>
      cases other with
      | nil => simp at sameLength
      | cons edge later =>
          by_cases same : name = edge
          · subst same
            refine .inr (ih (by simpa using sameLength) ?_)
            rintro rfl
            exact different rfl
          · exact .inl same

/-- Different paths separate if neither goes through the last edge of the other. -/
theorem Apart.of_last {path other : Path} {last end_ : String} (one : last ∉ other)
    (two : end_ ∉ path) (different : path ++ [last] ≠ other ++ [end_]) :
    Apart (path ++ [last]) (other ++ [end_]) := by
  induction path generalizing other with
  | nil =>
      cases other with
      | nil => exact .inl fun same => different (by rw [same])
      | cons edge later => exact .inl (List.ne_of_not_mem_cons one)
  | cons name rest ih =>
      cases other with
      | nil => exact .inl (List.ne_of_not_mem_cons two).symm
      | cons edge later =>
          by_cases same : name = edge
          · subst same
            refine .inr (ih (List.not_mem_of_not_mem_cons one)
              (List.not_mem_of_not_mem_cons two) fun rest => different ?_)
            rw [List.cons_append, rest, List.cons_append]
          · exact .inl same

theorem prefix_of_not_apart {path other : Path} (together : ¬ Apart path other) :
    path <+: other ∨ other <+: path := by
  induction path generalizing other with
  | nil => exact .inl List.nil_prefix
  | cons name rest ih =>
      cases other with
      | nil => exact .inr List.nil_prefix
      | cons edge later =>
          simp only [Apart, not_or, not_not] at together
          obtain ⟨rfl, below⟩ := together
          simpa [List.prefix_cons_inj] using ih below

theorem not_apart_of_prefix {path other : Path} (above : path <+: other) : ¬ Apart path other := by
  induction path generalizing other with
  | nil => cases other <;> exact id
  | cons name rest ih =>
      cases other with
      | nil => simp at above
      | cons edge later =>
          obtain ⟨rfl, below⟩ := List.cons_prefix_cons.mp above
          exact fun apart => apart.elim (absurd rfl) (ih below)

theorem Apart.symm {path other : Path} (apart : Apart path other) : Apart other path := by
  induction path generalizing other with
  | nil => exact apart.elim
  | cons name rest ih =>
      cases other with
      | nil => exact apart.elim
      | cons edge later => exact apart.imp Ne.symm ih

/-- A write is invisible at every path that separates from it. -/
theorem Json.get_set_of_apart (node : Json) {path other : Path} (apart : Apart path other)
    (value : Json) : (node.set path value).get other = node.get other := by
  induction path generalizing node other with
  | nil => cases other <;> exact apart.elim
  | cons name rest ih =>
      cases other with
      | nil => exact apart.elim
      | cons edge later =>
          simp only [Json.set, Json.get]
          by_cases same : edge = name
          · subst same
            rcases apart with different | below
            · exact absurd rfl different
            · rw [Json.child_setChild_self]
              exact ih (node.child edge) below
          · rw [Json.child_setChild_of_ne node same]

end JsonTree
