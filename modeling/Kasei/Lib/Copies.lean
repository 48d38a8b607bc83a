import Mathlib.Logic.Function.Basic
import Mathlib.Data.Set.Basic

/-! # Sequences of copies between cells

Every cell has at most one source, and a list of targets is worked through in
order: a target takes the value that its source has at that moment. A source
may itself be a target, so the outcome depends on the order. It is simple where
sources stay untouched, and where sources come in pairs: a source whose own
source is again a cell that reads from it.
-/

namespace Copies

variable {κ β : Type*} [DecidableEq κ]

def copy (source : κ → Option κ) (values : κ → β) (target : κ) : κ → β :=
  match source target with
  | some cell => Function.update values target (values cell)
  | none => values

def copies (source : κ → Option κ) (values : κ → β) (targets : List κ) : κ → β :=
  targets.foldl (copy source) values

variable {source : κ → Option κ} {values : κ → β} {targets : List κ} {target cell : κ}

@[simp] theorem copies_nil : copies source values [] = values := rfl

@[simp] theorem copies_cons (rest : List κ) :
    copies source values (target :: rest) = copies source (copy source values target) rest := rfl

theorem copy_of_source (has : source target = some cell) :
    copy source values target target = values cell := by
  simp [copy, has]

theorem copy_of_ne {other : κ} (apart : other ≠ target) :
    copy source values target other = values other := by
  cases has : source target with
  | none => simp [copy, has]
  | some cell => simp [copy, has, Function.update_of_ne apart]

theorem copy_of_none (none : source target = none) : copy source values target = values := by
  simp [copy, none]

theorem copies_untouched (untouched : cell ∉ targets ∨ source cell = none) :
    copies source values targets cell = values cell := by
  induction targets generalizing values with
  | nil => rfl
  | cons target rest ih =>
      rw [copies_cons, ih (untouched.imp_left fun outside later =>
        outside (List.mem_cons_of_mem target later))]
      by_cases here : cell = target
      · subst here
        have none := untouched.resolve_left fun outside => outside List.mem_cons_self
        rw [copy_of_none none]
      · exact copy_of_ne here

theorem copies_of_source (member : target ∈ targets) (has : source target = some cell)
    (untouched : cell ∉ targets ∨ source cell = none) :
    copies source values targets target = values cell := by
  induction targets generalizing values with
  | nil => cases member
  | cons first rest ih =>
      have kept : cell ∉ rest ∨ source cell = none :=
        untouched.imp_left fun outside later => outside (List.mem_cons_of_mem first later)
      have same : copy source values first cell = values cell := by
        by_cases here : cell = first
        · subst here
          have none := untouched.resolve_left fun outside => outside List.mem_cons_self
          rw [copy_of_none none]
        · exact copy_of_ne here
      rw [copies_cons]
      by_cases later : target ∈ rest
      · rw [ih later kept, same]
      · have here : target = first := (List.mem_cons.mp member).resolve_right later
        subst here
        rw [copies_untouched (.inl later), copy_of_source has]

section Pairs

variable {cells : Set κ}

/-- The cells read from inside a set read from each other. -/
def Paired (source : κ → Option κ) (cells : Set κ) : Prop :=
  ∀ target ∈ cells, ∀ cell, source target = some cell →
    cell ≠ target ∧ cell ∈ cells ∧
      ∃ partner ∈ cells, source cell = some partner ∧ source partner = some cell

theorem copies_unchanged (paired : Paired source cells)
    (equal : ∀ target ∈ targets, target ∈ cells → ∀ cell, source target = some cell →
      values cell = values target) :
    ∀ cell ∈ cells, copies source values targets cell = values cell := by
  induction targets generalizing values with
  | nil => exact fun _ _ => rfl
  | cons first rest ih =>
      have same : ∀ cell ∈ cells, copy source values first cell = values cell := by
        intro cell inside
        by_cases here : cell = first
        · subst here
          cases has : source cell with
          | none => rw [copy_of_none has]
          | some from_ =>
              rw [copy_of_source has, equal cell List.mem_cons_self inside from_ has]
        · exact copy_of_ne here
      have later : ∀ target ∈ rest, target ∈ cells → ∀ from_, source target = some from_ →
          copy source values first from_ = copy source values first target := by
        intro target member within from_ has
        rw [same target within, same from_ (paired target within from_ has).2.1]
        exact equal target (List.mem_cons_of_mem first member) within from_ has
      intro cell inside
      rw [copies_cons, ih later cell inside, same cell inside]

/-- Once a cell or its partner is a target, the two are equal. -/
theorem copies_partners {partner : κ} (apart : partner ≠ cell)
    (reads : source cell = some partner) (back : source partner = some cell)
    (member : values cell = values partner ∨ cell ∈ targets ∨ partner ∈ targets) :
    copies source values targets cell = copies source values targets partner := by
  induction targets generalizing values with
  | nil => simpa using member
  | cons first rest ih =>
      rw [copies_cons]
      apply ih
      by_cases here : cell = first
      · subst here
        exact .inl (by rw [copy_of_source reads, copy_of_ne apart])
      · by_cases there : partner = first
        · subst there
          exact .inl (by rw [copy_of_source back, copy_of_ne here])
        · rw [copy_of_ne here, copy_of_ne there]
          apply member.imp_right
          intro listed
          exact listed.imp (fun inside => (List.mem_cons.mp inside).resolve_left here)
            (fun inside => (List.mem_cons.mp inside).resolve_left there)

/-- A source that equals its partner, or that the targets leave out together with
    its partner, is constant, and every target that reads from it ends with its
    value. -/
theorem copies_of_constant {partner : κ}
    (reads : source cell = some partner) (back : source partner = some cell)
    (constant : values cell = values partner ∨ cell ∉ targets ∧ partner ∉ targets)
    (has : source target = some cell) (member : target ∈ targets ∨ values target = values cell) :
    copies source values targets target = values cell := by
  induction targets generalizing values with
  | nil => simpa using member
  | cons first rest ih =>
      have same : copy source values first cell = values cell := by
        by_cases here : cell = first
        · subst here
          obtain equal | outside := constant
          · rw [copy_of_source reads, equal]
          · exact absurd List.mem_cons_self outside.1
        · exact copy_of_ne here
      have still : copy source values first cell = copy source values first partner ∨
          cell ∉ rest ∧ partner ∉ rest := by
        obtain equal | outside := constant
        · refine .inl ?_
          rw [same]
          by_cases here : partner = first
          · subst here
            rw [copy_of_source back]
          · rw [copy_of_ne here, equal]
        · exact .inr ⟨fun later => outside.1 (List.mem_cons_of_mem first later),
            fun later => outside.2 (List.mem_cons_of_mem first later)⟩
      rw [copies_cons, ih still, same]
      rw [same]
      by_cases here : target = first
      · subst here
        exact .inr (copy_of_source has)
      · rw [copy_of_ne here]
        exact member.imp_left fun inside => (List.mem_cons.mp inside).resolve_left here

/-- The copies leave a set of paired cells as it was exactly if each of its
    targets has the value of its source. -/
theorem copies_unchanged_iff (paired : Paired source cells) :
    (∀ cell ∈ cells, copies source values targets cell = values cell) ↔
      ∀ target ∈ targets, target ∈ cells → ∀ cell, source target = some cell →
        values cell = values target := by
  refine ⟨fun kept target member within cell has => ?_, copies_unchanged paired⟩
  obtain ⟨-, inside, partner, there, reads, back⟩ := paired target within cell has
  have apart : partner ≠ cell := (paired cell inside partner reads).1
  -- if the pair is ever copied it ends equal, so it was equal from the start
  have constant : values cell = values partner ∨ cell ∉ targets ∧ partner ∉ targets := by
    by_cases listed : cell ∈ targets ∨ partner ∈ targets
    · have equal : copies source values targets cell = copies source values targets partner :=
        copies_partners apart reads back (.inr listed)
      rw [kept cell inside, kept partner there] at equal
      exact .inl equal
    · exact .inr (not_or.mp listed)
  rw [← kept target within, copies_of_constant reads back constant has (.inl member)]

end Pairs

end Copies
