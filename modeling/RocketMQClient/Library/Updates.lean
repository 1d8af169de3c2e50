import Mathlib.Data.List.Basic
import Mathlib.Tactic.Common

/-!
# A flag under updates that set and clear it

An update that sets the flag wins over its own clearing. After a list of updates
the flag is set if it was from the start and nothing clears it, or if some update
sets it and none after that one clears it.
-/

namespace Updates
variable {α : Type*} {sets clears : α → Prop}

def After (sets clears : α → Prop) (p : Prop) (l : List α) : Prop :=
  l.foldl (fun p a => sets a ∨ p ∧ ¬ clears a) p

def Lasts (sets clears : α → Prop) : List α → Prop
  | [] => False
  | a :: l => (sets a ∧ ∀ b ∈ l, ¬ clears b) ∨ Lasts sets clears l

theorem after_iff {p : Prop} (l : List α) :
    After sets clears p l ↔ (p ∧ ∀ a ∈ l, ¬ clears a) ∨ Lasts sets clears l := by
  induction l generalizing p with
  | nil => simp [After, Lasts]
  | cons a l ih =>
    have hrest := ih (p := sets a ∨ p ∧ ¬ clears a)
    rw [After] at hrest ⊢
    rw [List.foldl_cons, hrest, Lasts, List.forall_mem_cons]
    tauto

theorem Lasts.exists_sets {l : List α} (h : Lasts sets clears l) : ∃ a ∈ l, sets a := by
  induction l with
  | nil => exact h.elim
  | cons a l ih =>
    rcases h with ⟨ha, -⟩ | hrest
    · exact ⟨a, by simp, ha⟩
    · obtain ⟨b, hb, hsets⟩ := ih hrest
      exact ⟨b, by simp [hb], hsets⟩

theorem lasts_of_not_clears {l : List α} (hclear : ∀ a ∈ l, ¬ clears a)
    (hsets : ∃ a ∈ l, sets a) : Lasts sets clears l := by
  induction l with
  | nil => simp at hsets
  | cons b l ih =>
    rw [List.forall_mem_cons] at hclear
    rw [List.exists_mem_cons_iff] at hsets
    exact hsets.imp (fun hb => ⟨hb, hclear.2⟩) (ih hclear.2)

/-- The flag says whether some update sets it exactly if the updates touch it when it was
set before, and one that sets it lasts. -/
theorem after_iff_exists_sets_iff {p : Prop} (l : List α) :
    (After sets clears p l ↔ ∃ a ∈ l, sets a) ↔
      (p → ∃ a ∈ l, sets a ∨ clears a) ∧ ((∃ a ∈ l, sets a) → Lasts sets clears l) := by
  rw [after_iff]
  constructor
  · intro h
    constructor
    · intro hp
      by_contra hnone
      push Not at hnone
      obtain ⟨a, ha, hsets⟩ := h.mp (Or.inl ⟨hp, fun a ha => (hnone a ha).2⟩)
      exact (hnone a ha).1 hsets
    · intro hsets
      rcases h.mpr hsets with ⟨-, hclear⟩ | hlasts
      · exact lasts_of_not_clears hclear hsets
      · exact hlasts
  · rintro ⟨htouched, hlasts⟩
    constructor
    · rintro (⟨hp, hclear⟩ | h)
      · obtain ⟨a, ha, hset | hcleared⟩ := htouched hp
        · exact ⟨a, ha, hset⟩
        · exact absurd hcleared (hclear a ha)
      · exact h.exists_sets
    · exact fun hsets => Or.inr (hlasts hsets)

end Updates
