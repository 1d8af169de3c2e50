import Mathlib.Data.List.Perm.Basic
import Mathlib.Data.List.Count

/-!
# Picking one item out of a list of outstanding work

Work that is outstanding (tasks submitted, timers set, calls in flight) is a
list, and the scheduler may continue any item of it. `pick l i` takes the item
at position `i` out of `l`. Facts about outstanding work are stated up to
permutation, so they follow from `pick_perm` whatever item is picked. Items that are
numbered in the order in which they are made are each at one place if the numbers at all
places are a permutation of those given out.
-/

namespace Pending
variable {α : Type*}

def pick : List α → ℕ → Option (α × List α)
  | [], _ => none
  | a :: as, 0 => some (a, as)
  | a :: as, i + 1 => (pick as i).map fun r => (r.1, a :: r.2)

theorem pick_perm {l : List α} {i : ℕ} {a : α} {rest : List α}
    (h : pick l i = some (a, rest)) : l.Perm (a :: rest) := by
  induction l generalizing i rest with
  | nil => simp [pick] at h
  | cons b bs ih =>
    cases i with
    | zero =>
      simp only [pick, Option.some.injEq, Prod.mk.injEq] at h
      obtain ⟨rfl, rfl⟩ := h
      exact List.Perm.refl _
    | succ i =>
      simp only [pick, Option.map_eq_some_iff, Prod.mk.injEq, Prod.exists] at h
      obtain ⟨c, more, hpick, rfl, rfl⟩ := h
      exact ((ih hpick).cons b).trans (List.Perm.swap c b more)

theorem mem_of_pick {l : List α} {i : ℕ} {a : α} {rest : List α}
    (h : pick l i = some (a, rest)) : a ∈ l :=
  (pick_perm h).mem_iff.mpr List.mem_cons_self

theorem mem_of_mem_rest {l : List α} {i : ℕ} {a b : α} {rest : List α}
    (h : pick l i = some (a, rest)) (hb : b ∈ rest) : b ∈ l :=
  (pick_perm h).mem_iff.mpr (List.mem_cons_of_mem a hb)

theorem exists_pick {l : List α} {a : α} (h : a ∈ l) : ∃ i rest, pick l i = some (a, rest) := by
  induction l with
  | nil => simp at h
  | cons b bs ih =>
    obtain rfl | hin := List.mem_cons.mp h
    · exact ⟨0, bs, rfl⟩
    · obtain ⟨i, rest, hpick⟩ := ih hin
      exact ⟨i + 1, b :: rest, by simp [pick, hpick]⟩

theorem count_pick {β : Type*} [DecidableEq β] {l rest : List α} {i : ℕ} {a : α}
    (h : pick l i = some (a, rest)) (f : α → β) (b : β) :
    (l.map f).count b = (rest.map f).count b + [f a].count b := by
  rw [((pick_perm h).map f).count_eq b, List.map_cons, List.count_cons, List.count_singleton]

theorem pick_concat (l : List α) (a : α) : pick (l ++ [a]) l.length = some (a, l) := by
  induction l with
  | nil => rfl
  | cons b bs ih => simp [pick, ih]

theorem pick_map {β : Type*} (f : α → β) (l : List α) (i : ℕ) :
    pick (l.map f) i = (pick l i).map fun r => (f r.1, r.2.map f) := by
  induction l generalizing i with
  | nil => rfl
  | cons a as ih =>
    cases i with
    | zero => rfl
    | succ i => simp [pick, ih, Function.comp_def]

theorem pick_length {l : List α} {i : ℕ} {a : α} {rest : List α}
    (h : pick l i = some (a, rest)) : l.length = rest.length + 1 := by
  simpa using (pick_perm h).length_eq

theorem pick_single {l : List α} {i : ℕ} {a : α} {rest : List α}
    (h : pick l i = some (a, rest)) (hl : l.length ≤ 1) : l = [a] ∧ rest = [] := by
  have hlen := pick_length h
  have hrest : rest = [] := List.length_eq_zero_iff.mp (by omega)
  subst hrest
  exact ⟨List.perm_singleton.mp (pick_perm h), rfl⟩

theorem perm_range_of_count {l l' : List ℕ} {m n : ℕ} (h : l.Perm (List.range m)) (hmn : m ≤ n)
    (hcount : ∀ x, l'.count x = l.count x + (List.range' m (n - m)).count x) :
    l'.Perm (List.range n) := by
  have hsplit := @List.range'_append 0 m (n - m) 1
  rw [Nat.zero_add, Nat.one_mul, Nat.add_sub_cancel' hmn] at hsplit
  refine List.perm_iff_count.mpr fun x => ?_
  rw [hcount, h.count_eq, ← List.count_append, List.range_eq_range', List.range_eq_range', hsplit]

end Pending
