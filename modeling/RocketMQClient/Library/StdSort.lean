import Mathlib.Data.List.Sort

/-!
# Sorting with a strict order given as a test

The contract of a sort that is not stable: the result is a permutation in which no
element is less than one before it, and equivalent elements may end up in any order.
-/

structure StdSort {α : Type*} (less : α → α → Bool) where
  sort : List α → List α
  perm : ∀ l, (sort l).Perm l
  sorted : ∀ l, (sort l).Pairwise fun a b => less b a = false

def StdSort.insertion {α β : Type*} [LinearOrder β] {less : α → α → Bool} (key : α → β)
    (hless : ∀ a b, less a b = true ↔ key a < key b) : StdSort less where
  sort := List.insertionSort fun a b => less b a = false
  perm := List.perm_insertionSort _
  sorted := by
    have hle : ∀ a b, less b a = false ↔ key a ≤ key b := fun a b => by
      rw [Bool.eq_false_iff, ne_eq, hless, not_lt]
    have htotal : Std.Total fun a b : α => less b a = false := by
      refine ⟨fun a b => ?_⟩
      rw [hle, hle]
      exact le_total _ _
    have htrans : IsTrans α fun a b => less b a = false := by
      refine ⟨fun a b c hab hbc => ?_⟩
      rw [hle] at hab hbc ⊢
      exact hab.trans hbc
    exact List.pairwise_insertionSort _

theorem StdSort.sort_eq_self_iff {α β : Type*} [LinearOrder β] {less : α → α → Bool}
    (std : StdSort less) {key : α → β} (hkey : Function.Injective key)
    (hless : ∀ a b, less a b = true ↔ key a < key b) {l : List α} :
    std.sort l = l ↔ l.Pairwise fun a b => less b a = false := by
  constructor
  · intro h
    rw [← h]
    exact std.sorted l
  · intro h
    refine List.Perm.eq_of_pairwise (fun a b _ _ hab hba => hkey ?_) (std.sorted l) h (std.perm l)
    rw [Bool.eq_false_iff, ne_eq, hless, not_lt] at hab hba
    exact le_antisymm hab hba
