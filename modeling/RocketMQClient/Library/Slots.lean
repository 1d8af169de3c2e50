import Mathlib.Algebra.GroupWithZero.Nat
import Mathlib.Data.List.Perm.Basic
import Mathlib.Data.List.Count

/-!
# A list of slots

Threads of a pool, parties of a protocol or entries of a table are slots of a list, and a
step replaces the content of one of them. When each slot stands for a list of items,
replacing one slot exchanges its items for the new ones, up to the order.
-/

namespace Slots
variable {α β : Type*}

theorem count_flatMap_set [DecidableEq β] {l : List α} {i : ℕ} {a : α} (h : l[i]? = some a)
    (b : α) (f : α → List β) (x : β) :
    ((l.set i b).flatMap f).count x + (f a).count x = (l.flatMap f).count x + (f b).count x := by
  obtain ⟨hi, rfl⟩ := List.getElem?_eq_some_iff.mp h
  have hnew := ((List.set_perm_cons_eraseIdx hi b).flatMap_right f).count_eq x
  have hold := ((List.getElem_cons_eraseIdx_perm hi).flatMap_right f).count_eq x
  rw [List.flatMap_cons, List.count_append] at hnew hold
  omega

theorem countP_set {l : List α} {i : ℕ} {a : α} (h : l[i]? = some a) (b : α) (p : α → Bool) :
    (l.set i b).countP p + (if p a then 1 else 0) = l.countP p + (if p b then 1 else 0) := by
  obtain ⟨hi, rfl⟩ := List.getElem?_eq_some_iff.mp h
  have hnew := (List.set_perm_cons_eraseIdx hi b).countP_eq p
  have hold := (List.getElem_cons_eraseIdx_perm hi).countP_eq p
  rw [List.countP_cons] at hnew hold
  omega

theorem sum_map_set {l : List α} {i : ℕ} {a : α} (h : l[i]? = some a) (b : α) (f : α → ℕ) :
    ((l.set i b).map f).sum + f a = (l.map f).sum + f b := by
  obtain ⟨hi, rfl⟩ := List.getElem?_eq_some_iff.mp h
  have hnew := ((List.set_perm_cons_eraseIdx hi b).map f).sum_nat
  have hold := ((List.getElem_cons_eraseIdx_perm hi).map f).sum_nat
  rw [List.map_cons, List.sum_cons] at hnew hold
  omega

theorem mem_set_of_ne {l : List α} {i : ℕ} {a b c : α} (h : l[i]? = some a) (hc : c ∈ l)
    (hne : c ≠ a) : c ∈ l.set i b := by
  obtain ⟨j, hj, hget⟩ := List.mem_iff_getElem.mp hc
  have hij : i ≠ j := by
    intro hij
    subst hij
    rw [List.getElem?_eq_getElem hj, Option.some.injEq] at h
    exact hne (hget.symm.trans h)
  refine List.mem_iff_getElem.mpr ⟨j, by simpa using hj, ?_⟩
  rw [List.getElem_set_ne hij, hget]

end Slots
