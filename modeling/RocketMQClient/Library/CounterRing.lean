import Mathlib.Algebra.BigOperators.Fin
import Mathlib.Algebra.Order.BigOperators.Group.Finset

/-!
# A ring of 32-bit counters

`n` counters stand in a ring. `back i j` is the place `j` steps before `i`, and
`total` the sum of the counters as a natural number, so that a wrap of one counter
shows in it. As long as fewer than `n` steps are taken no place is met twice, and a
walk back never sees more than the total.
-/

namespace CounterRing
variable {n : ℕ}

def back (i : Fin n) (j : ℕ) : Fin n :=
  if h : j ≤ i.val then ⟨i.val - j, by omega⟩ else ⟨i.val + n - j, by omega⟩

@[simp] theorem back_zero (i : Fin n) : back i 0 = i := by simp [back]

theorem back_val (i : Fin n) (j : ℕ) :
    (back i j).val = if j ≤ i.val then i.val - j else i.val + n - j := by
  unfold back
  split_ifs <;> rfl

theorem back_injOn {i : Fin n} {j k : ℕ} (hj : j < n) (hk : k < n) (h : back i j = back i k) :
    j = k := by
  have hv : (back i j).val = (back i k).val := by rw [h]
  have hi : i.val < n := i.isLt
  rw [back_val, back_val] at hv
  split_ifs at hv <;> omega

theorem update_le {f : Fin n → UInt32} {i : Fin n} {v : UInt32} (h : v ≤ f i) (k : Fin n) :
    Function.update f i v k ≤ f k := by
  by_cases hk : k = i
  · subst hk
    rwa [Function.update_self]
  · rw [Function.update_of_ne hk]
    exact UInt32.le_refl _

def total (f : Fin n → UInt32) : ℕ := ∑ i, (f i).toNat

theorem le_total (f : Fin n → UInt32) (i : Fin n) : (f i).toNat ≤ total f :=
  Finset.single_le_sum (f := fun i => (f i).toNat) (fun _ _ => Nat.zero_le _) (Finset.mem_univ i)

theorem total_update (f : Fin n → UInt32) (i : Fin n) (v : UInt32) :
    total (Function.update f i v) + (f i).toNat = total f + v.toNat := by
  have hrest : ∑ k ∈ Finset.univ.erase i, (Function.update f i v k).toNat =
      ∑ k ∈ Finset.univ.erase i, (f k).toNat := by
    apply Finset.sum_congr rfl
    intro k hk
    rw [Function.update_of_ne (Finset.ne_of_mem_erase hk)]
  have hnew := Finset.sum_erase_add Finset.univ (fun k => (Function.update f i v k).toNat)
    (Finset.mem_univ i)
  have hold := Finset.sum_erase_add Finset.univ (fun k => (f k).toNat) (Finset.mem_univ i)
  simp only [Function.update_self, hrest] at hnew
  unfold total
  omega

theorem total_of_two_levels {f : Fin n → UInt32} {a : ℕ}
    (h : ∀ i, (f i).toNat = a ∨ (f i).toNat = a + 1) :
    total f = n * a + (Finset.univ.filter fun i => (f i).toNat = a + 1).card := by
  have hsplit : ∀ i, (f i).toNat = a + if (f i).toNat = a + 1 then 1 else 0 := by
    intro i
    split_ifs with hi
    · exact hi
    · exact (h i).resolve_right hi
  have hconst : ∑ _i : Fin n, a = n * a := by simp
  calc total f = ∑ i, (a + if (f i).toNat = a + 1 then 1 else 0) :=
        Finset.sum_congr rfl fun i _ => hsplit i
    _ = n * a + (Finset.univ.filter fun i => (f i).toNat = a + 1).card := by
        rw [Finset.sum_add_distrib, hconst, Finset.card_filter]

theorem total_mono {f g : Fin n → UInt32} (h : ∀ i, f i ≤ g i) : total f ≤ total g :=
  Finset.sum_le_sum fun i _ => UInt32.le_iff_toNat_le.mp (h i)

theorem sum_back_le_total (f : Fin n → UInt32) (i : Fin n) {j : ℕ} (hj : j ≤ n) :
    ∑ k ∈ Finset.range j, (f (back i k)).toNat ≤ total f := by
  have hinj : Set.InjOn (back i) (Finset.range j : Finset ℕ) := by
    intro a ha b hb hab
    have ha' := Finset.mem_range.mp ha
    have hb' := Finset.mem_range.mp hb
    exact back_injOn (by omega) (by omega) hab
  calc ∑ k ∈ Finset.range j, (f (back i k)).toNat
      = ∑ p ∈ (Finset.range j).image (back i), (f p).toNat := by rw [Finset.sum_image hinj]
    _ ≤ ∑ p, (f p).toNat :=
        Finset.sum_le_sum_of_subset (Finset.subset_univ _)

end CounterRing
