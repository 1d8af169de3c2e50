import Mathlib.Data.Nat.ModEq
import Mathlib.Tactic.Common

/-!
# Walking round a ring with a counter that wraps

The counter has `W` values and counts up from `start`; the position in a ring of
`n` places is the count modulo `n`. As long as the counter does not wrap, `n`
steps visit every place. Where it wraps, the walk goes on at place 0, and places
are left out unless `n` divides `W`.

`search` is a loop that counts up until it is told to stop or finds something. It
need not end, so it is given fuel; `none` means that the fuel ran out.
-/

namespace RoundRobin

def position (W start n i : ℕ) : ℕ := (start + i) % W % n

theorem exists_add_mod {n j : ℕ} (start : ℕ) (hj : j < n) : ∃ i < n, (start + i) % n = j := by
  have hpos : 0 < n := Nat.zero_lt_of_lt hj
  have hlt : start % n < n := Nat.mod_lt _ hpos
  refine ⟨(j + (n - start % n)) % n, Nat.mod_lt _ hpos, ?_⟩
  calc (start + (j + (n - start % n)) % n) % n
      = (start % n + (j + (n - start % n))) % n := by rw [Nat.add_mod_mod, ← Nat.mod_add_mod]
    _ = (j + n) % n := by congr 1; omega
    _ = j := by rw [Nat.add_mod_right, Nat.mod_eq_of_lt hj]

theorem exists_add_mul_mod_iff {n : ℕ} (hn : 0 < n) (start k : ℕ) :
    (∀ j < n, ∃ i < n, (start + k * i) % n = j) ↔ k.Coprime n := by
  constructor
  · intro hall
    obtain ⟨i, -, hi⟩ := hall ((start + 1) % n) (Nat.mod_lt _ hn)
    have hone : k * i ≡ 1 [MOD n] := Nat.ModEq.add_left_cancel' start hi
    exact Nat.coprime_of_mul_modEq_one i hone
  · intro hcoprime j hj
    have hlt : start % n < n := Nat.mod_lt _ hn
    obtain ⟨i, hi, hmod⟩ :=
      Nat.exists_mul_mod_eq_of_coprime (j + (n - start % n)) hcoprime (Nat.ne_of_gt hn)
    refine ⟨i, hi, ?_⟩
    calc (start + k * i) % n
        = (start % n + (j + (n - start % n))) % n := by rw [Nat.add_mod, hmod, Nat.add_mod_mod]
      _ = (j + n) % n := by congr 1; omega
      _ = j := by rw [Nat.add_mod_right, Nat.mod_eq_of_lt hj]

theorem exists_position {W start n j : ℕ} (h : start + n ≤ W ∨ n ∣ W) (hj : j < n) :
    ∃ i < n, position W start n i = j := by
  obtain ⟨i, hi, hij⟩ := exists_add_mod start hj
  refine ⟨i, hi, ?_⟩
  rw [position]
  rcases h with hfits | hdvd
  · have hlt : start + i < W := by omega
    rw [Nat.mod_eq_of_lt hlt, hij]
  · rw [Nat.mod_mod_of_dvd _ hdvd, hij]

theorem exists_position_of_lt {W n j : ℕ} (start : ℕ) (hn : j < n) (hW : j < W) :
    ∃ i, position W start n i = j := by
  obtain ⟨i, -, hi⟩ := exists_add_mod start hW
  exact ⟨i, by rw [position, hi, Nat.mod_eq_of_lt hn]⟩

section Search
variable {β : Type*} (stop : ℕ → Bool) (found : ℕ → Option β)

def search : ℕ → ℕ → Option (Option β)
  | 0, _ => none
  | fuel + 1, k =>
    if stop k then some none
    else match found k with
      | some b => some (some b)
      | none => search fuel (k + 1)

theorem search_first {fuel k : ℕ} {r : Option β} (h : search stop found fuel k = some r) :
    ∃ j, k ≤ j ∧ (∀ l, k ≤ l → l < j → stop l = false ∧ found l = none) ∧
      ((stop j = true ∧ r = none) ∨ (stop j = false ∧ ∃ b, found j = some b ∧ r = some b)) := by
  induction fuel generalizing k with
  | zero => cases h
  | succ fuel ih =>
    rw [search] at h
    by_cases hstop : stop k = true
    · rw [if_pos hstop] at h
      cases h
      exact ⟨k, le_rfl, fun l hle hlt => absurd hle (not_le.mpr hlt), Or.inl ⟨hstop, rfl⟩⟩
    · rw [if_neg hstop] at h
      have hgo : stop k = false := Bool.eq_false_iff.mpr hstop
      cases hfound : found k with
      | some b =>
        rw [hfound] at h
        cases h
        exact ⟨k, le_rfl, fun l hle hlt => absurd hle (not_le.mpr hlt),
          Or.inr ⟨hgo, b, hfound, rfl⟩⟩
      | none =>
        rw [hfound] at h
        obtain ⟨j, hj, hbefore, hend⟩ := ih h
        refine ⟨j, by omega, fun l hle hlt => ?_, hend⟩
        by_cases heq : l = k
        · rw [heq]
          exact ⟨hgo, hfound⟩
        · exact hbefore l (by omega) hlt

theorem search_ends {k j : ℕ} (hkj : k ≤ j) (hend : stop j = true ∨ (found j).isSome = true) :
    ∃ fuel r, search stop found fuel k = some r := by
  induction hn : j - k generalizing k with
  | zero =>
    have heq : j = k := by omega
    subst heq
    refine ⟨1, ?_⟩
    rw [search]
    by_cases hstop : stop j = true
    · exact ⟨none, if_pos hstop⟩
    · obtain ⟨b, hb⟩ := Option.isSome_iff_exists.mp (hend.resolve_left hstop)
      exact ⟨some b, by rw [if_neg hstop, hb]⟩
  | succ n ih =>
    obtain ⟨fuel, r, hr⟩ := ih (k := k + 1) (by omega) (by omega)
    refine ⟨fuel + 1, ?_⟩
    rw [search]
    by_cases hstop : stop k = true
    · exact ⟨none, if_pos hstop⟩
    · rw [if_neg hstop]
      cases hfound : found k with
      | some b => exact ⟨some b, rfl⟩
      | none => exact ⟨r, hr⟩

end Search

end RoundRobin
