import Mathlib.Algebra.Ring.Parity
import Mathlib.Data.Nat.Factorization.Basic

/-!
# Rounding to a number of significant bits

`round p n` is the natural number nearest to `n` that has at most `p` significant bits, and
of two that are equally near the one with an even significand. Numbers above `2 ^ p` are
rounded to a multiple of their unit, the value of the last bit that is kept.

A product with a factor that is not zero has at least as many significant bits as the other
factor, so a chain of roundings is exact if its last result is.
-/

namespace BinaryRounding

def Representable (p n : ℕ) : Prop := ∃ m e, m < 2 ^ p ∧ n = m * 2 ^ e

def unit (p n : ℕ) : ℕ := 2 ^ (n.log2 + 1 - p)

def round (p n : ℕ) : ℕ :=
  if 2 * (n % unit p n) < unit p n ∨ 2 * (n % unit p n) = unit p n ∧ n / unit p n % 2 = 0 then
    n / unit p n * unit p n
  else (n / unit p n + 1) * unit p n

variable {p n : ℕ}

theorem unit_pos (p n : ℕ) : 0 < unit p n := Nat.two_pow_pos _

theorem div_unit_lt (p n : ℕ) : n / unit p n < 2 ^ p := by
  rw [Nat.div_lt_iff_lt_mul (unit_pos p n), unit, ← pow_add]
  exact Nat.lt_log2_self.trans_le (Nat.pow_le_pow_right (by decide) (by omega))

theorem round_eq_or (p n : ℕ) :
    round p n = n / unit p n * unit p n ∨ round p n = (n / unit p n + 1) * unit p n := by
  rw [round]
  split_ifs
  · exact Or.inl rfl
  · exact Or.inr rfl

theorem representable_round (hp : 0 < p) : Representable p (round p n) := by
  have hlt := div_unit_lt p n
  rcases round_eq_or p n with h | h
  · exact ⟨_, _, hlt, h⟩
  · by_cases hcarry : n / unit p n + 1 < 2 ^ p
    · exact ⟨_, _, hcarry, h⟩
    · -- the significand is carried to the next power of two
      have hfull : n / unit p n + 1 = 2 ^ p := by omega
      refine ⟨1, p + (n.log2 + 1 - p), Nat.one_lt_two_pow hp.ne', ?_⟩
      rw [h, hfull, unit, one_mul, pow_add]

theorem round_of_dvd (h : unit p n ∣ n) : round p n = n := by
  have hmod : n % unit p n = 0 := Nat.mod_eq_zero_of_dvd h
  rw [round, if_pos (Or.inl (by rw [hmod]; exact unit_pos p n)), Nat.div_mul_cancel h]

theorem Representable.unit_dvd (h : Representable p n) : unit p n ∣ n := by
  obtain ⟨m, e, hm, hn⟩ := h
  by_cases hzero : n = 0
  · rw [hzero]
    exact dvd_zero _
  · have hlog : n.log2 < p + e := by
      rw [Nat.log2_lt hzero, hn, pow_add]
      exact Nat.mul_lt_mul_of_pos_right hm (Nat.two_pow_pos e)
    have hpow : unit p n ∣ 2 ^ e := Nat.pow_dvd_pow 2 (by omega)
    exact hpow.trans (Dvd.intro_left m hn.symm)

theorem round_eq_self_iff (hp : 0 < p) : round p n = n ↔ Representable p n := by
  constructor
  · intro h
    rw [← h]
    exact representable_round hp
  · intro h
    exact round_of_dvd h.unit_dvd

theorem Representable.of_mul {a b : ℕ} (h : Representable p (a * b)) (hb : b ≠ 0) :
    Representable p a := by
  by_cases ha : a = 0
  · exact ⟨0, 0, Nat.two_pow_pos p, by rw [ha, Nat.zero_mul]⟩
  · obtain ⟨m, e, hm, hprod⟩ := h
    obtain ⟨k, c, hodd, hc⟩ := Nat.exists_eq_two_pow_mul_odd ha
    have hm0 : 0 < m := by
      apply Nat.pos_of_ne_zero
      intro hzero
      rw [hzero, Nat.zero_mul] at hprod
      exact mul_ne_zero ha hb hprod
    -- the odd part of `a` divides the significand of the product
    have hdvd : c ∣ m * 2 ^ e := by
      rw [← hprod]
      exact Dvd.dvd.mul_right (Dvd.intro_left (2 ^ k) hc.symm) b
    have hcop : Nat.Coprime c (2 ^ e) := (Nat.coprime_two_right.mpr hodd).pow_right e
    have hle : c ≤ m := Nat.le_of_dvd hm0 (hcop.dvd_of_dvd_mul_right hdvd)
    exact ⟨c, k, hle.trans_lt hm, by rw [hc, mul_comm]⟩

theorem two_pow_le_round (hp : 0 < p) {k : ℕ} (h : 2 ^ k ≤ n) : 2 ^ k ≤ round p n := by
  have hn : n ≠ 0 := by
    intro hzero
    rw [hzero] at h
    exact absurd h (not_le.mpr (Nat.two_pow_pos k))
  have hk : k ≤ n.log2 := (Nat.le_log2 hn).mpr h
  have hsplit : n.log2 = (n.log2 - (n.log2 + 1 - p)) + (n.log2 + 1 - p) := by omega
  have hquot : 2 ^ (n.log2 - (n.log2 + 1 - p)) ≤ n / unit p n := by
    rw [Nat.le_div_iff_mul_le (unit_pos p n), unit, ← pow_add, ← hsplit]
    exact Nat.log2_self_le hn
  have hdown : 2 ^ k ≤ n / unit p n * unit p n := by
    calc 2 ^ k ≤ 2 ^ n.log2 := Nat.pow_le_pow_right (by decide) hk
      _ = 2 ^ (n.log2 - (n.log2 + 1 - p)) * unit p n := by rw [unit, ← pow_add, ← hsplit]
      _ ≤ n / unit p n * unit p n := Nat.mul_le_mul_right _ hquot
  rcases round_eq_or p n with hround | hround
  · rwa [hround]
  · rw [hround]
    exact hdown.trans (Nat.mul_le_mul_right _ (Nat.le_succ _))

theorem two_mul_round_le (p n : ℕ) : 2 * round p n ≤ 2 * n + unit p n := by
  have hdiv := Nat.div_add_mod' n (unit p n)
  rw [round]
  split_ifs with hdown
  · omega
  · rw [Nat.add_mul, Nat.one_mul]
    omega

end BinaryRounding
