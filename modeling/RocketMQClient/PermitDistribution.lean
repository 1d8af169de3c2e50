import RocketMQClient.RateLimiter

/-!
# How the constructor of the rate limiter hands out its permits

`RateLimiter.new` computes what the constructor leaves in `partition_`. Here the constructor
is written with the operations that C++ leaves undefined: `construct` has no result if it
divides by zero or indexes `partition_` out of its bounds. All its numbers are 32-bit.

The remainder `r` goes to the slots `0`, `step`, `2 * step` and so on, where the stride
`step = P / r` is truncated: `r * step ≤ P` keeps these slots in range, and `0 < step` keeps
them apart.
-/

namespace RocketMQClient
open CounterRing

namespace RateLimiter
variable {P : ℕ}

def quotient (a b : UInt32) : Option UInt32 := if b = 0 then none else some (a / b)

def remainder (a b : UInt32) : Option UInt32 := if b = 0 then none else some (a % b)

def increment (partition : Fin P → UInt32) (index : UInt32) : Option (Fin P → UInt32) :=
  if h : index.toNat < P then
    some (Function.update partition ⟨index.toNat, h⟩ (partition ⟨index.toNat, h⟩ + 1))
  else none

def handOut (step : UInt32) (partition : Fin P → UInt32) (r : ℕ) : Option (Fin P → UInt32) :=
  (List.range r).foldlM (fun partition i => increment partition (UInt32.ofNat i * step)) partition

def construct (P : ℕ) (permit : UInt32) : Option (RateLimiter P) := do
  let _interval ← quotient 1000 (UInt32.ofNat P)
  let avg ← quotient permit (UInt32.ofNat P)
  let r ← remainder permit (UInt32.ofNat P)
  if r ≠ 0 then
    let step ← quotient (UInt32.ofNat P) r
    let partition ← handOut step (fun _ => avg) r.toNat
    return { partition := partition, permits := fun _ => 0 }
  else return { partition := fun _ => avg, permits := fun _ => 0 }

theorem quotient_of_ne {a b : UInt32} (h : b ≠ 0) : quotient a b = some (a / b) := if_neg h

theorem remainder_of_ne {a b : UInt32} (h : b ≠ 0) : remainder a b = some (a % b) := if_neg h

theorem increment_of_lt {partition : Fin P → UInt32} {index : UInt32} {i : ℕ}
    (hi : index.toNat = i) (h : i < P) :
    increment partition index =
      some (Function.update partition ⟨i, h⟩ (partition ⟨i, h⟩ + 1)) := by
  subst hi
  exact dif_pos h

theorem handOut_eq_spread {step : UInt32} (partition : Fin P → UInt32) {k : ℕ}
    (hstep : 0 < step.toNat) (hP : P < 2 ^ 32) (hfits : k * step.toNat ≤ P) :
    handOut step partition k = some (spread step.toNat partition k) := by
  induction k with
  | zero => rfl
  | succ k ih =>
    have hk : (k + 1) * step.toNat = k * step.toNat + step.toNat := Nat.succ_mul k _
    have hlt : k * step.toNat < P := by omega
    have hle : k ≤ k * step.toNat := Nat.le_mul_of_pos_right k hstep
    have hindex : (UInt32.ofNat k * step).toNat = k * step.toNat := by
      rw [UInt32.toNat_mul, UInt32.toNat_ofNat', Nat.mod_eq_of_lt (show k < 2 ^ 32 by omega)]
      exact Nat.mod_eq_of_lt (by omega)
    have hprev : handOut step partition k = some (spread step.toNat partition k) := ih (by omega)
    rw [handOut] at hprev ⊢
    rw [List.range_succ, List.foldlM_append, hprev]
    simp only [List.foldlM_cons, List.foldlM_nil, spread, dif_pos hlt]
    rw [Option.bind_eq_bind, Option.bind_some, increment_of_lt hindex hlt]
    rfl

theorem construct_eq_new (hP : 0 < P) (hint : P < 2 ^ 31) (permit : UInt32) :
    construct P permit = some (new P permit) := by
  have hval : (UInt32.ofNat P).toNat = P := by
    rw [UInt32.toNat_ofNat']
    exact Nat.mod_eq_of_lt (by omega)
  have hne : UInt32.ofNat P ≠ 0 := by
    intro hzero
    rw [hzero] at hval
    exact hP.ne hval
  have havg : permit / UInt32.ofNat P = UInt32.ofNat (permit.toNat / P) := by
    rw [← UInt32.toNat_inj, UInt32.toNat_div, hval, toNat_avg]
  have hr : (permit % UInt32.ofNat P).toNat = permit.toNat % P := by
    rw [UInt32.toNat_mod, hval]
  by_cases hzero : permit % UInt32.ofNat P = 0
  · have hzero' : permit.toNat % P = 0 := by rw [← hr, hzero]; rfl
    simp [construct, quotient_of_ne hne, remainder_of_ne hne, hzero, new, hzero', havg]
  · have hzero' : permit.toNat % P ≠ 0 := by
      rw [← hr]
      exact fun h => hzero (UInt32.toNat_inj.mp h)
    have hstep : (UInt32.ofNat P / (permit % UInt32.ofNat P)).toNat = P / (permit.toNat % P) := by
      rw [UInt32.toNat_div, hval, hr]
    have hfits : permit.toNat % P * (P / (permit.toNat % P)) ≤ P := Nat.mul_div_le _ _
    have hloop := handOut_eq_spread (fun _ : Fin P => UInt32.ofNat (permit.toNat / P))
      (hstep ▸ stride_pos hP hzero') (by omega) (k := permit.toNat % P) (hstep ▸ hfits)
    rw [hstep] at hloop
    simp [construct, quotient_of_ne hne, remainder_of_ne hne, quotient_of_ne hzero, hzero, hr,
      havg, hloop, new, hzero']

theorem spread_eq_or {step : ℕ} {avg : UInt32} (hstep : 0 < step) (k : ℕ) (j : Fin P) :
    spread step (fun _ => avg) k j = avg ∨ spread step (fun _ => avg) k j = avg + 1 := by
  induction k with
  | zero => exact Or.inl rfl
  | succ k ih =>
    simp only [spread]
    split_ifs with hlt
    · by_cases hj : j = ⟨k * step, hlt⟩
      · subst hj
        rw [Function.update_self, spread_of_le _ hstep le_rfl hlt]
        exact Or.inr rfl
      · rw [Function.update_of_ne hj]
        exact ih
    · exact ih

theorem partition_eq_or (hP : 0 < P) (permit : UInt32) (j : Fin P) :
    ((new P permit).partition j).toNat = permit.toNat / P ∨
      ((new P permit).partition j).toNat = permit.toNat / P + 1 := by
  rw [new_partition]
  by_cases hzero : permit.toNat % P = 0
  · rw [hzero]
    exact Or.inl (toNat_avg P permit)
  · rcases spread_eq_or (stride_pos hP hzero) (permit.toNat % P) j with h | h
    · rw [h]
      exact Or.inl (toNat_avg P permit)
    · rw [h, UInt32.toNat_add, toNat_avg, UInt32.toNat_one]
      exact Or.inr (Nat.mod_eq_of_lt (avg_add_one_lt hP hzero))

/-- No operation of the constructor is undefined, and what it leaves in `partition_` sums to
the permits, with one more than the average in as many slots as the remainder. -/
theorem construct_distributes (hP : 1 ≤ P) (hint : P < 2 ^ 31) (permit : UInt32) :
    ∃ l, construct P permit = some l ∧ total l.partition = permit.toNat ∧
      (∀ i, (l.partition i).toNat = permit.toNat / P ∨
        (l.partition i).toNat = permit.toNat / P + 1) ∧
      (Finset.univ.filter fun i => (l.partition i).toNat = permit.toNat / P + 1).card =
        permit.toNat % P := by
  have htotal := total_partition hP permit
  have hlevels := partition_eq_or hP permit
  refine ⟨new P permit, construct_eq_new hP hint permit, htotal, hlevels, ?_⟩
  have hdiv := Nat.div_add_mod permit.toNat P
  rw [total_of_two_levels hlevels] at htotal
  omega

theorem construct_ten_of_seven :
    ∃ l, construct 10 7 = some l ∧ total l.partition = 7 ∧
      (∀ i, (l.partition i).toNat = 0 ∨ (l.partition i).toNat = 1) ∧
      (Finset.univ.filter fun i => (l.partition i).toNat = 1).card = 7 :=
  construct_distributes (by decide) (by decide) 7

end RateLimiter
end RocketMQClient
