import RocketMQClient.Library.CounterRing

/-!
# The rate limiter of a throttled topic

A second is cut into `P` slots. `partition` is the quota of each slot and `permits`
what is left of it; `tick` refills the slot of the moment, and `acquire` may also use
what the `P / 2` slots before it have left. All counters are 32-bit and wrap.

`acquire permit` drains the past slots with a `while` loop inside a `for` loop. Its
`break` leaves the inner loop only: once the request is met, the outer loop goes on, and
the body of the inner one takes a permit before it looks at the count again.
-/

namespace RocketMQClient
open CounterRing

structure RateLimiter (P : ℕ) where
  partition : Fin P → UInt32
  permits : Fin P → UInt32

namespace RateLimiter
variable {P : ℕ}

def spread (step : ℕ) (partition : Fin P → UInt32) : ℕ → Fin P → UInt32
  | 0 => partition
  | i + 1 =>
    let spreaded := spread step partition i
    if h : i * step < P then
      Function.update spreaded ⟨i * step, h⟩ (spreaded ⟨i * step, h⟩ + 1)
    else spreaded

def new (P : ℕ) (permit : UInt32) : RateLimiter P :=
  let avg := UInt32.ofNat (permit.toNat / P)
  let r := permit.toNat % P
  { partition := if r ≠ 0 then spread (P / r) (fun _ => avg) r else fun _ => avg
    permits := fun _ => 0 }

theorem spread_of_le {step i k : ℕ} (partition : Fin P → UInt32) (hstep : 0 < step)
    (hk : k ≤ i) (h : i * step < P) :
    spread step partition k ⟨i * step, h⟩ = partition ⟨i * step, h⟩ := by
  induction k with
  | zero => rfl
  | succ k ih =>
    have hlt : k * step < i * step := Nat.mul_lt_mul_of_pos_right (by omega) hstep
    have hne : (⟨i * step, h⟩ : Fin P) ≠ ⟨k * step, by omega⟩ := by
      intro he
      have hv := congrArg Fin.val he
      simp only at hv
      omega
    simp only [spread, dif_pos (show k * step < P by omega)]
    rw [Function.update_of_ne hne]
    exact ih (by omega)

theorem total_spread {step k : ℕ} {avg : UInt32} (hstep : 0 < step) (havg : avg.toNat + 1 < 2 ^ 32)
    (hfits : k * step ≤ P) :
    total (spread step (fun _ : Fin P => avg) k) = P * avg.toNat + k := by
  induction k with
  | zero => simp [spread, total]
  | succ k ih =>
    have hk : (k + 1) * step = k * step + step := Nat.succ_mul k step
    have hlt : k * step < P := by omega
    have hold : spread step (fun _ : Fin P => avg) k ⟨k * step, hlt⟩ = avg :=
      spread_of_le _ hstep le_rfl hlt
    have hupd := total_update (spread step (fun _ : Fin P => avg) k) ⟨k * step, hlt⟩ (avg + 1)
    have hnew : (avg + 1).toNat = avg.toNat + 1 := by
      rw [UInt32.toNat_add, UInt32.toNat_one]
      exact Nat.mod_eq_of_lt havg
    simp only [spread, dif_pos hlt, hold]
    rw [hold, hnew, ih (by omega)] at hupd
    omega

theorem new_partition (P : ℕ) (permit : UInt32) :
    (new P permit).partition = spread (P / (permit.toNat % P))
      (fun _ => UInt32.ofNat (permit.toNat / P)) (permit.toNat % P) := by
  by_cases hzero : permit.toNat % P = 0
  · simp [new, hzero, spread]
  · simp [new, hzero]

theorem toNat_avg (P : ℕ) (permit : UInt32) :
    (UInt32.ofNat (permit.toNat / P)).toNat = permit.toNat / P := by
  have hle : permit.toNat / P ≤ permit.toNat := Nat.div_le_self _ _
  exact UInt32.toNat_ofNat_of_lt' (hle.trans_lt permit.toNat_lt)

theorem stride_pos (hP : 0 < P) {permit : UInt32} (hr : permit.toNat % P ≠ 0) :
    0 < P / (permit.toNat % P) :=
  Nat.div_pos (Nat.mod_lt _ hP).le (Nat.pos_of_ne_zero hr)

theorem avg_add_one_lt (hP : 0 < P) {permit : UInt32} (hr : permit.toNat % P ≠ 0) :
    permit.toNat / P + 1 < 2 ^ 32 := by
  have hlt : permit.toNat % P < P := Nat.mod_lt _ hP
  have hdiv := Nat.div_add_mod permit.toNat P
  have hmax : permit.toNat < 2 ^ 32 := permit.toNat_lt
  have htwice : 2 * (permit.toNat / P) ≤ P * (permit.toNat / P) :=
    Nat.mul_le_mul_right _ (by omega)
  omega

theorem total_partition (hP : 0 < P) (permit : UInt32) :
    total (new P permit).partition = permit.toNat := by
  have hdiv := Nat.div_add_mod permit.toNat P
  have hfits : permit.toNat % P * (P / (permit.toNat % P)) ≤ P := Nat.mul_div_le _ _
  rw [new_partition]
  by_cases hzero : permit.toNat % P = 0
  · simp only [hzero, spread, total, toNat_avg, Finset.sum_const, Finset.card_univ,
      Fintype.card_fin, smul_eq_mul]
    omega
  · rw [total_spread (stride_pos hP hzero) (by rw [toNat_avg]; exact avg_add_one_lt hP hzero) hfits,
      toNat_avg]
    omega

def slot (P : ℕ) [NeZero P] (ms : ℕ) : Fin P := Fin.ofNat P (ms / (1000 / P))

def tick (l : RateLimiter P) (idx : Fin P) : RateLimiter P :=
  { l with permits := Function.update l.permits idx (l.partition idx) }

def availableIn (l : RateLimiter P) (idx : Fin P) : ℕ → UInt32
  | 0 => 0
  | j + 1 =>
    if 0 < l.permits (back idx j) then availableIn l idx j + l.permits (back idx j)
    else availableIn l idx j

def available (l : RateLimiter P) (idx : Fin P) : UInt32 := l.availableIn idx (P / 2 + 1)

theorem availableIn_toNat {l : RateLimiter P} (idx : Fin P) (hsum : total l.permits < 2 ^ 32)
    {j : ℕ} (hj : j ≤ P) :
    (l.availableIn idx j).toNat = ∑ k ∈ Finset.range j, (l.permits (back idx k)).toNat := by
  induction j with
  | zero => rfl
  | succ j ih =>
    have hle := sum_back_le_total l.permits idx hj
    rw [Finset.sum_range_succ] at hle ⊢
    rw [availableIn]
    have hprev := ih (by omega)
    split_ifs with hpos
    · rw [UInt32.toNat_add, hprev]
      exact Nat.mod_eq_of_lt (by omega)
    · have hzero : (l.permits (back idx j)).toNat = 0 := by
        have hn : ¬ 0 < (l.permits (back idx j)).toNat :=
          fun h => hpos (UInt32.lt_iff_toNat_lt.mpr h)
        omega
      rw [hprev, hzero, Nat.add_zero]

def reuseSlot (permit : UInt32) : ℕ → UInt32 → ℕ × UInt32
  | 0, acquired => (0, acquired)
  | left + 1, acquired =>
    if permit ≤ acquired + 1 then (left, acquired + 1) else reuseSlot permit left (acquired + 1)

structure Drained (P : ℕ) where
  permits : Fin P → UInt32
  acquired : UInt32

def Drained.pass (s : Drained P) (permit : UInt32) (index : Fin P) : Drained P :=
  let r := reuseSlot permit (s.permits index).toNat s.acquired
  { permits := Function.update s.permits index (UInt32.ofNat r.1), acquired := r.2 }

def reusePast (permit : UInt32) (idx : Fin P) (start : Drained P) : ℕ → Drained P
  | 0 => start
  | j + 1 => (reusePast permit idx start j).pass permit (back idx (j + 1))

def acquire (l : RateLimiter P) (idx : Fin P) (permit : UInt32) : RateLimiter P × UInt32 :=
  if permit ≤ l.permits idx then
    ({ l with permits := Function.update l.permits idx (l.permits idx - permit) }, permit)
  else
    let start : Drained P :=
      if 0 < l.permits idx then ⟨Function.update l.permits idx 0, l.permits idx⟩
      else ⟨l.permits, 0⟩
    let s := reusePast permit idx start (P / 2)
    ({ l with permits := s.permits }, s.acquired)

/-- What the loops take from a slot of `k` permits when `a` of the `n` asked for are there. -/
def reused (n a k : ℕ) : ℕ := if n ≤ a then min 1 k else min (n - a) k

theorem reused_le (n a k : ℕ) : reused n a k ≤ k := by
  unfold reused
  split_ifs <;> omega

theorem reuseSlot_le (permit : UInt32) (k : ℕ) (a : UInt32) : (reuseSlot permit k a).1 ≤ k := by
  induction k generalizing a with
  | zero => exact le_rfl
  | succ k ih =>
    rw [reuseSlot]
    split_ifs with hmet
    · exact Nat.le_succ k
    · exact (ih (a + 1)).trans (Nat.le_succ k)

theorem reuseSlot_spec (permit : UInt32) {k : ℕ} {a : UInt32} (h : a.toNat + k < 2 ^ 32) :
    (reuseSlot permit k a).1 + reused permit.toNat a.toNat k = k ∧
      (reuseSlot permit k a).2.toNat = a.toNat + reused permit.toNat a.toNat k := by
  induction k generalizing a with
  | zero => simp [reuseSlot, reused]
  | succ k ih =>
    have hsucc : (a + 1).toNat = a.toNat + 1 := by
      rw [UInt32.toNat_add, UInt32.toNat_one]
      exact Nat.mod_eq_of_lt (by omega)
    rw [reuseSlot]
    split_ifs with hmet
    · have hle : permit.toNat ≤ a.toNat + 1 := by
        rw [← hsucc]
        exact UInt32.le_iff_toNat_le.mp hmet
      have hone : reused permit.toNat a.toNat (k + 1) = 1 := by
        unfold reused
        split_ifs <;> omega
      rw [hone]
      exact ⟨rfl, hsucc⟩
    · have hlt : a.toNat + 1 < permit.toNat := by
        rw [← hsucc]
        exact UInt32.lt_iff_toNat_lt.mp (UInt32.not_le.mp hmet)
      have hmore : reused permit.toNat a.toNat (k + 1) =
          1 + reused permit.toNat (a.toNat + 1) k := by
        unfold reused
        split_ifs <;> omega
      obtain ⟨hleft, hgot⟩ := ih (a := a + 1) (by omega)
      rw [hsucc] at hleft hgot
      rw [hmore]
      exact ⟨by omega, by omega⟩

def grantedAfter (n : ℕ) (f : ℕ → ℕ) : ℕ → ℕ
  | 0 => f 0
  | j + 1 => grantedAfter n f j + reused n (grantedAfter n f j) (f (j + 1))

theorem min_le_grantedAfter (n : ℕ) (f : ℕ → ℕ) (j : ℕ) :
    min n (∑ i ∈ Finset.range (j + 1), f i) ≤ grantedAfter n f j := by
  induction j with
  | zero => simp [grantedAfter]
  | succ j ih =>
    rw [Finset.sum_range_succ, grantedAfter]
    unfold reused
    split_ifs <;> omega

theorem grantedAfter_le (n : ℕ) (f : ℕ → ℕ) (j : ℕ) :
    grantedAfter n f j ≤ ∑ i ∈ Finset.range (j + 1), f i := by
  induction j with
  | zero => simp [grantedAfter]
  | succ j ih =>
    have hle := reused_le n (grantedAfter n f j) (f (j + 1))
    rw [Finset.sum_range_succ, grantedAfter]
    omega

theorem grantedAfter_eq_min_iff {n : ℕ} {f : ℕ → ℕ} (hf : f 0 < n) (j : ℕ) :
    grantedAfter n f j = min n (∑ i ∈ Finset.range (j + 1), f i) ↔
      ∀ k, 1 ≤ k → k ≤ j → n ≤ ∑ i ∈ Finset.range k, f i → f k = 0 := by
  induction j with
  | zero =>
    constructor
    · intro _ k hk hk0
      omega
    · intro _
      have hone : ∑ i ∈ Finset.range (0 + 1), f i = f 0 := Finset.sum_range_one f
      rw [grantedAfter, hone]
      omega
  | succ j ih =>
    have hlow := min_le_grantedAfter n f j
    have hhigh := grantedAfter_le n f j
    have hstep : grantedAfter n f (j + 1) = min n (∑ i ∈ Finset.range (j + 2), f i) ↔
        grantedAfter n f j = min n (∑ i ∈ Finset.range (j + 1), f i) ∧
          (n ≤ ∑ i ∈ Finset.range (j + 1), f i → f (j + 1) = 0) := by
      rw [Finset.sum_range_succ _ (j + 1), grantedAfter]
      unfold reused
      split_ifs with hmet
      · constructor
        · intro h
          exact ⟨by omega, by omega⟩
        · rintro ⟨h, hz⟩
          have hzero := hz (by omega)
          omega
      · constructor
        · intro h
          exact ⟨by omega, by omega⟩
        · rintro ⟨h, hz⟩
          omega
    rw [hstep, ih]
    constructor
    · rintro ⟨hbefore, hlast⟩ k hk hkj
      by_cases hk' : k = j + 1
      · subst hk'
        exact hlast
      · exact hbefore k hk (by omega)
    · intro h
      exact ⟨fun k hk hkj => h k hk (by omega), h (j + 1) (by omega) le_rfl⟩

section Pass
variable (s : Drained P) (permit : UInt32) (index : Fin P)

theorem pass_permits_of_ne {i : Fin P} (hi : i ≠ index) :
    (s.pass permit index).permits i = s.permits i :=
  Function.update_of_ne hi _ _

theorem pass_permits_self :
    ((s.pass permit index).permits index).toNat =
      (reuseSlot permit (s.permits index).toNat s.acquired).1 := by
  have hle := reuseSlot_le permit (s.permits index).toNat s.acquired
  have hlt := (s.permits index).toNat_lt
  simp only [Drained.pass, Function.update_self]
  exact UInt32.toNat_ofNat_of_lt' (by simp only [UInt32.size]; omega)

theorem pass_permits_le (i : Fin P) : (s.pass permit index).permits i ≤ s.permits i := by
  by_cases hi : i = index
  · subst hi
    rw [UInt32.le_iff_toNat_le, pass_permits_self]
    exact reuseSlot_le _ _ _
  · rw [pass_permits_of_ne s permit index hi]
    exact UInt32.le_refl _

theorem pass_acquired (hsum : total s.permits + s.acquired.toNat < 2 ^ 32) :
    (s.pass permit index).acquired.toNat =
      s.acquired.toNat + reused permit.toNat s.acquired.toNat (s.permits index).toNat := by
  have hle := le_total s.permits index
  exact (reuseSlot_spec permit (by omega)).2

theorem pass_total (hsum : total s.permits + s.acquired.toNat < 2 ^ 32) :
    total (s.pass permit index).permits + (s.pass permit index).acquired.toNat =
      total s.permits + s.acquired.toNat := by
  have hle := le_total s.permits index
  have hself := pass_permits_self s permit index
  have hleft := (reuseSlot_spec permit (k := (s.permits index).toNat) (a := s.acquired)
    (by omega)).1
  have hupd : total (s.pass permit index).permits + (s.permits index).toNat =
      total s.permits + ((s.pass permit index).permits index).toNat := by
    simp only [Drained.pass, Function.update_self]
    exact total_update _ _ _
  rw [pass_acquired s permit index hsum]
  omega

end Pass

section Past
variable (permit : UInt32) (idx : Fin P) {start : Drained P}

theorem reusePast_of_ne {j : ℕ} {i : Fin P} (hi : ∀ k, 1 ≤ k → k ≤ j → i ≠ back idx k) :
    (reusePast permit idx start j).permits i = start.permits i := by
  induction j with
  | zero => rfl
  | succ j ih =>
    rw [reusePast, pass_permits_of_ne _ _ _ (hi (j + 1) (by omega) le_rfl)]
    exact ih fun k hk hkj => hi k hk (by omega)

theorem reusePast_le (j : ℕ) (i : Fin P) :
    (reusePast permit idx start j).permits i ≤ start.permits i := by
  induction j with
  | zero => exact UInt32.le_refl _
  | succ j ih => exact UInt32.le_trans (pass_permits_le _ _ _ i) ih

theorem reusePast_total (hsum : total start.permits + start.acquired.toNat < 2 ^ 32) (j : ℕ) :
    total (reusePast permit idx start j).permits + (reusePast permit idx start j).acquired.toNat =
      total start.permits + start.acquired.toNat := by
  induction j with
  | zero => rfl
  | succ j ih =>
    rw [reusePast, pass_total _ _ _ (by omega)]
    exact ih

theorem reusePast_acquired {f : ℕ → ℕ} (hf : f 0 = start.acquired.toNat)
    (hsum : total start.permits + start.acquired.toNat < 2 ^ 32) {j : ℕ} (hj : j < P)
    (hfs : ∀ k, 1 ≤ k → k ≤ j → f k = (start.permits (back idx k)).toNat) :
    (reusePast permit idx start j).acquired.toNat = grantedAfter permit.toNat f j := by
  induction j with
  | zero => exact hf.symm
  | succ j ih =>
    have hkept : (reusePast permit idx start j).permits (back idx (j + 1)) =
        start.permits (back idx (j + 1)) := by
      apply reusePast_of_ne permit idx
      intro k hk hkj he
      have hsame := back_injOn hj (by omega) he
      omega
    have htotal := reusePast_total permit idx hsum j
    rw [reusePast, pass_acquired _ _ _ (by omega), hkept, ← hfs (j + 1) (by omega) le_rfl,
      ih (by omega) (fun k hk hkj => hfs k hk (by omega)), grantedAfter]

end Past

section Acquire
variable {l : RateLimiter P} {idx : Fin P} {permit : UInt32}

theorem acquire_fast (h : permit ≤ l.permits idx) :
    (l.acquire idx permit).1.permits =
        Function.update l.permits idx (l.permits idx - permit) ∧
      (l.acquire idx permit).2 = permit := by
  rw [acquire, if_pos h]
  exact ⟨rfl, rfl⟩

def emptied (l : RateLimiter P) (idx : Fin P) : Drained P :=
  { permits := Function.update l.permits idx 0, acquired := l.permits idx }

-- an empty slot is left alone, which is the same as draining it
theorem acquire_slow (h : ¬ permit ≤ l.permits idx) :
    (l.acquire idx permit).1.permits =
        (reusePast permit idx (l.emptied idx) (P / 2)).permits ∧
      (l.acquire idx permit).2 = (reusePast permit idx (l.emptied idx) (P / 2)).acquired := by
  rw [acquire, if_neg h]
  by_cases hpos : 0 < l.permits idx
  · rw [if_pos hpos]
    exact ⟨rfl, rfl⟩
  · have hzero : l.permits idx = 0 := by
      apply UInt32.toNat_inj.mp
      have hn : ¬ 0 < (l.permits idx).toNat := fun h => hpos (UInt32.lt_iff_toNat_lt.mpr h)
      rw [UInt32.toNat_zero]
      omega
    have hsame : l.emptied idx = ⟨l.permits, 0⟩ := by
      rw [emptied, hzero, ← hzero, Function.update_eq_self]
    rw [if_neg hpos, hsame]
    exact ⟨rfl, rfl⟩

theorem acquire_partition : (l.acquire idx permit).1.partition = l.partition := by
  unfold acquire
  split_ifs <;> rfl

theorem acquire_permits_le (i : Fin P) : (l.acquire idx permit).1.permits i ≤ l.permits i := by
  by_cases h : permit ≤ l.permits idx
  · have hle : l.permits idx - permit ≤ l.permits idx := by
      rw [UInt32.le_iff_toNat_le, UInt32.toNat_sub_of_le _ _ h]
      exact Nat.sub_le _ _
    rw [(acquire_fast h).1]
    exact update_le hle i
  · rw [(acquire_slow h).1]
    exact UInt32.le_trans (reusePast_le permit idx _ i) (update_le UInt32.zero_le i)

theorem acquire_permits_of_ne {i : Fin P} (hi : ∀ k ≤ P / 2, i ≠ back idx k) :
    (l.acquire idx permit).1.permits i = l.permits i := by
  have hidx : i ≠ idx := by
    have h := hi 0 (Nat.zero_le _)
    rwa [back_zero] at h
  by_cases h : permit ≤ l.permits idx
  · rw [(acquire_fast h).1, Function.update_of_ne hidx]
  · rw [(acquire_slow h).1, reusePast_of_ne permit idx fun k _ hk => hi k hk]
    exact Function.update_of_ne hidx _ _

theorem emptied_total : total (l.emptied idx).permits + (l.emptied idx).acquired.toNat =
    total l.permits := by
  have h := total_update l.permits idx 0
  rwa [UInt32.toNat_zero, Nat.add_zero] at h

theorem acquire_total (hsum : total l.permits < 2 ^ 32) :
    total (l.acquire idx permit).1.permits + (l.acquire idx permit).2.toNat =
      total l.permits := by
  by_cases h : permit ≤ l.permits idx
  · have hupd := total_update l.permits idx (l.permits idx - permit)
    have hle := UInt32.le_iff_toNat_le.mp h
    rw [UInt32.toNat_sub_of_le _ _ h] at hupd
    rw [(acquire_fast h).1, (acquire_fast h).2]
    omega
  · rw [(acquire_slow h).1, (acquire_slow h).2,
      reusePast_total permit idx (by rw [emptied_total]; exact hsum), emptied_total]

theorem acquire_returned (h : ¬ permit ≤ l.permits idx) (hsum : total l.permits < 2 ^ 32) :
    (l.acquire idx permit).2.toNat =
      grantedAfter permit.toNat (fun k => (l.permits (back idx k)).toNat) (P / 2) := by
  have hP : 0 < P := Nat.zero_lt_of_lt idx.isLt
  rw [(acquire_slow h).2]
  apply reusePast_acquired permit idx
  · simp only [back_zero, emptied]
  · rw [emptied_total]
    exact hsum
  · omega
  · intro k hk hkP
    have hne : back idx k ≠ idx := by
      intro he
      have hsame := back_injOn (j := k) (k := 0) (by omega) hP (by rw [back_zero, he])
      omega
    simp only [emptied, Function.update_of_ne hne]

end Acquire

/-- A limiter as the constructor made it for `permit`, no slot holding more than its quota. -/
structure WithinQuota (l : RateLimiter P) (permit : UInt32) : Prop where
  partition : l.partition = (new P permit).partition
  permits : ∀ i, l.permits i ≤ l.partition i

theorem WithinQuota.total_lt {l : RateLimiter P} {permit : UInt32} (h : l.WithinQuota permit)
    (hP : 0 < P) : total l.permits < 2 ^ 32 := by
  have hle : total l.permits ≤ total l.partition := total_mono h.permits
  rw [h.partition, total_partition hP] at hle
  exact Nat.lt_of_le_of_lt hle permit.toNat_lt

structure GrantsAvailable (l : RateLimiter P) (idx : Fin P) (n : UInt32) : Prop where
  returned : (l.acquire idx n).2.toNat = min n.toNat (l.available idx).toNat
  accounted : total (l.acquire idx n).1.permits + (l.acquire idx n).2.toNat = total l.permits
  window : ∀ i, (∀ k ≤ P / 2, i ≠ back idx k) → (l.acquire idx n).1.permits i = l.permits i
  noWrap : ∀ i, (l.acquire idx n).1.permits i ≤ l.permits i

/-- A request gets what is available unless a slot with permits comes after the ones that
meet it: each such slot gives one permit too many. -/
theorem acquire_grants_available_iff {l : RateLimiter P} {permit : UInt32}
    (h : l.WithinQuota permit) (idx : Fin P) (n : UInt32) :
    l.GrantsAvailable idx n ↔
      n ≤ l.permits idx ∨ ∀ k, 1 ≤ k → k ≤ P / 2 →
        n.toNat ≤ ∑ i ∈ Finset.range k, (l.permits (back idx i)).toNat →
          l.permits (back idx k) = 0 := by
  have hP : 0 < P := Nat.zero_lt_of_lt idx.isLt
  have hsum : total l.permits < 2 ^ 32 := h.total_lt hP
  have havail := availableIn_toNat idx hsum (show P / 2 + 1 ≤ P by omega)
  have hreturned : (l.acquire idx n).2.toNat = min n.toNat (l.available idx).toNat ↔
      n ≤ l.permits idx ∨ ∀ k, 1 ≤ k → k ≤ P / 2 →
        n.toNat ≤ ∑ i ∈ Finset.range k, (l.permits (back idx i)).toNat →
          l.permits (back idx k) = 0 := by
    rw [available, havail]
    by_cases hfast : n ≤ l.permits idx
    · have hfirst : (l.permits (back idx 0)).toNat ≤
          ∑ i ∈ Finset.range (P / 2 + 1), (l.permits (back idx i)).toNat :=
        Finset.single_le_sum (f := fun i => (l.permits (back idx i)).toNat)
          (fun _ _ => Nat.zero_le _) (Finset.mem_range.mpr (by omega))
      have hle := UInt32.le_iff_toNat_le.mp hfast
      rw [back_zero] at hfirst
      rw [(acquire_fast hfast).2]
      exact ⟨fun _ => .inl hfast, fun _ => by omega⟩
    · have hlt : (l.permits (back idx 0)).toNat < n.toNat := by
        rw [back_zero]
        exact UInt32.lt_iff_toNat_lt.mp (UInt32.not_le.mp hfast)
      rw [acquire_returned hfast hsum, or_iff_right hfast]
      simp only [← UInt32.toNat_inj, UInt32.toNat_zero]
      exact grantedAfter_eq_min_iff hlt (P / 2)
  constructor
  · intro hg
    exact hreturned.mp hg.returned
  · intro hc
    exact ⟨hreturned.mpr hc, acquire_total hsum, fun i hi => acquire_permits_of_ne hi,
      acquire_permits_le⟩

def twoLeft : RateLimiter 10 :=
  { new 10 100 with permits := fun i => if 8 ≤ i.val then 1 else 0 }

theorem acquire_grants_two_of_two : twoLeft.GrantsAvailable 0 2 := by
  have hquota : twoLeft.WithinQuota 100 := ⟨rfl, by decide⟩
  have hempty : ∀ k ≤ 5, 1 ≤ k →
      2 ≤ ∑ i ∈ Finset.range k, (twoLeft.permits (back 0 i)).toNat →
        twoLeft.permits (back 0 k) = 0 := by decide
  exact (acquire_grants_available_iff hquota 0 2).mpr (.inr fun k hk hk' => hempty k hk' hk)

theorem acquire_one_returns_two :
    twoLeft.WithinQuota 100 ∧ twoLeft.available 0 = 2 ∧ (twoLeft.acquire 0 1).2 = 2 ∧
      ¬ twoLeft.GrantsAvailable 0 1 := by
  refine ⟨⟨rfl, by decide⟩, by decide, by decide, ?_⟩
  intro h
  exact absurd h.returned (by decide)

end RateLimiter
end RocketMQClient
