import Mathlib.Algebra.Order.Ring.Nat
import Mathlib.Tactic.Ring
import RocketMQClient.RateLimiter

/-!
# The thread that refills the rate limiters

One thread calls `tick()` on each subscribed limiter in turn and then sleeps. Here a sleep
takes exactly its nominal time and all other code none, so the instants of the ticks are
known; time is counted in nanoseconds. Both `tick()` and the loop sleep for the length of
a slot, which makes the period of a limiter one slot for each member and one more. With it
no limiter is ticked in two consecutive slots, and a second is over before the slots left
out in the first round could be met.
-/

namespace RocketMQClient
namespace RateLimiterObserver

/-- `sleep_for(milliseconds(1000 / PARTITION))` in `tick()`, with ten partitions. -/
def tickSleep : ℕ := 1000 / 10 * 1000000

def loopSleep : ℕ := 100 * 1000000

structure Observed where
  now : ℕ
  ticks : List (ℕ × ℕ)

/-- The inner loop, over the first `k` members. A tick refills after its sleep. -/
def tickMembers (o : Observed) : ℕ → Observed
  | 0 => o
  | k + 1 =>
    let done := tickMembers o k
    { now := done.now + tickSleep, ticks := done.ticks ++ [(k, done.now + tickSleep)] }

def observe (start m : ℕ) : ℕ → Observed
  | 0 => { now := start, ticks := [] }
  | r + 1 =>
    let done := tickMembers (observe start m r) m
    { done with now := done.now + loopSleep }

theorem tickMembers_now (o : Observed) (k : ℕ) :
    (tickMembers o k).now = o.now + k * tickSleep := by
  induction k with
  | zero => simp [tickMembers]
  | succ k ih =>
    rw [tickMembers, ih]
    ring

theorem mem_tickMembers {o : Observed} {k i t : ℕ} :
    (i, t) ∈ (tickMembers o k).ticks ↔
      (i, t) ∈ o.ticks ∨ i < k ∧ t = o.now + (i + 1) * tickSleep := by
  induction k with
  | zero => simp [tickMembers]
  | succ k ih =>
    rw [tickMembers, List.mem_append, ih, List.mem_singleton, Prod.mk.injEq, tickMembers_now]
    constructor
    · rintro ((hold | ⟨hi, ht⟩) | ⟨rfl, rfl⟩)
      · exact .inl hold
      · exact .inr ⟨by omega, ht⟩
      · exact .inr ⟨by omega, by ring⟩
    · rintro (hold | ⟨hi, ht⟩)
      · exact .inl (.inl hold)
      · by_cases hik : i = k
        · subst hik
          exact .inr ⟨rfl, by rw [ht]; ring⟩
        · exact .inl (.inr ⟨by omega, ht⟩)

theorem observe_now (start m r : ℕ) :
    (observe start m r).now = start + r * (m + 1) * tickSleep := by
  induction r with
  | zero => simp [observe]
  | succ r ih =>
    have hsame : loopSleep = tickSleep := rfl
    simp only [observe, tickMembers_now, ih, hsame]
    ring

def instant (start m k q : ℕ) : ℕ := start + (q * (m + 1) + (k + 1)) * tickSleep

theorem mem_observe {start m r k t : ℕ} :
    (k, t) ∈ (observe start m r).ticks ↔ k < m ∧ ∃ q < r, t = instant start m k q := by
  induction r with
  | zero => simp [observe]
  | succ r ih =>
    have hlast : (observe start m r).now + (k + 1) * tickSleep = instant start m k r := by
      rw [observe_now, instant]
      ring
    rw [observe, mem_tickMembers, ih, hlast]
    constructor
    · rintro (⟨hk, q, hq, ht⟩ | ⟨hk, ht⟩)
      · exact ⟨hk, q, by omega, ht⟩
      · exact ⟨hk, r, by omega, ht⟩
    · rintro ⟨hk, q, hq, ht⟩
      by_cases hqr : q = r
      · subst hqr
        exact .inr ⟨hk, ht⟩
      · exact .inl ⟨hk, q, by omega, ht⟩

theorem instant_add (start m k q d : ℕ) :
    instant start m k (q + d) = instant start m k q + d * (m + 1) * tickSleep := by
  unfold instant
  ring

theorem exists_instant_ge (start m k w : ℕ) : ∃ q, w ≤ instant start m k q := by
  refine ⟨w, ?_⟩
  have hw : w ≤ w * (m + 1) + (k + 1) :=
    (Nat.le_mul_of_pos_right w (Nat.succ_pos m)).trans (Nat.le_add_right _ _)
  have hscaled : w ≤ (w * (m + 1) + (k + 1)) * tickSleep :=
    hw.trans (Nat.le_mul_of_pos_right _ (by decide))
  exact hscaled.trans (Nat.le_add_left _ _)

def slotAt (t : ℕ) : Fin 10 := RateLimiter.slot 10 (t / 1000000)

theorem slotAt_add (t d : ℕ) : (slotAt (t + d * tickSleep)).val = ((slotAt t).val + d) % 10 := by
  simp only [slotAt, RateLimiter.slot, Fin.ofNat, tickSleep]
  omega

def second : ℕ := 1000 * 1000000

/-- Member `k` of `m` is ticked in slot `i` within the second that begins at `w`. -/
def RefilledIn (start m k w : ℕ) (i : Fin 10) : Prop :=
  ∃ r t, (k, t) ∈ (observe start m r).ticks ∧ w ≤ t ∧ t ≤ w + second ∧ slotAt t = i

def refilled (p : UInt32) (start m k w r : ℕ) : ℕ :=
  ((observe start m r).ticks.filter fun x => x.1 = k ∧ w ≤ x.2 ∧ x.2 ≤ w + second).map
    (fun x => ((RateLimiter.new 10 p).partition (slotAt x.2)).toNat) |>.sum

structure ReachesRate (p : UInt32) (start m k w : ℕ) : Prop where
  everySlot : ∀ i, RefilledIn start m k w i
  total : ∃ r, p.toNat ≤ refilled p start m k w r

theorem exists_not_refilledIn (start w : ℕ) {m k : ℕ} (hk : k < m) :
    ∃ i, ¬ RefilledIn start m k w i := by
  have hsome := exists_instant_ge start m k w
  obtain ⟨first, hfirst, hmin⟩ : ∃ first, w ≤ instant start m k first ∧
      ∀ q, w ≤ instant start m k q → first ≤ q :=
    ⟨Nat.find hsome, Nat.find_spec hsome, fun q hq => Nat.find_min' hsome hq⟩
  let i := slotAt (instant start m k first)
  refine ⟨⟨(i.val + 1) % 10, Nat.mod_lt _ (by decide)⟩, ?_⟩
  rintro ⟨r, t, hmem, hwt, htw, hslot⟩
  obtain ⟨-, q, -, rfl⟩ := mem_observe.mp hmem
  obtain ⟨d, rfl⟩ := Nat.exists_eq_add_of_le (hmin q hwt)
  have hwithin : d * (m + 1) ≤ 10 := by
    have hsecond : second = 10 * tickSleep := rfl
    have hspan : d * (m + 1) * tickSleep ≤ 10 * tickSleep := by
      rw [instant_add] at htw
      omega
    exact Nat.le_of_mul_le_mul_right hspan (by decide)
  have hsame : (i.val + d * (m + 1)) % 10 = (i.val + 1) % 10 := by
    rw [← slotAt_add, ← instant_add, hslot]
  have hone : d * (m + 1) = 1 := by omega
  have hm : m + 1 = 1 := Nat.eq_one_of_mul_eq_one_left hone
  omega

/-- A limiter never reaches its rate: every window of a second leaves a slot out. -/
theorem window_misses_rate (p : UInt32) (start w : ℕ) {m k : ℕ} (hk : k < m) :
    ¬ ReachesRate p start m k w := by
  intro h
  obtain ⟨i, hi⟩ := exists_not_refilledIn start w hk
  exact hi (h.everySlot i)

theorem single_limiter_misses_rate : ¬ ReachesRate 1000 0 1 0 3000000000 :=
  window_misses_rate 1000 0 3000000000 (by decide)

theorem single_limiter_refills_half :
    (observe 0 1 6).ticks = [(0, 100000000), (0, 300000000), (0, 500000000), (0, 700000000),
      (0, 900000000), (0, 1100000000)] ∧
    refilled 1000 0 1 0 0 6 = 500 ∧ ¬ RefilledIn 0 1 0 0 0 ∧ ¬ ReachesRate 1000 0 1 0 0 := by
  have hodd : ¬ RefilledIn 0 1 0 0 0 := by
    rintro ⟨r, t, hmem, -, -, hslot⟩
    obtain ⟨-, q, -, ht⟩ := mem_observe.mp hmem
    have hval := slotAt_add 0 (q * (1 + 1) + (0 + 1))
    have hinstant : 0 + (q * (1 + 1) + (0 + 1)) * tickSleep = t := ht.symm
    rw [hinstant, hslot] at hval
    have hzero : (slotAt 0).val = 0 := by decide
    rw [hzero, Fin.val_zero] at hval
    omega
  exact ⟨by decide, by decide, hodd, fun h => hodd (h.everySlot 0)⟩

end RateLimiterObserver
end RocketMQClient
