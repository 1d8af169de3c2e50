import RocketMQClient.Codec
import RocketMQClient.Histogram

/-!
# The latency of a received message

Once a message is decoded, `wrapMessage` counts how long ago it was stored in a histogram of
eleven buckets of 20 ms. Both times are milliseconds; their difference is cut to 32 bits, and
only then compared with zero. `UnixMillis` stands for `absl::ToUnixMillis`, of which a time that
64 bits of milliseconds hold is all that is fixed.
-/

namespace RocketMQClient
open Histogram

def latencyLabels : List String :=
  ["[000ms~020ms): ", "[020ms~040ms): ", "[040ms~060ms): ", "[060ms~080ms): ",
    "[080ms~100ms): ", "[100ms~120ms): ", "[120ms~140ms): ", "[140ms~160ms): ",
    "[160ms~180ms): ", "[180ms~200ms): ", "[200ms~inf): "]

def latencyHistogram : Histogram 11 := .new 11 "Message-Latency" latencyLabels

structure UnixMillis where
  toUnixMillis : ℤ → ℤ
  toUnixMillis_eq : ∀ {t : ℤ}, -2 ^ 63 ≤ t / 10 ^ 6 → t / 10 ^ 6 < 2 ^ 63 →
    toUnixMillis t = t / 10 ^ 6

def UnixMillis.saturating : UnixMillis where
  toUnixMillis t := max (-2 ^ 63) (min (2 ^ 63 - 1) (t / 10 ^ 6))
  toUnixMillis_eq hge hlt := by omega

section Model
variable (clock : UnixMillis)

def MQMessage.getStoreTimestamp (m : MQMessageExt) : ℤ :=
  clock.toUnixMillis m.impl.systemAttribute.storeTimestamp

/-- There is no result if the difference overflows 64 bits. -/
def countLatency (now store : ℤ) (h : Histogram 11) : Option (Histogram 11) :=
  if -2 ^ 63 ≤ now - store ∧ now - store < 2 ^ 63 then
    let elapsed := (Int32.ofInt (now - store)).toInt
    if 0 ≤ elapsed then some (h.countIn (elapsed.tdiv 20)) else some h
  else none

def wrapMessageLatency (z : Zlib) (d : Digests) (resourceNamespace : String) (env : Surroundings)
    (now : ℤ) (item : rmq.Message) (ext : MQMessageExt) (h : Histogram 11) :
    Option (Decoded × Histogram 11) :=
  match wrapMessage z d resourceNamespace env item ext with
  | .accepted message =>
    (countLatency (clock.toUnixMillis now) (message.getStoreTimestamp clock) h).map fun h' =>
      (.accepted message, h')
  | decoded => some (decoded, h)

def storeMillis (item : rmq.Message) : ℤ :=
  clock.toUnixMillis ((item.systemAttribute.storeTimestamp.map timeOf).getD 0)

end Model

def ownBucket (elapsed : ℤ) : Fin 11 := ⟨min (elapsed / 20).toNat 10, by omega⟩

def CountedInOwnBucket (now store : ℤ) (h h' : Histogram 11) : Prop :=
  (store ≤ now → h' = h.fetchAdd (ownBucket (now - store)) 1) ∧ (now < store → h' = h)

/-- The cut to 32 bits keeps the sign of the time elapsed and its bucket. -/
def ElapsedKept (elapsed : ℤ) : Prop :=
  (0 ≤ elapsed ∧ (elapsed < 2 ^ 31 ∨
    elapsed < 2 ^ 63 ∧ 200 ≤ elapsed % 2 ^ 32 ∧ elapsed % 2 ^ 32 < 2 ^ 31)) ∨
  (elapsed < 0 ∧ -2 ^ 63 ≤ elapsed ∧ 2 ^ 31 ≤ elapsed % 2 ^ 32)

theorem getStoreTimestamp_of_accepted (clock : UnixMillis) {z : Zlib} {d : Digests}
    {resourceNamespace : String} {env : Surroundings} {item : rmq.Message} {host : String}
    {message : MQMessageExt}
    (h : wrapMessage z d resourceNamespace env item (freshMessage env host) = .accepted message) :
    message.getStoreTimestamp clock = storeMillis clock item := by
  rw [wrapMessage] at h
  split_ifs at h
  cases h
  rfl

theorem wrapMessageLatency_of_accepted (clock : UnixMillis) {z : Zlib} {d : Digests}
    {resourceNamespace : String} {env : Surroundings} {item : rmq.Message} {host : String}
    {message : MQMessageExt}
    (hm : wrapMessage z d resourceNamespace env item (freshMessage env host) = .accepted message)
    (now : ℤ) (h : Histogram 11) :
    wrapMessageLatency clock z d resourceNamespace env now item (freshMessage env host) h =
      (countLatency (clock.toUnixMillis now) (storeMillis clock item) h).map fun h' =>
        (.accepted message, h') := by
  rw [wrapMessageLatency, hm, ← getStoreTimestamp_of_accepted clock hm]

theorem toInt_elapsed (elapsed : ℤ) :
    (Int32.ofInt elapsed).toInt =
      if elapsed % 2 ^ 32 < 2 ^ 31 then elapsed % 2 ^ 32 else elapsed % 2 ^ 32 - 2 ^ 32 := by
  rw [Int32.toInt_ofInt, Int.bmod_def]
  rfl

theorem countIn_of_nonneg (h : Histogram 11) {elapsed : ℤ} (hpos : 0 ≤ elapsed) :
    h.countIn (elapsed.tdiv 20) = h.fetchAdd (ownBucket elapsed) 1 := by
  have hdiv : elapsed.tdiv 20 = elapsed / 20 := Int.tdiv_eq_ediv_of_nonneg hpos
  obtain ⟨i, hi, hval⟩ := bucket_of_nonneg 11 (show 0 ≤ elapsed / 20 by omega)
  rw [hdiv, countIn, hi, show i = ownBucket elapsed from Fin.ext hval]

theorem countLatency_of_lt {now store : ℤ} (h : Histogram 11)
    (hfits : -2 ^ 63 ≤ now - store ∧ now - store < 2 ^ 63)
    (hsign : (now - store) % 2 ^ 32 < 2 ^ 31) :
    countLatency now store h =
      some (h.fetchAdd (ownBucket ((now - store) % 2 ^ 32)) 1) := by
  have hpos : 0 ≤ (now - store) % 2 ^ 32 := Int.emod_nonneg _ (by decide)
  simp only [countLatency, if_pos hfits, toInt_elapsed, if_pos hsign, if_pos hpos,
    countIn_of_nonneg h hpos]

theorem countLatency_of_ge {now store : ℤ} (h : Histogram 11)
    (hfits : -2 ^ 63 ≤ now - store ∧ now - store < 2 ^ 63)
    (hsign : 2 ^ 31 ≤ (now - store) % 2 ^ 32) : countLatency now store h = some h := by
  have hlt : (now - store) % 2 ^ 32 < 2 ^ 32 := Int.emod_lt_of_pos _ (by decide)
  simp only [countLatency, if_pos hfits, toInt_elapsed, if_neg (not_lt.mpr hsign)]
  exact if_neg (by omega)

theorem ownBucket_emod_iff {elapsed : ℤ} (hpos : 0 ≤ elapsed) :
    ownBucket (elapsed % 2 ^ 32) = ownBucket elapsed ↔
      elapsed < 2 ^ 32 ∨ 200 ≤ elapsed % 2 ^ 32 := by
  rw [Fin.ext_iff]
  simp only [ownBucket]
  omega

section OwnBucket
variable {now store : ℤ} {h h' : Histogram 11}

theorem countedInOwnBucket_of_le (hle : store ≤ now) :
    CountedInOwnBucket now store h h' ↔ h' = h.fetchAdd (ownBucket (now - store)) 1 := by
  simp [CountedInOwnBucket, hle, not_lt.mpr hle]

theorem countedInOwnBucket_of_lt (hlt : now < store) :
    CountedInOwnBucket now store h h' ↔ h' = h := by
  simp [CountedInOwnBucket, hlt, not_le.mpr hlt]

theorem countLatency_own_iff :
    (∃ h', countLatency now store h = some h' ∧ CountedInOwnBucket now store h h') ↔
      ElapsedKept (now - store) := by
  by_cases hfits : -2 ^ 63 ≤ now - store ∧ now - store < 2 ^ 63
  · by_cases hsign : (now - store) % 2 ^ 32 < 2 ^ 31
    · simp only [countLatency_of_lt h hfits hsign, Option.some.injEq, exists_eq_left']
      by_cases hle : store ≤ now
      · rw [countedInOwnBucket_of_le hle, fetchAdd_one_inj, ownBucket_emod_iff (by omega),
          ElapsedKept]
        omega
      · rw [countedInOwnBucket_of_lt (not_le.mp hle), ElapsedKept]
        exact iff_of_false (fetchAdd_one_ne h _) (by omega)
    · simp only [countLatency_of_ge h hfits (not_lt.mp hsign), Option.some.injEq, exists_eq_left']
      by_cases hle : store ≤ now
      · rw [countedInOwnBucket_of_le hle, ElapsedKept]
        exact iff_of_false (fetchAdd_one_ne h _).symm (by omega)
      · rw [countedInOwnBucket_of_lt (not_le.mp hle), ElapsedKept]
        exact iff_of_true rfl (by omega)
  · have hnone : countLatency now store h = none := if_neg hfits
    rw [hnone, ElapsedKept]
    exact iff_of_false (by simp) (by omega)

end OwnBucket

theorem latency_counted_in_own_bucket_iff (clock : UnixMillis) {z : Zlib} {d : Digests}
    {resourceNamespace : String} {env : Surroundings} {item : rmq.Message} {host : String}
    {message : MQMessageExt}
    (haccepted :
      wrapMessage z d resourceNamespace env item (freshMessage env host) = .accepted message)
    (now : ℤ) (h : Histogram 11) :
    (∃ h', wrapMessageLatency clock z d resourceNamespace env now item (freshMessage env host) h =
          some (.accepted message, h') ∧
        CountedInOwnBucket (clock.toUnixMillis now) (storeMillis clock item) h h') ↔
      ElapsedKept (clock.toUnixMillis now - storeMillis clock item) := by
  rw [← countLatency_own_iff (h := h), wrapMessageLatency_of_accepted clock haccepted]
  simp

theorem latency_of_recent_message :
    ∃ message h',
      wrapMessageLatency .saturating .stored .zero "" {} 1045000000
          { systemAttribute := { storeTimestamp := some { seconds := 1 } } } (freshMessage {} "")
          latencyHistogram = some (.accepted message, h') ∧
        CountedInOwnBucket 1045 1000 latencyHistogram h' := by
  refine ⟨_, (latency_counted_in_own_bucket_iff .saturating (z := .stored) (d := .zero) rfl
    1045000000 latencyHistogram).mpr ?_⟩
  exact Or.inl ⟨by decide, Or.inl (by decide)⟩

theorem latency_of_undated_message :
    (∀ clock : UnixMillis, ∃ message,
      wrapMessageLatency clock .stored .zero "" {} (1700000000000 * 10 ^ 6) {}
        (freshMessage {} "") latencyHistogram = some (.accepted message, latencyHistogram)) ∧
    (∀ clock : UnixMillis, storeMillis clock {} = 0) ∧
    (∀ clock : UnixMillis, clock.toUnixMillis (1700000000000 * 10 ^ 6) = 1700000000000) ∧
      ¬ CountedInOwnBucket 1700000000000 0 latencyHistogram latencyHistogram := by
  have hstore : ∀ clock : UnixMillis, storeMillis clock {} = 0 :=
    fun clock => clock.toUnixMillis_eq (by decide) (by decide)
  have hnow : ∀ clock : UnixMillis,
      clock.toUnixMillis (1700000000000 * 10 ^ 6) = 1700000000000 :=
    fun clock => clock.toUnixMillis_eq (by decide) (by decide)
  have haccepted : ∃ message,
      wrapMessage .stored .zero "" {} {} (freshMessage {} "") = .accepted message := ⟨_, rfl⟩
  obtain ⟨message, hmessage⟩ := haccepted
  refine ⟨fun clock => ⟨message, ?_⟩, hstore, hnow, ?_⟩
  · rw [wrapMessageLatency_of_accepted clock hmessage, hnow, hstore,
      countLatency_of_ge latencyHistogram (by decide) (by decide)]
    rfl
  · rw [countedInOwnBucket_of_le (by decide)]
    exact (fetchAdd_one_ne latencyHistogram _).symm

end RocketMQClient
