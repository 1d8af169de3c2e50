import RocketMQClient.PublishInfo
import RocketMQClient.Library.RoundRobin
import Mathlib.Data.Finset.Card

/-!
# Candidate queues in round robin

What `takeMessageQueues` gives for every value of its counter. The candidates
are the first free queues of distinct brokers on the walk round the partitions,
up to the number that is asked for. The counter is a 32-bit word, so the walk may
leave partitions out where the counter wraps.
-/

namespace RocketMQClient.TopicPublishInfo
open RoundRobin

def takeResult (isolated : List String) (count : ℕ) :
    List MQMessageQueue → List MQMessageQueue → Bool × List MQMessageQueue
  | [], candidates => (!candidates.isEmpty, candidates)
  | q :: queues, candidates =>
    if isolated.contains q.serviceAddress then takeResult isolated count queues candidates
    else
      let candidates :=
        if candidates.any fun item => item.brokerName == q.brokerName then candidates
        else candidates ++ [q]
      if count ≤ candidates.length then (true, candidates)
      else takeResult isolated count queues candidates

section Loop
variable {isolated : List String} {count : ℕ}

def addQueue (candidates : List MQMessageQueue) (q : MQMessageQueue) : List MQMessageQueue :=
  if candidates.any fun item => item.brokerName == q.brokerName then candidates
  else candidates ++ [q]

def brokerNames (queues : List MQMessageQueue) : List String := queues.map MQMessageQueue.brokerName

theorem addQueue_cases (candidates : List MQMessageQueue) (q : MQMessageQueue) :
    (q.brokerName ∈ brokerNames candidates ∧ addQueue candidates q = candidates) ∨
    (q.brokerName ∉ brokerNames candidates ∧ addQueue candidates q = candidates ++ [q]) := by
  by_cases h : q.brokerName ∈ brokerNames candidates
  · obtain ⟨item, hitem, hname⟩ := List.mem_map.mp h
    exact Or.inl ⟨h, if_pos (List.any_eq_true.mpr ⟨item, hitem, by simp [hname]⟩)⟩
  · refine Or.inr ⟨h, if_neg fun hany => h ?_⟩
    obtain ⟨item, hitem, hname⟩ := List.any_eq_true.mp hany
    exact List.mem_map.mpr ⟨item, hitem, by simpa using hname⟩

theorem brokerName_mem_addQueue (candidates : List MQMessageQueue) (q : MQMessageQueue) :
    q.brokerName ∈ brokerNames (addQueue candidates q) := by
  rcases addQueue_cases candidates q with ⟨hmem, heq⟩ | ⟨-, heq⟩
  · rw [heq]
    exact hmem
  · simp [heq, brokerNames]

theorem takeLoop_cons_of_free {q : MQMessageQueue} (hq : isolated.contains q.serviceAddress = false)
    (queues candidates : List MQMessageQueue) :
    takeLoop isolated count (q :: queues) candidates =
      if count ≤ (addQueue candidates q).length then addQueue candidates q
      else takeLoop isolated count queues (addQueue candidates q) := by
  rw [takeLoop, if_neg (Bool.eq_false_iff.mp hq)]
  rfl

theorem takeLoop_cons_of_isolated {q : MQMessageQueue}
    (hq : isolated.contains q.serviceAddress = true) (queues candidates : List MQMessageQueue) :
    takeLoop isolated count (q :: queues) candidates =
      takeLoop isolated count queues candidates := by
  rw [takeLoop, if_pos hq]

theorem takeResult_eq (hcount : 1 ≤ count) (queues candidates : List MQMessageQueue) :
    takeResult isolated count queues candidates =
      (!(takeLoop isolated count queues candidates).isEmpty,
        takeLoop isolated count queues candidates) := by
  induction queues generalizing candidates with
  | nil => rfl
  | cons q queues ih =>
    cases hq : isolated.contains q.serviceAddress with
    | true =>
      rw [takeLoop_cons_of_isolated hq, takeResult, if_pos hq]
      exact ih candidates
    | false =>
      have hround : takeResult isolated count (q :: queues) candidates =
          if count ≤ (addQueue candidates q).length then (true, addQueue candidates q)
          else takeResult isolated count queues (addQueue candidates q) := by
        rw [takeResult, if_neg (Bool.eq_false_iff.mp hq)]
        rfl
      rw [takeLoop_cons_of_free hq, hround]
      by_cases hfull : count ≤ (addQueue candidates q).length
      · have hne : addQueue candidates q ≠ [] := List.ne_nil_of_length_pos (by omega)
        rw [if_pos hfull, if_pos hfull]
        simp [hne]
      · rw [if_neg hfull, if_neg hfull]
        exact ih (addQueue candidates q)

theorem takeLoop_length_le (queues : List MQMessageQueue) {candidates : List MQMessageQueue}
    (h : candidates.length < count) :
    (takeLoop isolated count queues candidates).length ≤ count := by
  induction queues generalizing candidates with
  | nil => exact h.le
  | cons q queues ih =>
    cases hq : isolated.contains q.serviceAddress with
    | true =>
      rw [takeLoop_cons_of_isolated hq]
      exact ih h
    | false =>
      have hlen : (addQueue candidates q).length ≤ candidates.length + 1 := by
        rcases addQueue_cases candidates q with ⟨-, heq⟩ | ⟨-, heq⟩
        · rw [heq]
          omega
        · simp [heq]
      rw [takeLoop_cons_of_free hq]
      split_ifs with hfull
      · omega
      · exact ih (by omega)

theorem takeLoop_nodup (queues : List MQMessageQueue) {candidates : List MQMessageQueue}
    (h : (brokerNames candidates).Nodup) :
    (brokerNames (takeLoop isolated count queues candidates)).Nodup := by
  induction queues generalizing candidates with
  | nil => exact h
  | cons q queues ih =>
    cases hq : isolated.contains q.serviceAddress with
    | true =>
      rw [takeLoop_cons_of_isolated hq]
      exact ih h
    | false =>
      have hadd : (brokerNames (addQueue candidates q)).Nodup := by
        rcases addQueue_cases candidates q with ⟨-, heq⟩ | ⟨hnew, heq⟩
        · rw [heq]
          exact h
        · rw [heq, brokerNames, List.map_append]
          apply List.nodup_append'.mpr
          exact ⟨h, List.nodup_singleton _, by simpa [brokerNames] using hnew⟩
      rw [takeLoop_cons_of_free hq]
      split_ifs
      · exact hadd
      · exact ih hadd

theorem takeLoop_complete (queues candidates : List MQMessageQueue)
    (h : (takeLoop isolated count queues candidates).length < count) {q : MQMessageQueue}
    (hq : q ∈ queues) (hfree : isolated.contains q.serviceAddress = false) :
    q.brokerName ∈ brokerNames (takeLoop isolated count queues candidates) := by
  induction queues generalizing candidates with
  | nil => cases hq
  | cons x queues ih =>
    cases hx : isolated.contains x.serviceAddress with
    | true =>
      have hrest : q ∈ queues := by
        rcases List.mem_cons.mp hq with rfl | hrest
        · rw [hfree] at hx
          cases hx
        · exact hrest
      rw [takeLoop_cons_of_isolated hx] at h ⊢
      exact ih candidates h hrest
    | false =>
      rw [takeLoop_cons_of_free hx] at h ⊢
      split_ifs at h ⊢ with hfull
      · omega
      · rcases List.mem_cons.mp hq with rfl | hrest
        · have hpre := prefix_takeLoop isolated count queues (addQueue candidates q)
          exact (hpre.map _).subset (brokerName_mem_addQueue candidates q)
        · exact ih _ h hrest

end Loop

section Walk
variable {info : TopicPublishInfo} {isolated : List String} {count counter : UInt32}

theorem visited_eq (info : TopicPublishInfo) (counter : UInt32) : info.visited counter =
    (List.range info.partitionList.length).map fun i =>
      (info.partitionList.getD
        (position (2 ^ 32) (counter + 1).toNat info.partitionList.length i) {}).asMessageQueue := by
  rw [visited]
  apply List.map_congr_left
  intro i _
  have hword : (counter + 1 + UInt32.ofNat i).toNat = ((counter + 1).toNat + i) % 2 ^ 32 := by
    rw [UInt32.toNat_add, UInt32.toNat_ofNat', Nat.add_mod_mod]
  rw [position, hword]

theorem mem_visited_of_complete {p : Partition}
    (h : (counter + 1).toNat + info.partitionList.length ≤ 2 ^ 32 ∨
      info.partitionList.length ∣ 2 ^ 32)
    (hp : p ∈ info.partitionList) : p.asMessageQueue ∈ info.visited counter := by
  obtain ⟨j, hj, rfl⟩ := List.mem_iff_getElem.mp hp
  obtain ⟨i, hi, hij⟩ := exists_position h hj
  rw [visited_eq]
  refine List.mem_map.mpr ⟨i, List.mem_range.mpr hi, ?_⟩
  rw [hij, List.getD_eq_getElem _ _ hj]

end Walk

def taken (info : TopicPublishInfo) (isolated : List String) (count counter : UInt32) :
    List MQMessageQueue :=
  (info.takeMessageQueues isolated count.toNat counter).2

def takeReturns (info : TopicPublishInfo) (isolated : List String) (count counter : UInt32) :
    Bool :=
  if info.partitionList.isEmpty then false
  else (takeResult isolated count.toNat (info.visited counter) []).1

structure SoundAndComplete (info : TopicPublishInfo) (isolated : List String)
    (count counter : UInt32) : Prop where
  length_le : (info.taken isolated count counter).length ≤ count.toNat
  listed : ∀ q ∈ info.taken isolated count counter, ∃ p ∈ info.partitionList, p.asMessageQueue = q
  free : ∀ q ∈ info.taken isolated count counter, q.serviceAddress ∉ isolated
  distinct : ((info.taken isolated count counter).map MQMessageQueue.brokerName).Nodup
  complete : (info.taken isolated count counter).length < count.toNat →
    ∀ p ∈ info.partitionList, p.serviceAddress ∉ isolated →
      p.brokerName ∈ (info.taken isolated count counter).map MQMessageQueue.brokerName
  returns : info.takeReturns isolated count counter = true ↔
    info.taken isolated count counter ≠ []

def reachedBrokers (info : TopicPublishInfo) (isolated : List String) (counter : UInt32) :
    Finset String :=
  (brokerNames (info.available isolated counter)).toFinset

def ReachesBrokers (info : TopicPublishInfo) (isolated : List String)
    (count counter : UInt32) : Prop :=
  count.toNat ≤ (info.reachedBrokers isolated counter).card ∨
    ∀ p ∈ info.partitionList, p.serviceAddress ∉ isolated →
      p.brokerName ∈ info.reachedBrokers isolated counter

section Taken
variable {info : TopicPublishInfo} {isolated : List String} {count counter : UInt32}

theorem taken_eq : info.taken isolated count counter =
    takeLoop isolated count.toNat (info.visited counter) [] := by
  have hcount : ((count.toNat : ℤ) % 2 ^ 32).toNat = count.toNat := by
    have hlt := count.toNat_lt
    omega
  rw [taken, takeMessageQueues, hcount]

theorem mem_available {q : MQMessageQueue} : q ∈ info.available isolated counter ↔
    q ∈ info.visited counter ∧ q.serviceAddress ∉ isolated := by
  simp [available]

theorem taken_subset {q : MQMessageQueue} (h : q ∈ info.taken isolated count counter) :
    q ∈ info.available isolated counter := by
  rw [taken_eq, takeLoop_filter] at h
  exact (mem_takeLoop h).resolve_right (by simp)

theorem brokerNames_taken_subset : brokerNames (info.taken isolated count counter) ⊆
    brokerNames (info.available isolated counter) :=
  List.map_subset _ fun _ h => taken_subset h

theorem taken_covers (h : (info.taken isolated count counter).length < count.toNat) {name : String}
    (hname : name ∈ info.reachedBrokers isolated counter) :
    name ∈ brokerNames (info.taken isolated count counter) := by
  obtain ⟨q, hq, rfl⟩ := List.mem_map.mp (List.mem_toFinset.mp hname)
  obtain ⟨hvisited, hfree⟩ := mem_available.mp hq
  rw [taken_eq] at h ⊢
  exact takeLoop_complete _ _ h hvisited (by simpa using hfree)

theorem taken_nodup (info : TopicPublishInfo) (isolated : List String) (count counter : UInt32) :
    (brokerNames (info.taken isolated count counter)).Nodup := by
  rw [taken_eq]
  exact takeLoop_nodup _ List.nodup_nil

theorem taken_length_le_card :
    (info.taken isolated count counter).length ≤ (info.reachedBrokers isolated counter).card := by
  have hcard := List.toFinset_card_of_nodup (taken_nodup info isolated count counter)
  have hsubset : (brokerNames (info.taken isolated count counter)).toFinset ⊆
      info.reachedBrokers isolated counter := by
    intro name hname
    exact List.mem_toFinset.mpr (brokerNames_taken_subset (List.mem_toFinset.mp hname))
  have hle := Finset.card_le_card hsubset
  rw [hcard, brokerNames, List.length_map] at hle
  exact hle

theorem complete_iff_reachesBrokers :
    ((info.taken isolated count counter).length < count.toNat →
      ∀ p ∈ info.partitionList, p.serviceAddress ∉ isolated →
        p.brokerName ∈ brokerNames (info.taken isolated count counter)) ↔
      ReachesBrokers info isolated count counter := by
  constructor
  · intro hcomplete
    by_cases hcard : count.toNat ≤ (info.reachedBrokers isolated counter).card
    · exact Or.inl hcard
    · have hfew : (info.taken isolated count counter).length < count.toNat :=
        taken_length_le_card.trans_lt (not_le.mp hcard)
      refine Or.inr fun p hp hfree => ?_
      exact List.mem_toFinset.mpr (brokerNames_taken_subset (hcomplete hfew p hp hfree))
  · intro hreaches hfew p hp hfree
    rcases hreaches with hcard | hall
    · -- every broker on the walk has been taken, so there are fewer than `count`
      have hsubset : info.reachedBrokers isolated counter ⊆
          (brokerNames (info.taken isolated count counter)).toFinset := by
        intro name hname
        exact List.mem_toFinset.mpr (taken_covers hfew hname)
      have hle := (Finset.card_le_card hsubset).trans (List.toFinset_card_le _)
      rw [brokerNames, List.length_map] at hle
      omega
    · exact taken_covers hfew (hall p hp hfree)

theorem takeReturns_iff (hcount : 1 ≤ count.toNat) :
    info.takeReturns isolated count counter = true ↔ info.taken isolated count counter ≠ [] := by
  rw [takeReturns, taken_eq]
  split_ifs with hempty
  · have hvisited : info.visited counter = [] := by simp [visited, List.isEmpty_iff.mp hempty]
    simp [hvisited, takeLoop]
  · rw [takeResult_eq hcount]
    simp

theorem reachesBrokers_of_fits
    (h : (counter + 1).toNat + info.partitionList.length ≤ 2 ^ 32 ∨
      info.partitionList.length ∣ 2 ^ 32) : ReachesBrokers info isolated count counter := by
  refine Or.inr fun p hp hfree => List.mem_toFinset.mpr ?_
  refine List.mem_map.mpr ⟨p.asMessageQueue, ?_, rfl⟩
  exact mem_available.mpr ⟨mem_visited_of_complete h hp, hfree⟩

end Taken

/-- Round robin is sound for every counter. It is complete exactly if enough brokers are on
the walk or none is left out, and so it is if the counter does not wrap during the walk, or
the number of partitions divides 2 ^ 32. -/
theorem soundAndComplete_iff (info : TopicPublishInfo) (isolated : List String)
    (count counter : UInt32) (hcount : 1 ≤ count.toNat) :
    (SoundAndComplete info isolated count counter ↔ ReachesBrokers info isolated count counter) ∧
    ((counter + 1).toNat + info.partitionList.length ≤ 2 ^ 32 ∨
      info.partitionList.length ∣ 2 ^ 32 → SoundAndComplete info isolated count counter) := by
  have hiff : SoundAndComplete info isolated count counter ↔
      ReachesBrokers info isolated count counter := by
    constructor
    · intro h
      exact complete_iff_reachesBrokers.mp h.complete
    · intro h
      refine ⟨?_, ?_, ?_, taken_nodup _ _ _ _, complete_iff_reachesBrokers.mpr h,
        takeReturns_iff hcount⟩
      · rw [taken_eq]
        exact takeLoop_length_le _ hcount
      · intro q hq
        exact mem_visited (mem_available.mp (taken_subset hq)).1
      · intro q hq
        exact (mem_available.mp (taken_subset hq)).2
  exact ⟨hiff, fun h => hiff.mpr (reachesBrokers_of_fits h)⟩

def threeBrokers : TopicPublishInfo :=
  { topic := "abc"
    partitionList := ["a", "b", "c"].map fun name =>
      { topic := "abc", brokerName := name, serviceAddress := name ++ ":10911" } }

theorem soundAndComplete_three_brokers : SoundAndComplete threeBrokers ["b:10911"] 3 0 :=
  (soundAndComplete_iff threeBrokers ["b:10911"] 3 0 (by decide)).2 (Or.inl (by decide))

theorem third_broker_skipped :
    (threeBrokers.taken [] 3 4294967294).map MQMessageQueue.brokerName = ["a", "b"] ∧
    ¬ SoundAndComplete threeBrokers [] 3 4294967294 := by
  refine ⟨by decide, fun h => ?_⟩
  have hmem := h.complete (by decide)
    { topic := "abc", brokerName := "c", serviceAddress := "c:10911" } (by decide) (by simp)
  revert hmem
  decide

end RocketMQClient.TopicPublishInfo
