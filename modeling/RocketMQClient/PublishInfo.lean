import RocketMQClient.Message
import RocketMQClient.Library.StdSort
import Mathlib.Data.List.Infix
import Mathlib.Data.List.Sort
import Mathlib.Data.List.GetD
import Mathlib.Order.Lex
import Mathlib.Data.Prod.Lex

/-!
# Publish info: writable partitions and their selection

A `TopicPublishInfo` keeps the writable partitions of the master brokers of a
route. A sender either lists all of them in order, or takes some in round robin,
skipping isolated endpoints and naming each broker once. The round robin counter
is a 32-bit word, and the loop counts on it with wraparound.
-/

namespace RocketMQClient

inductive Permission
  | none
  | read
  | write
  | readWrite
  deriving DecidableEq, Repr

structure Partition where
  resourceNamespace : String := ""
  topic : String := ""
  brokerName : String := ""
  brokerId : ℤ := 0
  serviceAddress : String := ""
  id : ℤ := 0
  permission : Permission := .readWrite
  deriving DecidableEq, Repr

/-- Brokers compare by name alone, so neither the broker id nor the address counts. -/
def Partition.same (a b : Partition) : Bool :=
  a.resourceNamespace == b.resourceNamespace && a.topic == b.topic && a.id == b.id &&
    a.brokerName == b.brokerName && a.permission == b.permission

def sameRoute (a b : List Partition) : Bool := a.isEqv b Partition.same

def Partition.asMessageQueue (p : Partition) : MQMessageQueue :=
  { topic := p.topic, brokerName := p.brokerName, queueId := p.id
    serviceAddress := p.serviceAddress }

def Partition.writable (p : Partition) : Bool :=
  !(p.permission == .read || p.permission == .none)

def MQMessageQueue.sortKey (q : MQMessageQueue) : String ×ₗ String ×ₗ ℤ :=
  toLex (q.topic, toLex (q.brokerName, q.queueId))

theorem MQMessageQueue.less_iff (a b : MQMessageQueue) :
    a.less b = true ↔ a.sortKey < b.sortKey := by
  simp only [sortKey, Prod.Lex.toLex_lt_toLex, less]
  by_cases ht : a.topic = b.topic
  · by_cases hb : a.brokerName = b.brokerName
    · simp [ht, hb]
    · simp [ht, hb]
  · simp [ht]

def MQMessageQueue.insertionSort : StdSort MQMessageQueue.less := .insertion sortKey less_iff

structure TopicPublishInfo where
  topic : String
  partitionList : List Partition := []

namespace TopicPublishInfo

def masterBrokerId : ℤ := 0

def updatePublishInfo (info : TopicPublishInfo) (route : List Partition) :
    Option TopicPublishInfo :=
  -- a partition of another topic fails an assertion
  if route.any fun p => p.topic ≠ info.topic then none
  else
    let writable := route.filter fun p => p.writable && p.brokerId == masterBrokerId
    some (if writable.isEmpty then info else { info with partitionList := writable })

def getMessageQueueList (info : TopicPublishInfo) (std : StdSort MQMessageQueue.less) :
    List MQMessageQueue :=
  let queues := (info.partitionList.filter Partition.writable).map Partition.asMessageQueue
  std.sort (queues.filter fun q => !q.serviceAddress.isEmpty)

def visited (info : TopicPublishInfo) (counter : UInt32) : List MQMessageQueue :=
  let index := counter + 1
  (List.range info.partitionList.length).map fun i =>
    (info.partitionList.getD ((index + UInt32.ofNat i).toNat % info.partitionList.length)
      {}).asMessageQueue

def takeLoop (isolated : List String) (count : ℕ) :
    List MQMessageQueue → List MQMessageQueue → List MQMessageQueue
  | [], candidates => candidates
  | q :: queues, candidates =>
    if isolated.contains q.serviceAddress then takeLoop isolated count queues candidates
    else
      let candidates :=
        if candidates.any fun item => item.brokerName == q.brokerName then candidates
        else candidates ++ [q]
      if count ≤ candidates.length then candidates
      else takeLoop isolated count queues candidates

def takeMessageQueues (info : TopicPublishInfo) (isolated : List String) (count : ℤ)
    (counter : UInt32) : UInt32 × List MQMessageQueue :=
  -- `count` is an `int` that becomes a `uint32_t`
  (counter + 1,
    takeLoop isolated (count % 2 ^ 32).toNat (info.visited counter) [])

def available (info : TopicPublishInfo) (isolated : List String) (counter : UInt32) :
    List MQMessageQueue :=
  (info.visited counter).filter fun q => !isolated.contains q.serviceAddress

theorem takeLoop_filter (isolated : List String) (count : ℕ)
    (queues candidates : List MQMessageQueue) :
    takeLoop isolated count queues candidates =
      takeLoop isolated count (queues.filter fun q => !isolated.contains q.serviceAddress)
        candidates := by
  induction queues generalizing candidates with
  | nil => rfl
  | cons q queues ih =>
    by_cases hq : isolated.contains q.serviceAddress = true
    · rw [List.filter_cons_of_neg (by simpa using hq), takeLoop, if_pos hq]
      exact ih candidates
    · rw [List.filter_cons_of_pos (by simpa using hq)]
      simp only [takeLoop, if_neg hq]
      split_ifs
      · rfl
      · exact ih _
      · rfl
      · exact ih _

theorem prefix_takeLoop (isolated : List String) (count : ℕ)
    (queues candidates : List MQMessageQueue) :
    candidates <+: takeLoop isolated count queues candidates := by
  induction queues generalizing candidates with
  | nil => exact List.prefix_rfl
  | cons q queues ih =>
    simp only [takeLoop]
    split_ifs
    · exact ih candidates
    · exact List.prefix_rfl
    · exact ih candidates
    · exact List.prefix_append _ _
    · exact (List.prefix_append _ _).trans (ih _)

theorem mem_takeLoop {isolated : List String} {count : ℕ} {queues candidates : List MQMessageQueue}
    {q : MQMessageQueue} (h : q ∈ takeLoop isolated count queues candidates) :
    q ∈ queues ∨ q ∈ candidates := by
  induction queues generalizing candidates with
  | nil => exact Or.inr h
  | cons x queues ih =>
    have hlast : q ∈ candidates ++ [x] → q ∈ x :: queues ∨ q ∈ candidates := by
      intro hq
      rcases List.mem_append.mp hq with hq | hq
      · exact Or.inr hq
      · exact Or.inl (by simp [List.mem_singleton.mp hq])
    simp only [takeLoop] at h
    split_ifs at h
    · exact (ih h).imp_left (List.mem_cons_of_mem x)
    · exact Or.inr h
    · exact (ih h).imp_left (List.mem_cons_of_mem x)
    · exact hlast h
    · exact (ih h).elim (fun hq => Or.inl (List.mem_cons_of_mem x hq)) hlast

theorem mem_visited {info : TopicPublishInfo} {counter : UInt32} {q : MQMessageQueue}
    (h : q ∈ info.visited counter) : ∃ p ∈ info.partitionList, p.asMessageQueue = q := by
  obtain ⟨i, hi, rfl⟩ := List.mem_map.mp h
  have hpos : 0 < info.partitionList.length := (Nat.zero_le i).trans_lt (List.mem_range.mp hi)
  refine ⟨_, ?_, rfl⟩
  rw [List.getD_eq_getElem _ _ (Nat.mod_lt _ hpos)]
  exact List.getElem_mem _

theorem mem_getMessageQueueList {info : TopicPublishInfo} {std : StdSort MQMessageQueue.less}
    {q : MQMessageQueue} (h : q ∈ info.getMessageQueueList std) :
    ∃ p ∈ info.partitionList, p.asMessageQueue = q := by
  have hmem := (std.perm _).mem_iff.mp h
  obtain ⟨p, hp, rfl⟩ := List.mem_map.mp (List.mem_of_mem_filter hmem)
  exact ⟨p, List.mem_of_mem_filter hp, rfl⟩

theorem takeLoop_singleton_iff {isolated : List String} {count : ℕ} (hcount : 1 < count)
    {q : MQMessageQueue} {queues : List MQMessageQueue}
    (hfree : ∀ x ∈ queues, ¬ isolated.contains x.serviceAddress = true) :
    takeLoop isolated count queues [q] = [q] ↔ ∀ x ∈ queues, x.brokerName = q.brokerName := by
  induction queues with
  | nil => simp [takeLoop]
  | cons x queues ih =>
    have hx : ¬ isolated.contains x.serviceAddress = true := hfree x (by simp)
    have hrest := ih fun y hy => hfree y (by simp [hy])
    rw [takeLoop, if_neg hx]
    by_cases hbroker : x.brokerName = q.brokerName
    · have hany : ([q].any fun item => item.brokerName == x.brokerName) = true := by
        simp [hbroker]
      simp only [hany, if_true, List.length_singleton, if_neg (not_le.mpr hcount)]
      rw [hrest, List.forall_mem_cons]
      exact (and_iff_right hbroker).symm
    · have hany : ¬ ([q].any fun item => item.brokerName == x.brokerName) = true := by
        simpa using fun h : q.brokerName = x.brokerName => hbroker h.symm
      refine iff_of_false (fun heq => ?_) fun hall => hbroker (hall x (by simp))
      simp only [if_neg hany] at heq
      have hlen : ([q] ++ [x]).length ≤ [q].length := by
        split_ifs at heq
        · rw [heq]
        · have hle := (prefix_takeLoop isolated count queues ([q] ++ [x])).length_le
          rwa [heq] at hle
      simp at hlen

theorem available_free {info : TopicPublishInfo} {isolated : List String} {counter : UInt32}
    {q : MQMessageQueue} (h : q ∈ info.available isolated counter) :
    ¬ isolated.contains q.serviceAddress = true := by
  simpa using (List.mem_filter.mp h).2

section Taken
variable {info : TopicPublishInfo} {isolated : List String} {count : ℤ} {counter : UInt32}

theorem takeMessageQueues_eq_nil_iff :
    (info.takeMessageQueues isolated count counter).2 = [] ↔
      info.available isolated counter = [] := by
  simp only [takeMessageQueues]
  rw [takeLoop_filter]
  change takeLoop isolated _ (info.available isolated counter) [] = [] ↔ _
  cases hq : info.available isolated counter with
  | nil => exact iff_of_true rfl rfl
  | cons q queues =>
    have hfree := available_free (hq ▸ List.mem_cons_self : q ∈ info.available isolated counter)
    refine iff_of_false (fun hnil => ?_) (by simp)
    have hpre : [q] <+: takeLoop isolated (count % 2 ^ 32).toNat (q :: queues) [] := by
      simp only [takeLoop, if_neg hfree, List.any_nil, Bool.false_eq_true, if_false,
        List.nil_append]
      split_ifs
      · exact List.prefix_rfl
      · exact prefix_takeLoop _ _ _ _
    rw [hnil] at hpre
    simpa using hpre.length_le

theorem takeMessageQueues_eq_singleton_iff {q : MQMessageQueue} :
    (info.takeMessageQueues isolated count counter).2 = [q] ↔
      (info.available isolated counter).head? = some q ∧
        ((count % 2 ^ 32).toNat ≤ 1 ∨
          ∀ x ∈ info.available isolated counter, x.brokerName = q.brokerName) := by
  simp only [takeMessageQueues]
  rw [takeLoop_filter]
  change takeLoop isolated _ (info.available isolated counter) [] = [q] ↔ _
  have hfree : ∀ x ∈ info.available isolated counter,
      ¬ isolated.contains x.serviceAddress = true := fun x hx => available_free hx
  generalize (count % 2 ^ 32).toNat = n
  cases hq : info.available isolated counter with
  | nil => simp [takeLoop]
  | cons x queues =>
    rw [hq] at hfree
    simp only [takeLoop, if_neg (hfree x (by simp)), List.any_nil, Bool.false_eq_true, if_false,
      List.nil_append, List.length_singleton, List.head?_cons, Option.some.injEq]
    by_cases hn : n ≤ 1
    · simp [hn]
    · have hrest : ∀ y ∈ queues, ¬ isolated.contains y.serviceAddress = true :=
        fun y hy => hfree y (by simp [hy])
      have hiff := takeLoop_singleton_iff (q := x) (not_le.mp hn) hrest
      rw [if_neg hn]
      constructor
      · intro htaken
        have hxq : x = q := by
          obtain ⟨tail, htail⟩ := prefix_takeLoop isolated n queues [x]
          rw [htaken] at htail
          exact (List.cons.inj htail).1
        subst hxq
        refine ⟨rfl, Or.inr (List.forall_mem_cons.mpr ⟨rfl, hiff.mp htaken⟩)⟩
      · rintro ⟨rfl, hle | hall⟩
        · exact absurd hle hn
        · exact hiff.mpr fun y hy => hall y (by simp [hy])

end Taken

end TopicPublishInfo
end RocketMQClient
