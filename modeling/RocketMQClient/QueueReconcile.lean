import RocketMQClient.AssignmentScan

/-!
# Reconciling one topic

What a call of `syncProcessQueue` that is not interrupted does to the table of process
queues, as a map from queues to objects. An object is known by its number, and a number
that no object has had before is the number of a new object.

The first half only erases entries, and the queues started after it only add entries:
`Extends` says what they add.
-/

namespace RocketMQClient.AssignmentScan
open EventMachine Pending
open ReceiveCycle (ProcessQueueRef)
open Rebalance (Key getOrCreateProcessQueue receiveMessage dropUnassigned toStart listed)

structure WellFormed (s : Rebalance.State) : Prop where
  keysDistinct : Rebalance.KeysDistinct s
  made : ∀ r ∈ s.table, r.id < s.created

def constructed (r : ProcessQueueRef) : ProcessQueueImpl :=
  { messageQueue := r.messageQueue, filterExpression := r.filterExpression }

structure Extends (qs : List MQMessageQueue) (s t : Rebalance.State) : Prop where
  created : s.created ≤ t.created
  old : ∀ r ∈ s.table, r ∈ t.table
  new : ∀ r ∈ t.table, r ∈ s.table ∨
    s.created ≤ r.id ∧ r.messageQueue ∈ qs ∧ t.contents r.id = constructed r
  contents : ∀ id < s.created, t.contents id = s.contents id

theorem Extends.refl (qs : List MQMessageQueue) (s : Rebalance.State) : Extends qs s s :=
  ⟨le_rfl, fun _ => id, fun _ => Or.inl, fun _ _ => rfl⟩

theorem Extends.trans {qs qs' all : List MQMessageQueue} {s t u : Rebalance.State}
    (ht : WellFormed t) (hst : Extends qs s t) (htu : Extends qs' t u)
    (hqs : qs ⊆ all) (hqs' : qs' ⊆ all) : Extends all s u := by
  constructor
  · exact hst.created.trans htu.created
  · intro r hr
    exact htu.old r (hst.old r hr)
  · intro r hr
    rcases htu.new r hr with hmid | ⟨hid, hq, hcontents⟩
    · rcases hst.new r hmid with hold | ⟨hid, hq, hcontents⟩
      · exact Or.inl hold
      · exact Or.inr ⟨hid, hqs hq, (htu.contents r.id (ht.made r hmid)).trans hcontents⟩
    · exact Or.inr ⟨hst.created.trans hid, hqs' hq, hcontents⟩
  · intro id hid
    exact (htu.contents id (hid.trans_le hst.created)).trans (hst.contents id hid)

theorem getOrCreateProcessQueue_extends {s : Rebalance.State} (hs : WellFormed s)
    (q : MQMessageQueue) (f : FilterExpression) :
    Extends [q] s (getOrCreateProcessQueue s q f).1 ∧
      WellFormed (getOrCreateProcessQueue s q f).1 := by
  have hdistinct := hs.keysDistinct.located (Rebalance.getOrCreateProcessQueue_located s q f)
  revert hdistinct
  rw [getOrCreateProcessQueue]
  split
  · intro hdistinct
    exact ⟨.refl _ s, hs⟩
  · intro hdistinct
    refine ⟨⟨Nat.le_succ _, fun r hr => List.mem_append_left _ hr, fun r hr => ?_, ?_⟩,
      hdistinct, fun r hr => ?_⟩
    · rcases List.mem_append.mp hr with hold | hnew
      · exact Or.inl hold
      · cases List.mem_singleton.mp hnew
        exact Or.inr ⟨le_rfl, List.mem_singleton_self q, Function.update_self ..⟩
    · intro id hid
      exact Function.update_of_ne hid.ne _ _
    · rcases List.mem_append.mp hr with hold | hnew
      · exact (hs.made r hold).trans (Nat.lt_succ_self _)
      · cases List.mem_singleton.mp hnew
        exact Nat.lt_succ_self _

theorem receiveMessage_frame {s : Rebalance.State} (hactive : s.active = true)
    (cfg : Rebalance.Config) (q : MQMessageQueue) (f : FilterExpression) (stored : Bool) :
    ∃ pending requests, receiveMessage cfg s q f stored =
      { (getOrCreateProcessQueue s q f).1 with pending := pending, requests := requests } := by
  simp only [receiveMessage, hactive, Bool.not_true, Bool.false_eq_true, if_false]
  by_cases haddress : q.serviceAddress.isEmpty = true
  · rw [if_pos haddress]
    exact ⟨_, _, rfl⟩
  · rw [if_neg haddress]
    cases cfg.action with
    | polling => exact ⟨_, _, rfl⟩
    | pull =>
      dsimp only
      split_ifs
      · exact ⟨_, _, rfl⟩
      · exact ⟨_, _, rfl⟩

theorem receiveMessage_extends {s : Rebalance.State} (hs : WellFormed s) (cfg : Rebalance.Config)
    (q : MQMessageQueue) (f : FilterExpression) (stored : Bool) :
    Extends [q] s (receiveMessage cfg s q f stored) ∧
      WellFormed (receiveMessage cfg s q f stored) := by
  by_cases hactive : s.active = true
  · obtain ⟨pending, requests, heq⟩ := receiveMessage_frame hactive cfg q f stored
    obtain ⟨hext, hwf⟩ := getOrCreateProcessQueue_extends hs q f
    rw [heq]
    exact ⟨⟨hext.created, hext.old, hext.new, hext.contents⟩, hwf.keysDistinct, hwf.made⟩
  · have heq : receiveMessage cfg s q f stored = s := by simp [receiveMessage, hactive]
    rw [heq]
    exact ⟨.refl _ s, hs⟩

theorem start_extends {s : Rebalance.State} (hs : WellFormed s) (cfg : Rebalance.Config)
    (f : FilterExpression) (stored : MQMessageQueue → Bool) (qs : List MQMessageQueue) :
    Extends qs s (start cfg f stored s qs) ∧ WellFormed (start cfg f stored s qs) := by
  induction qs generalizing s with
  | nil => exact ⟨.refl _ s, hs⟩
  | cons q qs ih =>
    obtain ⟨hfirst, hmid⟩ := receiveMessage_extends hs cfg q f (stored q)
    obtain ⟨hrest, hlast⟩ := ih hmid
    exact ⟨hfirst.trans hmid hrest (by simp) (List.subset_cons_self q qs), hlast⟩

theorem WellFormed.dropUnassigned {s : Rebalance.State} (hs : WellFormed s) (topic : String)
    (qs : List MQMessageQueue) (expired : List ℕ) :
    WellFormed (dropUnassigned s topic qs expired) := by
  constructor
  · exact hs.keysDistinct.sublist (List.filter_sublist.map _)
  · intro r hr
    exact hs.made r (List.mem_of_mem_filter hr)

theorem goOn_wellFormed {cfg : Rebalance.Config} {s : Rebalance.State} (hs : WellFormed s)
    (queue : ProcessQueueRef) (stored : Bool) (next : Rebalance.Next) :
    WellFormed (Rebalance.goOn cfg s queue stored next) := by
  cases next with
  | nothing => exact hs
  | receiveMessageLater => exact ⟨hs.keysDistinct, hs.made⟩
  | receiveMessageImmediately => exact (receiveMessage_extends hs cfg _ _ stored).2
  | request => exact ⟨hs.keysDistinct, hs.made⟩

theorem resume_wellFormed {cfg : Rebalance.Config} {s t : Rebalance.State}
    {outcome : Rebalance.Outcome} {stored : Bool} {w : Rebalance.Work} (hs : WellFormed s)
    (h : Rebalance.resume cfg s outcome stored w = some t) : WellFormed t := by
  cases w with
  | starting queues f =>
    rw [Rebalance.resume.eq_def] at h
    dsimp only at h
    split at h
    · cases h
      exact hs
    · rename_i q queues
      cases h
      have hstarted := (receiveMessage_extends hs cfg q f stored).2
      exact ⟨hstarted.keysDistinct, hstarted.made⟩
    · cases h
  | receive stage queue =>
    obtain ⟨⟨u, next⟩, hcall, rfl⟩ := Option.map_eq_some_iff.mp h
    obtain ⟨contents, rfl⟩ := Rebalance.callback_frame hcall
    have hcontents : WellFormed { s with contents := contents } := ⟨hs.keysDistinct, hs.made⟩
    exact goOn_wellFormed hcontents queue stored next

theorem step_wellFormed {cfg : Rebalance.Config} {s t : Rebalance.State} {e : Rebalance.Event}
    (hs : WellFormed s) (h : Rebalance.step cfg s e = some t) : WellFormed t := by
  cases e with
  | syncProcessQueue topic assigned f expired =>
    cases h
    have hdropped := hs.dropUnassigned topic assigned expired
    exact ⟨hdropped.keysDistinct, hdropped.made⟩
  | resume i outcome stored =>
    obtain ⟨⟨w, rest⟩, -, hresume⟩ := Option.bind_eq_some_iff.mp h
    have hrest : WellFormed { s with pending := rest } := ⟨hs.keysDistinct, hs.made⟩
    exact resume_wellFormed hrest hresume
  | hold queue =>
    simp only [Rebalance.step] at h
    split_ifs at h
    cases h
    exact ⟨hs.keysDistinct, hs.made⟩
  | release id bodySize offset =>
    obtain ⟨q, -, rfl⟩ := Option.map_eq_some_iff.mp h
    exact ⟨hs.keysDistinct, hs.made⟩
  | clear =>
    cases h
    exact ⟨List.nodup_nil, fun r hr => absurd hr List.not_mem_nil⟩
  | letGo id | take id batchSize | shutdown =>
    cases h
    exact ⟨hs.keysDistinct, hs.made⟩

theorem consumer_wellFormed {cfg : Config} {es : List Event} {s : State}
    (h : (machine cfg).run es = some s) : WellFormed s.consumer := by
  obtain ⟨⟨es', hrun⟩, -⟩ := consumer_reachable h
  exact (Rebalance.machine cfg.consumer).run_invariant (I := WellFormed)
    ⟨List.nodup_nil, fun r hr => absurd hr List.not_mem_nil⟩
    (fun _ _ _ hs hstep => step_wellFormed hs hstep) hrun

/-- What reconciling `topic` with the assignment `qs` makes of `s`. The entries of `t` have
distinct keys, so each of these entries is the one of its queue. -/
structure Reconciled (topic : String) (qs : List MQMessageQueue) (expired : List ℕ)
    (s t : Rebalance.State) : Prop where
  wellFormed : WellFormed t
  assigned : ∀ k : Key, k.1 = topic → (k ∈ keys t ↔ k ∈ listed qs)
  same : ∀ r ∈ s.table, r.messageQueue.topic = topic → r.messageQueue.key ∈ listed qs →
    r.id ∉ expired → r ∈ t.table ∧ t.contents r.id = s.contents r.id
  renewed : ∀ r ∈ s.table, r.messageQueue.topic = topic → r.messageQueue.key ∈ listed qs →
    r.id ∈ expired → ∃ r' ∈ t.table, r'.messageQueue.key = r.messageQueue.key ∧
      (∀ r'' ∈ s.table, r''.id ≠ r'.id) ∧ t.contents r'.id = constructed r'
  others : ∀ r : ProcessQueueRef, r.messageQueue.topic ≠ topic →
    (r ∈ t.table ↔ r ∈ s.table) ∧ (r ∈ s.table → t.contents r.id = s.contents r.id)

section
variable {s : Rebalance.State} (cfg : Rebalance.Config) (f : FilterExpression) (a : Answered)
  (qs : List MQMessageQueue)

theorem syncProcessQueue_extends (hs : WellFormed s) :
    Extends (toStart s a.topic qs a.expired) (dropUnassigned s a.topic qs a.expired)
        (syncProcessQueue cfg f s a qs) ∧
      WellFormed (syncProcessQueue cfg f s a qs) :=
  start_extends (hs.dropUnassigned a.topic qs a.expired) cfg f a.stored _

theorem syncProcessQueue_kept (hs : WellFormed s) {r : ProcessQueueRef} (hr : r ∈ s.table)
    (hkept : Rebalance.kept a.topic qs a.expired r = true) :
    r ∈ (syncProcessQueue cfg f s a qs).table ∧
      (syncProcessQueue cfg f s a qs).contents r.id = s.contents r.id := by
  obtain ⟨hext, -⟩ := syncProcessQueue_extends cfg f a qs hs
  exact ⟨hext.old r (List.mem_filter.mpr ⟨hr, hkept⟩), hext.contents r.id (hs.made r hr)⟩

theorem syncProcessQueue_entry (hs : WellFormed s) {r : ProcessQueueRef}
    (hr : r ∈ (syncProcessQueue cfg f s a qs).table) :
    (r ∈ s.table ∧ Rebalance.kept a.topic qs a.expired r = true) ∨
      s.created ≤ r.id ∧ r.messageQueue ∈ qs ∧
        (syncProcessQueue cfg f s a qs).contents r.id = constructed r := by
  obtain ⟨hext, -⟩ := syncProcessQueue_extends cfg f a qs hs
  rcases hext.new r hr with hold | ⟨hid, hq, hcontents⟩
  · exact Or.inl (List.mem_filter.mp hold)
  · exact Or.inr ⟨hid, List.mem_of_mem_filter hq, hcontents⟩

theorem syncProcessQueue_renewed (hs : WellFormed s) (hactive : s.active = true)
    {r : ProcessQueueRef} (hr : r ∈ s.table) (htopic : r.messageQueue.topic = a.topic)
    (hlisted : r.messageQueue.key ∈ listed qs) (hexpired : r.id ∈ a.expired) :
    ∃ r' ∈ (syncProcessQueue cfg f s a qs).table,
      r'.messageQueue.key = r.messageQueue.key ∧ (∀ r'' ∈ s.table, r''.id ≠ r'.id) ∧
        (syncProcessQueue cfg f s a qs).contents r'.id = constructed r' := by
  have hkeys := (syncProcessQueue_keys hactive cfg f a qs).2 r.messageQueue.key
  obtain ⟨r', hr', hkey⟩ := List.mem_map.mp (hkeys.mpr (Or.inl hlisted))
  rcases syncProcessQueue_entry cfg f a qs hs hr' with ⟨hold, hkept⟩ | ⟨hid, -, hcontents⟩
  · -- the kept entry of this key would be `r`, which has expired
    have heq : r' = r := hs.keysDistinct.eq_of_key hold hr hkey
    subst heq
    rcases Rebalance.kept_iff.mp hkept with hother | ⟨-, hlive⟩
    · exact absurd htopic hother
    · exact absurd hexpired hlive
  · refine ⟨r', hr', hkey, fun r'' hr'' => ?_, hcontents⟩
    have hmade := hs.made r'' hr''
    omega

theorem syncProcessQueue_reconciles (hs : WellFormed s) (hactive : s.active = true)
    (hqs : ∀ q ∈ qs, q.topic = a.topic) :
    Reconciled a.topic qs a.expired s (syncProcessQueue cfg f s a qs) := by
  constructor
  · exact (syncProcessQueue_extends cfg f a qs hs).2
  · intro k hk
    rw [(syncProcessQueue_keys hactive cfg f a qs).2 k]
    exact or_iff_left fun hother => hother.2 hk.symm
  · intro r hr htopic hlisted hlive
    exact syncProcessQueue_kept cfg f a qs hs hr (Rebalance.kept_iff.mpr (Or.inr ⟨hlisted, hlive⟩))
  · intro r hr htopic hlisted hexpired
    exact syncProcessQueue_renewed cfg f a qs hs hactive hr htopic hlisted hexpired
  · intro r hother
    have hkept (hr : r ∈ s.table) := syncProcessQueue_kept cfg f a qs hs hr
      (Rebalance.kept_iff.mpr (Or.inl hother) : Rebalance.kept a.topic qs a.expired r = true)
    refine ⟨⟨fun hr => ?_, fun hr => (hkept hr).1⟩, fun hr => (hkept hr).2⟩
    rcases syncProcessQueue_entry cfg f a qs hs hr with ⟨hold, -⟩ | ⟨-, hq, -⟩
    · exact hold
    · exact absurd (hqs _ hq) hother

end

def queueOf (topic : String) (queueId : ℤ) : MQMessageQueue :=
  { topic := topic, brokerName := "a", queueId := queueId, serviceAddress := "a:10911" }

def entryOf (id : ℕ) (topic : String) (queueId : ℤ) : ProcessQueueRef :=
  { id := id, messageQueue := queueOf topic queueId, filterExpression := {} }

def twoTopics : Rebalance.State :=
  { table := [entryOf 0 "abc" 0, entryOf 1 "abc" 1, entryOf 2 "abc" 2, entryOf 3 "other" 0]
    created := 4 }

theorem twoTopics_reconciled :
    twoTopics.active = true ∧
    Reconciled "abc" [queueOf "abc" 3, queueOf "abc" 1, queueOf "abc" 0, queueOf "abc" 3] [1]
      twoTopics
      (syncProcessQueue { wrap := fun _ => .accepted {} } {} twoTopics
        { topic := "abc", answer := .route (.ok []), expired := [1] }
        [queueOf "abc" 3, queueOf "abc" 1, queueOf "abc" 0, queueOf "abc" 3]) := by
  refine ⟨rfl, syncProcessQueue_reconciles _ _
    { topic := "abc", answer := .route (.ok []), expired := [1] } _ ⟨?_, ?_⟩ rfl ?_⟩
  · rw [Rebalance.KeysDistinct]
    decide
  · decide
  · decide

end RocketMQClient.AssignmentScan
