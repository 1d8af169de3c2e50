import Mathlib.Algebra.Order.BigOperators.Group.List
import Mathlib.Algebra.GroupWithZero.Nat
import RocketMQClient.StandardConsume
import RocketMQClient.FifoSafety

/-!
# Quota accounting

The two counters of a process queue stand for the messages in its cache and those
taken from it that are not finished. Caching adds to them, `take` moves messages
from one group to the other, and `release` gives a message back. `QuotaExact`
states that for a queue and its unfinished messages, and the lemmas say what each
operation does to it; the two services are then followed event by event.

The counters are machine words, so caching keeps them exact only while they do
not overflow.
-/

namespace RocketMQClient
open EventMachine Pending

def bytes (messages : List MQMessageExt) : ℕ := (messages.map fun m => m.getBody.length).sum

/-- The counters are the number and the size of the messages cached and unfinished, so
releasing one of these does not underflow, and without any both counters are zero. -/
structure QuotaExact (q : ProcessQueueImpl) (unfinished : List MQMessageExt) : Prop where
  quantity : q.cachedMessageQuantity.toNat = q.cachedMessages.length + unfinished.length
  memory : q.cachedMessageMemory.toNat = bytes q.cachedMessages + bytes unfinished
  noUnderflow : ∀ m ∈ unfinished, 1 ≤ q.cachedMessageQuantity.toNat ∧
    m.getBody.length ≤ q.cachedMessageMemory.toNat
  drained : q.cachedMessages = [] → unfinished = [] →
    q.cachedMessageQuantity = 0 ∧ q.cachedMessageMemory = 0

def Room (q : ProcessQueueImpl) (unfinished messages : List MQMessageExt) : Prop :=
  q.cachedMessages.length + unfinished.length +
      (messages.filter q.filterExpression.accept).length < 2 ^ 32 ∧
  bytes q.cachedMessages + bytes unfinished +
      bytes (messages.filter q.filterExpression.accept) < 2 ^ 64

instance (q : ProcessQueueImpl) (unfinished messages : List MQMessageExt) :
    Decidable (Room q unfinished messages) :=
  inferInstanceAs (Decidable (_ ∧ _))

theorem bytes_append (l₁ l₂ : List MQMessageExt) : bytes (l₁ ++ l₂) = bytes l₁ + bytes l₂ := by
  simp [bytes]

theorem bytes_cons (m : MQMessageExt) (l : List MQMessageExt) :
    bytes (m :: l) = m.getBody.length + bytes l := by
  simp [bytes]

theorem bytes_perm {l₁ l₂ : List MQMessageExt} (h : l₁.Perm l₂) : bytes l₁ = bytes l₂ :=
  (h.map _).sum_nat

theorem length_le_bytes {m : MQMessageExt} {l : List MQMessageExt} (h : m ∈ l) :
    m.getBody.length ≤ bytes l :=
  List.le_sum_of_mem (List.mem_map_of_mem h)

theorem quotaExact_iff (q : ProcessQueueImpl) (unfinished : List MQMessageExt) :
    QuotaExact q unfinished ↔
      q.cachedMessageQuantity.toNat = q.cachedMessages.length + unfinished.length ∧
      q.cachedMessageMemory.toNat = bytes q.cachedMessages + bytes unfinished := by
  constructor
  · intro h
    exact ⟨h.quantity, h.memory⟩
  · rintro ⟨hq, hm⟩
    refine ⟨hq, hm, ?_, ?_⟩
    · intro m hmem
      have hpos := List.length_pos_of_mem hmem
      have hle := length_le_bytes hmem
      omega
    · intro hcached hnone
      rw [hcached, hnone] at hq hm
      exact ⟨UInt32.toNat_inj.mp hq, UInt64.toNat_inj.mp hm⟩

structure SameBooks (q q' : ProcessQueueImpl) : Prop where
  quantity : q'.cachedMessageQuantity = q.cachedMessageQuantity
  memory : q'.cachedMessageMemory = q.cachedMessageMemory
  cached : q'.cachedMessages = q.cachedMessages

theorem SameBooks.refl (q : ProcessQueueImpl) : SameBooks q q := ⟨rfl, rfl, rfl⟩

theorem quotaExact_congr {q q' : ProcessQueueImpl} {u v : List MQMessageExt}
    (hq : SameBooks q q') (h : u.Perm v) : QuotaExact q' v ↔ QuotaExact q u := by
  rw [quotaExact_iff, quotaExact_iff, hq.quantity, hq.memory, hq.cached, h.length_eq,
    bytes_perm h]

theorem cacheMessages_counters (model : MessageModel) (q : ProcessQueueImpl)
    (messages : List MQMessageExt) :
    (q.cacheMessages model messages).cachedMessageQuantity =
        q.cachedMessageQuantity +
          UInt32.ofNat (messages.filter q.filterExpression.accept).length ∧
      (q.cacheMessages model messages).cachedMessageMemory =
        q.cachedMessageMemory +
          UInt64.ofNat (bytes (messages.filter q.filterExpression.accept)) := by
  induction messages generalizing q with
  | nil => simp [ProcessQueueImpl.cacheMessages, bytes]
  | cons m messages ih =>
    obtain ⟨hq, hm⟩ := ih (q.cacheMessage model m)
    simp only [ProcessQueueImpl.cacheMessage_filterExpression] at hq hm
    change ((q.cacheMessage model m).cacheMessages model messages).cachedMessageQuantity = _ ∧
      ((q.cacheMessage model m).cacheMessages model messages).cachedMessageMemory = _
    rw [hq, hm]
    by_cases ha : q.filterExpression.accept m = true
    · rw [List.filter_cons_of_pos ha, List.length_cons, bytes_cons, UInt32.ofNat_add,
        UInt64.ofNat_add, ProcessQueueImpl.cacheMessage.eq_def, if_pos ha]
      constructor
      · simp only
        rw [UInt32.add_comm (UInt32.ofNat _) (UInt32.ofNat 1), ← UInt32.add_assoc]
        rfl
      · simp only
        rw [UInt64.add_assoc]
    · rw [List.filter_cons_of_neg ha, ProcessQueueImpl.cacheMessage.eq_def, if_neg ha]
      exact ⟨rfl, rfl⟩

theorem quotaExact_cacheMessages_iff {model : MessageModel} {q : ProcessQueueImpl}
    {unfinished messages : List MQMessageExt} (h : QuotaExact q unfinished) :
    QuotaExact (q.cacheMessages model messages) unfinished ↔ Room q unfinished messages := by
  obtain ⟨hq, hm⟩ := cacheMessages_counters model q messages
  rw [quotaExact_iff, hq, hm, ProcessQueueImpl.cacheMessages_cachedMessages, bytes_append,
    List.length_append, UInt32.toNat_add, UInt64.toNat_add, h.quantity, h.memory, Room]
  simp only [UInt32.toNat_ofNat', UInt64.toNat_ofNat']
  omega

theorem quotaExact_take {q : ProcessQueueImpl} {unfinished : List MQMessageExt} (n : ℕ)
    (h : QuotaExact q unfinished) :
    QuotaExact (q.take n).queue (unfinished ++ (q.take n).messages) := by
  have hsplit := List.take_append_drop n q.cachedMessages
  rw [ProcessQueueImpl.take_queue, ProcessQueueImpl.take_messages, quotaExact_iff]
  have hlen : q.cachedMessages.length =
      (q.cachedMessages.take n).length + (q.cachedMessages.drop n).length := by
    rw [← List.length_append, hsplit]
  have hbytes : bytes q.cachedMessages =
      bytes (q.cachedMessages.take n) + bytes (q.cachedMessages.drop n) := by
    rw [← bytes_append, hsplit]
  have hq := h.quantity
  have hm := h.memory
  simp only [List.length_append, bytes_append]
  omega

theorem release_quantity {model : MessageModel} {q q' : ProcessQueueImpl} {n : ℕ} {o : ℤ}
    (hr : q.release model n o = some q') (hone : 1 ≤ q.cachedMessageQuantity.toNat) :
    q'.cachedMessageQuantity.toNat = q.cachedMessageQuantity.toNat - 1 := by
  rw [ProcessQueueImpl.release_eq] at hr
  obtain ⟨offsets, -, rfl⟩ := Option.map_eq_some_iff.mp hr
  exact UInt32.toNat_sub_of_le _ _ (UInt32.le_iff_toNat_le.mpr hone)

theorem release_memory {model : MessageModel} {q q' : ProcessQueueImpl} {n : ℕ} {o : ℤ}
    (hr : q.release model n o = some q') (hsize : n ≤ q.cachedMessageMemory.toNat) :
    q'.cachedMessageMemory.toNat = q.cachedMessageMemory.toNat - n := by
  rw [ProcessQueueImpl.release_eq] at hr
  obtain ⟨offsets, -, rfl⟩ := Option.map_eq_some_iff.mp hr
  have hn : (UInt64.ofNat n).toNat = n :=
    UInt64.toNat_ofNat_of_lt' (hsize.trans_lt q.cachedMessageMemory.toNat_lt)
  simp only
  rw [UInt64.toNat_sub_of_le _ _ (UInt64.le_iff_toNat_le.mpr (hn.trans_le hsize)), hn]

theorem quotaExact_release {model : MessageModel} {q q' : ProcessQueueImpl}
    {unfinished : List MQMessageExt} {m : MQMessageExt} {o : ℤ}
    (h : QuotaExact q (m :: unfinished)) (hr : q.release model m.getBody.length o = some q') :
    QuotaExact q' unfinished := by
  obtain ⟨hone, hsize⟩ := h.noUnderflow m (by simp)
  have hquantity := h.quantity
  have hmemory := h.memory
  rw [List.length_cons] at hquantity
  rw [bytes_cons] at hmemory
  rw [quotaExact_iff, release_quantity hr hone, release_memory hr hsize,
    (ProcessQueueImpl.release_cachedMessages hr).1]
  omega

theorem not_quotaExact_of_unreleased {q : ProcessQueueImpl} {dropped unfinished : List MQMessageExt}
    (h : QuotaExact q (dropped ++ unfinished)) (hne : dropped ≠ []) :
    ¬ QuotaExact q unfinished := by
  intro h'
  have hpos := List.length_pos_of_ne_nil hne
  have hq := h.quantity
  rw [h'.quantity, List.length_append] at hq
  omega

inductive Booked (q : ProcessQueueImpl) (u : List MQMessageExt) (q' : ProcessQueueImpl)
    (u' : List MQMessageExt) (ok : Prop) : Prop
  | same (queue : SameBooks q q') (unfinished : u.Perm u') (ok : ok)
  | take (n : ℕ) (queue : q' = (q.take n).queue)
      (unfinished : (u ++ (q.take n).messages).Perm u') (ok : ok)
  | release (model : MessageModel) (m : MQMessageExt) (o : ℤ)
      (queue : q.release model m.getBody.length o = some q') (unfinished : u.Perm (m :: u'))
      (ok : ok)
  | leak (dropped : List MQMessageExt) (nonempty : dropped ≠ []) (queue : SameBooks q q')
      (unfinished : u.Perm (dropped ++ u')) (ok : ¬ ok)

theorem Booked.quotaExact_iff {q q' : ProcessQueueImpl} {u u' : List MQMessageExt} {ok : Prop}
    (hb : Booked q u q' u' ok) (h : QuotaExact q u) : QuotaExact q' u' ↔ ok := by
  cases hb with
  | same queue unfinished hok =>
    exact iff_of_true ((quotaExact_congr queue unfinished).mpr h) hok
  | take n queue unfinished hok =>
    rw [queue]
    exact iff_of_true ((quotaExact_congr (.refl _) unfinished).mpr (quotaExact_take n h)) hok
  | release model m o queue unfinished hok =>
    have h' := (quotaExact_congr (.refl q) unfinished).mpr h
    exact iff_of_true (quotaExact_release h' queue) hok
  | leak dropped nonempty queue unfinished hok =>
    have h' := (quotaExact_congr queue unfinished).mpr h
    exact iff_of_false (not_quotaExact_of_unreleased h' nonempty) hok

theorem append_diff_left {α : Type*} [DecidableEq α] (l₁ l₂ : List α) :
    (l₁ ++ l₂).diff l₁ = l₂ := by
  induction l₁ with
  | nil => simp
  | cons a l₁ ih => rw [List.cons_append, List.diff_cons, List.erase_cons_head, ih]

namespace StandardConsume

def unfinished (s : State) : List MQMessageExt := s.taken.diff s.finished

def QuotaKept (s : State) : Prop := QuotaExact s.processQueue (unfinished s)

def ReturnsQuota (cfg : Config) (s : State) : Event → Prop
  | .cacheMessages messages => Room s.processQueue (unfinished s) messages
  | .resume _ (.returned _) => cfg.messageModel = .clustering
  | _ => True

instance (cfg : Config) (s : State) : ∀ e, Decidable (ReturnsQuota cfg s e)
  | .cacheMessages _ => inferInstanceAs (Decidable (Room _ _ _))
  | .submitConsumeTask => inferInstanceAs (Decidable True)
  | .resume _ .run => inferInstanceAs (Decidable True)
  | .resume _ (.returned _) => inferInstanceAs (Decidable (cfg.messageModel = _))
  | .dropReference => inferInstanceAs (Decidable True)
  | .destroyConsumer => inferInstanceAs (Decidable True)

theorem Inv.unfinished_perm {s : State} (h : Inv s) : (unfinished s).Perm (inFlight s) := by
  have hd := h.taken.diff_right s.finished
  rwa [append_diff_left] at hd

theorem Continued.booked {cfg : Config} {s t : State} {task : Task} {outcome : Outcome}
    {i : ℕ} (hc : Continued cfg s task outcome t)
    (hlive : ¬ (s.referenced = false ∨ s.consumerAlive = false)) (hne : task.Nonempty)
    {u u' : List MQMessageExt} (hu : u.Perm (task.messages ++ inFlight s))
    (hu' : (inFlight t).Perm u') :
    Booked s.processQueue u t.processQueue u' (ReturnsQuota cfg s (.resume i outcome)) := by
  cases hc with
  | takes _ dispatch houtcome queue _ hflight _ _ =>
    rw [dispatch, List.nil_append] at hu
    refine .take cfg.consumeBatchSize queue ((hu.append_right _).trans ?_)
      (by rw [houtcome]; trivial)
    rwa [← hflight]
  | passes _ houtcome queue _ hflight _ _ =>
    refine .same (queue ▸ .refl _) (hu.trans (List.perm_append_comm.trans ?_)) ?_
    · rwa [← hflight]
    · cases outcome with
      | run => trivial
      | returned status => exact houtcome.resolve_left (by simp)
  | drops _ dead => exact absurd dead hlive
  | returns _ status houtcome model nonempty queue _ hflight _ _ =>
    rw [hflight] at hu'
    refine .leak task.messages (nonempty hne) (queue ▸ .refl _)
      (hu.trans (hu'.append_left _)) ?_
    rw [houtcome]
    simp [ReturnsQuota, model]
  | settles _ m rest messages houtcome queue _ hflight _ _ =>
    rw [hflight] at hu'
    rw [messages] at hu
    refine .release .clustering m m.getQueueOffset queue
      (hu.trans ((List.perm_append_comm.trans hu').cons m)) (by rw [houtcome]; trivial)

def Event.consumes : Event → Bool
  | .submitConsumeTask => true
  | .resume _ _ => true
  | _ => false

theorem step_booked {cfg : Config} {s t : State} {e : Event} (h : Inv s) (ht : Inv t)
    (he : e.consumes = true) (hstep : step cfg s e = some t) :
    Booked s.processQueue (unfinished s) t.processQueue (unfinished t) (ReturnsQuota cfg s e) := by
  cases e with
  | submitConsumeTask =>
    cases hstep
    rw [submitConsumeTask]
    split_ifs
    · exact .same (.refl _) (List.Perm.refl _) trivial
    · exact .same (.refl _) (List.Perm.refl _) trivial
  | resume i outcome =>
    obtain ⟨⟨task, rest⟩, hpick, hres⟩ := Option.bind_eq_some_iff.mp hstep
    have hne : task.Nonempty := h.nonempty task (mem_of_pick hpick)
    have hc := resume_continued hne hres
    have hlive : ¬ (s.referenced = false ∨ s.consumerAlive = false) := by
      simp [h.referenced, h.consumerAlive]
    have hu := h.unfinished_perm.trans (inFlight_pick hpick)
    cases outcome with
    | run => exact hc.booked (i := i) hlive hne hu ht.unfinished_perm.symm
    | returned status => exact hc.booked (i := i) hlive hne hu ht.unfinished_perm.symm
  | cacheMessages messages => cases he
  | dropReference => cases he
  | destroyConsumer => cases he

theorem step_quotaKept_iff {cfg : Config} {s t : State} {e : Event} (h : Inv s)
    (hs : QuotaKept s) (he : e.live = true) (hstep : step cfg s e = some t) :
    QuotaKept t ↔ ReturnsQuota cfg s e := by
  have ht := step_inv h he hstep
  cases e with
  | cacheMessages messages =>
    cases hstep
    rw [cacheMessages, if_pos h.consumerAlive]
    exact quotaExact_cacheMessages_iff hs
  | submitConsumeTask => exact (step_booked h ht rfl hstep).quotaExact_iff hs
  | resume i outcome => exact (step_booked h ht rfl hstep).quotaExact_iff hs
  | dropReference => cases he
  | destroyConsumer => cases he

theorem quotaKept_along_iff (cfg : Config) (filter : FilterExpression) (es : List Event)
    (hlive : ∀ e ∈ es, e.live = true) :
    (machine cfg filter).Along QuotaKept (machine cfg filter).init es ↔
      (machine cfg filter).Guarded (ReturnsQuota cfg) (machine cfg filter).init es := by
  refine (machine cfg filter).along_iff_guarded (J := Inv) (A := fun e => e.live = true)
    (fun s e t h he ht => step_inv h he ht)
    (fun s e t h hs he ht => step_quotaKept_iff h hs he ht) es hlive
    (inv_init cfg filter) ?_
  exact (quotaExact_iff _ _).mpr ⟨rfl, rfl⟩

end StandardConsume
namespace FifoConsume

def Stage.isOpen : Stage → Bool
  | .ack => false
  | .reack => false
  | _ => true

def finishesTask (cfg : Config) : Task → Outcome → List ℕ
  | .held .running id _, .returned result =>
    if cfg.messageModel = .broadcasting ∨ result = .success then [id] else []
  | .held .forward id _, .forwarded true => [id]
  | _, _ => []

/-- The messages finished by an event: the acknowledgement is issued as soon as the
listener has returned successfully. -/
def finishes (cfg : Config) (s : State) : Event → List ℕ
  | .resume i outcome => (pick s.pending i).elim [] fun r => finishesTask cfg r.1 outcome
  | _ => []

def recorded (cfg : Config) (filter : FilterExpression) : Machine (State × List ℕ) Event :=
  (machine cfg filter).record (finishes cfg)

def unfinishedIds (n : ℕ) (finished : List ℕ) : List ℕ :=
  (List.range n).filter fun id => id ∉ finished

def unfinished (s : State) (finished : List ℕ) : List MQMessageExt :=
  (unfinishedIds s.taken finished).filterMap fun id => s.accepted[id]?

def QuotaKept (s : State × List ℕ) : Prop := QuotaExact s.1.processQueue (unfinished s.1 s.2)

def ReturnsQuota (s : State × List ℕ) : Event → Prop
  | .cacheMessages messages => Room s.1.processQueue (unfinished s.1 s.2) messages
  | .resume _ (.forwarded ok) => ok = false
  | _ => True

instance (s : State × List ℕ) : ∀ e, Decidable (ReturnsQuota s e)
  | .cacheMessages _ => inferInstanceAs (Decidable (Room _ _ _))
  | .submitConsumeTask => inferInstanceAs (Decidable True)
  | .resume _ .run => inferInstanceAs (Decidable True)
  | .resume _ (.returned _) => inferInstanceAs (Decidable True)
  | .resume _ (.acked _) => inferInstanceAs (Decidable True)
  | .resume _ (.forwarded ok) => inferInstanceAs (Decidable (ok = false))
  | .destroyProcessQueue => inferInstanceAs (Decidable True)
  | .destroyConsumer => inferInstanceAs (Decidable True)

structure BookInv (s : State × List ℕ) : Prop where
  live : LiveInv s.1
  finished_lt : ∀ id ∈ s.2, id < s.1.taken
  isOpen : ∀ g id m, .held g id m ∈ s.1.pending → g.isOpen = true → id ∉ s.2

theorem unfinishedIds_finish {n id : ℕ} {finished : List ℕ} (hlt : id < n) (hnew : id ∉ finished) :
    (unfinishedIds n finished).Perm (id :: unfinishedIds n (finished ++ [id])) := by
  have hnodup : (unfinishedIds n finished).Nodup := List.nodup_range.filter _
  have herase : (unfinishedIds n finished).erase id = unfinishedIds n (finished ++ [id]) := by
    rw [hnodup.erase_eq_filter, unfinishedIds, unfinishedIds, List.filter_filter]
    apply List.filter_congr
    intro j _
    by_cases hj : j = id <;> simp [hj]
  rw [← herase]
  exact List.perm_cons_erase (by simp [unfinishedIds, hlt, hnew])

theorem unfinishedIds_take {n : ℕ} {finished : List ℕ} (hlt : ∀ id ∈ finished, id < n) :
    unfinishedIds (n + 1) finished = unfinishedIds n finished ++ [n] := by
  have hn : n ∉ finished := fun hmem => lt_irrefl n (hlt n hmem)
  simp [unfinishedIds, List.range_succ, List.filter_append, hn]

theorem unfinished_finish {s : State} {id : ℕ} {finished : List ℕ} {a : MQMessageExt}
    (hlt : id < s.taken) (hnew : id ∉ finished) (ha : s.accepted[id]? = some a) :
    (unfinished s finished).Perm (a :: unfinished s (finished ++ [id])) := by
  have h := (unfinishedIds_finish hlt hnew).filterMap fun id => s.accepted[id]?
  rwa [List.filterMap_cons_some ha] at h

theorem unfinished_congr {s t : State} {finished : List ℕ} (ht : t.taken = s.taken)
    (ha : t.accepted = s.accepted) : unfinished t finished = unfinished s finished := by
  rw [unfinished, ht, ha]
  rfl

inductive Counted (cfg : Config) (s : State) (g : Stage) (id : ℕ) (m : MQMessageExt)
    (outcome : Outcome) (t : State) : Prop
  | goesOn (books : SameBooks s.processQueue t.processQueue)
      (finish : finishesTask cfg (.held g id m) outcome = [])
      (pending : ∀ g' id' m', .held g' id' m' ∈ t.pending →
        .held g' id' m' ∈ s.pending ∨ id' = id ∧ g'.isOpen = g.isOpen)
      (ok : outcome ≠ .forwarded true)
  | released (stage : g = .running) (queue : s.processQueue.release cfg.messageModel
        m.getBody.length m.getQueueOffset = some t.processQueue)
      (finish : finishesTask cfg (.held g id m) outcome = [id])
      (pending : ∀ g' id' m', .held g' id' m' ∈ t.pending →
        .held g' id' m' ∈ s.pending ∨ g'.isOpen = false)
      (ok : outcome ≠ .forwarded true)
  | forwarded (stage : g = .forward) (books : SameBooks s.processQueue t.processQueue)
      (finish : finishesTask cfg (.held g id m) outcome = [id])
      (pending : t.pending = s.pending) (ok : outcome = .forwarded true)

theorem Counted.hold {cfg : Config} {s t : State} {g : Stage} {id : ℕ} {m : MQMessageExt}
    {outcome : Outcome} {g' : Stage} {m' : MQMessageExt}
    (pending : t.pending = s.pending ++ [.held g' id m'])
    (finish : finishesTask cfg (.held g id m) outcome = []) (ok : outcome ≠ .forwarded true)
    (hopen : g'.isOpen = g.isOpen) (books : SameBooks s.processQueue t.processQueue) :
    Counted cfg s g id m outcome t := by
  refine .goesOn books finish ?_ ok
  intro g₁ id₁ m₁ hmem
  rw [pending, List.mem_append, List.mem_singleton] at hmem
  rcases hmem with hmem | hmem
  · exact Or.inl hmem
  · cases hmem
    exact Or.inr ⟨rfl, hopen⟩

theorem Counted.rest {cfg : Config} {s t : State} {g : Stage} {id : ℕ} {m : MQMessageExt}
    {outcome : Outcome} (finish : finishesTask cfg (.held g id m) outcome = [])
    (ok : outcome ≠ .forwarded true) (books : SameBooks s.processQueue t.processQueue)
    (pending : t.pending = s.pending) : Counted cfg s g id m outcome t :=
  .goesOn books finish (fun _ _ _ hmem => Or.inl (pending ▸ hmem)) ok

theorem settle_counted {cfg : Config} {s t : State} {id : ℕ} {m : MQMessageExt}
    {result : ListenerOutcome} (h : settle cfg s id m result = some t) :
    Counted cfg s .running id m (.returned result) t := by
  rcases settle_cases h with ⟨hm, hr, q, hq, rfl⟩ | ⟨hm, hr, g, hg, rfl⟩ |
    ⟨hm, q, hq, rfl⟩
  · refine .released rfl (hm ▸ hq) (by simp [finishesTask, hr]) ?_ (by simp)
    intro g₁ id₁ m₁ hmem
    rcases List.mem_append.mp hmem with hmem | hmem
    · exact Or.inl hmem
    · cases List.mem_singleton.mp hmem
      exact Or.inr rfl
  · have hopen : g.isOpen = Stage.running.isOpen := by
      rcases hg with ⟨rfl, -⟩ | ⟨rfl, -⟩ <;> rfl
    exact .hold rfl (by simp [finishesTask, hm, hr]) (by simp) hopen (.refl _)
  · exact .released rfl (hm ▸ hq) (by simp [finishesTask, hm]) (fun _ _ _ h => Or.inl h)
      (by simp)

theorem sameBooks_unbind (q : ProcessQueueImpl) : SameBooks q q.unbindFifoConsumeTask.2 := by
  rw [unbindFifoConsumeTask_queue]
  exact ⟨rfl, rfl, rfl⟩

theorem resume_counted {cfg : Config} {s t : State} {g : Stage} {id : ℕ} {m : MQMessageExt}
    {outcome : Outcome} (h : resume cfg s (.held g id m) outcome = some t) :
    Counted cfg s g id m outcome t := by
  cases resume_resumed h with
  | invoke => exact .hold rfl rfl (by simp) rfl (.refl _)
  | drop hdead => exact .rest rfl (by simp) (.refl _) rfl
  | settle hsettle => exact settle_counted hsettle
  | pass hpass => cases hpass <;> exact .hold rfl rfl (by simp) rfl (.refl _)
  | lose hpass hdead => cases hpass <;> exact .rest rfl (by simp) (.refl _) rfl
  | finish hfinish =>
    have hbooks : SameBooks s.processQueue (if s.processQueueAlive then
        s.processQueue.unbindFifoConsumeTask.2 else s.processQueue) := by
      split_ifs
      · exact sameBooks_unbind s.processQueue
      · exact .refl _
    cases hfinish with
    | acked => exact .rest rfl (by simp) hbooks rfl
    | forwarded => exact .forwarded rfl hbooks rfl rfl rfl

theorem unfinished_append {s t : State} {finished : List ℕ} {l : List MQMessageExt}
    (hle : s.taken ≤ s.accepted.length) (ht : t.taken = s.taken)
    (ha : t.accepted = s.accepted ++ l) : unfinished t finished = unfinished s finished := by
  rw [unfinished, ht, ha]
  apply List.filterMap_congr
  intro id hid
  have hlt : id < s.taken := by
    have hrange := List.mem_of_mem_filter hid
    exact List.mem_range.mp hrange
  exact List.getElem?_append_left (hlt.trans_le hle)

theorem takeThenSubmit_booked {s : State} {finished : List ℕ} {ok : Prop} (h : Wf s)
    (hlt : ∀ id ∈ finished, id < s.taken) (hok : ok) :
    Booked s.processQueue (unfinished s finished) (takeThenSubmit s).processQueue
      (unfinished (takeThenSubmit s) finished) ok := by
  have hmessages := ProcessQueueImpl.take_messages s.processQueue consumeBatchSize
  have hqueue := ProcessQueueImpl.take_queue s.processQueue consumeBatchSize
  -- the message taken is the next one accepted, whether or not a task is submitted for it
  have hnext : ∀ {t : State} {m l}, s.processQueue.cachedMessages = m :: l →
      t.taken = s.taken + 1 → t.accepted = s.accepted →
      unfinished t finished = unfinished s finished ++
        (s.processQueue.take consumeBatchSize).messages := by
    intro t m l hc ht ha
    obtain ⟨-, hm, -⟩ := h.taken_lt hc
    rw [unfinished, ht, ha, unfinishedIds_take hlt, List.filterMap_append, hmessages, hc]
    simp [consumeBatchSize, hm, unfinished]
  rcases takeThenSubmit_cases s with ⟨hc, ht⟩ | ⟨m, hc, ht⟩ | ⟨m, m', l, hc, ht⟩
  · rw [ht]
    exact .same (.refl _) (List.Perm.refl _) hok
  · refine .take consumeBatchSize ?_ (List.Perm.of_eq (hnext hc (by rw [ht]) (by rw [ht])).symm) hok
    rw [ht, hqueue, hc]
    rfl
  · refine .take consumeBatchSize ?_ (List.Perm.of_eq (hnext hc (by rw [ht]) (by rw [ht])).symm) hok
    rw [ht, hqueue, hc]
    rfl

theorem Counted.booked {cfg : Config} {s t : State} {g : Stage} {id i : ℕ} {m a : MQMessageExt}
    {outcome : Outcome} {finished : List ℕ} (hc : Counted cfg s g id m outcome t)
    (hlt : id < s.taken) (ha : s.accepted[id]? = some a) (hbody : m.getBody = a.getBody)
    (hnew : g.isOpen = true → id ∉ finished)
    (ht : t.taken = s.taken) (hacc : t.accepted = s.accepted) :
    Booked s.processQueue (unfinished s finished) t.processQueue
      (unfinished t (finished ++ finishesTask cfg (.held g id m) outcome))
      (ReturnsQuota (s, finished) (.resume i outcome)) := by
  rw [unfinished_congr ht hacc]
  have hok : outcome ≠ .forwarded true → ReturnsQuota (s, finished) (.resume i outcome) := by
    intro hne
    cases outcome with
    | forwarded ok => exact Bool.eq_false_iff.mpr fun hok => hne (hok ▸ rfl)
    | _ => trivial
  cases hc with
  | goesOn books finish _ ok =>
    rw [finish, List.append_nil]
    exact .same books (List.Perm.refl _) (hok ok)
  | released stage queue finish _ ok =>
    rw [finish]
    rw [hbody] at queue
    exact .release cfg.messageModel a m.getQueueOffset queue
      (unfinished_finish hlt (hnew (stage ▸ rfl)) ha) (hok ok)
  | forwarded stage books finish _ ok =>
    rw [finish, ok]
    exact .leak [a] (by simp) books (unfinished_finish hlt (hnew (stage ▸ rfl)) ha)
      (by simp [ReturnsQuota])

theorem Counted.bookInv {cfg : Config} {s t : State} {g : Stage} {id : ℕ} {m : MQMessageExt}
    {outcome : Outcome} {finished : List ℕ}
    (hc : Counted cfg { s with pending := [] } g id m outcome t) (hlive : LiveInv t)
    (hlt : id < s.taken) (hfin : ∀ j ∈ finished, j < s.taken) (ht : t.taken = s.taken)
    (hnew : g.isOpen = true → id ∉ finished) :
    BookInv (t, finished ++ finishesTask cfg (.held g id m) outcome) := by
  refine ⟨hlive, fun j hj => ?_, ?_⟩
  · change j < t.taken
    rw [ht]
    rcases List.mem_append.mp hj with hj | hj
    · exact hfin j hj
    · cases hc with
      | goesOn _ finish => simp [finish] at hj
      | released _ _ finish =>
        rw [finish, List.mem_singleton] at hj
        exact hj ▸ hlt
      | forwarded _ _ finish =>
        rw [finish, List.mem_singleton] at hj
        exact hj ▸ hlt
  · intro g' id' m' hmem hopen
    cases hc with
    | goesOn _ finish pending =>
      obtain ⟨rfl, hg⟩ := (pending g' id' m' hmem).resolve_left (by simp)
      rw [finish, List.append_nil]
      exact hnew (hg ▸ hopen)
    | released _ _ _ pending =>
      have hclosed := (pending g' id' m' hmem).resolve_left (by simp)
      simp [hclosed] at hopen
    | forwarded _ _ _ pending => simp [pending] at hmem

theorem BookInv.of_pending {s t : State} {finished : List ℕ} (h : BookInv (s, finished))
    (hlive : LiveInv t) (ht : s.taken ≤ t.taken)
    (hp : ∀ g id m, .held g id m ∈ t.pending → .held g id m ∈ s.pending ∨ id = s.taken) :
    BookInv (t, finished) := by
  refine ⟨hlive, fun j hj => (h.finished_lt j hj).trans_le ht, ?_⟩
  intro g id m hmem hopen
  rcases hp g id m hmem with hmem | rfl
  · exact h.isOpen g id m hmem hopen
  · exact fun hfin => lt_irrefl _ (h.finished_lt _ hfin)

theorem takeThenSubmit_pending {s : State} {g : Stage} {id : ℕ} {m : MQMessageExt}
    (hmem : .held g id m ∈ (takeThenSubmit s).pending) :
    .held g id m ∈ s.pending ∨ id = s.taken := by
  rcases takeThenSubmit_cases s with ⟨-, ht⟩ | ⟨_, -, ht⟩ | ⟨m', _, _, -, ht⟩
  · exact Or.inl (ht ▸ hmem)
  · rw [ht] at hmem
    exact Or.inl hmem
  · rw [ht] at hmem
    rcases List.mem_append.mp hmem with hmem | hmem
    · exact Or.inl hmem
    · cases List.mem_singleton.mp hmem
      exact Or.inr rfl

theorem takeThenSubmit_taken (s : State) : s.taken ≤ (takeThenSubmit s).taken := by
  rcases takeThenSubmit_cases s with ⟨-, ht⟩ | ⟨_, -, ht⟩ | ⟨_, _, _, -, ht⟩ <;> simp [ht]

theorem cacheMessages_quotaKept_iff {cfg : Config} {s t : State} {finished : List ℕ}
    {messages : List MQMessageExt} (h : BookInv (s, finished)) (hlive : LiveInv t)
    (hstep : step cfg s (.cacheMessages messages) = some t) :
    BookInv (t, finished ++ finishes cfg s (.cacheMessages messages)) ∧
      (QuotaKept (s, finished) →
        (QuotaKept (t, finished ++ finishes cfg s (.cacheMessages messages)) ↔
          ReturnsQuota (s, finished) (.cacheMessages messages))) := by
  have hc : s.consumerAlive = true := (Bool.and_eq_true_iff.mp h.live.2).2
  have ht : t = { s with
      processQueue := s.processQueue.cacheMessages cfg.messageModel messages
      accepted := s.accepted ++ messages.filter s.processQueue.filterExpression.accept } := by
    cases hstep
    rw [cacheMessages, if_pos hc]
  have hu : unfinished t finished = unfinished s finished :=
    unfinished_append h.live.1.serial.taken_le (by rw [ht]) (by rw [ht])
  have hq : t.processQueue = s.processQueue.cacheMessages cfg.messageModel messages := by rw [ht]
  simp only [finishes, List.append_nil]
  refine ⟨h.of_pending hlive (by rw [ht]) fun _ _ _ hmem => Or.inl (by rwa [ht] at hmem), ?_⟩
  intro hs
  change QuotaExact t.processQueue (unfinished t finished) ↔ _
  rw [hu, hq]
  exact quotaExact_cacheMessages_iff hs

theorem resume_quotaKept_iff {cfg : Config} {s t : State} {finished : List ℕ} {i : ℕ}
    {outcome : Outcome} (h : BookInv (s, finished)) (hlive : LiveInv t)
    (hstep : step cfg s (.resume i outcome) = some t) :
    BookInv (t, finished ++ finishes cfg s (.resume i outcome)) ∧
      (QuotaKept (s, finished) →
        (QuotaKept (t, finished ++ finishes cfg s (.resume i outcome)) ↔
          ReturnsQuota (s, finished) (.resume i outcome))) := by
  obtain ⟨⟨task, rest⟩, hpick, hres⟩ := Option.bind_eq_some_iff.mp hstep
  obtain ⟨hp, rfl⟩ := pick_single hpick h.live.1.pending_le
  have hfinishes : finishes cfg s (.resume i outcome) = finishesTask cfg task outcome := by
    rw [finishes, hpick]
    rfl
  rw [hfinishes]
  cases task with
  | dispatch =>
    cases outcome with
    | run =>
      cases hres
      simp only [finishesTask, List.append_nil]
      refine ⟨h.of_pending hlive (takeThenSubmit_taken { s with pending := [] }) ?_, ?_⟩
      · intro g id m hmem
        exact Or.inr ((takeThenSubmit_pending hmem).resolve_left (by simp))
      · exact (takeThenSubmit_booked (s := { s with pending := [] })
          ⟨by simp, h.live.1.cached, by simp⟩ h.finished_lt trivial).quotaExact_iff
    | returned _ => cases hres
    | acked _ => cases hres
    | forwarded _ => cases hres
  | held g id m =>
    have hcounted := resume_counted hres
    have hframe := (resume_continued hres).frame
    have hmem : Task.held g id m ∈ s.pending := by simp [hp]
    obtain ⟨a, ha, horigin⟩ := h.live.1.held g id m hmem
    have hbody : m.getBody = a.getBody := by
      change (origin m).getBody = (origin a).getBody
      rw [horigin]
    obtain ⟨hlast, -⟩ := h.live.1.serial.holding id (by simp [serial, phase, hp])
    have hlt : id < s.taken := Nat.lt_of_succ_le hlast.le
    have hnew := h.isOpen g id m hmem
    refine ⟨hcounted.bookInv hlive hlt h.finished_lt hframe.taken hnew, ?_⟩
    exact (hcounted.booked (i := i) hlt ha hbody hnew hframe.taken
      hframe.accepted).quotaExact_iff

theorem step_quotaKept_iff {cfg : Config} {s t : State} {finished : List ℕ} {e : Event}
    (h : BookInv (s, finished)) (he : e.live = true) (hstep : step cfg s e = some t) :
    BookInv (t, finished ++ finishes cfg s e) ∧
      (QuotaKept (s, finished) →
        (QuotaKept (t, finished ++ finishes cfg s e) ↔ ReturnsQuota (s, finished) e)) := by
  have hlive := step_liveInv h.live he hstep
  cases e with
  | cacheMessages messages => exact cacheMessages_quotaKept_iff h hlive hstep
  | submitConsumeTask =>
    cases hstep
    simp only [finishes, List.append_nil]
    rcases submitConsumeTask_cases s with ht | ⟨-, ht⟩
    · rw [ht] at hlive ⊢
      exact ⟨h, fun hs => iff_of_true hs trivial⟩
    · rw [ht] at hlive ⊢
      refine ⟨h.of_pending hlive le_rfl fun g id m hmem => ?_, ?_⟩
      · exact Or.inl (by simpa using hmem)
      · intro hs
        have hbooks : SameBooks s.processQueue
            { s.processQueue with hasFifoTaskBound := true } := ⟨rfl, rfl, rfl⟩
        exact iff_of_true ((quotaExact_congr hbooks (List.Perm.refl _)).mpr hs) trivial
  | resume i outcome => exact resume_quotaKept_iff h hlive hstep
  | destroyProcessQueue => cases he
  | destroyConsumer => cases he

theorem quotaKept_along_iff (cfg : Config) (filter : FilterExpression) (es : List Event)
    (hlive : ∀ e ∈ es, e.live = true) :
    (recorded cfg filter).Along QuotaKept (recorded cfg filter).init es ↔
      (recorded cfg filter).Guarded ReturnsQuota (recorded cfg filter).init es := by
  refine (recorded cfg filter).along_iff_guarded (J := BookInv) (A := fun e => e.live = true)
    ?_ ?_ es hlive ⟨⟨inv_init cfg filter, rfl⟩, by simp [recorded, Machine.record], ?_⟩ ?_
  · rintro ⟨s, finished⟩ e ⟨t, finished'⟩ h he ht
    obtain ⟨hstep, rfl⟩ := (machine cfg filter).record_step ht
    exact (step_quotaKept_iff h he hstep).1
  · rintro ⟨s, finished⟩ e ⟨t, finished'⟩ h hs he ht
    obtain ⟨hstep, rfl⟩ := (machine cfg filter).record_step ht
    exact (step_quotaKept_iff h he hstep).2 hs
  · simp [recorded, Machine.record, machine]
  · exact (quotaExact_iff _ _).mpr ⟨rfl, rfl⟩

end FifoConsume

/-- Along a live run of either service the counters are exact in every state if and only
if they never overflow, no FIFO message goes to the dead letter queue and no
listener of the standard service returns in broadcasting mode. -/
theorem quota_exact_along_iff (filter : FilterExpression) :
    (∀ (cfg : FifoConsume.Config) (es : List FifoConsume.Event),
      (∀ e ∈ es, e.live = true) →
      ((FifoConsume.recorded cfg filter).Along FifoConsume.QuotaKept
          (FifoConsume.recorded cfg filter).init es ↔
        (FifoConsume.recorded cfg filter).Guarded FifoConsume.ReturnsQuota
          (FifoConsume.recorded cfg filter).init es)) ∧
    ∀ (cfg : StandardConsume.Config) (es : List StandardConsume.Event),
      (∀ e ∈ es, e.live = true) →
      ((StandardConsume.machine cfg filter).Along StandardConsume.QuotaKept
          (StandardConsume.machine cfg filter).init es ↔
        (StandardConsume.machine cfg filter).Guarded (StandardConsume.ReturnsQuota cfg)
          (StandardConsume.machine cfg filter).init es) :=
  ⟨fun cfg es hlive => FifoConsume.quotaKept_along_iff cfg filter es hlive,
    fun cfg es hlive => StandardConsume.quotaKept_along_iff cfg filter es hlive⟩

theorem quota_exact_acknowledged :
    (FifoConsume.recorded {} {}).Along FifoConsume.QuotaKept (FifoConsume.recorded {} {}).init
      [.cacheMessages [{}, {}], .submitConsumeTask, .resume 0 .run, .resume 0 .run,
        .resume 0 (.returned .success), .resume 0 (.acked none)] ∧
    (StandardConsume.machine { credentialsProvider := true } {}).Along StandardConsume.QuotaKept
      (StandardConsume.machine { credentialsProvider := true } {}).init
      [.cacheMessages [{}, {}], .submitConsumeTask, .resume 0 .run, .resume 0 .run,
        .resume 1 (.returned .failure), .resume 1 .run] := by
  obtain ⟨hfifo, hstandard⟩ := quota_exact_along_iff {}
  rw [hfifo {} _ (by decide), hstandard { credentialsProvider := true } _ (by decide)]
  decide

theorem quota_leaked :
    (∃ s, (FifoConsume.recorded { maxDeliveryAttempts := 1 } {}).run
        [.cacheMessages [{}, {}], .submitConsumeTask, .resume 0 .run, .resume 0 .run,
          .resume 0 (.returned .failure), .resume 0 (.forwarded true)] = some s ∧
      ¬ FifoConsume.QuotaKept s) ∧
    ∃ s, (StandardConsume.machine
          { messageModel := .broadcasting, credentialsProvider := true } {}).run
        [.cacheMessages [{}], .submitConsumeTask, .resume 0 .run, .resume 0 .run,
          .resume 0 (.returned .success)] = some s ∧
      ¬ StandardConsume.QuotaKept s :=
  ⟨⟨_, rfl, fun h => absurd h.quantity (by decide)⟩,
    ⟨_, rfl, fun h => absurd h.quantity (by decide)⟩⟩

end RocketMQClient
