import RocketMQClient.Quota
import RocketMQClient.ReceiveMessage

/-!
# Back-pressure on a polling queue

One process queue of the standard service in clustering mode that is started once
and stays in the table. Its cycle asks for messages, caches what the response
carries, and asks again when `shouldThrottle` allows it, at once or after a delay;
tasks that consume go on meanwhile, also between the check and the request.

`clear` records that `shouldThrottle` was false in a state since the last response,
and `requests` the value it had whenever a request was issued.
-/

namespace RocketMQClient.BackPressure
open EventMachine Pending

structure Config where
  consumeBatchSize : ℕ := 1
  customExecutor : Bool := false
  credentialsProvider : Bool := false
  maxCachedMessageQuantity : UInt32 := 1024
  maxCachedMessageMemory : UInt64 := 128 * 1024 * 1024
  receiveBatchSize : ℕ := 32
  wrap : rmq.Message → Decoded
  positive : 0 < maxCachedMessageQuantity := by decide

def Config.consume (cfg : Config) : StandardConsume.Config :=
  { messageModel := .clustering
    consumeBatchSize := cfg.consumeBatchSize
    customExecutor := cfg.customExecutor
    credentialsProvider := cfg.credentialsProvider }

inductive Work
  | start
  | rpc
  | checkThrottleThenReceive
  | receiveMessageImmediately
  | receiveMessageLater
  deriving DecidableEq, Repr

structure State where
  consume : StandardConsume.State := {}
  cycle : List Work := [.start]
  active : Bool := true
  clear : Bool := false
  requests : List Bool := []

inductive Event
  | run (i : ℕ)
  | completed (i : ℕ) (c : Completion (List rmq.Message))
  | consume (e : StandardConsume.Event)
  | shutdown

def State.queue (s : State) : ProcessQueueImpl := s.consume.processQueue

def State.add (s : State) (w : Work) : State := { s with cycle := s.cycle ++ [w] }

def shouldThrottle (cfg : Config) (s : State) : Bool :=
  s.queue.shouldThrottle cfg.maxCachedMessageQuantity cfg.maxCachedMessageMemory

def receiveMessage (s : State) : State :=
  if !s.active then s
  else if s.queue.messageQueue.serviceAddress.isEmpty then s
  else { s with requests := s.requests ++ [s.clear] }.add .rpc

def resume (cfg : Config) (s : State) : Work → Option State
  | .start => some (receiveMessage s)
  | .receiveMessageImmediately => some (receiveMessage s)
  | .checkThrottleThenReceive =>
    some (s.add (if shouldThrottle cfg s then .receiveMessageLater else .receiveMessageImmediately))
  | .receiveMessageLater => some (s.add .checkThrottleThenReceive)
  | .rpc => none

def setQueue (s : State) (q : ProcessQueueImpl) : State :=
  { s with consume := { s.consume with
      processQueue := q
      accepted := s.consume.accepted ++ q.cachedMessages.drop s.queue.cachedMessages.length } }

def onCompletion (cfg : Config) (s : State) (c : Completion (List rmq.Message)) : Option State :=
  match onReceiveMessage cfg.wrap c with
  | none => none
  | some (.error _) => some (s.add .receiveMessageLater)
  | some (.ok result) =>
    if !s.active then some s
    else (onSuccess .clustering .polling s.queue result).map fun r =>
      (setQueue s r.1).add (match r.2 with
        | .checkThrottleThenReceive => .checkThrottleThenReceive
        | .receiveMessageLater => .receiveMessageLater)

def act (cfg : Config) (s : State) : Event → Option State
  | .run i => (pick s.cycle i).bind fun r => resume cfg { s with cycle := r.2 } r.1
  | .completed i c =>
    if c.response.length ≤ cfg.receiveBatchSize then
      (pick s.cycle i).bind fun r =>
        if r.1 = .rpc then onCompletion cfg { s with cycle := r.2, clear := false } c else none
    else none
  | .consume e =>
    if e.consumes then
      (StandardConsume.step cfg.consume s.consume e).map fun t => { s with consume := t }
    else none
  | .shutdown => some { s with active := false }

def observe (cfg : Config) (s : State) : State :=
  { s with clear := s.clear || !shouldThrottle cfg s }

def machine (cfg : Config) (messageQueue : MQMessageQueue) (filter : FilterExpression) :
    Machine State Event where
  init := observe cfg
    { consume := { processQueue := { messageQueue := messageQueue, filterExpression := filter } } }
  step := fun s e => (act cfg s e).map (observe cfg)

def RequestsClear (s : State) : Prop := ∀ b ∈ s.requests, b = true

def Bounded (cfg : Config) (s : State) : Prop :=
  s.queue.cachedMessageQuantity.toNat ≤
    cfg.maxCachedMessageQuantity.toNat - 1 + cfg.receiveBatchSize

structure ClearInv (s : State) : Prop where
  single : s.cycle.length ≤ 1
  clear : ∀ w ∈ s.cycle, w = .start ∨ w = .receiveMessageImmediately → s.clear = true
  requests : RequestsClear s

theorem ClearInv.receiveMessage {s : State} (hp : s.cycle = []) (hclear : s.clear = true)
    (h : RequestsClear s) : ClearInv (receiveMessage s) := by
  rw [BackPressure.receiveMessage]
  split_ifs
  · exact ⟨by simp [hp], by simp [hp], h⟩
  · exact ⟨by simp [hp], by simp [hp], h⟩
  · refine ⟨by simp [State.add, hp], by simp [State.add, hp], fun b hb => ?_⟩
    rcases List.mem_append.mp hb with hb | hb
    · exact h b hb
    · exact (List.mem_singleton.mp hb).trans hclear

theorem ClearInv.add {s : State} (hp : s.cycle = []) (h : RequestsClear s) {w : Work}
    (hw : w = .start ∨ w = .receiveMessageImmediately → s.clear = true) : ClearInv (s.add w) := by
  refine ⟨by simp [State.add, hp], fun w' hmem => ?_, h⟩
  simp only [State.add, hp, List.nil_append, List.mem_singleton] at hmem
  rw [hmem]
  exact hw

theorem ClearInv.observe {cfg : Config} {s : State} (h : ClearInv s) :
    ClearInv (observe cfg s) := by
  refine ⟨h.single, fun w hmem hw => ?_, h.requests⟩
  simp [BackPressure.observe, h.clear w hmem hw]

theorem ClearInv.onCompletion {cfg : Config} {s t : State} {c : Completion (List rmq.Message)}
    (hp : s.cycle = []) (h : RequestsClear s) (ht : onCompletion cfg s c = some t) :
    ClearInv t := by
  rw [BackPressure.onCompletion] at ht
  split at ht
  · cases ht
  · cases ht
    exact ClearInv.add hp h (by simp)
  · split_ifs at ht
    · cases ht
      exact ⟨by simp [hp], by simp [hp], h⟩
    · obtain ⟨⟨q, next⟩, -, rfl⟩ := Option.map_eq_some_iff.mp ht
      cases next with
      | checkThrottleThenReceive => exact ClearInv.add (s := setQueue s q) hp h (by simp)
      | receiveMessageLater => exact ClearInv.add (s := setQueue s q) hp h (by simp)

inductive Acts (cfg : Config) (s : State) : State → Prop
  | receive (w : Work) (hp : s.cycle = [w]) (hw : w = .start ∨ w = .receiveMessageImmediately) :
      Acts cfg s (receiveMessage { s with cycle := [] })
  | check (hp : s.cycle = [.checkThrottleThenReceive]) :
      Acts cfg s (State.add { s with cycle := [] }
        (if shouldThrottle cfg { s with cycle := [] } then .receiveMessageLater
          else .receiveMessageImmediately))
  | later (hp : s.cycle = [.receiveMessageLater]) :
      Acts cfg s (State.add { s with cycle := [] } .checkThrottleThenReceive)
  | completed {c : Completion (List rmq.Message)} {t : State} (hp : s.cycle = [.rpc])
      (hlen : c.response.length ≤ cfg.receiveBatchSize)
      (h : onCompletion cfg { s with cycle := [], clear := false } c = some t) : Acts cfg s t
  | consume {e : StandardConsume.Event} {c : StandardConsume.State} (he : e.consumes = true)
      (h : StandardConsume.step cfg.consume s.consume e = some c) :
      Acts cfg s { s with consume := c }
  | shutdown : Acts cfg s { s with active := false }

theorem act_acts {cfg : Config} {s t : State} {e : Event} (hsingle : s.cycle.length ≤ 1)
    (h : act cfg s e = some t) : Acts cfg s t := by
  cases e with
  | run i =>
    obtain ⟨⟨w, rest⟩, hpick, hres⟩ := Option.bind_eq_some_iff.mp h
    obtain ⟨hp, rfl⟩ := pick_single hpick hsingle
    cases w with
    | start =>
      cases hres
      exact .receive _ hp (.inl rfl)
    | rpc => cases hres
    | checkThrottleThenReceive =>
      cases hres
      exact .check hp
    | receiveMessageImmediately =>
      cases hres
      exact .receive _ hp (.inr rfl)
    | receiveMessageLater =>
      cases hres
      exact .later hp
  | completed i c =>
    simp only [act] at h
    split_ifs at h with hlen
    obtain ⟨⟨w, rest⟩, hpick, hres⟩ := Option.bind_eq_some_iff.mp h
    obtain ⟨hp, rfl⟩ := pick_single hpick hsingle
    split_ifs at hres with hw
    exact .completed (hp.trans (congrArg (fun w => [w]) hw)) hlen hres
  | consume e =>
    simp only [act] at h
    split_ifs at h with he
    obtain ⟨c, hc, rfl⟩ := Option.map_eq_some_iff.mp h
    exact .consume he hc
  | shutdown =>
    cases h
    exact .shutdown

theorem step_clearInv {cfg : Config} {s t : State} {e : Event} (h : ClearInv s)
    (hstep : (act cfg s e).map (observe cfg) = some t) : ClearInv t := by
  obtain ⟨u, hu, rfl⟩ := Option.map_eq_some_iff.mp hstep
  cases act_acts h.single hu with
  | receive w hp hw =>
    have hclear := h.clear w (by simp [hp]) hw
    exact (ClearInv.receiveMessage (s := { s with cycle := [] }) rfl hclear h.requests).observe
  | check hp =>
    cases hthrottle : shouldThrottle cfg { s with cycle := [] } with
    | true => exact (ClearInv.add (s := { s with cycle := [] }) rfl h.requests (by simp)).observe
    | false =>
      -- the check itself is a state in which the queue is not throttled
      refine ⟨by simp [observe, State.add], fun _ _ _ => ?_, h.requests⟩
      have hsame :
          shouldThrottle cfg (State.add { s with cycle := [] } .receiveMessageImmediately) =
          false := hthrottle
      simp [observe, hsame]
  | later hp => exact (ClearInv.add (s := { s with cycle := [] }) rfl h.requests (by simp)).observe
  | completed hp hlen hres =>
    exact (ClearInv.onCompletion (s := { s with cycle := [], clear := false }) rfl h.requests
      hres).observe
  | consume he hc => exact ClearInv.observe ⟨h.single, h.clear, h.requests⟩
  | shutdown => exact ClearInv.observe ⟨h.single, h.clear, h.requests⟩

def CountExact (q : ProcessQueueImpl) (unfinished : List MQMessageExt) : Prop :=
  q.cachedMessageQuantity.toNat = q.cachedMessages.length + unfinished.length

theorem countExact_cacheMessages (model : MessageModel) {q : ProcessQueueImpl}
    {unfinished messages : List MQMessageExt} (h : CountExact q unfinished)
    (hroom : q.cachedMessageQuantity.toNat + messages.length < 2 ^ 32) :
    CountExact (q.cacheMessages model messages) unfinished ∧
      (q.cacheMessages model messages).cachedMessageQuantity.toNat ≤
        q.cachedMessageQuantity.toNat + messages.length := by
  have hle := List.length_filter_le q.filterExpression.accept messages
  rw [CountExact, (cacheMessages_counters model q messages).1,
    ProcessQueueImpl.cacheMessages_cachedMessages, List.length_append, UInt32.toNat_add,
    UInt32.toNat_ofNat']
  rw [CountExact] at h
  omega

theorem countExact_of_booked {q q' : ProcessQueueImpl} {u u' : List MQMessageExt} {ok : Prop}
    (hb : Booked q u q' u' ok) (hok : ok) (h : CountExact q u) :
    CountExact q' u' ∧ q'.cachedMessageQuantity.toNat ≤ q.cachedMessageQuantity.toNat := by
  rw [CountExact] at h ⊢
  cases hb with
  | same queue unfinished =>
    rw [queue.quantity, queue.cached, h, unfinished.length_eq]
    exact ⟨rfl, le_rfl⟩
  | take n queue unfinished =>
    rw [queue, ← unfinished.length_eq, ProcessQueueImpl.take_queue,
      ProcessQueueImpl.take_messages, List.length_append, List.length_take, List.length_drop]
    simp only
    omega
  | release model m o queue unfinished =>
    have hlen := unfinished.length_eq
    rw [List.length_cons] at hlen
    have hq : q'.cachedMessageQuantity.toNat = q.cachedMessageQuantity.toNat - 1 :=
      release_quantity queue (by omega)
    rw [hq, (ProcessQueueImpl.release_cachedMessages queue).1]
    omega
  | leak dropped nonempty queue unfinished hnot => exact absurd hok hnot

structure CountInv (cfg : Config) (s : State) : Prop where
  consume : StandardConsume.Inv s.consume
  count : CountExact s.queue (StandardConsume.unfinished s.consume)
  single : s.cycle.length ≤ 1
  bounded : Bounded cfg s
  below : ∀ w ∈ s.cycle, w = .start ∨ w = .rpc ∨ w = .receiveMessageImmediately →
    s.queue.cachedMessageQuantity.toNat < cfg.maxCachedMessageQuantity.toNat

theorem decodeSkipping_length_le {wrap : rmq.Message → Decoded} {items : List rmq.Message}
    {messages : List MQMessageExt} (h : decodeSkipping wrap items = some messages) :
    messages.length ≤ items.length := by
  induction items generalizing messages with
  | nil =>
    cases h
    exact le_rfl
  | cons item items ih =>
    rw [decodeSkipping] at h
    split at h
    · cases h
    · exact (ih h).trans (Nat.le_succ _)
    · obtain ⟨rest, hrest, rfl⟩ := Option.map_eq_some_iff.mp h
      exact Nat.succ_le_succ (ih hrest)

theorem onReceiveMessage_length_le {wrap : rmq.Message → Decoded}
    {c : Completion (List rmq.Message)} {result : ReceiveMessageResult}
    (h : onReceiveMessage wrap c = some (.ok result)) :
    result.messages.length ≤ c.response.length := by
  rw [onReceiveMessage] at h
  obtain ⟨-, -, hresult⟩ | ⟨-, ec, hresult⟩ := c.result_cases receiveMessageError
  · simp only [hresult] at h
    obtain ⟨r, hr, hok⟩ := Option.map_eq_some_iff.mp h
    cases hok
    rw [processPopResult] at hr
    split_ifs at hr
    · obtain ⟨messages, hmessages, rfl⟩ := Option.map_eq_some_iff.mp hr
      exact decodeSkipping_length_le hmessages
    · cases hr
      exact Nat.zero_le _
  · rw [hresult] at h
    cases h

theorem onSuccess_polling {model : MessageModel} {q q' : ProcessQueueImpl}
    {result : ReceiveMessageResult} {next : Continuation}
    (h : onSuccess model .polling q result = some (q', next)) :
    ∃ messages, messages.length ≤ result.messages.length ∧
      q' = q.cacheMessages model messages := by
  rw [onSuccess] at h
  split at h
  · cases h
    exact ⟨result.messages, le_rfl, rfl⟩
  · cases h
    exact ⟨result.messages, le_rfl, rfl⟩
  · cases h
  · cases h
    exact ⟨[], Nat.zero_le _, rfl⟩
  · cases h
    exact ⟨[], Nat.zero_le _, rfl⟩
  · cases h
    exact ⟨[], Nat.zero_le _, rfl⟩
  · cases h
    exact ⟨[], Nat.zero_le _, rfl⟩

theorem CountInv.cycle {cfg : Config} {s t : State} (h : CountInv cfg s)
    (hconsume : t.consume = s.consume) (hsingle : t.cycle.length ≤ 1)
    (hbelow : ∀ w ∈ t.cycle, w = .start ∨ w = .rpc ∨ w = .receiveMessageImmediately →
      s.queue.cachedMessageQuantity.toNat < cfg.maxCachedMessageQuantity.toNat) :
    CountInv cfg t := by
  have hqueue : t.queue = s.queue := by rw [State.queue, hconsume, State.queue]
  refine ⟨by rw [hconsume]; exact h.consume, ?_, hsingle, ?_, ?_⟩
  · rw [hqueue, hconsume]
    exact h.count
  · rw [Bounded, hqueue]
    exact h.bounded
  · rw [hqueue]
    exact hbelow

theorem lt_of_not_shouldThrottle {cfg : Config} {s : State} (h : shouldThrottle cfg s = false) :
    s.queue.cachedMessageQuantity.toNat < cfg.maxCachedMessageQuantity.toNat := by
  rw [shouldThrottle, ProcessQueueImpl.shouldThrottle] at h
  split_ifs at h with hle
  · exact UInt32.lt_iff_toNat_lt.mp (UInt32.not_le.mp hle)
  · exact UInt32.lt_iff_toNat_lt.mp (UInt32.not_le.mp hle)

theorem CountInv.receiveMessage {cfg : Config} {s : State} (h : CountInv cfg s)
    (hlt : s.queue.cachedMessageQuantity.toNat < cfg.maxCachedMessageQuantity.toNat) :
    CountInv cfg (receiveMessage { s with cycle := [] }) := by
  rw [BackPressure.receiveMessage]
  split_ifs
  · exact h.cycle rfl (by simp) (by simp)
  · exact h.cycle rfl (by simp) (by simp)
  · exact h.cycle rfl (by simp [State.add]) fun _ _ _ => hlt

theorem CountInv.setQueue {cfg : Config}
    (hroom : cfg.maxCachedMessageQuantity.toNat - 1 + cfg.receiveBatchSize < 2 ^ 32)
    {s : State} (h : CountInv cfg s) (hp : s.cycle = [.rpc]) {messages : List MQMessageExt}
    (hlen : messages.length ≤ cfg.receiveBatchSize) {w : Work}
    (hw : w = .checkThrottleThenReceive ∨ w = .receiveMessageLater) :
    CountInv cfg ((setQueue { s with cycle := [], clear := false }
      (s.queue.cacheMessages .clustering messages)).add w) := by
  have hlt := h.below .rpc (by simp [hp]) (by simp)
  have hcount := countExact_cacheMessages .clustering h.count
    (show s.queue.cachedMessageQuantity.toNat + messages.length < 2 ^ 32 by omega)
  refine ⟨⟨h.consume.referenced, h.consume.consumerAlive, h.consume.taken, h.consume.nonempty⟩,
    hcount.1, by simp [State.add, BackPressure.setQueue], ?_, ?_⟩
  · have hle := hcount.2
    change (s.queue.cacheMessages .clustering messages).cachedMessageQuantity.toNat ≤ _
    omega
  · intro w' hmem hw'
    simp only [State.add, BackPressure.setQueue, List.nil_append, List.mem_singleton] at hmem
    subst hmem
    rcases hw with rfl | rfl <;> simp at hw'

theorem CountInv.onCompletion {cfg : Config}
    (hroom : cfg.maxCachedMessageQuantity.toNat - 1 + cfg.receiveBatchSize < 2 ^ 32)
    {s t : State} (h : CountInv cfg s) (hp : s.cycle = [.rpc]) {c : Completion (List rmq.Message)}
    (hlen : c.response.length ≤ cfg.receiveBatchSize)
    (ht : onCompletion cfg { s with cycle := [], clear := false } c = some t) : CountInv cfg t := by
  rw [BackPressure.onCompletion] at ht
  split at ht
  · cases ht
  · cases ht
    exact h.cycle rfl (by simp [State.add]) (by simp [State.add])
  · rename_i result hresult
    split_ifs at ht
    · cases ht
      exact h.cycle rfl (by simp) (by simp)
    · obtain ⟨⟨q, next⟩, hq, rfl⟩ := Option.map_eq_some_iff.mp ht
      obtain ⟨messages, hle, rfl⟩ := onSuccess_polling hq
      have hbatch := (hle.trans (onReceiveMessage_length_le hresult)).trans hlen
      cases next with
      | checkThrottleThenReceive => exact h.setQueue hroom hp hbatch (Or.inl rfl)
      | receiveMessageLater => exact h.setQueue hroom hp hbatch (Or.inr rfl)

theorem CountInv.consumes {cfg : Config} {s : State} (h : CountInv cfg s)
    {e : StandardConsume.Event} (he : e.consumes = true) {t : StandardConsume.State}
    (hstep : StandardConsume.step cfg.consume s.consume e = some t) :
    CountInv cfg { s with consume := t } := by
  have hlive : e.live = true := by
    cases e with
    | cacheMessages => cases he
    | dropReference => cases he
    | destroyConsumer => cases he
    | _ => rfl
  have hinv := StandardConsume.step_inv h.consume hlive hstep
  have hok : StandardConsume.ReturnsQuota cfg.consume s.consume e := by
    cases e with
    | cacheMessages => cases he
    | resume i outcome =>
      cases outcome with
      | run => trivial
      | returned status => rfl
    | _ => trivial
  obtain ⟨hcount, hle⟩ :=
    countExact_of_booked (StandardConsume.step_booked h.consume hinv he hstep) hok h.count
  refine ⟨hinv, hcount, h.single, hle.trans h.bounded, fun w hmem hw => ?_⟩
  exact hle.trans_lt (h.below w hmem hw)

theorem step_countInv {cfg : Config}
    (hroom : cfg.maxCachedMessageQuantity.toNat - 1 + cfg.receiveBatchSize < 2 ^ 32)
    {s t : State} {e : Event} (h : CountInv cfg s)
    (hstep : (act cfg s e).map (observe cfg) = some t) : CountInv cfg t := by
  obtain ⟨u, hu, rfl⟩ := Option.map_eq_some_iff.mp hstep
  suffices hinv : CountInv cfg u from hinv.cycle rfl hinv.single hinv.below
  cases act_acts h.single hu with
  | receive w hp hw =>
    apply h.receiveMessage
    exact h.below w (by simp [hp]) (hw.imp_right Or.inr)
  | check hp =>
    refine h.cycle rfl (by simp [State.add]) fun w hmem hw => ?_
    cases hthrottle : shouldThrottle cfg { s with cycle := [] } with
    | true => simp_all [State.add]
    | false => exact lt_of_not_shouldThrottle hthrottle
  | later hp => exact h.cycle rfl (by simp [State.add]) (by simp [State.add])
  | completed hp hlen hres => exact h.onCompletion hroom hp hlen hres
  | consume he hc => exact h.consumes he hc
  | shutdown => exact h.cycle rfl h.single h.below

theorem clearInv_init (cfg : Config) (messageQueue : MQMessageQueue) (filter : FilterExpression) :
    ClearInv (machine cfg messageQueue filter).init := by
  have hq : ¬ cfg.maxCachedMessageQuantity ≤ 0 := UInt32.not_le.mpr cfg.positive
  have hm : cfg.maxCachedMessageMemory ≠ 0 → ¬ cfg.maxCachedMessageMemory ≤ 0 := by
    intro hne hle
    exact hne (UInt64.le_zero_iff.mp hle)
  refine ⟨by simp [machine, observe], fun _ _ _ => ?_, by simp [machine, observe, RequestsClear]⟩
  simp only [machine, observe, Bool.false_or, shouldThrottle, State.queue,
    ProcessQueueImpl.shouldThrottle, hq, if_false]
  split_ifs with hne
  · simpa using hm hne
  · rfl

theorem countInv_init (cfg : Config) (messageQueue : MQMessageQueue) (filter : FilterExpression) :
    CountInv cfg (machine cfg messageQueue filter).init := by
  refine ⟨⟨rfl, rfl, List.Perm.refl [], by simp [machine, observe]⟩, rfl, le_rfl, Nat.zero_le _, ?_⟩
  intro _ _ _
  exact UInt32.lt_iff_toNat_lt.mp cfg.positive

/-- Along every run the counter stays below the limit plus one batch, and each request is
issued after a state, since the last response, in which the queue was not throttled. -/
theorem backPressure_along (cfg : Config) (messageQueue : MQMessageQueue)
    (filter : FilterExpression) (es : List Event) :
    let M := machine cfg messageQueue filter
    M.Along (fun s => Bounded cfg s ∧ RequestsClear s) M.init es := by
  intro M
  by_cases hroom : cfg.maxCachedMessageQuantity.toNat - 1 + cfg.receiveBatchSize < 2 ^ 32
  · exact M.along_of_invariant (J := fun s => CountInv cfg s ∧ ClearInv s)
      (fun s e t h ht => ⟨step_countInv hroom h.1 ht, step_clearInv h.2 ht⟩)
      (fun s h => ⟨h.1.bounded, h.2.requests⟩) es
      ⟨countInv_init cfg messageQueue filter, clearInv_init cfg messageQueue filter⟩
  · -- the bound exceeds the counter's type
    refine M.along_of_invariant (J := ClearInv) (fun s e t h ht => step_clearInv h ht)
      (fun s h => ⟨?_, h.requests⟩) es (clearInv_init cfg messageQueue filter)
    have hlt := s.queue.cachedMessageQuantity.toNat_lt
    rw [Bounded]
    omega

end RocketMQClient.BackPressure
