import RocketMQClient.ReceiveMessage
import RocketMQClient.FifoSafety
import RocketMQClient.StandardConsume

/-!
# The broker a message came from

A message remembers the broker that delivered it as its target endpoint, and
`ack`, `nack` and `forwardToDeadLetterQueue` send their request there. The pop
decoder sets the endpoint before it decodes a message; the pull decoder starts
from a message without one. Both note the host in the result.

Each message is decoded at its own time: `surroundings` gives the clock, the
host name and the fresh identity that decoding it reads.
-/

namespace RocketMQClient.BrokerEndpoint
open EventMachine Pending
open MessageAccessor (targetEndpoint setTargetEndpoint)

structure Decoder where
  zlib : Zlib
  digests : Digests
  resourceNamespace : String := ""
  surroundings : rmq.Message → Surroundings := fun _ => {}

structure ReceiveMessageResponse where
  messages : List rmq.Message := []
  deliveryTimestamp : rmq.Timestamp := {}
  invisibleDuration : rmq.Timestamp := {}

structure SourcedResult extends ReceiveMessageResult where
  popTime : ℤ := 0
  invisibleTime : ℤ := 0
  sourceHost : String := ""

def Decoder.wrap (dec : Decoder) (endpoint : String) (item : rmq.Message) : Decoded :=
  wrapMessage dec.zlib dec.digests dec.resourceNamespace (dec.surroundings item) item
    (freshMessage (dec.surroundings item) endpoint)

def processPopResult (dec : Decoder) (code : Code) (response : ReceiveMessageResponse)
    (targetHost : String) : Option SourcedResult :=
  (RocketMQClient.processPopResult (dec.wrap targetHost) code response.messages).map fun r =>
    { toReceiveMessageResult := r
      popTime := timeOf response.deliveryTimestamp
      invisibleTime :=
        response.invisibleDuration.seconds * 10 ^ 9 + response.invisibleDuration.nanos
      sourceHost := targetHost }

def processPullResult (dec : Decoder) (code : Code) (response : PullMessageResponse)
    (targetHost : String) : Option SourcedResult :=
  -- no endpoint is set on a message before it is decoded
  (RocketMQClient.processPullResult (dec.wrap "") code response).map fun r =>
    { toReceiveMessageResult := r, sourceHost := if code = .ok then targetHost else "" }

/-- The host that `PushConsumerImpl::ack` calls; an empty one fails its assertion. -/
def ack (msg : MQMessageExt) : Option String :=
  if (targetEndpoint msg).isEmpty then none else some (targetEndpoint msg)

def nack (msg : MQMessageExt) : String := targetEndpoint msg

def forwardToDeadLetterQueue (message : MQMessageExt) : String := targetEndpoint message

theorem Decoder.wrap_accepted {dec : Decoder} {endpoint : String} {item : rmq.Message}
    {m : MQMessageExt} (h : dec.wrap endpoint item = .accepted m) (endpoint' : String) :
    dec.wrap endpoint' item = .accepted (setTargetEndpoint m endpoint') ∧
      targetEndpoint m = endpoint := by
  simp only [Decoder.wrap, wrapMessage] at h ⊢
  split_ifs at h ⊢ with hns hdigest
  cases h
  exact ⟨rfl, rfl⟩

theorem decodeSkipping_accepted {wrap : rmq.Message → Decoded} {items : List rmq.Message}
    {f : rmq.Message → MQMessageExt} (h : ∀ item ∈ items, wrap item = .accepted (f item)) :
    decodeSkipping wrap items = some (items.map f) := by
  induction items with
  | nil => rfl
  | cons item items ih =>
    rw [decodeSkipping, h item (by simp), ih fun i hi => h i (by simp [hi])]
    rfl

theorem Decoder.wrap_aborted_iff {dec : Decoder} {endpoint : String} {item : rmq.Message} :
    dec.wrap endpoint item = .aborted ↔
      item.topic.resourceNamespace ≠ dec.resourceNamespace := by
  rw [Decoder.wrap, wrapMessage]
  split_ifs with hns
  · exact iff_of_true rfl hns
  · exact iff_of_false (by simp) hns
  · exact iff_of_false (by simp) hns

theorem decodeSkipping_isSome_iff {wrap : rmq.Message → Decoded} {items : List rmq.Message} :
    (decodeSkipping wrap items).isSome = true ↔ ∀ item ∈ items, wrap item ≠ .aborted := by
  induction items with
  | nil => simp [decodeSkipping]
  | cons item items ih =>
    rw [List.forall_mem_cons, ← ih, decodeSkipping]
    split
    · rename_i h
      simp [h]
    · rename_i h
      simp [h]
    · rename_i h
      simp [h]

theorem decodeUntilCorrupted_accepted {wrap : rmq.Message → Decoded} {items : List rmq.Message}
    {f : rmq.Message → MQMessageExt} (h : ∀ item ∈ items, wrap item = .accepted (f item)) :
    decodeUntilCorrupted wrap items = some (items.map f, true) := by
  induction items with
  | nil => rfl
  | cons item items ih =>
    rw [decodeUntilCorrupted, h item (by simp), ih fun i hi => h i (by simp [hi])]
    rfl

def Passes (dec : Decoder) (item : rmq.Message) : Prop := ∃ m, dec.wrap "" item = .accepted m

def decoded (dec : Decoder) (endpoint : String) (item : rmq.Message) : MQMessageExt :=
  match dec.wrap endpoint item with
  | .accepted message => message
  | _ => {}

theorem wrap_eq_decoded {dec : Decoder} {item : rmq.Message} (h : Passes dec item)
    (endpoint : String) : dec.wrap endpoint item = .accepted (decoded dec endpoint item) := by
  obtain ⟨m, hm⟩ := h
  rw [decoded, (Decoder.wrap_accepted hm endpoint).1]

theorem targetEndpoint_decoded {dec : Decoder} {item : rmq.Message} (h : Passes dec item)
    (endpoint : String) : targetEndpoint (decoded dec endpoint item) = endpoint :=
  (Decoder.wrap_accepted (wrap_eq_decoded h endpoint) "").2

theorem processPopResult_passes {dec : Decoder} {response : ReceiveMessageResponse}
    (h : ∀ item ∈ response.messages, Passes dec item) (targetHost : String) :
    ∃ r, processPopResult dec .ok response targetHost = some r ∧ r.sourceHost = targetHost ∧
      r.messages = response.messages.map (decoded dec targetHost) := by
  have hwrap : ∀ item ∈ response.messages,
      dec.wrap targetHost item = .accepted (decoded dec targetHost item) :=
    fun item hitem => wrap_eq_decoded (h item hitem) targetHost
  have hpop : RocketMQClient.processPopResult (dec.wrap targetHost) .ok response.messages =
      some { status := .ok, messages := response.messages.map (decoded dec targetHost) } := by
    rw [RocketMQClient.processPopResult, decodeSkipping_accepted hwrap]
    rfl
  rw [processPopResult, hpop]
  exact ⟨_, rfl, rfl, rfl⟩

theorem processPullResult_passes {dec : Decoder} (response : PullMessageResponse)
    (hne : response.messages ≠ []) (h : ∀ item ∈ response.messages, Passes dec item)
    (targetHost : String) :
    ∃ r, processPullResult dec .ok response targetHost = some r ∧ r.sourceHost = targetHost ∧
      r.messages = response.messages.map (decoded dec "") := by
  have hwrap : ∀ item ∈ response.messages, dec.wrap "" item = .accepted (decoded dec "" item) :=
    fun item hitem => wrap_eq_decoded (h item hitem) ""
  have hpull : RocketMQClient.processPullResult (dec.wrap "") .ok response =
      some { status := .ok, messages := response.messages.map (decoded dec "") } := by
    rw [RocketMQClient.processPullResult, if_neg (by simp), if_neg (by simpa using hne),
      decodeUntilCorrupted_accepted hwrap]
    rfl
  rw [processPullResult, hpull]
  exact ⟨_, rfl, rfl, rfl⟩

/-! A consume service hands on the messages it accepted, and changes at most
their delivery attempt. -/

theorem forall_accepted {accepted accepted' : List MQMessageExt} {cached : List MQMessageExt → Prop}
    {accept : MQMessageExt → Bool} {P : MQMessageExt → Prop}
    (h : accepted' = accepted ∨
      ∃ messages, cached messages ∧ accepted' = accepted ++ messages.filter accept)
    (hold : ∀ a ∈ accepted, P a) (hnew : ∀ messages, cached messages → ∀ m ∈ messages, P m) :
    ∀ a ∈ accepted', P a := by
  intro a ha
  rcases h with rfl | ⟨messages, hcached, rfl⟩
  · exact hold a ha
  · rcases List.mem_append.mp ha with ha | ha
    · exact hold a ha
    · exact hnew messages hcached a (List.mem_filter.mp ha).1

section Fifo
open FifoConsume

theorem targetEndpoint_eq_of_origin {m a : MQMessageExt} (h : origin m = origin a) :
    targetEndpoint m = targetEndpoint a := by
  change targetEndpoint (origin m) = targetEndpoint (origin a)
  rw [h]

theorem fifo_accepted {cfg : Config} {s t : State} {e : Event}
    (hstep : step cfg s e = some t) :
    t.accepted = s.accepted ∨
      ∃ messages, e = .cacheMessages messages ∧
        t.accepted = s.accepted ++ messages.filter s.processQueue.filterExpression.accept := by
  cases e with
  | cacheMessages messages =>
    cases hstep
    rw [cacheMessages]
    split_ifs
    · exact Or.inr ⟨messages, rfl, rfl⟩
    · exact Or.inl rfl
  | submitConsumeTask =>
    cases hstep
    rcases submitConsumeTask_cases s with ht | ⟨-, ht⟩ <;> exact Or.inl (by rw [ht])
  | resume i outcome =>
    obtain ⟨⟨task, rest⟩, -, hres⟩ := Option.bind_eq_some_iff.mp hstep
    cases task with
    | held g id m => exact Or.inl (resume_continued hres).frame.accepted
    | dispatch =>
      cases outcome with
      | run =>
        cases hres
        rcases takeThenSubmit_cases { s with pending := rest } with ⟨-, ht⟩ | ⟨m, -, ht⟩ |
          ⟨m, m', l, -, ht⟩ <;> exact Or.inl (by rw [ht])
      | returned _ => cases hres
      | acked _ => cases hres
      | forwarded _ => cases hres
  | destroyProcessQueue =>
    cases hstep
    exact Or.inl rfl
  | destroyConsumer =>
    cases hstep
    exact Or.inl rfl

theorem fifo_held {cfg : Config} {filter : FilterExpression} {es : List Event} {s : State}
    {P : String → Prop}
    (hes : ∀ messages, .cacheMessages messages ∈ es → ∀ m ∈ messages, P (targetEndpoint m))
    (hrun : (machine cfg filter).run es = some s) {g : Stage} {id : ℕ} {m : MQMessageExt}
    (hheld : .held g id m ∈ s.pending) : P (targetEndpoint m) := by
  have haccepted : ∀ a ∈ s.accepted, P (targetEndpoint a) := by
    refine (machine cfg filter).runFrom_invariant
      (I := fun s : State => ∀ a ∈ s.accepted, P (targetEndpoint a))
      (A := fun e => ∀ messages, e = .cacheMessages messages → ∀ m ∈ messages, P (targetEndpoint m))
      ?_ es (fun e he messages heq => hes messages (heq ▸ he)) (by simp [machine]) hrun
    intro s e t hI hA hstep
    exact forall_accepted (P := fun a => P (targetEndpoint a)) (fifo_accepted hstep) hI hA
  obtain ⟨a, ha, horigin⟩ := (run_inv hrun).held g id m hheld
  rw [targetEndpoint_eq_of_origin horigin]
  exact haccepted a (List.mem_of_getElem? ha)

end Fifo

section Standard
open StandardConsume

structure Sourced (s : State) : Prop where
  cached : ∀ m ∈ s.processQueue.cachedMessages, m ∈ s.accepted
  inFlight : ∀ m ∈ inFlight s, m ∈ s.accepted
  finished : ∀ m ∈ s.finished, m ∈ s.accepted
  nonempty : ∀ task ∈ s.pending, task.Nonempty

theorem Sourced.continued {cfg : Config} {s t : State} {i : ℕ} {task : Task} {rest : List Task}
    {outcome : Outcome} (h : Sourced s) (hpick : pick s.pending i = some (task, rest))
    (hc : Continued cfg { s with pending := rest } task outcome t) : Sourced t := by
  have hflight : ∀ m, m ∈ task.messages ∨ m ∈ StandardConsume.inFlight { s with pending := rest } →
      m ∈ s.accepted := fun m hm =>
    h.inFlight m ((inFlight_pick hpick).mem_iff.mpr (List.mem_append.mpr hm))
  have hrest : ∀ task' ∈ rest, task' ∈ s.pending := fun task' hmem =>
    mem_of_mem_rest hpick hmem
  have hframe := hc.frame
  have haccepted : t.accepted = s.accepted := hframe.accepted
  have hnonempty : ∀ task' ∈ t.pending, task'.Nonempty := fun task' hmem =>
    (hframe.tasks task' hmem).elim (fun h' => h.nonempty _ (hrest _ h')) id
  have hsource : ∀ m, m ∈ t.processQueue.cachedMessages ∨
      m ∈ StandardConsume.inFlight t ∨ m ∈ t.finished → m ∈ t.accepted := by
    intro m hm
    rw [haccepted]
    rcases hc.source hm with hm | hm | hm | hm
    · exact hflight m (Or.inl hm)
    · exact h.cached m hm
    · exact hflight m (Or.inr hm)
    · exact h.finished m hm
  exact ⟨fun m hm => hsource m (Or.inl hm), fun m hm => hsource m (Or.inr (Or.inl hm)),
    fun m hm => hsource m (Or.inr (Or.inr hm)), hnonempty⟩

theorem Sourced.cacheMessages {cfg : Config} {s : State} (h : Sourced s)
    (messages : List MQMessageExt) : Sourced (StandardConsume.cacheMessages cfg s messages) := by
  rw [StandardConsume.cacheMessages]
  split_ifs
  · refine ⟨fun m hm => ?_, fun m hm => List.mem_append_left _ (h.inFlight m hm),
      fun m hm => List.mem_append_left _ (h.finished m hm), h.nonempty⟩
    rw [ProcessQueueImpl.cacheMessages_cachedMessages, List.mem_append] at hm
    exact List.mem_append.mpr (hm.imp (h.cached m) id)
  · exact h

theorem Sourced.submitConsumeTask {cfg : Config} {s : State} (h : Sourced s) :
    Sourced (StandardConsume.submitConsumeTask cfg s) := by
  rw [StandardConsume.submitConsumeTask]
  split_ifs
  · refine ⟨h.cached, fun m hm => ?_, h.finished, fun task hmem => ?_⟩
    · rw [inFlight_add, Task.messages, List.append_nil] at hm
      exact h.inFlight m hm
    · have hadd : Frame s (s.add .dispatch) := (Frame.refl s).add trivial
      exact (hadd.tasks task hmem).elim (h.nonempty task) id
  · exact h

theorem Sourced.step {cfg : Config} {s t : State} {e : Event} (h : Sourced s)
    (hstep : step cfg s e = some t) : Sourced t := by
  cases e with
  | cacheMessages messages =>
    cases hstep
    exact h.cacheMessages messages
  | submitConsumeTask =>
    cases hstep
    exact h.submitConsumeTask
  | resume i outcome =>
    obtain ⟨⟨task, rest⟩, hpick, hres⟩ := Option.bind_eq_some_iff.mp hstep
    have hne : task.Nonempty := h.nonempty task (mem_of_pick hpick)
    exact h.continued hpick (resume_continued hne hres)
  | dropReference =>
    cases hstep
    exact ⟨h.cached, h.inFlight, h.finished, h.nonempty⟩
  | destroyConsumer =>
    cases hstep
    exact ⟨h.cached, h.inFlight, h.finished, h.nonempty⟩

theorem standard_accepted {cfg : Config} {s t : State} {e : Event} (h : Sourced s)
    (hstep : StandardConsume.step cfg s e = some t) :
    t.accepted = s.accepted ∨
      ∃ messages, e = .cacheMessages messages ∧
        t.accepted = s.accepted ++ messages.filter s.processQueue.filterExpression.accept := by
  cases e with
  | cacheMessages messages =>
    cases hstep
    rw [StandardConsume.cacheMessages]
    split_ifs
    · exact Or.inr ⟨messages, rfl, rfl⟩
    · exact Or.inl rfl
  | submitConsumeTask =>
    cases hstep
    rw [StandardConsume.submitConsumeTask]
    split_ifs <;> exact Or.inl rfl
  | resume i outcome =>
    obtain ⟨⟨task, rest⟩, hpick, hres⟩ := Option.bind_eq_some_iff.mp hstep
    have hne : task.Nonempty := h.nonempty task (mem_of_pick hpick)
    exact Or.inl (resume_continued hne hres).frame.accepted
  | dropReference =>
    cases hstep
    exact Or.inl rfl
  | destroyConsumer =>
    cases hstep
    exact Or.inl rfl

theorem standard_finished {cfg : Config} {filter : FilterExpression} {es : List Event}
    {s : State} {P : String → Prop}
    (hes : ∀ messages, .cacheMessages messages ∈ es → ∀ m ∈ messages, P (targetEndpoint m))
    (hrun : (machine cfg filter).run es = some s) {m : MQMessageExt} (hm : m ∈ s.finished) :
    P (targetEndpoint m) := by
  have hinv : Sourced s ∧ ∀ a ∈ s.accepted, P (targetEndpoint a) := by
    refine (machine cfg filter).runFrom_invariant
      (I := fun s : State => Sourced s ∧ ∀ a ∈ s.accepted, P (targetEndpoint a))
      (A := fun e => ∀ messages, e = .cacheMessages messages → ∀ m ∈ messages, P (targetEndpoint m))
      ?_ es (fun e he messages heq => hes messages (heq ▸ he))
      ⟨⟨by simp [machine], by simp [machine, inFlight], by simp [machine], by simp [machine]⟩,
        by simp [machine]⟩ hrun
    rintro s e t ⟨hsourced, hI⟩ hA hstep
    refine ⟨hsourced.step hstep, ?_⟩
    exact forall_accepted (P := fun a => P (targetEndpoint a))
      (standard_accepted hsourced hstep) hI hA
  exact hinv.2 m (hinv.1.finished m hm)

end Standard

def received (dec : Decoder) (targetHost : String) (response : ReceiveMessageResponse)
    (nextOffset : ℤ) : ReceiveMessageAction → Option SourcedResult
  | .polling => processPopResult dec .ok response targetHost
  | .pull =>
    processPullResult dec .ok
      { messages := response.messages, nextOffset := nextOffset } targetHost

def Addressed (m : MQMessageExt) : Prop :=
  ack m ≠ none ∧ nack m ≠ "" ∧ forwardToDeadLetterQueue m ≠ ""

theorem addressed_iff {m : MQMessageExt} : Addressed m ↔ targetEndpoint m ≠ "" := by
  simp [Addressed, ack, nack, forwardToDeadLetterQueue, String.isEmpty_iff]

/-- In the runs of a consume service that is given only messages of the list, each
message that it settles is addressed, and so is each one that the filter rejects
and that is acknowledged at once. -/
structure SettledAddressed (messages : List MQMessageExt) : Prop where
  rejected : ∀ m ∈ messages, Addressed m
  fifo : ∀ cfg filter es s, (∀ l, .cacheMessages l ∈ es → ∀ m ∈ l, m ∈ messages) →
    (FifoConsume.machine cfg filter).run es = some s →
    ∀ g id m, .held g id m ∈ s.pending → Addressed m
  standard : ∀ cfg filter es s, (∀ l, .cacheMessages l ∈ es → ∀ m ∈ l, m ∈ messages) →
    (StandardConsume.machine cfg filter).run es = some s → ∀ m ∈ s.finished, Addressed m

theorem settledAddressed {messages : List MQMessageExt}
    (h : ∀ m ∈ messages, targetEndpoint m ≠ "") : SettledAddressed messages where
  rejected m hm := addressed_iff.mpr (h m hm)
  fifo _ _ _ _ hes hrun _ _ _ hheld := addressed_iff.mpr <|
    fifo_held (P := fun endpoint => endpoint ≠ "") (fun l hl m hm => h m (hes l hl m hm)) hrun hheld
  standard _ _ _ _ hes hrun _ hm := addressed_iff.mpr <|
    standard_finished (P := fun endpoint => endpoint ≠ "") (fun l hl m hm => h m (hes l hl m hm))
      hrun hm

/-- The result of a receive mode names the broker, has the messages of the popped
result, and each of its messages can be settled at that broker. -/
def CarriesBroker (dec : Decoder) (targetHost : String) (response : ReceiveMessageResponse)
    (nextOffset : ℤ) (action : ReceiveMessageAction) : Prop :=
  ∃ r popped, received dec targetHost response nextOffset action = some r ∧
    received dec targetHost response nextOffset .polling = some popped ∧
    r.sourceHost = targetHost ∧ r.sourceHost = popped.sourceHost ∧
    r.messages = popped.messages ∧ (∀ m ∈ r.messages, targetEndpoint m = targetHost) ∧
    (targetHost ≠ "" → SettledAddressed r.messages)

theorem carriesBroker_iff (dec : Decoder) (targetHost : String)
    (response : ReceiveMessageResponse) (nextOffset : ℤ) (action : ReceiveMessageAction)
    (hne : response.messages ≠ []) (hpass : ∀ item ∈ response.messages, Passes dec item) :
    CarriesBroker dec targetHost response nextOffset action ↔
      action = .polling ∨ targetHost = "" := by
  obtain ⟨popped, hpop, hpopHost, hpopMessages⟩ := processPopResult_passes hpass targetHost
  have hendpoint : ∀ m ∈ popped.messages, targetEndpoint m = targetHost := by
    rw [hpopMessages]
    intro m hm
    obtain ⟨item, hitem, rfl⟩ := List.mem_map.mp hm
    exact targetEndpoint_decoded (hpass item hitem) targetHost
  have hsettled : targetHost ≠ "" → SettledAddressed popped.messages := fun hhost =>
    settledAddressed fun m hm => (hendpoint m hm).symm ▸ hhost
  cases action with
  | polling =>
    exact iff_of_true
      ⟨popped, popped, hpop, hpop, hpopHost, rfl, rfl, hendpoint, hsettled⟩ (Or.inl rfl)
  | pull =>
    obtain ⟨pulled, hpull, hpullHost, hpullMessages⟩ := processPullResult_passes
      { messages := response.messages, nextOffset := nextOffset } hne hpass targetHost
    constructor
    · rintro ⟨r, -, hr, -, -, -, -, hall, -⟩
      cases hpull.symm.trans hr
      obtain ⟨item, items, hitems⟩ := List.exists_cons_of_ne_nil hne
      have hfirst : decoded dec "" item ∈ pulled.messages := by simp [hpullMessages, hitems]
      have hitem : Passes dec item := hpass item (by simp [hitems])
      exact Or.inr ((hall _ hfirst).symm.trans (targetEndpoint_decoded hitem ""))
    · rintro (hpolling | rfl)
      · cases hpolling
      · have hsame : pulled.messages = popped.messages := hpullMessages.trans hpopMessages.symm
        exact ⟨pulled, popped, hpull, hpop, hpullHost, hpullHost.trans hpopHost.symm, hsame,
          fun m hm => hendpoint m (hsame ▸ hm), fun h => absurd rfl h⟩

def plainDecoder : Decoder := { zlib := Zlib.stored, digests := Digests.zero }

theorem popped_message_carries_broker :
    CarriesBroker plainDecoder "ipv4:10.0.0.1:8081" { messages := [{}] } 0 .polling := by
  refine (carriesBroker_iff plainDecoder _ _ _ _ (by simp) fun item hitem => ?_).mpr (Or.inl rfl)
  rw [List.mem_singleton.mp hitem]
  exact ⟨_, rfl⟩

theorem pulled_message_has_no_endpoint :
    Passes plainDecoder {} ∧
    (∃ r m, received plainDecoder "ipv4:10.0.0.1:8081" { messages := [{}] } 0 .pull = some r ∧
      r.sourceHost = "ipv4:10.0.0.1:8081" ∧ r.messages = [m] ∧ ack m = none) ∧
    ¬ CarriesBroker plainDecoder "ipv4:10.0.0.1:8081" { messages := [{}] } 0 .pull := by
  refine ⟨⟨_, rfl⟩, ⟨_, _, rfl, rfl, rfl, rfl⟩, ?_⟩
  rintro ⟨r, -, hr, -, -, -, -, hall, -⟩
  cases hr
  exact absurd (hall _ (List.mem_singleton.mpr rfl)) (by decide)

end RocketMQClient.BrokerEndpoint
