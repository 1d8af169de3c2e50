import RocketMQClient.Rebalance

/-!
# Rebalancing in polling mode

A polling consumer never asks for an offset, so the model of both modes does what
the model of the receive cycles does: forgetting what only pull mode and the history
need, each of its steps is a step of the receive cycles. When it has at most one
cycle for a queue is then known from there.
-/

namespace RocketMQClient.Rebalance
open EventMachine Pending
open ReceiveCycle (ProcessQueueRef)

def Config.polled (cfg : Config) : ReceiveCycle.Config where
  messageModel := cfg.messageModel
  maxCachedMessageQuantity := cfg.maxCachedMessageQuantity
  maxCachedMessageMemory := cfg.maxCachedMessageMemory
  wrap := cfg.wrap

def Work.polled : Work → ReceiveCycle.Work
  | .starting queues filterExpression => .starting queues filterExpression
  | .receive .timer queue => .timer queue
  | .receive .rpc queue => .rpc queue
  | .receive .query queue => .rpc queue

def State.polled (s : State) : ReceiveCycle.State where
  active := s.active
  table := s.table
  contents := s.contents
  created := s.created
  held := s.held
  pending := s.pending.map Work.polled

def Outcome.polled : Outcome → ReceiveCycle.Outcome
  | .received c => .completed c
  | _ => .run

def Event.polled : Event → ReceiveCycle.Event
  | .syncProcessQueue topic assigned filterExpression expired =>
    .syncProcessQueue topic assigned filterExpression expired
  | .resume i outcome _ => .resume i outcome.polled
  | .hold queue => .hold queue
  | .letGo id => .letGo id
  | .take id batchSize => .take id batchSize
  | .release id bodySize offset => .release id bodySize offset
  | .clear => .clear
  | .shutdown => .shutdown

def NoQuery (s : State) : Prop := ∀ queue, Work.receive .query queue ∉ s.pending

theorem polled_add (s : State) (w : Work) : (s.add w).polled = s.polled.add w.polled := by
  simp [State.polled, State.add, ReceiveCycle.State.add]

theorem polled_alive {s : State} (hs : NoQuery s) (queue : ProcessQueueRef) :
    s.polled.alive queue = s.alive queue := by
  have hnone : s.pending.any (Work.owns queue.id) = false := by
    rw [List.any_eq_false]
    intro w hw
    cases w with
    | starting queues f => nofun
    | receive stage r =>
      cases stage with
      | rpc => nofun
      | query => exact absurd hw (hs r)
      | timer => nofun
  rw [State.alive, hnone, Bool.or_false]
  rfl

theorem polled_getOrCreateProcessQueue (s : State) (q : MQMessageQueue) (f : FilterExpression) :
    ReceiveCycle.getOrCreateProcessQueue s.polled q f =
      ((getOrCreateProcessQueue s q f).1.polled, (getOrCreateProcessQueue s q f).2) := by
  have htable : s.polled.table = s.table := rfl
  rw [ReceiveCycle.getOrCreateProcessQueue, getOrCreateProcessQueue, htable]
  cases s.table.find? fun r => r.messageQueue.same q with
  | some queue => rfl
  | none => rfl

theorem NoQuery.add {s : State} (hs : NoQuery s) {w : Work}
    (hw : ∀ queue, w ≠ .receive .query queue) : NoQuery (s.add w) := by
  intro queue hmem
  rcases List.mem_append.mp hmem with hold | hnew
  · exact hs queue hold
  · exact hw queue (List.mem_singleton.mp hnew).symm

structure Polls (s : State) (c : ReceiveCycle.State) : Prop where
  polled : s.polled = c
  noQuery : NoQuery s

theorem receiveMessageLater_polls {s : State} (hs : NoQuery s) {queue : ProcessQueueRef}
    (halive : s.alive queue = true) :
    Polls (s.add (.receive .timer queue)) (ReceiveCycle.receiveMessageLater s.polled queue) := by
  rw [ReceiveCycle.receiveMessageLater, if_pos ((polled_alive hs queue).trans halive)]
  exact ⟨polled_add _ _, hs.add (by simp)⟩

section Polling
variable {cfg : Config} (hpolling : cfg.action = .polling)
include hpolling

theorem receiveMessage_polls {s : State} (hs : NoQuery s) (q : MQMessageQueue)
    (f : FilterExpression) (stored : Bool) :
    Polls (receiveMessage cfg s q f stored) (ReceiveCycle.receiveMessage s.polled q f) := by
  have hactive : s.polled.active = s.active := rfl
  have hlocated : NoQuery (getOrCreateProcessQueue s q f).1 := by
    rw [NoQuery, (getOrCreateProcessQueue_located s q f).pending]
    exact hs
  simp only [receiveMessage, ReceiveCycle.receiveMessage, polled_getOrCreateProcessQueue,
    hpolling, hactive]
  split_ifs
  · exact ⟨rfl, hs⟩
  · exact ⟨rfl, hlocated⟩
  · exact ⟨polled_add _ _, hlocated.add (by simp)⟩

theorem checkThrottleThenReceive_polls {s : State} (hs : NoQuery s) (queue : ProcessQueueRef)
    (stored : Bool) :
    Polls (goOn cfg s queue stored (checkThrottleThenReceive cfg s queue))
      (ReceiveCycle.checkThrottleThenReceive cfg.polled s.polled queue) := by
  rw [checkThrottleThenReceive, ReceiveCycle.checkThrottleThenReceive, polled_alive hs]
  by_cases halive : s.alive queue = true
  · by_cases hthrottle : (s.contents queue.id).shouldThrottle cfg.maxCachedMessageQuantity
        cfg.maxCachedMessageMemory = true
    · have hthrottle' : (s.polled.contents queue.id).shouldThrottle
          cfg.polled.maxCachedMessageQuantity cfg.polled.maxCachedMessageMemory = true := hthrottle
      simp only [halive, hthrottle, hthrottle', Bool.not_true, Bool.false_eq_true, ↓reduceIte]
      exact receiveMessageLater_polls hs halive
    · have hthrottle' : ¬ (s.polled.contents queue.id).shouldThrottle
          cfg.polled.maxCachedMessageQuantity cfg.polled.maxCachedMessageMemory = true := hthrottle
      simp only [halive, hthrottle, hthrottle', Bool.not_true, Bool.false_eq_true, ↓reduceIte]
      exact receiveMessage_polls hpolling hs _ _ stored
  · simp only [halive, Bool.not_false, ↓reduceIte]
    exact ⟨rfl, hs⟩

theorem onResult_polls {s : State} (hs : NoQuery s) {queue : ProcessQueueRef} {stored : Bool}
    {c : Completion (List rmq.Message)} {result : Except ErrorCode ReceiveMessageResult}
    {r : State × Next} (hc : onReceiveMessage cfg.wrap c = some result)
    (h : onResult cfg s queue result = some r) :
    ∃ u, ReceiveCycle.onCompletion cfg.polled s.polled queue c = some u ∧
      Polls (goOn cfg r.1 queue stored r.2) u := by
  have hc' : onReceiveMessage cfg.polled.wrap c = some result := hc
  have hactive : s.polled.active = s.active := rfl
  rw [ReceiveCycle.onCompletion, hc']
  cases result with
  | error ec =>
    cases h
    refine ⟨_, rfl, ?_⟩
    split_ifs with halive
    · exact receiveMessageLater_polls hs halive
    · rw [ReceiveCycle.receiveMessageLater, polled_alive hs, if_neg halive]
      exact ⟨rfl, hs⟩
  | ok result =>
    simp only [onResult] at h
    simp only [polled_alive hs, hactive]
    split_ifs at h ⊢ with hdead hstopped
    · cases h
      exact ⟨_, rfl, rfl, hs⟩
    · cases h
      exact ⟨_, rfl, rfl, hs⟩
    · obtain ⟨⟨q, continuation⟩, hsuccess, rfl⟩ := Option.map_eq_some_iff.mp h
      have hsuccess' : onSuccess cfg.polled.messageModel .polling (s.polled.contents queue.id)
          result = some (q, continuation) := by
        rw [← hpolling]
        exact hsuccess
      rw [hsuccess', Option.map_some]
      have hset : NoQuery (s.setContents queue.id q) := hs
      cases continuation with
      | checkThrottleThenReceive =>
        exact ⟨_, rfl, checkThrottleThenReceive_polls hpolling hset queue stored⟩
      | receiveMessageLater =>
        have halive : s.alive queue = true := by simpa using hdead
        exact ⟨_, rfl, receiveMessageLater_polls hset halive⟩

theorem resume_polls {s t : State} {w : Work} {outcome : Outcome} {stored : Bool}
    (hs : NoQuery s) (hw : ∀ queue, w ≠ .receive .query queue)
    (h : resume cfg s outcome stored w = some t) :
    ∃ u, ReceiveCycle.resume cfg.polled s.polled w.polled outcome.polled = some u ∧
      Polls t u := by
  cases w with
  | starting queues f =>
    cases outcome with
    | run =>
      cases queues with
      | nil =>
        cases h
        exact ⟨_, rfl, rfl, hs⟩
      | cons q queues =>
        cases h
        have hreceive := receiveMessage_polls hpolling hs q f stored
        refine ⟨_, rfl, ?_, hreceive.noQuery.add (by simp)⟩
        rw [polled_add, hreceive.polled]
        rfl
    | received c => cases queues <;> cases h
    | pulled c => cases queues <;> cases h
    | queried c => cases queues <;> cases h
  | receive stage queue =>
    obtain ⟨r, hcall, rfl⟩ := Option.map_eq_some_iff.mp h
    cases stage with
    | query => exact absurd rfl (hw queue)
    | rpc =>
      cases outcome with
      | received c =>
        simp only [callback, hpolling, if_true] at hcall
        obtain ⟨result, hc, hresult⟩ := Option.bind_eq_some_iff.mp hcall
        exact onResult_polls hpolling hs hc hresult
      | run => cases hcall
      | pulled c => simp [callback, hpolling] at hcall
      | queried c => cases hcall
    | timer =>
      cases outcome with
      | run =>
        cases hcall
        exact ⟨_, rfl, checkThrottleThenReceive_polls hpolling hs queue stored⟩
      | received c => cases hcall
      | pulled c => cases hcall
      | queried c => cases hcall

theorem step_polls {s t : State} {e : Event} (hs : NoQuery s) (h : step cfg s e = some t) :
    ∃ u, ReceiveCycle.step cfg.polled s.polled e.polled = some u ∧ Polls t u := by
  cases e with
  | syncProcessQueue topic assigned f expired =>
    cases h
    have hdrop : NoQuery (dropUnassigned s topic assigned expired) := hs
    exact ⟨_, rfl, polled_add _ _, hdrop.add (by simp)⟩
  | resume i outcome stored =>
    obtain ⟨⟨w, rest⟩, hpick, hres⟩ := Option.bind_eq_some_iff.mp h
    have hrest : NoQuery { s with pending := rest } := fun queue hq =>
      hs queue (mem_of_mem_rest hpick hq)
    have hw : ∀ queue, w ≠ .receive .query queue := fun queue heq =>
      hs queue (heq ▸ mem_of_pick hpick)
    obtain ⟨u, hu, hpolls⟩ := resume_polls hpolling hrest hw hres
    refine ⟨u, ?_, hpolls⟩
    have hpick' : pick s.polled.pending i = some (w.polled, rest.map Work.polled) := by
      rw [State.polled, pick_map, hpick, Option.map_some]
    simp only [Event.polled, ReceiveCycle.step, hpick', Option.bind_some]
    exact hu
  | hold queue =>
    simp only [step] at h
    split_ifs at h with halive
    cases h
    refine ⟨_, ?_, rfl, hs⟩
    simp only [Event.polled, ReceiveCycle.step, polled_alive hs, halive, if_true]
    rfl
  | letGo id =>
    cases h
    exact ⟨_, rfl, rfl, hs⟩
  | take id batchSize =>
    cases h
    exact ⟨_, rfl, rfl, hs⟩
  | release id bodySize offset =>
    obtain ⟨q, hq, rfl⟩ := Option.map_eq_some_iff.mp h
    have hq' : (s.polled.contents id).release cfg.polled.messageModel bodySize offset =
        some q := hq
    refine ⟨_, ?_, rfl, hs⟩
    simp only [Event.polled, ReceiveCycle.step, hq', Option.map_some]
    rfl
  | clear =>
    cases h
    exact ⟨_, rfl, rfl, hs⟩
  | shutdown =>
    cases h
    exact ⟨_, rfl, rfl, hs⟩

/-- Along a run of a polling consumer each queue has at most one receive cycle exactly if
every cycle is started for a queue that has none. -/
theorem polled_atMostOneCycle_along_iff (es : List Event) :
    (machine cfg).Along (fun s => ReceiveCycle.AtMostOneCycle s.polled) (machine cfg).init es ↔
      (machine cfg).Guarded (fun s e => ReceiveCycle.StartsIdle s.polled e.polled)
        (machine cfg).init es := by
  refine (machine cfg).along_iff_guarded (J := NoQuery) (A := fun _ => True) ?_ ?_ es
    (fun _ _ => trivial) nofun List.nodup_nil
  · intro s e t hs _ h
    obtain ⟨u, -, hpolls⟩ := step_polls hpolling hs h
    exact hpolls.noQuery
  · intro s e t hs hone _ h
    obtain ⟨u, hu, rfl, -⟩ := step_polls hpolling hs h
    exact ReceiveCycle.step_atMostOneCycle_iff hone hu

end Polling
end RocketMQClient.Rebalance
