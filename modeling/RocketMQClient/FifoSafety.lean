import RocketMQClient.FifoConsume
import RocketMQClient.Library.SerialQueue

/-!
# FIFO consumption: order, exclusion, conservation

The FIFO service is meant to be a queue that hands out one message at a time.
`serial` reads that queue off a state, and `step_simulates` says that each event
is a move of it, so order and exclusion hold in every run. The flag and the
outstanding work agree only while no move gets the queue stuck, which is what
the two equivalences over whole runs make precise.
-/

namespace RocketMQClient.FifoConsume
open EventMachine Pending SerialQueue

def origin (m : MQMessageExt) : MQMessageExt := MessageAccessor.setDeliveryAttempt m 0

theorem origin_setDeliveryAttempt (m : MQMessageExt) (n : ℤ) :
    origin (MessageAccessor.setDeliveryAttempt m n) = origin m := rfl

def phase (s : State) : Phase :=
  match s.pending with
  | [] => if s.processQueue.hasFifoTaskBound then .stuck else .free
  | .dispatch :: _ => .bound
  | .held _ id _ :: _ => .holding id

def serial (s : State) : Queue :=
  { appended := s.accepted.length
    taken := s.taken
    phase := phase s
    settled := s.settled
    delivered := s.delivered }

structure Wf (s : State) : Prop where
  pending : s.pending.length ≤ if s.processQueue.hasFifoTaskBound then 1 else 0
  cached : s.processQueue.cachedMessages = s.accepted.drop s.taken
  held : ∀ g id m, .held g id m ∈ s.pending →
    ∃ a, s.accepted[id]? = some a ∧ origin m = origin a

structure Inv (s : State) : Prop extends Wf s where
  serial : SerialQueue.Inv (serial s)

theorem Wf.pending_le {s : State} (h : Wf s) : s.pending.length ≤ 1 :=
  h.pending.trans (by split_ifs <;> omega)

theorem Wf.pending_nil {s : State} (h : Wf s) (hb : s.processQueue.hasFifoTaskBound = false) :
    s.pending = [] := by
  have hp := h.pending
  rw [hb] at hp
  exact List.length_eq_zero_iff.mp (Nat.le_zero.mp hp)

theorem Wf.bound {s : State} (h : Wf s) (hne : s.pending ≠ []) :
    s.processQueue.hasFifoTaskBound = true :=
  Bool.of_not_eq_false fun hb => hne (h.pending_nil hb)

theorem inv_init (cfg : Config) (filter : FilterExpression) : Inv (machine cfg filter).init :=
  ⟨⟨by simp [machine], by simp [machine], by simp [machine]⟩, SerialQueue.inv_init⟩

structure Frame (s t : State) : Prop where
  cached : t.processQueue.cachedMessages = s.processQueue.cachedMessages
  accepted : t.accepted = s.accepted
  taken : t.taken = s.taken
  processQueueAlive : t.processQueueAlive = s.processQueueAlive
  consumerAlive : t.consumerAlive = s.consumerAlive

def State.alive (s : State) : Bool := s.processQueueAlive && s.consumerAlive

inductive Continued (cfg : Config) (s : State) (g : Stage) (id : ℕ) (m : MQMessageExt)
    (t : State) : Prop
  | passOn (g' : Stage) (m' : MQMessageExt) (frame : Frame s t)
      (pending : t.pending = s.pending ++ [.held g' id m']) (same : origin m' = origin m)
      (bound : t.processQueue.hasFifoTaskBound = s.processQueue.hasFifoTaskBound)
      (settled : t.settled = s.settled) (delivered : t.delivered = s.delivered)
      (model : g = .running → cfg.messageModel = .clustering)
  | deliver (frame : Frame s t) (pending : t.pending = s.pending ++ [.held .running id m])
      (bound : t.processQueue.hasFifoTaskBound = s.processQueue.hasFifoTaskBound)
      (settled : t.settled = s.settled) (delivered : t.delivered = s.delivered ++ [id])
      (stage : g = .consume)
  | drop (frame : Frame s t) (pending : t.pending = s.pending)
      (bound : t.processQueue.hasFifoTaskBound = s.processQueue.hasFifoTaskBound)
      (settled : t.settled = s.settled) (delivered : t.delivered = s.delivered)
      (reason : s.alive = false ∨ g = .running ∧ cfg.messageModel = .broadcasting)
  | settle (frame : Frame s t) (pending : t.pending = s.pending)
      (bound : t.processQueue.hasFifoTaskBound =
        if s.processQueueAlive then false else s.processQueue.hasFifoTaskBound)
      (settled : t.settled = s.settled ++ [id]) (delivered : t.delivered = s.delivered)
      (stage : g ≠ .running)

theorem Continued.frame {cfg : Config} {s t : State} {g : Stage} {id : ℕ} {m : MQMessageExt}
    (h : Continued cfg s g id m t) : Frame s t := by
  cases h with
  | passOn _ _ frame => exact frame
  | deliver frame => exact frame
  | drop frame => exact frame
  | settle frame => exact frame

theorem Frame.refl (s : State) : Frame s s := ⟨rfl, rfl, rfl, rfl, rfl⟩

theorem Frame.hold (s : State) (g : Stage) (id : ℕ) (m : MQMessageExt) :
    Frame s (s.hold g id m) := ⟨rfl, rfl, rfl, rfl, rfl⟩

theorem Continued.hold {cfg : Config} {s : State} {g g' : Stage} {id : ℕ} {m m' : MQMessageExt}
    (same : origin m' = origin m) (model : g = .running → cfg.messageModel = .clustering) :
    Continued cfg s g id m (s.hold g' id m') :=
  .passOn g' m' (Frame.hold s g' id m') rfl same rfl rfl rfl model

theorem Continued.lost {cfg : Config} {s : State} {g : Stage} {id : ℕ} {m : MQMessageExt}
    (h : s.alive = false) : Continued cfg s g id m s :=
  .drop (Frame.refl s) rfl rfl rfl rfl (Or.inl h)

theorem unbindFifoConsumeTask_queue (q : ProcessQueueImpl) :
    q.unbindFifoConsumeTask.2 = { q with hasFifoTaskBound := false } := by
  cases hb : q.hasFifoTaskBound with
  | true => simp [ProcessQueueImpl.unbindFifoConsumeTask, hb]
  | false =>
    rw [ProcessQueueImpl.unbindFifoConsumeTask, if_neg (by simp [hb]), ← hb]

theorem settle_cases {cfg : Config} {s t : State} {id : ℕ} {m : MQMessageExt}
    {result : ListenerOutcome} (h : settle cfg s id m result = some t) :
    (cfg.messageModel = .clustering ∧ result = .success ∧
      ∃ q, s.processQueue.release .clustering m.getBody.length m.getQueueOffset = some q ∧
        t = { s with processQueue := q }.hold .ack id m) ∨
    (cfg.messageModel = .clustering ∧ result ≠ .success ∧
      ∃ g, (g = .reconsume ∧ m.getDeliveryAttempt + 1 < cfg.maxDeliveryAttempts ∨
          g = .forward ∧ cfg.maxDeliveryAttempts ≤ m.getDeliveryAttempt + 1) ∧
        t = s.hold g id (MessageAccessor.setDeliveryAttempt m (m.getDeliveryAttempt + 1))) ∨
    (cfg.messageModel = .broadcasting ∧
      ∃ q, s.processQueue.release .broadcasting m.getBody.length m.getQueueOffset = some q ∧
        t = { s with
          processQueue := q
          updatedOffsets := s.updatedOffsets ++ q.committedOffset.toList }) := by
  cases hm : cfg.messageModel with
  | clustering =>
    simp only [settle, hm] at h
    split_ifs at h with hr hoverflow hlt
    · obtain ⟨q, hq, rfl⟩ := Option.map_eq_some_iff.mp h
      exact Or.inl ⟨rfl, hr, q, hq, rfl⟩
    · cases h
      exact Or.inr (Or.inl ⟨rfl, hr, _, Or.inl ⟨rfl, hlt⟩, rfl⟩)
    · cases h
      exact Or.inr (Or.inl ⟨rfl, hr, _, Or.inr ⟨rfl, not_lt.mp hlt⟩, rfl⟩)
  | broadcasting =>
    simp only [settle, hm] at h
    obtain ⟨q, hq, rfl⟩ := Option.map_eq_some_iff.mp h
    exact Or.inr (Or.inr ⟨rfl, q, hq, rfl⟩)

theorem settle_continued {cfg : Config} {s t : State} {id : ℕ} {m : MQMessageExt}
    {result : ListenerOutcome} (h : settle cfg s id m result = some t) :
    Continued cfg s .running id m t := by
  rcases settle_cases h with ⟨hm, -, q, hq, rfl⟩ | ⟨hm, -, g, -, rfl⟩ |
    ⟨hm, q, hq, rfl⟩
  · obtain ⟨hcached, hbound, -⟩ := ProcessQueueImpl.release_cachedMessages hq
    exact .passOn .ack m ⟨hcached, rfl, rfl, rfl, rfl⟩ rfl rfl hbound rfl rfl fun _ => hm
  · exact Continued.hold (origin_setDeliveryAttempt m _) fun _ => hm
  · obtain ⟨hcached, hbound, -⟩ := ProcessQueueImpl.release_cachedMessages hq
    exact .drop ⟨hcached, rfl, rfl, rfl, rfl⟩ rfl hbound rfl rfl (Or.inr ⟨rfl, hm⟩)

theorem Continued.done (cfg : Config) (s : State) {g : Stage} (id : ℕ) (m : MQMessageExt)
    (hg : g ≠ .running) :
    Continued cfg s g id m
      { s with
        settled := s.settled ++ [id]
        processQueue := if s.processQueueAlive then s.processQueue.unbindFifoConsumeTask.2
          else s.processQueue } := by
  rw [unbindFifoConsumeTask_queue]
  refine .settle ⟨?_, rfl, rfl, rfl, rfl⟩ rfl ?_ rfl rfl hg
  · split_ifs <;> rfl
  · split_ifs <;> rfl

inductive Passes : Stage → Outcome → Stage → Prop
  | resubmit : Passes .reconsume .run .consume
  | ackFails (ec : ErrorCode) : Passes .ack (.acked (some ec)) .reack
  | ackAgain : Passes .reack .run .ack
  | forwardFails : Passes .forward (.forwarded false) .reforward
  | forwardAgain : Passes .reforward .run .forward

inductive Finishes : Stage → Outcome → Prop
  | acked : Finishes .ack (.acked none)
  | forwarded : Finishes .forward (.forwarded true)

inductive Resumed (cfg : Config) (s : State) (id : ℕ) (m : MQMessageExt) :
    Stage → Outcome → State → Prop
  | invoke : Resumed cfg s id m .consume .run
      { s.hold .running id m with delivered := s.delivered ++ [id] }
  | drop (hdead : s.alive = false) : Resumed cfg s id m .consume .run s
  | settle {result : ListenerOutcome} {t : State} (h : settle cfg s id m result = some t) :
      Resumed cfg s id m .running (.returned result) t
  | pass {g g' : Stage} {outcome : Outcome} (h : Passes g outcome g') :
      Resumed cfg s id m g outcome (s.hold g' id m)
  | lose {g g' : Stage} {outcome : Outcome} (h : Passes g outcome g') (hdead : s.alive = false) :
      Resumed cfg s id m g outcome s
  | finish {g : Stage} {outcome : Outcome} (h : Finishes g outcome) :
      Resumed cfg s id m g outcome { s with
        settled := s.settled ++ [id]
        processQueue := if s.processQueueAlive then s.processQueue.unbindFifoConsumeTask.2
          else s.processQueue }

theorem onAck_resumed (cfg : Config) (s : State) (id : ℕ) (m : MQMessageExt)
    (ec : Option ErrorCode) : Resumed cfg s id m .ack (.acked ec) (onAck s id m ec) := by
  cases ec with
  | none =>
    have h : Resumed cfg s id m .ack (.acked none) _ := .finish .acked
    by_cases hq : s.processQueueAlive = true
    · simpa [onAck, hq] using h
    · simpa [onAck, hq] using h
  | some ec =>
    change Resumed cfg s id m .ack (.acked (some ec))
      (if s.processQueueAlive then if s.consumerAlive then s.hold .reack id m else s else s)
    split_ifs with hq hc
    · exact .pass (.ackFails ec)
    · exact .lose (.ackFails ec) (by simp [State.alive, hc])
    · exact .lose (.ackFails ec) (by simp [State.alive, hq])

theorem onForwardToDeadLetterQueue_resumed {cfg : Config} {s t : State} {id : ℕ}
    {m : MQMessageExt} {ok : Bool} (h : onForwardToDeadLetterQueue s id m ok = some t) :
    Resumed cfg s id m .forward (.forwarded ok) t := by
  cases ok with
  | true =>
    have hd : Resumed cfg s id m .forward (.forwarded true) _ := .finish .forwarded
    by_cases hq : s.processQueueAlive = true
    · simp only [onForwardToDeadLetterQueue, hq, if_true, Option.some.injEq] at h
      subst h
      simpa [hq] using hd
    · simp only [onForwardToDeadLetterQueue, hq, if_true, Bool.false_eq_true, if_false,
        Option.some.injEq] at h
      subst h
      simpa [hq] using hd
  | false =>
    simp only [onForwardToDeadLetterQueue, Bool.false_eq_true, if_false] at h
    split_ifs at h with hq hc
    · cases h
      exact .pass .forwardFails
    · cases h
      exact .lose .forwardFails (by simp [State.alive, hq])

theorem resume_resumed {cfg : Config} {s t : State} {g : Stage} {id : ℕ} {m : MQMessageExt}
    {outcome : Outcome} (h : resume cfg s (.held g id m) outcome = some t) :
    Resumed cfg s id m g outcome t := by
  rw [resume.eq_def] at h
  split at h <;> rename_i he
  · simp at he
  · cases he
    cases h
    rw [beginConsume]
    split_ifs with halive
    · exact .invoke
    · exact .drop (Bool.eq_false_iff.mpr halive)
  · cases he
    exact .settle h
  · cases he
    cases h
    rw [scheduleConsumeTask]
    split_ifs with halive
    · exact .pass .resubmit
    · exact .lose .resubmit (by simpa [State.alive, Bool.and_comm] using halive)
  · cases he
    cases h
    exact onAck_resumed cfg s id m _
  · cases he
    cases h
    rw [scheduleAckTask]
    split_ifs with halive
    · exact .pass .ackAgain
    · exact .lose .ackAgain (Bool.eq_false_iff.mpr halive)
  · cases he
    exact onForwardToDeadLetterQueue_resumed h
  · cases he
    rw [scheduleForwardDeadLetterQueueTask] at h
    split_ifs at h with hq hc
    · cases h
      exact .pass .forwardAgain
    · cases h
      exact .lose .forwardAgain (by simp [State.alive, hq])
  · cases h

theorem Passes.ne_running {g g' : Stage} {outcome : Outcome} (h : Passes g outcome g') :
    g ≠ .running := by
  rintro rfl
  cases h

theorem Finishes.ne_running {g : Stage} {outcome : Outcome} (h : Finishes g outcome) :
    g ≠ .running := by
  rintro rfl
  cases h

theorem resume_continued {cfg : Config} {s t : State} {g : Stage} {id : ℕ} {m : MQMessageExt}
    {outcome : Outcome} (h : resume cfg s (.held g id m) outcome = some t) :
    Continued cfg s g id m t := by
  cases resume_resumed h with
  | invoke => exact .deliver ⟨rfl, rfl, rfl, rfl, rfl⟩ rfl rfl rfl rfl rfl
  | drop hdead => exact Continued.lost hdead
  | settle hsettle => exact settle_continued hsettle
  | pass hpass => exact Continued.hold rfl fun hg => absurd hg hpass.ne_running
  | lose hpass hdead => exact Continued.lost hdead
  | finish hfinish => exact Continued.done cfg s id m hfinish.ne_running

theorem takeThenSubmit_cases (s : State) :
    (s.processQueue.cachedMessages = [] ∧ takeThenSubmit s = s) ∨
    (∃ m, s.processQueue.cachedMessages = [m] ∧
      takeThenSubmit s =
        { s with
          processQueue := { s.processQueue with cachedMessages := [] }
          taken := s.taken + 1 }) ∨
    (∃ m m' l, s.processQueue.cachedMessages = m :: m' :: l ∧
      takeThenSubmit s =
        { s with
          processQueue := { s.processQueue with cachedMessages := m' :: l }
          taken := s.taken + 1
          pending := s.pending ++ [.held .consume s.taken m] }) := by
  have hq := ProcessQueueImpl.take_queue s.processQueue consumeBatchSize
  have hm := ProcessQueueImpl.take_messages s.processQueue consumeBatchSize
  have hmore := ProcessQueueImpl.take_more s.processQueue consumeBatchSize
  simp only [takeThenSubmit, hq, hm, hmore]
  cases hc : s.processQueue.cachedMessages with
  | nil =>
    refine Or.inl ⟨rfl, ?_⟩
    change { s with processQueue := { s.processQueue with cachedMessages := [] } } = s
    rw [← hc]
  | cons m l =>
    cases l with
    | nil => exact Or.inr (Or.inl ⟨m, rfl, by simp [consumeBatchSize]⟩)
    | cons m' l =>
      exact Or.inr (Or.inr ⟨m, m', l, rfl, by
        simp [consumeBatchSize, submitConsumeTask0, State.hold]⟩)

theorem Wf.of_held {s t : State} (h : Wf s) (frame : Frame { s with pending := [] } t)
    {g : Stage} {id : ℕ} {m a : MQMessageExt} (pending : t.pending = [.held g id m])
    (bound : t.processQueue.hasFifoTaskBound = true) (ha : s.accepted[id]? = some a)
    (hm : origin m = origin a) : Wf t := by
  refine ⟨by simp [pending, bound], ?_, ?_⟩
  · rw [frame.cached, frame.accepted, frame.taken]
    exact h.cached
  · intro g₁ id₁ m₁ hmem
    simp only [pending, List.mem_singleton, Task.held.injEq] at hmem
    obtain ⟨-, rfl, rfl⟩ := hmem
    exact ⟨a, by rw [frame.accepted]; exact ha, hm⟩

theorem Wf.of_idle {s t : State} (h : Wf s) (frame : Frame { s with pending := [] } t)
    (pending : t.pending = []) : Wf t := by
  refine ⟨by simp [pending], ?_, by simp [pending]⟩
  rw [frame.cached, frame.accepted, frame.taken]
  exact h.cached

theorem Continued.simulates {cfg : Config} {s t : State} {g : Stage} {id : ℕ} {m : MQMessageExt}
    (h : Inv s) (hp : s.pending = [.held g id m])
    (hc : Continued cfg { s with pending := [] } g id m t) :
    Wf t ∧ Move (serial s) (serial t) := by
  have hphase : (serial s).phase = .holding id := by simp [serial, phase, hp]
  have hb : s.processQueue.hasFifoTaskBound = true := h.bound (by simp [hp])
  obtain ⟨a, ha, hma⟩ := h.held g id m (by simp [hp])
  cases hc with
  | passOn g' m' frame pending same bound settled delivered model =>
    refine ⟨h.of_held frame pending (bound.trans hb) ha (same.trans hma), ?_⟩
    have ht : serial t = serial s := by
      simp [serial, phase, hp, pending, settled, delivered, frame.accepted, frame.taken]
    rw [ht]
    exact .stay
  | deliver frame pending bound settled delivered stage =>
    refine ⟨h.of_held frame pending (bound.trans hb) ha hma, ?_⟩
    have ht : serial t = { serial s with delivered := s.delivered ++ [id] } := by
      simp [serial, phase, hp, pending, settled, delivered, frame.accepted, frame.taken]
    rw [ht]
    exact .deliver id hphase
  | drop frame pending bound settled delivered reason =>
    refine ⟨h.of_idle frame pending, ?_⟩
    have ht : serial t = { serial s with phase := .stuck } := by
      simp [serial, phase, pending, bound, hb, settled, delivered, frame.accepted, frame.taken]
    rw [ht]
    exact .drop id hphase
  | settle frame pending bound settled delivered stage =>
    refine ⟨h.of_idle frame pending, ?_⟩
    have ht : serial t = { serial s with phase := phase t, settled := s.settled ++ [id] } := by
      simp [serial, settled, delivered, frame.accepted, frame.taken]
    rw [ht]
    apply Move.settle id (phase t) hphase
    by_cases hq : t.processQueue.hasFifoTaskBound = true <;> simp [phase, pending, hq]

theorem Wf.taken_lt {s : State} (h : Wf s) {m : MQMessageExt} {l : List MQMessageExt}
    (hc : s.processQueue.cachedMessages = m :: l) :
    s.taken < s.accepted.length ∧ s.accepted[s.taken]? = some m ∧
      s.accepted.drop (s.taken + 1) = l := by
  have hd : s.accepted.drop s.taken = m :: l := h.cached.symm.trans hc
  have h0 : s.accepted[s.taken]? = some m := by
    have h1 : (s.accepted.drop s.taken)[0]? = some m := by rw [hd]; rfl
    simpa using h1
  refine ⟨(List.getElem?_eq_some_iff.mp h0).1, h0, ?_⟩
  rw [← List.drop_drop, hd]
  rfl

theorem takeThenSubmit_simulates {s : State} (h : Inv s) (hp : s.pending = [.dispatch]) :
    Wf (takeThenSubmit { s with pending := [] }) ∧
      Move (serial s) (serial (takeThenSubmit { s with pending := [] })) := by
  have hphase : (serial s).phase = .bound := by simp [serial, phase, hp]
  have hb : s.processQueue.hasFifoTaskBound = true := h.bound (by simp [hp])
  have hcached := h.cached
  rcases takeThenSubmit_cases { s with pending := [] } with
    ⟨hc, ht⟩ | ⟨m, hc, ht⟩ | ⟨m, m', l, hc, ht⟩
  · rw [ht]
    refine ⟨⟨by simp, hcached, by simp⟩, ?_⟩
    have hs : serial { s with pending := [] } = { serial s with phase := .stuck } := by
      simp [serial, phase, hb]
    rw [hs]
    exact .takeNone hphase
  · obtain ⟨hlt, -, hrest⟩ := h.taken_lt hc
    rw [ht]
    refine ⟨⟨by simp, hrest.symm, by simp⟩, ?_⟩
    convert Move.takeLose hphase hlt using 1
    simp [serial, phase, hb]
  · obtain ⟨hlt, hm, hrest⟩ := h.taken_lt hc
    rw [ht]
    refine ⟨⟨by simp [hb], hrest.symm, ?_⟩, .takeHold hphase hlt⟩
    intro g id m₁ hmem
    simp only [List.nil_append, List.mem_singleton, Task.held.injEq] at hmem
    obtain ⟨-, rfl, rfl⟩ := hmem
    exact ⟨m₁, hm, rfl⟩

theorem cacheMessages_simulates (cfg : Config) {s : State} (h : Inv s)
    (messages : List MQMessageExt) :
    Wf (cacheMessages cfg s messages) ∧
      Move (serial s) (serial (cacheMessages cfg s messages)) := by
  rw [cacheMessages]
  split_ifs with halive
  · refine ⟨⟨?_, ?_, ?_⟩, ?_⟩
    · simpa [ProcessQueueImpl.cacheMessages_hasFifoTaskBound] using h.pending
    · have hle : s.taken ≤ s.accepted.length := h.serial.taken_le
      simp only [ProcessQueueImpl.cacheMessages_cachedMessages, h.cached]
      exact (List.drop_append_of_le_length hle).symm
    · intro g id m hmem
      obtain ⟨a, ha, hma⟩ := h.held g id m hmem
      exact ⟨a, by simp [List.getElem?_append_left (List.getElem?_eq_some_iff.mp ha).1, ha], hma⟩
    · convert Move.append (v := serial s)
        (messages.filter s.processQueue.filterExpression.accept).length using 1
      simp [serial, phase, ProcessQueueImpl.cacheMessages_hasFifoTaskBound]
  · exact ⟨h.toWf, .stay⟩

theorem submitConsumeTask_cases (s : State) :
    submitConsumeTask s = s ∨
    (s.processQueue.hasFifoTaskBound = false ∧
      submitConsumeTask s =
        { s with
          processQueue := { s.processQueue with hasFifoTaskBound := true }
          pending := s.pending ++ [.dispatch] }) := by
  by_cases halive : (s.processQueueAlive && s.consumerAlive) = true
  · cases hb : s.processQueue.hasFifoTaskBound with
    | true =>
      exact Or.inl (by simp [submitConsumeTask, ProcessQueueImpl.bindFifoConsumeTask, halive, hb])
    | false =>
      exact Or.inr ⟨rfl, by
        simp [submitConsumeTask, ProcessQueueImpl.bindFifoConsumeTask, halive, hb]⟩
  · exact Or.inl (if_neg halive)

theorem submitConsumeTask_simulates {s : State} (h : Inv s) :
    Wf (submitConsumeTask s) ∧ Move (serial s) (serial (submitConsumeTask s)) := by
  rcases submitConsumeTask_cases s with ht | ⟨hb, ht⟩
  · rw [ht]
    exact ⟨h.toWf, .stay⟩
  · have hp := h.pending_nil hb
    rw [ht]
    refine ⟨⟨by simp [hp], h.cached, by simp [hp]⟩, ?_⟩
    convert Move.bind (v := serial s) (by simp [serial, phase, hp, hb]) using 1
    simp [serial, phase, hp]

theorem step_simulates {cfg : Config} {s t : State} {e : Event} (h : Inv s)
    (hstep : step cfg s e = some t) : Wf t ∧ Move (serial s) (serial t) := by
  cases e with
  | cacheMessages messages =>
    cases hstep
    exact cacheMessages_simulates cfg h messages
  | submitConsumeTask =>
    cases hstep
    exact submitConsumeTask_simulates h
  | resume i outcome =>
    obtain ⟨⟨task, rest⟩, hpick, hres⟩ := Option.bind_eq_some_iff.mp hstep
    obtain ⟨hp, rfl⟩ := pick_single hpick h.pending_le
    cases task with
    | dispatch =>
      cases outcome with
      | run =>
        cases hres
        exact takeThenSubmit_simulates h hp
      | returned _ => cases hres
      | acked _ => cases hres
      | forwarded _ => cases hres
    | held g id m => exact (resume_continued hres).simulates h hp
  | destroyProcessQueue =>
    cases hstep
    exact ⟨⟨h.pending, h.cached, h.held⟩, .stay⟩
  | destroyConsumer =>
    cases hstep
    exact ⟨⟨h.pending, h.cached, h.held⟩, .stay⟩

theorem step_inv {cfg : Config} {s t : State} {e : Event} (h : Inv s)
    (hstep : step cfg s e = some t) : Inv t := by
  obtain ⟨hwf, hmove⟩ := step_simulates h hstep
  exact ⟨hwf, hmove.inv h.serial⟩

theorem run_inv {cfg : Config} {filter : FilterExpression} {es : List Event} {s : State}
    (hrun : (machine cfg filter).run es = some s) : Inv s :=
  (machine cfg filter).run_invariant (inv_init cfg filter) (fun _ _ _ h ht => step_inv h ht) hrun

/-- In every run an identity stands for the message accepted under it, at most one
message is between `take` and its settlement, first deliveries follow the order of
arrival, and a delivery finds every other delivered message settled. -/
theorem order_and_exclusion (cfg : Config) (filter : FilterExpression) {es : List Event}
    {s : State} (hrun : (machine cfg filter).run es = some s) :
    (∀ g id m, .held g id m ∈ s.pending → ∃ a, s.accepted[id]? = some a ∧ origin m = origin a) ∧
    ((List.range s.taken).filter fun j => j ∉ s.settled).length ≤ 1 ∧
    (firsts s.delivered).Sublist (List.range s.accepted.length) ∧
    ∀ e t id, step cfg s e = some t → t.delivered = s.delivered ++ [id] →
      ∀ j ∈ s.delivered, j ≠ id → j ∈ s.settled := by
  have h := run_inv hrun
  refine ⟨h.held, h.serial.unsettled_le, h.serial.firsts_sublist, ?_⟩
  intro e t id ht hdel j hj hne
  obtain ⟨-, hmove⟩ := step_simulates h ht
  exact h.serial.delivered_settled (hmove.holding_of_delivered hdel) hj hne

def redelivery : List Event :=
  [.cacheMessages [{}, {}], .submitConsumeTask, .resume 0 .run, .resume 0 .run,
    .resume 0 (.returned .failure), .resume 0 .run, .resume 0 .run]

theorem order_and_exclusion_redelivery :
    ∃ s, (machine {} {}).run redelivery = some s ∧ s.delivered = [0, 0] ∧
      (firsts s.delivered).Sublist (List.range s.accepted.length) := by
  have hrun : (machine {} {}).run redelivery =
      some (((machine {} {}).run redelivery).get rfl) := rfl
  exact ⟨_, hrun, rfl, (order_and_exclusion {} {} hrun).2.2.1⟩

def InCache (s : State) (i : ℕ) (a : MQMessageExt) : Prop :=
  s.taken ≤ i ∧ s.processQueue.cachedMessages[i - s.taken]? = some a

def HeldByStep (s : State) (i : ℕ) (a : MQMessageExt) : Prop :=
  ∃ g m, s.pending = [.held g i m] ∧ origin m = origin a

/-- Every accepted message is in exactly one place: in the cache, held by the only
outstanding step, or settled once. -/
def Conserved (s : State) : Prop :=
  ∀ i a, s.accepted[i]? = some a →
    (InCache s i a ∧ ¬ HeldByStep s i a ∧ s.settled.count i = 0) ∨
    (¬ InCache s i a ∧ HeldByStep s i a ∧ s.settled.count i = 0) ∨
    (¬ InCache s i a ∧ ¬ HeldByStep s i a ∧ s.settled.count i = 1)

def NotWedged (s : State) : Prop :=
  s.processQueue.hasFifoTaskBound = true → s.pending ≠ []

theorem Wf.inCache_iff {s : State} (h : Wf s) {i : ℕ} {a : MQMessageExt}
    (ha : s.accepted[i]? = some a) : InCache s i a ↔ s.taken ≤ i := by
  apply and_iff_left_of_imp
  intro hle
  rw [h.cached, List.getElem?_drop, Nat.add_sub_cancel' hle, ha]

theorem Wf.heldByStep_iff {s : State} (h : Wf s) {i : ℕ} {a : MQMessageExt}
    (ha : s.accepted[i]? = some a) : HeldByStep s i a ↔ phase s = .holding i := by
  constructor
  · rintro ⟨g, m, hp, -⟩
    simp [phase, hp]
  · intro hphase
    have hlen := h.pending_le
    match hp : s.pending with
    | [] =>
      rw [phase, hp] at hphase
      split_ifs at hphase
    | [.dispatch] => simp [phase, hp] at hphase
    | [.held g id m] =>
      have hid : id = i := by simpa [phase, hp] using hphase
      subst hid
      obtain ⟨a', ha', hma⟩ := h.held g id m (by simp [hp])
      rw [ha] at ha'
      cases ha'
      exact ⟨g, m, hp, hma⟩
    | _ :: _ :: _ => simp [hp] at hlen

theorem Wf.conserved_iff {s : State} (h : Wf s) : Conserved s ↔ AllPlaced (serial s) := by
  have hplace : ∀ i a, s.accepted[i]? = some a →
      ((InCache s i a ∧ ¬ HeldByStep s i a ∧ s.settled.count i = 0) ∨
        (¬ InCache s i a ∧ HeldByStep s i a ∧ s.settled.count i = 0) ∨
        (¬ InCache s i a ∧ ¬ HeldByStep s i a ∧ s.settled.count i = 1) ↔ Placed (serial s) i) := by
    intro i a ha
    rw [h.inCache_iff ha, h.heldByStep_iff ha, List.count_eq_zero, not_le]
    rfl
  constructor
  · intro hall i hi
    have ha : s.accepted[i]? = some (s.accepted.get ⟨i, hi⟩) := List.getElem?_eq_getElem hi
    exact (hplace i _ ha).mp (hall i _ ha)
  · intro hall i a ha
    exact (hplace i a ha).mpr (hall i (List.getElem?_eq_some_iff.mp ha).1)

theorem notWedged_iff (s : State) : NotWedged s ↔ phase s ≠ .stuck := by
  match hp : s.pending with
  | [] => by_cases hb : s.processQueue.hasFifoTaskBound = true <;> simp [NotWedged, phase, hp, hb]
  | .dispatch :: _ => simp [NotWedged, phase, hp]
  | .held g id m :: _ => simp [NotWedged, phase, hp]

def resumed (s : State) : Event → Option Task
  | .resume i _ => (pick s.pending i).map Prod.fst
  | _ => none

def Task.isRunning : Task → Bool
  | .held .running _ _ => true
  | _ => false

def Event.live : Event → Bool
  | .destroyProcessQueue => false
  | .destroyConsumer => false
  | _ => true

inductive LiveStep (cfg : Config) (s : State) (e : Event) (t : State) : Prop
  | goesOn (phase : phase t ≠ .stuck)
      (take : resumed s e = some .dispatch → 1 < s.processQueue.cachedMessages.length)
      (model : (resumed s e).any Task.isRunning = true → cfg.messageModel = .clustering)
  | unrelated (none : resumed s e = none) (phase : phase t = phase s) (taken : t.taken = s.taken)
      (settled : t.settled = s.settled)
  | takesLast (take : resumed s e = some .dispatch)
      (last : s.processQueue.cachedMessages.length ≤ 1) (phase : phase t = .stuck)
      (taken : t.taken = s.taken + s.processQueue.cachedMessages.length)
      (settled : t.settled = s.settled)
  | broadcast (run : (resumed s e).any Task.isRunning = true)
      (model : cfg.messageModel = .broadcasting) (phase : phase t = .stuck)

theorem LiveStep.of_continued {cfg : Config} {s t : State} {e : Event} {g : Stage} {id : ℕ}
    {m : MQMessageExt} (ha : s.alive = true) (hb : s.processQueue.hasFifoTaskBound = true)
    (he : resumed s e = some (.held g id m))
    (hc : Continued cfg { s with pending := [] } g id m t) : LiveStep cfg s e t := by
  have hrunning : (resumed s e).any Task.isRunning = true → g = .running := by
    rw [he]
    cases g <;> simp [Task.isRunning]
  cases hc with
  | passOn g' m' frame pending same bound settled delivered model =>
    exact .goesOn (by simp [phase, pending]) (by simp [he]) fun h => model (hrunning h)
  | deliver frame pending bound settled delivered stage =>
    refine .goesOn (by simp [phase, pending]) (by simp [he]) fun h => ?_
    simp [hrunning h] at stage
  | drop frame pending bound settled delivered reason =>
    rcases reason with hdead | ⟨rfl, hmodel⟩
    · exact absurd ha (by simpa [State.alive] using hdead)
    · exact .broadcast (by simp [he, Task.isRunning]) hmodel (by simp [phase, pending, bound, hb])
  | settle frame pending bound settled delivered stage =>
    have hq : s.processQueueAlive = true := (Bool.and_eq_true_iff.mp ha).1
    refine .goesOn (by simp [phase, pending, bound, hq]) (by simp [he]) fun h => ?_
    exact absurd (hrunning h) stage

theorem LiveStep.of_take {cfg : Config} {s : State} {e : Event}
    (hb : s.processQueue.hasFifoTaskBound = true) (he : resumed s e = some .dispatch) :
    LiveStep cfg s e (takeThenSubmit { s with pending := [] }) := by
  rcases takeThenSubmit_cases { s with pending := [] } with
    ⟨hc, ht⟩ | ⟨m, hc, ht⟩ | ⟨m, m', l, hc, ht⟩
  · change s.processQueue.cachedMessages = [] at hc
    exact .takesLast he (by simp [hc]) (by simp [ht, phase, hb]) (by simp [ht, hc]) (by simp [ht])
  · change s.processQueue.cachedMessages = [m] at hc
    exact .takesLast he (by simp [hc]) (by simp [ht, phase, hb]) (by simp [ht, hc]) (by simp [ht])
  · change s.processQueue.cachedMessages = m :: m' :: l at hc
    exact .goesOn (by simp [ht, phase]) (by simp [hc]) (by simp [he, Task.isRunning])

theorem step_live {cfg : Config} {s t : State} {e : Event} (h : Inv s) (ha : s.alive = true)
    (he : e.live = true) (hstep : step cfg s e = some t) : LiveStep cfg s e t := by
  cases e with
  | cacheMessages messages =>
    cases hstep
    rw [cacheMessages]
    split_ifs
    · have hflag := ProcessQueueImpl.cacheMessages_hasFifoTaskBound
      exact .unrelated rfl (by simp [phase, hflag]) rfl rfl
    · exact .unrelated rfl rfl rfl rfl
  | submitConsumeTask =>
    cases hstep
    rcases submitConsumeTask_cases s with ht | ⟨hb, ht⟩
    · rw [ht]
      exact .unrelated rfl rfl rfl rfl
    · refine .goesOn ?_ (by simp [resumed]) (by simp [resumed])
      simp [ht, phase, h.pending_nil hb]
  | resume i outcome =>
    obtain ⟨⟨task, rest⟩, hpick, hres⟩ := Option.bind_eq_some_iff.mp hstep
    obtain ⟨hp, rfl⟩ := pick_single hpick h.pending_le
    have hb : s.processQueue.hasFifoTaskBound = true := h.bound (by simp [hp])
    have htask : resumed s (.resume i outcome) = some task := by simp [resumed, hpick]
    cases task with
    | dispatch =>
      cases outcome with
      | run =>
        cases hres
        exact LiveStep.of_take hb htask
      | returned _ => cases hres
      | acked _ => cases hres
      | forwarded _ => cases hres
    | held g id m => exact LiveStep.of_continued ha hb htask (resume_continued hres)
  | destroyProcessQueue => cases he
  | destroyConsumer => cases he

theorem step_alive {cfg : Config} {s t : State} {e : Event} (he : e.live = true)
    (hstep : step cfg s e = some t) : t.alive = s.alive := by
  cases e with
  | cacheMessages messages =>
    cases hstep
    rw [cacheMessages]
    split_ifs <;> rfl
  | submitConsumeTask =>
    cases hstep
    rcases submitConsumeTask_cases s with ht | ⟨-, ht⟩
    · rw [ht]
    · rw [ht]
      rfl
  | resume i outcome =>
    obtain ⟨⟨task, rest⟩, -, hres⟩ := Option.bind_eq_some_iff.mp hstep
    cases task with
    | dispatch =>
      cases outcome with
      | run =>
        cases hres
        rcases takeThenSubmit_cases { s with pending := rest } with
          ⟨-, ht⟩ | ⟨m, -, ht⟩ | ⟨m, m', l, -, ht⟩ <;> rw [ht] <;> rfl
      | returned _ => cases hres
      | acked _ => cases hres
      | forwarded _ => cases hres
    | held g id m =>
      have hframe := (resume_continued hres).frame
      rw [State.alive, hframe.processQueueAlive, hframe.consumerAlive]
      rfl
  | destroyProcessQueue => cases he
  | destroyConsumer => cases he

def LiveInv (s : State) : Prop := Inv s ∧ s.alive = true

theorem step_liveInv {cfg : Config} {s t : State} {e : Event} (h : LiveInv s)
    (he : e.live = true) (hstep : step cfg s e = some t) : LiveInv t :=
  ⟨step_inv h.1 hstep, (step_alive he hstep).trans h.2⟩

def TakesNotTheOnly (s : State) (e : Event) : Prop :=
  resumed s e = some .dispatch → s.processQueue.cachedMessages.length ≠ 1

def KeepsAStep (cfg : Config) (s : State) (e : Event) : Prop :=
  (resumed s e = some .dispatch → 1 < s.processQueue.cachedMessages.length) ∧
  ((resumed s e).any Task.isRunning = true → cfg.messageModel = .clustering)

theorem Wf.phase_of_dispatch {s : State} (h : Wf s) {e : Event}
    (he : resumed s e = some .dispatch) : phase s = .bound := by
  cases e with
  | resume i outcome =>
    obtain ⟨⟨task, rest⟩, hpick, rfl⟩ := Option.map_eq_some_iff.mp he
    obtain ⟨hp, -⟩ := pick_single hpick h.pending_le
    simp [phase, hp]
  | _ => simp [resumed] at he

theorem step_conserved_iff {cfg : Config} (hcfg : cfg.messageModel = .clustering) {s t : State}
    {e : Event} (h : LiveInv s) (hs : Conserved s) (he : e.live = true)
    (hstep : step cfg s e = some t) : Conserved t ↔ TakesNotTheOnly s e := by
  have ht := step_inv h.1 hstep
  rw [h.1.conserved_iff, h.1.serial.allPlaced_iff] at hs
  rw [ht.conserved_iff, ht.serial.allPlaced_iff]
  change (phase s = .stuck → ∀ j < s.taken, j ∈ s.settled) at hs
  change (phase t = .stuck → ∀ j < t.taken, j ∈ t.settled) ↔ _
  cases step_live h.1 h.2 he hstep with
  | goesOn hphase take model =>
    exact iff_of_true (fun hstuck => absurd hstuck hphase) fun hd => (take hd).ne'
  | unrelated hnone hphase taken settled =>
    rw [hphase, taken, settled]
    exact iff_of_true hs fun hd => by simp [hnone] at hd
  | takesLast take last hphase taken settled =>
    have hidle := h.1.serial.idle (Or.inr (h.1.phase_of_dispatch take))
    have hnew : s.taken ∉ s.settled := fun hm => lt_irrefl _ (h.1.serial.settled_lt _ hm)
    rw [taken, settled]
    constructor
    · intro hall _ hone
      exact hnew (hall hphase s.taken (by omega))
    · intro hne _ j hj
      have hnot := hne take
      exact hidle j (by change j < s.taken; omega)
  | broadcast run model hphase => simp [hcfg] at model

theorem step_notWedged_iff {cfg : Config} {s t : State} {e : Event} (h : LiveInv s)
    (hs : NotWedged s) (he : e.live = true) (hstep : step cfg s e = some t) :
    NotWedged t ↔ KeepsAStep cfg s e := by
  rw [notWedged_iff] at hs ⊢
  cases step_live h.1 h.2 he hstep with
  | goesOn hphase take model => exact iff_of_true hphase ⟨take, model⟩
  | unrelated hnone hphase taken settled =>
    exact iff_of_true (hphase ▸ hs) ⟨by simp [hnone], by simp [hnone]⟩
  | takesLast take last hphase taken settled =>
    exact iff_of_false (by simp [hphase]) fun hk => absurd (hk.1 take) (not_lt.mpr last)
  | broadcast run model hphase =>
    refine iff_of_false (by simp [hphase]) fun hk => ?_
    have hm := hk.2 run
    simp [model] at hm

/-- In clustering mode a live queue loses and duplicates no message along a run
exactly if `take` never finds a message alone in the cache. -/
theorem conserved_along_iff (cfg : Config) (filter : FilterExpression)
    (hcfg : cfg.messageModel = .clustering) (es : List Event) (hlive : ∀ e ∈ es, e.live = true) :
    (machine cfg filter).Along Conserved (machine cfg filter).init es ↔
      (machine cfg filter).Guarded TakesNotTheOnly (machine cfg filter).init es := by
  refine (machine cfg filter).along_iff_guarded (J := LiveInv) (A := fun e => e.live = true)
    (fun s e t h he ht => step_liveInv h he ht)
    (fun s e t h hs he ht => step_conserved_iff hcfg h hs he ht) es hlive
    ⟨inv_init cfg filter, rfl⟩ ?_
  intro i a ha
  simp [machine] at ha

instance (s : State) (e : Event) : Decidable (TakesNotTheOnly s e) :=
  inferInstanceAs (Decidable (_ → _))

theorem conserved_two_messages :
    (machine {} {}).Along Conserved (machine {} {}).init
      [.cacheMessages [{}, {}], .submitConsumeTask, .resume 0 .run, .resume 0 .run,
        .resume 0 (.returned .success), .resume 0 (.acked none)] := by
  rw [conserved_along_iff {} {} rfl _ (by decide)]
  decide

theorem lone_message_lost :
    ∃ s, (machine {} {}).run [.cacheMessages [{}], .submitConsumeTask, .resume 0 .run] = some s ∧
      ¬ Conserved s := by
  refine ⟨_, rfl, fun h => ?_⟩
  rcases h 0 {} rfl with ⟨⟨hle, -⟩, -⟩ | ⟨-, ⟨g, m, hp, -⟩, -⟩ | ⟨-, -, hcount⟩
  · exact absurd hle (by decide)
  · cases hp
  · exact absurd hcount (by decide)

/-- In either message model the flag of a live queue implies an outstanding step
along a run exactly if each `take` finds two messages or more and no listener
returns in broadcasting mode. -/
theorem notWedged_along_iff (cfg : Config) (filter : FilterExpression) (es : List Event)
    (hlive : ∀ e ∈ es, e.live = true) :
    (machine cfg filter).Along NotWedged (machine cfg filter).init es ↔
      (machine cfg filter).Guarded (KeepsAStep cfg) (machine cfg filter).init es := by
  refine (machine cfg filter).along_iff_guarded (J := LiveInv) (A := fun e => e.live = true)
    (fun s e t h he ht => step_liveInv h he ht)
    (fun s e t h hs he ht => step_notWedged_iff h hs he ht) es hlive
    ⟨inv_init cfg filter, rfl⟩ ?_
  intro hb
  simp [machine] at hb

instance (cfg : Config) (s : State) (e : Event) : Decidable (KeepsAStep cfg s e) :=
  inferInstanceAs (Decidable (_ ∧ _))

theorem notWedged_two_messages :
    (machine {} {}).Along NotWedged (machine {} {}).init
      [.cacheMessages [{}, {}], .submitConsumeTask, .resume 0 .run, .resume 0 .run,
        .resume 0 (.returned .failure), .submitConsumeTask, .resume 0 .run] := by
  rw [notWedged_along_iff {} {} _ (by decide)]
  decide

theorem wedged_runs :
    (∃ s, (machine {} {}).run [.submitConsumeTask, .resume 0 .run] = some s ∧ ¬ NotWedged s) ∧
    ∃ s, (machine { messageModel := .broadcasting } {}).run
        [.cacheMessages [{}, {}], .submitConsumeTask, .resume 0 .run, .resume 0 .run,
          .resume 0 (.returned .success)] = some s ∧ ¬ NotWedged s :=
  ⟨⟨_, rfl, fun h => h rfl rfl⟩, ⟨_, rfl, fun h => h rfl rfl⟩⟩

end RocketMQClient.FifoConsume
