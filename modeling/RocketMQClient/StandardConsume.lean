import RocketMQClient.FifoConsume

/-!
# The standard consume service as an event machine

One process queue served by `ConsumeStandardMessageService`. A call of
`submitConsumeTask` is a loop that takes a batch and submits a task for it until
nothing is left; a task is interrupted in the listener and, in clustering mode,
between the messages it settles. Tasks in the pool own the process queue, those
handed to a custom executor only point to it weakly.

Rate limits delay a task and decide nothing. Its tracing spans ask the credentials
provider of the consumer for the access key, without testing the pointer, which is
null unless one was set: a task without one ends the process before the listener is
called, and the run with it. The callbacks of the acknowledgements only log.
`accepted`, `taken`, `finished` and `updates` record history: a message is finished
when its acknowledgement, positive or negative, is issued, or when the listener
returns in broadcasting mode.
-/

namespace RocketMQClient.StandardConsume
open EventMachine Pending
open FifoConsume (ListenerOutcome)

structure Config where
  messageModel : MessageModel := .clustering
  consumeBatchSize : ℕ := 1
  customExecutor : Bool := false
  credentialsProvider : Bool := false

inductive Task
  | dispatch
  | consume (messages : List MQMessageExt)
  | running (messages : List MQMessageExt)
  | settling (status : ListenerOutcome) (messages : List MQMessageExt)

structure Update where
  offset : ℤ
  cached : List ℤ
  returned : List ℤ

structure State where
  processQueue : ProcessQueueImpl := {}
  pending : List Task := []
  referenced : Bool := true
  consumerAlive : Bool := true
  accepted : List MQMessageExt := []
  taken : List MQMessageExt := []
  finished : List MQMessageExt := []
  updates : List Update := []

inductive Outcome
  | run
  | returned (status : ListenerOutcome)

inductive Event
  | cacheMessages (messages : List MQMessageExt)
  | submitConsumeTask
  | resume (i : ℕ) (outcome : Outcome)
  | dropReference
  | destroyConsumer

def Task.owns (cfg : Config) : Task → Bool
  | .consume _ => !cfg.customExecutor
  | _ => true

def State.processQueueAlive (cfg : Config) (s : State) : Bool :=
  s.referenced || s.pending.any (Task.owns cfg)

def State.add (s : State) (task : Task) : State := { s with pending := s.pending ++ [task] }

def cacheMessages (cfg : Config) (s : State) (messages : List MQMessageExt) : State :=
  if s.consumerAlive then
    { s with
      processQueue := s.processQueue.cacheMessages cfg.messageModel messages
      accepted := s.accepted ++ messages.filter s.processQueue.filterExpression.accept }
  else s

def submitConsumeTask (cfg : Config) (s : State) : State :=
  if s.processQueueAlive cfg && s.consumerAlive then s.add .dispatch else s

def takeThenSubmit (cfg : Config) (s : State) : Option State :=
  let r := s.processQueue.take cfg.consumeBatchSize
  let s := { s with processQueue := r.queue, taken := s.taken ++ r.messages }
  if r.messages.isEmpty then
    -- an assertion of the source
    if r.more then none else some s
  else
    let s := s.add (.consume r.messages)
    some (if r.more then s.add .dispatch else s)

def beginConsume (cfg : Config) (s : State) (messages : List MQMessageExt) : Option State :=
  let locked := s.processQueueAlive cfg || !cfg.customExecutor
  if !locked || messages.isEmpty then some s
  else if !s.consumerAlive then some s
  -- `credentialsProvider()->getCredentials()`, for the spans of the messages
  else if !cfg.credentialsProvider then none
  else some (s.add (.running messages))

/-- The rest of `consumeTask`. In broadcasting mode nothing is released. -/
def settle (cfg : Config) (s : State) (messages : List MQMessageExt)
    (status : ListenerOutcome) : State :=
  match cfg.messageModel with
  | .clustering => s.add (.settling status messages)
  | .broadcasting =>
    let finished := s.finished ++ messages
    { s with
      finished := finished
      updates := s.updates ++ s.processQueue.committedOffset.toList.map fun offset =>
        { offset := offset
          cached := s.accepted.map MQMessage.getQueueOffset
          returned := finished.map MQMessage.getQueueOffset } }

def settleNext (s : State) (status : ListenerOutcome) : List MQMessageExt → Option State
  | [] => some s
  | message :: messages =>
    (s.processQueue.release .clustering message.getBody.length message.getQueueOffset).map
      fun q => { s with processQueue := q, finished := s.finished ++ [message] }.add
        (.settling status messages)

def resume (cfg : Config) (s : State) : Task → Outcome → Option State
  | .dispatch, .run => takeThenSubmit cfg s
  | .consume messages, .run => beginConsume cfg s messages
  | .running messages, .returned status => some (settle cfg s messages status)
  | .settling status messages, .run => settleNext s status messages
  | _, _ => none

def step (cfg : Config) (s : State) : Event → Option State
  | .cacheMessages messages => some (cacheMessages cfg s messages)
  | .submitConsumeTask => some (submitConsumeTask cfg s)
  | .resume i outcome =>
    (pick s.pending i).bind fun r => resume cfg { s with pending := r.2 } r.1 outcome
  | .dropReference => some { s with referenced := false }
  | .destroyConsumer => some { s with consumerAlive := false }

def machine (cfg : Config) (filter : FilterExpression) : Machine State Event where
  init := { processQueue := { filterExpression := filter } }
  step := step cfg

theorem step_resume_last (cfg : Config) (filter : FilterExpression) (s : State) (task : Task)
    (outcome : Outcome) :
    (machine cfg filter).step (s.add task) (.resume s.pending.length outcome) =
      resume cfg s task outcome := by
  simp [machine, step, State.add, pick_concat]

def Event.live : Event → Bool
  | .dropReference => false
  | .destroyConsumer => false
  | _ => true

def Task.messages : Task → List MQMessageExt
  | .dispatch => []
  | .consume messages => messages
  | .running messages => messages
  | .settling _ messages => messages

def Task.Nonempty : Task → Prop
  | .consume messages => messages ≠ []
  | .running messages => messages ≠ []
  | _ => True

def inFlight (s : State) : List MQMessageExt := s.pending.flatMap Task.messages

theorem inFlight_add (s : State) (task : Task) :
    inFlight (s.add task) = inFlight s ++ task.messages := by
  simp [inFlight, State.add]

structure Frame (s t : State) : Prop where
  referenced : t.referenced = s.referenced
  consumerAlive : t.consumerAlive = s.consumerAlive
  accepted : t.accepted = s.accepted
  tasks : ∀ task ∈ t.pending, task ∈ s.pending ∨ task.Nonempty

theorem Frame.add {s t : State} {task : Task} (h : Frame s t) (hne : task.Nonempty) :
    Frame s (t.add task) := by
  refine ⟨h.referenced, h.consumerAlive, h.accepted, fun task' hmem => ?_⟩
  rcases List.mem_append.mp hmem with hmem | hmem
  · exact h.tasks task' hmem
  · rw [List.mem_singleton.mp hmem]
    exact Or.inr hne

theorem Frame.refl (s : State) : Frame s s := ⟨rfl, rfl, rfl, fun _ h => Or.inl h⟩

inductive Continued (cfg : Config) (s : State) (task : Task) (outcome : Outcome) (t : State) : Prop
  | takes (frame : Frame s t) (dispatch : task.messages = []) (outcome : outcome = .run)
      (queue : t.processQueue = (s.processQueue.take cfg.consumeBatchSize).queue)
      (taken : t.taken = s.taken ++ (s.processQueue.take cfg.consumeBatchSize).messages)
      (inFlight : inFlight t =
        inFlight s ++ (s.processQueue.take cfg.consumeBatchSize).messages)
      (finished : t.finished = s.finished) (updates : t.updates = s.updates)
  | passes (frame : Frame s t) (outcome : outcome = .run ∨ cfg.messageModel = .clustering)
      (queue : t.processQueue = s.processQueue) (taken : t.taken = s.taken)
      (inFlight : inFlight t = inFlight s ++ task.messages)
      (finished : t.finished = s.finished) (updates : t.updates = s.updates)
  | drops (frame : Frame s t) (dead : s.referenced = false ∨ s.consumerAlive = false)
      (outcome : outcome = .run) (queue : t.processQueue = s.processQueue)
      (taken : t.taken = s.taken) (inFlight : inFlight t = inFlight s)
      (finished : t.finished = s.finished) (updates : t.updates = s.updates)
  | returns (frame : Frame s t) (status : ListenerOutcome) (outcome : outcome = .returned status)
      (model : cfg.messageModel = .broadcasting) (nonempty : task.Nonempty → task.messages ≠ [])
      (queue : t.processQueue = s.processQueue) (taken : t.taken = s.taken)
      (inFlight : inFlight t = inFlight s) (finished : t.finished = s.finished ++ task.messages)
      (updates : t.updates = s.updates ++ s.processQueue.committedOffset.toList.map fun offset =>
        { offset := offset
          cached := s.accepted.map MQMessage.getQueueOffset
          returned := (s.finished ++ task.messages).map MQMessage.getQueueOffset })
  | settles (frame : Frame s t) (m : MQMessageExt) (rest : List MQMessageExt)
      (messages : task.messages = m :: rest) (outcome : outcome = .run)
      (queue : s.processQueue.release .clustering m.getBody.length m.getQueueOffset =
        some t.processQueue)
      (taken : t.taken = s.taken) (inFlight : inFlight t = inFlight s ++ rest)
      (finished : t.finished = s.finished ++ [m]) (updates : t.updates = s.updates)

theorem takeThenSubmit_continued {cfg : Config} {s t : State}
    (h : takeThenSubmit cfg s = some t) : Continued cfg s .dispatch .run t := by
  have hframe : Frame s { s with
      processQueue := (s.processQueue.take cfg.consumeBatchSize).queue
      taken := s.taken ++ (s.processQueue.take cfg.consumeBatchSize).messages } :=
    ⟨rfl, rfl, rfl, fun _ h => Or.inl h⟩
  simp only [takeThenSubmit] at h
  split_ifs at h with hempty hmore hmore
  · cases h
    exact .takes hframe rfl rfl rfl rfl (by simp [inFlight, List.isEmpty_iff.mp hempty]) rfl rfl
  · cases h
    have hne : Task.Nonempty (.consume (s.processQueue.take cfg.consumeBatchSize).messages) :=
      fun hnil => hempty (List.isEmpty_iff.mpr hnil)
    refine .takes ((hframe.add hne).add trivial) rfl rfl rfl rfl ?_ rfl rfl
    rw [inFlight_add, inFlight_add]
    simp [Task.messages, inFlight]
  · cases h
    have hne : Task.Nonempty (.consume (s.processQueue.take cfg.consumeBatchSize).messages) :=
      fun hnil => hempty (List.isEmpty_iff.mpr hnil)
    exact .takes (hframe.add hne) rfl rfl rfl rfl (inFlight_add _ _) rfl rfl

theorem beginConsume_continued {cfg : Config} {s t : State} {messages : List MQMessageExt}
    (hne : messages ≠ []) (h : beginConsume cfg s messages = some t) :
    Continued cfg s (.consume messages) .run t := by
  by_cases hlive : s.referenced = true ∧ s.consumerAlive = true
  · simp only [beginConsume, State.processQueueAlive, hlive, Bool.true_or, Bool.not_true,
      Bool.false_or, List.isEmpty_iff, hne, Bool.false_eq_true, if_false] at h
    split_ifs at h
    cases h
    exact .passes ((Frame.refl s).add hne) (Or.inl rfl) rfl rfl (inFlight_add _ _) rfl rfl
  · have hdead : s.referenced = false ∨ s.consumerAlive = false := by
      rwa [not_and_or, Bool.not_eq_true, Bool.not_eq_true] at hlive
    rw [beginConsume] at h
    split_ifs at h
    · cases h
      exact .drops (Frame.refl s) hdead rfl rfl rfl rfl rfl rfl
    · cases h
      exact .drops (Frame.refl s) hdead rfl rfl rfl rfl rfl rfl
    · cases h
      exact .passes ((Frame.refl s).add hne) (Or.inl rfl) rfl rfl (inFlight_add _ _) rfl rfl

theorem resume_continued {cfg : Config} {s t : State} {task : Task} {outcome : Outcome}
    (hne : task.Nonempty) (h : resume cfg s task outcome = some t) :
    Continued cfg s task outcome t := by
  rw [resume.eq_def] at h
  split at h
  · exact takeThenSubmit_continued h
  · exact beginConsume_continued hne h
  · rename_i messages status
    cases h
    cases hm : cfg.messageModel with
    | clustering =>
      simp only [settle, hm]
      exact .passes ((Frame.refl s).add trivial) (Or.inr hm) rfl rfl (inFlight_add _ _) rfl rfl
    | broadcasting =>
      simp only [settle, hm]
      exact .returns ⟨rfl, rfl, rfl, fun _ h => Or.inl h⟩ status rfl hm (fun h => h) rfl rfl rfl
        rfl rfl
  · rename_i status messages
    cases messages with
    | nil =>
      cases h
      exact .passes (Frame.refl s) (Or.inl rfl) rfl rfl (by simp [Task.messages]) rfl rfl
    | cons m rest =>
      rw [settleNext] at h
      obtain ⟨q, hq, rfl⟩ := Option.map_eq_some_iff.mp h
      exact .settles (Frame.add ⟨rfl, rfl, rfl, fun _ h => Or.inl h⟩ trivial) m rest rfl rfl hq rfl
        (inFlight_add _ _) rfl rfl
  · cases h

theorem Continued.frame {cfg : Config} {s t : State} {task : Task} {outcome : Outcome}
    (hc : Continued cfg s task outcome t) : Frame s t := by
  cases hc with
  | takes frame => exact frame
  | passes frame => exact frame
  | drops frame => exact frame
  | returns frame => exact frame
  | settles frame => exact frame

theorem Continued.source {cfg : Config} {s t : State} {task : Task} {outcome : Outcome}
    (hc : Continued cfg s task outcome t) {m : MQMessageExt}
    (hm : m ∈ t.processQueue.cachedMessages ∨ m ∈ inFlight t ∨ m ∈ t.finished) :
    m ∈ task.messages ∨
      m ∈ s.processQueue.cachedMessages ∨ m ∈ inFlight s ∨ m ∈ s.finished := by
  cases hc with
  | takes _ _ _ queue _ hflight finished _ =>
    rw [queue, hflight, finished, ProcessQueueImpl.take_queue, ProcessQueueImpl.take_messages,
      List.mem_append] at hm
    have hdrop := List.mem_of_mem_drop (a := m) (l := s.processQueue.cachedMessages)
      (i := cfg.consumeBatchSize)
    have htake := List.mem_of_mem_take (a := m) (l := s.processQueue.cachedMessages)
      (i := cfg.consumeBatchSize)
    tauto
  | passes _ _ queue _ hflight finished _ =>
    rw [queue, hflight, finished, List.mem_append] at hm
    tauto
  | drops _ _ _ queue _ hflight finished _ =>
    rw [queue, hflight, finished] at hm
    exact Or.inr hm
  | returns _ _ _ _ _ queue _ hflight finished _ =>
    rw [queue, hflight, finished, List.mem_append] at hm
    tauto
  | settles _ m' rest messages _ queue _ hflight finished _ =>
    rw [(ProcessQueueImpl.release_cachedMessages queue).1, hflight, finished, List.mem_append,
      List.mem_append, List.mem_singleton] at hm
    rw [messages, List.mem_cons]
    tauto

/-- In a live run every message taken is finished or in the hands of one task. -/
structure Inv (s : State) : Prop where
  referenced : s.referenced = true
  consumerAlive : s.consumerAlive = true
  taken : s.taken.Perm (s.finished ++ inFlight s)
  nonempty : ∀ task ∈ s.pending, task.Nonempty

theorem inv_init (cfg : Config) (filter : FilterExpression) : Inv (machine cfg filter).init :=
  ⟨rfl, rfl, List.Perm.refl [], by simp [machine]⟩

theorem inFlight_pick {s : State} {i : ℕ} {task : Task} {rest : List Task}
    (h : pick s.pending i = some (task, rest)) :
    (inFlight s).Perm (task.messages ++ inFlight { s with pending := rest }) := by
  have hperm := (pick_perm h).flatMap_right Task.messages
  rwa [List.flatMap_cons] at hperm

theorem Continued.inv {cfg : Config} {s t : State} {i : ℕ} {task : Task} {rest : List Task}
    {outcome : Outcome} (h : Inv s) (hpick : pick s.pending i = some (task, rest))
    (hc : Continued cfg { s with pending := rest } task outcome t) : Inv t := by
  have hflight := inFlight_pick hpick
  have hmem : ∀ task' ∈ rest, task' ∈ s.pending := fun task' hmem =>
    mem_of_mem_rest hpick hmem
  have hframe := hc.frame
  refine ⟨hframe.referenced.trans h.referenced, hframe.consumerAlive.trans h.consumerAlive, ?_,
    fun task' hmem' => (hframe.tasks task' hmem').elim (fun h' => h.nonempty _ (hmem _ h')) id⟩
  have htaken := h.taken.trans (hflight.append_left s.finished)
  cases hc with
  | takes _ dispatch _ _ taken inFlight finished _ =>
    rw [taken, inFlight, finished, ← List.append_assoc]
    rw [dispatch, List.nil_append] at htaken
    exact htaken.append_right _
  | passes _ _ _ taken inFlight finished _ =>
    rw [taken, inFlight, finished]
    exact htaken.trans (List.perm_append_comm.append_left _)
  | drops _ dead => simp [h.referenced, h.consumerAlive] at dead
  | returns _ _ _ _ _ _ taken inFlight finished _ =>
    rw [taken, inFlight, finished, List.append_assoc]
    exact htaken
  | settles _ m ms messages _ _ taken inFlight finished _ =>
    rw [taken, inFlight, finished, List.append_assoc]
    rw [messages] at htaken
    exact htaken.trans ((List.perm_append_comm.cons m).append_left _)

theorem step_inv {cfg : Config} {s t : State} {e : Event} (h : Inv s) (he : e.live = true)
    (hstep : step cfg s e = some t) : Inv t := by
  cases e with
  | cacheMessages messages =>
    cases hstep
    rw [cacheMessages, if_pos h.consumerAlive]
    exact ⟨h.referenced, h.consumerAlive, h.taken, h.nonempty⟩
  | submitConsumeTask =>
    cases hstep
    have hs : submitConsumeTask cfg s = s.add .dispatch := by
      simp [submitConsumeTask, State.processQueueAlive, h.referenced, h.consumerAlive]
    rw [hs]
    refine ⟨h.referenced, h.consumerAlive, ?_, ?_⟩
    · rw [inFlight_add, Task.messages, List.append_nil]
      exact h.taken
    · intro task hmem
      have hadd : Frame s (s.add .dispatch) := (Frame.refl s).add trivial
      rcases hadd.tasks task hmem with hold | hnew
      · exact h.nonempty task hold
      · exact hnew
  | resume i outcome =>
    obtain ⟨⟨task, rest⟩, hpick, hres⟩ := Option.bind_eq_some_iff.mp hstep
    have hne : task.Nonempty := h.nonempty task (mem_of_pick hpick)
    exact (resume_continued hne hres).inv h hpick
  | dropReference => cases he
  | destroyConsumer => cases he

end RocketMQClient.StandardConsume
