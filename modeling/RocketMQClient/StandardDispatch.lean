import RocketMQClient.StandardConsume

/-!
# The dispatcher of the standard consume service as one call

`submitConsumeTask` from its start to its end, with nothing between its rounds, and how
it cuts the cached messages into batches. The call consists of steps of the machine of
the service, whose tasks stand in the order of their submission.

With a batch size of zero `take` leaves everything and says so, and the assertion
fails; the setters of the batch size never make it zero.
-/

namespace RocketMQClient.StandardConsume
open EventMachine Pending

theorem take_shrinks {q : ProcessQueueImpl} {batchSize : ℕ}
    (h : (q.take batchSize).messages.isEmpty = false) :
    (q.take batchSize).queue.cachedMessages.length < q.cachedMessages.length := by
  rw [ProcessQueueImpl.take_messages, List.isEmpty_eq_false_iff, ne_eq, List.take_eq_nil_iff,
    not_or] at h
  have hlength := List.length_pos_iff.mpr h.2
  rw [ProcessQueueImpl.take_queue, List.length_drop]
  omega

def submitLoop (cfg : Config) (s : State) : Option State :=
  let r := s.processQueue.take cfg.consumeBatchSize
  let t := { s with processQueue := r.queue, taken := s.taken ++ r.messages }
  if h : r.messages.isEmpty then
    -- an assertion of the source
    if r.more then none else some t
  else if r.more then
    have := take_shrinks (Bool.eq_false_iff.mpr h)
    submitLoop cfg (t.add (.consume r.messages))
  else some (t.add (.consume r.messages))
termination_by s.processQueue.cachedMessages.length

def submitConsumeTasks (cfg : Config) (s : State) : Option State :=
  if s.processQueueAlive cfg && s.consumerAlive then submitLoop cfg s else some s

def submitBatch (cfg : Config) (s : State) : State :=
  { s with
    processQueue := { s.processQueue with
      cachedMessages := s.processQueue.cachedMessages.drop cfg.consumeBatchSize }
    taken := s.taken ++ s.processQueue.cachedMessages.take cfg.consumeBatchSize }.add
      (.consume (s.processQueue.cachedMessages.take cfg.consumeBatchSize))

section
variable {cfg : Config} {s : State}

theorem submitLoop_of_empty (cfg : Config) (h : s.processQueue.cachedMessages = []) :
    submitLoop cfg s = some s ∧ takeThenSubmit cfg s = some s := by
  have hqueue : { s.processQueue with cachedMessages := [] } = s.processQueue := by rw [← h]
  constructor
  · rw [submitLoop.eq_def]
    simp [ProcessQueueImpl.take_messages, ProcessQueueImpl.take_queue, ProcessQueueImpl.take_more,
      h, hqueue]
  · simp [takeThenSubmit, ProcessQueueImpl.take_messages, ProcessQueueImpl.take_queue,
      ProcessQueueImpl.take_more, h, hqueue]

theorem submitLoop_of_cached (hb : 1 ≤ cfg.consumeBatchSize)
    (h : s.processQueue.cachedMessages ≠ []) :
    submitLoop cfg s =
        (if cfg.consumeBatchSize < s.processQueue.cachedMessages.length then
          submitLoop cfg (submitBatch cfg s) else some (submitBatch cfg s)) ∧
      takeThenSubmit cfg s = some
        (if cfg.consumeBatchSize < s.processQueue.cachedMessages.length then
          (submitBatch cfg s).add .dispatch else submitBatch cfg s) := by
  have hne : cfg.consumeBatchSize ≠ 0 := by omega
  constructor
  · rw [submitLoop.eq_def]
    simp [ProcessQueueImpl.take_messages, ProcessQueueImpl.take_queue, ProcessQueueImpl.take_more,
      h, hne, submitBatch]
  · simp [takeThenSubmit, ProcessQueueImpl.take_messages, ProcessQueueImpl.take_queue,
      ProcessQueueImpl.take_more, h, hne, submitBatch]

theorem dispatch_step {t : State} (h : takeThenSubmit cfg s = some t) (filter : FilterExpression) :
    (machine cfg filter).step (s.add .dispatch) (.resume s.pending.length .run) = some t := by
  rw [step_resume_last, resume, h]

structure Partitions (b : ℕ) (s t : State) (batches : List (List MQMessageExt)) : Prop where
  submitted : t.pending = s.pending ++ batches.map .consume
  bounded : ∀ batch ∈ batches, batch ≠ [] ∧ batch.length ≤ b
  whole : batches.flatten = s.processQueue.cachedMessages
  emptied : t.processQueue = { s.processQueue with cachedMessages := [] }

theorem submitBatch_partitions (hb : 1 ≤ cfg.consumeBatchSize)
    (h : s.processQueue.cachedMessages ≠ []) {t : State} {batches : List (List MQMessageExt)}
    (hrest : Partitions cfg.consumeBatchSize (submitBatch cfg s) t batches) :
    Partitions cfg.consumeBatchSize s t
      (s.processQueue.cachedMessages.take cfg.consumeBatchSize :: batches) := by
  constructor
  · rw [hrest.submitted]
    simp [submitBatch, State.add]
  · intro batch hbatch
    rcases List.mem_cons.mp hbatch with rfl | htail
    · have hne : cfg.consumeBatchSize ≠ 0 := by omega
      exact ⟨by simp [h, hne], List.length_take_le _ _⟩
    · exact hrest.bounded batch htail
  · rw [List.flatten_cons, hrest.whole]
    exact List.take_append_drop _ _
  · exact hrest.emptied

theorem submitLoop_partitions (hb : 1 ≤ cfg.consumeBatchSize) (filter : FilterExpression)
    (s : State) :
    ∃ t batches, submitLoop cfg s = some t ∧ Partitions cfg.consumeBatchSize s t batches ∧
      (machine cfg filter).Reaches (s.add .dispatch) t := by
  -- the cache of the next round is shorter by a batch
  induction hn : s.processQueue.cachedMessages.length using Nat.strong_induction_on
    generalizing s with
  | _ n ih =>
    by_cases hempty : s.processQueue.cachedMessages = []
    · obtain ⟨hloop, htake⟩ := submitLoop_of_empty cfg hempty
      refine ⟨s, [], hloop, ⟨by simp, by simp, by simp [hempty], by rw [← hempty]⟩, ?_⟩
      exact .head _ (dispatch_step htake filter) (.refl _ s)
    · obtain ⟨hloop, htake⟩ := submitLoop_of_cached hb hempty
      have hstep := dispatch_step htake filter
      by_cases hmore : cfg.consumeBatchSize < s.processQueue.cachedMessages.length
      · rw [if_pos hmore] at hloop hstep
        have hshorter : (submitBatch cfg s).processQueue.cachedMessages.length < n := by
          simp only [submitBatch, State.add, List.length_drop]
          omega
        obtain ⟨t, batches, ht, hpartitions, hreaches⟩ := ih _ hshorter (submitBatch cfg s) rfl
        exact ⟨t, _, hloop.trans ht, submitBatch_partitions hb hempty hpartitions,
          .head _ hstep hreaches⟩
      · rw [if_neg hmore] at hloop hstep
        have hlast : s.processQueue.cachedMessages.drop cfg.consumeBatchSize = [] :=
          List.drop_eq_nil_of_le (not_lt.mp hmore)
        have hdone : Partitions cfg.consumeBatchSize (submitBatch cfg s) (submitBatch cfg s) [] :=
          ⟨by simp, by simp, by simp [submitBatch, State.add, hlast],
            by simp [submitBatch, State.add, hlast]⟩
        exact ⟨_, _, hloop, submitBatch_partitions hb hempty hdone,
          .head _ hstep (.refl _ _)⟩

/-- A call of the dispatcher ends, and cuts what is cached into batches in order, whichever
way the tasks are submitted. -/
theorem submitConsumeTasks_partitions (cfg : Config) (hb : 1 ≤ cfg.consumeBatchSize)
    (filter : FilterExpression) (s : State) (hqueue : s.processQueueAlive cfg = true)
    (hconsumer : s.consumerAlive = true) :
    ∃ t batches, submitConsumeTasks cfg s = some t ∧
      Partitions cfg.consumeBatchSize s t batches ∧ (machine cfg filter).Reaches s t := by
  obtain ⟨t, batches, hloop, hpartitions, hreaches⟩ := submitLoop_partitions hb filter s
  refine ⟨t, batches, ?_, hpartitions, .head _ (e := .submitConsumeTask) ?_ hreaches⟩
  · rw [submitConsumeTasks, hqueue, hconsumer]
    exact hloop
  · simp [machine, step, submitConsumeTask, hqueue, hconsumer]

end

def fiveCached : State :=
  { processQueue := { cachedMessages := [{}, {}, {}, {}, {}] } }

theorem fiveCached_partitioned :
    ∃ t batches, submitConsumeTasks { consumeBatchSize := 2, customExecutor := true } fiveCached =
        some t ∧
      Partitions 2 fiveCached t batches ∧
      (machine { consumeBatchSize := 2, customExecutor := true } {}).Reaches fiveCached t :=
  submitConsumeTasks_partitions { consumeBatchSize := 2, customExecutor := true } (by decide) {}
    fiveCached rfl rfl

inductive BatchSetting
  | setConsumeMessageBatchMaxSize (fifo : Bool) (batchSize : ℤ)
  | startFifo

def setConsumeBatchSize (fifo : Bool) (current consumeBatchSize : UInt32) : UInt32 :=
  if fifo then current else if 1 ≤ consumeBatchSize then consumeBatchSize else current

def BatchSetting.apply (current : UInt32) : BatchSetting → UInt32
  | .setConsumeMessageBatchMaxSize fifo batchSize =>
    -- the public setter takes an `int`
    setConsumeBatchSize fifo current (UInt32.ofNat (batchSize % 2 ^ 32).toNat)
  | .startFifo => 1

def defaultConsumeMessageBatchSize : UInt32 := 1

theorem setConsumeBatchSize_pos {current : UInt32} (h : 1 ≤ current) (fifo : Bool)
    (consumeBatchSize : UInt32) : 1 ≤ setConsumeBatchSize fifo current consumeBatchSize := by
  rw [setConsumeBatchSize]
  split_ifs with hfifo hsize
  · exact h
  · exact hsize
  · exact h

theorem batchSize_pos (settings : List BatchSetting) {current : UInt32} (h : 1 ≤ current) :
    1 ≤ settings.foldl BatchSetting.apply current := by
  induction settings generalizing current with
  | nil => exact h
  | cons setting settings ih =>
    apply ih
    cases setting with
    | setConsumeMessageBatchMaxSize fifo batchSize => exact setConsumeBatchSize_pos h fifo _
    | startFifo => exact UInt32.le_refl 1

/-- However the batch size has been set, the assertion of the dispatcher holds. -/
theorem submitConsumeTasks_defined (cfg : Config) (settings : List BatchSetting)
    (hcfg : cfg.consumeBatchSize =
      (settings.foldl BatchSetting.apply defaultConsumeMessageBatchSize).toNat) (s : State) :
    ∃ t, submitConsumeTasks cfg s = some t := by
  have hpos := UInt32.le_iff_toNat_le.mp
    (batchSize_pos settings (UInt32.le_refl defaultConsumeMessageBatchSize))
  rw [← hcfg] at hpos
  obtain ⟨t, -, hloop, -, -⟩ := submitLoop_partitions hpos {} s
  rw [submitConsumeTasks]
  split_ifs
  · exact ⟨t, hloop⟩
  · exact ⟨s, rfl⟩

end RocketMQClient.StandardConsume
