import RocketMQClient.StandardConsume
import Mathlib.Algebra.GroupWithZero.Nat

/-! What the standard service makes of the messages over a whole run. While the queue and the
consumer live, messages are taken in the order in which they were accepted, and each is held
by one task until it is finished. After a call of `submitConsumeTask` the tasks come to an
end by themselves, in whatever order they go on and whatever the listener answers, and then
every message is finished, if the consumer has a credentials provider. -/

namespace RocketMQClient.StandardConsume
open EventMachine EventMachine.Machine Pending

structure HandsOver (s : State) : Prop where
  inv : Inv s
  order : s.accepted = s.taken ++ s.processQueue.cachedMessages

variable {cfg : Config} {s t : State}

theorem Continued.order {task : Task} {outcome : Outcome} (hc : Continued cfg s task outcome t)
    (h : s.accepted = s.taken ++ s.processQueue.cachedMessages) :
    t.accepted = t.taken ++ t.processQueue.cachedMessages := by
  have haccepted := hc.frame.accepted
  cases hc with
  | takes _ _ _ queue taken _ _ _ =>
    rw [haccepted, h, queue, taken, ProcessQueueImpl.take_queue, ProcessQueueImpl.take_messages,
      List.append_assoc, List.take_append_drop]
  | passes _ _ queue taken _ _ _ => rw [haccepted, h, queue, taken]
  | drops _ _ _ queue taken _ _ _ => rw [haccepted, h, queue, taken]
  | returns _ _ _ _ _ queue taken _ _ _ => rw [haccepted, h, queue, taken]
  | settles _ _ _ _ _ queue taken _ _ _ =>
    rw [haccepted, h, (ProcessQueueImpl.release_cachedMessages queue).1, taken]

theorem HandsOver.step {e : Event} (h : HandsOver s) (he : e.live = true)
    (hstep : step cfg s e = some t) : HandsOver t := by
  refine ⟨step_inv h.inv he hstep, ?_⟩
  cases e with
  | cacheMessages messages =>
    cases hstep
    rw [cacheMessages, if_pos h.inv.consumerAlive]
    simp only [ProcessQueueImpl.cacheMessages_cachedMessages]
    rw [h.order, List.append_assoc]
  | submitConsumeTask =>
    cases hstep
    unfold submitConsumeTask
    split_ifs <;> exact h.order
  | resume i outcome =>
    obtain ⟨⟨task, rest⟩, hpick, hres⟩ := Option.bind_eq_some_iff.mp hstep
    have hne : task.Nonempty := h.inv.nonempty task (mem_of_pick hpick)
    exact (resume_continued hne hres).order h.order
  | dropReference => cases he
  | destroyConsumer => cases he

theorem handsOver_run (filter : FilterExpression) {es : List Event}
    (hlive : ∀ e ∈ es, e.live = true) (hrun : (machine cfg filter).run es = some s) :
    HandsOver s :=
  (machine cfg filter).runFrom_invariant (I := HandsOver) (A := fun e => e.live = true)
    (fun _ _ _ h he hstep => h.step he hstep) es hlive ⟨inv_init cfg filter, rfl⟩ hrun

def Task.weight : Task → ℕ
  | .dispatch => 1
  | .consume messages => messages.length + 3
  | .running messages => messages.length + 2
  | .settling _ messages => messages.length + 1

/-- A bound on the steps that are left: a cached message is taken, consumed and settled. -/
def State.rank (s : State) : ℕ :=
  6 * s.processQueue.cachedMessages.length + (s.pending.map Task.weight).sum

def Stopped (cfg : Config) (s : State) : Prop :=
  ∀ i outcome, step cfg s (.resume i outcome) = none

theorem takeThenSubmit_isSome (hbatch : 0 < cfg.consumeBatchSize) (s : State) :
    takeThenSubmit cfg s ≠ none := by
  have htake := s.processQueue.take_messages cfg.consumeBatchSize
  have hmore := s.processQueue.take_more cfg.consumeBatchSize
  simp only [takeThenSubmit]
  split_ifs with hempty hassert
  · rw [htake, List.isEmpty_iff, List.take_eq_nil_iff] at hempty
    rw [hmore, decide_eq_true_eq] at hassert
    obtain hzero | hnil := hempty
    · omega
    · simp [hnil] at hassert
  all_goals simp

theorem beginConsume_isSome (hprovider : cfg.credentialsProvider = true) (s : State)
    (messages : List MQMessageExt) : beginConsume cfg s messages ≠ none := by
  simp only [beginConsume, hprovider]
  split_ifs <;> simp_all

theorem Stopped.pending (hbatch : 0 < cfg.consumeBatchSize)
    (hprovider : cfg.credentialsProvider = true) (h : Stopped cfg s) : s.pending = [] := by
  cases hpending : s.pending with
  | nil => rfl
  | cons task rest =>
    have hresume : ∀ outcome, resume cfg { s with pending := rest } task outcome = none := by
      intro outcome
      simpa [step, hpending, pick] using h 0 outcome
    cases task with
    | dispatch => exact absurd (hresume .run) (takeThenSubmit_isSome hbatch _)
    | consume messages => exact absurd (hresume .run) (beginConsume_isSome hprovider _ messages)
    | running messages => simpa [resume] using hresume (.returned .success)
    | settling status messages =>
      cases messages with
      | nil => simpa [resume, settleNext] using hresume .run
      | cons m messages =>
        simpa [resume, settleNext, ProcessQueueImpl.release] using hresume .run

theorem messages_taken_in_order_once (cfg : Config) (filter : FilterExpression) {es : List Event}
    {s : State} (hlive : ∀ e ∈ es, e.live = true)
    (hrun : (machine cfg filter).run es = some s) :
    s.accepted = s.taken ++ s.processQueue.cachedMessages ∧
      s.taken.Perm (s.finished ++ inFlight s) :=
  ⟨(handsOver_run filter hlive hrun).order, (handsOver_run filter hlive hrun).inv.taken⟩

theorem two_messages_taken_in_order : ∃ s,
    (machine {} {}).run [.cacheMessages [{}, {}], .submitConsumeTask, .resume 0 .run] = some s ∧
      s.taken.length = 1 ∧ s.accepted = s.taken ++ s.processQueue.cachedMessages ∧
      s.taken.Perm (s.finished ++ inFlight s) := by
  have hlive : ∀ e ∈ [Event.cacheMessages [{}, {}], .submitConsumeTask, .resume 0 .run],
      e.live = true := by simp [Event.live]
  exact ⟨_, rfl, rfl, messages_taken_in_order_once {} {} hlive rfl⟩

end RocketMQClient.StandardConsume
