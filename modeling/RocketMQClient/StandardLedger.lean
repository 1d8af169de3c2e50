import RocketMQClient.StandardProgress
import RocketMQClient.StandardSettlement

/-! The acknowledgements of the standard service over a whole run. A ledger is kept beside
the machine: what was received, what the listener answered for it, and for which messages
`ack` and `nack` of the consumer were called. A message the filter refuses is acknowledged
when it is received. In clustering mode the requests follow the answers of the listener
message by message, whatever tasks run at once. -/

namespace RocketMQClient.StandardConsume
open EventMachine EventMachine.Machine Pending

inductive Note
  | received
  | succeeded
  | failed
  | acked
  | nacked
  deriving DecidableEq, Repr

def Task.notes : Task → Outcome → List (Note × MQMessageExt)
  | .running messages, .returned status =>
    messages.map (if caught status = .success then .succeeded else .failed, ·)
  | .settling status (message :: _), .run =>
    [(if caught status = .success then .acked else .nacked, message)]
  | _, _ => []

def notes (s : State) : Event → List (Note × MQMessageExt)
  | .cacheMessages messages =>
    if s.consumerAlive then
      messages.map (.received, ·) ++
        (messages.filter fun m => !s.processQueue.filterExpression.accept m).map (.acked, ·)
    else []
  | .resume i outcome => ((pick s.pending i).map fun r => r.1.notes outcome).getD []
  | .submitConsumeTask => []
  | .dropReference => []
  | .destroyConsumer => []

def ledger (cfg : Config) (filter : FilterExpression) :
    Machine (State × List (Note × MQMessageExt)) Event :=
  (machine cfg filter).record notes

def noted (note : Note) (l : List (Note × MQMessageExt)) : List MQMessageExt :=
  (l.filter fun entry => entry.1 = note).map Prod.snd

def refused (filter : FilterExpression) (l : List (Note × MQMessageExt)) : List MQMessageExt :=
  (noted .received l).filter fun m => !filter.accept m

@[simp] theorem noted_append (note : Note) (l l' : List (Note × MQMessageExt)) :
    noted note (l ++ l') = noted note l ++ noted note l' := by
  simp [noted]

@[simp] theorem noted_map (note note' : Note) (messages : List MQMessageExt) :
    noted note (messages.map (note', ·)) = if note' = note then messages else [] := by
  induction messages with
  | nil => simp [noted]
  | cons m messages ih =>
    split_ifs at ih ⊢ with hnote <;> simp_all [noted]

def Task.waiting : Task → List MQMessageExt
  | .consume messages => messages
  | .running messages => messages
  | _ => []

def Task.ackDue : Task → List MQMessageExt
  | .settling status messages => if caught status = .success then messages else []
  | _ => []

def Task.nackDue : Task → List MQMessageExt
  | .settling status messages => if caught status = .success then [] else messages
  | _ => []

def State.held (s : State) (f : Task → List MQMessageExt) : List MQMessageExt :=
  s.pending.flatMap f

variable {cfg : Config} {filter : FilterExpression} {s t : State}
  {l : List (Note × MQMessageExt)}

theorem held_add (s : State) (task : Task) (f : Task → List MQMessageExt) :
    (s.add task).held f = s.held f ++ f task := by
  simp [State.held, State.add]

theorem held_pick {i : ℕ} {task : Task} {rest : List Task}
    (h : pick s.pending i = some (task, rest)) (f : Task → List MQMessageExt) :
    (s.held f).Perm (f task ++ State.held { s with pending := rest } f) := by
  have hperm := (pick_perm h).flatMap_right f
  rwa [List.flatMap_cons] at hperm

theorem Task.messages_perm (task : Task) :
    task.messages.Perm (task.waiting ++ (task.ackDue ++ task.nackDue)) := by
  cases task with
  | settling status batch =>
    simp only [messages, waiting, ackDue, nackDue]
    split_ifs <;> simp
  | _ => simp [messages, waiting, ackDue, nackDue]

theorem inFlight_perm (s : State) :
    (inFlight s).Perm (s.held Task.waiting ++ (s.held Task.ackDue ++ s.held Task.nackDue)) := by
  unfold inFlight State.held
  induction s.pending with
  | nil => simp
  | cons task tasks ih =>
    rw [List.perm_iff_count] at ih ⊢
    intro m
    have htask := task.messages_perm.count_eq m
    have htasks := ih m
    simp only [List.flatMap_cons, List.count_append] at htask htasks ⊢
    omega

/-- The requests made follow the answers of the listener up to those that are due. -/
structure Balanced (filter : FilterExpression) (s : State) (l : List (Note × MQMessageExt)) :
    Prop where
  filterExpression : s.processQueue.filterExpression = filter
  accepted : s.accepted = (noted .received l).filter filter.accept
  acked : (noted .acked l ++ s.held Task.ackDue).Perm (refused filter l ++ noted .succeeded l)
  nacked : (noted .nacked l ++ s.held Task.nackDue).Perm (noted .failed l)
  finished : (noted .acked l ++ noted .nacked l).Perm (refused filter l ++ s.finished)

structure Transfer (s : State) (task : Task) (t : State) (new : List (Note × MQMessageExt)) :
    Prop where
  filterExpression : t.processQueue.filterExpression = s.processQueue.filterExpression
  accepted : t.accepted = s.accepted
  received : noted .received new = []
  acked : ∀ m, (noted .acked new).count m + (t.held Task.ackDue).count m =
    task.ackDue.count m + (s.held Task.ackDue).count m + (noted .succeeded new).count m
  nacked : ∀ m, (noted .nacked new).count m + (t.held Task.nackDue).count m =
    task.nackDue.count m + (s.held Task.nackDue).count m + (noted .failed new).count m
  finished : ∀ m, (noted .acked new).count m + (noted .nacked new).count m +
    s.finished.count m = t.finished.count m

theorem Transfer.of_held {task : Task}
    (hfilter : t.processQueue.filterExpression = s.processQueue.filterExpression)
    (haccepted : t.accepted = s.accepted) (hfinished : t.finished = s.finished)
    (hack : t.held Task.ackDue = task.ackDue ++ s.held Task.ackDue)
    (hnack : t.held Task.nackDue = task.nackDue ++ s.held Task.nackDue) :
    Transfer s task t [] := by
  refine ⟨hfilter, haccepted, rfl, fun m => ?_, fun m => ?_, fun m => ?_⟩
  · simp [hack, noted]
  · simp [hnack, noted]
  · simp [hfinished, noted]

theorem takeThenSubmit_transfer (h : takeThenSubmit cfg s = some t) :
    Transfer s .dispatch t [] := by
  have hqueue := s.processQueue.take_queue cfg.consumeBatchSize
  simp only [takeThenSubmit] at h
  split_ifs at h
  all_goals
    cases h
    apply Transfer.of_held
    · simp only [State.add, hqueue]
    · rfl
    · rfl
    · simp [State.held, State.add, Task.ackDue]
    · simp [State.held, State.add, Task.nackDue]

theorem beginConsume_transfer {messages : List MQMessageExt}
    (h : beginConsume cfg s messages = some t) : Transfer s (.consume messages) t [] := by
  simp only [beginConsume] at h
  split_ifs at h
  · cases h
    exact .of_held rfl rfl rfl rfl rfl
  · cases h
    exact .of_held rfl rfl rfl rfl rfl
  · cases h
    refine Transfer.of_held rfl rfl rfl ?_ ?_
    · simp [held_add, Task.ackDue]
    · simp [held_add, Task.nackDue]

theorem settle_transfer (hmodel : cfg.messageModel = .clustering) (s : State)
    (messages : List MQMessageExt) (status : FifoConsume.ListenerOutcome) :
    Transfer s (.running messages) (settle cfg s messages status)
      (Task.notes (.running messages) (.returned status)) := by
  simp only [settle, hmodel, Task.notes]
  refine ⟨rfl, rfl, ?_, fun m => ?_, fun m => ?_, fun m => ?_⟩
  · simp only [noted_map]
    split_ifs <;> simp_all
  · simp only [noted_map, held_add, Task.ackDue, List.count_append]
    split_ifs <;> simp_all
  · simp only [noted_map, held_add, Task.nackDue, List.count_append]
    split_ifs <;> simp_all
  · simp only [noted_map, State.add]
    split_ifs <;> simp_all

theorem settleNext_transfer (status : FifoConsume.ListenerOutcome)
    {messages : List MQMessageExt} (h : settleNext s status messages = some t) :
    Transfer s (.settling status messages) t (Task.notes (.settling status messages) .run) := by
  cases messages with
  | nil =>
    cases h
    refine Transfer.of_held rfl rfl rfl ?_ ?_ <;> simp [Task.ackDue, Task.nackDue]
  | cons message messages =>
    rw [settleNext] at h
    obtain ⟨q, hq, rfl⟩ := Option.map_eq_some_iff.mp h
    have hfilter := (ProcessQueueImpl.release_cachedMessages hq).2.2
    have hone : Task.notes (.settling status (message :: messages)) .run =
        [message].map (if caught status = .success then .acked else .nacked, ·) := rfl
    rw [hone]
    refine ⟨hfilter, rfl, ?_, fun m => ?_, fun m => ?_, fun m => ?_⟩
    · simp only [noted_map]
      split_ifs <;> simp_all
    · simp only [noted_map, held_add, Task.ackDue, List.count_append]
      split_ifs <;> simp_all [State.held, List.count_cons]
      omega
    · simp only [noted_map, held_add, Task.nackDue, List.count_append]
      split_ifs <;> simp_all [State.held, List.count_cons]
      omega
    · simp only [noted_map, State.add, List.count_append]
      split_ifs <;> simp_all [Nat.add_comm]

theorem resume_transfer (hmodel : cfg.messageModel = .clustering) {task : Task}
    {outcome : Outcome} (h : resume cfg s task outcome = some t) :
    Transfer s task t (task.notes outcome) := by
  rw [resume.eq_def] at h
  split at h
  · exact takeThenSubmit_transfer h
  · exact beginConsume_transfer h
  · cases h
    exact settle_transfer hmodel s _ _
  · exact settleNext_transfer _ h
  · cases h

theorem Balanced.resume {i : ℕ} {task : Task} {rest : List Task}
    {new : List (Note × MQMessageExt)}
    (h : Balanced filter s l) (hpick : pick s.pending i = some (task, rest))
    (ht : Transfer { s with pending := rest } task t new) : Balanced filter t (l ++ new) := by
  have hreceived : noted .received (l ++ new) = noted .received l := by
    rw [noted_append, ht.received, List.append_nil]
  have hrefused : refused filter (l ++ new) = refused filter l := by
    simp only [refused, hreceived]
  refine ⟨ht.filterExpression.trans h.filterExpression, ?_, ?_, ?_, ?_⟩
  · rw [ht.accepted, hreceived]
    exact h.accepted
  · rw [List.perm_iff_count]
    intro m
    have hbefore := h.acked.count_eq m
    have hheld := (held_pick hpick Task.ackDue).count_eq m
    have hafter := ht.acked m
    rw [hrefused]
    simp only [noted_append, List.count_append] at hbefore hheld ⊢
    omega
  · rw [List.perm_iff_count]
    intro m
    have hbefore := h.nacked.count_eq m
    have hheld := (held_pick hpick Task.nackDue).count_eq m
    have hafter := ht.nacked m
    simp only [noted_append, List.count_append] at hbefore hheld ⊢
    omega
  · rw [List.perm_iff_count]
    intro m
    have hbefore := h.finished.count_eq m
    have hafter := ht.finished m
    rw [hrefused]
    simp only [noted_append, List.count_append] at hbefore hafter ⊢
    omega

theorem Balanced.receive (h : Balanced filter s l) (cfg : Config)
    (messages : List MQMessageExt) :
    Balanced filter (cacheMessages cfg s messages) (l ++ notes s (.cacheMessages messages)) := by
  unfold cacheMessages notes
  split_ifs
  · refine ⟨?_, ?_, ?_, ?_, ?_⟩
    · rw [ProcessQueueImpl.cacheMessages_filterExpression]
      exact h.filterExpression
    · simp [h.filterExpression, h.accepted, List.filter_append]
    · rw [List.perm_iff_count]
      intro m
      have hbefore := h.acked.count_eq m
      simp only [refused, h.filterExpression, noted_append, noted_map, List.filter_append,
        List.count_append, State.held, if_true, reduceCtorEq, if_false, List.filter_nil,
        List.count_nil] at hbefore ⊢
      omega
    · simpa [State.held] using h.nacked
    · rw [List.perm_iff_count]
      intro m
      have hbefore := h.finished.count_eq m
      simp only [refused, h.filterExpression, noted_append, noted_map, List.filter_append,
        List.count_append, if_true, reduceCtorEq, if_false, List.filter_nil,
        List.count_nil] at hbefore ⊢
      omega
  · rwa [List.append_nil]

theorem Balanced.step (hmodel : cfg.messageModel = .clustering) (h : Balanced filter s l)
    {e : Event} (hstep : step cfg s e = some t) : Balanced filter t (l ++ notes s e) := by
  cases e with
  | cacheMessages messages =>
    cases hstep
    exact h.receive cfg messages
  | submitConsumeTask =>
    cases hstep
    rw [notes, List.append_nil]
    unfold submitConsumeTask
    split_ifs
    · refine ⟨h.filterExpression, h.accepted, ?_, ?_, h.finished⟩
      · simpa [held_add, Task.ackDue] using h.acked
      · simpa [held_add, Task.nackDue] using h.nacked
    · exact h
  | resume i outcome =>
    obtain ⟨⟨task, rest⟩, hpick, hres⟩ := Option.bind_eq_some_iff.mp hstep
    simp only [notes, hpick, Option.map_some, Option.getD_some]
    exact h.resume hpick (resume_transfer hmodel hres)
  | dropReference =>
    cases hstep
    rw [notes, List.append_nil]
    exact ⟨h.filterExpression, h.accepted, h.acked, h.nacked, h.finished⟩
  | destroyConsumer =>
    cases hstep
    rw [notes, List.append_nil]
    exact ⟨h.filterExpression, h.accepted, h.acked, h.nacked, h.finished⟩

theorem balanced_run (hmodel : cfg.messageModel = .clustering) {es : List Event}
    (hrun : (ledger cfg filter).run es = some (s, l)) : Balanced filter s l := by
  refine (ledger cfg filter).run_invariant (I := fun p => Balanced filter p.1 p.2)
    ⟨rfl, rfl, List.Perm.refl [], List.Perm.refl [], List.Perm.refl []⟩ ?_ hrun
  intro p e q h hstep
  obtain ⟨hservice, hnotes⟩ := record_step _ hstep
  rw [hnotes]
  exact h.step hmodel hservice

theorem ledger_handsOver {es : List Event} (hlive : ∀ e ∈ es, e.live = true)
    (hrun : (ledger cfg filter).run es = some (s, l)) : HandsOver s :=
  (ledger cfg filter).runFrom_invariant (I := fun p => HandsOver p.1)
    (A := fun e => e.live = true) (fun _ _ _ h he hstep => h.step he (record_step _ hstep).1)
    es hlive ⟨inv_init cfg filter, rfl⟩ hrun

theorem count_received (filter : FilterExpression) (l : List (Note × MQMessageExt))
    (m : MQMessageExt) :
    (noted .received l).count m =
      (refused filter l).count m + ((noted .received l).filter filter.accept).count m := by
  have hcount := (List.filter_append_perm filter.accept (noted .received l)).count_eq m
  rw [List.count_append] at hcount
  rw [← hcount, Nat.add_comm]
  rfl

/-- While the service lives, a message received is refused by the filter, answered by the
listener, waiting for it, or cached. -/
theorem received_perm (h : Balanced filter s l) (hlive : HandsOver s) :
    (noted .received l).Perm (refused filter l ++ noted .succeeded l ++ noted .failed l ++
      s.held Task.waiting ++ s.processQueue.cachedMessages) := by
  rw [List.perm_iff_count]
  intro m
  have hreceived := count_received filter l m
  have hacked := h.acked.count_eq m
  have hnacked := h.nacked.count_eq m
  have hfinished := h.finished.count_eq m
  have htaken := hlive.inv.taken.count_eq m
  have hflight := (inFlight_perm s).count_eq m
  rw [← h.accepted, hlive.order] at hreceived
  simp only [List.count_append] at hreceived hacked hnacked hfinished htaken hflight ⊢
  omega

theorem settled_as_consumed (cfg : Config) (filter : FilterExpression)
    (hmodel : cfg.messageModel = .clustering) {es : List Event} {s : State}
    {l : List (Note × MQMessageExt)} (hrun : (ledger cfg filter).run es = some (s, l)) :
    (noted .acked l ++ s.held Task.ackDue).Perm (refused filter l ++ noted .succeeded l) ∧
      (noted .nacked l ++ s.held Task.nackDue).Perm (noted .failed l) ∧
      ((∀ e ∈ es, e.live = true) →
        (noted .received l).Perm (refused filter l ++ noted .succeeded l ++ noted .failed l ++
          s.held Task.waiting ++ s.processQueue.cachedMessages) ∧
        (s.pending = [] → s.processQueue.cachedMessages = [] →
          (noted .received l).Perm (noted .acked l ++ noted .nacked l))) := by
  have hbalanced := balanced_run hmodel hrun
  refine ⟨hbalanced.acked, hbalanced.nacked, fun hlive => ?_⟩
  have hreceived := received_perm hbalanced (ledger_handsOver hlive hrun)
  refine ⟨hreceived, fun hpending hcached => ?_⟩
  have hheld : ∀ f, s.held f = [] := fun f => by rw [State.held, hpending, List.flatMap_nil]
  have hacked := hbalanced.acked
  have hnacked := hbalanced.nacked
  rw [hheld, List.append_nil] at hacked hnacked
  rw [hheld, hcached, List.append_nil, List.append_nil] at hreceived
  exact hreceived.trans (hacked.append hnacked).symm

def oneThrows : List Event :=
  [.cacheMessages [{}, {}], .submitConsumeTask, .resume 0 .run, .resume 1 .run, .resume 0 .run,
    .resume 0 .run, .resume 1 (.returned .exception), .resume 0 (.returned .success),
    .resume 1 .run, .resume 0 .run, .resume 0 .run, .resume 0 .run]

theorem one_throws_settled : ∃ s l,
    (ledger { credentialsProvider := true } {}).run oneThrows = some (s, l) ∧
      (noted .acked l).length = 1 ∧ (noted .nacked l).length = 1 ∧
      (noted .received l).Perm (noted .acked l ++ noted .nacked l) := by
  have hlive : ∀ e ∈ oneThrows, e.live = true := by simp [oneThrows, Event.live]
  exact ⟨_, _, rfl, rfl, rfl,
    ((settled_as_consumed { credentialsProvider := true } {} rfl rfl).2.2 hlive).2 rfl rfl⟩

end RocketMQClient.StandardConsume
