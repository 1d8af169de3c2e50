import RocketMQClient.ReceiveMessage
import RocketMQClient.Library.EventMachine
import RocketMQClient.Library.Pending

/-!
# Receive cycles of a polling consumer

`syncProcessQueue` first brings the table of process queues in line with an
assignment, under the lock, and then starts a cycle for each listed queue that
the table did not have. A cycle is continued by the receive callback of its
process queue, which looks the queue up again by key. A process queue removed
from the table lives on while a consume task holds it; the callback of one that
is gone does nothing.

Whether a process queue has expired is an input of the scan, as is the time at
which consume tasks take, release and hold messages.
-/

namespace RocketMQClient.ReceiveCycle
open EventMachine Pending

structure Config where
  messageModel : MessageModel := .clustering
  maxCachedMessageQuantity : UInt32 := 1024
  maxCachedMessageMemory : UInt64 := 128 * 1024 * 1024
  wrap : rmq.Message → Decoded

structure ProcessQueueRef where
  id : ℕ
  messageQueue : MQMessageQueue
  filterExpression : FilterExpression
  deriving DecidableEq, Repr

inductive Work
  | starting (queues : List MQMessageQueue) (filterExpression : FilterExpression)
  | rpc (queue : ProcessQueueRef)
  | timer (queue : ProcessQueueRef)
  deriving DecidableEq, Repr

structure State where
  active : Bool := true
  table : List ProcessQueueRef := []
  contents : ℕ → ProcessQueueImpl := fun _ => {}
  created : ℕ := 0
  held : List ℕ := []
  pending : List Work := []

inductive Outcome
  | run
  | completed (c : Completion (List rmq.Message))

inductive Event
  | syncProcessQueue (topic : String) (assigned : List MQMessageQueue)
      (filterExpression : FilterExpression) (expired : List ℕ)
  | resume (i : ℕ) (outcome : Outcome)
  | hold (queue : ProcessQueueRef)
  | letGo (id : ℕ)
  | take (id : ℕ) (batchSize : ℕ)
  | release (id : ℕ) (bodySize : ℕ) (offset : ℤ)
  | clear
  | shutdown

def State.add (s : State) (w : Work) : State := { s with pending := s.pending ++ [w] }

def State.setContents (s : State) (id : ℕ) (q : ProcessQueueImpl) : State :=
  { s with contents := Function.update s.contents id q }

def State.alive (s : State) (queue : ProcessQueueRef) : Bool :=
  s.table.any (fun r => r.id == queue.id) || s.held.contains queue.id

def getOrCreateProcessQueue (s : State) (messageQueue : MQMessageQueue)
    (filterExpression : FilterExpression) : State × ProcessQueueRef :=
  match s.table.find? fun r => r.messageQueue.same messageQueue with
  | some queue => (s, queue)
  | none =>
    let queue : ProcessQueueRef :=
      { id := s.created, messageQueue := messageQueue, filterExpression := filterExpression }
    ({ s with table := s.table ++ [queue], created := s.created + 1 }.setContents s.created
      { messageQueue := messageQueue, filterExpression := filterExpression }, queue)

def receiveMessage (s : State) (messageQueue : MQMessageQueue)
    (filterExpression : FilterExpression) : State :=
  if !s.active then s
  else
    let r := getOrCreateProcessQueue s messageQueue filterExpression
    if messageQueue.serviceAddress.isEmpty then r.1 else r.1.add (.rpc r.2)

def syncProcessQueue (s : State) (topic : String) (assigned : List MQMessageQueue)
    (filterExpression : FilterExpression) (expired : List ℕ) : State :=
  let keep := fun r : ProcessQueueRef =>
    r.messageQueue.topic ≠ topic ||
      (assigned.any (fun q => r.messageQueue.same q) && !expired.contains r.id)
  let current := s.table.filter fun r => r.messageQueue.topic = topic && keep r
  -- each entry is compared with the queues kept, not with the entries before it
  let fresh := assigned.filter fun q => current.all fun r => !r.messageQueue.same q
  { s with table := s.table.filter keep }.add (.starting fresh filterExpression)

def receiveMessageLater (s : State) (queue : ProcessQueueRef) : State :=
  if s.alive queue then s.add (.timer queue) else s

def checkThrottleThenReceive (cfg : Config) (s : State) (queue : ProcessQueueRef) : State :=
  if !s.alive queue then s
  else if (s.contents queue.id).shouldThrottle cfg.maxCachedMessageQuantity
      cfg.maxCachedMessageMemory then receiveMessageLater s queue
  else receiveMessage s queue.messageQueue queue.filterExpression

def onCompletion (cfg : Config) (s : State) (queue : ProcessQueueRef)
    (c : Completion (List rmq.Message)) : Option State :=
  match onReceiveMessage cfg.wrap c with
  | none => none
  | some (.error _) => some (receiveMessageLater s queue)
  | some (.ok result) =>
    if !s.alive queue then some s
    else if !s.active then some s
    else (onSuccess cfg.messageModel .polling (s.contents queue.id) result).map fun r =>
      let s := s.setContents queue.id r.1
      match r.2 with
      | .checkThrottleThenReceive => checkThrottleThenReceive cfg s queue
      | .receiveMessageLater => receiveMessageLater s queue

def resume (cfg : Config) (s : State) : Work → Outcome → Option State
  | .starting [] _, .run => some s
  | .starting (q :: queues) filterExpression, .run =>
    some ((receiveMessage s q filterExpression).add (.starting queues filterExpression))
  | .rpc queue, .completed c => onCompletion cfg s queue c
  | .timer queue, .run => some (checkThrottleThenReceive cfg s queue)
  | _, _ => none

def step (cfg : Config) (s : State) : Event → Option State
  | .syncProcessQueue topic assigned filterExpression expired =>
    some (syncProcessQueue s topic assigned filterExpression expired)
  | .resume i outcome =>
    (pick s.pending i).bind fun r => resume cfg { s with pending := r.2 } r.1 outcome
  | .hold queue => if s.alive queue then some { s with held := s.held ++ [queue.id] } else none
  | .letGo id => some { s with held := s.held.erase id }
  | .take id batchSize => some (s.setContents id ((s.contents id).take batchSize).queue)
  | .release id bodySize offset =>
    ((s.contents id).release cfg.messageModel bodySize offset).map (s.setContents id)
  -- `PushConsumerImpl::shutdown` empties the table before `ClientImpl::shutdown` stops
  -- the client
  | .clear => some { s with table := [] }
  | .shutdown => some { s with active := false }

def machine (cfg : Config) : Machine State Event where
  init := {}
  step := step cfg

def Work.receives : Work → List (String × String × ℤ)
  | .starting _ _ => []
  | .rpc queue => [queue.messageQueue.key]
  | .timer queue => [queue.messageQueue.key]

def outstanding (s : State) : List (String × String × ℤ) := s.pending.flatMap Work.receives

def AtMostOneCycle (s : State) : Prop := (outstanding s).Nodup

def started (s : State) : Event → Option MQMessageQueue
  | .resume i .run =>
    match pick s.pending i with
    | some (.starting (q :: _) _, _) =>
      if s.active && !q.serviceAddress.isEmpty then some q else none
    | _ => none
  | _ => none

def StartsIdle (s : State) (e : Event) : Prop :=
  ∀ q ∈ started s e, q.key ∉ outstanding s

theorem getOrCreateProcessQueue_spec (s : State) (q : MQMessageQueue) (f : FilterExpression) :
    (getOrCreateProcessQueue s q f).1.pending = s.pending ∧
      (getOrCreateProcessQueue s q f).2.messageQueue.key = q.key := by
  rw [getOrCreateProcessQueue]
  split
  · rename_i queue hfind
    have hsame : queue.messageQueue.same q = true := by simpa using List.find?_some hfind
    exact ⟨rfl, MQMessageQueue.same_iff.mp hsame⟩
  · exact ⟨rfl, rfl⟩

theorem outstanding_add (s : State) (w : Work) :
    outstanding (s.add w) = outstanding s ++ w.receives := by
  simp [outstanding, State.add]

theorem receiveMessage_outstanding (s : State) (q : MQMessageQueue) (f : FilterExpression) :
    outstanding (receiveMessage s q f) =
      outstanding s ++ if s.active && !q.serviceAddress.isEmpty then [q.key] else [] := by
  obtain ⟨hpending, hkey⟩ := getOrCreateProcessQueue_spec s q f
  have hsame : outstanding (getOrCreateProcessQueue s q f).1 = outstanding s := by
    rw [outstanding, hpending]
    rfl
  rw [receiveMessage]
  by_cases hactive : s.active = true
  · by_cases haddress : q.serviceAddress.isEmpty = true
    · simp [hactive, haddress, hsame]
    · simp [hactive, haddress, hsame, outstanding_add, Work.receives, hkey]
  · simp [hactive]

def AddsAtMost (k : String × String × ℤ) (s t : State) : Prop :=
  outstanding t = outstanding s ∨ outstanding t = outstanding s ++ [k]

theorem receiveMessageLater_adds (s : State) (queue : ProcessQueueRef) :
    AddsAtMost queue.messageQueue.key s (receiveMessageLater s queue) := by
  rw [receiveMessageLater]
  split_ifs
  · exact Or.inr (outstanding_add s _)
  · exact Or.inl rfl

theorem checkThrottleThenReceive_adds (cfg : Config) (s : State) (queue : ProcessQueueRef) :
    AddsAtMost queue.messageQueue.key s (checkThrottleThenReceive cfg s queue) := by
  rw [checkThrottleThenReceive]
  split_ifs
  · exact Or.inl rfl
  · exact receiveMessageLater_adds s queue
  · rw [AddsAtMost, receiveMessage_outstanding]
    split_ifs
    · exact Or.inr rfl
    · exact Or.inl (List.append_nil _)

theorem onCompletion_adds {cfg : Config} {s t : State} {queue : ProcessQueueRef}
    {c : Completion (List rmq.Message)} (h : onCompletion cfg s queue c = some t) :
    AddsAtMost queue.messageQueue.key s t := by
  rw [onCompletion] at h
  split at h
  · cases h
  · cases h
    exact receiveMessageLater_adds s queue
  · split_ifs at h
    · cases h
      exact Or.inl rfl
    · cases h
      exact Or.inl rfl
    · obtain ⟨⟨q, next⟩, -, rfl⟩ := Option.map_eq_some_iff.mp h
      cases next with
      | checkThrottleThenReceive =>
        exact checkThrottleThenReceive_adds cfg (s.setContents queue.id q) queue
      | receiveMessageLater => exact receiveMessageLater_adds (s.setContents queue.id q) queue

theorem AddsAtMost.nodup {k : String × String × ℤ} {s t : State} {rest : State}
    (hs : (outstanding s).Perm (k :: outstanding rest)) (ht : AddsAtMost k rest t)
    (h : AtMostOneCycle s) : AtMostOneCycle t := by
  have hcons : (k :: outstanding rest).Nodup := hs.nodup_iff.mp h
  rcases ht with heq | heq
  · rw [AtMostOneCycle, heq]
    exact (List.nodup_cons.mp hcons).2
  · rw [AtMostOneCycle, heq]
    exact (List.perm_append_singleton k _).nodup_iff.mpr hcons

theorem startsIdle_of_started_eq_none {s : State} {e : Event} (h : started s e = none) :
    StartsIdle s e := by
  intro q hq
  rw [h] at hq
  cases hq

theorem resume_atMostOneCycle_iff {cfg : Config} {s t : State} {i : ℕ} {outcome : Outcome}
    (hs : AtMostOneCycle s) (h : step cfg s (.resume i outcome) = some t) :
    AtMostOneCycle t ↔ StartsIdle s (.resume i outcome) := by
  obtain ⟨⟨w, rest⟩, hpick, hres⟩ := Option.bind_eq_some_iff.mp h
  have hperm : (outstanding s).Perm (w.receives ++ outstanding { s with pending := rest }) :=
    (pick_perm hpick).flatMap_right Work.receives
  change resume cfg { s with pending := rest } w outcome = some t at hres
  rw [resume.eq_def] at hres
  split at hres
  · cases hres
    exact iff_of_true (hperm.nodup_iff.mp hs)
      (startsIdle_of_started_eq_none (by simp [started, hpick]))
  · rename_i q queues f
    cases hres
    have hrest : (outstanding s).Perm (outstanding { s with pending := rest }) := hperm
    rw [AtMostOneCycle, outstanding_add, receiveMessage_outstanding, StartsIdle]
    simp only [Work.receives, List.append_nil, started, hpick]
    split_ifs
    · rw [(List.perm_append_singleton q.key _).nodup_iff, List.nodup_cons, ← hrest.mem_iff]
      simpa using fun _ => hrest.nodup_iff.mp hs
    · simpa using hrest.nodup_iff.mp hs
  · exact iff_of_true (AddsAtMost.nodup hperm (onCompletion_adds hres) hs)
      (startsIdle_of_started_eq_none rfl)
  · cases hres
    exact iff_of_true (AddsAtMost.nodup hperm (checkThrottleThenReceive_adds cfg _ _) hs)
      (startsIdle_of_started_eq_none (by simp [started, hpick]))
  · cases hres

theorem step_atMostOneCycle_iff {cfg : Config} {s t : State} {e : Event}
    (hs : AtMostOneCycle s) (h : step cfg s e = some t) : AtMostOneCycle t ↔ StartsIdle s e := by
  cases e with
  | syncProcessQueue topic assigned filterExpression expired =>
    cases h
    have hout : outstanding (syncProcessQueue s topic assigned filterExpression expired) =
        outstanding s ++ [] := outstanding_add _ _
    rw [List.append_nil] at hout
    refine iff_of_true ?_ (startsIdle_of_started_eq_none rfl)
    rw [AtMostOneCycle, hout]
    exact hs
  | resume i outcome => exact resume_atMostOneCycle_iff hs h
  | hold queue =>
    simp only [step] at h
    split_ifs at h
    cases h
    exact iff_of_true hs (startsIdle_of_started_eq_none rfl)
  | letGo id =>
    cases h
    exact iff_of_true hs (startsIdle_of_started_eq_none rfl)
  | take id batchSize =>
    cases h
    exact iff_of_true hs (startsIdle_of_started_eq_none rfl)
  | release id bodySize offset =>
    obtain ⟨q, -, rfl⟩ := Option.map_eq_some_iff.mp h
    exact iff_of_true hs (startsIdle_of_started_eq_none rfl)
  | clear =>
    cases h
    exact iff_of_true hs (startsIdle_of_started_eq_none rfl)
  | shutdown =>
    cases h
    exact iff_of_true hs (startsIdle_of_started_eq_none rfl)

/-- Each queue has at most one receive step along a run exactly if every cycle is
started for a queue that has none. -/
theorem atMostOneCycle_along_iff (cfg : Config) (es : List Event) :
    (machine cfg).Along AtMostOneCycle (machine cfg).init es ↔
      (machine cfg).Guarded StartsIdle (machine cfg).init es :=
  (machine cfg).along_iff_guarded (J := fun _ => True) (A := fun _ => True)
    (fun _ _ _ _ _ _ => trivial) (fun _ _ _ _ hs _ h => step_atMostOneCycle_iff hs h) es
    (fun _ _ => trivial) trivial List.nodup_nil

def someQueue : MQMessageQueue :=
  { topic := "abc", brokerName := "a", serviceAddress := "a:10911" }

theorem two_cycles :
    (∃ s, (machine { wrap := fun _ => .rejected }).run
        [.syncProcessQueue "abc" [someQueue, someQueue] {} [], .resume 0 .run, .resume 1 .run] =
          some s ∧ ¬ AtMostOneCycle s) ∧
    ∃ s, (machine { wrap := fun _ => .rejected }).run
        [.syncProcessQueue "abc" [someQueue] {} [], .resume 0 .run, .resume 1 .run,
          .syncProcessQueue "abc" [] {} [], .resume 1 .run,
          .syncProcessQueue "abc" [someQueue] {} [], .resume 1 .run] = some s ∧
      ¬ AtMostOneCycle s := by
  refine ⟨⟨_, rfl, ?_⟩, ⟨_, rfl, ?_⟩⟩
  · rw [AtMostOneCycle]
    decide
  · rw [AtMostOneCycle]
    decide

end RocketMQClient.ReceiveCycle
