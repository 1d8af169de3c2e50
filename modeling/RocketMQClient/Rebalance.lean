import RocketMQClient.ReceiveCycle

/-!
# Rebalancing and the receive cycles of both modes

The table of process queues under `syncProcessQueue` and the steps that are
outstanding, in polling and in pull mode. In pull mode `receiveMessage` asks the
server for the end of the queue unless the offset store knows an offset, and the
callback of that query owns the process queue; the callback of a pull only has a
raw pointer to it, so its completion is undefined once the queue is gone.

`withdrawn` records the queues that an assignment took away and none has listed
since, and `requests` says of each receive request whether its queue was one of
them. Whether a queue has expired and whether the store knows an offset are inputs.
-/

namespace RocketMQClient.Rebalance
open EventMachine Pending
open ReceiveCycle (ProcessQueueRef)

structure Config where
  messageModel : MessageModel := .clustering
  action : ReceiveMessageAction := .polling
  offsetStore : Bool := false
  maxCachedMessageQuantity : UInt32 := 1024
  maxCachedMessageMemory : UInt64 := 128 * 1024 * 1024
  wrap : rmq.Message → Decoded

abbrev Key := String × String × ℤ

inductive Stage
  | rpc
  | query
  | timer
  deriving DecidableEq, Repr

inductive Work
  | starting (queues : List MQMessageQueue) (filterExpression : FilterExpression)
  | receive (stage : Stage) (queue : ProcessQueueRef)
  deriving DecidableEq, Repr

structure State where
  active : Bool := true
  table : List ProcessQueueRef := []
  contents : ℕ → ProcessQueueImpl := fun _ => {}
  created : ℕ := 0
  held : List ℕ := []
  pending : List Work := []
  withdrawn : List Key := []
  requests : List Bool := []

inductive Outcome
  | run
  | received (c : Completion (List rmq.Message))
  | pulled (c : Completion PullMessageResponse)
  | queried (c : Completion ℤ)

inductive Event
  | syncProcessQueue (topic : String) (assigned : List MQMessageQueue)
      (filterExpression : FilterExpression) (expired : List ℕ)
  | resume (i : ℕ) (outcome : Outcome) (stored : Bool)
  | hold (queue : ProcessQueueRef)
  | letGo (id : ℕ)
  | take (id : ℕ) (batchSize : ℕ)
  | release (id : ℕ) (bodySize : ℕ) (offset : ℤ)
  | clear
  | shutdown

def Work.owns (id : ℕ) : Work → Bool
  | .receive .query queue => queue.id == id
  | _ => false

def State.add (s : State) (w : Work) : State := { s with pending := s.pending ++ [w] }

def State.setContents (s : State) (id : ℕ) (q : ProcessQueueImpl) : State :=
  { s with contents := Function.update s.contents id q }

def State.alive (s : State) (queue : ProcessQueueRef) : Bool :=
  s.table.any (fun r => r.id == queue.id) || s.held.contains queue.id ||
    s.pending.any (Work.owns queue.id)

def State.request (s : State) (queue : ProcessQueueRef) : State :=
  { s with requests := s.requests ++ [decide (queue.messageQueue.key ∈ s.withdrawn)] }.add
    (.receive .rpc queue)

def getOrCreateProcessQueue (s : State) (messageQueue : MQMessageQueue)
    (filterExpression : FilterExpression) : State × ProcessQueueRef :=
  match s.table.find? fun r => r.messageQueue.same messageQueue with
  | some queue => (s, queue)
  | none =>
    let queue : ProcessQueueRef :=
      { id := s.created, messageQueue := messageQueue, filterExpression := filterExpression }
    ({ s with table := s.table ++ [queue], created := s.created + 1 }.setContents s.created
      { messageQueue := messageQueue, filterExpression := filterExpression }, queue)

def receiveMessage (cfg : Config) (s : State) (messageQueue : MQMessageQueue)
    (filterExpression : FilterExpression) (stored : Bool) : State :=
  if !s.active then s
  else
    let r := getOrCreateProcessQueue s messageQueue filterExpression
    if messageQueue.serviceAddress.isEmpty then r.1
    else match cfg.action with
      -- an offset that the store knows is read and not used
      | .pull => if !(cfg.offsetStore && stored) then r.1.add (.receive .query r.2) else r.1
      | .polling => r.1.request r.2

inductive Next
  | nothing
  | receiveMessageLater
  | receiveMessageImmediately
  | request
  deriving DecidableEq, Repr

def checkThrottleThenReceive (cfg : Config) (s : State) (queue : ProcessQueueRef) : Next :=
  if !s.alive queue then .nothing
  else if (s.contents queue.id).shouldThrottle cfg.maxCachedMessageQuantity
      cfg.maxCachedMessageMemory then .receiveMessageLater
  else .receiveMessageImmediately

def onResult (cfg : Config) (s : State) (queue : ProcessQueueRef)
    (result : Except ErrorCode ReceiveMessageResult) : Option (State × Next) :=
  match result with
  | .error _ => some (s, if s.alive queue then .receiveMessageLater else .nothing)
  | .ok result =>
    if !s.alive queue then some (s, .nothing)
    else if !s.active then some (s, .nothing)
    else (onSuccess cfg.messageModel cfg.action (s.contents queue.id) result).map fun r =>
      let s := s.setContents queue.id r.1
      (s, match r.2 with
        | .checkThrottleThenReceive => checkThrottleThenReceive cfg s queue
        | .receiveMessageLater => .receiveMessageLater)

def onQueryOffset (s : State) (queue : ProcessQueueRef) (c : Completion ℤ) :
    Option (State × Next) :=
  match c.result queryOffsetError with
  | .error _ => some (s, .nothing)
  | .ok offset =>
    if offset < 0 then none
    else some (s.setContents queue.id { s.contents queue.id with nextOffset := offset }, .request)

def callback (cfg : Config) (s : State) (queue : ProcessQueueRef) :
    Stage → Outcome → Option (State × Next)
  | .rpc, .received c =>
    if cfg.action = .polling then (onReceiveMessage cfg.wrap c).bind (onResult cfg s queue)
    else none
  | .rpc, .pulled c =>
    if cfg.action = .pull ∧ s.alive queue = true then
      (onPullMessage cfg.wrap c).bind (onResult cfg s queue)
    else none
  | .query, .queried c => onQueryOffset s queue c
  | .timer, .run => some (s, checkThrottleThenReceive cfg s queue)
  | _, _ => none

def goOn (cfg : Config) (s : State) (queue : ProcessQueueRef) (stored : Bool) : Next → State
  | .nothing => s
  | .receiveMessageLater => s.add (.receive .timer queue)
  | .receiveMessageImmediately =>
    receiveMessage cfg s queue.messageQueue queue.filterExpression stored
  | .request => s.request queue

def resume (cfg : Config) (s : State) (outcome : Outcome) (stored : Bool) :
    Work → Option State
  | .starting queues filterExpression => match queues, outcome with
    | [], .run => some s
    | q :: queues, .run =>
      some ((receiveMessage cfg s q filterExpression stored).add
        (.starting queues filterExpression))
    | _, _ => none
  | .receive stage queue =>
    (callback cfg s queue stage outcome).map fun r => goOn cfg r.1 queue stored r.2

def listed (assigned : List MQMessageQueue) : List Key := assigned.map MQMessageQueue.key

def assignedTo (assigned : List MQMessageQueue) (r : ProcessQueueRef) : Bool :=
  assigned.any fun q => r.messageQueue.same q

def kept (topic : String) (assigned : List MQMessageQueue) (expired : List ℕ)
    (r : ProcessQueueRef) : Bool :=
  r.messageQueue.topic ≠ topic || (assignedTo assigned r && !expired.contains r.id)

def dropUnassigned (s : State) (topic : String) (assigned : List MQMessageQueue)
    (expired : List ℕ) : State :=
  let unassigned := s.table.filter fun r =>
    r.messageQueue.topic = topic && !assignedTo assigned r
  { s with
    table := s.table.filter (kept topic assigned expired)
    withdrawn := (s.withdrawn ++ unassigned.map fun r => r.messageQueue.key).filter
      fun k => k ∉ listed assigned }

/-- The listed queues that are to be started: each is compared with the queues kept and not
with those before it. -/
def toStart (s : State) (topic : String) (assigned : List MQMessageQueue) (expired : List ℕ) :
    List MQMessageQueue :=
  let current := s.table.filter fun r =>
    r.messageQueue.topic = topic && kept topic assigned expired r
  assigned.filter fun q => current.all fun r => !r.messageQueue.same q

def syncProcessQueue (s : State) (topic : String) (assigned : List MQMessageQueue)
    (filterExpression : FilterExpression) (expired : List ℕ) : State :=
  (dropUnassigned s topic assigned expired).add
    (.starting (toStart s topic assigned expired) filterExpression)

def step (cfg : Config) (s : State) : Event → Option State
  | .syncProcessQueue topic assigned filterExpression expired =>
    some (syncProcessQueue s topic assigned filterExpression expired)
  | .resume i outcome stored =>
    (pick s.pending i).bind fun r => resume cfg { s with pending := r.2 } outcome stored r.1
  | .hold queue => if s.alive queue then some { s with held := s.held ++ [queue.id] } else none
  | .letGo id => some { s with held := s.held.erase id }
  | .take id batchSize => some (s.setContents id ((s.contents id).take batchSize).queue)
  | .release id bodySize offset =>
    ((s.contents id).release cfg.messageModel bodySize offset).map (s.setContents id)
  | .clear => some { s with table := [] }
  | .shutdown => some { s with active := false }

def machine (cfg : Config) : Machine State Event where
  init := {}
  step := step cfg

def Outcome.brings (cfg : Config) : Outcome → Option (List MQMessageExt)
  | .run => some []
  | .received c => if c.confirmed then decodeSkipping cfg.wrap c.response else none
  | .pulled c =>
    if c.confirmed then
      (decodeUntilCorrupted cfg.wrap c.response.messages).map fun r => if r.2 then r.1 else []
    else none
  | .queried c => if c.confirmed then some [] else none

def Throttled (cfg : Config) (q : ProcessQueueImpl) (messages : List MQMessageExt) : Bool :=
  (q.cacheMessages cfg.messageModel messages).shouldThrottle cfg.maxCachedMessageQuantity
    cfg.maxCachedMessageMemory

/-- The receive cycle of `queue` rests: its query fails, or nobody holds the process queue, the
consumer is not active, or the answer is a failure or fills the process queue. -/
def Rests (cfg : Config) (s : State) (queue : ProcessQueueRef) (outcome : Outcome) :
    Stage → Prop
  | .query => outcome.brings cfg = none
  | _ => s.alive queue = false ∨ s.active = false ∨
      ∀ messages ∈ outcome.brings cfg, Throttled cfg (s.contents queue.id) messages = true

structure Shrinks (s t : State) : Prop where
  active : t.active = true → s.active = true
  table : t.table.Sublist s.table
  pending : ∀ stage r, Work.receive stage r ∈ s.pending → Work.receive stage r ∈ t.pending
  withdrawn : t.withdrawn = s.withdrawn
  requests : t.requests = s.requests

inductive Moves (cfg : Config) (s : State) : Event → State → Prop
  | syncs (topic : String) (assigned : List MQMessageQueue)
      (filterExpression : FilterExpression) (expired : List ℕ) :
      Moves cfg s (.syncProcessQueue topic assigned filterExpression expired)
        (syncProcessQueue s topic assigned filterExpression expired)
  | starts {i : ℕ} {stored : Bool} {q : MQMessageQueue} {queues : List MQMessageQueue}
      {filterExpression : FilterExpression} {rest : List Work}
      (hpick : pick s.pending i = some (.starting (q :: queues) filterExpression, rest)) :
      Moves cfg s (.resume i .run stored)
        ((receiveMessage cfg { s with pending := rest } q filterExpression stored).add
          (.starting queues filterExpression))
  | continues {i : ℕ} {outcome : Outcome} {stored : Bool} {stage : Stage}
      {queue : ProcessQueueRef} {rest : List Work} {contents : ℕ → ProcessQueueImpl}
      {next : Next} (hpick : pick s.pending i = some (.receive stage queue, rest))
      (hcall : callback cfg { s with pending := rest } queue stage outcome =
        some ({ s with pending := rest, contents := contents }, next)) :
      Moves cfg s (.resume i outcome stored)
        (goOn cfg { s with pending := rest, contents := contents } queue stored next)
  | started {i : ℕ} {stored : Bool} {filterExpression : FilterExpression} {rest : List Work}
      (hpick : pick s.pending i = some (.starting [] filterExpression, rest)) :
      Moves cfg s (.resume i .run stored) { s with pending := rest }
  | shrinks {e : Event} {t : State} (hshrinks : Shrinks s t)
      (hother : ∀ i outcome stored, e ≠ .resume i outcome stored) : Moves cfg s e t

theorem onResult_frame {cfg : Config} {s : State} {queue : ProcessQueueRef}
    {result : Except ErrorCode ReceiveMessageResult} {r : State × Next}
    (h : onResult cfg s queue result = some r) :
    ∃ contents, r.1 = { s with contents := contents } := by
  rw [onResult.eq_def] at h
  split at h
  · cases h
    exact ⟨s.contents, rfl⟩
  · split_ifs at h
    · cases h
      exact ⟨s.contents, rfl⟩
    · cases h
      exact ⟨s.contents, rfl⟩
    · obtain ⟨p, -, rfl⟩ := Option.map_eq_some_iff.mp h
      exact ⟨_, rfl⟩

theorem onQueryOffset_frame {s : State} {queue : ProcessQueueRef} {c : Completion ℤ}
    {r : State × Next} (h : onQueryOffset s queue c = some r) :
    ∃ contents, r.1 = { s with contents := contents } := by
  rw [onQueryOffset.eq_def] at h
  split at h
  · cases h
    exact ⟨s.contents, rfl⟩
  · split_ifs at h
    cases h
    exact ⟨_, rfl⟩

theorem callback_cases {cfg : Config} {s : State} {queue : ProcessQueueRef} {stage : Stage}
    {outcome : Outcome} {r : State × Next} (h : callback cfg s queue stage outcome = some r) :
    (∃ c, outcome = .queried c ∧ onQueryOffset s queue c = some r) ∨
    (∀ c, outcome ≠ .queried c) ∧
      ((∃ result, onResult cfg s queue result = some r) ∨
        r = (s, checkThrottleThenReceive cfg s queue)) := by
  rw [callback.eq_def] at h
  split at h
  · split_ifs at h
    obtain ⟨result, -, hresult⟩ := Option.bind_eq_some_iff.mp h
    exact Or.inr ⟨nofun, Or.inl ⟨result, hresult⟩⟩
  · split_ifs at h
    obtain ⟨result, -, hresult⟩ := Option.bind_eq_some_iff.mp h
    exact Or.inr ⟨nofun, Or.inl ⟨result, hresult⟩⟩
  · exact Or.inl ⟨_, rfl, h⟩
  · cases h
    exact Or.inr ⟨nofun, Or.inr rfl⟩
  · cases h

theorem callback_frame {cfg : Config} {s : State} {queue : ProcessQueueRef} {stage : Stage}
    {outcome : Outcome} {r : State × Next} (h : callback cfg s queue stage outcome = some r) :
    ∃ contents, r.1 = { s with contents := contents } := by
  rcases callback_cases h with ⟨c, -, hquery⟩ | ⟨-, ⟨result, hresult⟩ | rfl⟩
  · exact onQueryOffset_frame hquery
  · exact onResult_frame hresult
  · exact ⟨s.contents, rfl⟩

theorem resume_moves {cfg : Config} {s t : State} {i : ℕ} {outcome : Outcome} {stored : Bool}
    {w : Work} {rest : List Work} (hpick : pick s.pending i = some (w, rest))
    (h : resume cfg { s with pending := rest } outcome stored w = some t) :
    Moves cfg s (.resume i outcome stored) t := by
  cases w with
  | starting queues f =>
    rw [resume.eq_def] at h
    split at h
    · rename_i heq
      cases heq
      split at h
      · cases h
        exact .started hpick
      · cases h
        exact .starts hpick
      · cases h
    · rename_i heq
      cases heq
  | receive stage queue =>
    obtain ⟨⟨u, next⟩, hcall, rfl⟩ := Option.map_eq_some_iff.mp h
    obtain ⟨contents, rfl⟩ := callback_frame hcall
    exact .continues hpick hcall

theorem step_moves {cfg : Config} {s t : State} {e : Event} (h : step cfg s e = some t) :
    Moves cfg s e t := by
  cases e with
  | syncProcessQueue topic assigned f expired =>
    cases h
    exact .syncs topic assigned f expired
  | resume i outcome stored =>
    obtain ⟨⟨w, rest⟩, hpick, hres⟩ := Option.bind_eq_some_iff.mp h
    exact resume_moves hpick hres
  | hold queue =>
    simp only [step] at h
    split_ifs at h
    cases h
    exact .shrinks ⟨id, .refl _, fun _ _ => id, rfl, rfl⟩ nofun
  | letGo id' =>
    cases h
    exact .shrinks ⟨id, .refl _, fun _ _ => id, rfl, rfl⟩ nofun
  | take id' batchSize =>
    cases h
    exact .shrinks ⟨id, .refl _, fun _ _ => id, rfl, rfl⟩ nofun
  | release id' bodySize offset =>
    obtain ⟨q, -, rfl⟩ := Option.map_eq_some_iff.mp h
    exact .shrinks ⟨id, .refl _, fun _ _ => id, rfl, rfl⟩ nofun
  | clear =>
    cases h
    exact .shrinks ⟨id, List.nil_sublist _, fun _ _ => id, rfl, rfl⟩ nofun
  | shutdown =>
    cases h
    exact .shrinks ⟨nofun, .refl _, fun _ _ => id, rfl, rfl⟩ nofun

theorem shrinks_of_started {s : State} {i : ℕ} {f : FilterExpression} {rest : List Work}
    (hpick : pick s.pending i = some (.starting [] f, rest)) :
    Shrinks s { s with pending := rest } := by
  refine ⟨id, .refl _, fun stage r hr => ?_, rfl, rfl⟩
  simpa using (pick_perm hpick).mem_iff.mp hr

def Next.receives (active : Bool) : Next → Bool
  | .nothing => false
  | .receiveMessageLater => false
  | .receiveMessageImmediately => active
  | .request => true

theorem checkThrottleThenReceive_receives_iff (cfg : Config) (s : State)
    (queue : ProcessQueueRef) :
    (checkThrottleThenReceive cfg s queue).receives s.active = true ↔
      ¬ (s.alive queue = false ∨ s.active = false ∨
        Throttled cfg (s.contents queue.id) [] = true) := by
  rw [checkThrottleThenReceive, Throttled, ProcessQueueImpl.cacheMessages, List.foldl_nil]
  split_ifs with hdead hthrottled
  · simp_all [Next.receives]
  · simp_all [Next.receives]
  · simp_all [Next.receives]

inductive Answers (cfg : Config) (outcome : Outcome) : Except ErrorCode ReceiveMessageResult → Prop
  | failure (ec : ErrorCode) (hnone : outcome.brings cfg = none) : Answers cfg outcome (.error ec)
  | success (messages : List MQMessageExt) (result : ReceiveMessageResult)
      (hbrings : outcome.brings cfg = some messages)
      (hsuccess : ∀ q, ∃ q', onSuccess cfg.messageModel cfg.action q result =
          some (q', .checkThrottleThenReceive) ∧ Throttled cfg q' [] = Throttled cfg q messages) :
      Answers cfg outcome (.ok result)

theorem onReceiveMessage_answers {cfg : Config} (hpolling : cfg.action = .polling)
    {c : Completion (List rmq.Message)} {result : Except ErrorCode ReceiveMessageResult}
    (h : onReceiveMessage cfg.wrap c = some result) : Answers cfg (.received c) result := by
  rw [onReceiveMessage] at h
  obtain ⟨hconfirmed, hcode, hresult⟩ | ⟨hconfirmed, ec, hresult⟩ :=
    c.result_cases receiveMessageError
  · simp only [hresult, hcode, processPopResult, popStatus, if_true, Option.map_map] at h
    obtain ⟨messages, hdecoded, rfl⟩ := Option.map_eq_some_iff.mp h
    refine .success messages _ (by simp [Outcome.brings, hconfirmed, hdecoded])
      fun q => ⟨q.cacheMessages cfg.messageModel messages, ?_, rfl⟩
    simp [onSuccess, hpolling]
  · rw [hresult] at h
    cases h
    exact .failure ec (by simp [Outcome.brings, hconfirmed])

theorem onPullMessage_answers {cfg : Config} (hpull : cfg.action = .pull)
    {c : Completion PullMessageResponse} {result : Except ErrorCode ReceiveMessageResult}
    (h : onPullMessage cfg.wrap c = some result) : Answers cfg (.pulled c) result := by
  rw [onPullMessage] at h
  obtain ⟨hconfirmed, hcode, hresult⟩ | ⟨hconfirmed, ec, hresult⟩ :=
    c.result_cases pullMessageError
  · simp only [hresult, hcode, processPullResult, ne_eq, not_true_eq_false, if_false] at h
    split_ifs at h
    · cases h
    rw [Option.map_map] at h
    obtain ⟨⟨messages, whole⟩, hdecoded, rfl⟩ := Option.map_eq_some_iff.mp h
    refine .success (if whole then messages else []) _
      (by simp [Outcome.brings, hconfirmed, hdecoded]) fun q => ?_
    cases whole with
    | true =>
      exact ⟨{ q.cacheMessages cfg.messageModel messages with nextOffset := 0 },
        by simp [onSuccess, hpull], rfl⟩
    | false => exact ⟨q, by simp [onSuccess, hpull], rfl⟩
  · rw [hresult] at h
    cases h
    exact .failure ec (by simp [Outcome.brings, hconfirmed])

theorem onResult_receives_iff {cfg : Config} {s : State} {queue : ProcessQueueRef}
    {outcome : Outcome} {result : Except ErrorCode ReceiveMessageResult} {r : State × Next}
    (hanswers : Answers cfg outcome result) (h : onResult cfg s queue result = some r) :
    r.2.receives s.active = true ↔ ¬ Rests cfg s queue outcome .rpc := by
  cases hanswers with
  | failure ec hnone =>
    cases h
    refine iff_of_false ?_ (by simp [Rests, hnone])
    split_ifs <;> simp [Next.receives]
  | success messages result hbrings hsuccess =>
    simp only [onResult] at h
    split_ifs at h with hdead hstopped
    · cases h
      simp_all [Next.receives, Rests]
    · cases h
      simp_all [Next.receives, Rests]
    · obtain ⟨q', hq', hthrottled⟩ := hsuccess (s.contents queue.id)
      rw [hq', Option.map_some] at h
      cases h
      have hset := checkThrottleThenReceive_receives_iff cfg (s.setContents queue.id q') queue
      have hcontents : (s.setContents queue.id q').contents queue.id = q' :=
        Function.update_self ..
      rw [hcontents, hthrottled] at hset
      simp only [Rests, hbrings, Option.mem_some_iff, forall_eq']
      exact hset

theorem callback_receives_iff {cfg : Config} {s : State} {queue : ProcessQueueRef} {stage : Stage}
    {outcome : Outcome} {r : State × Next} (h : callback cfg s queue stage outcome = some r) :
    r.2.receives s.active = true ↔ ¬ Rests cfg s queue outcome stage := by
  rw [callback.eq_def] at h
  split at h
  · split_ifs at h with hpolling
    obtain ⟨result, hc, hresult⟩ := Option.bind_eq_some_iff.mp h
    exact onResult_receives_iff (onReceiveMessage_answers hpolling hc) hresult
  · split_ifs at h with hpull
    obtain ⟨result, hc, hresult⟩ := Option.bind_eq_some_iff.mp h
    exact onResult_receives_iff (onPullMessage_answers hpull.1 hc) hresult
  · rename_i c
    rw [onQueryOffset] at h
    obtain ⟨hconfirmed, -, hresult⟩ | ⟨hconfirmed, ec, hresult⟩ := c.result_cases queryOffsetError
    · simp only [hresult] at h
      split_ifs at h
      cases h
      simp [Next.receives, Rests, Outcome.brings, hconfirmed]
    · rw [hresult] at h
      cases h
      simp [Next.receives, Rests, Outcome.brings, hconfirmed]
  · cases h
    simpa [Rests, Outcome.brings] using checkThrottleThenReceive_receives_iff cfg s queue
  · cases h

structure Located (s : State) (q : MQMessageQueue) (t : State) (queue : ProcessQueueRef) :
    Prop where
  active : t.active = s.active
  pending : t.pending = s.pending
  withdrawn : t.withdrawn = s.withdrawn
  requests : t.requests = s.requests
  key : queue.messageQueue.key = q.key
  table : (t.table = s.table ∧ queue ∈ s.table) ∨
    t.table = s.table ++ [queue] ∧ queue.messageQueue = q ∧
      ∀ r ∈ s.table, r.messageQueue.key ≠ q.key

theorem getOrCreateProcessQueue_located (s : State) (q : MQMessageQueue) (f : FilterExpression) :
    Located s q (getOrCreateProcessQueue s q f).1 (getOrCreateProcessQueue s q f).2 := by
  rw [getOrCreateProcessQueue]
  split
  · rename_i queue hfind
    have hsame : queue.messageQueue.same q = true := by simpa using List.find?_some hfind
    exact ⟨rfl, rfl, rfl, rfl, MQMessageQueue.same_iff.mp hsame,
      Or.inl ⟨rfl, List.mem_of_find?_eq_some hfind⟩⟩
  · rename_i hfind
    refine ⟨rfl, rfl, rfl, rfl, rfl, Or.inr ⟨rfl, rfl, fun r hr hkey => ?_⟩⟩
    exact List.find?_eq_none.mp hfind r hr (MQMessageQueue.same_iff.mpr hkey)

namespace Located
variable {s t : State} {q : MQMessageQueue} {queue : ProcessQueueRef}

theorem mem (h : Located s q t queue) : queue ∈ t.table := by
  rcases h.table with ⟨htable, hmem⟩ | ⟨htable, -, -⟩
  · rwa [htable]
  · simp [htable]

theorem old_or_new (h : Located s q t queue) {r : ProcessQueueRef} (hr : r ∈ t.table) :
    r ∈ s.table ∨ r = queue ∧ r.messageQueue = q := by
  rcases h.table with ⟨htable, -⟩ | ⟨htable, hq, -⟩
  · exact Or.inl (htable ▸ hr)
  · rw [htable, List.mem_append, List.mem_singleton] at hr
    exact hr.imp_right fun heq => ⟨heq, heq ▸ hq⟩

end Located

def Skips (cfg : Config) (stored : Bool) : Prop :=
  cfg.action = .pull ∧ cfg.offsetStore = true ∧ stored = true

theorem receiveMessage_cases {s : State} (hactive : s.active = true) (cfg : Config)
    (q : MQMessageQueue) (f : FilterExpression) (stored : Bool) :
    ∃ t queue, Located s q t queue ∧
      ((q.serviceAddress.isEmpty = true ∨ Skips cfg stored) ∧
          receiveMessage cfg s q f stored = t ∨
        receiveMessage cfg s q f stored = t.add (.receive .query queue) ∨
        receiveMessage cfg s q f stored = t.request queue) := by
  refine ⟨_, _, getOrCreateProcessQueue_located s q f, ?_⟩
  simp only [receiveMessage, hactive, Bool.not_true, Bool.false_eq_true, ↓reduceIte]
  by_cases haddress : q.serviceAddress.isEmpty = true
  · exact Or.inl ⟨Or.inl haddress, if_pos haddress⟩
  · rw [if_neg haddress]
    cases haction : cfg.action with
    | polling => exact Or.inr (Or.inr rfl)
    | pull =>
      by_cases hstored : (cfg.offsetStore && stored) = true
      · have hskips : Skips cfg stored := ⟨haction, Bool.and_eq_true_iff.mp hstored⟩
        exact Or.inl ⟨Or.inr hskips, by simp [hstored]⟩
      · exact Or.inr (Or.inl (by simp [hstored]))

theorem assignedTo_iff {assigned : List MQMessageQueue} {r : ProcessQueueRef} :
    assignedTo assigned r = true ↔ r.messageQueue.key ∈ listed assigned := by
  simp only [assignedTo, List.any_eq_true, MQMessageQueue.same_iff, listed, List.mem_map]
  exact exists_congr fun q => and_congr_right fun _ => eq_comm

theorem kept_iff {topic : String} {assigned : List MQMessageQueue} {expired : List ℕ}
    {r : ProcessQueueRef} : kept topic assigned expired r = true ↔
      r.messageQueue.topic ≠ topic ∨
        r.messageQueue.key ∈ listed assigned ∧ r.id ∉ expired := by
  simp [kept, assignedTo_iff]

structure StaysAway (s : State) : Prop where
  table : ∀ r ∈ s.table, r.messageQueue.key ∉ s.withdrawn
  requests : ∀ b ∈ s.requests, b = false

/-- A start loop for a withdrawn queue finds the consumer stopped, and a receive step for one
rests. -/
def Work.Harmless (cfg : Config) (s : State) (outcome : Outcome) : Work → Prop
  | .starting queues _ => ∀ q ∈ queues.head?, q.key ∈ s.withdrawn → s.active = false
  | .receive stage queue => queue.messageQueue.key ∈ s.withdrawn → Rests cfg s queue outcome stage

def LeavesWithdrawn (cfg : Config) (s : State) : Event → Prop
  | .resume i outcome _ =>
    ∀ r ∈ pick s.pending i, r.1.Harmless cfg { s with pending := r.2 } outcome
  | _ => True

theorem leavesWithdrawn_iff {cfg : Config} {s : State} {i : ℕ} {outcome : Outcome} {stored : Bool}
    {w : Work} {rest : List Work} (hpick : pick s.pending i = some (w, rest)) :
    LeavesWithdrawn cfg s (.resume i outcome stored) ↔
      w.Harmless cfg { s with pending := rest } outcome := by
  simp [LeavesWithdrawn, hpick]

theorem StaysAway.of_shrinks {s t : State} (hs : StaysAway s) (h : Shrinks s t) :
    StaysAway t := by
  constructor
  · intro r hr
    rw [h.withdrawn]
    exact hs.table r (h.table.subset hr)
  · rw [h.requests]
    exact hs.requests

theorem add_staysAway_iff {s : State} {w : Work} : StaysAway (s.add w) ↔ StaysAway s :=
  ⟨fun h => ⟨h.table, h.requests⟩, fun h => ⟨h.table, h.requests⟩⟩

theorem StaysAway.located {s t : State} {q : MQMessageQueue} {queue : ProcessQueueRef}
    (hs : StaysAway s) (h : Located s q t queue) (hq : q.key ∉ s.withdrawn) : StaysAway t := by
  constructor
  · intro r hr
    rw [h.withdrawn]
    rcases h.old_or_new hr with hold | ⟨-, rfl⟩
    · exact hs.table r hold
    · exact hq
  · rw [h.requests]
    exact hs.requests

theorem StaysAway.not_withdrawn {s t u : State} {q : MQMessageQueue} {queue : ProcessQueueRef}
    (hu : StaysAway u) (h : Located s q t queue) (htable : u.table = t.table)
    (hwithdrawn : u.withdrawn = t.withdrawn) : q.key ∉ s.withdrawn := by
  rw [← h.withdrawn, ← hwithdrawn, ← h.key]
  exact hu.table queue (htable ▸ h.mem)

theorem request_staysAway_iff {s : State} (hs : StaysAway s) (queue : ProcessQueueRef) :
    StaysAway (s.request queue) ↔ queue.messageQueue.key ∉ s.withdrawn := by
  constructor
  · intro h
    simpa using h.requests _ (List.mem_append_right _ (List.mem_singleton_self _))
  · intro hq
    refine ⟨hs.table, fun b hb => ?_⟩
    rcases List.mem_append.mp hb with hb | hb
    · exact hs.requests b hb
    · simpa [hq] using hb

theorem receiveMessage_staysAway_iff {cfg : Config} {s : State} {q : MQMessageQueue}
    {f : FilterExpression} {stored : Bool} (hs : StaysAway s) (hactive : s.active = true) :
    StaysAway (receiveMessage cfg s q f stored) ↔ q.key ∉ s.withdrawn := by
  obtain ⟨t, queue, hlocated, ⟨-, heq⟩ | heq | heq⟩ :=
    receiveMessage_cases hactive cfg q f stored
  · rw [heq]
    exact ⟨fun h => h.not_withdrawn hlocated rfl rfl, hs.located hlocated⟩
  · rw [heq]
    exact ⟨fun h => h.not_withdrawn hlocated rfl rfl,
      fun hq => add_staysAway_iff.mpr (hs.located hlocated hq)⟩
  · rw [heq]
    refine ⟨fun h => h.not_withdrawn hlocated rfl rfl, fun hq => ?_⟩
    refine (request_staysAway_iff (hs.located hlocated hq) queue).mpr ?_
    rwa [hlocated.key, hlocated.withdrawn]

theorem goOn_staysAway_iff {cfg : Config} {s : State} {queue : ProcessQueueRef} {stored : Bool}
    (hs : StaysAway s) (next : Next) :
    StaysAway (goOn cfg s queue stored next) ↔
      (next.receives s.active = true → queue.messageQueue.key ∉ s.withdrawn) := by
  cases next with
  | nothing => exact iff_of_true hs nofun
  | receiveMessageLater => exact iff_of_true (add_staysAway_iff.mpr hs) nofun
  | receiveMessageImmediately =>
    by_cases hactive : s.active = true
    · simpa [goOn, Next.receives, hactive] using receiveMessage_staysAway_iff hs hactive
    · simpa [goOn, Next.receives, hactive, receiveMessage] using hs
  | request => simpa [goOn, Next.receives] using request_staysAway_iff hs queue

theorem StaysAway.sync {s : State} (hs : StaysAway s) (topic : String)
    (assigned : List MQMessageQueue) (f : FilterExpression) (expired : List ℕ) :
    StaysAway (syncProcessQueue s topic assigned f expired) := by
  refine ⟨fun r hr hw => ?_, hs.requests⟩
  obtain ⟨hmem, hkept⟩ := List.mem_filter.mp hr
  obtain ⟨hw, hunlisted⟩ := List.mem_filter.mp hw
  rcases List.mem_append.mp hw with hold | hremoved
  · exact hs.table r hmem hold
  · obtain ⟨r', hr', hkey⟩ := List.mem_map.mp hremoved
    -- an entry with the key of a removed one has its topic, so it is kept only if listed
    have htopic : r.messageQueue.topic = topic := by
      have hsame : r'.messageQueue.topic = r.messageQueue.topic := congrArg Prod.fst hkey
      rw [← hsame]
      simpa using (Bool.and_eq_true_iff.mp (List.mem_filter.mp hr').2).1
    have hlisted : r.messageQueue.key ∈ listed assigned :=
      ((kept_iff.mp hkept).resolve_left (not_not.mpr htopic)).1
    simp [hlisted] at hunlisted

theorem step_staysAway_iff {cfg : Config} {s t : State} {e : Event} (hs : StaysAway s)
    (h : step cfg s e = some t) : StaysAway t ↔ LeavesWithdrawn cfg s e := by
  cases step_moves h with
  | syncs topic assigned f expired =>
    exact iff_of_true (hs.sync topic assigned f expired) trivial
  | @starts i stored q queues f rest hpick =>
    have hrest : StaysAway { s with pending := rest } := ⟨hs.table, hs.requests⟩
    rw [add_staysAway_iff, leavesWithdrawn_iff hpick]
    by_cases hactive : s.active = true
    · rw [receiveMessage_staysAway_iff hrest hactive]
      simp [Work.Harmless, hactive]
    · simpa [Work.Harmless, hactive, receiveMessage] using hrest
  | @continues i outcome stored stage queue rest contents next hpick hcall =>
    have hcalled : StaysAway { s with pending := rest, contents := contents } :=
      ⟨hs.table, hs.requests⟩
    have hreceives : next.receives s.active = true ↔ _ := callback_receives_iff hcall
    rw [goOn_staysAway_iff hcalled, leavesWithdrawn_iff hpick, hreceives]
    exact not_imp_not
  | started hpick =>
    refine iff_of_true (hs.of_shrinks (shrinks_of_started hpick)) ?_
    rw [leavesWithdrawn_iff hpick]
    exact nofun
  | shrinks hshrinks hother =>
    refine iff_of_true (hs.of_shrinks hshrinks) ?_
    cases e with
    | resume i outcome stored => exact absurd rfl (hother i outcome stored)
    | _ => trivial

/-- A queue that was taken away stays out of the table and is not asked for messages along a
run exactly if each step that is left over for such a queue rests in the state it starts from,
and start loops meet one only when the consumer is stopped. -/
theorem staysAway_along_iff (cfg : Config) (es : List Event) :
    (machine cfg).Along StaysAway (machine cfg).init es ↔
      (machine cfg).Guarded (LeavesWithdrawn cfg) (machine cfg).init es :=
  (machine cfg).along_iff_guarded (J := fun _ => True) (A := fun _ => True)
    (fun _ _ _ _ _ _ => trivial) (fun _ _ _ _ hs _ h => step_staysAway_iff hs h) es
    (fun _ _ => trivial) trivial ⟨nofun, nofun⟩

def oldQueue : MQMessageQueue :=
  { topic := "abc", brokerName := "a", serviceAddress := "a:10911" }

def newQueue : MQMessageQueue :=
  { topic := "abc", brokerName := "b", serviceAddress := "b:10911" }

theorem withdrawn_queue_returns :
    ∃ s, (machine { wrap := fun _ => .accepted {} }).run
        [.syncProcessQueue "abc" [oldQueue] {} [], .resume 0 .run false, .resume 1 .run false,
          .resume 0 (.received { response := [{}] }) false, .take 0 1,
          .hold { id := 0, messageQueue := oldQueue, filterExpression := {} },
          .syncProcessQueue "abc" [newQueue] {} [],
          .resume 0 (.received { response := [] }) false] = some s ∧
      ¬ StaysAway s := by
  refine ⟨_, rfl, fun h => ?_⟩
  have hrequest : (true : Bool) = false := h.requests true (by decide)
  cases hrequest

def ServedBut (s : State) (spared : ProcessQueueRef → Prop) : Prop :=
  ∀ r ∈ s.table, r.messageQueue.serviceAddress.isEmpty = false →
    spared r ∨ ∃ stage, Work.receive stage r ∈ s.pending

def Served (s : State) : Prop := s.active = true → ServedBut s fun _ => False

def KeysDistinct (s : State) : Prop := (s.table.map fun r => r.messageQueue.key).Nodup

/-- Offset queries succeed, and the store has no offset for a queue about to be received. -/
def Work.Supplied (cfg : Config) (s : State) (outcome : Outcome) (stored : Bool) : Work → Prop
  | .starting queues _ => ∀ q ∈ queues.head?, s.active = true →
      q.serviceAddress.isEmpty = false → ¬ Skips cfg stored
  | .receive .query _ => outcome.brings cfg ≠ none
  | .receive stage queue => ¬ Rests cfg s queue outcome stage →
      queue.messageQueue.serviceAddress.isEmpty = false → ¬ Skips cfg stored

def KeepsGoing (cfg : Config) (s : State) : Event → Prop
  | .resume i outcome stored =>
    ∀ r ∈ pick s.pending i, r.1.Supplied cfg { s with pending := r.2 } outcome stored
  | _ => True

theorem KeepsGoing.supplied {cfg : Config} {s : State} {i : ℕ} {outcome : Outcome} {stored : Bool}
    {w : Work} {rest : List Work} (h : KeepsGoing cfg s (.resume i outcome stored))
    (hpick : pick s.pending i = some (w, rest)) :
    w.Supplied cfg { s with pending := rest } outcome stored :=
  h (w, rest) hpick

theorem KeysDistinct.eq_of_key {s : State} (h : KeysDistinct s) {r r' : ProcessQueueRef}
    (hr : r ∈ s.table) (hr' : r' ∈ s.table) (hkey : r.messageQueue.key = r'.messageQueue.key) :
    r = r' :=
  List.inj_on_of_nodup_map h hr hr' hkey

theorem KeysDistinct.of_shrinks {s t : State} (hs : KeysDistinct s) (h : Shrinks s t) :
    KeysDistinct t :=
  hs.sublist (h.table.map _)

theorem KeysDistinct.located {s t : State} {q : MQMessageQueue} {queue : ProcessQueueRef}
    (hs : KeysDistinct s) (h : Located s q t queue) : KeysDistinct t := by
  rcases h.table with ⟨htable, -⟩ | ⟨htable, hq, hnew⟩
  · rwa [KeysDistinct, htable]
  · rw [KeysDistinct, htable, List.map_append]
    refine List.Nodup.append hs (List.nodup_singleton _) fun k hk hk' => ?_
    obtain ⟨r, hr, rfl⟩ := List.mem_map.mp hk
    rw [List.map_singleton, List.mem_singleton, hq] at hk'
    exact hnew r hr hk'

theorem receiveMessage_keysDistinct {cfg : Config} {s : State} {q : MQMessageQueue}
    {f : FilterExpression} {stored : Bool} (hs : KeysDistinct s) :
    KeysDistinct (receiveMessage cfg s q f stored) := by
  by_cases hactive : s.active = true
  · obtain ⟨t, queue, hlocated, hcases⟩ := receiveMessage_cases hactive cfg q f stored
    have ht : KeysDistinct t := hs.located hlocated
    rcases hcases with ⟨-, heq⟩ | heq | heq
    · rwa [heq]
    · rw [heq]
      exact ht
    · rw [heq]
      exact ht
  · simpa [receiveMessage, hactive] using hs

theorem step_keysDistinct {cfg : Config} {s t : State} {e : Event} (hs : KeysDistinct s)
    (h : step cfg s e = some t) : KeysDistinct t := by
  cases step_moves h with
  | syncs topic assigned f expired => exact hs.sublist (List.filter_sublist.map _)
  | @starts i stored q queues f rest hpick =>
    have hrest : KeysDistinct { s with pending := rest } := hs
    exact receiveMessage_keysDistinct hrest
  | @continues i outcome stored stage queue rest contents next hpick hcall =>
    cases next with
    | nothing => exact hs
    | receiveMessageLater => exact hs
    | receiveMessageImmediately =>
      have hrest : KeysDistinct { s with pending := rest, contents := contents } := hs
      exact receiveMessage_keysDistinct hrest
    | request => exact hs
  | started hpick => exact hs.of_shrinks (shrinks_of_started hpick)
  | shrinks hshrinks hother => exact hs.of_shrinks hshrinks

theorem ServedBut.add {s : State} {queue : ProcessQueueRef} (h : ServedBut s (· = queue))
    (stage : Stage) : ServedBut (s.add (.receive stage queue)) fun _ => False := by
  intro r hr haddress
  rcases h r hr haddress with rfl | ⟨stage', hstage⟩
  · exact Or.inr ⟨stage, List.mem_append_right _ (List.mem_singleton_self _)⟩
  · exact Or.inr ⟨stage', List.mem_append_left _ hstage⟩

theorem ServedBut.located {s t : State} {q : MQMessageQueue} {queue : ProcessQueueRef}
    (hs : ServedBut s fun r => r.messageQueue.key = q.key) (hkeys : KeysDistinct s)
    (h : Located s q t queue) : ServedBut t (· = queue) := by
  intro r hr haddress
  rcases h.old_or_new hr with hold | ⟨hnew, -⟩
  · rcases hs r hold haddress with hkey | hserved
    · exact Or.inl ((hkeys.located h).eq_of_key hr h.mem (hkey.trans h.key.symm))
    · rw [h.pending]
      exact Or.inr hserved
  · exact Or.inl hnew

theorem receiveMessage_served {cfg : Config} {s : State} {q : MQMessageQueue}
    {f : FilterExpression} {stored : Bool} (hkeys : KeysDistinct s)
    (hgoes : s.active = true → q.serviceAddress.isEmpty = false → ¬ Skips cfg stored)
    (hs : s.active = true → ServedBut s fun r =>
      r.messageQueue.key = q.key ∧ q.serviceAddress.isEmpty = false) :
    Served (receiveMessage cfg s q f stored) := by
  by_cases hactive : s.active = true
  · intro _
    have hkey : ServedBut s fun r => r.messageQueue.key = q.key := fun r hr haddress =>
      (hs hactive r hr haddress).imp_left And.left
    obtain ⟨t, queue, hlocated, ⟨hno, heq⟩ | heq | heq⟩ :=
      receiveMessage_cases hactive cfg q f stored
    · have hempty : q.serviceAddress.isEmpty = true := by
        by_contra hne
        rw [Bool.not_eq_true] at hne
        exact hno.elim (by simp [hne]) (hgoes hactive hne)
      rw [heq]
      intro r hr haddress
      rcases hlocated.old_or_new hr with hold | ⟨-, rfl⟩
      · rw [hlocated.pending]
        exact (hs hactive r hold haddress).imp_left fun h => by simp [hempty] at h
      · simp [hempty] at haddress
    · rw [heq]
      exact (hkey.located hkeys hlocated).add .query
    · rw [heq]
      exact ServedBut.add (s := { t with requests := _ }) (hkey.located hkeys hlocated) .rpc
  · intro hactive'
    simp [receiveMessage, hactive] at hactive'

theorem alive_of_mem {s : State} {queue : ProcessQueueRef} (h : queue ∈ s.table) :
    s.alive queue = true := by
  have hany : s.table.any (fun r => r.id == queue.id) = true :=
    List.any_eq_true.mpr ⟨queue, h, beq_self_eq_true _⟩
  simp [State.alive, hany]

theorem checkThrottleThenReceive_goesOn {cfg : Config} {s : State} {queue : ProcessQueueRef}
    (h : s.alive queue = true) : checkThrottleThenReceive cfg s queue ≠ .nothing := by
  rw [checkThrottleThenReceive]
  split_ifs with hdead
  · simp [h] at hdead
  · nofun
  · nofun

theorem onResult_goesOn {cfg : Config} {s : State} {queue : ProcessQueueRef}
    {result : Except ErrorCode ReceiveMessageResult} {r : State × Next}
    (halive : s.alive queue = true) (hactive : s.active = true)
    (h : onResult cfg s queue result = some r) : r.2 ≠ .nothing := by
  rw [onResult.eq_def] at h
  split at h
  · cases h
    simp [halive]
  · simp only [halive, hactive, Bool.not_true, Bool.false_eq_true, ↓reduceIte] at h
    obtain ⟨⟨q, continuation⟩, -, rfl⟩ := Option.map_eq_some_iff.mp h
    cases continuation with
    | checkThrottleThenReceive => exact checkThrottleThenReceive_goesOn halive
    | receiveMessageLater => nofun

theorem callback_goesOn {cfg : Config} {s : State} {queue : ProcessQueueRef} {stage : Stage}
    {outcome : Outcome} {r : State × Next} (hqueue : queue ∈ s.table)
    (hactive : s.active = true) (hquery : stage = .query → outcome.brings cfg ≠ none)
    (h : callback cfg s queue stage outcome = some r) : r.2 ≠ .nothing := by
  have halive := alive_of_mem hqueue
  by_cases hstage : stage = .query
  · subst hstage
    have hreceives := (callback_receives_iff h).mpr (hquery rfl)
    intro hnothing
    simp [hnothing, Next.receives] at hreceives
  · rcases callback_cases h with ⟨c, rfl, -⟩ | ⟨-, ⟨result, hresult⟩ | rfl⟩
    · cases stage with
      | query => exact absurd rfl hstage
      | _ => cases h
    · exact onResult_goesOn halive hactive hresult
    · exact checkThrottleThenReceive_goesOn halive

theorem onQueryOffset_next {s : State} {queue : ProcessQueueRef} {c : Completion ℤ}
    {r : State × Next} (h : onQueryOffset s queue c = some r) :
    r.2 ≠ .receiveMessageImmediately := by
  rw [onQueryOffset.eq_def] at h
  split at h
  · cases h
    nofun
  · split_ifs at h
    cases h
    nofun

theorem goOn_served {cfg : Config} {s : State} {queue : ProcessQueueRef} {stored : Bool}
    {next : Next} (hkeys : KeysDistinct s)
    (hs : s.active = true → ServedBut s (· = queue))
    (hnext : s.active = true → queue ∈ s.table → next ≠ .nothing)
    (hgoes : next = .receiveMessageImmediately → s.active = true →
      queue.messageQueue.serviceAddress.isEmpty = false → ¬ Skips cfg stored) :
    Served (goOn cfg s queue stored next) := by
  cases next with
  | nothing =>
    intro hactive r hr haddress
    refine (hs hactive r hr haddress).imp_left fun heq => ?_
    subst heq
    exact hnext hactive hr rfl
  | receiveMessageLater => exact fun hactive => (hs hactive).add .timer
  | receiveMessageImmediately =>
    refine receiveMessage_served hkeys (hgoes rfl) fun hactive r hr haddress => ?_
    refine (hs hactive r hr haddress).imp_left fun heq => ?_
    subst heq
    exact ⟨rfl, haddress⟩
  | request =>
    exact fun hactive => ServedBut.add (s := { s with requests := _ }) (hs hactive) .rpc

theorem Served.of_shrinks {s t : State} (hs : Served s) (h : Shrinks s t) : Served t := by
  intro hactive r hr haddress
  refine (hs (h.active hactive) r (h.table.subset hr) haddress).imp_right fun hserved => ?_
  obtain ⟨stage, hstage⟩ := hserved
  exact ⟨stage, h.pending stage r hstage⟩

theorem ServedBut.add_work {s : State} {spared : ProcessQueueRef → Prop}
    (hs : ServedBut s spared) (w : Work) : ServedBut (s.add w) spared := by
  intro r hr haddress
  refine (hs r hr haddress).imp_right fun hserved => ?_
  obtain ⟨stage, hstage⟩ := hserved
  exact ⟨stage, List.mem_append_left _ hstage⟩

theorem step_served {cfg : Config} {s t : State} {e : Event} (hkeys : KeysDistinct s)
    (hs : Served s) (hgoes : KeepsGoing cfg s e) (h : step cfg s e = some t) : Served t := by
  cases step_moves h with
  | syncs topic assigned f expired =>
    intro hactive
    refine ServedBut.add_work (fun r hr haddress => ?_) _
    exact hs hactive r (List.mem_of_mem_filter hr) haddress
  | @starts i stored q queues f rest hpick =>
    have hserved : Served (receiveMessage cfg { s with pending := rest } q f stored) := by
      refine receiveMessage_served hkeys (hgoes.supplied hpick q rfl)
        fun hactive r hr haddress => ?_
      obtain ⟨stage, hstage⟩ := (hs hactive r hr haddress).resolve_left id
      exact Or.inr ⟨stage, by simpa using (pick_perm hpick).mem_iff.mp hstage⟩
    exact fun hactive => (hserved hactive).add_work _
  | @continues i outcome stored stage queue rest contents next hpick hcall =>
    have hsupplied := hgoes.supplied hpick
    have hquery : stage = .query → outcome.brings cfg ≠ none := by
      rintro rfl
      exact hsupplied
    refine goOn_served hkeys (fun hactive r hr haddress => ?_)
      (fun hactive hqueue => callback_goesOn (s := { s with pending := rest }) (r := (_, next))
        hqueue hactive hquery hcall)
      fun hnext hactive haddress => ?_
    · obtain ⟨stage', hstage⟩ := (hs hactive r hr haddress).resolve_left id
      rcases List.mem_cons.mp ((pick_perm hpick).mem_iff.mp hstage) with heq | hrest
      · cases heq
        exact Or.inl rfl
      · exact Or.inr ⟨stage', hrest⟩
    · subst hnext
      have hgoesOn := (callback_receives_iff hcall).mp hactive
      cases stage with
      | query =>
        rcases callback_cases hcall with ⟨c, -, hanswer⟩ | ⟨hquery, -⟩
        · exact absurd rfl (onQueryOffset_next hanswer)
        · cases outcome with
          | queried c => exact absurd rfl (hquery c)
          | _ => cases hcall
      | rpc => exact hsupplied hgoesOn haddress
      | timer => exact hsupplied hgoesOn haddress
  | started hpick => exact hs.of_shrinks (shrinks_of_started hpick)
  | shrinks hshrinks hother => exact hs.of_shrinks hshrinks

/-- An active consumer has a receive step outstanding for each of its queues with an address
along every run in which offset queries succeed and the store knows no offset when a
pulling consumer asks. -/
theorem served_along (cfg : Config) (es : List Event)
    (hgoes : (machine cfg).Guarded (KeepsGoing cfg) (machine cfg).init es) :
    (machine cfg).Along Served (machine cfg).init es :=
  (machine cfg).along_of_guarded (J := fun s => KeysDistinct s ∧ Served s)
    (fun _ _ _ hj hok h => ⟨step_keysDistinct hj.1 h, step_served hj.1 hj.2 hok h⟩)
    (fun _ hj => hj.2) ⟨List.nodup_nil, fun _ => nofun⟩ hgoes

instance (cfg : Config) (stored : Bool) : Decidable (Skips cfg stored) :=
  inferInstanceAs (Decidable (_ ∧ _ ∧ _))

instance (cfg : Config) (s : State) (queue : ProcessQueueRef) (outcome : Outcome) :
    ∀ stage, Decidable (Rests cfg s queue outcome stage)
  | .query => decidable_of_iff ((outcome.brings cfg).isNone = true) Option.isNone_iff_eq_none
  | .rpc => inferInstanceAs (Decidable (_ ∨ _ ∨ _))
  | .timer => inferInstanceAs (Decidable (_ ∨ _ ∨ _))

instance (cfg : Config) (s : State) (outcome : Outcome) (stored : Bool) :
    ∀ w : Work, Decidable (w.Supplied cfg s outcome stored)
  | .starting queues _ => inferInstanceAs (Decidable (∀ q ∈ queues.head?, _ → _ → _))
  | .receive .query _ =>
    decidable_of_iff ((outcome.brings cfg).isSome = true) Option.isSome_iff_ne_none
  | .receive .rpc _ => inferInstanceAs (Decidable (_ → _ → _))
  | .receive .timer _ => inferInstanceAs (Decidable (_ → _ → _))

instance (cfg : Config) (s : State) : ∀ e, Decidable (KeepsGoing cfg s e)
  | .resume i outcome stored => inferInstanceAs (Decidable (∀ r ∈ pick s.pending i,
      r.1.Supplied cfg { s with pending := r.2 } outcome stored))
  | .syncProcessQueue .. | .hold .. | .letGo .. | .take .. | .release .. | .clear | .shutdown =>
    .isTrue trivial

def pulling (offsetStore : Bool) : Config :=
  { action := .pull, offsetStore := offsetStore, wrap := fun _ => .rejected }

theorem served_pull_retry :
    (machine (pulling false)).Along Served (machine (pulling false)).init
      [.syncProcessQueue "abc" [oldQueue] {} [], .resume 0 .run false,
        .resume 0 (.queried { response := 7 }) false,
        .resume 1 (.pulled { statusOk := false, response := {} }) false,
        .resume 1 .run false] := by
  refine served_along _ _ ?_
  decide

theorem queue_goes_silent :
    (∃ s, (machine (pulling true)).run
        [.syncProcessQueue "abc" [oldQueue] {} [], .resume 0 .run true] = some s ∧
      ¬ Served s) ∧
    ∃ s, (machine (pulling false)).run
        [.syncProcessQueue "abc" [oldQueue] {} [], .resume 0 .run false,
          .resume 0 (.queried { statusOk := false, response := 0 }) false] = some s ∧
      ¬ Served s := by
  refine ⟨⟨_, rfl, fun h => ?_⟩, ⟨_, rfl, fun h => ?_⟩⟩
  · obtain ⟨stage, hstage⟩ := (h rfl _ (List.mem_singleton_self _) rfl).resolve_left id
    cases List.mem_singleton.mp (show Work.receive stage _ ∈ [Work.starting [] {}] from hstage)
  · obtain ⟨stage, hstage⟩ := (h rfl _ (List.mem_singleton_self _) rfl).resolve_left id
    cases List.mem_singleton.mp (show Work.receive stage _ ∈ [Work.starting [] {}] from hstage)

end RocketMQClient.Rebalance
