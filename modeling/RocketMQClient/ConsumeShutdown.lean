import RocketMQClient.Message
import RocketMQClient.RateLimiterRuns

/-!
# Starting and stopping a consume service

The threads of `ConsumeMessageService`: the one that starts it, its dispatcher, the workers
of its pool, the thread that refills the rate limiters, and those that call `shutdown`. A
task goes through `consumeTask` up to the listener and past it. With a custom executor the
tasks leave the pool; the FIFO service also submits tasks again from the scheduler.

Only the call that takes the service from `STARTED` to `STOPPING` stops anything, and its
progress is `stopper`. The work guard of the pool and its context are given up in one step.
What the dispatcher finds in the process queues is part of the event, and the thresholds of
the topics stay as they are.
-/

namespace RocketMQClient.ConsumeService
open EventMachine EventMachine.Machine Pending

/-- `duringStart` says whether `shutdown` may be called before `start` has returned. -/
structure Config where
  workers : ℕ
  callers : ℕ
  duringStart : Bool := false
  customExecutor : Bool := false
  throttle : List (ℕ × UInt32) := []

def Config.threshold (cfg : Config) (topic : ℕ) : Option UInt32 := cfg.throttle.lookup topic

structure Batch where
  topic : ℕ
  size : ℕ
  deriving DecidableEq, Repr

/-- Where a thread is in `consumeTask`. One that waits for a permit needs `left` more after it. -/
inductive Stage
  | entering
  | acquiring (left : ℕ)
  | waiting (left : ℕ)
  | listener
  | settling
  deriving DecidableEq, Repr

structure Task where
  batch : Batch
  stage : Stage := .entering
  deriving DecidableEq, Repr

inductive Starter
  | created
  | startingPool
  | launching
  | finishing
  | returned
  deriving DecidableEq, Repr

inductive Dispatcher
  | absent
  | checking
  | dispatching (batches : List Batch)
  | posting (batch : Batch) (batches : List Batch)
  | waiting
  | exited
  deriving DecidableEq, Repr

inductive Stopper
  | none
  | marking
  | stoppingPool
  | stoppingContext
  | joining
  | joiningDispatcher
  | stoppingObserver
  | done
  deriving DecidableEq, Repr

inductive Caller
  | idle
  | entered
  | checked
  | stopping
  | returned
  deriving DecidableEq, Repr

/-- `idle` workers wait in the context, `busy` ones run a task. `submitting` are the tasks
that a thread of the scheduler is about to post. -/
structure State where
  service : LifeState := .created
  starter : Starter := .created
  pool : LifeState := .created
  contextStopped : Bool := false
  posted : List Batch := []
  idle : ℕ := 0
  busy : List Task := []
  dispatcher : Dispatcher := .absent
  submitting : List Batch := []
  executor : List Task := []
  limiters : ℕ → RateLimiter 10
  observing : Bool := true
  stopper : Stopper := .none
  callers : List Caller

structure Choice where
  alive : Bool := true
  now : Fin 10 := 0
  later : Fin 10 := 0

inductive Event
  | start
  | dispatch (batches : List Batch)
  | take
  | exit
  | work (i : ℕ) (choice : Choice)
  | execute (i : ℕ) (choice : Choice)
  | submit (batch : Batch)
  | post (i : ℕ)
  | tick (topic : ℕ) (idx : Fin 10)
  | shutdown (i : ℕ)
  | stop

def setLimiter (limiters : ℕ → RateLimiter 10) (topic : ℕ) (limiter : RateLimiter 10) :
    ℕ → RateLimiter 10 :=
  Function.update limiters topic limiter

def Task.advance (cfg : Config) (limiters : ℕ → RateLimiter 10) (task : Task) (c : Choice) :
    Option ((ℕ → RateLimiter 10) × Option Stage) :=
  let limiter := limiters task.batch.topic
  match task.stage with
  | .entering =>
    if !c.alive then some (limiters, none)
    else if (cfg.threshold task.batch.topic).isSome then
      some (limiters, some (.acquiring task.batch.size))
    else some (limiters, some .listener)
  | .acquiring 0 => some (limiters, some .listener)
  | .acquiring (left + 1) =>
    match limiter.held c.now with
    | some index =>
      some (setLimiter limiters task.batch.topic (limiter.decrement index), some (.acquiring left))
    | none => some (limiters, some (.waiting left))
  | .waiting left =>
    if 0 < limiter.permits c.now then
      some (setLimiter limiters task.batch.topic (limiter.decrement c.later),
        some (.acquiring left))
    else none
  | .listener => some (limiters, some .settling)
  | .settling => some (limiters, none)

def start (cfg : Config) (s : State) : Option State :=
  match s.starter with
  | .created =>
    if s.service = .created then some { s with service := .starting, starter := .startingPool }
    else some { s with starter := .finishing }
  | .startingPool =>
    some { s with pool := .started, idle := cfg.workers, starter := .launching }
  | .launching => some { s with dispatcher := .checking, starter := .finishing }
  | .finishing =>
    if s.service = .starting then some { s with service := .started, starter := .returned }
    else some { s with starter := .returned }
  | .returned => none

def stopped (service : LifeState) : Bool := service = .stopping || service = .stopped

def submit (cfg : Config) (s : State) (batch : Batch) (batches : List Batch) : State :=
  if cfg.customExecutor then
    { s with executor := s.executor ++ [⟨batch, .entering⟩], dispatcher := .dispatching batches }
  else if s.pool = .started then { s with dispatcher := .posting batch batches }
  else { s with dispatcher := .dispatching batches }

def dispatch (cfg : Config) (s : State) (found : List Batch) : Option State :=
  match s.dispatcher with
  | .absent => none
  | .checking =>
    if stopped s.service then some { s with dispatcher := .exited }
    else some { s with dispatcher := .dispatching found }
  | .dispatching [] => some { s with dispatcher := .waiting }
  | .dispatching (batch :: batches) => some (submit cfg s batch batches)
  | .posting batch batches =>
    some { s with posted := s.posted ++ [batch], dispatcher := .dispatching batches }
  | .waiting => some { s with dispatcher := .checking }
  | .exited => none

def resubmit (cfg : Config) (s : State) (batch : Batch) : State :=
  if cfg.customExecutor then { s with executor := s.executor ++ [⟨batch, .entering⟩] }
  else if s.pool = .started then { s with submitting := s.submitting ++ [batch] }
  else s

def take (s : State) : Option State :=
  if s.contextStopped || s.idle = 0 then none
  else match s.posted with
    | [] => none
    | batch :: rest => some { s with
        posted := rest, idle := s.idle - 1, busy := s.busy ++ [⟨batch, .entering⟩] }

def exit (s : State) : Option State :=
  if s.contextStopped && 0 < s.idle then some { s with idle := s.idle - 1 } else none

def work (cfg : Config) (s : State) (i : ℕ) (c : Choice) : Option State :=
  (pick s.busy i).bind fun r => (r.1.advance cfg s.limiters c).map fun next =>
    match next.2 with
    | some stage => { s with limiters := next.1, busy := r.2 ++ [⟨r.1.batch, stage⟩] }
    | none => { s with limiters := next.1, busy := r.2, idle := s.idle + 1 }

def execute (cfg : Config) (s : State) (i : ℕ) (c : Choice) : Option State :=
  (pick s.executor i).bind fun r => (r.1.advance cfg s.limiters c).map fun next =>
    match next.2 with
    | some stage => { s with limiters := next.1, executor := r.2 ++ [⟨r.1.batch, stage⟩] }
    | none => { s with limiters := next.1, executor := r.2 }

def State.become (s : State) (i : ℕ) (caller : Caller) : State :=
  { s with callers := s.callers.set i caller }

def shutdown (cfg : Config) (s : State) (i : ℕ) : Option State :=
  match s.callers[i]? with
  | some .idle =>
    if cfg.duringStart || s.starter = .returned then some (s.become i .entered) else none
  | some .entered => if s.service = .starting then none else some (s.become i .checked)
  | some .checked =>
    if s.service = .started then
      some { s.become i .stopping with service := .stopping, stopper := .marking }
    else some (s.become i .returned)
  | some .stopping => if s.stopper = .done then some (s.become i .returned) else none
  | some .returned => none
  | none => none

def stop (s : State) : Option State :=
  match s.stopper with
  | .none => none
  | .marking =>
    if s.service = .stopping then some { s with service := .stopped, stopper := .stoppingPool }
    else some { s with stopper := .done }
  | .stoppingPool =>
    if s.pool = .started then some { s with pool := .stopping, stopper := .stoppingContext }
    else some { s with stopper := .joiningDispatcher }
  | .stoppingContext => some { s with contextStopped := true, stopper := .joining }
  | .joining =>
    if s.idle = 0 && s.busy.isEmpty then
      some { s with pool := .stopped, stopper := .joiningDispatcher }
    else none
  | .joiningDispatcher =>
    if s.dispatcher = .absent || s.dispatcher = .exited then
      some { s with stopper := .stoppingObserver }
    else none
  | .stoppingObserver => some { s with observing := false, stopper := .done }
  | .done => none

def step (cfg : Config) (s : State) : Event → Option State
  | .start => start cfg s
  | .dispatch found => dispatch cfg s found
  | .take => take s
  | .exit => exit s
  | .work i c => work cfg s i c
  | .execute i c => execute cfg s i c
  | .submit batch => some (resubmit cfg s batch)
  | .post i =>
    (pick s.submitting i).map fun r => { s with submitting := r.2, posted := s.posted ++ [r.1] }
  | .tick topic idx =>
    if s.observing then
      some { s with limiters := setLimiter s.limiters topic ((s.limiters topic).tick idx) }
    else none
  | .shutdown i => shutdown cfg s i
  | .stop => stop s

def machine (cfg : Config) : Machine State Event where
  init :=
    { limiters := fun topic => RateLimiter.new 10 ((cfg.threshold topic).getD 0)
      callers := List.replicate cfg.callers .idle }
  step := step cfg

def Listening (s : State) : Prop :=
  ∃ task ∈ s.busy ++ s.executor, task.stage = .listener

inductive Progress : LifeState → Starter → LifeState → Bool → Stopper → Prop
  | created : Progress .created .created .created false .none
  | startingPool : Progress .starting .startingPool .created false .none
  | launching : Progress .starting .launching .started false .none
  | finishing : Progress .starting .finishing .started false .none
  | started : Progress .started .returned .started false .none
  | marking : Progress .stopping .returned .started false .marking
  | stoppingPool : Progress .stopped .returned .started false .stoppingPool
  | stoppingContext : Progress .stopped .returned .stopping false .stoppingContext
  | joining : Progress .stopped .returned .stopping true .joining
  | joiningDispatcher : Progress .stopped .returned .stopped true .joiningDispatcher
  | stoppingObserver : Progress .stopped .returned .stopped true .stoppingObserver
  | done : Progress .stopped .returned .stopped true .done

theorem Progress.service_eq {service pool : LifeState} {contextStopped : Bool}
    (h : Progress service .returned pool contextStopped .none) : service = .started := by
  cases h
  rfl

def Stopper.joined : Stopper → Bool
  | .joiningDispatcher => true
  | .stoppingObserver => true
  | .done => true
  | _ => false

structure Inv (s : State) : Prop where
  progress : Progress s.service s.starter s.pool s.contextStopped s.stopper
  joined : s.stopper.joined = true → s.idle = 0 ∧ s.busy = []
  observing : s.observing = false → s.stopper = .done
  stopping : .stopping ∈ s.callers → s.stopper ≠ .none

variable {cfg : Config} {s t : State}

theorem Inv.starts (h : Inv s) (hs : start cfg s = some t) : Inv t := by
  obtain ⟨hprogress, hjoined, hobserving, hstopping⟩ := h
  obtain ⟨service, starter, pool, contextStopped, posted, idle, busy, dispatcher, submitting,
    executor, limiters, observing, stopper, callers⟩ := s
  simp only [start] at hs
  cases hprogress <;> simp at hs
  all_goals
    subst hs
    exact ⟨by constructor, by simp [Stopper.joined], hobserving, hstopping⟩

theorem Inv.stops (h : Inv s) (hs : stop s = some t) : Inv t := by
  obtain ⟨hprogress, hjoined, hobserving, hstopping⟩ := h
  obtain ⟨service, starter, pool, contextStopped, posted, idle, busy, dispatcher, submitting,
    executor, limiters, observing, stopper, callers⟩ := s
  simp only [stop] at hs
  cases hprogress <;> simp at hs
  case joining =>
    obtain ⟨hnone, rfl⟩ := hs
    exact ⟨by constructor, fun _ => hnone, fun hoff => absurd (hobserving hoff) (by simp), by simp⟩
  case joiningDispatcher =>
    obtain ⟨-, rfl⟩ := hs
    exact ⟨by constructor, fun _ => hjoined rfl, fun hoff => absurd (hobserving hoff) (by simp),
      by simp⟩
  case stoppingObserver =>
    subst hs
    exact ⟨by constructor, fun _ => hjoined rfl, fun _ => rfl, by simp⟩
  all_goals
    subst hs
    exact ⟨by constructor, by simp [Stopper.joined],
      fun hoff => absurd (hobserving hoff) (by simp), by simp⟩

theorem Inv.become (h : Inv s) (i : ℕ) {caller : Caller}
    (hcaller : caller = .stopping → s.stopper ≠ .none) : Inv (s.become i caller) := by
  refine ⟨h.progress, h.joined, h.observing, fun hmem => ?_⟩
  obtain hold | hnew := List.mem_or_eq_of_mem_set hmem
  · exact h.stopping hold
  · exact hcaller hnew.symm

theorem Inv.marks (h : Inv s) (i : ℕ) (hservice : s.service = .started) :
    Inv { s.become i .stopping with service := .stopping, stopper := .marking } := by
  obtain ⟨hprogress, -, hobserving, -⟩ := h
  obtain ⟨service, starter, pool, contextStopped, posted, idle, busy, dispatcher, submitting,
    executor, limiters, observing, stopper, callers⟩ := s
  cases hservice
  cases hprogress
  exact ⟨by constructor, by simp [Stopper.joined], fun hoff => absurd (hobserving hoff) (by simp),
    by simp⟩

theorem start_touches (h : start cfg s = some t) :
    ∃ service starter pool idle dispatcher, t = { s with
      service := service, starter := starter, pool := pool, idle := idle
      dispatcher := dispatcher } := by
  unfold start at h
  split at h
  · split_ifs at h <;> cases h <;> exact ⟨_, _, _, _, _, rfl⟩
  · cases h
    exact ⟨_, _, _, _, _, rfl⟩
  · cases h
    exact ⟨_, _, _, _, _, rfl⟩
  · split_ifs at h <;> cases h <;> exact ⟨_, _, _, _, _, rfl⟩
  · cases h

theorem stop_touches (h : stop s = some t) :
    ∃ service pool contextStopped observing stopper, t = { s with
      service := service, pool := pool, contextStopped := contextStopped
      observing := observing, stopper := stopper } := by
  unfold stop at h
  split at h <;> try split_ifs at h
  all_goals cases h <;> exact ⟨_, _, _, _, _, rfl⟩

inductive Called (cfg : Config) (s : State) (i : ℕ) : State → Prop
  | enters (hcaller : s.callers[i]? = some .idle)
      (hmay : cfg.duringStart = true ∨ s.starter = .returned) : Called cfg s i (s.become i .entered)
  | checks (hcaller : s.callers[i]? = some .entered) (hservice : s.service ≠ .starting) :
      Called cfg s i (s.become i .checked)
  | marks (hcaller : s.callers[i]? = some .checked) (hservice : s.service = .started) :
      Called cfg s i { s.become i .stopping with service := .stopping, stopper := .marking }
  | misses (hcaller : s.callers[i]? = some .checked) (hservice : s.service ≠ .started) :
      Called cfg s i (s.become i .returned)
  | returns (hcaller : s.callers[i]? = some .stopping) (hstopper : s.stopper = .done) :
      Called cfg s i (s.become i .returned)

theorem shutdown_called {i : ℕ} (hs : shutdown cfg s i = some t) : Called cfg s i t := by
  unfold ConsumeService.shutdown at hs
  split at hs
  · rename_i hcaller
    split_ifs at hs with hmay
    cases hs
    exact .enters hcaller (by simpa using hmay)
  · rename_i hcaller
    split_ifs at hs with hservice
    cases hs
    exact .checks hcaller hservice
  · rename_i hcaller
    split_ifs at hs with hservice
    · cases hs
      exact .marks hcaller hservice
    · cases hs
      exact .misses hcaller hservice
  · rename_i hcaller
    split_ifs at hs with hstopper
    cases hs
    exact .returns hcaller hstopper
  · cases hs
  · cases hs

theorem Inv.shutdown {i : ℕ} (h : Inv s) (hs : shutdown cfg s i = some t) : Inv t := by
  cases shutdown_called hs with
  | enters => exact h.become i (by simp)
  | checks => exact h.become i (by simp)
  | marks _ hservice => exact h.marks i hservice
  | misses => exact h.become i (by simp)
  | returns => exact h.become i (by simp)

def SameControl (s t : State) : Prop :=
  ∃ posted dispatcher submitting executor, t = { s with
    posted := posted, dispatcher := dispatcher, submitting := submitting, executor := executor }

theorem SameControl.inv (hsame : SameControl s t) (h : Inv s) : Inv t := by
  obtain ⟨_, _, _, _, rfl⟩ := hsame
  exact ⟨h.progress, h.joined, h.observing, h.stopping⟩

theorem dispatch_sameControl {found : List Batch} (h : dispatch cfg s found = some t) :
    SameControl s t ∧ (cfg.customExecutor = false → t.executor = s.executor) := by
  unfold dispatch at h
  split at h
  · cases h
  · split_ifs at h <;> cases h <;> exact ⟨⟨_, _, _, _, rfl⟩, fun _ => rfl⟩
  · cases h
    exact ⟨⟨_, _, _, _, rfl⟩, fun _ => rfl⟩
  · cases h
    unfold submit
    split_ifs with hcustom
    · exact ⟨⟨_, _, _, _, rfl⟩, fun hpool => absurd hcustom (by simp [hpool])⟩
    all_goals exact ⟨⟨_, _, _, _, rfl⟩, fun _ => rfl⟩
  · cases h
    exact ⟨⟨_, _, _, _, rfl⟩, fun _ => rfl⟩
  · cases h
    exact ⟨⟨_, _, _, _, rfl⟩, fun _ => rfl⟩
  · cases h

theorem resubmit_sameControl (cfg : Config) (s : State) (batch : Batch) :
    SameControl s (resubmit cfg s batch) ∧
      (cfg.customExecutor = false → (resubmit cfg s batch).executor = s.executor) := by
  unfold resubmit
  split_ifs with hcustom
  · exact ⟨⟨_, _, _, _, rfl⟩, fun hpool => absurd hcustom (by simp [hpool])⟩
  all_goals exact ⟨⟨_, _, _, _, rfl⟩, fun _ => rfl⟩

theorem Inv.execute {i : ℕ} {c : Choice} (h : Inv s) (hs : execute cfg s i c = some t) :
    Inv t := by
  obtain ⟨r, -, hr⟩ := Option.bind_eq_some_iff.mp hs
  obtain ⟨next, -, rfl⟩ := Option.map_eq_some_iff.mp hr
  split <;> exact ⟨h.progress, h.joined, h.observing, h.stopping⟩

def WorkerStep (s t : State) : Prop :=
  ¬ (s.idle = 0 ∧ s.busy = []) ∧ ∃ posted idle busy limiters, t = { s with
    posted := posted, idle := idle, busy := busy, limiters := limiters }

theorem WorkerStep.inv (hstep : WorkerStep s t) (h : Inv s) : Inv t := by
  obtain ⟨hsome, _, _, _, _, rfl⟩ := hstep
  exact ⟨h.progress, fun hjoined => absurd (h.joined hjoined) hsome, h.observing, h.stopping⟩

theorem take_workerStep (h : take s = some t) : WorkerStep s t := by
  unfold take at h
  split_ifs at h with hnone
  split at h
  · cases h
  · cases h
    refine ⟨?_, _, _, _, _, rfl⟩
    simp_all

theorem exit_workerStep (h : exit s = some t) : WorkerStep s t := by
  unfold exit at h
  split_ifs at h with hsome
  cases h
  simp only [Bool.and_eq_true, decide_eq_true_eq] at hsome
  exact ⟨fun hnone => by omega, _, _, _, _, rfl⟩

theorem work_workerStep {i : ℕ} {c : Choice} (h : work cfg s i c = some t) : WorkerStep s t := by
  obtain ⟨r, hpick, hr⟩ := Option.bind_eq_some_iff.mp h
  obtain ⟨next, -, rfl⟩ := Option.map_eq_some_iff.mp hr
  have hsome : ¬ (s.idle = 0 ∧ s.busy = []) := by
    intro hnone
    simp [hnone.2, pick] at hpick
  split <;> exact ⟨hsome, _, _, _, _, rfl⟩

theorem Inv.step {e : Event} (h : Inv s) (hs : step cfg s e = some t) : Inv t := by
  cases e with
  | start => exact h.starts hs
  | dispatch found => exact (dispatch_sameControl hs).1.inv h
  | take => exact (take_workerStep hs).inv h
  | exit => exact (exit_workerStep hs).inv h
  | work i c => exact (work_workerStep hs).inv h
  | execute i c => exact h.execute hs
  | submit batch =>
    cases hs
    exact (resubmit_sameControl cfg s batch).1.inv h
  | post i =>
    obtain ⟨r, -, rfl⟩ := Option.map_eq_some_iff.mp hs
    exact ⟨h.progress, h.joined, h.observing, h.stopping⟩
  | tick topic idx =>
    simp only [ConsumeService.step] at hs
    split_ifs at hs
    cases hs
    exact ⟨h.progress, h.joined, h.observing, h.stopping⟩
  | shutdown i => exact h.shutdown hs
  | stop => exact h.stops hs

theorem inv_init (cfg : Config) : Inv (machine cfg).init := by
  refine ⟨.created, by simp [machine, Stopper.joined], by simp [machine], ?_⟩
  intro hmem
  simp [machine, List.mem_replicate] at hmem

structure Aside (s t : State) : Prop where
  executor : t.executor = s.executor
  callers : t.callers = s.callers
  stopper : t.stopper = s.stopper
  starter : s.starter = .returned → t.starter = .returned

theorem start_aside (h : start cfg s = some t) : Aside s t := by
  have hstarter : s.starter ≠ .returned := by
    intro hreturned
    simp [start, hreturned] at h
  obtain ⟨_, _, _, _, _, rfl⟩ := start_touches h
  exact ⟨rfl, rfl, rfl, fun hold => absurd hold hstarter⟩

theorem WorkerStep.aside (h : WorkerStep s t) : Aside s t := by
  obtain ⟨-, _, _, _, _, rfl⟩ := h
  exact ⟨rfl, rfl, rfl, id⟩

theorem SameControl.aside (h : SameControl s t) (hexecutor : t.executor = s.executor) :
    Aside s t := by
  obtain ⟨_, _, _, _, rfl⟩ := h
  exact ⟨hexecutor, rfl, rfl, id⟩

/-- What is known while the only call of `shutdown`, made after the start, is at `caller`. -/
def After (s : State) : Caller → Prop
  | .idle => s.stopper = .none
  | .entered => s.stopper = .none ∧ s.starter = .returned
  | .checked => s.stopper = .none ∧ s.starter = .returned
  | .stopping => True
  | .returned => s.stopper = .done

structure Alone (s : State) (caller : Caller) : Prop where
  inv : Inv s
  executor : s.executor = []
  callers : s.callers = [caller]
  after : After s caller

theorem After.of_aside {caller : Caller} (h : After s caller) (ht : Aside s t) :
    After t caller := by
  cases caller with
  | idle => exact ht.stopper.trans h
  | entered => exact ⟨ht.stopper.trans h.1, ht.starter h.2⟩
  | checked => exact ⟨ht.stopper.trans h.1, ht.starter h.2⟩
  | stopping => trivial
  | returned => exact ht.stopper.trans h

theorem Alone.of_aside {caller : Caller} (h : Alone s caller) (ht : Inv t) (haside : Aside s t) :
    ∃ caller', Alone t caller' :=
  ⟨caller, ht, haside.executor.trans h.executor, haside.callers.trans h.callers,
    h.after.of_aside haside⟩

theorem Alone.shutdown (hafter : cfg.duringStart = false) {caller : Caller} {i : ℕ}
    (h : Alone s caller) (hs : shutdown cfg s i = some t) : ∃ caller', Alone t caller' := by
  have ht : Inv t := h.inv.shutdown hs
  have hcallers := h.callers
  have hget : ∀ {c : Caller}, s.callers[i]? = some c → i = 0 ∧ caller = c := by
    intro c hc
    rw [hcallers, List.getElem?_singleton] at hc
    split_ifs at hc with hi
    exact ⟨hi, Option.some.inj hc⟩
  have hset : ∀ c, i = 0 → (s.become i c).callers = [c] := by
    intro c hi
    rw [State.become, hcallers, hi, List.set_cons_zero]
  cases shutdown_called hs with
  | enters hcaller hmay =>
    obtain ⟨hi, rfl⟩ := hget hcaller
    have hstarter : s.starter = .returned := hmay.resolve_left (by simp [hafter])
    exact ⟨.entered, ht, h.executor, hset _ hi, h.after, hstarter⟩
  | checks hcaller =>
    obtain ⟨hi, rfl⟩ := hget hcaller
    exact ⟨.checked, ht, h.executor, hset _ hi, h.after⟩
  | marks hcaller =>
    obtain ⟨hi, rfl⟩ := hget hcaller
    exact ⟨.stopping, ht, h.executor, hset _ hi, trivial⟩
  | misses hcaller hservice =>
    obtain ⟨hi, rfl⟩ := hget hcaller
    have hprogress := h.inv.progress
    rw [h.after.1, h.after.2] at hprogress
    exact absurd hprogress.service_eq hservice
  | returns hcaller hstopper =>
    obtain ⟨hi, rfl⟩ := hget hcaller
    exact ⟨.returned, ht, h.executor, hset _ hi, hstopper⟩

theorem Alone.stop {caller : Caller} (h : Alone s caller) (hs : stop s = some t) :
    Alone t caller := by
  have hexecutor : t.executor = s.executor ∧ t.callers = s.callers := by
    obtain ⟨_, _, _, _, _, rfl⟩ := stop_touches hs
    exact ⟨rfl, rfl⟩
  refine ⟨h.inv.stops hs, hexecutor.1.trans h.executor, hexecutor.2.trans h.callers, ?_⟩
  have hafter := h.after
  cases caller with
  | idle => simp [ConsumeService.stop, show s.stopper = .none from hafter] at hs
  | entered => simp [ConsumeService.stop, hafter.1] at hs
  | checked => simp [ConsumeService.stop, hafter.1] at hs
  | stopping => trivial
  | returned => simp [ConsumeService.stop, show s.stopper = .done from hafter] at hs

theorem Alone.step (hafter : cfg.duringStart = false) (hpool : cfg.customExecutor = false)
    {caller : Caller} {e : Event} (h : Alone s caller) (hs : step cfg s e = some t) :
    ∃ caller', Alone t caller' := by
  have ht : Inv t := h.inv.step hs
  cases e with
  | start => exact h.of_aside ht (start_aside hs)
  | dispatch found =>
    obtain ⟨hsame, hexecutor⟩ := dispatch_sameControl hs
    exact h.of_aside ht (hsame.aside (hexecutor hpool))
  | take => exact h.of_aside ht (take_workerStep hs).aside
  | exit => exact h.of_aside ht (exit_workerStep hs).aside
  | work i c => exact h.of_aside ht (work_workerStep hs).aside
  | execute i c =>
    obtain ⟨r, hpick, -⟩ := Option.bind_eq_some_iff.mp hs
    simp [h.executor, pick] at hpick
  | submit batch =>
    cases hs
    obtain ⟨hsame, hexecutor⟩ := resubmit_sameControl cfg s batch
    exact h.of_aside ht (hsame.aside (hexecutor hpool))
  | post i =>
    obtain ⟨r, -, rfl⟩ := Option.map_eq_some_iff.mp hs
    exact h.of_aside ht ⟨rfl, rfl, rfl, id⟩
  | tick topic idx =>
    simp only [ConsumeService.step] at hs
    split_ifs at hs
    cases hs
    exact h.of_aside ht ⟨rfl, rfl, rfl, id⟩
  | shutdown i => exact h.shutdown hafter hs
  | stop => exact ⟨caller, h.stop hs⟩

theorem alone_run (hone : cfg.callers = 1) (hafter : cfg.duringStart = false)
    (hpool : cfg.customExecutor = false) {es : List Event}
    (hrun : (machine cfg).run es = some s) : ∃ caller, Alone s caller := by
  refine (machine cfg).run_invariant (I := fun s => ∃ caller, Alone s caller) ?_ ?_ hrun
  · exact ⟨.idle, inv_init cfg, rfl, by simp [machine, hone], rfl⟩
  · intro s e t h hs
    obtain ⟨caller, halone⟩ := h
    exact halone.step hafter hpool hs

def QuietAfterShutdown (cfg : Config) : Prop :=
  ∀ es s, (machine cfg).run es = some s → .returned ∈ s.callers → ¬ Listening s

theorem quiet_of_alone (hone : cfg.callers = 1) (hafter : cfg.duringStart = false)
    (hpool : cfg.customExecutor = false) : QuietAfterShutdown cfg := by
  intro es s hrun hreturned hlistening
  obtain ⟨caller, halone⟩ := alone_run hone hafter hpool hrun
  rw [halone.callers, List.mem_singleton] at hreturned
  subst hreturned
  have hdone : s.stopper = .done := halone.after
  have hbusy := (halone.inv.joined (by rw [hdone]; rfl)).2
  obtain ⟨task, hmem, -⟩ := hlistening
  simp [hbusy, halone.executor] at hmem

theorem exists_unthrottled (cfg : Config) : ∃ topic, cfg.threshold topic = none := by
  obtain ⟨topic, hfresh⟩ := Infinite.exists_notMem_finset (cfg.throttle.map Prod.fst).toFinset
  refine ⟨topic, List.lookup_eq_none_iff.mpr fun entry hentry => ?_⟩
  rw [bne_iff_ne]
  rintro rfl
  exact hfresh (List.mem_toFinset.mpr (List.mem_map_of_mem hentry))

theorem exits_reach (cfg : Config) {s : State} (hstopped : s.contextStopped = true) :
    (machine cfg).Reaches s { s with idle := 0 } := by
  obtain ⟨idle, hidle⟩ : ∃ idle, s.idle = idle := ⟨_, rfl⟩
  induction idle generalizing s with
  | zero =>
    rw [← hidle]
    exact .refl _ s
  | succ idle ih =>
    have hexit : (machine cfg).step s .exit = some { s with idle := idle } := by
      simp [machine, step, exit, hstopped, hidle]
    exact .head _ hexit (ih hstopped rfl)

def startedState (cfg : Config) (callers : List Caller) : State :=
  { (machine cfg).init with
    service := .started, starter := .returned, pool := .started, idle := cfg.workers
    dispatcher := .checking, callers := callers }

theorem started_reached (cfg : Config) :
    (machine cfg).Reaches (machine cfg).init
      (startedState cfg (List.replicate cfg.callers .idle)) :=
  ⟨[.start, .start, .start, .start], rfl⟩

theorem listener_reached (hpool : cfg.customExecutor = false) (hworkers : 0 < cfg.workers)
    {topic : ℕ} (hopen : cfg.threshold topic = none) (callers : List Caller) :
    (machine cfg).Reaches (startedState cfg callers)
      { startedState cfg callers with
        idle := cfg.workers - 1, busy := [⟨⟨topic, 1⟩, .listener⟩]
        dispatcher := .dispatching [] } := by
  have hsome : cfg.workers ≠ 0 := by omega
  refine ⟨[.dispatch [⟨topic, 1⟩], .dispatch [], .dispatch [], .take, .work 0 {}], ?_⟩
  simp [runFrom, startedState, machine, step, dispatch, stopped, submit, take, work, pick,
    Task.advance, hpool, hsome, hopen]

theorem executed_reached (hcustom : cfg.customExecutor = true) {topic : ℕ}
    (hopen : cfg.threshold topic = none) (callers : List Caller) :
    (machine cfg).Reaches (startedState cfg callers)
      { startedState cfg callers with
        executor := [⟨⟨topic, 1⟩, .listener⟩], dispatcher := .dispatching [] } := by
  refine ⟨[.dispatch [⟨topic, 1⟩], .dispatch [], .execute 0 {}], ?_⟩
  simp [runFrom, startedState, machine, step, dispatch, stopped, submit, execute, pick,
    Task.advance, hcustom, hopen]

theorem stopped_reached (cfg : Config) {s : State} {callers : List Caller}
    (hservice : s.service = .started) (hstarter : s.starter = .returned)
    (hpool : s.pool = .started) (hdispatcher : s.dispatcher = .dispatching [])
    (hbusy : s.busy = []) (hcallers : s.callers = .idle :: callers) :
    (machine cfg).Reaches s { s with
      service := .stopped, pool := .stopped, contextStopped := true, idle := 0
      dispatcher := .exited, observing := false, stopper := .done
      callers := .returned :: callers } := by
  have hjoining : (machine cfg).Reaches s { s with
      service := .stopped, pool := .stopping, contextStopped := true, stopper := .joining
      callers := .stopping :: callers } := by
    refine ⟨[.shutdown 0, .shutdown 0, .shutdown 0, .stop, .stop, .stop], ?_⟩
    simp [runFrom, machine, step, shutdown, stop, State.become, hservice, hstarter, hpool, hcallers]
  refine .trans _ hjoining (.trans _ (exits_reach cfg rfl) ?_)
  refine ⟨[.stop, .dispatch [], .dispatch [], .dispatch [], .stop, .stop, .shutdown 0], ?_⟩
  simp [runFrom, machine, step, shutdown, stop, stopped, dispatch, State.become, hdispatcher, hbusy]

theorem not_quiet_of_reaches (hreach : (machine cfg).Reaches (machine cfg).init s)
    (hreturned : .returned ∈ s.callers) (hlistening : Listening s) : ¬ QuietAfterShutdown cfg := by
  intro hquiet
  obtain ⟨es, hrun⟩ := hreach
  exact hquiet es s hrun hreturned hlistening

theorem not_quiet_of_customExecutor (hcallers : 0 < cfg.callers)
    (hcustom : cfg.customExecutor = true) : ¬ QuietAfterShutdown cfg := by
  obtain ⟨topic, hopen⟩ := exists_unthrottled cfg
  obtain ⟨n, hn⟩ : ∃ n, cfg.callers = n + 1 := ⟨cfg.callers - 1, by omega⟩
  have hreach := Reaches.trans _ (started_reached cfg) (executed_reached hcustom hopen _)
  rw [hn, List.replicate_succ] at hreach
  have hstop := Reaches.trans _ hreach (stopped_reached cfg rfl rfl rfl rfl rfl rfl)
  exact not_quiet_of_reaches hstop List.mem_cons_self ⟨⟨⟨topic, 1⟩, .listener⟩, by simp, rfl⟩

theorem second_call_reached (cfg : Config) {s : State} {callers : List Caller}
    (hservice : s.service = .started) (hstarter : s.starter = .returned)
    (hcallers : s.callers = .idle :: .idle :: callers) :
    (machine cfg).Reaches s { s with
      service := .stopping
      stopper := .marking
      callers := .stopping :: .returned :: callers } := by
  refine ⟨[.shutdown 0, .shutdown 0, .shutdown 0, .shutdown 1, .shutdown 1, .shutdown 1], ?_⟩
  simp [runFrom, machine, step, shutdown, State.become, hservice, hstarter, hcallers]

theorem not_quiet_of_second_call (hworkers : 0 < cfg.workers) (hcallers : 1 < cfg.callers)
    (hpool : cfg.customExecutor = false) : ¬ QuietAfterShutdown cfg := by
  obtain ⟨topic, hopen⟩ := exists_unthrottled cfg
  obtain ⟨n, hn⟩ : ∃ n, cfg.callers = n + 2 := ⟨cfg.callers - 2, by omega⟩
  have hreach := Reaches.trans _ (started_reached cfg) (listener_reached hpool hworkers hopen _)
  rw [hn, List.replicate_succ, List.replicate_succ] at hreach
  have hboth := Reaches.trans _ hreach (second_call_reached cfg rfl rfl rfl)
  exact not_quiet_of_reaches hboth (List.mem_cons_of_mem _ List.mem_cons_self)
    ⟨⟨⟨topic, 1⟩, .listener⟩, by simp, rfl⟩

theorem not_quiet_of_early_call (hworkers : 0 < cfg.workers) (hcallers : 0 < cfg.callers)
    (hduring : cfg.duringStart = true) (hpool : cfg.customExecutor = false) :
    ¬ QuietAfterShutdown cfg := by
  obtain ⟨topic, hopen⟩ := exists_unthrottled cfg
  obtain ⟨n, hn⟩ : ∃ n, cfg.callers = n + 1 := ⟨cfg.callers - 1, by omega⟩
  have hearly : (machine cfg).Reaches (machine cfg).init
      (startedState cfg (.returned :: List.replicate n .idle)) := by
    refine ⟨[.shutdown 0, .shutdown 0, .shutdown 0, .start, .start, .start, .start], ?_⟩
    simp [runFrom, machine, step, shutdown, start, State.become, startedState, hduring, hn,
      List.replicate_succ]
  have hreach := Reaches.trans _ hearly (listener_reached hpool hworkers hopen _)
  exact not_quiet_of_reaches hreach List.mem_cons_self ⟨⟨⟨topic, 1⟩, .listener⟩, by simp, rfl⟩

theorem quiet_after_shutdown_iff (cfg : Config) (hworkers : 0 < cfg.workers)
    (hcallers : 0 < cfg.callers) :
    QuietAfterShutdown cfg ↔
      cfg.callers = 1 ∧ cfg.duringStart = false ∧ cfg.customExecutor = false := by
  constructor
  · intro hquiet
    have hpool : cfg.customExecutor = false := by
      by_contra hcustom
      exact not_quiet_of_customExecutor hcallers (by simpa using hcustom) hquiet
    refine ⟨?_, ?_, hpool⟩
    · by_contra hmore
      exact not_quiet_of_second_call hworkers (by omega) hpool hquiet
    · by_contra hduring
      exact not_quiet_of_early_call hworkers hcallers (by simpa using hduring) hpool hquiet
  · intro h
    exact quiet_of_alone h.1 h.2.1 h.2.2

theorem two_workers_quiet : QuietAfterShutdown { workers := 2, callers := 1 } :=
  (quiet_after_shutdown_iff _ Nat.two_pos Nat.one_pos).mpr ⟨rfl, rfl, rfl⟩

end RocketMQClient.ConsumeService
