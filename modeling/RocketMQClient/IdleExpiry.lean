import RocketMQClient.ReceiveMessage
import RocketMQClient.Library.EventMachine

/-!
# When a process queue expires

A scan of the assignments drops a process queue that has been idle for more than two
minutes and starts another cycle for it. A queue is not idle when it asks for messages, or
when it finds that it has too many of them. Between two such moments its cycle waits for a
response, until the long polling timeout, and after a failure for the timer of
`receiveMessageLater`. How late a callback or a timer is run is a parameter. Times are in
milliseconds.
-/

namespace RocketMQClient.IdleExpiry
open EventMachine EventMachine.Machine

def processQueueExpirationThreshold : ℕ := 120 * 1000

def receiveLaterDelay : ℕ := 1000

structure Config where
  messageModel : MessageModel := .clustering
  maxCachedMessageQuantity : UInt32 := 1024
  maxCachedMessageMemory : UInt64 := 128 * 1024 * 1024
  wrap : rmq.Message → Decoded
  longPollingTimeout : ℕ := 30 * 1000
  lateness : ℕ := 0

inductive Cycle
  | requested (since : ℕ)
  | later (since : ℕ)

structure State where
  now : ℕ := 0
  idleSince : ℕ := 0
  processQueue : ProcessQueueImpl := {}
  cycle : Cycle := .requested 0

inductive Event
  | pass (duration : ℕ)
  | completed (c : Completion (List rmq.Message))
  | timer
  | take (batchSize : ℕ)
  | release (bodySize : ℕ) (offset : ℤ)

def expired (s : State) : Bool := processQueueExpirationThreshold < s.now - s.idleSince

def syncIdleState (s : State) : State := { s with idleSince := s.now }

def receiveMessageImmediately (s : State) : State :=
  { syncIdleState s with cycle := .requested s.now }

def receiveMessageLater (s : State) : State := { s with cycle := .later s.now }

def checkThrottleThenReceive (cfg : Config) (s : State) : State :=
  if s.processQueue.shouldThrottle cfg.maxCachedMessageQuantity cfg.maxCachedMessageMemory then
    receiveMessageLater (syncIdleState s)
  else receiveMessageImmediately s

def onCompletion (cfg : Config) (s : State) (c : Completion (List rmq.Message)) : Option State :=
  match onReceiveMessage cfg.wrap c with
  | none => none
  | some (.error _) => some (receiveMessageLater s)
  | some (.ok result) =>
    (onSuccess cfg.messageModel .polling s.processQueue result).map fun r =>
      let s := { s with processQueue := r.1 }
      match r.2 with
      | .checkThrottleThenReceive => checkThrottleThenReceive cfg s
      | .receiveMessageLater => receiveMessageLater s

def step (cfg : Config) (s : State) : Event → Option State
  | .pass duration => some { s with now := s.now + duration }
  | .completed c =>
    match s.cycle with
    | .requested _ => onCompletion cfg s c
    | .later _ => none
  | .timer =>
    match s.cycle with
    | .requested _ => none
    | .later since =>
      if since + receiveLaterDelay ≤ s.now then some (checkThrottleThenReceive cfg s) else none
  | .take batchSize => some { s with processQueue := (s.processQueue.take batchSize).queue }
  | .release bodySize offset =>
    (s.processQueue.release cfg.messageModel bodySize offset).map fun q =>
      { s with processQueue := q }

def machine (cfg : Config) : Machine State Event where
  init := {}
  step := step cfg

def Cycle.due (cfg : Config) : Cycle → ℕ
  | .requested since => since + cfg.longPollingTimeout
  | .later since => since + receiveLaterDelay

/-- Time does not pass by a response or a timer that is overdue. -/
def Timely (cfg : Config) (s : State) : Event → Prop
  | .pass duration => s.now + duration ≤ s.cycle.due cfg + cfg.lateness
  | _ => True

inductive Stepped (cfg : Config) (s : State) : Event → State → Prop
  | pass (duration : ℕ) : Stepped cfg s (.pass duration) { s with now := s.now + duration }
  | requests {e : Event} {t : State} (hnow : t.now = s.now) (hidle : t.idleSince = s.now)
      (hcycle : t.cycle = .requested s.now) : Stepped cfg s e t
  | throttles {e : Event} {t : State} (hnow : t.now = s.now) (hidle : t.idleSince = s.now)
      (hcycle : t.cycle = .later s.now) : Stepped cfg s e t
  | fails {e : Event} {t : State} {since : ℕ} (hrequested : s.cycle = .requested since)
      (hnow : t.now = s.now) (hidle : t.idleSince = s.idleSince)
      (hcycle : t.cycle = .later s.now) : Stepped cfg s e t
  | aside {e : Event} {t : State} (hnow : t.now = s.now) (hidle : t.idleSince = s.idleSince)
      (hcycle : t.cycle = s.cycle) : Stepped cfg s e t

variable {cfg : Config} {s t : State} {e : Event}

theorem stepped_checkThrottleThenReceive (u : State) (hu : u.now = s.now) :
    Stepped cfg s e (checkThrottleThenReceive cfg u) := by
  unfold checkThrottleThenReceive
  split_ifs
  · exact .throttles hu hu (by simp [receiveMessageLater, syncIdleState, hu])
  · exact .requests hu hu (by simp [receiveMessageImmediately, hu])

theorem stepped_onCompletion {c : Completion (List rmq.Message)} {since : ℕ}
    (hcycle : s.cycle = .requested since) (h : onCompletion cfg s c = some t) :
    Stepped cfg s e t := by
  unfold onCompletion at h
  split at h
  · simp at h
  · simp only [Option.some.injEq] at h
    subst h
    exact .fails hcycle rfl rfl rfl
  · obtain ⟨r, -, rfl⟩ := Option.map_eq_some_iff.mp h
    split
    · exact stepped_checkThrottleThenReceive _ rfl
    · exact .fails hcycle rfl rfl rfl

theorem stepped_of_step (h : step cfg s e = some t) : Stepped cfg s e t := by
  cases e with
  | pass duration =>
    simp only [step, Option.some.injEq] at h
    subst h
    exact .pass duration
  | completed c =>
    cases hcycle : s.cycle with
    | requested since =>
      simp only [step, hcycle] at h
      exact stepped_onCompletion hcycle h
    | later since => simp [step, hcycle] at h
  | timer =>
    cases hcycle : s.cycle with
    | requested since => simp [step, hcycle] at h
    | later since =>
      simp only [step, hcycle] at h
      split_ifs at h
      simp only [Option.some.injEq] at h
      subst h
      exact stepped_checkThrottleThenReceive s rfl
  | take batchSize =>
    simp only [step, Option.some.injEq] at h
    subst h
    exact .aside rfl rfl rfl
  | release bodySize offset =>
    obtain ⟨q, -, rfl⟩ := Option.map_eq_some_iff.mp h
    exact .aside rfl rfl rfl

/-- A cycle waits for its timer after a response that came in time, or from the moment the
queue was found full. -/
structure OnTime (cfg : Config) (s : State) : Prop where
  now : s.now ≤ s.cycle.due cfg + cfg.lateness
  idle : match s.cycle with
    | .requested since => s.idleSince = since
    | .later since => since ≤ s.idleSince + cfg.longPollingTimeout + cfg.lateness

theorem OnTime.step (h : OnTime cfg s) (htimely : Timely cfg s e) (hs : Stepped cfg s e t) :
    OnTime cfg t := by
  cases hs with
  | pass duration => exact ⟨htimely, h.idle⟩
  | requests hnow hidle hcycle =>
    constructor
    · simp only [hnow, hcycle, Cycle.due]
      omega
    · simp only [hcycle, hidle]
  | throttles hnow hidle hcycle =>
    constructor
    · simp only [hnow, hcycle, Cycle.due]
      omega
    · simp only [hcycle, hidle]
      omega
  | fails hrequested hnow hidle hcycle =>
    obtain ⟨htime, hsince⟩ := h
    simp only [hrequested, Cycle.due] at htime hsince
    constructor
    · simp only [hnow, hcycle, Cycle.due]
      omega
    · simp only [hcycle, hidle]
      omega
  | aside hnow hidle hcycle =>
    obtain ⟨htime, hsince⟩ := h
    constructor
    · rw [hnow, hcycle]
      exact htime
    · rw [hcycle, hidle]
      exact hsince

theorem OnTime.idle_le (h : OnTime cfg s) : s.now - s.idleSince ≤
    cfg.longPollingTimeout + cfg.lateness + (receiveLaterDelay + cfg.lateness) := by
  obtain ⟨htime, hsince⟩ := h
  cases hcycle : s.cycle with
  | requested since =>
    simp only [hcycle, Cycle.due] at htime hsince
    omega
  | later since =>
    simp only [hcycle, Cycle.due] at htime hsince
    omega

theorem onTime_init : OnTime cfg (machine cfg).init :=
  ⟨Nat.zero_le _, rfl⟩

def latest (cfg : Config) : List Event :=
  [.pass (cfg.longPollingTimeout + cfg.lateness), .completed { statusOk := false, response := [] },
    .pass (receiveLaterDelay + cfg.lateness)]

theorem latest_timely : (machine cfg).Guarded (Timely cfg) (machine cfg).init (latest cfg) := by
  intro t ht
  simp only [machine, step, Option.some.injEq] at ht
  subst ht
  refine ⟨by simp [Timely, machine, Cycle.due], ?_⟩
  intro t ht
  simp only [machine, step, onCompletion, onReceiveMessage, Completion.result, Bool.not_false,
    if_true, Option.some.injEq] at ht
  subst ht
  refine ⟨trivial, ?_⟩
  intro t ht
  simp only [machine, step, Option.some.injEq] at ht
  subst ht
  refine ⟨?_, trivial⟩
  simp only [Timely, receiveMessageLater, Cycle.due]
  omega

theorem latest_run (cfg : Config) : ∃ t, (machine cfg).run (latest cfg) = some t ∧ t.idleSince = 0 ∧
    t.now = cfg.longPollingTimeout + cfg.lateness + (receiveLaterDelay + cfg.lateness) := by
  refine ⟨_, rfl, rfl, ?_⟩
  simp [receiveMessageLater, machine]

theorem live_cycle_never_expires_iff (cfg : Config) :
    (∀ es, (machine cfg).Guarded (Timely cfg) (machine cfg).init es →
      (machine cfg).Along (fun s => expired s = false) (machine cfg).init es) ↔
    cfg.longPollingTimeout + cfg.lateness + (receiveLaterDelay + cfg.lateness) ≤
      processQueueExpirationThreshold := by
  constructor
  · intro hnever
    obtain ⟨t, hrun, hidle, hnow⟩ := latest_run cfg
    have hkept := (hnever (latest cfg) latest_timely).last _ hrun
    simp only [expired, hidle, hnow, decide_eq_false_iff_not] at hkept
    omega
  · intro hle es htimely
    apply (machine cfg).along_of_guarded (J := OnTime cfg) ?_ ?_ onTime_init htimely
    · intro s e t hs hok hstep
      exact hs.step hok (stepped_of_step hstep)
    · intro s hs
      have hidle := hs.idle_le
      simp only [expired, decide_eq_false_iff_not]
      omega

end RocketMQClient.IdleExpiry
