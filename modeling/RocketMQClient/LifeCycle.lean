import RocketMQClient.Library.EventMachine
import RocketMQClient.ReceiveMessage
import Mathlib

/-! Starting and shutting down a producer, a pull consumer or a push consumer. The
calls follow one another on one instance. `client_manager_` is a pointer that is null
before `start` and after `shutdown`, and a call that dereferences the null pointer or
aborts ends the run. -/

namespace RocketMQClient

def LifeState.rank : LifeState → ℕ
  | .created => 0
  | .starting => 1
  | .started => 2
  | .stopping => 3
  | .stopped => 4

namespace LifeCycle
open EventMachine EventMachine.Machine Std.Do
set_option mvcgen.warning false

inductive Kind
  | producer
  | pullConsumer
  | pushConsumer
  deriving DecidableEq, Repr

inductive MessageListenerType
  | standard
  | fifo
  deriving DecidableEq, Repr

structure Config where
  kind : Kind
  nameServerResolver : Bool := true
  messageListener : Option MessageListenerType := none
  messageModel : MessageModel := .clustering
  consumeBatchSize : ℕ := 1

def Config.Configured (cfg : Config) : Prop :=
  cfg.nameServerResolver = true ∧ (cfg.kind = .pushConsumer → cfg.messageListener ≠ none)

inductive TaskName
  | routeUpdater
  | scanAssignment
  deriving DecidableEq, Repr

/-- One instance, with its entries in the client manager: how often it is among the
observers, and its tasks in the scheduler. `past` lists the earlier values of `state_`,
the latest first, and `servicesCreated` counts the consume services ever made. -/
structure Client where
  state : LifeState := .created
  past : List LifeState := []
  resolving : Bool := false
  clientManager : Bool := false
  exporter : Bool := false
  routeUpdateHandle : UInt32 := 0
  scanAssignmentHandle : UInt32 := 0
  receiveMessagePolicy : ReceiveMessageAction := .polling
  consumeBatchSize : ℕ
  consumeMessageService : Option (MessageListenerType × LifeState) := none
  servicesCreated : ℕ := 0
  endpoints : List String := []
  processQueueTable : List MQMessageQueue := []
  observers : ℕ := 0
  tasks : List (UInt32 × TaskName) := []
  deriving DecidableEq

inductive Fault
  | noNameServerResolver
  | noMessageListener
  | nullClientManager
  | joinableThreadDestroyed
  deriving DecidableEq, Repr

abbrev Action := EStateM Fault Client

def store (desired : LifeState) : Action Unit :=
  modify fun c => { c with state := desired, past := c.state :: c.past }

def compareExchange (expected desired : LifeState) : Action Bool := do
  if (← get).state = expected then
    store desired
    return true
  else
    return false

def manager : Action Unit := do
  if !(← get).clientManager then throw .nullClientManager

def nameServerResolver (cfg : Config) : Action Unit :=
  if cfg.nameServerResolver then pure () else throw .noNameServerResolver

-- `tasks_.insert` leaves an entry that has the id already
def insertTask (tasks : List (UInt32 × TaskName)) (id : UInt32) (name : TaskName) :
    List (UInt32 × TaskName) :=
  if id ∈ tasks.map Prod.fst then tasks else tasks ++ [(id, name)]

def schedule (id : UInt32) (name : TaskName) : Action Unit := do
  manager
  modify fun c => { c with tasks := insertTask c.tasks id name }

def cancel (id : UInt32) : Action Unit := do
  manager
  modify fun c => { c with tasks := c.tasks.filter fun t => t.1 ≠ id }

def addClientObserver : Action Unit := do
  manager
  modify fun c => { c with observers := c.observers + 1 }

def requestEach : List String → Action Unit
  | [] => pure ()
  | _ :: rest => do
    manager
    requestEach rest

/-- What a `start` call gets from outside: the ids the scheduler draws, and the endpoints
of the route table once `fetchRoutes` has returned. -/
structure StartInput where
  routeUpdateId : UInt32
  scanAssignmentId : UInt32
  fetched : List String

def ClientImpl.start (cfg : Config) (input : StartInput) : Action Unit := do
  if ← compareExchange .created .starting then
    nameServerResolver cfg
    modify fun c => { c with resolving := true, clientManager := true, exporter := true }
    schedule input.routeUpdateId .routeUpdater
    modify fun c => { c with routeUpdateHandle := input.routeUpdateId }
    store .started

def ClientImpl.shutdown (cfg : Config) : Action Unit := do
  store .stopping
  nameServerResolver cfg
  modify fun c => { c with resolving := false }
  if (← get).routeUpdateHandle ≠ 0 then
    cancel (← get).routeUpdateHandle
  requestEach (← get).endpoints
  modify fun c => { c with clientManager := false }

def startWith (cfg : Config) (input : StartInput) (own : Action Unit) : Action Unit := do
  ClientImpl.start cfg input
  if (← get).state = .started then
    own

def shutdownWith (cfg : Config) (own : Action Unit) : Action Unit := do
  own
  ClientImpl.shutdown cfg
  let _ ← compareExchange .stopping .stopped

def ProducerImpl.start (cfg : Config) (input : StartInput) : Action Unit :=
  startWith cfg input addClientObserver

def ProducerImpl.shutdown (cfg : Config) : Action Unit := shutdownWith cfg (pure ())

def PullConsumerImpl.start (cfg : Config) (input : StartInput) : Action Unit :=
  startWith cfg input addClientObserver

def PullConsumerImpl.shutdown (cfg : Config) : Action Unit := shutdownWith cfg (pure ())

/-- A new service takes the place of the one before. If that has been started and not
shut down, its dispatch thread is joinable and its destructor terminates the program. -/
def replaceService (listener : MessageListenerType) : Action Unit := do
  modify fun c => { c with servicesCreated := c.servicesCreated + 1 }
  if (← get).consumeMessageService.any fun service => service.2 = .started then
    throw .joinableThreadDestroyed
  modify fun c => { c with consumeMessageService := some (listener, .created) }

def ConsumeMessageService.start : LifeState → LifeState
  | .created => .started
  | s => s

def ConsumeMessageService.shutdown : LifeState → LifeState
  | .started => .stopped
  | s => s

def PushConsumerImpl.startServices (cfg : Config) (input : StartInput) : Action Unit := do
  match cfg.messageListener with
  | none => throw .noMessageListener
  | some listener =>
    modify fun c => { c with receiveMessagePolicy :=
      if listener = .standard ∧ cfg.messageModel = .clustering then .polling else .pull }
    addClientObserver
    modify fun c => { c with endpoints := input.fetched }
    requestEach (← get).endpoints
    replaceService listener
    if listener = .fifo then
      modify fun c => { c with consumeBatchSize := 1 }
    modify fun c => { c with consumeMessageService :=
      c.consumeMessageService.map (Prod.map id ConsumeMessageService.start) }
    schedule input.scanAssignmentId .scanAssignment
    modify fun c => { c with scanAssignmentHandle := input.scanAssignmentId }
    store .started

def PushConsumerImpl.start (cfg : Config) (input : StartInput) : Action Unit :=
  startWith cfg input (PushConsumerImpl.startServices cfg input)

def PushConsumerImpl.shutdownServices : Action Unit := do
  if (← get).scanAssignmentHandle ≠ 0 then
    cancel (← get).scanAssignmentHandle
  modify fun c => { c with
    processQueueTable := []
    consumeMessageService :=
      c.consumeMessageService.map (Prod.map id ConsumeMessageService.shutdown) }

def PushConsumerImpl.shutdown (cfg : Config) : Action Unit :=
  shutdownWith cfg PushConsumerImpl.shutdownServices

def start (cfg : Config) (input : StartInput) : Action Unit :=
  match cfg.kind with
  | .producer => ProducerImpl.start cfg input
  | .pullConsumer => PullConsumerImpl.start cfg input
  | .pushConsumer => PushConsumerImpl.start cfg input

def shutdown (cfg : Config) : Action Unit :=
  match cfg.kind with
  | .producer => ProducerImpl.shutdown cfg
  | .pullConsumer => PullConsumerImpl.shutdown cfg
  | .pushConsumer => PushConsumerImpl.shutdown cfg

/-! Each call has a triple whose precondition fixes the client before it. The second part
of the postcondition says in which state which fault can end the program. -/

def SameLife (c₀ c : Client) : Prop :=
  c.state = c₀.state ∧ c.past = c₀.past ∧ c.clientManager = c₀.clientManager

def Dangling (c₀ : Client) (f : Fault) (c : Client) : Prop :=
  f = .nullClientManager ∧ c₀.clientManager = false ∧ SameLife c₀ c

@[spec] theorem manager_spec (c₀ : Client) :
    ⦃fun c => ⌜c = c₀⌝⦄ manager
    ⦃post⟨fun _ c => ⌜c = c₀⌝, fun f c => ⌜Dangling c₀ f c⌝⟩⦄ := by
  mvcgen [manager]
  all_goals simp_all [Dangling, SameLife]

@[spec] theorem requestEach_spec (endpoints : List String) (c₀ : Client) :
    ⦃fun c => ⌜c = c₀⌝⦄ requestEach endpoints
    ⦃post⟨fun _ c => ⌜c = c₀⌝, fun f c => ⌜Dangling c₀ f c⌝⟩⦄ := by
  induction endpoints with
  | nil => mvcgen [requestEach]
  | cons e rest ih =>
    mvcgen [requestEach, ih]
    all_goals simp_all

@[spec] theorem cancel_spec (id : UInt32) (c₀ : Client) :
    ⦃fun c => ⌜c = c₀⌝⦄ cancel id
    ⦃post⟨fun _ c => ⌜SameLife c₀ c⌝, fun f c => ⌜Dangling c₀ f c⌝⟩⦄ := by
  mvcgen [cancel]
  all_goals simp_all +zetaDelta [SameLife]

@[spec] theorem schedule_spec (id : UInt32) (name : TaskName) (c₀ : Client) :
    ⦃fun c => ⌜c = c₀⌝⦄ schedule id name
    ⦃post⟨fun _ c => ⌜c = { c₀ with tasks := insertTask c₀.tasks id name }⌝,
      fun f c => ⌜Dangling c₀ f c⌝⟩⦄ := by
  mvcgen [schedule]
  all_goals simp_all +zetaDelta

@[spec] theorem addClientObserver_spec (c₀ : Client) :
    ⦃fun c => ⌜c = c₀⌝⦄ addClientObserver
    ⦃post⟨fun _ c => ⌜c = { c₀ with observers := c₀.observers + 1 }⌝,
      fun f c => ⌜Dangling c₀ f c⌝⟩⦄ := by
  mvcgen [addClientObserver]
  all_goals simp_all +zetaDelta

@[spec] theorem ClientImpl.shutdown_spec (cfg : Config) (c₀ : Client) :
    ⦃fun c => ⌜c = c₀⌝⦄ ClientImpl.shutdown cfg
    ⦃post⟨fun _ c => ⌜c.state = .stopping ∧ c.past = c₀.state :: c₀.past⌝,
      fun f c => ⌜(c₀.clientManager = true → f ≠ .nullClientManager) ∧
        c.state = .stopping ∧ c.past = c₀.state :: c₀.past⌝⟩⦄ := by
  mvcgen [ClientImpl.shutdown, store, nameServerResolver]
  all_goals simp_all +zetaDelta [SameLife, Dangling]

@[spec] theorem PushConsumerImpl.shutdownServices_spec (c₀ : Client) :
    ⦃fun c => ⌜c = c₀⌝⦄ PushConsumerImpl.shutdownServices
    ⦃post⟨fun _ c => ⌜SameLife c₀ c⌝, fun f c => ⌜Dangling c₀ f c⌝⟩⦄ := by
  mvcgen [PushConsumerImpl.shutdownServices]
  all_goals simp_all +zetaDelta [SameLife]

theorem shutdown_spec (cfg : Config) (c₀ : Client) :
    ⦃fun c => ⌜c = c₀⌝⦄ shutdown cfg
    ⦃post⟨fun _ c => ⌜c.state = .stopped ∧ c.past = .stopping :: c₀.state :: c₀.past⌝,
      fun f c => ⌜(c₀.clientManager = true → f ≠ .nullClientManager) ∧
        (c.state = c₀.state ∧ c.past = c₀.past ∨
          c.state = .stopping ∧ c.past = c₀.state :: c₀.past)⌝⟩⦄ := by
  mvcgen [shutdown, ProducerImpl.shutdown, PullConsumerImpl.shutdown, PushConsumerImpl.shutdown,
    shutdownWith, compareExchange, store]
  all_goals simp_all +zetaDelta [SameLife, Dangling]

def Client.begun (c : Client) (input : StartInput) : Client :=
  { c with
    state := .started
    past := .starting :: .created :: c.past
    resolving := true
    clientManager := true
    exporter := true
    routeUpdateHandle := input.routeUpdateId
    tasks := insertTask c.tasks input.routeUpdateId .routeUpdater }

@[spec] theorem ClientImpl.start_spec (cfg : Config) (input : StartInput) (c₀ : Client) :
    ⦃fun c => ⌜c = c₀⌝⦄ ClientImpl.start cfg input
    ⦃post⟨fun _ c => ⌜c₀.state = .created ∧ cfg.nameServerResolver = true ∧ c = c₀.begun input ∨
        c₀.state ≠ .created ∧ c = c₀⌝,
      fun f c => ⌜f = .noNameServerResolver ∧ cfg.nameServerResolver = false ∧
        c₀.state = .created ∧ c.state = .starting ∧ c.past = .created :: c₀.past⌝⟩⦄ := by
  mvcgen [ClientImpl.start, compareExchange, store, nameServerResolver]
  all_goals simp_all +zetaDelta [Client.begun, Dangling]

structure Registered (c₀ c : Client) : Prop where
  state : c.state = .started
  past : c.past = c₀.past ∨ c.past = .started :: c₀.past
  clientManager : c.clientManager = c₀.clientManager
  observers : c.observers = c₀.observers + 1
  servicesCreated : c.servicesCreated ≤ c₀.servicesCreated + 1
  tasks : c.tasks = c₀.tasks ∨ ∃ id, c.tasks = insertTask c₀.tasks id .scanAssignment

@[spec] theorem replaceService_spec (listener : MessageListenerType) (c₀ : Client) :
    ⦃fun c => ⌜c = c₀⌝⦄ replaceService listener
    ⦃post⟨fun _ c => ⌜c = { c₀ with
          servicesCreated := c₀.servicesCreated + 1
          consumeMessageService := some (listener, .created) }⌝,
      fun f c => ⌜f = .joinableThreadDestroyed ∧ c₀.consumeMessageService ≠ none ∧
        SameLife c₀ c⌝⟩⦄ := by
  mvcgen [replaceService]
  all_goals simp_all +zetaDelta [SameLife]
  all_goals intro hnone
  all_goals simp_all

@[spec] theorem PushConsumerImpl.startServices_spec (cfg : Config) (input : StartInput)
    (c₀ : Client) (hstate : c₀.state = .started) :
    ⦃fun c => ⌜c = c₀⌝⦄ PushConsumerImpl.startServices cfg input
    ⦃post⟨fun _ c => ⌜Registered c₀ c ∧ cfg.messageListener ≠ none⌝,
      fun f c => ⌜SameLife c₀ c ∧ (f = .noMessageListener ∧ cfg.messageListener = none ∨
        f = .nullClientManager ∧ c₀.clientManager = false ∨
        f = .joinableThreadDestroyed ∧ c₀.consumeMessageService ≠ none)⌝⟩⦄ := by
  mvcgen [PushConsumerImpl.startServices, store]
  all_goals simp_all +zetaDelta [SameLife, Dangling]
  all_goals exact ⟨rfl, .inr rfl, rfl, rfl, le_rfl, .inr ⟨_, rfl⟩⟩

def ownStart (cfg : Config) (input : StartInput) : Action Unit :=
  match cfg.kind with
  | .producer | .pullConsumer => addClientObserver
  | .pushConsumer => PushConsumerImpl.startServices cfg input

theorem start_eq (cfg : Config) (input : StartInput) :
    start cfg input = startWith cfg input (ownStart cfg input) := by
  unfold start ownStart
  cases cfg.kind <;> rfl

@[spec] theorem ownStart_spec (cfg : Config) (input : StartInput) (c₀ : Client)
    (hstate : c₀.state = .started) :
    ⦃fun c => ⌜c = c₀⌝⦄ ownStart cfg input
    ⦃post⟨fun _ c => ⌜Registered c₀ c ∧
        (cfg.kind = .pushConsumer → cfg.messageListener ≠ none)⌝,
      fun f c => ⌜SameLife c₀ c ∧
        (cfg.kind = .pushConsumer ∧ f = .noMessageListener ∧ cfg.messageListener = none ∨
          f = .nullClientManager ∧ c₀.clientManager = false ∨
          f = .joinableThreadDestroyed ∧ c₀.consumeMessageService ≠ none)⌝⟩⦄ := by
  mvcgen [ownStart]
  all_goals simp_all [Dangling]
  all_goals intro heq
  all_goals subst heq
  all_goals exact ⟨rfl, .inl rfl, rfl, rfl, Nat.le_succ _, .inl rfl⟩

theorem start_created_spec (cfg : Config) (input : StartInput) (c₀ : Client)
    (hstate : c₀.state = .created) :
    ⦃fun c => ⌜c = c₀⌝⦄ start cfg input
    ⦃post⟨fun _ c => ⌜Registered (c₀.begun input) c ∧ cfg.Configured⌝,
      fun f c => ⌜f ≠ .nullClientManager ∧
        (c₀.consumeMessageService = none → ¬ cfg.Configured) ∧
        (c.state = .starting ∧ c.past = .created :: c₀.past ∨
          SameLife (c₀.begun input) c)⌝⟩⦄ := by
  rw [start_eq]
  mvcgen [startWith]
  all_goals simp_all [Config.Configured, Client.begun]
  intro _ hcause
  rcases hcause with ⟨hkind, hf, hnone⟩ | ⟨hf, hservice⟩
  · exact ⟨by simp [hf], fun _ => ⟨hkind, hnone⟩⟩
  · exact ⟨by simp [hf], fun hnone => absurd hnone hservice⟩

theorem start_started_spec (cfg : Config) (input : StartInput) (c₀ : Client)
    (hstate : c₀.state = .started) :
    ⦃fun c => ⌜c = c₀⌝⦄ start cfg input
    ⦃post⟨fun _ c => ⌜Registered c₀ c⌝,
      fun f c => ⌜SameLife c₀ c ∧ (c₀.clientManager = true → f ≠ .nullClientManager)⌝⟩⦄ := by
  rw [start_eq]
  mvcgen [startWith]
  all_goals simp_all
  intro _ hcause hmanager
  rcases hcause with ⟨-, hf, -⟩ | ⟨-, hnull⟩ | ⟨hf, -⟩
  · simp [hf]
  · simp [hmanager] at hnull
  · simp [hf]

theorem start_stopped_spec (cfg : Config) (input : StartInput) (c₀ : Client)
    (hstate : c₀.state = .stopped) :
    ⦃fun c => ⌜c = c₀⌝⦄ start cfg input
    ⦃post⟨fun _ c => ⌜c = c₀⌝, fun _ _ => ⌜False⌝⟩⦄ := by
  rw [start_eq]
  mvcgen [startWith]
  all_goals simp_all

theorem result_of_spec {m : Action Unit} {c₀ : Client} {Q : Client → Prop}
    {E : Fault → Client → Prop}
    (h : ⦃fun c => ⌜c = c₀⌝⦄ m ⦃post⟨fun _ c => ⌜Q c⌝, fun f c => ⌜E f c⌝⟩⦄) :
    (∃ c, m c₀ = .ok () c ∧ Q c) ∨ ∃ f c, m c₀ = .error f c ∧ E f c := by
  have hwp := h c₀ rfl
  simp only [wp, PredTrans.apply, EStateM.run] at hwp
  cases hm : m c₀ with
  | ok a c =>
    rw [hm] at hwp
    exact .inl ⟨c, rfl, hwp⟩
  | error f c =>
    rw [hm] at hwp
    exact .inr ⟨f, c, rfl, hwp⟩

def Client.fresh (cfg : Config) : Client := { consumeBatchSize := cfg.consumeBatchSize }

def starts (cfg : Config) : List StartInput → Action Unit
  | [] => pure ()
  | input :: rest => do
    start cfg input
    starts cfg rest

def Client.scheduled (c : Client) (name : TaskName) : ℕ := c.tasks.countP fun t => t.2 = name

def StartsOnce (cfg : Config) (first : StartInput) (more : List StartInput) : Prop :=
  ∀ c, start cfg first (.fresh cfg) = .ok () c →
    starts cfg (first :: more) (.fresh cfg) = .ok () c ∧ c.observers = 1 ∧
      c.servicesCreated ≤ 1 ∧ c.scheduled .scanAssignment ≤ 1 ∧ c.scheduled .routeUpdater ≤ 1

theorem starts_cons {cfg : Config} {input : StartInput} {rest : List StartInput} {c c₁ : Client}
    (h : start cfg input c = .ok () c₁) : starts cfg (input :: rest) c = starts cfg rest c₁ := by
  simp only [starts, bind, EStateM.bind, h]

theorem observers_starts {cfg : Config} {inputs : List StartInput} {c c' : Client}
    (hstate : c.state = .started) (h : starts cfg inputs c = .ok () c') :
    c'.observers = c.observers + inputs.length := by
  induction inputs generalizing c with
  | nil =>
    cases h
    rfl
  | cons input rest ih =>
    rcases result_of_spec (start_started_spec cfg input c hstate) with
      ⟨c₁, hstart, hreg⟩ | ⟨f, c₁, hstart, -⟩
    · rw [starts_cons hstart] at h
      rw [ih hreg.state h, hreg.observers, List.length_cons]
      omega
    · simp [starts, bind, EStateM.bind, hstart] at h

theorem Registered.scheduled_routeUpdater {c₀ c : Client} (h : Registered c₀ c) :
    c.scheduled .routeUpdater = c₀.scheduled .routeUpdater := by
  unfold Client.scheduled
  rcases h.tasks with heq | ⟨id, heq⟩
  · rw [heq]
  · rw [heq, insertTask]
    split
    · rfl
    · simp

theorem Registered.scheduled_scanAssignment {c₀ c : Client} (h : Registered c₀ c) :
    c.scheduled .scanAssignment ≤ c₀.scheduled .scanAssignment + 1 := by
  unfold Client.scheduled
  rcases h.tasks with heq | ⟨id, heq⟩
  · rw [heq]
    exact Nat.le_succ _
  · rw [heq, insertTask]
    split
    · exact Nat.le_succ _
    · simp

theorem startsOnce_iff (cfg : Config) (first : StartInput) (more : List StartInput) :
    StartsOnce cfg first more ↔ more = [] ∨ ¬ cfg.Configured := by
  rcases result_of_spec (start_created_spec cfg first (.fresh cfg) rfl) with
    ⟨c, hstart, hreg, hcfg⟩ | ⟨f, c, hstart, -, hcfg, -⟩
  · constructor
    · intro h
      left
      have hall := (h c hstart).1
      rw [starts_cons hstart] at hall
      have hobservers := observers_starts hreg.state hall
      exact List.length_eq_zero_iff.mp (by omega)
    · intro hwhen c' hc'
      rcases hwhen with hone | hno
      · obtain rfl : c = c' := by
          rw [hstart] at hc'
          cases hc'
          rfl
        subst hone
        refine ⟨starts_cons hstart, hreg.observers, hreg.servicesCreated,
          hreg.scheduled_scanAssignment, ?_⟩
        rw [hreg.scheduled_routeUpdater]
        rfl
      · exact absurd hcfg hno
  · refine iff_of_true (fun c' hc' => ?_) (.inr (hcfg rfl))
    rw [hstart] at hc'
    cases hc'

/-- A second `start` registers a producer and a pull consumer again. That of a push
consumer also creates a second service, and destroys the first with its thread running. -/
theorem second_start_repeats :
    (∃ c, starts { kind := .producer } [⟨1, 2, []⟩, ⟨3, 4, []⟩]
        (.fresh { kind := .producer }) = .ok () c ∧ c.observers = 2) ∧
      (∃ c, starts { kind := .pullConsumer } [⟨1, 2, []⟩, ⟨3, 4, []⟩]
        (.fresh { kind := .pullConsumer }) = .ok () c ∧ c.observers = 2) ∧
      ∃ c, starts { kind := .pushConsumer, messageListener := some .fifo }
        [⟨1, 2, []⟩, ⟨3, 4, []⟩]
        (.fresh { kind := .pushConsumer, messageListener := some .fifo }) =
          .error .joinableThreadDestroyed c ∧ c.observers = 2 ∧ c.servicesCreated = 2 :=
  ⟨⟨_, rfl, rfl⟩, ⟨_, rfl, rfl⟩, ⟨_, rfl, rfl, rfl⟩⟩

def Client.Forward (c : Client) : Prop :=
  (c.state :: c.past).IsChain fun later earlier => earlier.rank ≤ later.rank

structure Client.Settled (c : Client) : Prop where
  forward : c.Forward
  state : c.state = .created ∨ c.state = .started ∨ c.state = .stopped
  clientManager : c.state = .started → c.clientManager = true

structure Process where
  client : Client
  fault : Option Fault := none

def Process.of : EStateM.Result Fault Client Unit → Process
  | .ok _ c => ⟨c, none⟩
  | .error f c => ⟨c, some f⟩

inductive Event
  | start (input : StartInput)
  | shutdown
  | routesUpdated (endpoints : List String)
  | queuesAssigned (queues : List MQMessageQueue)

def Event.perform (cfg : Config) : Event → Action Unit
  | .start input => LifeCycle.start cfg input
  | .shutdown => LifeCycle.shutdown cfg
  | .routesUpdated endpoints => modify fun c => { c with endpoints := endpoints }
  | .queuesAssigned queues => modify fun c => { c with processQueueTable := queues }

def machine (cfg : Config) : Machine Process Event where
  init := ⟨.fresh cfg, none⟩
  step := fun p e => match p.fault with
    | none => some (.of (e.perform cfg p.client))
    | some _ => none

/-- What is asked of one step: `state_` has only moved forward, the step does not
dereference a null `client_manager_`, and a `shutdown` of a client that was never
started or is stopped already changes nothing but the record of its past. -/
structure Orderly (cfg : Config) (p : Process) (e : Event) : Prop where
  forward : (Process.of (e.perform cfg p.client)).client.Forward
  clientManager : (Process.of (e.perform cfg p.client)).fault ≠ some .nullClientManager
  idle : e = .shutdown → p.client.state = .created ∨ p.client.state = .stopped →
    ∃ past, e.perform cfg p.client = .ok () { p.client with past := past }

def StopsStarted (p : Process) : Event → Prop
  | .shutdown => p.client.state = .started
  | _ => True

def Proceeds (m : Action Unit) (c : Client) : Prop :=
  (∃ c', m c = .ok () c' ∧ c'.Settled) ∨
    ∃ f c', m c = .error f c' ∧ c'.Forward ∧ f ≠ .nullClientManager

theorem Registered.settled {c₀ c : Client} (h : Registered c₀ c) (hstate : c₀.state = .started)
    (hmanager : c₀.clientManager = true) (hforward : c₀.Forward) : c.Settled := by
  refine ⟨?_, .inr (.inl h.state), fun _ => h.clientManager.trans hmanager⟩
  unfold Client.Forward at hforward ⊢
  rw [hstate] at hforward
  rcases h.past with hpast | hpast
  · rw [h.state, hpast]
    exact hforward
  · rw [h.state, hpast]
    exact .cons_cons le_rfl hforward

theorem SameLife.forward {c₀ c : Client} (h : SameLife c₀ c) (hforward : c₀.Forward) :
    c.Forward := by
  unfold Client.Forward at hforward ⊢
  rw [h.1, h.2.1]
  exact hforward

theorem begun_forward {c : Client} (input : StartInput) (hstate : c.state = .created)
    (hforward : c.Forward) : (c.begun input).Forward := by
  unfold Client.Forward at hforward ⊢
  rw [hstate] at hforward
  exact .cons_cons (by simp [Client.begun, LifeState.rank]) (.cons_cons (by decide) hforward)

theorem start_proceeds (cfg : Config) (input : StartInput) {c : Client} (h : c.Settled) :
    Proceeds (start cfg input) c := by
  rcases h.state with hstate | hstate | hstate
  · have hbegun := begun_forward input hstate h.forward
    rcases result_of_spec (start_created_spec cfg input c hstate) with
      ⟨c', hstart, hreg, -⟩ | ⟨f, c', hstart, hf, -, hlife⟩
    · exact .inl ⟨c', hstart, hreg.settled rfl rfl hbegun⟩
    · refine .inr ⟨f, c', hstart, ?_, hf⟩
      rcases hlife with ⟨hs, hp⟩ | hsame
      · have hforward := h.forward
        unfold Client.Forward at hforward ⊢
        rw [hstate] at hforward
        rw [hs, hp]
        exact .cons_cons (by decide) hforward
      · exact hsame.forward hbegun
  · rcases result_of_spec (start_started_spec cfg input c hstate) with
      ⟨c', hstart, hreg⟩ | ⟨f, c', hstart, hsame, hf⟩
    · exact .inl ⟨c', hstart, hreg.settled hstate (h.clientManager hstate) h.forward⟩
    · exact .inr ⟨f, c', hstart, hsame.forward h.forward, hf (h.clientManager hstate)⟩
  · rcases result_of_spec (start_stopped_spec cfg input c hstate) with
      ⟨c', hstart, rfl⟩ | ⟨f, c', -, hfalse⟩
    · exact .inl ⟨c', hstart, h⟩
    · exact hfalse.elim

theorem shutdown_proceeds (cfg : Config) {c : Client} (h : c.Settled)
    (hstate : c.state = .started) : Proceeds (shutdown cfg) c := by
  have hforward := h.forward
  unfold Client.Forward at hforward
  rw [hstate] at hforward
  rcases result_of_spec (shutdown_spec cfg c) with
    ⟨c', hdone, hs, hp⟩ | ⟨f, c', hdone, hf, hlife⟩
  · rw [hstate] at hp
    refine .inl ⟨c', hdone, ?_, .inr (.inr hs), fun hne => by simp [hs] at hne⟩
    unfold Client.Forward
    rw [hs, hp]
    exact .cons_cons (by decide) (.cons_cons (by decide) hforward)
  · refine .inr ⟨f, c', hdone, ?_, hf (h.clientManager hstate)⟩
    unfold Client.Forward
    rcases hlife with ⟨hs, hp⟩ | ⟨hs, hp⟩
    · rw [hs, hp, hstate]
      exact hforward
    · rw [hs, hp, hstate]
      exact .cons_cons (by decide) hforward

theorem perform_proceeds (cfg : Config) {p : Process} {e : Event} (h : p.client.Settled)
    (hok : StopsStarted p e) : Proceeds (e.perform cfg) p.client := by
  cases e with
  | start input => exact start_proceeds cfg input h
  | shutdown => exact shutdown_proceeds cfg h hok
  | routesUpdated endpoints => exact .inl ⟨_, rfl, h.forward, h.state, h.clientManager⟩
  | queuesAssigned queues => exact .inl ⟨_, rfl, h.forward, h.state, h.clientManager⟩

theorem orderly_iff_stopsStarted (cfg : Config) {p : Process} (e : Event)
    (h : p.client.Settled) : Orderly cfg p e ↔ StopsStarted p e := by
  constructor
  · intro ho
    cases e with
    | shutdown =>
      rcases h.state with hstate | hstate | hstate
      · obtain ⟨past, hsame⟩ := ho.idle rfl (.inl hstate)
        rcases result_of_spec (shutdown_spec cfg p.client) with
          ⟨c', hdone, hs, -⟩ | ⟨f, c', hdone, -⟩
        · rw [Event.perform, hdone] at hsame
          cases hsame
          simp [hstate] at hs
        · rw [Event.perform, hdone] at hsame
          cases hsame
      · exact hstate
      · -- `STOPPING` is stored over `STOPPED`
        have hforward := ho.forward
        obtain ⟨past, hsame⟩ := ho.idle rfl (.inr hstate)
        rcases result_of_spec (shutdown_spec cfg p.client) with
          ⟨c', hdone, hs, hp⟩ | ⟨f, c', hdone, -⟩
        · rw [Event.perform, hdone, Process.of, Client.Forward, hs, hp, hstate] at hforward
          simp [LifeState.rank] at hforward
        · rw [Event.perform, hdone] at hsame
          cases hsame
    | start => trivial
    | routesUpdated => trivial
    | queuesAssigned => trivial
  · intro hok
    have hidle : e = .shutdown → ¬ (p.client.state = .created ∨ p.client.state = .stopped) := by
      intro he hs
      subst he
      rcases hs with hs | hs
      · simp [StopsStarted, hs] at hok
      · simp [StopsStarted, hs] at hok
    rcases perform_proceeds cfg h hok with ⟨c', hdone, hsettled⟩ | ⟨f, c', hdone, hforward, hf⟩
    · refine ⟨?_, ?_, fun he hs => absurd hs (hidle he)⟩
      · rw [hdone]
        exact hsettled.forward
      · rw [hdone]
        nofun
    · refine ⟨?_, ?_, fun he hs => absurd hs (hidle he)⟩
      · rw [hdone]
        exact hforward
      · rw [hdone]
        simpa [Process.of] using hf

/-- The runs of which every step is orderly are those in which every `shutdown` finds the
client `STARTED`. -/
theorem lifeCycle_orderly_iff (cfg : Config) (es : List Event) :
    (machine cfg).Guarded (Orderly cfg) (machine cfg).init es ↔
      (machine cfg).Guarded StopsStarted (machine cfg).init es := by
  have hsettled : (Client.fresh cfg).Settled := ⟨.singleton _, .inl rfl, nofun⟩
  refine guarded_congr (J := fun p => p.fault = none → p.client.Settled) _
    (fun p e q hJ hstep => ?_) (fun p e q hJ hok hstep hfault => ?_) es (fun _ => hsettled)
  · cases hp : p.fault with
    | none => exact orderly_iff_stopsStarted cfg e (hJ hp)
    | some f => simp [machine, hp] at hstep
  · cases hp : p.fault with
    | none =>
      simp only [machine, hp, Option.some.injEq] at hstep
      subst hstep
      rcases perform_proceeds cfg (hJ hp) hok with ⟨c', hdone, hc'⟩ | ⟨f, c', hdone, -⟩
      · rw [hdone]
        exact hc'
      · rw [hdone] at hfault
        cases hfault
    | some f => simp [machine, hp] at hstep

/-- The second `shutdown` of a started client stores `STOPPING` over `STOPPED` and uses
the pointer that the first has reset. The `shutdown` of a new client makes it `STOPPED`. -/
theorem shutdown_not_orderly :
    (∃ p, (machine { kind := .producer }).run [.start ⟨1, 2, []⟩, .shutdown, .shutdown] = some p ∧
        p.fault = some .nullClientManager ∧ p.client.past.head? = some .stopped) ∧
      (∃ p, (machine { kind := .pushConsumer, messageListener := some .standard }).run
          [.start ⟨1, 2, []⟩, .shutdown, .shutdown] = some p ∧
        p.fault = some .nullClientManager) ∧
      ∃ p, (machine { kind := .pullConsumer }).run [.shutdown] = some p ∧
        p.fault = none ∧ p.client.state = .stopped :=
  ⟨⟨_, rfl, rfl, rfl⟩, ⟨_, rfl, rfl⟩, _, rfl, rfl, rfl⟩

end LifeCycle
end RocketMQClient
