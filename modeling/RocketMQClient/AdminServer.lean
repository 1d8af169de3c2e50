import RocketMQClient.Library.EventMachine
import RocketMQClient.Library.Pending
import Mathlib.Tactic.Common

/-!
# The admin server

The factory of the client managers starts a server that changes the level of the log, and stops
it as it is destroyed. A `ServerCall` is handed to the completion queue as the tag of its
operation: first of the wait for a request, then of the response. The loop takes completed
operations off the queue and lets their calls go on, until it takes one that has failed. A
response fails when its client has gone, and a wait for a request when the server is shut down.

`stop` shuts the server down, which returns when every request that has come is answered and the
responses are sent. Then it shuts down the queue, and takes what is left there off it together
with the loop, without looking at it. The loop also ends when it finds that queue empty.
-/

namespace RocketMQClient.AdminServer
open EventMachine EventMachine.Machine Pending

inductive Level
  | trace
  | debug
  | info
  | warn
  | error
  | unrecognized
  deriving DecidableEq, Repr

inductive SpdlogLevel
  | trace
  | debug
  | info
  | warn
  | err
  deriving DecidableEq, Repr

inductive Status
  | ok
  | internal (message : String)
  deriving DecidableEq, Repr

structure Response where
  status : Status
  remark : String := ""
  deriving DecidableEq, Repr

def Level.spdlog : Level → SpdlogLevel
  | .trace => .trace
  | .debug => .debug
  | .info => .info
  | .warn => .warn
  | .error => .err
  | .unrecognized => .info

def applyChange (logger : Option SpdlogLevel) (level : Level) : Status × Option SpdlogLevel :=
  match logger with
  | none => (.internal "rocketmq_logger is not registered", none)
  | some _ => (.ok, some level.spdlog)

def changeLogLevel (logger : Option SpdlogLevel) (level : Level) :
    Response × Option SpdlogLevel :=
  let (status, logger) := applyChange logger level
  (if status = .ok then ⟨status, "OK"⟩ else ⟨status, ""⟩, logger)

inductive ServerCallStatus
  | create
  | process
  | finish
  deriving DecidableEq, Repr

structure ServerCall where
  id : ℕ
  status : ServerCallStatus := .create
  request : Level := .trace
  deriving DecidableEq, Repr

inductive Phase
  | started
  | stopping
  | queueShutDown
  deriving DecidableEq, Repr

/-- `requesting` and `finishing` are the calls whose operation is going on. `dropped` is the
call whose failed operation ended the loop, and `drained` are those that `stop` has taken off
the queue. -/
structure State where
  logger : Option SpdlogLevel
  phase : Phase := .started
  made : ℕ := 0
  requesting : List ServerCall := []
  finishing : List ServerCall := []
  completionQueue : List (ServerCall × Bool) := []
  looping : Bool := true
  deleted : List ℕ := []
  dropped : List ℕ := []
  drained : List ℕ := []
  accepted : List (ℕ × Level) := []
  answers : List (ℕ × Level × Response) := []
  deriving DecidableEq, Repr

inductive Event
  | request (i : ℕ) (level : Level)
  | finished (i : ℕ) (ok : Bool)
  | next (i : ℕ)
  | exitLoop
  | register (level : SpdlogLevel)
  | stop
  | shutDownQueue
  | drain (i : ℕ)
  deriving DecidableEq, Repr

/-- A call that is made proceeds at once to wait for a request. The wait fails if the server is
shut down. -/
def newServerCall (s : State) : State :=
  let call : ServerCall := { id := s.made, status := .process }
  if s.phase = .started then
    { s with made := s.made + 1, requesting := s.requesting ++ [call] }
  else { s with made := s.made + 1, completionQueue := s.completionQueue ++ [(call, false)] }

def proceed (s : State) (call : ServerCall) : State :=
  match call.status with
  | .create => { s with requesting := s.requesting ++ [{ call with status := .process }] }
  | .process =>
    let s := newServerCall s
    let (response, logger) := changeLogLevel s.logger call.request
    { s with
      logger := logger
      finishing := s.finishing ++ [{ call with status := .finish }]
      answers := s.answers ++ [(call.id, call.request, response)] }
  | .finish => { s with deleted := s.deleted ++ [call.id] }

def next (s : State) (call : ServerCall) (ok : Bool) : State :=
  if ok then proceed s call
  else { s with looping := false, dropped := s.dropped ++ [call.id] }

def accept (s : State) (call : ServerCall) (rest : List ServerCall) (level : Level) : State :=
  { s with
    requesting := rest
    completionQueue := s.completionQueue ++ [({ call with request := level }, true)]
    accepted := s.accepted ++ [(call.id, level)] }

def requestOf (p : ServerCall × Bool) : Option (ℕ × Level) :=
  if p.1.status = .process ∧ p.2 = true then some (p.1.id, p.1.request) else none

def waiting (s : State) : List (ℕ × Level) := s.completionQueue.filterMap requestOf

def stop (s : State) : State :=
  { s with
    phase := .stopping
    requesting := []
    completionQueue := s.completionQueue ++ s.requesting.map fun call => (call, false) }

def step (s : State) : Event → Option State
  | .request i level => (pick s.requesting i).map fun (call, rest) => accept s call rest level
  | .finished i ok => (pick s.finishing i).map fun (call, rest) =>
      { s with
        finishing := rest
        completionQueue := s.completionQueue ++ [(call, ok)] }
  | .next i =>
    if s.looping then
      (pick s.completionQueue i).map fun ((call, ok), rest) =>
        next { s with completionQueue := rest } call ok
    else none
  | .exitLoop =>
    if s.looping ∧ s.phase = .queueShutDown ∧ s.completionQueue = [] then
      some { s with looping := false }
    else none
  | .register level => some { s with logger := some level }
  | .stop => if s.phase = .started then some (stop s) else none
  | .shutDownQueue =>
    if s.phase = .stopping ∧ s.finishing = [] ∧ waiting s = [] then
      some { s with phase := .queueShutDown }
    else none
  | .drain i =>
    if s.phase = .queueShutDown then
      (pick s.completionQueue i).map fun ((call, _), rest) =>
        { s with completionQueue := rest, drained := s.drained ++ [call.id] }
    else none

def machine (logger : Option SpdlogLevel) : Machine State Event where
  init := newServerCall { logger := logger }
  step := step

def ids (s : State) : List ℕ :=
  s.requesting.map ServerCall.id ++ s.finishing.map ServerCall.id ++
    s.completionQueue.map (fun p => p.1.id) ++ s.deleted ++ s.dropped ++ s.drained

def answered (s : State) : List (ℕ × Level) := s.answers.map fun a => (a.1, a.2.1)

inductive Stepped (s : State) : Event → State → Prop
  | request {i : ℕ} {level : Level} {call : ServerCall} {rest : List ServerCall}
      (hpick : s.requesting.Perm (call :: rest)) :
      Stepped s (.request i level) (accept s call rest level)
  | finished {i : ℕ} {ok : Bool} {call : ServerCall} {rest : List ServerCall}
      (hpick : s.finishing.Perm (call :: rest)) :
      Stepped s (.finished i ok) { s with
        finishing := rest
        completionQueue := s.completionQueue ++ [(call, ok)] }
  | answer {i : ℕ} {call : ServerCall} {rest : List (ServerCall × Bool)} {response : Response}
      {logger : Option SpdlogLevel} (hlooping : s.looping = true)
      (hpick : s.completionQueue.Perm ((call, true) :: rest)) (hstatus : call.status = .process) :
      Stepped s (.next i) { newServerCall { s with completionQueue := rest } with
        logger := logger
        finishing := s.finishing ++ [{ call with status := .finish }]
        answers := s.answers ++ [(call.id, call.request, response)] }
  | delete {i : ℕ} {call : ServerCall} {rest : List (ServerCall × Bool)}
      (hlooping : s.looping = true) (hpick : s.completionQueue.Perm ((call, true) :: rest))
      (hstatus : call.status = .finish) :
      Stepped s (.next i) { s with
        completionQueue := rest
        deleted := s.deleted ++ [call.id] }
  | drop {i : ℕ} {call : ServerCall} {rest : List (ServerCall × Bool)}
      (hlooping : s.looping = true) (hpick : s.completionQueue.Perm ((call, false) :: rest)) :
      Stepped s (.next i) { s with
        completionQueue := rest
        looping := false
        dropped := s.dropped ++ [call.id] }
  | exitLoop (hphase : s.phase = .queueShutDown) :
      Stepped s .exitLoop { s with looping := false }
  | register (level : SpdlogLevel) : Stepped s (.register level) { s with logger := some level }
  | stop (hphase : s.phase = .started) : Stepped s .stop (stop s)
  | shutDownQueue (hphase : s.phase = .stopping) (hwaiting : waiting s = []) :
      Stepped s .shutDownQueue { s with phase := .queueShutDown }
  | drain {i : ℕ} {call : ServerCall} {ok : Bool} {rest : List (ServerCall × Bool)}
      (hphase : s.phase = .queueShutDown) (hpick : s.completionQueue.Perm ((call, ok) :: rest)) :
      Stepped s (.drain i) { s with
        completionQueue := rest
        drained := s.drained ++ [call.id] }

/-- How many calls are ready for a request, or have one. -/
structure Ready (s : State) : Prop where
  started : s.phase = .started → s.requesting.length + (waiting s).length = 1
  stopping : s.phase ≠ .started → s.requesting = []
  shutDown : s.phase = .queueShutDown → waiting s = []

structure Lawful (s : State) : Prop where
  requesting : ∀ c ∈ s.requesting, c.status = .process
  finishing : ∀ c ∈ s.finishing, c.status = .finish
  queued : ∀ p ∈ s.completionQueue, p.1.status = .finish ∨ p.1.status = .process
  ready : Ready s
  accepted : s.accepted.Perm (answered s ++ waiting s)
  looping : s.looping = true → s.dropped = []
  ended : s.looping = false → s.dropped ≠ [] ∨ s.phase = .queueShutDown

variable {s t : State} {e : Event}

@[simp] theorem newServerCall_made (s : State) : (newServerCall s).made = s.made + 1 := by
  unfold newServerCall
  split <;> rfl

@[simp] theorem newServerCall_finishing (s : State) :
    (newServerCall s).finishing = s.finishing := by
  unfold newServerCall
  split <;> rfl

@[simp] theorem newServerCall_answers (s : State) : (newServerCall s).answers = s.answers := by
  unfold newServerCall
  split <;> rfl

theorem Lawful.stepped_next {i : ℕ} (h : Lawful s) (hs : step s (.next i) = some t) :
    Stepped s (.next i) t := by
  simp only [step] at hs
  split_ifs at hs with hlooping
  obtain ⟨⟨⟨call, ok⟩, rest⟩, hpick, rfl⟩ := Option.map_eq_some_iff.mp hs
  have hperm := pick_perm hpick
  cases ok with
  | false => exact .drop hlooping hperm
  | true =>
    simp only [AdminServer.next, if_true]
    obtain hstatus | hstatus := h.queued _ (mem_of_pick hpick)
    · simp only at hstatus
      simp only [proceed, hstatus]
      exact .delete hlooping hperm hstatus
    · simp only at hstatus
      simp only [proceed, hstatus, newServerCall_finishing, newServerCall_answers]
      exact .answer hlooping hperm hstatus

theorem Lawful.stepped (h : Lawful s) (hs : step s e = some t) : Stepped s e t := by
  cases e with
  | request i level =>
    obtain ⟨⟨call, rest⟩, hpick, rfl⟩ := Option.map_eq_some_iff.mp hs
    exact .request (pick_perm hpick)
  | finished i ok =>
    obtain ⟨⟨call, rest⟩, hpick, rfl⟩ := Option.map_eq_some_iff.mp hs
    exact .finished (pick_perm hpick)
  | next i => exact h.stepped_next hs
  | exitLoop =>
    obtain ⟨⟨-, hphase, -⟩, heq⟩ := Option.ite_none_right_eq_some.mp hs
    cases heq
    exact .exitLoop hphase
  | register level =>
    cases hs
    exact .register level
  | stop =>
    obtain ⟨hphase, heq⟩ := Option.ite_none_right_eq_some.mp hs
    cases heq
    exact .stop hphase
  | shutDownQueue =>
    obtain ⟨⟨hphase, -, hwaiting⟩, heq⟩ := Option.ite_none_right_eq_some.mp hs
    cases heq
    exact .shutDownQueue hphase hwaiting
  | drain i =>
    obtain ⟨hphase, heq⟩ := Option.ite_none_right_eq_some.mp hs
    obtain ⟨⟨⟨call, ok⟩, rest⟩, hpick, rfl⟩ := Option.map_eq_some_iff.mp heq
    exact .drain hphase (pick_perm hpick)

theorem count_ids (s : State) (x : ℕ) : (ids s).count x =
    (s.requesting.map ServerCall.id).count x + (s.finishing.map ServerCall.id).count x +
      (s.completionQueue.map fun p => p.1.id).count x + s.deleted.count x + s.dropped.count x +
      s.drained.count x := by
  simp [ids, Nat.add_assoc]

theorem count_newServerCall (s : State) (x : ℕ) :
    (ids (newServerCall s)).count x = (ids s).count x + [s.made].count x := by
  unfold newServerCall
  split
  · simp only [count_ids, List.map_append, List.map_cons, List.map_nil, List.count_append]
    omega
  · simp only [count_ids, List.map_append, List.map_cons, List.map_nil, List.count_append]
    omega

theorem Stepped.made_le (hs : Stepped s e t) : s.made ≤ t.made := by
  cases hs with
  | answer => simp
  | _ => exact Nat.le_refl _

theorem Stepped.count_ids (hs : Stepped s e t) (x : ℕ) :
    (ids t).count x = (ids s).count x + (List.range' s.made (t.made - s.made)).count x := by
  cases hs with
  | request hpick | finished hpick =>
    have hcount := (hpick.map ServerCall.id).count_eq x
    simp only [AdminServer.count_ids, accept, List.map_append, List.map_cons, List.map_nil,
      List.count_append, List.count_cons, List.count_nil, Nat.sub_self, List.range'_zero]
      at hcount ⊢
    omega
  | @answer i call rest _ _ hlooping hpick hstatus =>
    have hcount := (hpick.map fun p => p.1.id).count_eq x
    have hnew := count_newServerCall { s with completionQueue := rest } x
    simp only [newServerCall_made, Nat.add_sub_cancel_left, List.range'_one]
    simp only [AdminServer.count_ids, newServerCall_finishing, List.map_append, List.map_cons,
      List.map_nil, List.count_append, List.count_cons, List.count_nil] at hcount hnew ⊢
    omega
  | delete _ hpick _ | drop _ hpick | drain _ hpick =>
    have hcount := (hpick.map fun p => p.1.id).count_eq x
    simp only [AdminServer.count_ids, List.map_cons, List.count_append, List.count_cons,
      List.count_nil, Nat.sub_self, List.range'_zero] at hcount ⊢
    omega
  | stop hphase =>
    have hfailed : (s.requesting.map fun call => (call, false)).map (fun p => p.1.id) =
        s.requesting.map ServerCall.id := by simp
    simp only [AdminServer.count_ids, AdminServer.stop, List.map_append, List.count_append, hfailed,
      List.map_nil, List.count_nil, Nat.sub_self, List.range'_zero]
    omega
  | exitLoop | register | shutDownQueue => simp [AdminServer.count_ids]

theorem waiting_of_request {p : ServerCall × Bool} {rest : List (ServerCall × Bool)}
    {r : ℕ × Level} (hpick : s.completionQueue.Perm (p :: rest)) (hp : requestOf p = some r) :
    (waiting s).Perm (r :: rest.filterMap requestOf) := by
  rw [← List.filterMap_cons_some hp]
  exact hpick.filterMap requestOf

theorem waiting_of_other {p : ServerCall × Bool} {rest : List (ServerCall × Bool)}
    (hpick : s.completionQueue.Perm (p :: rest)) (hp : requestOf p = none) :
    (waiting s).Perm (rest.filterMap requestOf) := by
  rw [← List.filterMap_cons_none hp]
  exact hpick.filterMap requestOf

theorem Ready.congr (h : Ready s) (hphase : t.phase = s.phase)
    (hrequesting : t.requesting = s.requesting) (hwaiting : (waiting t).Perm (waiting s)) :
    Ready t := by
  refine ⟨fun hp => ?_, fun hp => ?_, fun hp => ?_⟩
  · rw [hrequesting, hwaiting.length_eq]
    exact h.started (hphase ▸ hp)
  · rw [hrequesting]
    exact h.stopping (hphase ▸ hp)
  · have hnil := h.shutDown (hphase ▸ hp)
    rw [hnil] at hwaiting
    exact hwaiting.eq_nil

theorem Lawful.request (h : Lawful s) {call : ServerCall} {rest : List ServerCall}
    (hpick : s.requesting.Perm (call :: rest)) (level : Level) :
    Lawful (accept s call rest level) := by
  have hcall : call.status = .process := h.requesting call (hpick.mem_iff.mpr (by simp))
  have hphase : s.phase = .started := by
    by_contra hnot
    have hlen := hpick.length_eq
    simp [h.ready.stopping hnot] at hlen
  have hwaiting : waiting (accept s call rest level) = waiting s ++ [(call.id, level)] := by
    simp [waiting, accept, requestOf, hcall]
  refine ⟨?_, h.finishing, ?_, ⟨fun _ => ?_, fun hnot => absurd hphase hnot, fun hshut => ?_⟩, ?_,
    h.looping, h.ended⟩
  · intro c hc
    exact h.requesting c (hpick.mem_iff.mpr (List.mem_cons_of_mem _ hc))
  · intro p hp
    obtain hold | hlast := List.mem_append.mp hp
    · exact h.queued p hold
    · rw [List.mem_singleton.mp hlast]
      exact Or.inr hcall
  · have hone := h.ready.started hphase
    have hlen := hpick.length_eq
    rw [List.length_cons] at hlen
    rw [hwaiting, List.length_append, List.length_singleton]
    simp only [accept]
    omega
  · simp [accept, hphase] at hshut
  · rw [hwaiting, ← List.append_assoc]
    exact h.accepted.append_right _

theorem Lawful.finished (h : Lawful s) {call : ServerCall} {rest : List ServerCall}
    (hpick : s.finishing.Perm (call :: rest)) (ok : Bool) :
    Lawful { s with
      finishing := rest
      completionQueue := s.completionQueue ++ [(call, ok)] } := by
  have hcall : call.status = .finish := h.finishing call (hpick.mem_iff.mpr (by simp))
  have hwaiting : waiting { s with
      finishing := rest
      completionQueue := s.completionQueue ++ [(call, ok)] } = waiting s := by
    simp [waiting, requestOf, hcall]
  refine ⟨h.requesting, ?_, ?_, h.ready.congr rfl rfl (.of_eq hwaiting), ?_, h.looping, h.ended⟩
  · intro c hc
    exact h.finishing c (hpick.mem_iff.mpr (List.mem_cons_of_mem _ hc))
  · intro p hp
    obtain hold | hlast := List.mem_append.mp hp
    · exact h.queued p hold
    · rw [List.mem_singleton.mp hlast]
      exact Or.inl hcall
  · rw [hwaiting]
    exact h.accepted

theorem Lawful.answer (h : Lawful s) {call : ServerCall} {rest : List (ServerCall × Bool)}
    (hpick : s.completionQueue.Perm ((call, true) :: rest)) (hstatus : call.status = .process)
    (response : Response) (logger : Option SpdlogLevel) :
    Lawful { newServerCall { s with completionQueue := rest } with
      logger := logger
      finishing := s.finishing ++ [{ call with status := .finish }]
      answers := s.answers ++ [(call.id, call.request, response)] } := by
  have hold : requestOf (call, true) = some (call.id, call.request) := by
    simp [requestOf, hstatus]
  have hwaiting := waiting_of_request hpick hold
  have hqueued : ∀ p ∈ rest, p.1.status = .finish ∨ p.1.status = .process :=
    fun p hp => h.queued p (hpick.mem_iff.mpr (List.mem_cons_of_mem _ hp))
  have hfinishing : ∀ c ∈ s.finishing ++ [{ call with status := .finish }],
      c.status = .finish := by
    intro c hc
    obtain hc | hc := List.mem_append.mp hc
    · exact h.finishing c hc
    · rw [List.mem_singleton.mp hc]
  have haccepted := h.accepted.trans (hwaiting.append_left _)
  unfold newServerCall
  split
  case isTrue hphase =>
    change s.phase = .started at hphase
    refine ⟨?_, hfinishing, hqueued, ⟨fun _ => ?_, fun hne => absurd hphase hne, fun hshut => ?_⟩,
      ?_, h.looping, h.ended⟩
    · intro c hc
      obtain hc | hc := List.mem_append.mp hc
      · exact h.requesting c hc
      · rw [List.mem_singleton.mp hc]
    · have hone := h.ready.started hphase
      have hlen := hwaiting.length_eq
      simp only [waiting, List.length_append, List.length_cons, List.length_nil] at hlen hone ⊢
      omega
    · simp [hphase] at hshut
    · simpa [answered, waiting] using haccepted
  case isFalse hphase =>
    have hnot : s.phase ≠ .queueShutDown := by
      intro hshut
      simp [h.ready.shutDown hshut] at hwaiting
    refine ⟨h.requesting, hfinishing, ?_, ⟨fun hp => absurd hp hphase,
      fun _ => h.ready.stopping hphase, fun hshut => absurd hshut hnot⟩, ?_, h.looping, h.ended⟩
    · intro p hp
      obtain hp | hp := List.mem_append.mp hp
      · exact hqueued p hp
      · rw [List.mem_singleton.mp hp]
        exact Or.inr rfl
    · simpa [answered, waiting, requestOf] using haccepted

theorem Lawful.take (h : Lawful s) {p : ServerCall × Bool} {rest : List (ServerCall × Bool)}
    (hpick : s.completionQueue.Perm (p :: rest)) (hp : requestOf p = none) :
    Lawful { s with completionQueue := rest } := by
  have hwaiting := waiting_of_other hpick hp
  refine ⟨h.requesting, h.finishing, fun q hq => ?_, h.ready.congr rfl rfl hwaiting.symm, ?_,
    h.looping, h.ended⟩
  · exact h.queued q (hpick.mem_iff.mpr (List.mem_cons_of_mem _ hq))
  · exact h.accepted.trans (hwaiting.append_left _)

theorem Lawful.stop (h : Lawful s) (hphase : s.phase = .started) : Lawful (stop s) := by
  have hwaiting : waiting (AdminServer.stop s) = waiting s := by
    simp [waiting, AdminServer.stop, List.filterMap_map, requestOf, Function.comp_def]
  refine ⟨by simp [AdminServer.stop], h.finishing, ?_, ⟨?_, fun _ => rfl, ?_⟩, ?_, h.looping,
    fun hl => (h.ended hl).imp_right fun hshut => ?_⟩
  · intro p hp
    obtain hold | hfailed := List.mem_append.mp hp
    · exact h.queued p hold
    · obtain ⟨c, hc, rfl⟩ := List.mem_map.mp hfailed
      exact Or.inr (h.requesting c hc)
  · simp [AdminServer.stop]
  · simp [AdminServer.stop]
  · rw [hwaiting]
    exact h.accepted
  · simp [hphase] at hshut

theorem Lawful.others (h : Lawful s) (logger : Option SpdlogLevel) (deleted drained : List ℕ)
    {looping : Bool} {dropped : List ℕ} (hlooping : looping = true → dropped = [])
    (hended : looping = false → dropped ≠ [] ∨ s.phase = .queueShutDown) :
    Lawful { s with
      logger := logger, looping := looping, deleted := deleted, dropped := dropped
      drained := drained } :=
  ⟨h.requesting, h.finishing, h.queued, h.ready.congr rfl rfl (.refl _), h.accepted, hlooping,
    hended⟩

theorem Lawful.step (h : Lawful s) (hs : Stepped s e t) : Lawful t := by
  cases hs with
  | request hpick => exact h.request hpick _
  | finished hpick => exact h.finished hpick _
  | answer _ hpick hstatus => exact h.answer hpick hstatus _ _
  | delete _ hpick hstatus =>
    have hrest := h.take hpick (by simp [requestOf, hstatus])
    exact hrest.others _ _ _ hrest.looping hrest.ended
  | drop _ hpick =>
    have hrest := h.take hpick (by simp [requestOf])
    exact hrest.others _ _ _ (by simp) (by simp)
  | exitLoop hphase => exact h.others _ _ _ (by simp) fun _ => .inr hphase
  | register => exact h.others _ _ _ h.looping h.ended
  | stop hphase => exact h.stop hphase
  | shutDownQueue hphase hwaiting =>
    have hnot : s.phase ≠ .started := by simp [hphase]
    exact ⟨h.requesting, h.finishing, h.queued, ⟨by simp, fun _ => h.ready.stopping hnot,
      fun _ => hwaiting⟩, h.accepted, h.looping, fun _ => .inr rfl⟩
  | @drain i call ok rest hphase hpick =>
    have hnone : requestOf (call, ok) = none :=
      List.filterMap_eq_nil_iff.mp (h.ready.shutDown hphase) _ (hpick.mem_iff.mpr (by simp))
    have hrest := h.take hpick hnone
    exact hrest.others _ _ _ hrest.looping hrest.ended

structure Inv (s : State) : Prop extends Lawful s where
  ids : (ids s).Perm (List.range s.made)

theorem Inv.step (h : Inv s) (hs : Stepped s e t) : Inv t :=
  ⟨h.toLawful.step hs, perm_range_of_count h.ids hs.made_le hs.count_ids⟩

theorem inv_init (logger : Option SpdlogLevel) : Inv (machine logger).init := by
  refine ⟨⟨?_, ?_, ?_, ⟨?_, ?_, ?_⟩, ?_, ?_, ?_⟩, ?_⟩ <;>
    simp [machine, newServerCall, ids, waiting, answered]

theorem inv_run {logger : Option SpdlogLevel} {es : List Event}
    (hrun : (machine logger).run es = some s) : Inv s :=
  (machine logger).run_invariant (inv_init logger) (fun _ _ _ h hs => h.step (h.stepped hs)) hrun

def stoppedRun : List Event :=
  [.request 0 .debug, .next 0, .finished 0 true, .request 0 .warn, .next 0, .stop, .next 0,
    .finished 0 true, .shutDownQueue, .drain 0, .drain 0, .exitLoop]

/-- Nobody will answer: the loop has ended, or the server stops and no request is left. -/
def Mute (s : State) : Prop := s.looping = false ∨ s.phase ≠ .started ∧ waiting s = []

theorem waiting_rest_eq_nil {p : ServerCall × Bool} {rest : List (ServerCall × Bool)}
    (hpick : s.completionQueue.Perm (p :: rest)) (h : waiting s = []) :
    rest.filterMap requestOf = [] :=
  List.filterMap_eq_nil_iff.mpr fun q hq =>
    List.filterMap_eq_nil_iff.mp h q (hpick.mem_iff.mpr (List.mem_cons_of_mem _ hq))

theorem Mute.step (hmute : Mute s) (h : Lawful s) (hs : Stepped s e t) :
    Mute t ∧ t.answers = s.answers := by
  cases hs with
  | request hpick =>
    refine ⟨hmute.imp_right fun hstopping => ?_, rfl⟩
    have hlen := hpick.length_eq
    simp [h.ready.stopping hstopping.1] at hlen
  | @finished i ok call rest hpick =>
    have hcall : call.status = .finish := h.finishing call (hpick.mem_iff.mpr (by simp))
    refine ⟨hmute.imp_right fun hstopping => ⟨hstopping.1, ?_⟩, rfl⟩
    rw [← hstopping.2]
    simp [waiting, requestOf, hcall]
  | @answer i call rest _ _ hlooping hpick hstatus =>
    obtain hended | hstopping := hmute
    · simp [hended] at hlooping
    · have hrequest : requestOf (call, true) = none :=
        List.filterMap_eq_nil_iff.mp hstopping.2 _ (hpick.mem_iff.mpr (by simp))
      simp [requestOf, hstatus] at hrequest
  | delete _ hpick _ | drain _ hpick =>
    exact ⟨hmute.imp_right fun hstopping =>
      ⟨hstopping.1, waiting_rest_eq_nil hpick hstopping.2⟩, rfl⟩
  | drop => exact ⟨.inl rfl, rfl⟩
  | exitLoop => exact ⟨.inl rfl, rfl⟩
  | register => exact ⟨hmute, rfl⟩
  | stop hphase => exact ⟨hmute.imp_right fun hstopping => absurd hphase hstopping.1, rfl⟩
  | shutDownQueue _ hwaiting => exact ⟨.inr ⟨by simp, hwaiting⟩, rfl⟩

theorem answers_of_mute {logger : Option SpdlogLevel} {es : List Event} (h : Inv s)
    (hmute : Mute s) (hrun : (machine logger).runFrom s es = some t) :
    t.answers = s.answers := by
  have hlast := (machine logger).runFrom_invariant
    (I := fun u => Inv u ∧ Mute u ∧ u.answers = s.answers) (A := fun _ => True)
    (fun u e v hu _ hs => by
      have hstepped := hu.1.stepped hs
      obtain ⟨hnext, hsame⟩ := hu.2.1.step hu.1.toLawful hstepped
      exact ⟨hu.1.step hstepped, hnext, hsame.trans hu.2.2⟩)
    es (fun _ _ => trivial) ⟨h, hmute, rfl⟩ hrun
  exact hlast.2.2

theorem answer_next {logger : Option SpdlogLevel} {i : ℕ} {call : ServerCall}
    {rest : List (ServerCall × Bool)} (hlooping : s.looping = true)
    (hpick : pick s.completionQueue i = some ((call, true), rest))
    (hstatus : call.status = .process) :
    ∃ u, (machine logger).Reaches s u ∧ s.answers.length < u.answers.length := by
  refine ⟨next { s with completionQueue := rest } call true, ⟨[.next i], ?_⟩, ?_⟩
  · simp [runFrom, machine, step, hlooping, hpick]
  · simp [next, proceed, hstatus]

theorem answer_waiting {logger : Option SpdlogLevel} (hlooping : s.looping = true)
    (hwaiting : waiting s ≠ []) :
    ∃ u, (machine logger).Reaches s u ∧ s.answers.length < u.answers.length := by
  obtain ⟨r, hr⟩ := List.exists_mem_of_ne_nil _ hwaiting
  obtain ⟨⟨call, ok⟩, hin, hrequest⟩ := List.mem_filterMap.mp hr
  obtain ⟨⟨hstatus, hok⟩, -⟩ := Option.ite_none_right_eq_some.mp hrequest
  simp only at hok
  subst hok
  obtain ⟨i, rest, hpick⟩ := exists_pick hin
  exact answer_next hlooping hpick hstatus

theorem serves_on_iff (logger : Option SpdlogLevel) {es : List Event}
    (hrun : (machine logger).run es = some s) :
    (∃ u, (machine logger).Reaches s u ∧ s.answers.length < u.answers.length) ↔
      s.dropped = [] ∧ (s.phase = .started ∨ waiting s ≠ []) := by
  have h := inv_run hrun
  constructor
  · intro hserves
    obtain ⟨u, ⟨es', hrun'⟩, hmore⟩ := hserves
    have hloud : ¬ Mute s := by
      intro hmute
      rw [answers_of_mute h hmute hrun'] at hmore
      exact Nat.lt_irrefl _ hmore
    obtain ⟨hlooping, hrequest⟩ := not_or.mp hloud
    refine ⟨h.looping (by simpa using hlooping), ?_⟩
    by_cases hphase : s.phase = .started
    · exact .inl hphase
    · exact .inr fun hnil => hrequest ⟨hphase, hnil⟩
  · intro hserves
    obtain ⟨hdropped, hrequest⟩ := hserves
    have hnot : s.phase ≠ .queueShutDown := by
      intro hshut
      simp [hshut, h.ready.shutDown hshut] at hrequest
    have hlooping : s.looping = true := by
      by_contra hended
      exact (h.ended (by simpa using hended)).elim (fun hne => hne hdropped) hnot
    by_cases hwaiting : waiting s = []
    · -- no request waits, so the call that is ready may get one
      have hphase : s.phase = .started := hrequest.resolve_right (not_not_intro hwaiting)
      have hready := h.ready.started hphase
      simp only [hwaiting, List.length_nil, Nat.add_zero] at hready
      obtain ⟨call, hcall⟩ := List.length_eq_one_iff.mp hready
      have hstatus := h.requesting call (by simp [hcall])
      have hstep : (machine logger).step s (.request 0 .info) = some (accept s call [] .info) := by
        simp [machine, step, hcall, pick]
      have hanswer : ∃ u, (machine logger).Reaches (accept s call [] .info) u ∧
          s.answers.length < u.answers.length :=
        answer_next hlooping (pick_concat s.completionQueue _) hstatus
      obtain ⟨u, hreach, hmore⟩ := hanswer
      exact ⟨u, hreach.head _ hstep, hmore⟩
    · exact answer_waiting hlooping hwaiting

theorem lost_response_ends_service : ∃ s,
    (machine (some .info)).run [.request 0 .debug, .next 0, .finished 0 false, .next 0,
      .request 0 .warn] = some s ∧ waiting s = [(1, .warn)] ∧
      ¬ ∃ u, (machine (some .info)).Reaches s u ∧ s.answers.length < u.answers.length := by
  have hrun : ((machine (some .info)).run [.request 0 .debug, .next 0, .finished 0 false, .next 0,
      .request 0 .warn]).map (fun s => (waiting s, s.dropped)) = some ([(1, .warn)], [0]) := by
    decide
  obtain ⟨s, hs, heq⟩ := Option.map_eq_some_iff.mp hrun
  simp only [Prod.mk.injEq] at heq
  refine ⟨s, hs, heq.1, ?_⟩
  rw [serves_on_iff _ hs, heq.2]
  simp

end RocketMQClient.AdminServer
