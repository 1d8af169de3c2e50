import RocketMQClient.Library.EventMachine
import RocketMQClient.Library.Slots
import Mathlib.Tactic.Common

/-!
# Waiting for the first of some workers

A thread launches workers and then waits on a condition variable until one of them has
begun. With a flag, the first worker sets it, by a compare-and-exchange, and signals under
the mutex, and the thread tests the flag under the mutex before it waits. Without one every
worker signals and the thread waits in any case. The wait is not repeated: the thread goes
on after the first wake-up, which may come without a signal.
-/

namespace Handshake
open EventMachine EventMachine.Machine Slots

structure Config where
  flagged : Bool
  workers : ℕ
  deriving DecidableEq, Repr

inductive Starter
  | launching (left : ℕ)
  | testing
  | waiting
  | woken
  | returned
  deriving DecidableEq, Repr

inductive Worker
  | begun
  | first
  | locked
  | signalled
  | running
  deriving DecidableEq, Repr

structure State where
  starter : Starter
  workers : List Worker := []
  flag : Bool := false
  deriving DecidableEq, Repr

inductive Event
  | starter
  | worker (i : ℕ)
  | spurious
  deriving DecidableEq, Repr

def Worker.holds : Worker → Bool
  | .locked | .signalled => true
  | _ => false

def Starter.signal : Starter → Starter
  | .waiting => .woken
  | s => s

namespace State

def free (s : State) : Bool := s.starter != .testing && !s.workers.any Worker.holds

def starterStep (cfg : Config) (s : State) : Option State :=
  match s.starter with
  | .launching (left + 1) =>
    some { s with starter := .launching left, workers := s.workers ++ [.begun] }
  | .launching 0 => if s.free then some { s with starter := .testing } else none
  | .testing => some { s with starter := if cfg.flagged && s.flag then .returned else .waiting }
  | .waiting => none
  | .woken => if s.free then some { s with starter := .returned } else none
  | .returned => none

def become (s : State) (i : ℕ) (w : Worker) : State := { s with workers := s.workers.set i w }

def workerStep (cfg : Config) (s : State) (i : ℕ) : Option State :=
  s.workers[i]?.bind fun w =>
    match w with
    | .begun =>
      if cfg.flagged && s.flag then some (s.become i .running)
      else some { s.become i .first with flag := cfg.flagged }
    | .first => if s.free then some (s.become i .locked) else none
    | .locked => some { s.become i .signalled with starter := s.starter.signal }
    | .signalled => some (s.become i .running)
    | .running => none

end State

def step (cfg : Config) (s : State) : Event → Option State
  | .starter => s.starterStep cfg
  | .worker i => s.workerStep cfg i
  | .spurious => match s.starter with
    | .waiting => some { s with starter := .woken }
    | _ => none

def machine (cfg : Config) : Machine State Event where
  init := { starter := .launching cfg.workers }
  step := step cfg

inductive Stepped (cfg : Config) (s : State) : Event → State → Prop
  | launch {left : ℕ} (hs : s.starter = .launching (left + 1)) :
      Stepped cfg s .starter
        { s with starter := .launching left, workers := s.workers ++ [.begun] }
  | lock (hs : s.starter = .launching 0) : Stepped cfg s .starter { s with starter := .testing }
  | passes (hs : s.starter = .testing) (hflag : (cfg.flagged && s.flag) = true) :
      Stepped cfg s .starter { s with starter := .returned }
  | waits (hs : s.starter = .testing) (hflag : (cfg.flagged && s.flag) = false) :
      Stepped cfg s .starter { s with starter := .waiting }
  | returns (hs : s.starter = .woken) : Stepped cfg s .starter { s with starter := .returned }
  | late {i : ℕ} (hw : s.workers[i]? = some .begun) (hflag : (cfg.flagged && s.flag) = true) :
      Stepped cfg s (.worker i) (s.become i .running)
  | wins {i : ℕ} (hw : s.workers[i]? = some .begun) (hflag : (cfg.flagged && s.flag) = false) :
      Stepped cfg s (.worker i) { s.become i .first with flag := cfg.flagged }
  | locks {i : ℕ} (hw : s.workers[i]? = some .first) :
      Stepped cfg s (.worker i) (s.become i .locked)
  | signals {i : ℕ} (hw : s.workers[i]? = some .locked) :
      Stepped cfg s (.worker i) { s.become i .signalled with starter := s.starter.signal }
  | runs {i : ℕ} (hw : s.workers[i]? = some .signalled) :
      Stepped cfg s (.worker i) (s.become i .running)
  | spurious (hs : s.starter = .waiting) :
      Stepped cfg s .spurious { s with starter := .woken }

variable {cfg : Config} {s t : State} {e : Event}

theorem stepped_starter (h : s.starterStep cfg = some t) : Stepped cfg s .starter t := by
  unfold State.starterStep at h
  split at h
  · simp only [Option.some.injEq] at h
    subst h
    exact .launch ‹_›
  · split_ifs at h
    simp only [Option.some.injEq] at h
    subst h
    exact .lock ‹_›
  · rename_i hs
    simp only [Option.some.injEq] at h
    subst h
    split
    · exact .passes hs ‹_›
    · exact .waits hs (by simp_all)
  · simp at h
  · split_ifs at h
    simp only [Option.some.injEq] at h
    subst h
    exact .returns ‹_›
  · simp at h

theorem stepped_worker {i : ℕ} (h : s.workerStep cfg i = some t) :
    Stepped cfg s (.worker i) t := by
  obtain ⟨w, hw, hnext⟩ := Option.bind_eq_some_iff.mp h
  cases w with
  | begun =>
    simp only at hnext
    split_ifs at hnext with hflag
    · simp only [Option.some.injEq] at hnext
      subst hnext
      exact .late hw hflag
    · simp only [Option.some.injEq] at hnext
      subst hnext
      exact .wins hw (by simpa using hflag)
  | first =>
    simp only at hnext
    split_ifs at hnext
    simp only [Option.some.injEq] at hnext
    subst hnext
    exact .locks hw
  | locked =>
    simp only [Option.some.injEq] at hnext
    subst hnext
    exact .signals hw
  | signalled =>
    simp only [Option.some.injEq] at hnext
    subst hnext
    exact .runs hw
  | running => simp at hnext

theorem stepped_of_step (h : step cfg s e = some t) : Stepped cfg s e t := by
  cases e with
  | starter => exact stepped_starter h
  | worker i => exact stepped_worker h
  | spurious =>
    simp only [step] at h
    split at h
    · simp only [Option.some.injEq] at h
      subst h
      exact .spurious ‹_›
    · simp at h

def Starter.rank : Starter → ℕ
  | .launching left => 5 * left + 4
  | .testing => 3
  | .waiting => 2
  | .woken => 1
  | .returned => 0

def Worker.rank : Worker → ℕ
  | .begun => 4
  | .first => 3
  | .locked => 2
  | .signalled => 1
  | .running => 0

def State.rank (s : State) : ℕ := s.starter.rank + (s.workers.map Worker.rank).sum

theorem Starter.rank_signal (s : Starter) : s.signal.rank ≤ s.rank := by
  cases s <;> simp [Starter.signal, Starter.rank]

theorem rank_become {i : ℕ} {w : Worker} (hw : s.workers[i]? = some w) (w' : Worker) :
    (s.become i w').rank + w.rank = s.rank + w'.rank := by
  have hsum := sum_map_set hw w' Worker.rank
  simp only [State.rank, State.become]
  omega

theorem rank_step (h : Stepped cfg s e t) : t.rank < s.rank := by
  cases h with
  | launch hs =>
    simp only [State.rank, hs, Starter.rank, List.map_append, List.sum_append, List.map_cons,
      List.map_nil, List.sum_cons, List.sum_nil, Worker.rank]
    omega
  | lock hs => simp [State.rank, hs, Starter.rank]
  | passes hs => simp [State.rank, hs, Starter.rank]
  | waits hs => simp [State.rank, hs, Starter.rank]
  | returns hs => simp [State.rank, hs, Starter.rank]
  | late hw =>
    have hrank := rank_become hw .running
    simp only [Worker.rank] at hrank
    omega
  | wins hw =>
    have hrank := rank_become hw .first
    simp only [State.rank, State.become, Worker.rank] at hrank ⊢
    omega
  | locks hw =>
    have hrank := rank_become hw .locked
    simp only [Worker.rank] at hrank
    omega
  | signals hw =>
    have hrank := rank_become hw .signalled
    have hsignal := s.starter.rank_signal
    simp only [State.rank, State.become, Worker.rank] at hrank ⊢
    omega
  | runs hw =>
    have hrank := rank_become hw .running
    simp only [Worker.rank] at hrank
    omega
  | spurious hs => simp [State.rank, hs, Starter.rank]

theorem length_le {es : List Event} (hrun : (machine cfg).run es = some s) :
    es.length ≤ 5 * cfg.workers + 4 := by
  have hle := (machine cfg).runFrom_length_le (I := fun _ => True) (A := fun _ => True) State.rank
    (fun _ _ _ _ _ hs => ⟨trivial, rank_step (stepped_of_step hs)⟩) es (fun _ _ => trivial)
    trivial hrun
  have hinit : (machine cfg).init.rank = 5 * cfg.workers + 4 := by
    simp [State.rank, machine, Starter.rank]
  omega

def Stopped (cfg : Config) (s : State) : Prop :=
  s.starterStep cfg = none ∧ ∀ i, s.workerStep cfg i = none

theorem Stopped.workerStep_ne (h : Stopped cfg s) {w : Worker} (hw : w ∈ s.workers) :
    w ≠ .begun ∧ w ≠ .locked ∧ w ≠ .signalled ∧ (s.free = true → w ≠ .first) := by
  obtain ⟨i, hi⟩ := List.getElem?_of_mem hw
  have hnone := h.2 i
  simp only [State.workerStep, hi, Option.bind_some] at hnone
  cases w with
  | begun => grind
  | first => simpa using hnone
  | locked => simp at hnone
  | signalled => simp at hnone
  | running => simp

theorem Stopped.free (h : Stopped cfg s) : s.free = true := by
  have htesting : s.starter ≠ .testing := by
    intro hs
    have hnone := h.1
    simp [State.starterStep, hs] at hnone
  have hheld : ∀ w ∈ s.workers, w.holds = false := by
    intro w hw
    obtain ⟨-, hlocked, hsignalled, -⟩ := h.workerStep_ne hw
    cases w <;> simp_all [Worker.holds]
  simpa [State.free, htesting] using hheld

theorem Stopped.running (h : Stopped cfg s) {w : Worker} (hw : w ∈ s.workers) : w = .running := by
  obtain ⟨hbegun, hlocked, hsignalled, hfirst⟩ := h.workerStep_ne hw
  cases w <;> simp_all [h.free]

theorem Stopped.starter (h : Stopped cfg s) : s.starter = .waiting ∨ s.starter = .returned := by
  have hfree := h.free
  have hnone := h.1
  unfold State.starterStep at hnone
  split at hnone
  · simp at hnone
  · simp [hfree] at hnone
  · simp at hnone
  · exact Or.inl ‹_›
  · simp [hfree] at hnone
  · exact Or.inr ‹_›

def Starter.left : Starter → ℕ
  | .launching left => left
  | _ => 0

theorem Starter.left_signal (s : Starter) : s.signal.left = s.left := by
  cases s <;> rfl

/-- With a flag: nobody has begun before it is set, and a thread that waits although it is
set will be signalled. -/
structure Inv (cfg : Config) (s : State) : Prop where
  launched : s.workers.length + s.starter.left = cfg.workers
  begun : s.flag = false → ∀ w ∈ s.workers, w = .begun
  signal : s.starter = .waiting → s.flag = true → ∃ w ∈ s.workers, w = .first ∨ w = .locked

theorem Inv.step (hcfg : cfg.flagged = true) (h : Inv cfg s) (hs : Stepped cfg s e t) :
    Inv cfg t := by
  have hflag : (cfg.flagged && s.flag) = s.flag := by simp [hcfg]
  have hset : ∀ {i : ℕ} {w : Worker}, s.workers[i]? = some w → ∀ w', w' ∈ s.workers.set i w' := by
    intro i w hw w'
    obtain ⟨hi, -⟩ := List.getElem?_eq_some_iff.mp hw
    exact List.mem_set hi w'
  have hbegun : ∀ {i : ℕ} {w : Worker}, s.workers[i]? = some w → w ≠ .begun → s.flag = true := by
    intro i w hw hne
    by_contra hfalse
    exact hne (h.begun (by simpa using hfalse) w (List.mem_of_getElem? hw))
  cases hs with
  | launch hs =>
    refine ⟨?_, ?_, by simp⟩
    · have hlen := h.launched
      simp only [hs, Starter.left] at hlen
      simp only [List.length_append, List.length_singleton, Starter.left]
      omega
    · intro hfalse w hw
      obtain hold | hnew := List.mem_append.mp hw
      · exact h.begun hfalse w hold
      · exact List.mem_singleton.mp hnew
  | lock hs => exact ⟨by simpa [hs, Starter.left] using h.launched, h.begun, by simp⟩
  | passes hs => exact ⟨by simpa [hs, Starter.left] using h.launched, h.begun, by simp⟩
  | waits hs hnot =>
    rw [hflag] at hnot
    exact ⟨by simpa [hs, Starter.left] using h.launched, h.begun, by simp [hnot]⟩
  | returns hs => exact ⟨by simpa [hs, Starter.left] using h.launched, h.begun, by simp⟩
  | late hw hyes =>
    rw [hflag] at hyes
    refine ⟨by simpa [State.become] using h.launched, by simp [State.become, hyes], ?_⟩
    intro hwait htrue
    obtain ⟨w, hin, hw'⟩ := h.signal hwait htrue
    exact ⟨w, mem_set_of_ne hw hin (by rintro rfl; simp at hw'), hw'⟩
  | wins hw =>
    refine ⟨by simpa [State.become] using h.launched, by simp [hcfg], ?_⟩
    intro _ _
    exact ⟨.first, hset hw _, Or.inl rfl⟩
  | locks hw =>
    refine ⟨by simpa [State.become] using h.launched, ?_, ?_⟩
    · simp [State.become, hbegun hw (by simp)]
    · intro _ _
      exact ⟨.locked, hset hw _, Or.inr rfl⟩
  | signals hw =>
    refine ⟨by simpa [State.become, Starter.left_signal] using h.launched, ?_, ?_⟩
    · simp [State.become, hbegun hw (by simp)]
    · intro hwait
      exfalso
      cases hs : s.starter <;> simp [Starter.signal, hs] at hwait
  | runs hw =>
    refine ⟨by simpa [State.become] using h.launched, ?_, ?_⟩
    · simp [State.become, hbegun hw (by simp)]
    · intro hwait htrue
      obtain ⟨w, hin, hw'⟩ := h.signal hwait htrue
      exact ⟨w, mem_set_of_ne hw hin (by rintro rfl; simp at hw'), hw'⟩
  | spurious hs => exact ⟨by simpa [hs, Starter.left] using h.launched, h.begun, by simp⟩

theorem inv_run (hcfg : cfg.flagged = true) {es : List Event}
    (hrun : (machine cfg).run es = some s) : Inv cfg s := by
  apply (machine cfg).run_invariant (I := Inv cfg) ?_ ?_ hrun
  · exact ⟨by simp [machine, Starter.left], by simp [machine], by simp [machine]⟩
  · intro s e t h hs
    exact h.step hcfg (stepped_of_step hs)

theorem Inv.returned (h : Inv cfg s) (hpos : 0 < cfg.workers) (hstopped : Stopped cfg s) :
    s.starter = .returned := by
  obtain hwait | hreturned := hstopped.starter
  · exfalso
    have hlen := h.launched
    simp only [hwait, Starter.left, Nat.add_zero] at hlen
    obtain ⟨w, hw⟩ := List.exists_mem_of_length_pos (by omega : 0 < s.workers.length)
    have hflag : s.flag = true := by
      by_contra hfalse
      have hbegun := h.begun (by simpa using hfalse) w hw
      rw [hstopped.running hw] at hbegun
      simp at hbegun
    obtain ⟨w', hin, hw'⟩ := h.signal hwait hflag
    rw [hstopped.running hin] at hw'
    simp at hw'
  · exact hreturned

def missed (n : ℕ) : State := { starter := .launching 0, workers := List.replicate n .running }

theorem reaches_missed (hcfg : cfg.flagged = false) (left k : ℕ) :
    (machine cfg).Reaches
      { starter := .launching left, workers := List.replicate k .running }
      (missed (k + left)) := by
  induction left generalizing k with
  | zero => exact .refl _ _
  | succ left ih =>
    have hround : (machine cfg).runFrom
        { starter := .launching (left + 1), workers := List.replicate k .running }
        [.starter, .worker k, .worker k, .worker k, .worker k] =
        some { starter := .launching left, workers := List.replicate (k + 1) .running } := by
      have hfree : State.free ⟨.launching left, List.replicate k .running ++ [.first], false⟩ =
          true := by
        simp [State.free, Worker.holds]
      simp [runFrom, machine, step, State.starterStep, State.workerStep, State.become, hcfg,
        hfree, Starter.signal, List.replicate_succ']
    have hrest := ih (k + 1)
    rw [Nat.add_assoc, Nat.add_comm 1 left] at hrest
    exact Reaches.trans _ ⟨_, hround⟩ hrest

theorem stopped_of_missed (n : ℕ) :
    Stopped cfg { missed n with starter := .waiting } := by
  constructor
  · rfl
  · intro i
    simp only [State.workerStep, missed, List.getElem?_replicate]
    split <;> rfl

theorem exists_stuck (h : cfg.flagged = false ∨ cfg.workers = 0) :
    ∃ es s, (machine cfg).run es = some s ∧ Stopped cfg s ∧ s.starter = .waiting := by
  have hmissed : (machine cfg).Reaches (machine cfg).init (missed cfg.workers) := by
    obtain hflag | hzero := h
    · simpa [machine] using reaches_missed hflag cfg.workers 0
    · rw [hzero]
      simp only [machine, hzero]
      exact .refl _ _
  have hwaits : (machine cfg).runFrom (missed cfg.workers) [.starter, .starter] =
      some { missed cfg.workers with starter := .waiting } := by
    simp [runFrom, machine, step, State.starterStep, State.free, missed, Worker.holds]
  obtain ⟨es, hrun⟩ := Reaches.trans _ hmissed ⟨_, hwaits⟩
  exact ⟨es, _, hrun, stopped_of_missed _, rfl⟩

/-- Every run ends, and when nobody can go on the starter has returned. -/
def Returns (cfg : Config) : Prop :=
  ∀ es s, (machine cfg).run es = some s →
    es.length ≤ 5 * cfg.workers + 4 ∧ (Stopped cfg s → s.starter = .returned)

theorem returns_iff : Returns cfg ↔ cfg.flagged = true ∧ 0 < cfg.workers := by
  constructor
  · intro hreturns
    by_contra hnot
    have hstuck : cfg.flagged = false ∨ cfg.workers = 0 := by grind
    obtain ⟨es, s, hrun, hstopped, hwait⟩ := exists_stuck hstuck
    have hreturned := (hreturns es s hrun).2 hstopped
    simp [hwait] at hreturned
  · intro ⟨hflag, hpos⟩ es s hrun
    exact ⟨length_le hrun, (inv_run hflag hrun).returned hpos⟩

end Handshake
