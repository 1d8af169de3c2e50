import RocketMQClient.Library.EventMachine
import Mathlib.Tactic.Common

/-!
# A thread that awaits the result of another

One thread waits in a loop, `while (!completed) cv.Wait(&mutex)`, and reads what it finds
stored. Another thread makes its writes, some before it locks the mutex and some while it
holds it, and then signals and unlocks. The waiting thread owns the object: when it has
read it frees it, and what the other thread does with it from then on is undefined. Memory is
sequentially consistent, and `cv.Wait` may return without a signal.
-/

namespace Await
open EventMachine EventMachine.Machine

inductive Write (F : Type*)
  | complete
  | store (field : F)
  deriving DecidableEq, Repr

/-- The writes of the completing thread, before it locks the mutex and while it holds it. -/
structure Completion (F : Type*) where
  before : List (Write F)
  inside : List (Write F)

/-- `returned` holds what was stored as the loop ended, with the mutex still held, and
`finished` also what is read afterwards. -/
inductive Waiter (F : Type*)
  | entering
  | testing
  | committed
  | waiting
  | woken
  | returned (early : List F)
  | finished (early late : List F)
  deriving DecidableEq, Repr

inductive Completer (F : Type*)
  | before (left : List (Write F))
  | inside (left : List (Write F))
  | signalled
  | done
  deriving DecidableEq, Repr

structure State (F : Type*) where
  waiter : Waiter F
  completer : Completer F
  written : List (Write F)
  deriving DecidableEq, Repr

inductive Event
  | waiter
  | completer
  | spurious
  deriving DecidableEq, Repr

variable {F : Type*}

def Write.isComplete : Write F → Bool
  | .complete => true
  | .store _ => false

def Write.field? : Write F → Option F
  | .complete => none
  | .store f => some f

def Completion.writes (c : Completion F) : List (Write F) := c.before ++ c.inside

def Completion.outcome (c : Completion F) : List F := c.writes.filterMap Write.field?

def Waiter.holds : Waiter F → Bool
  | .testing | .committed => true
  | _ => false

def Waiter.signal : Waiter F → Waiter F
  | .waiting => .woken
  | w => w

def Waiter.freed : Waiter F → Bool
  | .finished _ _ => true
  | _ => false

def Completer.holds : Completer F → Bool
  | .inside _ | .signalled => true
  | _ => false

namespace State

def completed (s : State F) : Bool := s.written.any Write.isComplete

def stored (s : State F) : List F := s.written.filterMap Write.field?

def waiterStep (s : State F) : Option (State F) :=
  match s.waiter with
  | .entering | .woken =>
    if s.completer.holds then none else some { s with waiter := .testing }
  | .testing => some { s with
      waiter := if s.completed then .returned s.stored else .committed }
  | .committed => some { s with waiter := .waiting }
  | .waiting => none
  | .returned early => some { s with waiter := .finished early s.stored }
  | .finished _ _ => none

def complete (c : Completion F) (s : State F) : Option (State F) :=
  match s.completer with
  | .before (w :: left) => some { s with completer := .before left, written := s.written ++ [w] }
  | .before [] => if s.waiter.holds then none else some { s with completer := .inside c.inside }
  | .inside (w :: left) => some { s with completer := .inside left, written := s.written ++ [w] }
  | .inside [] => some { s with completer := .signalled, waiter := s.waiter.signal }
  | .signalled => some { s with completer := .done }
  | .done => none

def completerStep (c : Completion F) (s : State F) : Option (State F) :=
  if s.waiter.freed then none else s.complete c

def spuriousWake (s : State F) : Option (State F) :=
  match s.waiter with
  | .waiting => some { s with waiter := .woken }
  | _ => none

end State

def step (c : Completion F) (s : State F) : Event → Option (State F)
  | .waiter => s.waiterStep
  | .completer => s.completerStep c
  | .spurious => s.spuriousWake

def machine (c : Completion F) : Machine (State F) Event where
  init := ⟨.entering, .before c.before, []⟩
  step := step c

inductive Stepped (c : Completion F) (s : State F) : Event → State F → Prop
  | lock (hw : s.waiter = .entering ∨ s.waiter = .woken) (hfree : s.completer.holds = false) :
      Stepped c s .waiter { s with waiter := .testing }
  | leave (hw : s.waiter = .testing) (hcompleted : s.completed = true) :
      Stepped c s .waiter { s with waiter := .returned s.stored }
  | commit (hw : s.waiter = .testing) (hcompleted : s.completed = false) :
      Stepped c s .waiter { s with waiter := .committed }
  | wait (hw : s.waiter = .committed) : Stepped c s .waiter { s with waiter := .waiting }
  | finish {early : List F} (hw : s.waiter = .returned early) :
      Stepped c s .waiter { s with waiter := .finished early s.stored }
  | writeBefore {w : Write F} {left : List (Write F)} (hc : s.completer = .before (w :: left)) :
      Stepped c s .completer
        { s with completer := .before left, written := s.written ++ [w] }
  | lockMutex (hc : s.completer = .before []) (hfree : s.waiter.holds = false) :
      Stepped c s .completer { s with completer := .inside c.inside }
  | writeInside {w : Write F} {left : List (Write F)} (hc : s.completer = .inside (w :: left)) :
      Stepped c s .completer
        { s with completer := .inside left, written := s.written ++ [w] }
  | signal (hc : s.completer = .inside []) :
      Stepped c s .completer { s with completer := .signalled, waiter := s.waiter.signal }
  | unlock (hc : s.completer = .signalled) : Stepped c s .completer { s with completer := .done }
  | spurious (hw : s.waiter = .waiting) : Stepped c s .spurious { s with waiter := .woken }

variable {c : Completion F} {s t : State F} {e : Event}

theorem stepped_waiter (h : s.waiterStep = some t) : Stepped c s .waiter t := by
  unfold State.waiterStep at h
  split at h
  · rename_i hw
    split at h
    · simp at h
    · simp only [Option.some.injEq] at h
      subst h
      exact .lock (Or.inl hw) (by simp_all)
  · rename_i hw
    split at h
    · simp at h
    · simp only [Option.some.injEq] at h
      subst h
      exact .lock (Or.inr hw) (by simp_all)
  · rename_i hw
    simp only [Option.some.injEq] at h
    subst h
    split
    · exact .leave hw ‹_›
    · exact .commit hw (by simp_all)
  · simp only [Option.some.injEq] at h
    subst h
    exact .wait ‹_›
  · simp at h
  · simp only [Option.some.injEq] at h
    subst h
    exact .finish ‹_›
  · simp at h

theorem stepped_completer (h : s.completerStep c = some t) : Stepped c s .completer t := by
  unfold State.completerStep at h
  split_ifs at h
  unfold State.complete at h
  split at h
  · simp only [Option.some.injEq] at h
    subst h
    exact .writeBefore ‹_›
  · split at h
    · simp at h
    · simp only [Option.some.injEq] at h
      subst h
      exact .lockMutex ‹_› (by simp_all)
  · simp only [Option.some.injEq] at h
    subst h
    exact .writeInside ‹_›
  · simp only [Option.some.injEq] at h
    subst h
    exact .signal ‹_›
  · simp only [Option.some.injEq] at h
    subst h
    exact .unlock ‹_›
  · simp at h

theorem stepped_of_step (h : step c s e = some t) : Stepped c s e t := by
  cases e with
  | waiter => exact stepped_waiter h
  | completer => exact stepped_completer h
  | spurious =>
    simp only [step, State.spuriousWake] at h
    split at h
    · simp only [Option.some.injEq] at h
      subst h
      exact .spurious ‹_›
    · simp at h

def Completer.left (c : Completion F) : Completer F → List (Write F)
  | .before left => left ++ c.inside
  | .inside left => left
  | .signalled | .done => []

def Completer.unsignalled : Completer F → Bool
  | .before _ | .inside _ => true
  | _ => false

def Waiter.asleep : Waiter F → Bool
  | .committed | .waiting => true
  | _ => false

def Waiter.seen : Waiter F → List (List F)
  | .returned early => [early]
  | .finished early late => [early, late]
  | _ => []

theorem Waiter.seen_signal (w : Waiter F) : w.signal.seen = w.seen := by
  cases w <;> rfl

structure Inv (c : Completion F) (s : State F) : Prop where
  written : s.written ++ s.completer.left c = c.writes
  exclusive : s.waiter.holds = true → s.completer.holds = false
  signalled : s.waiter.asleep = true → s.completer.unsignalled = true
  seen : s.waiter.seen ≠ [] → s.completed = true

theorem State.completed_append {w : Write F} {written : List (Write F)}
    (h : written.any Write.isComplete = true) : (written ++ [w]).any Write.isComplete = true := by
  rw [List.any_append, h, Bool.true_or]

theorem Inv.step (hc : .complete ∈ c.writes) (h : Inv c s) (hs : Stepped c s e t) : Inv c t where
  written := by
    have hwritten := h.written
    cases hs with
    | writeBefore hpc | writeInside hpc => simpa [hpc, Completer.left] using hwritten
    | lockMutex hpc _ | signal hpc | unlock hpc => simpa [hpc, Completer.left] using hwritten
    | _ => exact hwritten
  exclusive := by
    have hexclusive := h.exclusive
    cases hs with
    | lock _ hfree => exact fun _ => hfree
    | leave | finish | spurious | wait => simp [Waiter.holds]
    | commit hw _ => exact fun _ => hexclusive (by rw [hw]; rfl)
    | lockMutex _ hfree => simp [hfree]
    | writeBefore hpc | unlock hpc => exact fun _ => rfl
    | writeInside hpc | signal hpc =>
      intro hholds
      have hlocked : s.waiter.holds = true := by
        cases hw : s.waiter <;> simp_all [Waiter.signal, Waiter.holds]
      simpa [hpc, Completer.holds] using hexclusive hlocked
  signalled := by
    have hsignalled := h.signalled
    cases hs with
    | lock | leave | finish | spurious => simp [Waiter.asleep]
    | wait hw => exact fun _ => hsignalled (by rw [hw]; rfl)
    | commit hw hcompleted =>
      intro _
      by_contra hnot
      have hall : s.written = c.writes := by
        have hwritten := h.written
        cases hpc : s.completer <;>
          simp_all [Completer.unsignalled, Completer.left]
      have hno : ¬ s.completed = true := by simp [hcompleted]
      exact hno (List.any_eq_true.mpr ⟨.complete, hall ▸ hc, rfl⟩)
    | lockMutex hpc _ | writeBefore hpc | writeInside hpc => exact fun _ => rfl
    | unlock hpc =>
      intro hasleep
      simpa [hpc, Completer.unsignalled] using hsignalled hasleep
    | signal hpc =>
      intro hasleep
      -- a thread that has tested and not yet waits has the mutex, so it cannot miss the signal
      have hcommitted : s.waiter = .committed := by
        cases hw : s.waiter <;> simp_all [Waiter.signal, Waiter.asleep]
      simpa [hpc, Completer.holds] using h.exclusive (by rw [hcommitted]; rfl)
  seen := by
    have hseen := h.seen
    cases hs with
    | lock | commit | wait | spurious => simp [Waiter.seen]
    | leave _ hcompleted => exact fun _ => hcompleted
    | finish hw => exact fun _ => hseen (by simp [hw, Waiter.seen])
    | lockMutex | unlock => exact hseen
    | signal =>
      rw [Waiter.seen_signal]
      exact hseen
    | writeBefore | writeInside => exact fun hne => State.completed_append (hseen hne)

theorem inv_init : Inv c (machine c).init :=
  ⟨rfl, fun h => by simp [machine, Waiter.holds] at h, fun _ => rfl,
    fun h => by simp [machine, Waiter.seen] at h⟩

theorem inv_run (hc : .complete ∈ c.writes) {es : List Event}
    (hrun : (machine c).run es = some s) : Inv c s :=
  (machine c).run_invariant inv_init (fun _ _ _ h hs => h.step hc (stepped_of_step hs)) hrun

def Stopped (c : Completion F) (s : State F) : Prop :=
  s.waiterStep = none ∧ s.completerStep c = none

theorem complete_isSome (hfree : s.waiter.holds = false) (hnot : s.completer ≠ .done) :
    (s.complete c).isSome = true := by
  cases hpc : s.completer with
  | before left => cases left <;> simp [State.complete, hpc, hfree]
  | inside left => cases left <;> simp [State.complete, hpc]
  | signalled => simp [State.complete, hpc]
  | done => exact absurd hpc hnot

theorem Inv.finished (h : Inv c s) (hstopped : Stopped c s) :
    ∃ early late, s.waiter = .finished early late := by
  obtain ⟨hwaiter, hcompleter⟩ := hstopped
  by_contra hnot
  have hfreed : s.waiter.freed = false := by
    cases hw : s.waiter with
    | finished early late => exact absurd ⟨early, late, hw⟩ hnot
    | _ => rfl
  have hfree : s.waiter.holds = false := by
    cases hw : s.waiter <;> simp_all [State.waiterStep, Waiter.holds]
  have hdone : s.completer = .done := by
    by_contra hleft
    have hgoes := complete_isSome (c := c) hfree hleft
    rw [State.completerStep, hfreed, if_neg Bool.false_ne_true] at hcompleter
    simp [hcompleter] at hgoes
  have hsignalled := h.signalled
  cases hw : s.waiter <;>
    simp_all [State.waiterStep, Completer.holds, Waiter.asleep, Completer.unsignalled]

theorem runFrom_testing (hw : s.waiter = .testing) (hcompleted : s.completed = true) :
    (machine c).runFrom s [.waiter, .waiter] =
      some { s with waiter := .finished s.stored s.stored } := by
  simp only [runFrom, machine, step, State.waiterStep, hw, hcompleted, if_true, Option.bind_some]
  rfl

theorem Inv.gets_away (hc : .complete ∈ c.writes) (h : Inv c s) (hdone : s.completer = .done) :
    ∃ n t early late, (machine c).runFrom s (List.replicate n .waiter) = some t ∧
      t.waiter = .finished early late := by
  have hall : s.written = c.writes := by simpa [hdone, Completer.left] using h.written
  have hcompleted : s.completed = true := List.any_eq_true.mpr ⟨.complete, hall ▸ hc, rfl⟩
  have hlock : s.waiter = .entering ∨ s.waiter = .woken →
      (machine c).runFrom s (List.replicate 3 .waiter) =
        some { s with waiter := .finished s.stored s.stored } := by
    intro hw
    have hstep : s.waiterStep = some { s with waiter := .testing } := by
      obtain hw | hw := hw <;> simp [State.waiterStep, hw, hdone, Completer.holds]
    change s.waiterStep.bind _ = _
    rw [hstep]
    exact runFrom_testing (s := { s with waiter := .testing }) rfl hcompleted
  cases hw : s.waiter with
  | entering => exact ⟨3, _, _, _, hlock (.inl hw), rfl⟩
  | woken => exact ⟨3, _, _, _, hlock (.inr hw), rfl⟩
  | testing => exact ⟨2, _, _, _, runFrom_testing hw hcompleted, rfl⟩
  | committed =>
    have hlate := h.signalled (by rw [hw]; rfl)
    simp [hdone, Completer.unsignalled] at hlate
  | waiting =>
    have hlate := h.signalled (by rw [hw]; rfl)
    simp [hdone, Completer.unsignalled] at hlate
  | returned early =>
    refine ⟨1, { s with waiter := .finished early s.stored }, early, _, ?_, rfl⟩
    change s.waiterStep.bind _ = _
    simp only [State.waiterStep, hw]
    rfl
  | finished early late => exact ⟨0, s, early, late, rfl, hw⟩

def Waiter.rank : Waiter F → ℕ
  | .entering | .woken => 5
  | .testing => 4
  | .committed => 3
  | .waiting => 2
  | .returned _ => 1
  | .finished _ _ => 0

def Completer.rank (c : Completion F) : Completer F → ℕ
  | .before left => left.length + c.inside.length + 3
  | .inside left => left.length + 2
  | .signalled => 1
  | .done => 0

def State.rank (c : Completion F) (s : State F) : ℕ := 6 * s.completer.rank c + s.waiter.rank

theorem Waiter.rank_signal (w : Waiter F) : w.signal.rank ≤ w.rank + 3 := by
  cases w <;> simp [signal, rank]

theorem Stepped.rank (hs : Stepped c s e t) :
    t.rank c + 1 ≤ s.rank c + 4 * [e].count .spurious := by
  cases hs with
  | lock hw _ => obtain hw | hw := hw <;> simp [State.rank, hw, Waiter.rank]
  | leave hw _ | commit hw _ | wait hw | finish hw => simp [State.rank, hw, Waiter.rank]
  | spurious hw => simp [State.rank, hw, Waiter.rank]
  | writeBefore hpc | lockMutex hpc _ | writeInside hpc | unlock hpc =>
    simp only [State.rank, hpc, Completer.rank, List.length_cons, List.length_nil]
    omega
  | signal hpc =>
    have hsignal := s.waiter.rank_signal
    simp only [State.rank, hpc, Completer.rank, List.length_nil]
    omega

theorem rank_run {es : List Event} (hrun : (machine c).runFrom s es = some t) :
    t.rank c + es.length ≤ s.rank c + 4 * es.count .spurious := by
  induction es generalizing s with
  | nil =>
    simp only [runFrom, Option.some.injEq] at hrun
    simp [hrun]
  | cons e es ih =>
    obtain ⟨u, hu, hrest⟩ := Option.bind_eq_some_iff.mp hrun
    have hstep := (stepped_of_step hu).rank
    have hrun := ih hrest
    rw [List.length_cons, ← List.singleton_append, List.count_append]
    omega

theorem stays_unwritten {es : List Event} (hes : .completer ∉ es) (hwritten : s.written = [])
    (hseen : s.waiter.seen = []) (hrun : (machine c).runFrom s es = some t) :
    t.waiter.seen = [] := by
  have hlast := (machine c).runFrom_invariant
    (I := fun s => s.written = [] ∧ s.waiter.seen = []) (A := fun e => e ≠ .completer)
    (fun s e t h he hs => by
      have hnone : s.completed = false := by simp [State.completed, h.1]
      cases stepped_of_step hs with
      | leave hw hcompleted => simp [hnone] at hcompleted
      | finish hw => simp [hw, Waiter.seen] at h
      | lock | commit | wait | spurious => exact ⟨h.1, rfl⟩
      | _ => exact absurd rfl he)
    es (fun e he heq => hes (heq ▸ he)) ⟨hwritten, hseen⟩ hrun
  exact hlast.2

theorem gets_away_iff (hc : .complete ∈ c.writes) {es : List Event}
    (hrun : (machine c).run es = some s)
    (hends : s.completer = .before c.before ∨ s.completer = .done) :
    (∃ es' t early late, .completer ∉ es' ∧ (machine c).runFrom s es' = some t ∧
      t.waiter = .finished early late) ↔ s.completer = .done := by
  have h := inv_run hc hrun
  constructor
  · intro haway
    obtain ⟨es', t, early, late, hes, hrun', hfinished⟩ := haway
    obtain hbefore | hdone := hends
    · have hwritten : s.written = [] := by
        have hall := h.written
        rw [hbefore, Completer.left, Completion.writes] at hall
        simpa using hall
      have hnone : s.waiter.seen = [] := by
        by_contra hne
        simpa [State.completed, hwritten] using h.seen hne
      have hseen := stays_unwritten hes hwritten hnone hrun'
      simp [hfinished, Waiter.seen] at hseen
    · exact hdone
  · intro hdone
    obtain ⟨n, t, early, late, haway, hfinished⟩ := h.gets_away hc hdone
    refine ⟨_, t, early, late, ?_, haway, hfinished⟩
    intro hmem
    cases (List.mem_replicate.mp hmem).2

/-- Nothing is stored after a completion that is visible without the mutex. -/
def Completion.StoresFirst (c : Completion F) : Prop :=
  ∀ made later, c.before = made ++ .complete :: later →
    (later ++ c.inside).filterMap Write.field? = []

theorem storesFirst_of_complete_last (fields : List F)
    (hbefore : c.before = fields.map .store ++ [.complete]) (hinside : c.inside = []) :
    c.StoresFirst := by
  intro made later h
  obtain rfl | ⟨init, last, rfl⟩ := List.eq_nil_or_concat later
  · simp [hinside]
  · rw [hbefore, List.concat_eq_append, ← List.cons_append, ← List.append_assoc] at h
    have hstores := (List.append_inj' h rfl).1
    have hmem : .complete ∈ fields.map Write.store := by simp [hstores]
    simp at hmem

theorem Inv.outcome (h : Inv c s) :
    s.stored ++ (s.completer.left c).filterMap Write.field? = c.outcome := by
  rw [State.stored, ← List.filterMap_append, h.written, Completion.outcome]

theorem Inv.stores_made (h : Inv c s) (hfirst : c.StoresFirst) (hcompleted : s.completed = true)
    (hfree : s.completer.holds = false) : (s.completer.left c).filterMap Write.field? = [] := by
  cases hpc : s.completer with
  | before left =>
    have hmem : .complete ∈ s.written := by
      obtain ⟨w, hw, hcomplete⟩ := List.any_eq_true.mp hcompleted
      cases w with
      | complete => exact hw
      | store => simp [Write.isComplete] at hcomplete
    obtain ⟨made, later, hwritten⟩ := List.append_of_mem hmem
    have hbefore : c.before = made ++ .complete :: (later ++ left) := by
      apply (List.append_left_inj c.inside).mp
      simpa [hpc, hwritten, Completer.left, Completion.writes] using h.written.symm
    have hnone := hfirst _ _ hbefore
    rw [List.append_assoc, List.filterMap_append, List.append_eq_nil_iff] at hnone
    exact hnone.2
  | done => rfl
  | inside left => simp [hpc, Completer.holds] at hfree
  | signalled => rfl

structure Reads (c : Completion F) (s : State F) : Prop where
  seen : ∀ fs ∈ s.waiter.seen, fs = c.outcome
  left : s.waiter.seen ≠ [] → (s.completer.left c).filterMap Write.field? = []

theorem Reads.waiter (h : Reads c s) (hinv : Inv c s) (hfirst : c.StoresFirst)
    (hs : Stepped c s .waiter t) : Reads c t := by
  cases hs with
  | lock | commit | wait => exact ⟨by simp [Waiter.seen], by simp [Waiter.seen]⟩
  | leave hw hcompleted =>
    have hleft := hinv.stores_made hfirst hcompleted (hinv.exclusive (by rw [hw]; rfl))
    refine ⟨?_, fun _ => hleft⟩
    simpa [Waiter.seen, hleft] using hinv.outcome
  | finish hw =>
    have hleft := h.left (by simp [hw, Waiter.seen])
    refine ⟨?_, fun _ => hleft⟩
    have hearly := h.seen _ (by rw [hw]; exact List.mem_singleton_self _)
    have hlate := hinv.outcome
    rw [hleft, List.append_nil] at hlate
    simp [Waiter.seen, hearly, hlate]

theorem Reads.completer (h : Reads c s) (hs : Stepped c s .completer t) : Reads c t := by
  have hseen : t.waiter.seen = s.waiter.seen := by
    cases hs with
    | signal => exact s.waiter.seen_signal
    | _ => rfl
  have hleft : (t.completer.left c) <:+ (s.completer.left c) := by
    cases hs with
    | writeBefore hpc | writeInside hpc => simp [hpc, Completer.left]
    | lockMutex hpc _ | signal hpc | unlock hpc => simp [hpc, Completer.left]
  constructor
  · rw [hseen]
    exact h.seen
  · intro hne
    obtain ⟨made, hmade⟩ := hleft
    have hnone := h.left (hseen ▸ hne)
    rw [← hmade, List.filterMap_append, List.append_eq_nil_iff] at hnone
    exact hnone.2

theorem reads_run (hc : .complete ∈ c.writes) (hfirst : c.StoresFirst) {es : List Event}
    (hrun : (machine c).run es = some s) : Reads c s := by
  have hboth := (machine c).run_invariant (I := fun s => Inv c s ∧ Reads c s)
    ⟨inv_init, by simp [machine, Waiter.seen], by simp [machine, Waiter.seen]⟩
    (fun s e t h hs => by
      have hstepped := stepped_of_step hs
      refine ⟨h.1.step hc hstepped, ?_⟩
      cases e with
      | waiter => exact h.2.waiter h.1 hfirst hstepped
      | completer => exact h.2.completer hstepped
      | spurious =>
        cases hstepped
        exact ⟨by simp [Waiter.seen], by simp [Waiter.seen]⟩) hrun
  exact hboth.2

theorem run_writes (made left written : List (Write F)) :
    (machine c).runFrom ⟨.entering, .before (made ++ left), written⟩
      (List.replicate made.length .completer) =
        some ⟨.entering, .before left, written ++ made⟩ := by
  induction made generalizing written with
  | nil => simp [runFrom]
  | cons w made ih =>
    rw [List.length_cons, List.replicate_succ, runFrom]
    have hnext := ih (written ++ [w])
    rw [List.append_assoc, List.singleton_append] at hnext
    exact hnext

theorem exists_early {made later : List (Write F)}
    (h : c.before = made ++ .complete :: later) :
    ∃ es, (machine c).run es = some
      ⟨.finished (made.filterMap Write.field?) (made.filterMap Write.field?), .before later,
        made ++ [.complete]⟩ := by
  have hwrites := run_writes (c := c) (made ++ [.complete]) later []
  refine ⟨List.replicate (made ++ [Write.complete]).length .completer ++
    [.waiter, .waiter, .waiter], ?_⟩
  have hinit : (machine c).init = ⟨.entering, .before (made ++ [.complete] ++ later), []⟩ := by
    simp [machine, h]
  rw [run, runFrom_append, hinit, hwrites]
  simp [runFrom, machine, step, State.waiterStep, Completer.holds, State.completed, State.stored,
    Write.isComplete, Write.field?]

theorem reads_outcome_iff (hc : .complete ∈ c.writes) :
    (∀ es s early late, (machine c).run es = some s → s.waiter = .finished early late →
      early = c.outcome ∧ late = c.outcome) ↔ c.StoresFirst := by
  constructor
  · intro hreads made later hbefore
    obtain ⟨es, hrun⟩ := exists_early hbefore
    have hlate := (hreads es _ _ _ hrun rfl).2
    simp only [Completion.outcome, Completion.writes, hbefore, List.append_assoc,
      List.cons_append, List.filterMap_append, List.filterMap_cons, Write.field?] at hlate
    simpa using hlate
  · intro hfirst es s early late hrun hw
    have hreads := (reads_run hc hfirst hrun).seen
    rw [hw] at hreads
    exact ⟨hreads early (by simp [Waiter.seen]), hreads late (by simp [Waiter.seen])⟩

/-- The completing thread is not done with the object when the waiting thread frees it. -/
def Dangling (s : State F) : Prop :=
  (∃ early late, s.waiter = .finished early late) ∧ s.completer ≠ .done

theorem done_run (hc : .complete ∈ c.writes) (hlocked : .complete ∉ c.before) {es : List Event}
    (hrun : (machine c).run es = some s) (hseen : s.waiter.seen ≠ []) : s.completer = .done := by
  have hboth := (machine c).run_invariant
    (I := fun s => Inv c s ∧ (s.waiter.seen ≠ [] → s.completer = .done))
    ⟨inv_init, by simp [machine, Waiter.seen]⟩
    (fun s e t h hs => by
      have hstepped := stepped_of_step hs
      refine ⟨h.1.step hc hstepped, ?_⟩
      obtain ⟨hinv, hdone⟩ := h
      cases hstepped with
      | lock | commit | wait | spurious => simp [Waiter.seen]
      | finish hw => exact fun _ => hdone (by simp [hw, Waiter.seen])
      | leave hw hcompleted =>
        intro _
        have hfree := hinv.exclusive (by rw [hw]; rfl)
        cases hpc : s.completer with
        | done => rfl
        | inside left => simp [hpc, Completer.holds] at hfree
        | signalled => simp [hpc, Completer.holds] at hfree
        | before left =>
          obtain ⟨w, hmem, hcomplete⟩ := List.any_eq_true.mp hcompleted
          have hbefore : s.written ++ left = c.before := by
            apply (List.append_left_inj c.inside).mp
            simpa [hpc, Completer.left, Completion.writes] using hinv.written
          cases w with
          | complete => exact absurd (hbefore ▸ List.mem_append_left _ hmem) hlocked
          | store => simp [Write.isComplete] at hcomplete
      | writeBefore hpc | lockMutex hpc _ | writeInside hpc | unlock hpc =>
        intro hne
        simp [hdone hne] at hpc
      | signal hpc =>
        intro hne
        rw [Waiter.seen_signal] at hne
        simp [hdone hne] at hpc) hrun
  exact hboth.2 hseen

theorem never_dangling_iff (hc : .complete ∈ c.writes) :
    (∀ es s, (machine c).run es = some s → ¬ Dangling s) ↔ .complete ∉ c.before := by
  constructor
  · intro hnever hmem
    obtain ⟨made, later, hbefore⟩ := List.append_of_mem hmem
    obtain ⟨es, hrun⟩ := exists_early hbefore
    exact hnever es _ hrun ⟨⟨_, _, rfl⟩, by simp⟩
  · intro hlocked es s hrun hdangling
    obtain ⟨⟨early, late, hw⟩, hnot⟩ := hdangling
    exact hnot (done_run hc hlocked hrun (by simp [hw, Waiter.seen]))

end Await
