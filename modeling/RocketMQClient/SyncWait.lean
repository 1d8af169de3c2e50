import RocketMQClient.Library.EventMachine
import Mathlib.Tactic.Common

/-! Synchronous wrappers around asynchronous calls: a thread starts its calls and
waits on a condition variable that their callbacks signal. The interleaving is at
the level of single accesses to the counter, the mutex and the condition variable.
A signal wakes the thread only if it is already waiting. -/

namespace RocketMQClient.SyncWait
open EventMachine EventMachine.Machine

/-- In what the wrappers differ. `tests` is the loop `while (countdown)` around the
wait, and `setsLocked` says that a callback changes the counter under the mutex. A
completion flag is a counter of one call. -/
structure Wrapper where
  calls : ℕ
  tests : Bool
  setsLocked : Bool

def getPublishInfo : Wrapper := ⟨1, true, true⟩
def listMessageQueue : Wrapper := ⟨1, true, true⟩
def fetchRoutes (topics : List String) : Wrapper := ⟨topics.length, true, true⟩
def endTransaction0 : Wrapper := ⟨1, false, false⟩

/-- The point the waiting thread is at: before a call with `rest` calls after it, before
the test of the counter, before it locks the mutex, before `cv.Wait`, inside it, signalled
but without the mutex, out of `cv.Wait` with the mutex, and after the wrapper has returned. -/
inductive Waiter
  | calling (rest : ℕ)
  | testing
  | entering
  | locked
  | waiting
  | woken
  | relocked
  | returned
deriving DecidableEq, Repr

inductive Callback
  | outstanding
  | counted
  | locked
  | holding
  | signalled
  | finished
deriving DecidableEq, Repr

structure State where
  waiter : Waiter
  callbacks : List Callback
  countdown : ℕ
  mutexHeld : Bool
deriving DecidableEq, Repr

inductive Event
  | waiter
  | callback (i : ℕ)
deriving DecidableEq, Repr

def Wrapper.await (w : Wrapper) : Waiter := if w.tests then .testing else .entering

-- with no call to wait for the wrapper returns at once
def Wrapper.begin (w : Wrapper) : Waiter :=
  match w.calls with
  | 0 => .returned
  | n + 1 => .calling n

def State.lock (s : State) (next : State) : Option State :=
  if s.mutexHeld then none else some { next with mutexHeld := true }

def waiterStep (w : Wrapper) (s : State) : Option State :=
  match s.waiter with
  | .calling 0 => some { s with
      waiter := w.await, callbacks := s.callbacks ++ [.outstanding] }
  | .calling (n + 1) => some { s with
      waiter := .calling n, callbacks := s.callbacks ++ [.outstanding] }
  | .testing => some { s with waiter := if s.countdown = 0 then .returned else .entering }
  | .entering => s.lock { s with waiter := .locked }
  | .locked => some { s with waiter := .waiting, mutexHeld := false }
  | .waiting => none
  | .woken => s.lock { s with waiter := .relocked }
  | .relocked => some { s with
      waiter := if w.tests then .testing else .returned, mutexHeld := false }
  | .returned => none

def Waiter.signal : Waiter → Waiter
  | .waiting => .woken
  | p => p

def callbackStep (w : Wrapper) (s : State) (i : ℕ) : Option State :=
  let reach c := { s with callbacks := s.callbacks.set i c }
  s.callbacks[i]?.bind fun c => match c with
  | .outstanding =>
    if w.setsLocked then s.lock (reach .locked)
    else some { reach .counted with countdown := s.countdown - 1 }
  | .counted => s.lock (reach .holding)
  | .locked => some { reach .holding with countdown := s.countdown - 1 }
  | .holding => some { reach .signalled with waiter := s.waiter.signal }
  | .signalled => some { reach .finished with mutexHeld := false }
  | .finished => none

def machine (w : Wrapper) : Machine State Event where
  init := ⟨w.begin, [], w.calls, false⟩
  step := fun s e => match e with
    | .waiter => waiterStep w s
    | .callback i => callbackStep w s i

/-- The thread is blocked in `cv.Wait` and no callback is left to signal it. -/
def Hung (s : State) : Prop := s.waiter = .waiting ∧ ∀ c ∈ s.callbacks, c = .finished

def Waiter.Committed (p : Waiter) : Prop := p = .entering ∨ p = .locked

instance (p : Waiter) : Decidable p.Committed := inferInstanceAs (Decidable (_ ∨ _))

/-- The signal that follows the last decrement does not fall between the test of the
counter and `cv.Wait`. Without a test that window begins with the call itself. -/
def SignalsInTime (s : State) : Event → Prop
  | .waiter => True
  | .callback i =>
    s.callbacks[i]? = some .holding → s.countdown = 0 → ¬ s.waiter.Committed

instance : ∀ s e, Decidable (SignalsInTime s e)
  | _, .waiter => inferInstanceAs (Decidable True)
  | _, .callback _ => inferInstanceAs (Decidable (_ → _))

def Callback.uncounted : Callback → Bool
  | .outstanding | .locked => true
  | _ => false

def Callback.unsignalled : Callback → Bool
  | .signalled | .finished => false
  | _ => true

theorem Callback.unsignalled_of_uncounted {c : Callback} (h : c.uncounted = true) :
    c.unsignalled = true := by
  cases c <;> simp_all [uncounted, unsignalled]

def Waiter.left : Waiter → ℕ
  | .calling n => n + 1
  | _ => 0

structure Awaited (s : State) : Prop where
  countdown_eq : s.countdown = s.waiter.left + s.callbacks.countP Callback.uncounted
  unsignalled : s.waiter.Committed ∨ s.waiter = .waiting →
    ∃ c ∈ s.callbacks, c.unsignalled = true

theorem mem_set_of_ne {cs : List Callback} {i : ℕ} {c c' : Callback} (hi : cs[i]? = some c)
    (hmem : c' ∈ cs) (hne : c' ≠ c) (d : Callback) : c' ∈ cs.set i d := by
  obtain ⟨j, hj⟩ := List.mem_iff_getElem?.mp hmem
  have hij : i ≠ j := by
    intro heq
    subst heq
    exact hne (Option.some.inj (hj.symm.trans hi))
  apply List.mem_iff_getElem?.mpr
  exact ⟨j, by rw [List.getElem?_set_ne hij, hj]⟩

theorem unsignalled_set {cs : List Callback} {i : ℕ} {c d : Callback} (hi : cs[i]? = some c)
    (hd : c.unsignalled = true → d.unsignalled = true)
    (h : ∃ c' ∈ cs, c'.unsignalled = true) : ∃ c' ∈ cs.set i d, c'.unsignalled = true := by
  obtain ⟨c', hmem, hc'⟩ := h
  by_cases heq : c' = c
  · have hlt : i < cs.length := (List.getElem?_eq_some_iff.mp hi).1
    exact ⟨d, List.mem_set hlt d, hd (heq ▸ hc')⟩
  · exact ⟨c', mem_set_of_ne hi hmem heq d, hc'⟩

theorem uncounted_set {cs : List Callback} {i : ℕ} {c : Callback} (hi : cs[i]? = some c)
    (d : Callback) :
    (cs.set i d).countP Callback.uncounted + c.uncounted.toNat =
      cs.countP Callback.uncounted + d.uncounted.toNat := by
  obtain ⟨hlt, rfl⟩ := List.getElem?_eq_some_iff.mp hi
  rw [List.countP_set hlt]
  cases hc : cs[i].uncounted with
  | false => cases d.uncounted <;> simp
  | true =>
    have hpos : 0 < cs.countP Callback.uncounted :=
      List.countP_pos_iff.mpr ⟨_, List.getElem_mem hlt, hc⟩
    cases d.uncounted <;> simp <;> omega

theorem Awaited.advance {s : State} {i : ℕ} {c : Callback} (h : Awaited s)
    (hi : s.callbacks[i]? = some c) {d : Callback} {k : ℕ} {held : Bool}
    (hk : k + c.uncounted.toNat = s.countdown + d.uncounted.toNat)
    (hd : c.unsignalled = true → d.unsignalled = true) :
    Awaited ⟨s.waiter, s.callbacks.set i d, k, held⟩ := by
  refine ⟨?_, fun hc => unsignalled_set hi hd (h.unsignalled hc)⟩
  have hset := uncounted_set hi d
  have hcount := h.countdown_eq
  simp only
  omega

theorem Awaited.exists_uncounted {s : State} (h : Awaited s) (hleft : s.waiter.left = 0)
    (hne : s.countdown ≠ 0) : ∃ c ∈ s.callbacks, c.uncounted = true := by
  have hcount := h.countdown_eq
  apply List.countP_pos_iff.mp
  omega

theorem Awaited.signal {s : State} {i : ℕ} (h : Awaited s)
    (hi : s.callbacks[i]? = some .holding) (hok : SignalsInTime s (.callback i)) :
    Awaited ⟨s.waiter.signal, s.callbacks.set i .signalled, s.countdown, s.mutexHeld⟩ := by
  have hleft : s.waiter.signal.left = s.waiter.left := by cases s.waiter <;> rfl
  refine ⟨?_, fun hc => ?_⟩
  · have hset := uncounted_set hi .signalled
    simp only [Callback.uncounted, Bool.toNat_false] at hset
    rw [hleft, h.countdown_eq]
    simp only
    omega
  · -- the thread was not waiting, so by the guard a call has not been counted yet
    have hcom : s.waiter.Committed := by
      cases hw : s.waiter <;> simp [hw, Waiter.signal, Waiter.Committed] at hc ⊢
    have hleft : s.waiter.left = 0 := by
      rcases hcom with hw | hw <;> rw [hw] <;> rfl
    obtain ⟨c, hmem, hc⟩ := h.exists_uncounted hleft fun h0 => hok hi h0 hcom
    have hne : c ≠ .holding := by
      intro heq
      simp [heq, Callback.uncounted] at hc
    exact ⟨c, mem_set_of_ne hi hmem hne _, Callback.unsignalled_of_uncounted hc⟩

theorem State.lock_eq_some {s next t : State} (h : s.lock next = some t) :
    t = { next with mutexHeld := true } := by
  unfold State.lock at h
  split at h
  · cases h
  · exact (Option.some.inj h).symm

theorem awaited_callbackStep {w : Wrapper} {s t : State} {i : ℕ} (h : Awaited s)
    (hok : SignalsInTime s (.callback i)) (hstep : callbackStep w s i = some t) :
    Awaited t := by
  obtain ⟨c, hi, hc⟩ := Option.bind_eq_some_iff.mp hstep
  have hpos : c.uncounted = true → 0 < s.countdown := fun hu => by
    have := List.countP_pos_iff.mpr ⟨c, List.mem_of_getElem? hi, hu⟩
    have := h.countdown_eq
    omega
  cases c with
  | outstanding =>
    have := hpos rfl
    simp only at hc
    split at hc
    · rw [State.lock_eq_some hc]
      exact h.advance hi rfl fun _ => rfl
    · cases hc
      exact h.advance hi (by simp [Callback.uncounted]; omega) fun _ => rfl
  | counted =>
    rw [State.lock_eq_some hc]
    exact h.advance hi rfl fun _ => rfl
  | locked =>
    have := hpos rfl
    cases hc
    exact h.advance hi (by simp [Callback.uncounted]; omega) fun _ => rfl
  | holding =>
    cases hc
    exact h.signal hi hok
  | signalled =>
    cases hc
    exact h.advance hi rfl fun hu => by simp [Callback.unsignalled] at hu
  | finished => cases hc

theorem Awaited.of_waiter {s : State} (h : Awaited s) {p : Waiter} {held : Bool}
    (hleft : p.left = s.waiter.left)
    (hp : p.Committed ∨ p = .waiting → ∃ c ∈ s.callbacks, c.unsignalled = true) :
    Awaited ⟨p, s.callbacks, s.countdown, held⟩ :=
  ⟨hleft ▸ h.countdown_eq, hp⟩

theorem Awaited.call {s : State} (h : Awaited s) {p : Waiter}
    (hleft : p.left + 1 = s.waiter.left) :
    Awaited ⟨p, s.callbacks ++ [.outstanding], s.countdown, s.mutexHeld⟩ := by
  refine ⟨?_, fun _ => ⟨.outstanding, by simp, rfl⟩⟩
  have hcount := h.countdown_eq
  simp only [List.countP_append, List.countP_singleton, Callback.uncounted, reduceIte]
  omega

theorem awaited_waiterStep {w : Wrapper} {s t : State} (h : Awaited s)
    (hstep : waiterStep w s = some t) : Awaited t := by
  unfold waiterStep at hstep
  cases hpc : s.waiter with
  | calling n =>
    cases n with
    | zero =>
      simp only [hpc, Option.some.injEq] at hstep
      subst hstep
      apply h.call
      rw [hpc]
      unfold Wrapper.await
      split <;> rfl
    | succ n =>
      simp only [hpc, Option.some.injEq] at hstep
      subst hstep
      exact h.call (by rw [hpc]; rfl)
  | testing =>
    simp only [hpc, Option.some.injEq] at hstep
    subst hstep
    split
    · exact h.of_waiter (by rw [hpc]; rfl) (by simp [Waiter.Committed])
    · -- some call has not been counted down, so its callback has not signalled
      rename_i hne
      apply h.of_waiter (by rw [hpc]; rfl)
      intro _
      obtain ⟨c, hmem, hc⟩ := h.exists_uncounted (by rw [hpc]; rfl) hne
      exact ⟨c, hmem, Callback.unsignalled_of_uncounted hc⟩
  | entering =>
    simp only [hpc] at hstep
    rw [State.lock_eq_some hstep]
    exact h.of_waiter (by rw [hpc]; rfl) fun _ => h.unsignalled (.inl (.inl hpc))
  | locked =>
    simp only [hpc, Option.some.injEq] at hstep
    subst hstep
    exact h.of_waiter (by rw [hpc]; rfl) fun _ => h.unsignalled (.inl (.inr hpc))
  | waiting => simp [hpc] at hstep
  | woken =>
    simp only [hpc] at hstep
    rw [State.lock_eq_some hstep]
    exact h.of_waiter (by rw [hpc]; rfl) (by simp [Waiter.Committed])
  | relocked =>
    simp only [hpc, Option.some.injEq] at hstep
    subst hstep
    split
    · exact h.of_waiter (by rw [hpc]; rfl) (by simp [Waiter.Committed])
    · exact h.of_waiter (by rw [hpc]; rfl) (by simp [Waiter.Committed])
  | returned => simp [hpc] at hstep

theorem awaited_init (w : Wrapper) : Awaited (machine w).init := by
  have hleft : w.begin.left = w.calls := by
    unfold Wrapper.begin
    cases w.calls <;> rfl
  refine ⟨by simp [machine, hleft], fun hc => ?_⟩
  simp only [machine, Wrapper.begin] at hc
  cases hn : w.calls <;> simp [hn, Waiter.Committed] at hc

theorem Awaited.not_hung {s : State} (h : Awaited s) : ¬ Hung s := by
  intro hhung
  obtain ⟨c, hmem, hc⟩ := h.unsignalled (.inr hhung.1)
  rw [hhung.2 c hmem] at hc
  simp [Callback.unsignalled] at hc

theorem never_hung_along (w : Wrapper) (es : List Event)
    (hok : (machine w).Guarded SignalsInTime (machine w).init es) :
    (machine w).Along (fun s => ¬ Hung s) (machine w).init es := by
  refine along_of_guarded (J := Awaited) _ (fun s e t hJ hg hstep => ?_)
    (fun s hJ => hJ.not_hung) (awaited_init w) hok
  cases e with
  | waiter => exact awaited_waiterStep hJ hstep
  | callback i => exact awaited_callbackStep hJ hg hstep

theorem two_routes_fetched_without_hanging :
    (machine (fetchRoutes ["a", "b"])).Along (fun s => ¬ Hung s)
      (machine (fetchRoutes ["a", "b"])).init
      [.waiter, .callback 0, .callback 0, .callback 0, .callback 0, .waiter, .waiter, .waiter,
        .waiter, .callback 1, .callback 1, .callback 1, .callback 1, .waiter, .waiter,
        .waiter] := by
  apply never_hung_along
  decide

def CanHang (w : Wrapper) : Prop := ∃ es t, (machine w).run es = some t ∧ Hung t

/-- The callback runs to its end after the thread has tested the flag, or in
`endTransaction0` during the call. -/
theorem wrappers_can_hang :
    CanHang getPublishInfo ∧ CanHang listMessageQueue ∧ CanHang (fetchRoutes ["a"]) ∧
      CanHang endTransaction0 := by
  have htested : CanHang ⟨1, true, true⟩ :=
    ⟨[.waiter, .waiter, .callback 0, .callback 0, .callback 0, .callback 0, .waiter, .waiter],
      _, rfl, rfl, by simp [machine]⟩
  have hcall : CanHang endTransaction0 :=
    ⟨[.waiter, .callback 0, .callback 0, .callback 0, .callback 0, .waiter, .waiter],
      _, rfl, rfl, by simp [machine]⟩
  exact ⟨htested, htested, htested, hcall⟩

end RocketMQClient.SyncWait
