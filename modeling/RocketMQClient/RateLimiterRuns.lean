import RocketMQClient.Library.EventMachine
import RocketMQClient.Library.Pending
import RocketMQClient.RateLimiter

/-!
# The rate limiter under any number of threads

A thread reads its slot before it locks the mutex, so between the two any other thread
may run and the clock may move. Under the mutex a critical section is one step. Where an
`acquire()` finds no permit it waits on the condition variable: the predicate reads the
clock, and after the wait the clock is read again for the slot to decrement. Both readings
are part of the event; a thread that waits may wake up at any time.
-/

namespace RocketMQClient
open CounterRing EventMachine

namespace RateLimiter
variable {P : ℕ}

def held (l : RateLimiter P) (idx : Fin P) : Option (Fin P) :=
  if 0 < l.permits idx then some idx
  else ((List.range (P / 2)).map fun j => back idx (j + 1)).find? fun index =>
    0 < l.permits index

theorem held_pos {l : RateLimiter P} {idx i : Fin P} (h : l.held idx = some i) :
    0 < l.permits i := by
  unfold held at h
  split_ifs at h with hpos
  · obtain rfl := Option.some.inj h
    exact hpos
  · have hfound := List.find?_some h
    exact of_decide_eq_true hfound

def decrement (l : RateLimiter P) (idx : Fin P) : RateLimiter P :=
  { l with permits := Function.update l.permits idx (l.permits idx - 1) }

inductive Thread (P : ℕ)
  | acquire (idx : Fin P)
  | acquireMany (idx : Fin P) (permit : UInt32)
  | tick (idx : Fin P)
  | waiting

inductive Call
  | acquire
  | acquireMany (permit : UInt32)
  | tick

def Call.thread (idx : Fin P) : Call → Thread P
  | .acquire => .acquire idx
  | .acquireMany permit => .acquireMany idx permit
  | .tick => .tick idx

/-- `underflow` remembers whether a slot without permits was ever decremented. -/
structure Shared (P : ℕ) where
  limiter : RateLimiter P
  clock : ℕ
  threads : List (Thread P)
  underflow : Bool

inductive Event
  | call (c : Call) (now : ℕ)
  | enter (i : ℕ) (now later : ℕ)

namespace Shared

def take (s : Shared P) (idx : Fin P) : Shared P :=
  { s with limiter := s.limiter.decrement idx
           underflow := s.underflow || s.limiter.permits idx == 0 }

variable [NeZero P]

def await (s : Shared P) (now later : ℕ) : Shared P :=
  if 0 < s.limiter.permits (slot P now) then s.take (slot P later)
  else { s with threads := s.threads ++ [.waiting] }

def critical (s : Shared P) (now later : ℕ) : Thread P → Shared P
  | .acquire idx =>
    match s.limiter.held idx with
    | some index => s.take index
    | none => s.await now later
  | .acquireMany idx permit => { s with limiter := (s.limiter.acquire idx permit).1 }
  | .tick idx => { s with limiter := s.limiter.tick idx }
  | .waiting => s.await now later

def step (s : Shared P) : Event → Option (Shared P)
  | .call c now =>
    if s.clock ≤ now then
      some { s with clock := now, threads := s.threads ++ [c.thread (slot P now)] }
    else none
  | .enter i now later =>
    if s.clock ≤ now ∧ now ≤ later then
      (Pending.pick s.threads i).map fun r =>
        critical { s with clock := later, threads := r.2 } now later r.1
    else none

end Shared

def machine (P : ℕ) [NeZero P] (permit : UInt32) : Machine (Shared P) Event where
  init := { limiter := new P permit, clock := 0, threads := [], underflow := false }
  step := Shared.step

structure Sound (s : Shared P) : Prop where
  quota : ∀ i, s.limiter.permits i ≤ s.limiter.partition i
  noUnderflow : s.underflow = false

theorem sound_take_iff {s : Shared P} (h : Sound s) (idx : Fin P) :
    Sound (s.take idx) ↔ 0 < s.limiter.permits idx := by
  constructor
  · intro hs
    have hflag := hs.noUnderflow
    simp only [Shared.take, h.noUnderflow, Bool.false_or, beq_eq_false_iff_ne] at hflag
    rw [UInt32.pos_iff_ne_zero]
    exact hflag
  · intro hpos
    have hle : s.limiter.permits idx - 1 ≤ s.limiter.permits idx := by
      have hone : (1 : UInt32) ≤ s.limiter.permits idx := by
        rw [UInt32.le_iff_toNat_le]
        exact UInt32.lt_iff_toNat_lt.mp hpos
      rw [UInt32.le_iff_toNat_le, UInt32.toNat_sub_of_le _ _ hone]
      exact Nat.sub_le _ _
    constructor
    · intro i
      exact UInt32.le_trans (update_le hle i) (h.quota i)
    · simp only [Shared.take, h.noUnderflow, Bool.false_or, beq_eq_false_iff_ne]
      exact UInt32.pos_iff_ne_zero.mp hpos

def Waits (l : RateLimiter P) : Thread P → Prop
  | .acquire idx => l.held idx = none
  | .waiting => True
  | _ => False

instance (l : RateLimiter P) : ∀ th, Decidable (l.Waits th)
  | .acquire idx => inferInstanceAs (Decidable (l.held idx = none))
  | .acquireMany _ _ => .isFalse id
  | .tick _ => .isFalse id
  | .waiting => .isTrue trivial

section Guard
variable [NeZero P]

/-- If the predicate of a wait holds in the slot of its reading, the slot of the reading
after the wait has a permit, too. -/
def Steady (s : Shared P) : Event → Prop
  | .call _ _ => True
  | .enter i now later =>
    ∀ r ∈ Pending.pick s.threads i, s.limiter.Waits r.1 →
      0 < s.limiter.permits (slot P now) → 0 < s.limiter.permits (slot P later)

instance (s : Shared P) : ∀ e, Decidable (Steady s e)
  | .call _ _ => .isTrue trivial
  | .enter i now later => inferInstanceAs (Decidable (∀ r ∈ Pending.pick s.threads i,
      s.limiter.Waits r.1 →
        0 < s.limiter.permits (slot P now) → 0 < s.limiter.permits (slot P later)))

theorem sound_await_iff {s : Shared P} (h : Sound s) (now later : ℕ) :
    Sound (s.await now later) ↔
      (0 < s.limiter.permits (slot P now) → 0 < s.limiter.permits (slot P later)) := by
  unfold Shared.await
  split_ifs with hpos
  · rw [sound_take_iff h, forall_prop_of_true hpos]
  · exact ⟨fun _ h => absurd h hpos, fun _ => ⟨h.quota, h.noUnderflow⟩⟩

theorem sound_critical_iff {s : Shared P} (h : Sound s) (now later : ℕ) (th : Thread P) :
    Sound (s.critical now later th) ↔
      (s.limiter.Waits th →
        0 < s.limiter.permits (slot P now) → 0 < s.limiter.permits (slot P later)) := by
  cases th with
  | acquire idx =>
    rw [Waits, Shared.critical]
    cases hheld : s.limiter.held idx with
    | some index =>
      have hsound : Sound (s.take index) := (sound_take_iff h index).mpr (held_pos hheld)
      exact ⟨fun _ hn => absurd hn (by simp), fun _ => hsound⟩
    | none =>
      rw [forall_prop_of_true rfl]
      exact sound_await_iff h now later
  | acquireMany idx permit =>
    refine ⟨fun _ hw => hw.elim, fun _ => ⟨fun i => ?_, h.noUnderflow⟩⟩
    simp only [Shared.critical, acquire_partition]
    exact UInt32.le_trans (acquire_permits_le i) (h.quota i)
  | tick idx =>
    refine ⟨fun _ hw => hw.elim, fun _ => ⟨fun i => ?_, h.noUnderflow⟩⟩
    simp only [Shared.critical, RateLimiter.tick]
    by_cases hi : i = idx
    · subst hi
      rw [Function.update_self]
      exact UInt32.le_refl _
    · rw [Function.update_of_ne hi]
      exact h.quota i
  | waiting =>
    rw [Waits, forall_prop_of_true trivial]
    exact sound_await_iff h now later

theorem sound_step_iff {s t : Shared P} {e : Event} (h : Sound s) (hstep : s.step e = some t) :
    Sound t ↔ Steady s e := by
  cases e with
  | call c now =>
    simp only [Shared.step] at hstep
    split_ifs at hstep
    obtain rfl := Option.some.inj hstep
    exact ⟨fun _ => trivial, fun _ => ⟨h.quota, h.noUnderflow⟩⟩
  | enter i now later =>
    simp only [Shared.step] at hstep
    split_ifs at hstep
    obtain ⟨⟨th, rest⟩, hpick, rfl⟩ := Option.map_eq_some_iff.mp hstep
    have hrest : Sound { s with clock := later, threads := rest } := ⟨h.quota, h.noUnderflow⟩
    rw [sound_critical_iff hrest]
    simp [Steady, hpick]

/-- In a run no slot ever exceeds its quota, and none is decremented at zero, exactly if
every wait ends with both readings of the clock in slots that hold a permit. -/
theorem permits_within_quota_iff (permit : UInt32) (es : List Event) :
    (machine P permit).Along Sound (machine P permit).init es ↔
      (machine P permit).Guarded Steady (machine P permit).init es := by
  have hinit : Sound (machine P permit).init := ⟨fun _ => UInt32.zero_le, rfl⟩
  apply (machine P permit).along_iff_guarded (J := fun _ => True) (A := fun _ => True)
  · intros
    trivial
  · intro s e t _ hs _ hstep
    exact sound_step_iff hs hstep
  · intros
    trivial
  · trivial
  · exact hinit

end Guard

def waitWithinSlot : List Event :=
  [.call .acquire 0, .enter 0 0 0, .call .tick 1, .enter 1 1 1, .enter 0 98 99]

theorem wait_within_slot_keeps_quota :
    (machine 10 10).Along Sound (machine 10 10).init waitWithinSlot := by
  apply (permits_within_quota_iff 10 waitWithinSlot).mpr
  decide

def waitAcrossSlots : List Event :=
  [.call .acquire 0, .enter 0 0 0, .call .tick 1, .enter 1 1 1, .enter 0 99 100]

theorem wait_across_slots_wraps :
    ∃ t, (machine 10 10).run waitAcrossSlots = some t ∧
      t.limiter.permits 1 = 4294967295 ∧ t.limiter.partition 1 = 1 ∧ t.underflow = true ∧
        ¬ (machine 10 10).Along Sound (machine 10 10).init waitAcrossSlots := by
  refine ⟨_, rfl, by decide, by decide, by decide, ?_⟩
  intro h
  exact absurd (h.last _ rfl).noUnderflow (by decide)

end RateLimiter
end RocketMQClient
