import RocketMQClient.CallbackPool

/-! A thread of the callback pool whose callback sends synchronously needs another thread of the
pool to go on. So the pool is stuck for good when all its threads do so at a time, and it cannot
be joined when one of them waits for a send that no thread reports any more as it is stopped. -/

namespace RocketMQClient.CallbackPool
open EventMachine EventMachine.Machine Pending Slots

section Wedge

def Kind.sends : Kind → Bool
  | .application (_ :: _) => true
  | _ => false

def Worker.sending : Worker → Bool
  | .running c => c.kind.sends
  | .waiting _ _ _ => true
  | _ => false

def unresolved (s : State) : ℕ :=
  s.posted.countP (fun c => c.kind.sends) + s.workers.countP Worker.sending

def Stuck (s : State) : Prop :=
  ∀ a ∈ s.workers, ∃ id sends send, a = .waiting id sends send ∧ send ∉ s.completed

def Wedged (n : ℕ) (s : State) : Prop :=
  ∀ u, (machine n).Reaches s u → ∀ w, step u (.work w) = none

variable {s t : State} {e : Event} {n : ℕ}

theorem Stuck.no_work (h : Stuck s) (w : ℕ) : s.work w = none := by
  unfold State.work
  cases hw : s.workers[w]? with
  | none => rfl
  | some a =>
    obtain ⟨id, sends, send, rfl, hnot⟩ := h a (List.mem_of_getElem? hw)
    simp [hnot]

theorem Stuck.step (h : Stuck s) (hstep : step s e = some t) : Stuck t := by
  cases e with
  | work w => simp [CallbackPool.step, h.no_work w] at hstep
  | call sends =>
    cases hstep
    exact h
  | complete i =>
    obtain ⟨p, -, rfl⟩ := Option.map_eq_some_iff.mp hstep
    unfold State.submit
    split <;> exact h
  | beginShutdown =>
    cases stepped_of_step hstep
    exact h
  | stopContext =>
    cases stepped_of_step hstep
    exact h

theorem Stuck.wedged (h : Stuck s) (n : ℕ) : Wedged n s := by
  intro u hreach w
  obtain ⟨es, hrun⟩ := hreach
  have hstuck : Stuck u := (machine n).runFrom_invariant (A := fun _ => True)
    (fun _ _ _ hs _ hstep => Stuck.step hs hstep) es (fun _ _ => trivial) h hrun
  exact hstuck.no_work w

theorem runFrom_posted (hstarted : s.started = true) (sends : List ℕ) :
    (machine n).runFrom s [.call sends, .complete s.calls.length] =
      some { s with
        posted := s.posted ++ [⟨s.made, .application sends⟩]
        made := s.made + 1 } := by
  have hpick := pick_concat s.calls ⟨s.made, .application sends⟩
  simp only [runFrom, machine, step, State.call, Option.bind_some, hpick, Option.map_some,
    State.submit, hstarted, if_true]

theorem not_wedged_of_idle {w : ℕ} (hw : s.workers[w]? = some .idle) (hstarted : s.started = true)
    (hstopped : s.stopped = false) : ¬ Wedged n s := by
  intro hwedged
  cases hposted : s.posted with
  | cons c rest =>
    have := hwedged s (.refl _ s) w
    simp [step, State.work, hw, hstopped, hposted] at this
  | nil =>
    have hnone := hwedged _ ⟨_, runFrom_posted hstarted []⟩ w
    simp [step, State.work, hw, hstopped, hposted] at hnone

theorem not_wedged_of_work {w : ℕ} (h : (s.work w).isSome = true) : ¬ Wedged n s := by
  intro hwedged
  have hnone : s.work w = none := hwedged s (.refl _ s) w
  simp [hnone] at h

theorem onCompletion_isSome (hstarted : s.started = true) (w : ℕ) (c : Callback) :
    (s.onCompletion w c).isSome = true := by
  unfold State.onCompletion
  split <;> simp [hstarted]

theorem wedged_iff (hinv : Inv n s) (hstarted : s.started = true) : Wedged n s ↔ Stuck s := by
  constructor
  · intro hwedged a ha
    have hstopped : s.stopped = false := by
      by_contra hnot
      simp [hinv.stopped (by simpa using hnot)] at hstarted
    obtain ⟨w, hlt, hget⟩ := List.mem_iff_getElem.mp ha
    have hw : s.workers[w]? = some a := List.getElem?_eq_some_iff.mpr ⟨hlt, hget⟩
    cases a with
    | idle => exact absurd hwedged (not_wedged_of_idle hw hstarted hstopped)
    | exited => simp [hinv.exited ha] at hstopped
    | running c =>
      refine absurd hwedged (not_wedged_of_work (w := w) ?_)
      simp only [State.work, hw]
      exact onCompletion_isSome hstarted w c
    | waiting id sends send =>
      refine ⟨id, sends, send, rfl, fun hmem => ?_⟩
      exact absurd hwedged (not_wedged_of_work (w := w) (by simp [State.work, hw, hmem]))
  · exact fun h => h.wedged n

theorem Stuck.length_le_unresolved (h : Stuck s) : s.workers.length ≤ unresolved s := by
  have hall : s.workers.countP Worker.sending = s.workers.length := by
    refine List.countP_eq_length.mpr fun a ha => ?_
    obtain ⟨id, sends, send, rfl, -⟩ := h a ha
    rfl
  unfold unresolved
  omega

def Event.sends : Event → Bool
  | .call (_ :: _) => true
  | _ => false

def senders (s : State) : ℕ := s.calls.countP (fun c => c.kind.sends) + unresolved s

theorem Stepped.senders_le (h : Stepped s e t) :
    senders t ≤ senders s + (if e.sends then 1 else 0) := by
  unfold senders unresolved
  cases h with
  | call sends =>
    cases sends with
    | nil => simp [State.call, Event.sends, Kind.sends, List.countP_append]
    | cons retries sends =>
      simp [State.call, Event.sends, Kind.sends, List.countP_append]
      omega
  | post hpick hstarted =>
    rw [(pick_perm hpick).countP_eq, List.countP_cons]
    simp only [List.countP_append, List.countP_singleton]
    omega
  | drop hpick hstarted =>
    rw [(pick_perm hpick).countP_eq, List.countP_cons]
    simp only
    omega
  | exit hw hstopped =>
    have hcount := countP_set hw .exited Worker.sending
    simp only [State.become, Worker.sending, Bool.false_eq_true, if_false] at hcount ⊢
    omega
  | @take w c rest hw hstopped hposted =>
    have hcount := countP_set hw (.running c) Worker.sending
    rw [hposted, List.countP_cons]
    cases hc : c.kind.sends with
    | false =>
      simp [State.become, Worker.sending, hc] at hcount ⊢
      omega
    | true =>
      simp [State.become, Worker.sending, hc] at hcount ⊢
      omega
  | finish hw | report hw =>
    have hcount := countP_set hw .idle Worker.sending
    simp only [State.deliver, State.become, Worker.sending, Bool.false_eq_true, if_false]
      at hcount ⊢
    omega
  | @send w id retries sends hw _ =>
    have hcount := countP_set hw (.waiting id sends s.made) Worker.sending
    simp [State.call, State.become, Worker.sending, Kind.sends, List.countP_append] at hcount ⊢
    omega
  | retry hw _ =>
    have hcount := countP_set hw .idle Worker.sending
    simp [State.call, State.deliver, State.become, Worker.sending, Kind.sends,
      List.countP_append] at hcount ⊢
    omega
  | @refuse w id _ sends hw _ | @resume w id _ sends hw _ =>
    have hcount := countP_set hw (.running ⟨id, .application sends⟩) Worker.sending
    cases sends with
    | nil =>
      simp [State.become, Worker.sending, Kind.sends] at hcount ⊢
      omega
    | cons retries sends =>
      simp [State.become, Worker.sending, Kind.sends] at hcount ⊢
      omega
  | begin hstarted => simp
  | stop hstarted => simp

theorem unresolved_le_senders (s : State) : unresolved s ≤ senders s := Nat.le_add_left _ _

theorem along_unresolved {b : ℕ} (es : List Event) (hs : senders s + es.countP Event.sends ≤ b) :
    (machine n).Along (fun s => unresolved s ≤ b) s es := by
  induction es generalizing s with
  | nil => exact Nat.le_trans (unresolved_le_senders s) hs
  | cons e es ih =>
    have hle := unresolved_le_senders s
    rw [List.countP_cons] at hs
    refine ⟨by omega, fun t ht => ?_⟩
    have hnext := (stepped_of_step ht).senders_le
    exact ih (by omega)

structure Filled (n k : ℕ) (s : State) : Prop where
  started : s.started = true
  stopped : s.stopped = false
  posted : s.posted = []
  completed : s.completed = []
  length : s.workers.length = n
  waiting : ∀ w < k, ∃ id sends send, s.workers[w]? = some (.waiting id sends send)
  idle : ∀ w, k ≤ w → w < n → s.workers[w]? = some .idle

def fillNext (s : State) (k : ℕ) : List Event :=
  [.call [0], .complete s.calls.length, .work k, .work k]

theorem Filled.next {k : ℕ} (h : Filled n k s) (hk : k < n) :
    ∃ t, (machine n).runFrom s (fillNext s k) = some t ∧ Filled n (k + 1) t := by
  have hw : s.workers[k]? = some .idle := h.idle k (Nat.le_refl k) hk
  have hlt : k < s.workers.length := h.length ▸ hk
  have hposted := runFrom_posted (n := n) h.started [0]
  have hsplit : fillNext s k =
    [.call [0], .complete s.calls.length] ++ [.work k, .work k] := rfl
  rw [hsplit, runFrom_append, hposted]
  simp only [Option.bind_some, runFrom, machine, step, State.work, hw, h.stopped, h.posted,
    List.nil_append, State.become, State.onCompletion, State.call, List.getElem?_set_self hlt,
    h.started, if_true,
    Bool.false_eq_true, if_false, Option.some.injEq, exists_eq_left']
  refine ⟨rfl, rfl, rfl, h.completed, by simp [h.length], ?_, ?_⟩
  · intro w hle
    by_cases heq : w = k
    · subst heq
      exact ⟨s.made, [], s.made + 1, by simp [hlt]⟩
    · obtain ⟨id, sends, send, hwait⟩ := h.waiting w (by omega)
      exact ⟨id, sends, send, by simpa [Ne.symm heq] using hwait⟩
  · intro w hle hwn
    have hne : k ≠ w := by omega
    simpa [hne] using h.idle w (by omega) hwn

theorem exists_filled (k : ℕ) (hk : k ≤ n) : ∃ es t, (machine n).run es = some t ∧
    es.countP Event.sends = k ∧ Filled n k t := by
  induction k with
  | zero =>
    refine ⟨[], (machine n).init, rfl, rfl, rfl, rfl, rfl, rfl, by simp [machine], ?_, ?_⟩
    · intro w hw
      exact absurd hw (Nat.not_lt_zero w)
    · intro w _ hw
      simp [machine, hw]
  | succ k ih =>
    obtain ⟨es, t, hrun, hcount, hfilled⟩ := ih (by omega)
    obtain ⟨u, hnext, hu⟩ := hfilled.next hk
    refine ⟨es ++ fillNext t k, u, ?_, ?_, hu⟩
    · rw [run, runFrom_append, show (machine n).runFrom (machine n).init es = some t from hrun,
        Option.bind_some, hnext]
    · rw [List.countP_append, hcount]
      rfl

theorem Filled.stuck (h : Filled n n s) : Stuck s := by
  intro a ha
  obtain ⟨w, hlt, hget⟩ := List.mem_iff_getElem.mp ha
  obtain ⟨id, sends, send, hw⟩ := h.waiting w (h.length ▸ hlt)
  rw [List.getElem?_eq_getElem hlt, hget, Option.some.injEq] at hw
  exact ⟨id, sends, send, hw, by simp [h.completed]⟩

/-- A pool of `n` threads cannot be wedged by fewer than `n` callbacks that send at a time, and it
can be wedged by `n`. -/
theorem wedged_threshold (n b : ℕ) :
    (∀ es t, (machine n).run es = some t →
      (machine n).Along (fun s => unresolved s ≤ b) (machine n).init es →
        t.started = true → ¬ Wedged n t) ↔ b < n := by
  constructor
  · intro hnever
    by_contra hnot
    obtain ⟨es, t, hrun, hcount, hfilled⟩ := exists_filled n (Nat.le_refl n)
    have hinit : senders (machine n).init = 0 := by
      simp [senders, unresolved, machine, List.countP_replicate, Worker.sending]
    have halong := along_unresolved (n := n) es (s := (machine n).init) (b := b) (by omega)
    exact hnever es t hrun halong hfilled.started (hfilled.stuck.wedged n)
  · intro hlt es t hrun halong hstarted hwedged
    have hinv := inv_run hrun
    have hle := ((wedged_iff hinv hstarted).mp hwedged).length_le_unresolved
    have hb := halong.last _ hrun
    have hlength := hinv.length
    omega

end Wedge

section Shutdown

def Kind.repeats : Kind → Bool
  | .attempt _ (_ + 1) => true
  | _ => false

/-- A thread that returns from the context by itself once that is stopped. It does not have an
attempt to repeat, and the send that it waits for is reported or just being reported. -/
def Finishes (s : State) : Worker → Prop
  | .idle => True
  | .running c => c.kind.repeats = false
  | .waiting _ _ send =>
    send ∈ s.completed ∨ ∃ id, .running ⟨id, .attempt send 0⟩ ∈ s.workers
  | .exited => True

def Kind.pending : Kind → ℕ
  | .application sends => sends.length
  | .attempt _ _ => 0

variable {s t : State} {e : Event} {n : ℕ}

end Shutdown

end RocketMQClient.CallbackPool
