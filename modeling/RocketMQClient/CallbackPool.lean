import RocketMQClient.AwaitCallbacks
import RocketMQClient.Library.EventMachine
import RocketMQClient.Library.Pending
import RocketMQClient.Library.Slots

/-!
# The callback pool of the client manager

The completion queue hands every completed call to `callback_thread_pool_`, whose threads
run the callbacks in the order in which they were posted. A callback of the application may
send in its turn. When it does so synchronously, it holds its thread until the callback of
the last attempt of that send has run, on another thread of the same pool; the publish info of
its topic is taken to be at hand.

The manager is shut down as it is destroyed, when no client has it any more and none of its
producers is running. A send that is made from then on returns at once, and an attempt that is
to be repeated dereferences the null manager of its producer: there is no step. `shutdown`
first stops the pool. A callback that is posted but not begun is never run from then on, a call
that completes later is not even posted, and the threads are joined.

The awaiting of a send is that of `AwaitCallbacks`. Its callback is one step here, and the
thread goes on after it: a thread that leaves `send` in the middle of it takes away the mutex
that the callback is going to lock, and what follows is undefined.
-/

namespace RocketMQClient.CallbackPool
open EventMachine EventMachine.Machine Pending Slots

/-- `application sends` is a callback of the application with the synchronous sends it makes:
for each the number of attempts that fail and are followed by another one. `attempt` is the
callback of an attempt of a send. -/
inductive Kind
  | application (sends : List ℕ)
  | attempt (send retries : ℕ)
  deriving DecidableEq, Repr

structure Callback where
  id : ℕ
  kind : Kind
  deriving DecidableEq, Repr

/-- `waiting` is a callback of the application that awaits a send, with the sends it has still
to make. -/
inductive Worker
  | idle
  | running (callback : Callback)
  | waiting (id : ℕ) (sends : List ℕ) (send : ℕ)
  | exited
  deriving DecidableEq, Repr

/-- `calls` are in flight, `posted` are in the context, and `completed` are the sends whose
last attempt has been reported. A send has the number of the call of its first attempt. -/
structure State where
  started : Bool := true
  stopped : Bool := false
  workers : List Worker
  calls : List Callback := []
  posted : List Callback := []
  completed : List ℕ := []
  delivered : List ℕ := []
  dropped : List ℕ := []
  made : ℕ := 0
  deriving DecidableEq, Repr

inductive Event
  | call (sends : List ℕ)
  | complete (i : ℕ)
  | work (w : ℕ)
  | beginShutdown
  | stopContext
  deriving DecidableEq, Repr

namespace State

def call (s : State) (kind : Kind) : State :=
  { s with calls := s.calls ++ [⟨s.made, kind⟩], made := s.made + 1 }

def submit (s : State) (c : Callback) : State :=
  if s.started then { s with posted := s.posted ++ [c] }
  else { s with dropped := s.dropped ++ [c.id] }

def become (s : State) (w : ℕ) (worker : Worker) : State :=
  { s with workers := s.workers.set w worker }

def deliver (s : State) (w : ℕ) (c : Callback) : State :=
  { s.become w .idle with delivered := s.delivered ++ [c.id] }

def onCompletion (s : State) (w : ℕ) (c : Callback) : Option State :=
  match c.kind with
  | .application [] => some (s.deliver w c)
  | .application (retries :: sends) =>
    some (if s.started then
      (s.call (.attempt s.made retries)).become w (.waiting c.id sends s.made)
    else s.become w (.running ⟨c.id, .application sends⟩))
  | .attempt send 0 => some { s.deliver w c with completed := s.completed ++ [send] }
  | .attempt send (retries + 1) =>
    if s.started then some ((s.call (.attempt send retries)).deliver w c) else none

def work (s : State) (w : ℕ) : Option State :=
  match s.workers[w]? with
  | some .idle =>
    if s.stopped then some (s.become w .exited)
    else match s.posted with
      | c :: rest => some ({ s with posted := rest }.become w (.running c))
      | [] => none
  | some (.running c) => s.onCompletion w c
  | some (.waiting id sends send) =>
    if send ∈ s.completed then some (s.become w (.running ⟨id, .application sends⟩)) else none
  | some .exited => none
  | none => none

end State

def step (s : State) : Event → Option State
  | .call sends => some (s.call (.application sends))
  | .complete i => (pick s.calls i).map fun p => { s with calls := p.2 }.submit p.1
  | .work w => s.work w
  | .beginShutdown => if s.started then some { s with started := false } else none
  | .stopContext => if s.started then none else some { s with stopped := true }

def machine (workers : ℕ) : Machine State Event where
  init := { workers := List.replicate workers .idle }
  step := step

def State.completer (s : State) (o : AwaitCallbacks.Outcome) (send : ℕ) :
    Await.Completer AwaitCallbacks.Field :=
  if send ∈ s.completed then .done else .before (AwaitCallbacks.completion .send o).before

/-- A thread that awaits a send goes on exactly where `await` lets it go. -/
theorem work_waiting_isSome_iff {s : State} {w id send : ℕ} {sends : List ℕ}
    {o : AwaitCallbacks.Outcome} {es : List Await.Event} {a : Await.State AwaitCallbacks.Field}
    (hw : s.workers[w]? = some (.waiting id sends send))
    (hrun : (Await.machine (AwaitCallbacks.completion .send o)).run es = some a)
    (ha : a.completer = s.completer o send) :
    (s.work w).isSome = true ↔ ∃ es' t early late, .completer ∉ es' ∧
      (Await.machine (AwaitCallbacks.completion .send o)).runFrom a es' = some t ∧
      t.waiter = .finished early late := by
  have hends : a.completer = .before (AwaitCallbacks.completion .send o).before ∨
      a.completer = .done := by
    rw [ha, State.completer]
    split
    · exact .inr rfl
    · exact .inl rfl
  rw [Await.gets_away_iff (AwaitCallbacks.completes .send o) hrun hends, ha, State.completer,
    State.work, hw]
  by_cases hcompleted : send ∈ s.completed
  · simp [hcompleted]
  · simp [hcompleted]

inductive Stepped (s : State) : Event → State → Prop
  | call (sends : List ℕ) : Stepped s (.call sends) (s.call (.application sends))
  | post {i : ℕ} {c : Callback} {rest : List Callback} (hpick : pick s.calls i = some (c, rest))
      (hstarted : s.started = true) :
      Stepped s (.complete i) { s with calls := rest, posted := s.posted ++ [c] }
  | drop {i : ℕ} {c : Callback} {rest : List Callback} (hpick : pick s.calls i = some (c, rest))
      (hstarted : s.started = false) :
      Stepped s (.complete i) { s with calls := rest, dropped := s.dropped ++ [c.id] }
  | exit {w : ℕ} (hw : s.workers[w]? = some .idle) (hstopped : s.stopped = true) :
      Stepped s (.work w) (s.become w .exited)
  | take {w : ℕ} {c : Callback} {rest : List Callback} (hw : s.workers[w]? = some .idle)
      (hstopped : s.stopped = false) (hposted : s.posted = c :: rest) :
      Stepped s (.work w) ({ s with posted := rest }.become w (.running c))
  | finish {w id : ℕ} (hw : s.workers[w]? = some (.running ⟨id, .application []⟩)) :
      Stepped s (.work w) (s.deliver w ⟨id, .application []⟩)
  | send {w id retries : ℕ} {sends : List ℕ}
      (hw : s.workers[w]? = some (.running ⟨id, .application (retries :: sends)⟩))
      (hstarted : s.started = true) :
      Stepped s (.work w)
        ((s.call (.attempt s.made retries)).become w (.waiting id sends s.made))
  | refuse {w id retries : ℕ} {sends : List ℕ}
      (hw : s.workers[w]? = some (.running ⟨id, .application (retries :: sends)⟩))
      (hstarted : s.started = false) :
      Stepped s (.work w) (s.become w (.running ⟨id, .application sends⟩))
  | report {w id send : ℕ} (hw : s.workers[w]? = some (.running ⟨id, .attempt send 0⟩)) :
      Stepped s (.work w)
        { s.deliver w ⟨id, .attempt send 0⟩ with completed := s.completed ++ [send] }
  | retry {w id send retries : ℕ}
      (hw : s.workers[w]? = some (.running ⟨id, .attempt send (retries + 1)⟩))
      (hstarted : s.started = true) :
      Stepped s (.work w)
        ((s.call (.attempt send retries)).deliver w ⟨id, .attempt send (retries + 1)⟩)
  | resume {w id send : ℕ} {sends : List ℕ} (hw : s.workers[w]? = some (.waiting id sends send))
      (hcompleted : send ∈ s.completed) :
      Stepped s (.work w) (s.become w (.running ⟨id, .application sends⟩))
  | begin (hstarted : s.started = true) : Stepped s .beginShutdown { s with started := false }
  | stop (hstarted : s.started = false) : Stepped s .stopContext { s with stopped := true }

theorem stepped_of_onCompletion {s t : State} {w : ℕ} {c : Callback}
    (hw : s.workers[w]? = some (.running c)) (h : s.onCompletion w c = some t) :
    Stepped s (.work w) t := by
  obtain ⟨id, kind⟩ := c
  cases kind with
  | application sends =>
    cases sends with
    | nil =>
      cases h
      exact .finish hw
    | cons retries sends =>
      cases h
      cases hstarted : s.started with
      | true => exact .send hw hstarted
      | false => exact .refuse hw hstarted
  | attempt send retries =>
    cases retries with
    | zero =>
      cases h
      exact .report hw
    | succ retries =>
      obtain ⟨hstarted, heq⟩ := Option.ite_none_right_eq_some.mp h
      cases heq
      exact .retry hw hstarted

theorem stepped_of_work {s t : State} {w : ℕ} (h : s.work w = some t) :
    Stepped s (.work w) t := by
  unfold State.work at h
  cases hw : s.workers[w]? with
  | none => simp [hw] at h
  | some worker =>
    cases worker with
    | exited => simp [hw] at h
    | idle =>
      simp only [hw] at h
      split at h
      case isTrue hstopped =>
        cases h
        exact .exit hw hstopped
      case isFalse hstopped =>
        cases hposted : s.posted with
        | nil => simp [hposted] at h
        | cons c rest =>
          simp only [hposted, Option.some.injEq] at h
          subst h
          exact .take hw (by simpa using hstopped) hposted
    | running c =>
      simp only [hw] at h
      exact stepped_of_onCompletion hw h
    | waiting id sends send =>
      simp only [hw] at h
      split at h
      case isTrue hmem =>
        cases h
        exact .resume hw hmem
      case isFalse => cases h

theorem stepped_of_step {s t : State} {e : Event} (h : step s e = some t) : Stepped s e t := by
  cases e with
  | call sends =>
    cases h
    exact .call sends
  | complete i =>
    obtain ⟨⟨c, rest⟩, hpick, rfl⟩ := Option.map_eq_some_iff.mp h
    unfold State.submit
    split
    case isTrue hstarted => exact .post hpick hstarted
    case isFalse hstarted => exact .drop hpick (by simpa using hstarted)
  | work w => exact stepped_of_work h
  | beginShutdown =>
    simp only [step] at h
    split at h
    case isTrue hstarted =>
      cases h
      exact .begin hstarted
    case isFalse => cases h
  | stopContext =>
    simp only [step] at h
    split at h
    case isTrue => cases h
    case isFalse hstarted =>
      cases h
      exact .stop (by simpa using hstarted)

section Accounts

def Worker.ids : Worker → List ℕ
  | .idle => []
  | .running c => [c.id]
  | .waiting id _ _ => [id]
  | .exited => []

def busy (s : State) : List ℕ := s.workers.flatMap Worker.ids

def places (s : State) : List ℕ :=
  s.calls.map Callback.id ++ s.posted.map Callback.id ++ busy s ++ s.delivered ++ s.dropped

variable {s t : State} {e : Event}

theorem count_places (s : State) (x : ℕ) : (places s).count x =
    (s.calls.map Callback.id).count x + (s.posted.map Callback.id).count x + (busy s).count x +
      s.delivered.count x + s.dropped.count x := by
  simp only [places, List.count_append]

theorem Stepped.made_le (h : Stepped s e t) : s.made ≤ t.made := by
  cases h <;> simp [State.call, State.become, State.deliver]

theorem Stepped.count_places (h : Stepped s e t) (x : ℕ) : (places t).count x =
    (places s).count x + (List.range' s.made (t.made - s.made)).count x := by
  simp only [CallbackPool.count_places, busy]
  cases h with
  | call sends =>
    simp only [State.call, List.map_append, List.count_append, Nat.add_sub_cancel_left,
      List.map_cons, List.map_nil, List.range'_one]
    omega
  | post hpick hstarted =>
    rw [count_pick hpick Callback.id x]
    simp only [List.map_append, List.count_append, Nat.sub_self, List.map_cons, List.map_nil,
      List.range'_zero, List.count_nil]
    omega
  | drop hpick hstarted =>
    rw [count_pick hpick Callback.id x]
    simp only [List.count_append, Nat.sub_self, List.range'_zero, List.count_nil]
    omega
  | exit hw hstopped =>
    have hbusy := count_flatMap_set hw .exited Worker.ids x
    simp only [State.become, Worker.ids, Nat.sub_self, List.range'_zero, List.count_nil] at hbusy ⊢
    omega
  | @take w c rest hw hstopped hposted =>
    have hbusy := count_flatMap_set hw (.running c) Worker.ids x
    rw [hposted]
    simp only [State.become, Worker.ids, Nat.sub_self, List.range'_zero, List.count_nil,
      List.map_cons, List.count_cons] at hbusy ⊢
    omega
  | finish hw | report hw =>
    have hbusy := count_flatMap_set hw .idle Worker.ids x
    simp only [State.deliver, State.become, Worker.ids, Nat.sub_self, List.range'_zero,
      List.count_nil, List.count_append] at hbusy ⊢
    omega
  | @send w id retries sends hw _ =>
    have hbusy := count_flatMap_set hw (.waiting id sends s.made) Worker.ids x
    simp only [State.call, State.become, Worker.ids, Nat.add_sub_cancel_left, List.range'_one,
      List.map_append, List.map_cons, List.map_nil, List.count_append] at hbusy ⊢
    omega
  | retry hw _ =>
    have hbusy := count_flatMap_set hw .idle Worker.ids x
    simp only [State.call, State.deliver, State.become, Worker.ids, Nat.add_sub_cancel_left,
      List.range'_one, List.map_append, List.map_cons, List.map_nil, List.count_append,
      List.count_nil] at hbusy ⊢
    omega
  | @refuse w id _ sends hw _ | @resume w id _ sends hw _ =>
    have hbusy := count_flatMap_set hw (.running ⟨id, .application sends⟩) Worker.ids x
    simp only [State.become, Worker.ids, Nat.sub_self, List.range'_zero, List.count_nil]
      at hbusy ⊢
    omega
  | begin hstarted => simp
  | stop hstarted => simp

structure Inv (n : ℕ) (s : State) : Prop where
  places : (places s).Perm (List.range s.made)
  length : s.workers.length = n
  dropped : s.started = true → s.dropped = []
  stopped : s.stopped = true → s.started = false
  exited : .exited ∈ s.workers → s.stopped = true

theorem Stepped.exited (h : Stepped s e t) (hs : .exited ∈ s.workers → s.stopped = true)
    (hin : .exited ∈ t.workers) : t.stopped = true := by
  cases h with
  | exit hw hstopped => exact hstopped
  | stop hstarted => rfl
  | take | finish | refuse | report | resume =>
    exact hs (by simpa using List.mem_or_eq_of_mem_set hin)
  | send | retry => exact hs (by simpa [State.call] using List.mem_or_eq_of_mem_set hin)
  | _ => exact hs hin

theorem Stepped.inv {n : ℕ} (h : Stepped s e t) (hs : Inv n s) : Inv n t where
  places := perm_range_of_count hs.places h.made_le h.count_places
  exited := h.exited hs.exited
  length := by
    have hlength := hs.length
    cases h <;> simpa [State.call, State.become, State.deliver] using hlength
  dropped := by
    have hdropped := hs.dropped
    cases h with
    | drop hpick hstarted =>
      intro hnot
      simp [hstarted] at hnot
    | begin hstarted =>
      intro hnot
      cases hnot
    | _ => exact hdropped
  stopped := by
    have hstopped := hs.stopped
    cases h with
    | begin hstarted => exact fun _ => rfl
    | stop hstarted => exact fun _ => hstarted
    | _ => exact hstopped

theorem inv_init (n : ℕ) : Inv n (machine n).init where
  places := by simp [places, busy, machine, Worker.ids, List.flatMap_replicate]
  length := by simp [machine]
  dropped := fun _ => rfl
  stopped := by simp [machine]
  exited := by simp [machine]

theorem inv_run {n : ℕ} {es : List Event} (hrun : (machine n).run es = some t) : Inv n t :=
  (machine n).run_invariant (inv_init n) (fun _ _ _ hs h => (stepped_of_step h).inv hs) hrun

theorem mem_busy {w : ℕ} {a : Worker} (hw : s.workers[w]? = some a) {x : ℕ} (hx : x ∈ a.ids) :
    x ∈ busy s :=
  List.mem_flatMap.mpr ⟨a, List.mem_of_getElem? hw, hx⟩

theorem mem_busy_become {w : ℕ} {b : Worker} {x : ℕ} (hx : x ∈ busy (s.become w b)) :
    x ∈ busy s ∨ x ∈ b.ids := by
  obtain ⟨a, ha, hmem⟩ := List.mem_flatMap.mp hx
  obtain hold | rfl := List.mem_or_eq_of_mem_set ha
  · exact Or.inl (List.mem_flatMap.mpr ⟨a, hold, hmem⟩)
  · exact Or.inr hmem

theorem begun_deliver {w : ℕ} {a : Worker} {c : Callback} (hw : s.workers[w]? = some a)
    (hc : c.id ∈ a.ids) {x : ℕ} (hx : x ∈ (s.deliver w c).delivered ++ busy (s.become w .idle)) :
    x ∈ s.delivered ++ busy s := by
  rw [List.mem_append] at hx ⊢
  obtain hdelivered | hbusy := hx
  · obtain hold | hnew := List.mem_append.mp hdelivered
    · exact Or.inl hold
    · rw [List.mem_singleton.mp hnew]
      exact Or.inr (mem_busy hw hc)
  · obtain hold | hnew := mem_busy_become hbusy
    · exact Or.inr hold
    · cases hnew

theorem begun_become {w : ℕ} {a b : Worker} (hw : s.workers[w]? = some a) (hb : b.ids ⊆ a.ids)
    {x : ℕ} (hx : x ∈ s.delivered ++ busy (s.become w b)) : x ∈ s.delivered ++ busy s := by
  rw [List.mem_append] at hx ⊢
  refine hx.imp_right fun hbusy => ?_
  obtain hold | hnew := mem_busy_become hbusy
  · exact hold
  · exact mem_busy hw (hb hnew)

theorem Stepped.begun (h : Stepped s e t) (hstopped : s.stopped = true) :
    t.stopped = true ∧ ∀ x ∈ t.delivered ++ busy t, x ∈ s.delivered ++ busy s := by
  cases h with
  | take hw hnot _ => simp [hstopped] at hnot
  | exit hw _ => exact ⟨hstopped, fun x hx => begun_become hw (List.nil_subset _) hx⟩
  | finish hw | report hw | retry hw _ =>
    exact ⟨hstopped, fun x hx => begun_deliver hw List.mem_cons_self hx⟩
  | @send w id _ sends hw _ =>
    have hids : (Worker.waiting id sends s.made).ids ⊆ [id] := List.Subset.refl _
    exact ⟨hstopped, fun x hx => begun_become hw hids hx⟩
  | @refuse w id _ sends hw _ | @resume w id _ sends hw _ =>
    have hids : (Worker.running ⟨id, .application sends⟩).ids ⊆ [id] := List.Subset.refl _
    exact ⟨hstopped, fun x hx => begun_become hw hids hx⟩
  | stop _ => exact ⟨rfl, fun x hx => hx⟩
  | _ => exact ⟨hstopped, fun x hx => hx⟩

theorem callback_fates {n : ℕ} {es : List Event} {t : State}
    (hrun : (machine n).run es = some t) :
    (places t).Perm (List.range t.made) ∧ (t.started = true → t.dropped = []) ∧
      (t.stopped = true → ∀ u, (machine n).Reaches t u →
        ∀ x ∈ u.delivered, x ∈ t.delivered ∨ x ∈ busy t) := by
  have hinv := inv_run hrun
  refine ⟨hinv.places, hinv.dropped, ?_⟩
  intro hstopped u hreach x hx
  obtain ⟨es', hrun'⟩ := hreach
  have hbegun := (machine n).runFrom_invariant
    (I := fun v => v.stopped = true ∧ ∀ x ∈ v.delivered ++ busy v, x ∈ t.delivered ++ busy t)
    (A := fun _ => True)
    (fun v e v' hv _ hstep => by
      obtain ⟨hnext, hsub⟩ := (stepped_of_step hstep).begun hv.1
      exact ⟨hnext, fun x hx => hv.2 x (hsub x hx)⟩)
    es' (fun _ _ => trivial) ⟨hstopped, fun x hx => hx⟩ hrun'
  exact List.mem_append.mp (hbegun.2 x (List.mem_append_left _ hx))

def stoppedRun : List Event :=
  [.call [], .call [], .call [], .complete 0, .complete 0, .work 0, .work 0,
    .beginShutdown, .stopContext, .complete 0]

theorem stopped_callback_fates : ∃ t, (machine 1).run stoppedRun = some t ∧
    t.delivered = [0] ∧ t.posted = [⟨1, .application []⟩] ∧ t.dropped = [2] ∧
      ∀ u, (machine 1).Reaches t u → ∀ x ∈ u.delivered, x ∈ t.delivered ∨ x ∈ busy t := by
  obtain ⟨t, ht⟩ : ∃ t, (machine 1).run stoppedRun = some t :=
    Option.isSome_iff_exists.mp (by decide)
  have hfacts : ((machine 1).run stoppedRun).map (fun t => (t.delivered, t.posted, t.dropped,
      t.stopped)) = some ([0], [⟨1, .application []⟩], [2], true) := by decide
  rw [ht, Option.map_some, Option.some.injEq, Prod.mk.injEq, Prod.mk.injEq, Prod.mk.injEq]
    at hfacts
  obtain ⟨hdelivered, hposted, hdropped, hstopped⟩ := hfacts
  exact ⟨t, ht, hdelivered, hposted, hdropped, (callback_fates ht).2.2 hstopped⟩

end Accounts

end RocketMQClient.CallbackPool
