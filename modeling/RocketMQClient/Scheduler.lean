import RocketMQClient.Library.EventMachine
import RocketMQClient.Library.Pending
import RocketMQClient.Message
import Mathlib.Tactic.Common

/-!
# The timer scheduler

A `TimerTask` lives while a strong pointer to it does. The table `tasks_` holds one,
the call of `schedule` that makes the task holds one until it returns, and so does
every `execute` that has locked the weak pointer of its timer. Tasks are numbered in
the order in which they are made. Calls of `schedule` and `execute` interleave at the
points where they touch the table, a timer or the callback.
-/

namespace RocketMQClient.Scheduler
open EventMachine EventMachine.Machine Pending

/-- How far a holder of a strong pointer is. The first three are points of `schedule`:
before the insertion, before `async_wait`, and before it returns. The others are points
of `execute`: before, in and after the callback, and before it returns. -/
inductive Stage
  | made
  | inserted
  | armed
  | locked
  | calling
  | called
  | leaving
  deriving DecidableEq, Repr

/-- The tasks with their timers. `tasks` is the table, which maps an id to a task, and
`timers` has a task for each `async_wait` whose handler has not run. What has happened
is kept in `inserted`, `erased`, `begun` and `executed`. -/
structure Work where
  taskId : UInt32
  intervals : List ℤ := []
  tasks : List (UInt32 × ℕ) := []
  timers : List ℕ := []
  holders : List (ℕ × Stage) := []
  inserted : List ℕ := []
  erased : List ℕ := []
  begun : List ℕ := []
  executed : List ℕ := []
  deriving DecidableEq, Repr

namespace Work

def interval (w : Work) (k : ℕ) : ℤ := w.intervals[k]?.getD 0

def table (w : Work) : List ℕ := w.tasks.map Prod.snd

def alive (w : Work) (k : ℕ) : Bool := k ∈ w.table ∨ k ∈ w.holders.map Prod.fst

def schedule (w : Work) (interval : ℤ) : Work :=
  { w with
    intervals := w.intervals ++ [interval]
    holders := (w.intervals.length, .made) :: w.holders }

def move (w : Work) (k : ℕ) (rest : List (ℕ × Stage)) : Stage → Work
  | .made =>
    let id := w.taskId + 1
    { w with
      taskId := id
      -- `insert` leaves an entry that has the id already
      tasks := if id ∈ w.tasks.map Prod.fst then w.tasks else w.tasks ++ [(id, k)]
      inserted := w.inserted ++ [k]
      holders := (k, .inserted) :: rest }
  | .inserted => { w with timers := w.timers ++ [k], holders := (k, .armed) :: rest }
  | .armed => { w with holders := rest }
  | .locked => { w with begun := w.begun ++ [k], holders := (k, .calling) :: rest }
  | .calling => { w with executed := w.executed ++ [k], holders := (k, .called) :: rest }
  | .called => { w with
      timers := if w.interval k = 0 then w.timers else w.timers ++ [k]
      holders := (k, .leaving) :: rest }
  | .leaving => { w with holders := rest }

def advance (w : Work) (i : ℕ) : Option Work :=
  (pick w.holders i).map fun r => w.move r.1.1 r.2 r.1.2

def fire (w : Work) (i : ℕ) : Option Work :=
  (pick w.timers i).map fun r =>
    if w.alive r.1 then { w with timers := r.2, holders := (r.1, .locked) :: w.holders }
    else { w with timers := r.2 }

def erase (w : Work) (p : UInt32 → Bool) : Work :=
  { w with
    tasks := w.tasks.filter fun t => !p t.1
    erased := w.erased ++ (w.tasks.filter fun t => p t.1).map Prod.snd }

end Work

inductive Closing
  | idle
  | entered
  | cleared
  | contextStopped
  deriving DecidableEq, Repr

structure State where
  state : LifeState := .created
  closing : Closing := .idle
  work : Work
  deriving DecidableEq, Repr

/-- `advance i` continues the `i`-th holder, and `fire i` runs the handler of the `i`-th
timer. `elsewhere` is another scheduler that draws from the static `task_id`. -/
inductive Event
  | start
  | workerStarted
  | schedule (interval : ℤ)
  | advance (i : ℕ)
  | fire (i : ℕ)
  | cancel (taskId : UInt32)
  | shutdown
  | clear
  | stopContext
  | joinWorkers
  | elsewhere
  deriving DecidableEq, Repr

def Stage.executing : Stage → Bool
  | .made | .inserted | .armed => false
  | _ => true

def step (s : State) : Event → Option State
  | .start => some (if s.state = .created then { s with state := .starting } else s)
  | .workerStarted =>
    if s.state = .starting then some { s with state := .started } else none
  | .schedule interval => some { s with work := s.work.schedule interval }
  | .advance i => (s.work.advance i).map fun w => { s with work := w }
  | .fire i =>
    -- a worker is in `context_.run()` once the state is `STARTED`
    if (s.state = .started ∨ s.state = .stopping) ∧ s.closing ≠ .contextStopped then
      (s.work.fire i).map fun w => { s with work := w }
    else none
  | .cancel taskId => some { s with work := s.work.erase fun id => id = taskId }
  | .shutdown =>
    some (if s.state = .started then { s with state := .stopping, closing := .entered } else s)
  | .clear =>
    if s.closing = .entered then
      some { s with closing := .cleared, work := s.work.erase fun _ => true }
    else none
  | .stopContext =>
    if s.closing = .cleared then some { s with closing := .contextStopped } else none
  | .joinWorkers =>
    if s.closing = .contextStopped ∧ s.work.holders.all (fun h => !h.2.executing) then
      some { s with state := .stopped }
    else none
  | .elsewhere => some { s with work := { s.work with taskId := s.work.taskId + 1 } }

def machine (taskId : UInt32) : Machine State Event where
  init := { work := { taskId := taskId } }
  step := step

def Event.advances : Event → Bool
  | .advance _ => true
  | _ => false

inductive Change (w : Work) : Event → Work → Prop
  | same {e : Event} (he : e.advances = false) : Change w e w
  | schedule (interval : ℤ) : Change w (.schedule interval) (w.schedule interval)
  | advance {i : ℕ} {w' : Work} (hw : w.advance i = some w') : Change w (.advance i) w'
  | fire {i : ℕ} {w' : Work} (hw : w.fire i = some w') : Change w (.fire i) w'
  | erase {e : Event} (he : e.advances = false) (p : UInt32 → Bool) : Change w e (w.erase p)
  | elsewhere (taskId : UInt32) : Change w .elsewhere { w with taskId := taskId }

theorem step_change {s t : State} {e : Event} (hstep : step s e = some t) :
    Change s.work e t.work := by
  cases e with
  | start =>
    simp only [step, Option.some.injEq] at hstep
    subst hstep
    split <;> exact .same rfl
  | workerStarted =>
    obtain ⟨-, heq⟩ := Option.ite_none_right_eq_some.mp hstep
    cases heq
    exact .same rfl
  | schedule interval =>
    cases hstep
    exact .schedule interval
  | advance i =>
    obtain ⟨w, hw, rfl⟩ := Option.map_eq_some_iff.mp hstep
    exact .advance hw
  | fire i =>
    obtain ⟨-, heq⟩ := Option.ite_none_right_eq_some.mp hstep
    obtain ⟨w, hw, rfl⟩ := Option.map_eq_some_iff.mp heq
    exact .fire hw
  | cancel taskId =>
    cases hstep
    exact .erase rfl fun id => id = taskId
  | shutdown =>
    simp only [step, Option.some.injEq] at hstep
    subst hstep
    split <;> exact .same rfl
  | clear =>
    obtain ⟨-, heq⟩ := Option.ite_none_right_eq_some.mp hstep
    cases heq
    exact .erase rfl fun _ => true
  | stopContext =>
    obtain ⟨-, heq⟩ := Option.ite_none_right_eq_some.mp hstep
    cases heq
    exact .same rfl
  | joinWorkers =>
    obtain ⟨-, heq⟩ := Option.ite_none_right_eq_some.mp hstep
    cases heq
    exact .same rfl
  | elsewhere =>
    cases hstep
    exact .elsewhere _

def holding (holders : List (ℕ × Stage)) (k : ℕ) (p : Stage → Bool) : ℕ :=
  holders.countP fun h => h.1 = k ∧ p h.2 = true

theorem holding_cons (j : ℕ) (stage : Stage) (rest : List (ℕ × Stage)) (k : ℕ)
    (p : Stage → Bool) :
    holding ((j, stage) :: rest) k p =
      holding rest k p + if j = k ∧ p stage = true then 1 else 0 := by
  simp [holding, List.countP_cons]

theorem holding_pick {w : Work} {i j : ℕ} {stage : Stage} {rest : List (ℕ × Stage)}
    (h : pick w.holders i = some ((j, stage), rest)) (k : ℕ) (p : Stage → Bool) :
    holding w.holders k p = holding rest k p + if j = k ∧ p stage = true then 1 else 0 := by
  rw [← holding_cons]
  exact (pick_perm h).countP_eq _

def Stage.ahead : Stage → Bool
  | .made | .inserted | .locked => true
  | _ => false

def Stage.busy : Stage → Bool
  | .calling | .called => true
  | _ => false

namespace Work

/-- The holders and timers through which the callback may yet be called. -/
def ahead (w : Work) (k : ℕ) : ℕ := w.timers.count k + holding w.holders k Stage.ahead

def busy (w : Work) (k : ℕ) : ℕ := holding w.holders k Stage.busy

structure Single (w : Work) : Prop where
  token : ∀ k, w.ahead k + w.busy k ≤ 1
  oneShot : ∀ k, w.interval k = 0 → w.begun.count k + w.ahead k ≤ 1
  unknown : ∀ k, w.intervals.length ≤ k → w.ahead k + w.busy k + w.begun.count k = 0

theorem interval_schedule (w : Work) (n : ℤ) {k : ℕ} (hk : k < w.intervals.length) :
    (w.schedule n).interval k = w.interval k := by
  simp only [interval, schedule, List.getElem?_append_left hk]

theorem Single.schedule {w : Work} (h : w.Single) (n : ℤ) : (w.schedule n).Single := by
  have hahead : ∀ k, (w.schedule n).ahead k =
      w.ahead k + if w.intervals.length = k then 1 else 0 := by
    intro k
    simp only [ahead, Work.schedule, holding_cons, Stage.ahead, and_true, Nat.add_assoc]
  have hbusy : ∀ k, (w.schedule n).busy k = w.busy k := by
    intro k
    simp [busy, Work.schedule, holding_cons, Stage.busy]
  refine ⟨fun k => ?_, fun k hk => ?_, fun k hk => ?_⟩
  · have htoken := h.token k
    have hunknown := h.unknown k
    rw [hahead, hbusy]
    split
    · have := hunknown (by omega)
      omega
    · omega
  · rw [hahead]
    change w.begun.count k + _ ≤ 1
    by_cases hlt : k < w.intervals.length
    · have := h.oneShot k (by rw [← interval_schedule w n hlt]; exact hk)
      rw [if_neg (by omega)]
      omega
    · have := h.unknown k (by omega)
      split <;> omega
  · have hlen : w.intervals.length + 1 ≤ k := by simpa [Work.schedule] using hk
    have := h.unknown k (by omega)
    rw [hahead, hbusy, if_neg (by omega)]
    change _ + w.begun.count k = 0
    omega

structure Spends (w w' : Work) : Prop where
  intervals : w'.intervals = w.intervals
  token : ∀ k, w'.ahead k + w'.busy k ≤ w.ahead k + w.busy k
  oneShot : ∀ k, w.interval k = 0 →
    w'.begun.count k + w'.ahead k ≤ w.begun.count k + w.ahead k

theorem Single.of_spends {w w' : Work} (h : w.Single) (hs : w.Spends w') : w'.Single := by
  have hinterval : ∀ k, w'.interval k = w.interval k := fun k => by
    rw [interval, hs.intervals, interval]
  refine ⟨fun k => (hs.token k).trans (h.token k), fun k hk => ?_, fun k hk => ?_⟩
  · rw [hinterval] at hk
    exact (hs.oneShot k hk).trans (h.oneShot k hk)
  · rw [hs.intervals] at hk
    have hzero : w.interval k = 0 := by
      rw [interval, List.getElem?_eq_none hk, Option.getD_none]
    have := h.unknown k hk
    have := hs.token k
    have := hs.oneShot k hzero
    omega

theorem move_other (w : Work) {j k : ℕ} (hjk : j ≠ k) (rest : List (ℕ × Stage))
    (stage : Stage) :
    (w.move j rest stage).timers.count k = w.timers.count k ∧
      (w.move j rest stage).begun.count k = w.begun.count k ∧
      ∀ p, holding (w.move j rest stage).holders k p = holding rest k p := by
  have hone : [j].count k = 0 := List.count_eq_zero.mpr (by simp [hjk.symm])
  cases stage with
  | called =>
    refine ⟨?_, rfl, fun p => by simp [move, holding_cons, hjk]⟩
    simp only [move]
    split
    · rfl
    · rw [List.count_append, hone, Nat.add_zero]
  | _ => simp [move, holding_cons, hjk, List.count_append, hone]

theorem spends_advance {w w' : Work} {i : ℕ} (hw : w.advance i = some w') : w.Spends w' := by
  obtain ⟨⟨⟨j, stage⟩, rest⟩, hpick, rfl⟩ := Option.map_eq_some_iff.mp hw
  have hholding := holding_pick hpick
  refine ⟨by cases stage <;> rfl, fun k => ?_, fun k hk => ?_⟩
  · have hahead := hholding k Stage.ahead
    have hbusy := hholding k Stage.busy
    by_cases hjk : j = k
    · subst hjk
      cases stage with
      | called =>
        simp only [move, ahead, busy, holding_cons, Stage.ahead, Stage.busy] at hahead hbusy ⊢
        split
        · simp at hahead hbusy ⊢
          omega
        · simp at hahead hbusy ⊢
          omega
      | _ =>
        simp [move, ahead, busy, holding_cons, Stage.ahead, Stage.busy] at hahead hbusy ⊢
        omega
    · obtain ⟨htimers, -, hother⟩ := w.move_other hjk rest stage
      simp only [ahead, busy, htimers, hother]
      omega
  · have hahead := hholding k Stage.ahead
    by_cases hjk : j = k
    · subst hjk
      cases stage with
      | _ =>
        simp [move, ahead, holding_cons, Stage.ahead, hk] at hahead ⊢
        omega
    · obtain ⟨htimers, hbegun, hother⟩ := w.move_other hjk rest stage
      simp only [ahead, htimers, hbegun, hother]
      omega

theorem fire_cases {w w' : Work} {i : ℕ} (hw : w.fire i = some w') :
    ∃ j rest, pick w.timers i = some (j, rest) ∧
      (w.alive j = true ∧ w' = { w with timers := rest, holders := (j, .locked) :: w.holders } ∨
        w.alive j = false ∧ w' = { w with timers := rest }) := by
  obtain ⟨⟨j, rest⟩, hpick, rfl⟩ := Option.map_eq_some_iff.mp hw
  refine ⟨j, rest, hpick, ?_⟩
  cases halive : w.alive j with
  | true => exact .inl ⟨rfl, if_pos rfl⟩
  | false => exact .inr ⟨rfl, if_neg Bool.false_ne_true⟩

theorem spends_fire {w w' : Work} {i : ℕ} (hw : w.fire i = some w') : w.Spends w' := by
  obtain ⟨j, rest, hpick, hcases⟩ := fire_cases hw
  have hcount : ∀ k, w.timers.count k = rest.count k + if j = k then 1 else 0 := fun k => by
    rw [(pick_perm hpick).count_eq, List.count_cons]
    simp
  rcases hcases with ⟨-, rfl⟩ | ⟨-, rfl⟩
  · refine ⟨rfl, fun k => ?_, fun k _ => ?_⟩
    · have := hcount k
      simp [ahead, busy, holding_cons, Stage.ahead, Stage.busy]
      omega
    · have := hcount k
      simp only [ahead, holding_cons, Stage.ahead, and_true]
      omega
  · refine ⟨rfl, fun k => ?_, fun k _ => ?_⟩
    · have := hcount k
      simp only [ahead, busy]
      omega
    · have := hcount k
      simp only [ahead]
      omega

theorem Spends.of_eq {w w' : Work} (hintervals : w'.intervals = w.intervals)
    (htimers : w'.timers = w.timers) (hholders : w'.holders = w.holders)
    (hbegun : w'.begun = w.begun) : w.Spends w' := by
  refine ⟨hintervals, fun k => le_of_eq ?_, fun k _ => le_of_eq ?_⟩
  · simp only [ahead, busy, htimers, hholders]
  · simp only [ahead, htimers, hholders, hbegun]

theorem mem_table_move {w : Work} {j k : ℕ} {rest : List (ℕ × Stage)} {stage : Stage}
    (h : k ∈ (w.move j rest stage).table) : k ∈ w.table ∨ stage = .made ∧ k = j := by
  cases stage with
  | made =>
    simp only [table, move] at h ⊢
    split at h
    · exact .inl h
    · simpa using h
  | _ => exact .inl h

theorem mem_holders_move {w : Work} {j : ℕ} {rest : List (ℕ × Stage)} {stage : Stage}
    {h : ℕ × Stage} (hmem : h ∈ (w.move j rest stage).holders) : h ∈ rest ∨ h.1 = j := by
  cases stage with
  | armed => exact .inl hmem
  | leaving => exact .inl hmem
  | _ =>
    rcases List.mem_cons.mp hmem with rfl | hrest
    · exact .inr rfl
    · exact .inl hrest

theorem alive_iff {w : Work} {k : ℕ} :
    w.alive k = true ↔ k ∈ w.table ∨ ∃ h ∈ w.holders, h.1 = k := by
  simp [alive]

structure Gone (k n : ℕ) (w : Work) : Prop where
  known : k < w.intervals.length
  table : k ∉ w.table
  holders : ∀ h ∈ w.holders, h.1 ≠ k
  begun : w.begun.count k = n

theorem Gone.schedule {k n : ℕ} {w : Work} (h : w.Gone k n) (interval : ℤ) :
    (w.schedule interval).Gone k n := by
  refine ⟨?_, h.table, fun x hx => ?_, h.begun⟩
  · simp only [Work.schedule, List.length_append, List.length_singleton]
    exact Nat.lt_succ_of_lt h.known
  · rcases List.mem_cons.mp hx with rfl | hold
    · exact (Nat.ne_of_lt h.known).symm
    · exact h.holders x hold

theorem Gone.advance {k n : ℕ} {w w' : Work} {i : ℕ} (h : w.Gone k n)
    (hw : w.advance i = some w') : w'.Gone k n := by
  obtain ⟨⟨⟨j, stage⟩, rest⟩, hpick, rfl⟩ := Option.map_eq_some_iff.mp hw
  have hjk : j ≠ k := h.holders (j, stage) (mem_of_pick hpick)
  obtain ⟨-, hbegun, -⟩ := w.move_other hjk rest stage
  refine ⟨by cases stage <;> exact h.known, fun htable => ?_, fun x hx => ?_,
    hbegun.trans h.begun⟩
  · rcases mem_table_move htable with hold | ⟨-, rfl⟩
    · exact h.table hold
    · exact hjk rfl
  · rcases mem_holders_move hx with hrest | heq
    · exact h.holders x (mem_of_mem_rest hpick hrest)
    · exact heq ▸ hjk

theorem Gone.fire {k n : ℕ} {w w' : Work} {i : ℕ} (h : w.Gone k n)
    (hw : w.fire i = some w') : w'.Gone k n := by
  obtain ⟨j, rest, -, ⟨halive, rfl⟩ | ⟨-, rfl⟩⟩ := fire_cases hw
  · refine ⟨h.known, h.table, fun x hx => ?_, h.begun⟩
    rcases List.mem_cons.mp hx with rfl | hold
    · rintro rfl
      rcases alive_iff.mp halive with htable | ⟨y, hy, heq⟩
      · exact h.table htable
      · exact h.holders y hy heq
    · exact h.holders x hold
  · exact ⟨h.known, h.table, h.holders, h.begun⟩

theorem mem_table_erase {w : Work} {p : UInt32 → Bool} {k : ℕ} :
    k ∈ (w.erase p).table ↔ ∃ id, (id, k) ∈ w.tasks ∧ p id = false := by
  simp [table, erase]

theorem Gone.erase {k n : ℕ} {w : Work} (h : w.Gone k n) (p : UInt32 → Bool) :
    (w.erase p).Gone k n := by
  refine ⟨h.known, fun hmem => ?_, h.holders, h.begun⟩
  obtain ⟨id, hid, -⟩ := mem_table_erase.mp hmem
  exact h.table (List.mem_map.mpr ⟨(id, k), hid, rfl⟩)

theorem Gone.change {k n : ℕ} {w w' : Work} {e : Event} (h : w.Gone k n)
    (hc : Change w e w') : w'.Gone k n := by
  cases hc with
  | same => exact h
  | schedule interval => exact h.schedule interval
  | advance hw => exact h.advance hw
  | fire hw => exact h.fire hw
  | erase _ p => exact h.erase p
  | elsewhere => exact ⟨h.known, h.table, h.holders, h.begun⟩

structure Recorded (w : Work) : Prop where
  known : ∀ k ∈ w.inserted, k < w.intervals.length
  holders : ∀ h ∈ w.holders, h.1 < w.intervals.length
  table : ∀ k ∈ w.table, k ∈ w.inserted
  nodup : w.table.Nodup
  erased : ∀ k ∈ w.erased, k ∈ w.inserted
  taken : ∀ k ∈ w.erased, k ∉ w.table
  made : ∀ k, (k, .made) ∈ w.holders → k ∉ w.inserted
  executed : ∀ k ∈ w.executed, k ∈ w.begun
  calling : ∀ k, (k, .calling) ∈ w.holders → k ∈ w.begun

theorem Recorded.schedule {w : Work} (h : w.Recorded) (n : ℤ) : (w.schedule n).Recorded := by
  have hlen : (w.schedule n).intervals.length = w.intervals.length + 1 := by
    simp [Work.schedule]
  refine ⟨fun k hk => ?_, fun x hx => ?_, h.table, h.nodup, h.erased, h.taken, fun k hk => ?_,
    h.executed, fun k hk => ?_⟩
  · rw [hlen]
    exact Nat.lt_succ_of_lt (h.known k hk)
  · rw [hlen]
    rcases List.mem_cons.mp hx with rfl | hold
    · exact Nat.lt_succ_self _
    · exact Nat.lt_succ_of_lt (h.holders x hold)
  · rcases List.mem_cons.mp hk with heq | hold
    · cases heq
      exact fun hin => (h.known _ hin).ne rfl
    · exact h.made k hold
  · rcases List.mem_cons.mp hk with heq | hold
    · cases heq
    · exact h.calling k hold

theorem mem_inserted_move {w : Work} {j k : ℕ} {rest : List (ℕ × Stage)} {stage : Stage} :
    k ∈ (w.move j rest stage).inserted ↔ k ∈ w.inserted ∨ stage = .made ∧ k = j := by
  cases stage <;> simp [move]

theorem mem_begun_move {w : Work} {j k : ℕ} {rest : List (ℕ × Stage)} {stage : Stage} :
    k ∈ (w.move j rest stage).begun ↔ k ∈ w.begun ∨ stage = .locked ∧ k = j := by
  cases stage <;> simp [move]

theorem mem_executed_move {w : Work} {j k : ℕ} {rest : List (ℕ × Stage)} {stage : Stage} :
    k ∈ (w.move j rest stage).executed ↔ k ∈ w.executed ∨ stage = .calling ∧ k = j := by
  cases stage <;> simp [move]

theorem Single.not_made {w : Work} (h : w.Single) {i j : ℕ} {rest : List (ℕ × Stage)}
    (hpick : pick w.holders i = some ((j, .made), rest)) : (j, .made) ∉ rest := by
  intro hmem
  have hpos : 0 < holding rest j Stage.ahead :=
    List.countP_pos_iff.mpr ⟨(j, .made), hmem, by simp [Stage.ahead]⟩
  have htoken := h.token j
  have hahead : holding w.holders j Stage.ahead = holding rest j Stage.ahead + 1 := by
    rw [holding_pick hpick]
    simp [Stage.ahead]
  rw [ahead, hahead] at htoken
  omega

theorem table_move_made {w : Work} {j : ℕ} {rest : List (ℕ × Stage)}
    (hnew : w.taskId + 1 ∉ w.tasks.map Prod.fst) :
    (w.move j rest .made).table = w.table ++ [j] := by
  simp only [table, move, if_neg hnew, List.map_append, List.map_cons, List.map_nil]

theorem table_move_made_of_mem {w : Work} {j : ℕ} {rest : List (ℕ × Stage)}
    (hold : w.taskId + 1 ∈ w.tasks.map Prod.fst) : (w.move j rest .made).table = w.table := by
  simp only [table, move, if_pos hold]

theorem Recorded.advance {w w' : Work} {i : ℕ} (hs : w.Single) (h : w.Recorded)
    (hw : w.advance i = some w') : w'.Recorded := by
  obtain ⟨⟨⟨j, stage⟩, rest⟩, hpick, rfl⟩ := Option.map_eq_some_iff.mp hw
  have hself : (j, stage) ∈ w.holders := mem_of_pick hpick
  have hrest : ∀ x ∈ rest, x ∈ w.holders := fun x hx => mem_of_mem_rest hpick hx
  have hlen : (w.move j rest stage).intervals = w.intervals := by cases stage <;> rfl
  have hnew : stage = .made → j ∉ w.inserted := by
    intro heq
    subst heq
    exact h.made j hself
  have herased : (w.move j rest stage).erased = w.erased := by cases stage <;> rfl
  refine ⟨fun k hk => ?_, fun x hx => ?_, fun k hk => ?_, ?_, fun k hk => ?_, fun k hk hin => ?_,
    fun k hk => ?_, fun k hk => ?_, fun k hk => ?_⟩
  · rw [hlen]
    rcases mem_inserted_move.mp hk with hold | ⟨-, rfl⟩
    · exact h.known k hold
    · exact h.holders _ hself
  · rw [hlen]
    rcases mem_holders_move hx with hold | heq
    · exact h.holders x (hrest x hold)
    · exact heq ▸ h.holders _ hself
  · exact mem_inserted_move.mpr ((mem_table_move hk).imp_left (h.table k))
  · cases stage with
    | made =>
      by_cases hid : w.taskId + 1 ∈ w.tasks.map Prod.fst
      · simpa only [table_move_made_of_mem hid] using h.nodup
      · simp only [table_move_made hid]
        refine List.nodup_append.mpr ⟨h.nodup, List.nodup_singleton j, ?_⟩
        intro a ha b hb heq
        rw [heq, List.mem_singleton.mp hb] at ha
        exact hnew rfl (h.table j ha)
    | _ => exact h.nodup
  · rw [herased] at hk
    exact mem_inserted_move.mpr (.inl (h.erased k hk))
  · rw [herased] at hk
    rcases mem_table_move hin with hold | ⟨hmade, rfl⟩
    · exact h.taken k hk hold
    · exact hnew hmade (h.erased k hk)
  · have hold : (k, .made) ∈ rest := by
      cases stage <;> simpa [move] using hk
    intro hins
    rcases mem_inserted_move.mp hins with hin | ⟨rfl, rfl⟩
    · exact h.made k (hrest _ hold) hin
    · exact hs.not_made hpick hold
  · rcases mem_executed_move.mp hk with hold | ⟨rfl, rfl⟩
    · exact mem_begun_move.mpr (.inl (h.executed k hold))
    · exact mem_begun_move.mpr (.inl (h.calling _ hself))
  · have hcases : (k, .calling) ∈ rest ∨ stage = .locked ∧ k = j := by
      cases stage <;> simpa [move, or_comm] using hk
    exact mem_begun_move.mpr (hcases.imp_left fun hold => h.calling k (hrest _ hold))

theorem Recorded.fire {w w' : Work} {i : ℕ} (h : w.Recorded) (hw : w.fire i = some w') :
    w'.Recorded := by
  obtain ⟨j, rest, -, ⟨halive, rfl⟩ | ⟨-, rfl⟩⟩ := fire_cases hw
  · refine ⟨h.known, fun x hx => ?_, h.table, h.nodup, h.erased, h.taken, fun k hk => ?_,
      h.executed, fun k hk => ?_⟩
    · rcases List.mem_cons.mp hx with rfl | hold
      · rcases alive_iff.mp halive with htable | ⟨y, hy, heq⟩
        · exact h.known j (h.table j htable)
        · exact heq ▸ h.holders y hy
      · exact h.holders x hold
    · exact h.made k (by simpa using hk)
    · exact h.calling k (by simpa using hk)
  · exact ⟨h.known, h.holders, h.table, h.nodup, h.erased, h.taken, h.made, h.executed, h.calling⟩

theorem mem_erased_erase {w : Work} {p : UInt32 → Bool} {k : ℕ} :
    k ∈ (w.erase p).erased ↔ k ∈ w.erased ∨ ∃ id, (id, k) ∈ w.tasks ∧ p id = true := by
  simp [erase]

theorem Recorded.same_entry {w : Work} (h : w.Recorded) {id id' : UInt32} {k : ℕ}
    (hid : (id, k) ∈ w.tasks) (hid' : (id', k) ∈ w.tasks) : id = id' :=
  congrArg Prod.fst (List.inj_on_of_nodup_map h.nodup hid hid' rfl)

theorem Recorded.erase {w : Work} (h : w.Recorded) (p : UInt32 → Bool) :
    (w.erase p).Recorded := by
  have hsub : (w.erase p).table.Sublist w.table := List.filter_sublist.map _
  refine ⟨h.known, h.holders, fun k hk => h.table k (hsub.subset hk), h.nodup.sublist hsub,
    fun k hk => ?_, fun k hk hstays => ?_, h.made, h.executed, h.calling⟩
  · rcases mem_erased_erase.mp hk with hold | ⟨id, hid, -⟩
    · exact h.erased k hold
    · exact h.table k (List.mem_map.mpr ⟨(id, k), hid, rfl⟩)
  · rcases mem_erased_erase.mp hk with hold | ⟨id, hid, hp⟩
    · exact h.taken k hold (hsub.subset hstays)
    · obtain ⟨id', hid', hp'⟩ := mem_table_erase.mp hstays
      rw [h.same_entry hid hid', hp'] at hp
      cases hp

theorem Single.change {w w' : Work} {e : Event} (h : w.Single) (hc : Change w e w') :
    w'.Single := by
  cases hc with
  | same => exact h
  | schedule interval => exact h.schedule interval
  | advance hw => exact h.of_spends (spends_advance hw)
  | fire hw => exact h.of_spends (spends_fire hw)
  | erase => exact h.of_spends (.of_eq rfl rfl rfl rfl)
  | elsewhere => exact h.of_spends (.of_eq rfl rfl rfl rfl)

theorem Recorded.change {w w' : Work} {e : Event} (hs : w.Single) (h : w.Recorded)
    (hc : Change w e w') : w'.Recorded := by
  cases hc with
  | same => exact h
  | schedule interval => exact h.schedule interval
  | advance hw => exact h.advance hs hw
  | fire hw => exact h.fire hw
  | erase _ p => exact h.erase p
  | elsewhere =>
    exact ⟨h.known, h.holders, h.table, h.nodup, h.erased, h.taken, h.made, h.executed, h.calling⟩

def running (w : Work) (k : ℕ) : ℕ := holding w.holders k fun stage => stage = .calling

theorem running_le_busy (w : Work) (k : ℕ) : w.running k ≤ w.busy k := by
  apply List.countP_mono_left
  intro h _ hh
  simp only [decide_eq_true_eq] at hh ⊢
  rw [hh.2]
  exact ⟨hh.1, rfl⟩

end Work

structure Sound (s : State) : Prop where
  single : s.work.Single
  recorded : s.work.Recorded

theorem sound_init (taskId : UInt32) : Sound (machine taskId).init := by
  refine ⟨⟨?_, ?_, ?_⟩, ⟨?_, ?_, ?_, ?_, ?_, ?_, ?_, ?_, ?_⟩⟩ <;>
    simp [machine, Work.ahead, Work.busy, Work.table, holding]

theorem Sound.step {s t : State} {e : Event} (h : Sound s) (hstep : step s e = some t) :
    Sound t :=
  ⟨h.single.change (step_change hstep), h.recorded.change h.single (step_change hstep)⟩

/-- What is asked of the scheduler in a state. The callback of a one-shot task has been
called at most once. No task has two timers, or a timer while its callback runs. And an erased
task that no call holds, or holds any more, is never held again and its callback is not called
any more. -/
structure Safe (taskId : UInt32) (s : State) : Prop where
  once : ∀ k, s.work.interval k = 0 → s.work.begun.count k ≤ 1
  single : ∀ k, s.work.timers.count k + s.work.running k ≤ 1
  silent : ∀ k ∈ s.work.erased, (∀ h ∈ s.work.holders, h.1 ≠ k) →
    ∀ es t, (machine taskId).runFrom s es = some t →
      (∀ h ∈ t.work.holders, h.1 ≠ k) ∧ t.work.begun.count k = s.work.begun.count k

theorem Sound.safe (taskId : UInt32) {s : State} (h : Sound s) : Safe taskId s := by
  refine ⟨fun k hk => ?_, fun k => ?_, fun k hk hfree es t hrun => ?_⟩
  · exact (Nat.le_add_right _ _).trans (h.single.oneShot k hk)
  · have htoken := h.single.token k
    have hrunning := s.work.running_le_busy k
    rw [Work.ahead] at htoken
    omega
  · have hgone : s.work.Gone k (s.work.begun.count k) :=
      ⟨h.recorded.known k (h.recorded.erased k hk), h.recorded.taken k hk, hfree, rfl⟩
    have hlast := runFrom_invariant (machine taskId)
      (I := fun t => t.work.Gone k (s.work.begun.count k)) (A := fun _ => True)
      (fun _ _ _ hI _ hs => hI.change (step_change hs)) es (fun _ _ => trivial) hgone hrun
    exact ⟨hlast.holders, hlast.begun⟩

theorem scheduler_safe (taskId : UInt32) (es : List Event) :
    (machine taskId).Along (Safe taskId) (machine taskId).init es :=
  along_of_invariant (J := Sound) _ (fun _ _ _ hJ hstep => hJ.step hstep)
    (fun _ hJ => hJ.safe taskId) es (sound_init taskId)

/-- The task is erased by `shutdown` while the call of `schedule` that made it has not
returned. No execution holds it, but its timer fires and the callback is called. -/
theorem called_after_clear :
    ∃ s t u, (machine 0).run [.start, .workerStarted, .schedule 0, .advance 0, .advance 0,
        .shutdown] = some s ∧ 0 ∈ s.work.table ∧ step s .clear = some t ∧ 0 ∉ t.work.table ∧
      t.work.holders.all (fun h => !h.2.executing) = true ∧ t.work.begun.count 0 = 0 ∧
      (machine 0).runFrom t [.fire 0, .advance 0] = some u ∧ u.work.begun.count 0 = 1 :=
  ⟨_, _, _, rfl, by decide, rfl, by decide, rfl, rfl, rfl, rfl⟩

namespace Work

/-- The task is still to run: scheduled, not erased, and periodic or not yet executed. -/
def Pends (w : Work) (k : ℕ) : Prop :=
  k ∈ w.inserted ∧ k ∉ w.erased ∧ (w.interval k ≠ 0 ∨ k ∉ w.executed)

instance (w : Work) (k : ℕ) : Decidable (w.Pends k) := inferInstanceAs (Decidable (_ ∧ _))

def pending (w : Work) : List ℕ := (List.range w.intervals.length).filter fun k => w.Pends k

def Exact (w : Work) : Prop := ∀ k, k ∈ w.table ↔ w.Pends k

theorem Exact.bounded {w : Work} (h : w.Exact) (hr : w.Recorded) :
    w.tasks.length ≤ w.pending.length := by
  have hsub : w.table ⊆ w.pending := fun k hk => by
    have hpends := (h k).mp hk
    exact List.mem_filter.mpr
      ⟨List.mem_range.mpr (hr.known k hpends.1), decide_eq_true hpends⟩
  calc w.tasks.length = w.table.length := (List.length_map _).symm
    _ ≤ w.pending.length := (List.subperm_of_subset hr.nodup hsub).length_le

theorem Exact.schedule {w : Work} (h : w.Exact) (hr : w.Recorded) (n : ℤ) :
    (w.schedule n).Exact := by
  intro k
  have hpends : (w.schedule n).Pends k ↔ w.Pends k := by
    apply and_congr_right
    intro hin
    rw [interval_schedule w n (hr.known k hin)]
    rfl
  rw [hpends]
  exact h k

theorem Exact.fire {w w' : Work} {i : ℕ} (h : w.Exact) (hw : w.fire i = some w') :
    w'.Exact := by
  obtain ⟨j, rest, -, ⟨-, rfl⟩ | ⟨-, rfl⟩⟩ := fire_cases hw
  · exact h
  · exact h

theorem Exact.erase {w : Work} (h : w.Exact) (hr : w.Recorded) (p : UInt32 → Bool) :
    (w.erase p).Exact := by
  intro k
  rw [mem_table_erase]
  constructor
  · intro hstays
    obtain ⟨id, hid, hp⟩ := hstays
    obtain ⟨hin, hout, hrun⟩ := (h k).mp (List.mem_map.mpr ⟨(id, k), hid, rfl⟩)
    refine ⟨hin, fun hmem => ?_, hrun⟩
    rcases mem_erased_erase.mp hmem with hold | ⟨id', hid', hp'⟩
    · exact hout hold
    · rw [← hr.same_entry hid hid', hp] at hp'
      cases hp'
  · intro hafter
    obtain ⟨hin, hout, hrun⟩ := hafter
    have hpends : w.Pends k := ⟨hin, fun hold => hout (mem_erased_erase.mpr (.inl hold)), hrun⟩
    obtain ⟨⟨id, k'⟩, hid, rfl⟩ := List.mem_map.mp ((h k).mpr hpends)
    refine ⟨id, hid, ?_⟩
    by_contra hp
    exact hout (mem_erased_erase.mpr (.inr ⟨id, hid, by simpa using hp⟩))

/-- The step is not the insertion under an id that is in use, and not the return from the
callback of a one-shot task that is in the table. -/
def Tidies (w : Work) (k : ℕ) (stage : Stage) : Prop :=
  (stage = .made → w.taskId + 1 ∉ w.tasks.map Prod.fst) ∧
    (stage = .calling → w.interval k = 0 → k ∉ w.table)

theorem exact_move_made {w : Work} {i j : ℕ} {rest : List (ℕ × Stage)} (hs : w.Single)
    (hr : w.Recorded) (h : w.Exact) (hpick : pick w.holders i = some ((j, .made), rest)) :
    (w.move j rest .made).Exact ↔ w.taskId + 1 ∉ w.tasks.map Prod.fst := by
  have hself : (j, .made) ∈ w.holders := mem_of_pick hpick
  have hnew : j ∉ w.inserted := hr.made j hself
  have hpends : (w.move j rest .made).Pends j := by
    refine ⟨mem_inserted_move.mpr (.inr ⟨rfl, rfl⟩), fun hout => hnew (hr.erased j hout), ?_⟩
    by_contra hno
    obtain ⟨hzero, hexec⟩ : w.interval j = 0 ∧ j ∈ w.executed := by
      simpa [not_or, Work.move, interval] using hno
    have hbegun := List.count_pos_iff.mpr (hr.executed j hexec)
    have hone := hs.oneShot j hzero
    have hahead : 0 < w.ahead j := by
      rw [ahead, holding_pick hpick]
      simp [Stage.ahead]
    omega
  have hother : ∀ k, k ≠ j → ((w.move j rest .made).Pends k ↔ w.Pends k) := by
    intro k hk
    simp [Pends, Work.move, hk, interval]
  by_cases hid : w.taskId + 1 ∈ w.tasks.map Prod.fst
  · refine iff_of_false (fun hexact => ?_) (not_not_intro hid)
    have hmem := (hexact j).mpr hpends
    rw [table_move_made_of_mem hid] at hmem
    exact hnew (hr.table j hmem)
  · refine iff_of_true (fun k => ?_) hid
    rw [table_move_made hid, List.mem_append, List.mem_singleton]
    by_cases hk : k = j
    · subst hk
      exact iff_of_true (.inr rfl) hpends
    · rw [hother k hk, ← h k]
      exact or_iff_left hk

theorem exact_move_calling {w : Work} {j : ℕ} {rest : List (ℕ × Stage)} (h : w.Exact) :
    (w.move j rest .calling).Exact ↔ (w.interval j = 0 → j ∉ w.table) := by
  have hexec : ∀ k, k ∈ (w.move j rest .calling).executed ↔ k ∈ w.executed ∨ k = j := fun k => by
    simp [Work.move]
  constructor
  · intro hexact hzero hmem
    obtain ⟨-, -, hne | hnot⟩ := (hexact j).mp hmem
    · exact hne hzero
    · exact hnot ((hexec j).mpr (.inr rfl))
  · intro hok k
    change k ∈ w.table ↔ k ∈ w.inserted ∧ k ∉ w.erased ∧
      (w.interval k ≠ 0 ∨ k ∉ (w.move j rest .calling).executed)
    rw [hexec, h k]
    by_cases hk : k = j
    · subst hk
      constructor
      · intro hpends
        refine ⟨hpends.1, hpends.2.1, .inl fun hzero => ?_⟩
        exact hok hzero ((h k).mpr hpends)
      · intro hafter
        obtain ⟨hin, hout, hne | hnot⟩ := hafter
        · exact ⟨hin, hout, .inl hne⟩
        · exact absurd (.inr rfl) hnot
    · simp only [hk, or_false]
      rfl

theorem exact_advance_iff {w w' : Work} {i j : ℕ} {stage : Stage} {rest : List (ℕ × Stage)}
    (hs : w.Single) (hr : w.Recorded) (h : w.Exact)
    (hpick : pick w.holders i = some ((j, stage), rest)) (hw : w.advance i = some w') :
    w'.Exact ↔ w.Tidies j stage := by
  have hw' : w' = w.move j rest stage := by
    rw [advance, hpick] at hw
    exact (Option.some.inj hw).symm
  subst hw'
  cases stage with
  | made => simpa [Tidies] using exact_move_made hs hr h hpick
  | calling =>
    have hmove : (w.move j rest .calling).Exact ↔ _ := exact_move_calling h
    simpa [Tidies] using hmove
  | _ => exact iff_of_true h ⟨by simp, by simp⟩

def StepTidies (w : Work) : Event → Prop
  | .advance i => ∀ k stage rest, pick w.holders i = some ((k, stage), rest) → w.Tidies k stage
  | _ => True

theorem stepTidies_of_not_advances {w : Work} {e : Event} (he : e.advances = false) :
    w.StepTidies e := by
  cases e with
  | advance i => simp [Event.advances] at he
  | _ => trivial

theorem exact_change_iff {w w' : Work} {e : Event} (hs : w.Single) (hr : w.Recorded)
    (h : w.Exact) (hc : Change w e w') : w'.Exact ↔ w.StepTidies e := by
  cases hc with
  | same he => exact iff_of_true h (stepTidies_of_not_advances he)
  | schedule interval => exact iff_of_true (h.schedule hr interval) trivial
  | advance hw =>
    obtain ⟨⟨⟨j, stage⟩, rest⟩, hpick, -⟩ := Option.map_eq_some_iff.mp hw
    rw [exact_advance_iff hs hr h hpick hw]
    constructor
    · intro htidies k stage' rest' hpick'
      rw [hpick] at hpick'
      cases hpick'
      exact htidies
    · intro hall
      exact hall j stage rest hpick
  | fire hw => exact iff_of_true (h.fire hw) trivial
  | erase he p => exact iff_of_true (h.erase hr p) (stepTidies_of_not_advances he)
  | elsewhere => exact iff_of_true h trivial

end Work

def Forgets (s : State) : Prop :=
  s.work.Exact ∧ s.work.tasks.length ≤ s.work.pending.length

theorem forgets_iff {s : State} (h : Sound s) : Forgets s ↔ s.work.Exact :=
  ⟨And.left, fun hexact => ⟨hexact, hexact.bounded h.recorded⟩⟩

theorem forgets_along_iff (taskId : UInt32) (es : List Event) :
    (machine taskId).Along Forgets (machine taskId).init es ↔
      (machine taskId).Guarded (fun s e => s.work.StepTidies e) (machine taskId).init es := by
  have hexact : (machine taskId).init.work.Exact := fun k => by
    simp [machine, Work.table, Work.Pends]
  refine along_iff_guarded (J := Sound) (A := fun _ => True) _
    (fun s e t hJ _ hstep => hJ.step hstep) (fun s e t hJ hP _ hstep => ?_) es
    (fun _ _ => trivial) (sound_init taskId) ((forgets_iff (sound_init taskId)).mpr hexact)
  rw [forgets_iff (hJ.step hstep)]
  exact Work.exact_change_iff hJ.single hJ.recorded hP.1 (step_change hstep)

theorem one_shot_stays :
    ∃ s, (machine 0).run [.start, .workerStarted, .schedule 0, .advance 0, .advance 0, .advance 0,
        .fire 0, .advance 0, .advance 0, .advance 0, .advance 0] = some s ∧
      s.work.executed = [0] ∧ s.work.pending = [] ∧ s.work.tasks = [(1, 0)] :=
  ⟨_, rfl, rfl, rfl, rfl⟩

end RocketMQClient.Scheduler
