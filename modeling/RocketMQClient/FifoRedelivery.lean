import RocketMQClient.FifoSafety

/-!
# Redelivery of a FIFO message in clustering mode

What the service does for one message is a course: the message is submitted, the
listener is called and returns, and then the message is acknowledged until that
succeeds, or is called for again after a delay, or is forwarded to the dead letter
queue until that succeeds. `Course` is that course with the attempt count of the copy
in hand, and the bounds are read off it by induction. The machine of the service, which
records for each message what is handed out, returned and released, follows it.
-/

namespace RocketMQClient.FifoConsume
open EventMachine Pending

/-- What is seen of a message. `handed .running` is a call of the listener, `handed .ack` and
`handed .forward` are requests, and `returned` tells the attempt count that the listener saw. -/
inductive Act
  | handed (stage : Stage)
  | returned (result : ListenerOutcome) (attempt : ℤ)
  | released
  deriving DecidableEq

inductive Next (maxAttempts : ℤ) : Stage → ℤ → List Act → Stage → ℤ → Prop
  | invoke (n : ℤ) : Next maxAttempts .consume n [.handed .running] .running n
  | succeed (n : ℤ) : Next maxAttempts .running n
      [.returned .success n, .released, .handed .ack] .ack n
  | retry {result : ListenerOutcome} {n : ℤ} (hfail : result ≠ .success)
      (hmore : n + 1 < maxAttempts) :
      Next maxAttempts .running n [.returned result n, .handed .reconsume] .reconsume (n + 1)
  | exhaust {result : ListenerOutcome} {n : ℤ} (hfail : result ≠ .success)
      (hlast : maxAttempts ≤ n + 1) :
      Next maxAttempts .running n [.returned result n, .handed .forward] .forward (n + 1)
  | resubmit (n : ℤ) : Next maxAttempts .reconsume n [.handed .consume] .consume n
  | ackFails (n : ℤ) : Next maxAttempts .ack n [.handed .reack] .reack n
  | ackAgain (n : ℤ) : Next maxAttempts .reack n [.handed .ack] .ack n
  | forwardFails (n : ℤ) : Next maxAttempts .forward n [.handed .reforward] .reforward n
  | forwardAgain (n : ℤ) : Next maxAttempts .reforward n [.handed .forward] .forward n

inductive Course (maxAttempts initial : ℤ) : Stage → ℤ → List Act → Prop
  | submit : Course maxAttempts initial .consume initial [.handed .consume]
  | next {g g' : Stage} {n n' : ℤ} {past new : List Act} (h : Course maxAttempts initial g n past)
      (hnext : Next maxAttempts g n new g' n') : Course maxAttempts initial g' n' (past ++ new)

def invocations (acts : List Act) : ℕ := acts.count (.handed .running)

def Stage.acking : Stage → Bool
  | .ack => true
  | .reack => true
  | _ => false

def Stage.Counts (maxAttempts initial n k : ℤ) : Stage → Prop
  | .consume => n = initial + k ∧ (k = 0 ∨ n < maxAttempts)
  | .running => n + 1 = initial + k ∧ (k = 1 ∨ n < maxAttempts)
  | .reconsume => n = initial + k ∧ n < maxAttempts
  | _ => True

theorem append_split {α : Type} {past new before after : List α} {x : α}
    (heq : past ++ new = before ++ x :: after) :
    (∃ mid, before = past ++ mid ∧ new = mid ++ x :: after) ∨
      ∃ mid, past = before ++ x :: mid ∧ after = mid ++ new := by
  rcases List.append_eq_append_iff.mp heq with hlate | ⟨mid, hpast, hrest⟩
  · exact Or.inl hlate
  · cases mid with
    | nil => exact Or.inl ⟨[], by simpa using hpast.symm, hrest.symm⟩
    | cons y mid =>
      obtain ⟨rfl, rfl⟩ := List.cons_eq_cons.mp hrest
      exact Or.inr ⟨mid, hpast, rfl⟩

namespace Course
variable {M initial : ℤ} {g : Stage} {n : ℤ} {acts : List Act}

theorem counts (h : Course M initial g n acts) :
    g.Counts M initial n (invocations acts) ∧ (invocations acts : ℤ) ≤ max 1 (M - initial) := by
  induction h with
  | submit => exact ⟨⟨by simp [invocations], Or.inl rfl⟩, by simp [invocations]⟩
  | @next g g' n n' past new h hnext ih =>
    obtain ⟨hcounts, hbound⟩ := ih
    have hsum : invocations (past ++ new) = invocations past + invocations new :=
      List.count_append
    cases hnext with
    | invoke n =>
      have hone : invocations [.handed .running] = 1 := rfl
      simp only [Stage.Counts] at hcounts ⊢
      omega
    | @retry result _ hfail hmore =>
      have hnone : invocations [.returned result n, .handed .reconsume] = 0 := rfl
      simp only [Stage.Counts] at hcounts ⊢
      omega
    | resubmit n =>
      have hnone : invocations [.handed .consume] = 0 := rfl
      simp only [Stage.Counts] at hcounts ⊢
      omega
    | succeed | exhaust | ackFails | ackAgain | forwardFails | forwardAgain =>
      refine ⟨trivial, ?_⟩
      rw [hsum]
      simpa [invocations] using hbound

theorem exhausted (h : Course M initial g n acts) (hg : g = .forward ∨ g = .reforward) :
    ∃ result k, .returned result k ∈ acts ∧ result ≠ .success ∧ M ≤ k + 1 := by
  induction h with
  | submit => simp at hg
  | @next g g' n n' past new h hnext ih =>
    cases hnext with
    | exhaust hfail hlast => exact ⟨_, _, by simp, hfail, hlast⟩
    | forwardFails n =>
      obtain ⟨result, k, hmem, hrest⟩ := ih (Or.inl rfl)
      exact ⟨result, k, List.mem_append_left _ hmem, hrest⟩
    | forwardAgain n =>
      obtain ⟨result, k, hmem, hrest⟩ := ih (Or.inr rfl)
      exact ⟨result, k, List.mem_append_left _ hmem, hrest⟩
    | invoke | succeed | retry | resubmit | ackFails | ackAgain => simp at hg

theorem forwarded (h : Course M initial g n acts) {before after : List Act}
    (heq : acts = before ++ .handed .forward :: after) :
    ∃ result k, .returned result k ∈ before ∧ result ≠ .success ∧ M ≤ k + 1 := by
  induction h generalizing before after with
  | submit =>
    have hmem : Act.handed .forward ∈ [Act.handed .consume] := heq ▸ by simp
    simp at hmem
  | @next g g' n n' past new h hnext ih =>
    rcases append_split heq with ⟨mid, rfl, hnew⟩ | ⟨mid, hpast, -⟩
    · have hmem : Act.handed .forward ∈ new := hnew ▸ by simp
      cases hnext with
      | @exhaust result _ hfail hlast =>
        -- the failure stands right before the request
        have hreturned : Act.returned result n ∈ mid := by
          cases mid with
          | nil => simp at hnew
          | cons act mid =>
            obtain ⟨rfl, -⟩ := List.cons_eq_cons.mp hnew
            exact List.mem_cons_self
        exact ⟨result, n, List.mem_append_right past hreturned, hfail, hlast⟩
      | forwardAgain n =>
        obtain ⟨result, k, hreturned, hrest⟩ := h.exhausted (Or.inr rfl)
        exact ⟨result, k, List.mem_append_left mid hreturned, hrest⟩
      | invoke | succeed | retry | resubmit | ackFails | ackAgain | forwardFails => simp at hmem
    · exact ih hpast

theorem released (h : Course M initial g n acts) :
    acts.count .released = if g.acking then 1 else 0 := by
  induction h with
  | submit => rfl
  | next h hnext ih =>
    rw [List.count_append, ih]
    cases hnext <;> rfl

theorem succeeded (h : Course M initial g n acts) {before after : List Act} {k : ℤ}
    (heq : acts = before ++ .returned .success k :: after) :
    g.acking = true ∧ ∀ g', .handed g' ∈ after → g'.acking = true := by
  induction h generalizing before after with
  | submit =>
    have hmem : Act.returned .success k ∈ [Act.handed .consume] := heq ▸ by simp
    simp at hmem
  | @next g g' n n' past new h hnext ih =>
    rcases append_split heq with ⟨mid, -, hnew⟩ | ⟨mid, hpast, rfl⟩
    · have hmem : Act.returned .success k ∈ new := hnew ▸ by simp
      cases hnext with
      | succeed n =>
        refine ⟨rfl, fun g' hg' => ?_⟩
        have hhanded : Act.handed g' ∈
            [Act.returned .success n, Act.released, Act.handed .ack] := hnew ▸ by simp [hg']
        have hack : g' = .ack := by simpa using hhanded
        rw [hack]
        rfl
      | retry hfail | exhaust hfail => simp [hfail.symm] at hmem
      | invoke | resubmit | ackFails | ackAgain | forwardFails | forwardAgain => simp at hmem
    · -- the course was acknowledging already, and goes on so
      obtain ⟨hacking, hafter⟩ := ih hpast
      have hlast : g'.acking = true ∧ ∀ g'', .handed g'' ∈ new → g''.acking = true := by
        cases hnext with
        | ackFails n | ackAgain n => simp [Stage.acking]
        | invoke | succeed | retry | exhaust | resubmit | forwardFails | forwardAgain =>
          simp [Stage.acking] at hacking
      refine ⟨hlast.1, fun g'' hg'' => ?_⟩
      rcases List.mem_append.mp hg'' with hmid | hnew
      · exact hafter g'' hmid
      · exact hlast.2 g'' hnew

end Course

def returnedAct : Task → Outcome → List (ℕ × Act)
  | .held .running id m, .returned result => [(id, .returned result m.getDeliveryAttempt)]
  | _, _ => []

def releasedAct (s t : State) : Task → List (ℕ × Act)
  | .dispatch => []
  | .held _ id m =>
    if t.processQueue.cachedMessageQuantity = s.processQueue.cachedMessageQuantity - 1 ∧
        t.processQueue.cachedMessageMemory =
          s.processQueue.cachedMessageMemory - UInt64.ofNat m.getBody.length then
      [(id, .released)]
    else []

def handedAct : Task → List (ℕ × Act)
  | .dispatch => []
  | .held g id _ => [(id, .handed g)]

def taskActs (s t : State) (task : Task) (outcome : Outcome) : List (ℕ × Act) :=
  returnedAct task outcome ++ releasedAct s t task ++
    (t.pending.drop s.pending.length).flatMap handedAct

def observe (cfg : Config) (s : State) : Event → List (ℕ × Act)
  | .resume i outcome => match pick s.pending i with
    | none => []
    | some (task, rest) => match resume cfg { s with pending := rest } task outcome with
      | none => []
      | some t => taskActs { s with pending := rest } t task outcome
  | _ => []

def redelivering (cfg : Config) (filter : FilterExpression) :
    Machine (State × List (ℕ × Act)) Event :=
  (machine cfg filter).record (observe cfg)

def actsFor (id : ℕ) (seen : List (ℕ × Act)) : List Act :=
  (seen.filter fun entry => entry.1 = id).map Prod.snd

theorem actsFor_append (id : ℕ) (seen new : List (ℕ × Act)) :
    actsFor id (seen ++ new) = actsFor id seen ++ actsFor id new := by
  simp [actsFor]

theorem actsFor_own (id : ℕ) (new : List Act) : actsFor id (new.map (Prod.mk id)) = new := by
  induction new with
  | nil => rfl
  | cons act new ih => simpa [actsFor] using ih

theorem actsFor_other {id id' : ℕ} (h : id ≠ id') (new : List Act) :
    actsFor id' (new.map (Prod.mk id)) = [] := by
  simp [actsFor, h]

section
variable {cfg : Config} {s t : State} {g : Stage} {id : ℕ} {m : MQMessageExt} {outcome : Outcome}

theorem releasedAct_eq_nil {task : Task}
    (h : t.processQueue.cachedMessageQuantity = s.processQueue.cachedMessageQuantity) :
    releasedAct s t task = [] := by
  cases task with
  | dispatch => rfl
  | held g id m =>
    apply if_neg
    rintro ⟨hless, -⟩
    rw [h] at hless
    have hnat := congrArg UInt32.toNat hless
    rw [UInt32.toNat_sub] at hnat
    have hlt := s.processQueue.cachedMessageQuantity.toNat_lt
    simp at hnat
    omega

theorem taskActs_of_pending (task : Task) (outcome : Outcome) {next : List Task}
    (hp : s.pending = []) (hnext : t.pending = next)
    (hquantity : t.processQueue.cachedMessageQuantity = s.processQueue.cachedMessageQuantity) :
    taskActs s t task outcome = returnedAct task outcome ++ next.flatMap handedAct := by
  rw [taskActs, releasedAct_eq_nil hquantity, hp, hnext]
  simp

def Proceeds (cfg : Config) (s : State) (g : Stage) (id : ℕ) (m : MQMessageExt)
    (outcome : Outcome) (t : State) : Prop :=
  (t.pending = [] ∧ taskActs s t (.held g id m) outcome = []) ∨
  ∃ g' m' new, t.pending = [.held g' id m'] ∧
    taskActs s t (.held g id m) outcome = new.map (Prod.mk id) ∧
    Next cfg.maxDeliveryAttempts g m.getDeliveryAttempt new g' m'.getDeliveryAttempt

theorem Proceeds.ends (hp : s.pending = []) (hpending : t.pending = [])
    (hreturned : returnedAct (.held g id m) outcome = [])
    (hquantity : t.processQueue.cachedMessageQuantity = s.processQueue.cachedMessageQuantity) :
    Proceeds cfg s g id m outcome t := by
  refine Or.inl ⟨hpending, ?_⟩
  rw [taskActs_of_pending _ _ hp hpending hquantity, hreturned]
  rfl

theorem Proceeds.hands (hp : s.pending = []) {g' : Stage}
    (hreturned : returnedAct (.held g id m) outcome = [])
    (hnext : Next cfg.maxDeliveryAttempts g m.getDeliveryAttempt [.handed g'] g'
      m.getDeliveryAttempt) {u : State} (hpending : u.pending = [.held g' id m])
    (hquantity : u.processQueue.cachedMessageQuantity = s.processQueue.cachedMessageQuantity) :
    Proceeds cfg s g id m outcome u := by
  refine Or.inr ⟨g', m, [.handed g'], hpending, ?_, hnext⟩
  rw [taskActs_of_pending _ _ hp hpending hquantity, hreturned]
  rfl

theorem settle_proceeds {result : ListenerOutcome} (hm : cfg.messageModel = .clustering)
    (hp : s.pending = []) (h : settle cfg s id m result = some t) :
    Proceeds cfg s .running id m (.returned result) t := by
  rcases settle_cases h with ⟨-, rfl, q, hq, rfl⟩ | ⟨-, hfail, g, hg, rfl⟩ | ⟨hbroadcast, -⟩
  · refine Or.inr ⟨.ack, m, _, by simp [State.hold, hp], ?_, .succeed _⟩
    cases hq
    simp [taskActs, returnedAct, releasedAct, handedAct, State.hold, hp]
  · have hpending {m' : MQMessageExt} : (s.hold g id m').pending = [.held g id m'] := by
      simp [State.hold, hp]
    refine Or.inr ⟨g, _, [.returned result m.getDeliveryAttempt, .handed g], hpending,
      taskActs_of_pending _ _ hp hpending rfl, ?_⟩
    rcases hg with ⟨rfl, hmore⟩ | ⟨rfl, hlast⟩
    · exact .retry hfail hmore
    · exact .exhaust hfail hlast
  · rw [hm] at hbroadcast
    cases hbroadcast

theorem Passes.next {g' : Stage} (h : Passes g outcome g') (maxAttempts n : ℤ) :
    Next maxAttempts g n [.handed g'] g' n := by
  cases h with
  | resubmit => exact .resubmit n
  | ackFails ec => exact .ackFails n
  | ackAgain => exact .ackAgain n
  | forwardFails => exact .forwardFails n
  | forwardAgain => exact .forwardAgain n

theorem returnedAct_eq_nil (hg : g ≠ .running) : returnedAct (.held g id m) outcome = [] := by
  cases g with
  | running => exact absurd rfl hg
  | _ => rfl

theorem resume_proceeds (hm : cfg.messageModel = .clustering) (hp : s.pending = [])
    (h : resume cfg s (.held g id m) outcome = some t) : Proceeds cfg s g id m outcome t := by
  have hhold {g' : Stage} : (s.hold g' id m).pending = [.held g' id m] := by simp [State.hold, hp]
  cases resume_resumed h with
  | invoke => exact Proceeds.hands hp rfl (.invoke _) hhold rfl
  | drop hdead => exact Proceeds.ends hp hp rfl rfl
  | settle hsettle => exact settle_proceeds hm hp hsettle
  | pass hpass =>
    exact Proceeds.hands hp (returnedAct_eq_nil hpass.ne_running) (hpass.next _ _) hhold rfl
  | lose hpass hdead => exact Proceeds.ends hp hp (returnedAct_eq_nil hpass.ne_running) rfl
  | finish hfinish =>
    apply Proceeds.ends hp _ (returnedAct_eq_nil hfinish.ne_running)
    · rw [unbindFifoConsumeTask_queue]
      split_ifs <;> rfl
    · exact hp

end

structure OnCourse (cfg : Config) (p : State × List (ℕ × Act)) : Prop where
  inv : Inv p.1
  held : ∀ g id m a, .held g id m ∈ p.1.pending → p.1.accepted[id]? = some a →
    Course cfg.maxDeliveryAttempts a.getDeliveryAttempt g m.getDeliveryAttempt (actsFor id p.2)
  past : ∀ id a, p.1.accepted[id]? = some a → actsFor id p.2 = [] ∨
    ∃ g n, Course cfg.maxDeliveryAttempts a.getDeliveryAttempt g n (actsFor id p.2)
  untouched : ∀ id, p.1.taken ≤ id → actsFor id p.2 = []

section
variable {cfg : Config} {s t : State} {seen : List (ℕ × Act)}

theorem OnCourse.of_frame (h : OnCourse cfg (s, seen)) (ht : Inv t)
    (haccepted : t.accepted = s.accepted) (htaken : s.taken ≤ t.taken)
    (hpending : ∀ g id m, .held g id m ∈ t.pending → .held g id m ∈ s.pending) :
    OnCourse cfg (t, seen) := by
  constructor
  · exact ht
  · intro g id m a hmem ha
    rw [haccepted] at ha
    exact h.held g id m a (hpending g id m hmem) ha
  · intro id a ha
    rw [haccepted] at ha
    exact h.past id a ha
  · intro id hid
    exact h.untouched id (htaken.trans hid)

theorem OnCourse.of_next (h : OnCourse cfg (s, seen)) (ht : Inv t) {g : Stage} {id : ℕ}
    {m : MQMessageExt} (new : List Act) (haccepted : t.accepted = s.accepted)
    (htaken : s.taken ≤ t.taken) (hid : id < t.taken) (hpending : t.pending = [.held g id m])
    (hcourse : ∀ a, s.accepted[id]? = some a → Course cfg.maxDeliveryAttempts
      a.getDeliveryAttempt g m.getDeliveryAttempt (actsFor id seen ++ new)) :
    OnCourse cfg (t, seen ++ new.map (Prod.mk id)) := by
  have hown : actsFor id (seen ++ new.map (Prod.mk id)) = actsFor id seen ++ new := by
    rw [actsFor_append, actsFor_own]
  have hother (id' : ℕ) (hne : id ≠ id') :
      actsFor id' (seen ++ new.map (Prod.mk id)) = actsFor id' seen := by
    rw [actsFor_append, actsFor_other hne, List.append_nil]
  constructor
  · exact ht
  · intro g' id' m' a hmem ha
    simp only [hpending, List.mem_singleton, Task.held.injEq] at hmem
    obtain ⟨rfl, rfl, rfl⟩ := hmem
    rw [haccepted] at ha
    exact hown ▸ hcourse a ha
  · intro id' a ha
    rw [haccepted] at ha
    by_cases hne : id = id'
    · subst hne
      exact Or.inr ⟨g, m.getDeliveryAttempt, hown ▸ hcourse a ha⟩
    · rw [hother id' hne]
      exact h.past id' a ha
  · intro id' hid'
    have hne : id ≠ id' := by
      simp only at hid'
      omega
    rw [hother id' hne]
    exact h.untouched id' (htaken.trans hid')

theorem OnCourse.cacheMessages (h : OnCourse cfg (s, seen)) (messages : List MQMessageExt)
    (ht : Inv (cacheMessages cfg s messages)) :
    OnCourse cfg (cacheMessages cfg s messages, seen) := by
  revert ht
  rw [FifoConsume.cacheMessages]
  split_ifs with halive
  · intro ht
    have hle : s.taken ≤ s.accepted.length := h.inv.serial.taken_le
    have hold {id : ℕ} {a : MQMessageExt} {l : List MQMessageExt} (hlt : id < s.accepted.length)
        (ha : (s.accepted ++ l)[id]? = some a) : s.accepted[id]? = some a := by
      rwa [List.getElem?_append_left hlt] at ha
    constructor
    · exact ht
    · intro g id m a hmem ha
      obtain ⟨a', ha', -⟩ := h.inv.held g id m hmem
      exact h.held g id m a hmem (hold (List.getElem?_eq_some_iff.mp ha').1 ha)
    · intro id a ha
      by_cases hlt : id < s.accepted.length
      · exact h.past id a (hold hlt ha)
      · exact Or.inl (h.untouched id (hle.trans (not_lt.mp hlt)))
    · exact h.untouched
  · intro ht
    exact h

theorem OnCourse.dispatch (h : OnCourse cfg (s, seen))
    (ht : Inv (takeThenSubmit { s with pending := [] })) :
    OnCourse cfg (takeThenSubmit { s with pending := [] },
      seen ++ taskActs { s with pending := [] } (takeThenSubmit { s with pending := [] })
        .dispatch .run) := by
  rcases takeThenSubmit_cases { s with pending := [] } with
    ⟨hc, heq⟩ | ⟨m, hc, heq⟩ | ⟨m, m', l, hc, heq⟩
  · rw [heq] at ht ⊢
    simp only [taskActs, returnedAct, releasedAct, List.drop_nil, List.flatMap_nil,
      List.append_nil]
    exact h.of_frame ht rfl le_rfl (by simp)
  · rw [heq] at ht ⊢
    simp only [taskActs, returnedAct, releasedAct, List.drop_nil, List.flatMap_nil,
      List.append_nil]
    exact h.of_frame ht rfl (Nat.le_succ _) (by simp)
  · rw [heq] at ht ⊢
    obtain ⟨-, hm, -⟩ := h.inv.taken_lt hc
    have hnone : actsFor s.taken seen = [] := h.untouched s.taken le_rfl
    apply h.of_next ht [.handed .consume] rfl (Nat.le_succ _) (Nat.lt_succ_self _) rfl
    intro a ha
    cases hm.symm.trans ha
    rw [hnone]
    exact .submit

theorem OnCourse.resume (hm : cfg.messageModel = .clustering) (h : OnCourse cfg (s, seen))
    (ht : Inv t) {g : Stage} {id : ℕ} {m : MQMessageExt} {outcome : Outcome}
    (hp : s.pending = [.held g id m])
    (hres : FifoConsume.resume cfg { s with pending := [] } (.held g id m) outcome = some t) :
    OnCourse cfg (t, seen ++ taskActs { s with pending := [] } t (.held g id m) outcome) := by
  have hframe := (resume_continued hres).frame
  obtain ⟨hlast, -⟩ := h.inv.serial.holding id (by simp [serial, phase, hp])
  rcases resume_proceeds hm rfl hres with ⟨hpending, hacts⟩ | ⟨g', m', new, hpending, hacts, hnext⟩
  · rw [hacts, List.append_nil]
    exact h.of_frame ht hframe.accepted hframe.taken.ge (by simp [hpending])
  · rw [hacts]
    have hid : id < t.taken := by
      rw [hframe.taken]
      exact Nat.lt_of_succ_le hlast.le
    apply h.of_next ht new hframe.accepted hframe.taken.ge hid hpending
    intro a ha
    exact .next (h.held g id m a (by simp [hp]) ha) hnext

theorem step_onCourse {e : Event} (hm : cfg.messageModel = .clustering)
    (h : OnCourse cfg (s, seen)) (hstep : step cfg s e = some t) :
    OnCourse cfg (t, seen ++ observe cfg s e) := by
  have ht := step_inv h.inv hstep
  cases e with
  | cacheMessages messages =>
    cases hstep
    simp only [observe, List.append_nil]
    exact h.cacheMessages messages ht
  | submitConsumeTask =>
    cases hstep
    simp only [observe, List.append_nil]
    rcases submitConsumeTask_cases s with heq | ⟨-, heq⟩
    · rw [heq]
      exact h
    · rw [heq] at ht ⊢
      exact h.of_frame ht rfl le_rfl (by simp)
  | resume i outcome =>
    obtain ⟨⟨task, rest⟩, hpick, hres⟩ := Option.bind_eq_some_iff.mp hstep
    obtain ⟨hp, rfl⟩ := pick_single hpick h.inv.pending_le
    have hobserve : observe cfg s (.resume i outcome) =
        taskActs { s with pending := [] } t task outcome := by
      simp only [observe, hpick, hres]
    rw [hobserve]
    cases task with
    | dispatch =>
      cases outcome with
      | run =>
        cases hres
        exact h.dispatch ht
      | returned _ | acked _ | forwarded _ => cases hres
    | held g id m => exact h.resume hm ht hp hres
  | destroyProcessQueue | destroyConsumer =>
    cases hstep
    simp only [observe, List.append_nil]
    exact h.of_frame ht rfl le_rfl fun _ _ _ hmem => hmem

end

/-- The listener is called at most `max 1 (maxAttempts - initial)` times, only a failure that
reached the limit leads to a request to forward, and a success only to acknowledgements and
to one release. -/
structure Bounded (maxAttempts initial : ℤ) (acts : List Act) : Prop where
  invocations : (invocations acts : ℤ) ≤ max 1 (maxAttempts - initial)
  forwards : ∀ before after, acts = before ++ .handed .forward :: after →
    ∃ result n, .returned result n ∈ before ∧ result ≠ .success ∧ maxAttempts ≤ n + 1
  success : ∀ before after n, acts = before ++ .returned .success n :: after →
    (∀ g, .handed g ∈ after → g = .ack ∨ g = .reack) ∧ acts.count .released = 1

theorem Stage.acking_iff {g : Stage} : g.acking = true ↔ g = .ack ∨ g = .reack := by
  cases g <;> simp [Stage.acking]

theorem Course.bounded {M initial : ℤ} {g : Stage} {n : ℤ} {acts : List Act}
    (h : Course M initial g n acts) : Bounded M initial acts := by
  constructor
  · exact h.counts.2
  · intro before after heq
    exact h.forwarded heq
  · intro before after k heq
    obtain ⟨hacking, hafter⟩ := h.succeeded heq
    refine ⟨fun g' hg' => Stage.acking_iff.mp (hafter g' hg'), ?_⟩
    rw [h.released, if_pos hacking]

theorem bounded_nil (M initial : ℤ) : Bounded M initial [] := by
  constructor
  · simp [FifoConsume.invocations]
  · intro before after heq
    simp at heq
  · intro before after n heq
    simp at heq

def clustering (maxDeliveryAttempts : ℤ) : Config :=
  { messageModel := .clustering, maxDeliveryAttempts := maxDeliveryAttempts }

theorem run_onCourse {maxDeliveryAttempts : ℤ} {filter : FilterExpression} {es : List Event}
    {p : State × List (ℕ × Act)}
    (hrun : (redelivering (clustering maxDeliveryAttempts) filter).run es = some p) :
    OnCourse (clustering maxDeliveryAttempts) p := by
  apply Machine.run_invariant _ _ _ hrun
  · exact ⟨inv_init (clustering maxDeliveryAttempts) filter,
      by simp [redelivering, Machine.record, machine], fun _ _ _ => Or.inl rfl, fun _ _ => rfl⟩
  · rintro ⟨s, seen⟩ e ⟨t, seen'⟩ h hstep
    obtain ⟨hinner, rfl⟩ := Machine.record_step _ hstep
    exact step_onCourse rfl h hinner

theorem redelivery_bounded (maxDeliveryAttempts : ℤ) (filter : FilterExpression)
    {es : List Event} {p : State × List (ℕ × Act)}
    (hrun : (redelivering (clustering maxDeliveryAttempts) filter).run es = some p)
    {id : ℕ} {a : MQMessageExt} (ha : p.1.accepted[id]? = some a) :
    Bounded maxDeliveryAttempts a.getDeliveryAttempt (actsFor id p.2) := by
  rcases (run_onCourse hrun).past id a ha with hnone | ⟨g, n, hcourse⟩
  · rw [hnone]
    exact bounded_nil _ _
  · exact hcourse.bounded

def exhausting : List Event :=
  [.cacheMessages [{}, {}], .submitConsumeTask, .resume 0 .run, .resume 0 .run,
    .resume 0 (.returned .failure), .resume 0 .run, .resume 0 .run,
    .resume 0 (.returned .exception), .resume 0 (.forwarded false), .resume 0 .run,
    .resume 0 (.forwarded true)]

theorem exhausting_bounded :
    ∃ p, (redelivering (clustering 2) {}).run exhausting = some p ∧
      invocations (actsFor 0 p.2) = 2 ∧ Bounded 2 0 (actsFor 0 p.2) :=
  ⟨_, rfl, rfl, @redelivery_bounded 2 {} exhausting _ rfl 0 {} rfl⟩

end RocketMQClient.FifoConsume
