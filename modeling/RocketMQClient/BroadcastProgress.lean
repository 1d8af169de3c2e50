import RocketMQClient.OffsetCommit
import RocketMQClient.StandardConsume
import RocketMQClient.FifoSafety

/-!
# The progress that broadcasting consumers store

After the listener has returned, both services read the committed offset of the
queue and hand it to `updateOffset`. The offset is meant to be past every message
that has been returned together with all messages before it. An `Update` is such
an offset with the offsets cached and returned by then, and `Covers` states what
it is meant to be.

The FIFO service releases the message first. The standard service releases
nothing, so its records stay those of all cached messages and the offset it
stores stays the smallest of them.
-/

namespace RocketMQClient
open EventMachine Pending

def StandardConsume.Update.Covers (u : StandardConsume.Update) : Prop :=
  ∀ o ∈ u.returned, (∀ p ∈ u.cached, p < o → p ∈ u.returned) → o < u.offset

namespace BroadcastProgress
open StandardConsume (Update)

structure Unreleased (offsets : Offsets) (cached : List ℤ) : Prop where
  live : ∀ r ∈ offsets.entries, r.released = false
  offsets : ∀ o, (∃ r ∈ offsets.entries, r.offset = o) ↔ o ∈ cached

theorem recordOffset_unreleased {offsets : Offsets} {cached : List ℤ}
    (h : Unreleased offsets cached) (o : ℤ) :
    Unreleased (ProcessQueueImpl.recordOffset offsets o) (cached ++ [o]) := by
  rw [ProcessQueueImpl.recordOffset_eq_emplace h.live]
  refine ⟨fun r hr => ?_, fun p => ?_⟩
  · rcases OrderedSet.mem_of_mem_emplace hr with rfl | hr
    · rfl
    · exact h.live r hr
  · rw [OrderedSet.exists_key_emplace, h.offsets p, List.mem_append, List.mem_singleton,
      eq_comm (a := p)]

theorem cacheMessages_unreleased {q : ProcessQueueImpl} {cached : List ℤ}
    (h : Unreleased q.offsets cached) (messages : List MQMessageExt) :
    Unreleased (q.cacheMessages .broadcasting messages).offsets
      (cached ++ OffsetCommit.acceptedOffsets q messages) := by
  induction messages generalizing q cached with
  | nil => simpa [OffsetCommit.acceptedOffsets, ProcessQueueImpl.cacheMessages] using h
  | cons m messages ih =>
    rw [OffsetCommit.acceptedOffsets_cons, ← List.append_assoc]
    refine ih (q := q.cacheMessage .broadcasting m) ?_
    rw [OffsetCommit.cacheMessage_offsets]
    split_ifs
    · exact recordOffset_unreleased h _
    · simpa using h

theorem committedOffset_unreleased {q : ProcessQueueImpl} {cached : List ℤ}
    (h : Unreleased q.offsets cached) {c : ℤ} (hc : q.committedOffset = some c) :
    c ∈ cached ∧ ∀ o ∈ cached, c ≤ o := by
  obtain ⟨r, hfirst, rfl⟩ := Option.map_eq_some_iff.mp hc
  have hmem := OrderedSet.mem_of_first? hfirst
  rw [h.live r hmem, if_neg Bool.false_ne_true]
  refine ⟨(h.offsets r.offset).mp ⟨r, hmem, rfl⟩, fun o ho => ?_⟩
  obtain ⟨r', hr', rfl⟩ := (h.offsets o).mpr ho
  exact OrderedSet.first?_le hfirst hr'

theorem cached_eq_nil_of_committedOffset {q : ProcessQueueImpl} {cached : List ℤ}
    (h : Unreleased q.offsets cached) (hc : q.committedOffset = none) : cached = [] := by
  have hnil : q.offsets.entries = [] := List.head?_eq_none_iff.mp (Option.map_eq_none_iff.mp hc)
  refine List.eq_nil_iff_forall_not_mem.mpr fun o ho => ?_
  obtain ⟨r, hr, -⟩ := (h.offsets o).mpr ho
  simp [hnil] at hr

theorem lt_committedOffset_of_release {q q' : ProcessQueueImpl} {cached : List ℤ}
    (h : Unreleased q.offsets cached) {n : ℕ} {o c : ℤ}
    (hr : q.release .broadcasting n o = some q') (hc : q'.committedOffset = some c)
    (hmin : ∀ p ∈ cached, ¬ p < o) : o < c := by
  rw [ProcessQueueImpl.release_eq] at hr
  obtain ⟨offsets, hoffsets, rfl⟩ := Option.map_eq_some_iff.mp hr
  obtain ⟨r, hfirst, rfl⟩ := Option.map_eq_some_iff.mp hc
  have hmem := OrderedSet.mem_of_first? hfirst
  simp only [ProcessQueueImpl.releaseOffset] at hoffsets
  split_ifs at hoffsets with hsize
  · cases hoffsets
    obtain ⟨hmem, hne⟩ := List.mem_filter.mp hmem
    have hcached := (h.offsets r.offset).mp ⟨r, hmem, rfl⟩
    rw [h.live r hmem, if_neg Bool.false_ne_true]
    exact lt_of_le_of_ne (not_lt.mp (hmin _ hcached)) (Ne.symm (by simpa using hne))
  · rcases hq : q.offsets.entries with _ | ⟨r₀, _ | ⟨r₁, l⟩⟩
    · simp [OrderedSet.first?, hq] at hoffsets
    · have hlone : (q.offsets.erase o).entries = [] ∧
          offsets = (q.offsets.erase o).emplace ⟨o, true⟩ := by
        simp only [OrderedSet.first?, hq, List.head?_cons] at hoffsets
        split_ifs at hoffsets with ho
        cases hoffsets
        exact ⟨by simp [OrderedSet.erase, hq, ho], rfl⟩
      obtain ⟨hnil, rfl⟩ := hlone
      have hr₀ : r = ⟨o, true⟩ :=
        (OrderedSet.mem_of_mem_emplace hmem).resolve_right (by simp [hnil])
      rw [hr₀]
      exact lt_add_one o
    · simp [OrderedSet.size, hq] at hsize

theorem covers_least_iff {c : ℤ} {cached returned : List ℤ} (hc : c ∈ cached)
    (hleast : ∀ o ∈ cached, c ≤ o) (hsub : ∀ o ∈ returned, o ∈ cached) :
    Update.Covers ⟨c, cached, returned⟩ ↔ ∀ o ∈ returned, ∃ p ∈ cached, p < o := by
  constructor
  · intro h o ho
    by_contra hnone
    push Not at hnone
    have hlt : o < c := h o ho fun p hp hpo => absurd hpo (hnone p hp).not_gt
    exact absurd hlt (hleast o (hsub o ho)).not_gt
  · intro h o ho hcovered
    have hreturned : c ∈ returned := by
      rcases (hleast o (hsub o ho)).eq_or_lt with rfl | hlt
      · exact ho
      · exact hcovered c hc hlt
    obtain ⟨p, hp, hlt⟩ := h c hreturned
    exact absurd hlt (hleast p hp).not_gt

end BroadcastProgress

namespace StandardConsume
open BroadcastProgress

def broadcasting (consumeBatchSize : ℕ) (customExecutor credentialsProvider : Bool) : Config :=
  { messageModel := .broadcasting
    consumeBatchSize := consumeBatchSize
    customExecutor := customExecutor
    credentialsProvider := credentialsProvider }

def queueOffsets (messages : List MQMessageExt) : List ℤ := messages.map MQMessage.getQueueOffset

def known (s : State) : List MQMessageExt :=
  s.processQueue.cachedMessages ++ (inFlight s ++ s.finished)

structure ProgressInv (s : State) : Prop where
  records : Unreleased s.processQueue.offsets (queueOffsets s.accepted)
  known : known s ⊆ s.accepted
  nonempty : ∀ task ∈ s.pending, task.Nonempty

def Progress (s : State) : Prop := ∀ u ∈ s.updates, u.Covers

/-- When a listener returns, each message returned so far has a cached one before it. -/
def ReturnsBehind (s : State) : Event → Prop
  | .resume i (.returned _) =>
    ∀ o ∈ queueOffsets (s.finished ++ (pick s.pending i).elim [] fun r => r.1.messages),
      ∃ p ∈ queueOffsets s.accepted, p < o
  | _ => True

instance (s : State) : ∀ e, Decidable (ReturnsBehind s e)
  | .cacheMessages _ => inferInstanceAs (Decidable True)
  | .submitConsumeTask => inferInstanceAs (Decidable True)
  | .resume _ .run => inferInstanceAs (Decidable True)
  | .resume _ (.returned _) => inferInstanceAs (Decidable (∀ o ∈ _, ∃ p ∈ _, p < o))
  | .dropReference => inferInstanceAs (Decidable True)
  | .destroyConsumer => inferInstanceAs (Decidable True)

theorem progressInv_init (cfg : Config) (filter : FilterExpression) :
    ProgressInv (machine cfg filter).init := by
  refine ⟨⟨?_, ?_⟩, ?_, ?_⟩ <;>
    simp [machine, OrderedSet.empty, queueOffsets, StandardConsume.known, inFlight]

theorem release_clustering {q q' : ProcessQueueImpl} {n : ℕ} {o : ℤ}
    (h : q.release .clustering n o = some q') : q'.offsets = q.offsets := by
  cases h
  rfl

theorem Continued.known_subset {cfg : Config} {s t : State} {task : Task} {outcome : Outcome}
    (hc : Continued cfg s task outcome t) : known t ⊆ task.messages ++ known s := by
  intro m hm
  simp only [known, List.mem_append] at hm ⊢
  exact hc.source hm

theorem Continued.offsets {cfg : Config} {s t : State} {task : Task} {outcome : Outcome}
    (hc : Continued cfg s task outcome t) : t.processQueue.offsets = s.processQueue.offsets := by
  cases hc with
  | takes _ _ _ queue => rw [queue, ProcessQueueImpl.take_queue]
  | passes _ _ queue => rw [queue]
  | drops _ _ _ queue => rw [queue]
  | returns _ _ _ _ _ queue => rw [queue]
  | settles _ _ _ _ _ queue => exact release_clustering queue

theorem known_pick {s : State} {i : ℕ} {task : Task} {rest : List Task}
    (h : pick s.pending i = some (task, rest)) :
    task.messages ++ known { s with pending := rest } ⊆ known s := by
  intro m hm
  have hflight := (inFlight_pick h).mem_iff (a := m)
  rw [List.mem_append] at hflight
  simp only [known, List.mem_append] at hm ⊢
  tauto

theorem Continued.progressInv {cfg : Config} {s t : State} {i : ℕ} {task : Task}
    {rest : List Task} {outcome : Outcome} (h : ProgressInv s)
    (hpick : pick s.pending i = some (task, rest))
    (hc : Continued cfg { s with pending := rest } task outcome t) : ProgressInv t := by
  have hframe := hc.frame
  have haccepted : t.accepted = s.accepted := hframe.accepted
  refine ⟨?_, ?_, fun task' hmem => ?_⟩
  · rw [hc.offsets, haccepted]
    exact h.records
  · rw [haccepted]
    exact fun m hm => h.known (known_pick hpick (hc.known_subset hm))
  · rcases hframe.tasks task' hmem with hold | hnew
    · exact h.nonempty _ (mem_of_mem_rest hpick hold)
    · exact hnew

theorem Continued.progress_iff {cfg : Config} {s t : State} {i : ℕ} {task : Task}
    {rest : List Task} {outcome : Outcome} (hm : cfg.messageModel = .broadcasting)
    (h : ProgressInv s) (hs : Progress s) (hpick : pick s.pending i = some (task, rest))
    (hc : Continued cfg { s with pending := rest } task outcome t) :
    Progress t ↔ ReturnsBehind s (.resume i outcome) := by
  cases hc with
  | takes _ _ houtcome _ _ _ _ updates =>
    rw [Progress, updates, houtcome]
    exact iff_of_true hs trivial
  | passes _ houtcome _ _ _ _ updates =>
    rw [Progress, updates, houtcome.resolve_right (by simp [hm])]
    exact iff_of_true hs trivial
  | drops _ _ houtcome _ _ _ _ updates =>
    rw [Progress, updates, houtcome]
    exact iff_of_true hs trivial
  | settles _ _ _ _ houtcome _ _ _ _ updates =>
    rw [Progress, updates, houtcome]
    exact iff_of_true hs trivial
  | returns _ status houtcome _ _ _ _ _ _ updates =>
    have hreturned : queueOffsets (s.finished ++ task.messages) ⊆ queueOffsets s.accepted := by
      refine List.map_subset _ fun m hmem => h.known (known_pick hpick ?_)
      rw [List.mem_append] at hmem
      simp only [StandardConsume.known, List.mem_append]
      tauto
    rw [Progress, updates, houtcome]
    simp only [ReturnsBehind, hpick, Option.elim_some, List.forall_mem_append]
    change Progress s ∧ _ ↔ _
    rw [and_iff_right hs]
    cases hcommit : s.processQueue.committedOffset with
    | none =>
      have hnil := cached_eq_nil_of_committedOffset h.records hcommit
      rw [hnil, List.subset_nil] at hreturned
      rw [hreturned]
      exact iff_of_true (by simp) (by simp)
    | some c =>
      obtain ⟨hmem, hleast⟩ := committedOffset_unreleased h.records hcommit
      rw [Option.toList_some, List.map_singleton, List.forall_mem_singleton]
      exact covers_least_iff hmem hleast fun o ho => hreturned ho

theorem step_progressInv {cfg : Config} (hm : cfg.messageModel = .broadcasting) {s t : State}
    {e : Event} (h : ProgressInv s) (hstep : step cfg s e = some t) : ProgressInv t := by
  cases e with
  | cacheMessages messages =>
    cases hstep
    rw [cacheMessages]
    split_ifs
    · refine ⟨?_, ?_, h.nonempty⟩
      · simp only [hm, queueOffsets, List.map_append]
        exact cacheMessages_unreleased h.records messages
      · intro m hmem
        have hknown := h.known (a := m)
        simp only [StandardConsume.known, ProcessQueueImpl.cacheMessages_cachedMessages,
          List.mem_append, inFlight] at hmem hknown ⊢
        tauto
    · exact h
  | submitConsumeTask =>
    cases hstep
    rw [submitConsumeTask]
    split_ifs
    · refine ⟨h.records, ?_, fun task hmem => ?_⟩
      · rw [StandardConsume.known, inFlight_add, Task.messages, List.append_nil]
        exact h.known
      · have hadd : Frame s (s.add .dispatch) := (Frame.refl s).add trivial
        exact (hadd.tasks task hmem).elim (h.nonempty task) id
    · exact h
  | resume i outcome =>
    obtain ⟨⟨task, rest⟩, hpick, hres⟩ := Option.bind_eq_some_iff.mp hstep
    have hne : task.Nonempty := h.nonempty task (mem_of_pick hpick)
    exact (resume_continued hne hres).progressInv h hpick
  | dropReference =>
    cases hstep
    exact ⟨h.records, h.known, h.nonempty⟩
  | destroyConsumer =>
    cases hstep
    exact ⟨h.records, h.known, h.nonempty⟩

theorem step_progress_iff {cfg : Config} (hm : cfg.messageModel = .broadcasting) {s t : State}
    {e : Event} (h : ProgressInv s) (hs : Progress s) (hstep : step cfg s e = some t) :
    Progress t ↔ ReturnsBehind s e := by
  cases e with
  | cacheMessages messages =>
    cases hstep
    rw [cacheMessages]
    split_ifs
    · exact iff_of_true hs trivial
    · exact iff_of_true hs trivial
  | submitConsumeTask =>
    cases hstep
    rw [submitConsumeTask]
    split_ifs
    · exact iff_of_true hs trivial
    · exact iff_of_true hs trivial
  | resume i outcome =>
    obtain ⟨⟨task, rest⟩, hpick, hres⟩ := Option.bind_eq_some_iff.mp hstep
    have hne : task.Nonempty := h.nonempty task (mem_of_pick hpick)
    exact (resume_continued hne hres).progress_iff hm h hs hpick
  | dropReference =>
    cases hstep
    exact iff_of_true hs trivial
  | destroyConsumer =>
    cases hstep
    exact iff_of_true hs trivial

theorem progress_along_iff (consumeBatchSize : ℕ) (customExecutor credentialsProvider : Bool)
    (filter : FilterExpression) (es : List Event) :
    let M := machine (broadcasting consumeBatchSize customExecutor credentialsProvider) filter
    M.Along Progress M.init es ↔ M.Guarded ReturnsBehind M.init es := by
  intro M
  refine M.along_iff_guarded (J := ProgressInv) (A := fun _ => True)
    (fun s e t h _ ht => step_progressInv rfl h ht)
    (fun s e t h hs _ ht => step_progress_iff rfl h hs ht) es (fun _ _ => trivial)
    (progressInv_init _ filter) ?_
  intro u hu
  simp [M, machine] at hu

end StandardConsume

namespace FifoConsume
open BroadcastProgress
open StandardConsume (Update)

def broadcasting (maxDeliveryAttempts : ℤ) : Config :=
  { messageModel := .broadcasting, maxDeliveryAttempts := maxDeliveryAttempts }

def returnedBy (s : State) : Event → List ℤ
  | .resume i (.returned _) => (pick s.pending i).elim [] fun r =>
    match r.1 with
    | .held .running _ m => [m.getQueueOffset]
    | _ => []
  | _ => []

def updatedBy (cfg : Config) (s : State × List ℤ) (e : Event) : List Update :=
  (step cfg s.1 e).elim [] fun t =>
    (t.updatedOffsets.drop s.1.updatedOffsets.length).map fun offset =>
      { offset := offset
        cached := s.1.accepted.map MQMessage.getQueueOffset
        returned := s.2 ++ returnedBy s.1 e }

def progressing (cfg : Config) (filter : FilterExpression) :
    Machine ((State × List ℤ) × List Update) Event :=
  ((machine cfg filter).record returnedBy).record (updatedBy cfg)

/-- Until the first message returns nothing is released; afterwards the queue is stuck. -/
structure ProgressInv (s : (State × List ℤ) × List Update) : Prop where
  inv : Inv s.1.1
  first : (s.1.2 = [] ∧ Unreleased s.1.1.processQueue.offsets
      (s.1.1.accepted.map MQMessage.getQueueOffset)) ∨
    (s.1.1.pending = [] ∧ s.1.1.processQueue.hasFifoTaskBound = true)
  covers : ∀ u ∈ s.2, u.Covers

theorem resume_quiet_or_returned {cfg : Config} (hm : cfg.messageModel = .broadcasting)
    {s t : State} {g : Stage} {id : ℕ} {m : MQMessageExt} {outcome : Outcome}
    (h : resume cfg s (.held g id m) outcome = some t) :
    ((∀ r, outcome ≠ .returned r) ∧ t.updatedOffsets = s.updatedOffsets ∧
      t.processQueue.offsets = s.processQueue.offsets) ∨
    (g = .running ∧ (∃ r, outcome = .returned r) ∧
      s.processQueue.release .broadcasting m.getBody.length m.getQueueOffset =
        some t.processQueue ∧
      t.updatedOffsets = s.updatedOffsets ++ t.processQueue.committedOffset.toList ∧
      t.pending = s.pending) := by
  cases resume_resumed h with
  | invoke => exact Or.inl ⟨by simp, rfl, rfl⟩
  | drop hdead => exact Or.inl ⟨by simp, rfl, rfl⟩
  | settle hsettle =>
    simp only [settle, hm] at hsettle
    obtain ⟨q, hq, rfl⟩ := Option.map_eq_some_iff.mp hsettle
    exact Or.inr ⟨rfl, ⟨_, rfl⟩, hq, rfl, rfl⟩
  | pass hpass => cases hpass <;> exact Or.inl ⟨by simp, rfl, rfl⟩
  | lose hpass hdead => cases hpass <;> exact Or.inl ⟨by simp, rfl, rfl⟩
  | finish hfinish =>
    refine Or.inl ⟨?_, rfl, ?_⟩
    · cases hfinish <;> simp
    · rw [unbindFifoConsumeTask_queue]
      split_ifs <;> rfl

theorem ProgressInv.quiet {cfg : Config} {s t : State} {returned : List ℤ}
    {updates : List Update} {e : Event} (h : ProgressInv ((s, returned), updates))
    (hstep : step cfg s e = some t) (hinv : Inv t)
    (hupdated : t.updatedOffsets = s.updatedOffsets) (hreturned : returnedBy s e = [])
    (hrecords : Unreleased s.processQueue.offsets (s.accepted.map MQMessage.getQueueOffset) →
      Unreleased t.processQueue.offsets (t.accepted.map MQMessage.getQueueOffset))
    (hstuck : s.pending = [] → s.processQueue.hasFifoTaskBound = true →
      t.pending = [] ∧ t.processQueue.hasFifoTaskBound = true) :
    ProgressInv ((t, returned ++ returnedBy s e), updates ++ updatedBy cfg (s, returned) e) := by
  have hnone : updatedBy cfg (s, returned) e = [] := by
    simp [updatedBy, hstep, hupdated]
  rw [hnone, hreturned, List.append_nil, List.append_nil]
  refine ⟨hinv, ?_, h.covers⟩
  rcases h.first with ⟨hnil, hun⟩ | ⟨hp, hb⟩
  · exact Or.inl ⟨hnil, hrecords hun⟩
  · exact Or.inr (hstuck hp hb)

theorem ProgressInv.same {cfg : Config} {s t : State} {returned : List ℤ}
    {updates : List Update} {e : Event} (h : ProgressInv ((s, returned), updates))
    (hstep : step cfg s e = some t) (hreturned : returnedBy s e = [])
    (hupdated : t.updatedOffsets = s.updatedOffsets) (hqueue : t.processQueue = s.processQueue)
    (haccepted : t.accepted = s.accepted) (hpending : t.pending = s.pending) :
    ProgressInv ((t, returned ++ returnedBy s e), updates ++ updatedBy cfg (s, returned) e) := by
  apply h.quiet hstep (step_inv h.inv hstep) hupdated hreturned
  · rw [hqueue, haccepted]
    exact id
  · rw [hqueue, hpending]
    exact And.intro

theorem takeThenSubmit_quiet (s : State) :
    (takeThenSubmit s).updatedOffsets = s.updatedOffsets ∧
      (takeThenSubmit s).processQueue.offsets = s.processQueue.offsets ∧
      (takeThenSubmit s).accepted = s.accepted := by
  rcases takeThenSubmit_cases s with ⟨-, ht⟩ | ⟨_, -, ht⟩ | ⟨_, _, _, -, ht⟩ <;> simp [ht]

theorem ProgressInv.listenerReturned {cfg : Config} {s t : State} {returned : List ℤ}
    {updates : List Update} {i id : ℕ} {m : MQMessageExt} {r : ListenerOutcome}
    (h : ProgressInv ((s, returned), updates))
    (hstep : step cfg s (.resume i (.returned r)) = some t)
    (hpick : pick s.pending i = some (.held .running id m, [])) (hne : s.pending ≠ [])
    (hrelease : s.processQueue.release .broadcasting m.getBody.length m.getQueueOffset =
      some t.processQueue)
    (hupdated : t.updatedOffsets = s.updatedOffsets ++ t.processQueue.committedOffset.toList)
    (hpending : t.pending = []) :
    ProgressInv ((t, returned ++ returnedBy s (.resume i (.returned r))),
      updates ++ updatedBy cfg (s, returned) (.resume i (.returned r))) := by
  obtain ⟨hnil, hun⟩ := h.first.resolve_right fun hstuck => hne hstuck.1
  have hbound : t.processQueue.hasFifoTaskBound = true :=
    (ProcessQueueImpl.release_cachedMessages hrelease).2.1.trans (h.inv.bound hne)
  refine ⟨step_inv h.inv hstep, Or.inr ⟨hpending, hbound⟩, fun u hu => ?_⟩
  rcases List.mem_append.mp hu with hu | hu
  · exact h.covers u hu
  · change returned = [] at hnil
    simp only [updatedBy, hstep, Option.elim_some, hupdated, List.drop_left, hnil,
      returnedBy, hpick, List.nil_append, List.mem_map, Option.mem_toList] at hu
    obtain ⟨c, hc, rfl⟩ := hu
    intro o ho hcovered
    obtain rfl := List.mem_singleton.mp ho
    refine lt_committedOffset_of_release hun hrelease hc fun p hpc hlt => ?_
    exact absurd (List.mem_singleton.mp (hcovered p hpc hlt)) hlt.ne

theorem ProgressInv.resumed {cfg : Config} (hm : cfg.messageModel = .broadcasting) {s t : State}
    {returned : List ℤ} {updates : List Update} {i : ℕ} {outcome : Outcome}
    (h : ProgressInv ((s, returned), updates)) (hstep : step cfg s (.resume i outcome) = some t) :
    ProgressInv ((t, returned ++ returnedBy s (.resume i outcome)),
      updates ++ updatedBy cfg (s, returned) (.resume i outcome)) := by
  have hinv := step_inv h.inv hstep
  obtain ⟨⟨task, rest⟩, hpick, hres⟩ := Option.bind_eq_some_iff.mp hstep
  obtain ⟨hp, rfl⟩ := pick_single hpick h.inv.pending_le
  have hne : s.pending ≠ [] := by simp [hp]
  cases task with
  | dispatch =>
    cases outcome with
    | run =>
      have ht : t = takeThenSubmit { s with pending := [] } := by
        cases hres
        rfl
      obtain ⟨hupdated, hoffsets, haccepted⟩ := takeThenSubmit_quiet { s with pending := [] }
      refine h.quiet hstep hinv (by rw [ht, hupdated]) rfl (fun hun => ?_)
        fun hnil => absurd hnil hne
      rw [ht, hoffsets, haccepted]
      exact hun
    | returned _ => cases hres
    | acked _ => cases hres
    | forwarded _ => cases hres
  | held g id m =>
    have haccepted : t.accepted = s.accepted := (resume_continued hres).frame.accepted
    rcases resume_quiet_or_returned hm hres with
      ⟨hout, hupdated, hoffsets⟩ | ⟨rfl, ⟨r, rfl⟩, hrelease, hupdated, hpending⟩
    · have hreturned : returnedBy s (.resume i outcome) = [] := by
        cases outcome with
        | returned r => exact absurd rfl (hout r)
        | _ => rfl
      refine h.quiet hstep hinv hupdated hreturned (fun hun => ?_) fun hnil => absurd hnil hne
      rw [hoffsets, haccepted]
      exact hun
    · exact h.listenerReturned hstep hpick hne hrelease hupdated hpending

theorem step_progressInv {cfg : Config} (hm : cfg.messageModel = .broadcasting) {s t : State}
    {returned : List ℤ} {updates : List Update} {e : Event}
    (h : ProgressInv ((s, returned), updates)) (hstep : step cfg s e = some t) :
    ProgressInv ((t, returned ++ returnedBy s e), updates ++ updatedBy cfg (s, returned) e) := by
  cases e with
  | cacheMessages messages =>
    have ht : t = cacheMessages cfg s messages := by
      cases hstep
      rfl
    cases hc : s.consumerAlive with
    | true =>
      simp only [cacheMessages, hc, if_true, hm] at ht
      apply h.quiet hstep (step_inv h.inv hstep) (by rw [ht]) rfl
      · intro hun
        rw [ht, List.map_append]
        exact cacheMessages_unreleased hun messages
      · intro hp hb
        rw [ht]
        exact ⟨hp, (ProcessQueueImpl.cacheMessages_hasFifoTaskBound _ _ _).trans hb⟩
    | false =>
      simp only [cacheMessages, hc, Bool.false_eq_true, if_false] at ht
      subst ht
      exact h.same hstep rfl rfl rfl rfl rfl
  | submitConsumeTask =>
    have ht : t = submitConsumeTask s := by
      cases hstep
      rfl
    rcases submitConsumeTask_cases s with hs | ⟨hb, hs⟩
    · rw [hs] at ht
      subst ht
      exact h.same hstep rfl rfl rfl rfl rfl
    · rw [hs] at ht
      refine h.quiet hstep (step_inv h.inv hstep) (by rw [ht]) rfl (by rw [ht]; exact id)
        fun _ hbound => ?_
      simp [hb] at hbound
  | resume i outcome => exact h.resumed hm hstep
  | destroyProcessQueue =>
    have hstep' := hstep
    cases hstep'
    exact h.same hstep rfl rfl rfl rfl rfl
  | destroyConsumer =>
    have hstep' := hstep
    cases hstep'
    exact h.same hstep rfl rfl rfl rfl rfl

def Progress (s : (State × List ℤ) × List Update) : Prop := ∀ u ∈ s.2, u.Covers

theorem progress_along (maxDeliveryAttempts : ℤ) (filter : FilterExpression) (es : List Event) :
    let M := progressing (broadcasting maxDeliveryAttempts) filter
    M.Along Progress M.init es := by
  intro M
  refine M.along_of_invariant (J := ProgressInv) ?_ (fun s h => h.covers) es ?_
  · rintro ⟨⟨s, returned⟩, updates⟩ e ⟨⟨t, returned'⟩, updates'⟩ h ht
    obtain ⟨hinner, rfl⟩ := Machine.record_step _ ht
    obtain ⟨hstep, rfl⟩ := Machine.record_step _ hinner
    exact step_progressInv rfl h hstep
  · refine ⟨inv_init (broadcasting maxDeliveryAttempts) filter, Or.inl ⟨rfl, ?_⟩, ?_⟩
    · constructor <;> simp [M, progressing, Machine.record, machine, OrderedSet.empty]
    · simp [M, progressing, Machine.record]

end FifoConsume

/-- The offsets that the FIFO service stores always cover what was returned; those of the
standard service do, along a run, exactly if no message returned is the first one cached. -/
theorem stored_progress_along_iff (filter : FilterExpression) :
    (∀ (maxDeliveryAttempts : ℤ) (es : List FifoConsume.Event),
      let M := FifoConsume.progressing (FifoConsume.broadcasting maxDeliveryAttempts) filter
      M.Along FifoConsume.Progress M.init es) ∧
    ∀ (consumeBatchSize : ℕ) (customExecutor credentialsProvider : Bool)
      (es : List StandardConsume.Event),
      let M := StandardConsume.machine
        (StandardConsume.broadcasting consumeBatchSize customExecutor credentialsProvider) filter
      M.Along StandardConsume.Progress M.init es ↔
        M.Guarded StandardConsume.ReturnsBehind M.init es :=
  ⟨fun n es => FifoConsume.progress_along n filter es,
    fun b x c es => StandardConsume.progress_along_iff b x c filter es⟩

theorem stored_progress_stays :
    ∃ s, (StandardConsume.machine (StandardConsume.broadcasting 1 false true) {}).run
        [.cacheMessages [{}], .submitConsumeTask, .resume 0 .run, .resume 0 .run,
          .resume 0 (.returned .success)] = some s ∧
      ¬ StandardConsume.Progress s := by
  refine ⟨_, rfl, fun h => ?_⟩
  have hcovers := h ⟨0, [0], [0]⟩ (List.mem_singleton.mpr rfl)
  exact absurd (hcovers 0 (by simp) (by simp)) (lt_irrefl 0)

end RocketMQClient
