import RocketMQClient.ReceiveMessage
import RocketMQClient.Library.EventMachine
import RocketMQClient.Library.Pending

/-!
# Offsets of a pulled queue

One process queue of a consumer in pull mode. `receiveMessage` of the consumer
either finds a stored offset, and then issues nothing, or asks the broker for the
end of the queue; the answer sets the next offset and is followed by the pull.
Each completion of a pull leads back to `receiveMessage`, at once or by a timer.

The trace records what the broker and the offset store say and what is requested.
`expectation` reads off a trace the offset that the next request is due to have,
and `Conforming` says that every request has the offset due.
-/

namespace RocketMQClient.PullCycle
open EventMachine Pending

inductive Observation
  | stored (offset : ℤ)
  | ended (offset : ℤ)
  | requested (offset : ℤ)
  | carried (nextOffset : ℤ)
  | failed
  deriving DecidableEq, Repr

structure Expectation where
  started : Bool := false
  offset : Option ℤ := none
  deriving DecidableEq, Repr

def Expectation.next (x : Expectation) : Observation → Expectation
  | .stored offset => if x.started then x else { x with offset := some offset }
  | .ended offset => if x.started then x else { x with offset := some offset }
  | .requested offset => { started := true, offset := some offset }
  | .carried nextOffset => { x with offset := some nextOffset }
  | .failed => x

def expectation (trace : List Observation) : Expectation := trace.foldl .next {}

def Conforming (trace : List Observation) : Prop :=
  ∀ before offset after, trace = before ++ .requested offset :: after →
    (expectation before).offset = some offset

theorem expectation_concat (trace : List Observation) (o : Observation) :
    expectation (trace ++ [o]) = (expectation trace).next o := by
  simp [expectation, List.foldl_append]

theorem conforming_concat (trace : List Observation) (o : Observation) :
    Conforming (trace ++ [o]) ↔
      Conforming trace ∧ ∀ offset, o = .requested offset →
        (expectation trace).offset = some offset := by
  constructor
  · intro h
    refine ⟨fun before offset after htrace => ?_, fun offset ho => ?_⟩
    · exact h before offset (after ++ [o]) (by rw [htrace]; simp)
    · exact h trace offset [] (by rw [ho])
  · rintro ⟨h, hlast⟩ before offset after htrace
    rcases List.eq_nil_or_concat after with rfl | ⟨rest, o', rfl⟩
    · obtain ⟨hb, ho⟩ := List.append_inj' htrace rfl
      rw [← hb]
      exact hlast offset (List.singleton_inj.mp ho)
    · apply h before offset rest
      have hsplit : trace ++ [o] = (before ++ .requested offset :: rest) ++ [o'] := by
        rw [htrace]
        simp
      exact (List.append_inj' hsplit rfl).1

inductive Quiet (trace : List Observation) : List Observation → Prop
  | refl : Quiet trace trace
  | concat {trace' : List Observation} {o : Observation} (h : Quiet trace trace')
      (ho : ∀ offset, o ≠ .requested offset) : Quiet trace (trace' ++ [o])

theorem Quiet.conforming_iff {trace trace' : List Observation} (h : Quiet trace trace') :
    Conforming trace' ↔ Conforming trace := by
  induction h with
  | refl => exact Iff.rfl
  | concat h ho ih =>
    rw [conforming_concat, ih]
    exact and_iff_left fun offset heq => absurd heq (ho offset)

theorem conforming_ended_requested (trace : List Observation) (offset : ℤ) :
    Conforming (trace ++ [.ended offset] ++ [.requested offset]) ↔
      Conforming trace ∧ ((expectation trace).started = true →
        (expectation trace).offset = some offset) := by
  have hended : Quiet trace (trace ++ [.ended offset]) := Quiet.refl.concat (by simp)
  rw [conforming_concat, hended.conforming_iff, expectation_concat]
  apply and_congr_right
  intro _
  by_cases hs : (expectation trace).started = true <;> simp [Expectation.next, hs]

structure Config where
  messageModel : MessageModel := .clustering
  hasOffsetStore : Bool := false
  maxCachedMessageQuantity : UInt32 := 1024
  maxCachedMessageMemory : UInt64 := 128 * 1024 * 1024
  wrap : rmq.Message → Decoded

inductive Step
  | start
  | query
  | pull
  | later
  deriving DecidableEq, Repr

structure State where
  processQueue : ProcessQueueImpl := {}
  pending : List Step := [.start]
  trace : List Observation := []

structure Inputs where
  active : Bool := true
  stored : Option ℤ := none

inductive Outcome
  | run (inputs : Inputs)
  | queried (c : Completion ℤ)
  | pulled (c : Completion PullMessageResponse) (inputs : Inputs)

inductive Event
  | resume (i : ℕ) (outcome : Outcome)
  | take (batchSize : ℕ)
  | release (bodySize : ℕ) (offset : ℤ)

def State.observe (s : State) (o : Observation) : State := { s with trace := s.trace ++ [o] }

def State.issue (s : State) (p : Step) : State := { s with pending := s.pending ++ [p] }

/-- `PushConsumerImpl::receiveMessage` in pull mode. The offset that the store
returns is not used. -/
def receiveMessage (cfg : Config) (inputs : Inputs) (s : State) : State :=
  if !inputs.active then s
  else if s.processQueue.messageQueue.serviceAddress.isEmpty then s
  else match (if cfg.hasOffsetStore then inputs.stored else none) with
    | some offset => s.observe (.stored offset)
    | none => s.issue .query

def pullMessage (s : State) : State :=
  (s.observe (.requested s.processQueue.nextOffset)).issue .pull

def onQueryOffset (s : State) (c : Completion ℤ) : Option State :=
  match c.result queryOffsetError with
  | .error _ => some s
  | .ok offset =>
    -- a negative offset fails an assertion
    if offset < 0 then none
    else some (pullMessage
      ({ s with processQueue := { s.processQueue with nextOffset := offset } }.observe
        (.ended offset)))

def checkThrottleThenReceive (cfg : Config) (inputs : Inputs) (s : State) : State :=
  if s.processQueue.shouldThrottle cfg.maxCachedMessageQuantity cfg.maxCachedMessageMemory then
    s.issue .later
  else receiveMessage cfg inputs s

def observed (c : Completion PullMessageResponse) : Observation :=
  if c.statusOk && (c.code == .ok || c.code == .outOfRange) then .carried c.response.nextOffset
  else .failed

def onPulled (cfg : Config) (inputs : Inputs) (s : State) (c : Completion PullMessageResponse) :
    Option State :=
  match onPullMessage cfg.wrap c with
  | none => none
  | some (.error _) => some (s.issue .later)
  | some (.ok result) =>
    if !inputs.active then some s
    else (onSuccess cfg.messageModel .pull s.processQueue result).map fun r =>
      let s := { s with processQueue := r.1 }
      match r.2 with
      | .checkThrottleThenReceive => checkThrottleThenReceive cfg inputs s
      | .receiveMessageLater => s.issue .later

def resume (cfg : Config) (s : State) : Step → Outcome → Option State
  | .start, .run inputs => some (receiveMessage cfg inputs s)
  | .query, .queried c => onQueryOffset s c
  | .pull, .pulled c inputs => onPulled cfg inputs (s.observe (observed c)) c
  | .later, .run inputs => some (checkThrottleThenReceive cfg inputs s)
  | _, _ => none

def step (cfg : Config) (s : State) : Event → Option State
  | .resume i outcome =>
    (pick s.pending i).bind fun r => resume cfg { s with pending := r.2 } r.1 outcome
  | .take batchSize => some { s with processQueue := (s.processQueue.take batchSize).queue }
  | .release bodySize offset =>
    (s.processQueue.release cfg.messageModel bodySize offset).map fun q =>
      { s with processQueue := q }

def machine (cfg : Config) (queue : ProcessQueueImpl) : Machine State Event where
  init := { processQueue := queue }
  step := step cfg

def answered (s : State) : Event → Option ℤ
  | .resume i (.queried c) =>
    if (pick s.pending i).map Prod.fst = some .query then (c.result queryOffsetError).toOption
    else none
  | _ => none

def EndIsDue (s : State) (e : Event) : Prop :=
  ∀ offset, answered s e = some offset → (expectation s.trace).started = true →
    (expectation s.trace).offset = some offset

theorem receiveMessage_quiet (cfg : Config) (inputs : Inputs) (s : State) :
    Quiet s.trace (receiveMessage cfg inputs s).trace := by
  rw [receiveMessage]
  split_ifs
  · exact Quiet.refl
  · exact Quiet.refl
  · split
    · exact Quiet.refl.concat (by simp)
    · exact Quiet.refl
  · exact Quiet.refl

theorem checkThrottleThenReceive_quiet (cfg : Config) (inputs : Inputs) (s : State) :
    Quiet s.trace (checkThrottleThenReceive cfg inputs s).trace := by
  rw [checkThrottleThenReceive]
  split_ifs
  · exact Quiet.refl
  · exact receiveMessage_quiet cfg inputs s

theorem onPulled_quiet {cfg : Config} {inputs : Inputs} {s t : State}
    {c : Completion PullMessageResponse} (h : onPulled cfg inputs s c = some t) :
    Quiet s.trace t.trace := by
  rw [onPulled] at h
  split at h
  · cases h
  · cases h
    exact Quiet.refl
  · split_ifs at h
    · cases h
      exact Quiet.refl
    · obtain ⟨⟨q, next⟩, -, rfl⟩ := Option.map_eq_some_iff.mp h
      cases next with
      | checkThrottleThenReceive =>
        exact checkThrottleThenReceive_quiet cfg inputs { s with processQueue := q }
      | receiveMessageLater => exact Quiet.refl

theorem Quiet.trans {a b c : List Observation} (hab : Quiet a b) (hbc : Quiet b c) :
    Quiet a c := by
  induction hbc with
  | refl => exact hab
  | concat h ho ih => exact ih.concat ho

theorem observed_ne (c : Completion PullMessageResponse) (offset : ℤ) :
    observed c ≠ .requested offset := by
  rw [observed]
  split_ifs <;> simp

theorem onQueryOffset_trace {s t : State} {c : Completion ℤ}
    (h : onQueryOffset s c = some t) :
    ((c.result queryOffsetError).toOption = none ∧ t.trace = s.trace) ∨
    ∃ offset, (c.result queryOffsetError).toOption = some offset ∧
      t.trace = s.trace ++ [.ended offset] ++ [.requested offset] := by
  rw [onQueryOffset] at h
  split at h
  · rename_i hr
    cases h
    exact Or.inl ⟨by rw [hr]; rfl, rfl⟩
  · rename_i offset hr
    split_ifs at h
    cases h
    exact Or.inr ⟨offset, by rw [hr]; rfl, rfl⟩

theorem step_trace {cfg : Config} {s t : State} {e : Event} (h : step cfg s e = some t) :
    (answered s e = none ∧ Quiet s.trace t.trace) ∨
    ∃ offset, answered s e = some offset ∧
      t.trace = s.trace ++ [.ended offset] ++ [.requested offset] := by
  cases e with
  | take batchSize =>
    cases h
    exact Or.inl ⟨rfl, Quiet.refl⟩
  | release bodySize offset =>
    obtain ⟨q, -, rfl⟩ := Option.map_eq_some_iff.mp h
    exact Or.inl ⟨rfl, Quiet.refl⟩
  | resume i outcome =>
    obtain ⟨⟨p, rest⟩, hpick, hres⟩ := Option.bind_eq_some_iff.mp h
    change resume cfg { s with pending := rest } p outcome = some t at hres
    rw [resume.eq_def] at hres
    split at hres
    · cases hres
      exact Or.inl ⟨rfl, receiveMessage_quiet cfg _ { s with pending := rest }⟩
    · rename_i c
      have hans : answered s (.resume i (.queried c)) = (c.result queryOffsetError).toOption := by
        simp [answered, hpick]
      rw [hans]
      rcases onQueryOffset_trace hres with ⟨hnone, htrace⟩ | hsome
      · rw [htrace]
        exact Or.inl ⟨hnone, Quiet.refl⟩
      · exact Or.inr hsome
    · exact Or.inl ⟨rfl, (Quiet.refl.concat (observed_ne _)).trans (onPulled_quiet hres)⟩
    · cases hres
      exact Or.inl ⟨rfl, checkThrottleThenReceive_quiet cfg _ { s with pending := rest }⟩
    · cases hres

theorem step_conforming_iff {cfg : Config} {s t : State} {e : Event}
    (hs : Conforming s.trace) (h : step cfg s e = some t) :
    Conforming t.trace ↔ EndIsDue s e := by
  rcases step_trace h with ⟨hans, hquiet⟩ | ⟨offset, hans, htrace⟩
  · rw [hquiet.conforming_iff]
    exact iff_of_true hs fun offset ho => by simp [hans] at ho
  · rw [htrace, conforming_ended_requested, EndIsDue, hans]
    constructor
    · rintro ⟨-, hdue⟩ offset' heq
      cases heq
      exact hdue
    · intro hdue
      exact ⟨hs, hdue offset rfl⟩

/-- The requests of a run have the offsets due exactly if the broker names, each time
it is asked for the end of the queue, the offset at which the next request is due. -/
theorem conforming_along_iff (cfg : Config) (queue : ProcessQueueImpl) (es : List Event) :
    (machine cfg queue).Along (fun s => Conforming s.trace) (machine cfg queue).init es ↔
      (machine cfg queue).Guarded EndIsDue (machine cfg queue).init es := by
  refine (machine cfg queue).along_iff_guarded (J := fun _ => True) (A := fun _ => True)
    (fun _ _ _ _ _ _ => trivial) (fun s e t _ hs _ h => step_conforming_iff hs h) es
    (fun _ _ => trivial) trivial ?_
  intro before offset after h
  simp [machine] at h

theorem offsets_skipped :
    ∃ cfg queue s, (machine cfg queue).run
      [.resume 0 (.run {}), .resume 0 (.queried { response := 10 }),
        .resume 0 (.pulled { response := { messages := [{}], nextOffset := 11 } } {}),
        .resume 0 (.queried { response := 15 })] = some s ∧
      s.trace = [.ended 10, .requested 10, .carried 11, .ended 15, .requested 15] ∧
      ¬ Conforming s.trace := by
  refine ⟨{ wrap := fun item => wrapMessage Zlib.stored Digests.zero "" {} item {} },
    { messageQueue := { serviceAddress := "broker:10911" } }, _, rfl, rfl, fun h => ?_⟩
  have hdue := h [.ended 10, .requested 10, .carried 11, .ended 15] 15 [] rfl
  exact absurd hdue (by decide)

end RocketMQClient.PullCycle
