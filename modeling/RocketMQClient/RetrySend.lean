import RocketMQClient.Producer

/-!
# The attempts of one send

`sendImpl` issues an attempt against the queue of the callback, and `onFailure`
advances the callback and calls `sendImpl` again. The traced versions of the two
list the queues of the attempts beside what the user's callback gets. An attempt
whose queue has no service address is issued and fails at once. One against an
address ends the process before it is issued if there is no credentials provider.
-/

namespace RocketMQClient

structure Trace extends Reported where
  attempts : List MQMessageQueue

def Trace.issue (q : MQMessageQueue) (t : Trace) : Trace := { t with attempts := q :: t.attempts }

namespace RetrySendCallback

mutual

def sendImplTrace (env : Attempts) (r : RetrySendCallback) : Trace :=
  if r.messageQueue.serviceAddress.isEmpty then
    (onFailureTrace env r .badGateway).issue r.messageQueue
  else if !env.credentialsProvider then ⟨⟨[], true⟩, []⟩
  else match (env.completion r.attemptTimes).result sendMessageError with
    | .ok response => ⟨⟨[.onSuccess
        { msgId := response.messageId
          transactionId := response.transactionId
          messageQueue := r.messageQueue }], false⟩, [r.messageQueue]⟩
    | .error ec => (onFailureTrace env r ec).issue r.messageQueue
termination_by (r.remaining, 1)

def onFailureTrace (env : Attempts) (r : RetrySendCallback) (ec : ErrorCode) : Trace :=
  if r.maxAttemptTimes ≤ r.attemptTimes + 1 then ⟨⟨[.onFailure ec], false⟩, []⟩
  else if !env.producerAlive r.attemptTimes then ⟨⟨[.onFailure ec], false⟩, []⟩
  else if r.candidates.isEmpty then ⟨⟨[.onFailure ec], false⟩, []⟩
  else sendImplTrace env { r with attemptTimes := r.attemptTimes + 1 }
termination_by (r.remaining, 0)
decreasing_by
  simp only [remaining]
  left
  omega

end

theorem sendImplTrace_reported_of_onFailure {env : Attempts} {r : RetrySendCallback}
    (h : ∀ ec, (onFailureTrace env r ec).toReported = onFailure env r ec) :
    (sendImplTrace env r).toReported = sendImpl env r := by
  rw [sendImplTrace, sendImpl]
  split_ifs
  · exact h _
  · rfl
  · cases (env.completion r.attemptTimes).result sendMessageError with
    | ok response => rfl
    | error ec => exact h ec

theorem sendImplTrace_reported (env : Attempts) (r : RetrySendCallback) :
    (sendImplTrace env r).toReported = sendImpl env r := by
  apply sendImplTrace_reported_of_onFailure
  intro ec
  induction hn : r.remaining using Nat.strong_induction_on generalizing r ec with
  | _ n ih =>
    rw [onFailureTrace, onFailure]
    split_ifs with hmax halive hcand
    · rfl
    · rfl
    · rfl
    · apply sendImplTrace_reported_of_onFailure
      intro ec'
      apply ih _ _ _ _ rfl
      simp only [remaining] at hn ⊢
      omega

end RetrySendCallback

section Discipline
open RetrySendCallback
variable (env : Attempts) (candidates : List MQMessageQueue) (maxAttemptTimes : ℤ)

def queueAt (i : ℕ) : MQMessageQueue := candidates.getD (i % candidates.length) {}

/-- How attempt number `i` ends; `none` is the end of the process. -/
def outcome (i : ℕ) : Option (Except ErrorCode SendMessageResponse) :=
  if (queueAt candidates i).serviceAddress.isEmpty then some (.error .badGateway)
  else if !env.credentialsProvider then none
  else some ((env.completion i).result sendMessageError)

def GivesUp (i : ℕ) : Prop := maxAttemptTimes ≤ i + 1 ∨ env.producerAlive i = false

structure Disciplined (t : Trace) : Prop where
  issued : ∀ i < t.attempts.length, t.attempts[i]? = candidates[i % candidates.length]?
  bounded : 1 ≤ t.attempts.length ∧ (t.attempts.length : ℤ) ≤ maxAttemptTimes
  noneAfterSuccess : ∀ i response, i < t.attempts.length →
    outcome env candidates i = some (.ok response) → i + 1 = t.attempts.length
  reported : ∃ call, t.toReported = ⟨[call], false⟩
  success : ∀ result, .onSuccess result ∈ t.calls →
    t.attempts.getLast? = some result.messageQueue ∧
      ∃ response, outcome env candidates (t.attempts.length - 1) = some (.ok response)
  failure : ∀ ec, .onFailure ec ∈ t.calls →
    outcome env candidates (t.attempts.length - 1) = some (.error ec) ∧
      GivesUp env maxAttemptTimes (t.attempts.length - 1)

/-- Some attempt is against a queue with an address, and all before it are not. -/
def AddressReached : Prop :=
  ∃ k, (queueAt candidates k).serviceAddress.isEmpty = false ∧
    ∀ j < k, (queueAt candidates j).serviceAddress.isEmpty = true ∧
      ¬ GivesUp env maxAttemptTimes j

def Ends (i : ℕ) : Prop :=
  (∃ response, outcome env candidates i = some (.ok response)) ∨
    outcome env candidates i = none ∨ GivesUp env maxAttemptTimes i

structure GoesOn (i k : ℕ) : Prop where
  le : i ≤ k
  before : ∀ j, i ≤ j → j < k → (∃ ec, outcome env candidates j = some (.error ec)) ∧
    ¬ GivesUp env maxAttemptTimes j

structure RunsTo (i k : ℕ) (t : Trace) : Prop
    extends GoesOn env candidates maxAttemptTimes i k where
  attempts : t.attempts = (List.range' i (k + 1 - i)).map (queueAt candidates)
  last : (∃ response, outcome env candidates k = some (.ok response) ∧
      t.toReported = ⟨[.onSuccess
        { msgId := response.messageId
          transactionId := response.transactionId
          messageQueue := queueAt candidates k }], false⟩) ∨
    ∃ ec, outcome env candidates k = some (.error ec) ∧ GivesUp env maxAttemptTimes k ∧
      t.toReported = ⟨[.onFailure ec], false⟩

structure CrashesAt (i k : ℕ) (t : Trace) : Prop
    extends GoesOn env candidates maxAttemptTimes i k where
  attempts : t.attempts = (List.range' i (k - i)).map (queueAt candidates)
  last : outcome env candidates k = none
  reported : t.toReported = ⟨[], true⟩

def callback (i : ℕ) : RetrySendCallback :=
  { maxAttemptTimes := maxAttemptTimes, candidates := candidates, attemptTimes := i }

variable {env candidates maxAttemptTimes}

@[simp] theorem callback_messageQueue (i : ℕ) :
    (callback candidates maxAttemptTimes i).messageQueue = queueAt candidates i := rfl

@[simp] theorem callback_attemptTimes (i : ℕ) :
    (callback candidates maxAttemptTimes i).attemptTimes = i := rfl

@[simp] theorem callback_maxAttemptTimes (i : ℕ) :
    (callback candidates maxAttemptTimes i).maxAttemptTimes = maxAttemptTimes := rfl

@[simp] theorem callback_candidates (i : ℕ) :
    (callback candidates maxAttemptTimes i).candidates = candidates := rfl

theorem outcome_of_isEmpty (env : Attempts) {j : ℕ}
    (h : (queueAt candidates j).serviceAddress.isEmpty = true) :
    outcome env candidates j = some (.error .badGateway) := by
  rw [outcome, if_pos h]

theorem outcome_eq_none_iff {j : ℕ} :
    outcome env candidates j = none ↔ env.credentialsProvider = false ∧
      (queueAt candidates j).serviceAddress.isEmpty = false := by
  rw [outcome]
  split_ifs with haddress hprovider
  · simp [haddress]
  · simpa [haddress] using hprovider
  · simpa [haddress] using hprovider

theorem isEmpty_of_outcome {j : ℕ} {r : Except ErrorCode SendMessageResponse}
    (hprovider : env.credentialsProvider = false) (h : outcome env candidates j = some r) :
    (queueAt candidates j).serviceAddress.isEmpty = true := by
  by_contra haddress
  have hnone := outcome_eq_none_iff.mpr ⟨hprovider, Bool.eq_false_iff.mpr haddress⟩
  rw [hnone] at h
  cases h

theorem sendImplTrace_of_ok {i : ℕ} {response : SendMessageResponse}
    (h : outcome env candidates i = some (.ok response)) :
    sendImplTrace env (callback candidates maxAttemptTimes i) =
      ⟨⟨[.onSuccess
        { msgId := response.messageId
          transactionId := response.transactionId
          messageQueue := queueAt candidates i }], false⟩, [queueAt candidates i]⟩ := by
  rw [outcome] at h
  split_ifs at h with haddress hprovider
  · cases h
  · simp only [sendImplTrace, callback_messageQueue, callback_attemptTimes, if_neg haddress,
      if_neg hprovider, Option.some.inj h]

theorem sendImplTrace_of_error {i : ℕ} {ec : ErrorCode}
    (h : outcome env candidates i = some (.error ec)) :
    sendImplTrace env (callback candidates maxAttemptTimes i) =
      (onFailureTrace env (callback candidates maxAttemptTimes i) ec).issue
        (queueAt candidates i) := by
  rw [outcome] at h
  split_ifs at h with haddress hprovider
  · cases h
    rw [sendImplTrace, callback_messageQueue, if_pos haddress]
  · simp only [sendImplTrace, callback_messageQueue, callback_attemptTimes, if_neg haddress,
      if_neg hprovider, Option.some.inj h]

theorem sendImplTrace_of_none {i : ℕ} (h : outcome env candidates i = none) :
    sendImplTrace env (callback candidates maxAttemptTimes i) = ⟨⟨[], true⟩, []⟩ := by
  obtain ⟨hprovider, haddress⟩ := outcome_eq_none_iff.mp h
  rw [sendImplTrace, callback_messageQueue, if_neg (by simp [haddress]),
    if_pos (by simp [hprovider])]

theorem onFailureTrace_of_givesUp {i : ℕ} (h : GivesUp env maxAttemptTimes i) (ec : ErrorCode) :
    onFailureTrace env (callback candidates maxAttemptTimes i) ec =
      ⟨⟨[.onFailure ec], false⟩, []⟩ := by
  rw [onFailureTrace]
  rcases h with hmax | hdead
  · exact if_pos hmax
  · simp [hdead]

theorem onFailureTrace_of_not_givesUp (hne : candidates ≠ []) {i : ℕ}
    (h : ¬ GivesUp env maxAttemptTimes i) (ec : ErrorCode) :
    onFailureTrace env (callback candidates maxAttemptTimes i) ec =
      sendImplTrace env (callback candidates maxAttemptTimes (i + 1)) := by
  rw [GivesUp, not_or] at h
  have halive : env.producerAlive i = true := by simpa using h.2
  simp only [onFailureTrace, callback_maxAttemptTimes, callback_attemptTimes, callback_candidates,
    if_neg h.1, halive, Bool.not_true, Bool.false_eq_true, if_false, List.isEmpty_iff, hne]
  rfl

theorem GoesOn.refl (i : ℕ) : GoesOn env candidates maxAttemptTimes i i :=
  ⟨le_rfl, fun _ hij hji => absurd hij (not_le.mpr hji)⟩

theorem GoesOn.next {i k : ℕ} {ec : ErrorCode}
    (h : GoesOn env candidates maxAttemptTimes (i + 1) k)
    (herror : outcome env candidates i = some (.error ec))
    (hgo : ¬ GivesUp env maxAttemptTimes i) : GoesOn env candidates maxAttemptTimes i k := by
  have hle := h.le
  refine ⟨by omega, fun j hij hjk => ?_⟩
  by_cases heq : j = i
  · rw [heq]
    exact ⟨⟨ec, herror⟩, hgo⟩
  · exact h.before j (by omega) hjk

theorem RunsTo.next {i k : ℕ} {t : Trace} {ec : ErrorCode}
    (h : RunsTo env candidates maxAttemptTimes (i + 1) k t)
    (herror : outcome env candidates i = some (.error ec))
    (hgo : ¬ GivesUp env maxAttemptTimes i) :
    RunsTo env candidates maxAttemptTimes i k (t.issue (queueAt candidates i)) := by
  refine ⟨h.toGoesOn.next herror hgo, ?_, h.last⟩
  have hlen : k + 1 - i = (k + 1 - (i + 1)) + 1 := by
    have hle := h.le
    omega
  rw [hlen, List.range'_succ, List.map_cons, ← h.attempts]
  rfl

theorem CrashesAt.next {i k : ℕ} {t : Trace} {ec : ErrorCode}
    (h : CrashesAt env candidates maxAttemptTimes (i + 1) k t)
    (herror : outcome env candidates i = some (.error ec))
    (hgo : ¬ GivesUp env maxAttemptTimes i) :
    CrashesAt env candidates maxAttemptTimes i k (t.issue (queueAt candidates i)) := by
  refine ⟨h.toGoesOn.next herror hgo, ?_, h.last, h.reported⟩
  have hlen : k - i = (k - (i + 1)) + 1 := by
    have hle := h.le
    omega
  rw [hlen, List.range'_succ, List.map_cons, ← h.attempts]
  rfl

theorem sendImplTrace_runs (env : Attempts) (maxAttemptTimes : ℤ) (hne : candidates ≠ []) (i : ℕ) :
    ∃ k, RunsTo env candidates maxAttemptTimes i k
        (sendImplTrace env (callback candidates maxAttemptTimes i)) ∨
      CrashesAt env candidates maxAttemptTimes i k
        (sendImplTrace env (callback candidates maxAttemptTimes i)) := by
  induction hn : (maxAttemptTimes - i).toNat using Nat.strong_induction_on generalizing i with
  | _ n ih =>
    match hout : outcome env candidates i with
    | none =>
      rw [sendImplTrace_of_none hout]
      exact ⟨i, Or.inr ⟨.refl i, by simp, hout, rfl⟩⟩
    | some (.ok response) =>
      rw [sendImplTrace_of_ok hout]
      exact ⟨i, Or.inl ⟨.refl i, by simp, Or.inl ⟨response, hout, rfl⟩⟩⟩
    | some (.error ec) =>
      rw [sendImplTrace_of_error hout]
      by_cases hstop : GivesUp env maxAttemptTimes i
      · rw [onFailureTrace_of_givesUp hstop]
        exact ⟨i, Or.inl ⟨.refl i, by simp [Trace.issue], Or.inr ⟨ec, hout, hstop, rfl⟩⟩⟩
      · have hless : ¬ maxAttemptTimes ≤ i + 1 := fun hmax => hstop (Or.inl hmax)
        obtain ⟨k, hk⟩ := ih (maxAttemptTimes - (i + 1 : ℕ)).toNat (by omega) (i + 1) rfl
        rw [onFailureTrace_of_not_givesUp hne hstop]
        exact ⟨k, hk.imp (·.next hout hstop) (·.next hout hstop)⟩

theorem RunsTo.ends {i k : ℕ} {t : Trace} (h : RunsTo env candidates maxAttemptTimes i k t) :
    Ends env candidates maxAttemptTimes k := by
  rcases h.last with ⟨response, hok, -⟩ | ⟨-, -, hstop, -⟩
  · exact Or.inl ⟨response, hok⟩
  · exact Or.inr (Or.inr hstop)

theorem GoesOn.not_ends {i j k : ℕ} (h : GoesOn env candidates maxAttemptTimes i k) (hij : i ≤ j)
    (hjk : j < k) : ¬ Ends env candidates maxAttemptTimes j := by
  obtain ⟨⟨ec, herror⟩, hgo⟩ := h.before j hij hjk
  rintro (⟨response, hok⟩ | hnone | hstop)
  · rw [herror] at hok
    cases hok
  · rw [herror] at hnone
    cases hnone
  · exact hgo hstop

theorem GoesOn.eq_of_ends {k k' : ℕ} (h : GoesOn env candidates maxAttemptTimes 0 k')
    (hends' : Ends env candidates maxAttemptTimes k')
    (hends : Ends env candidates maxAttemptTimes k)
    (hbefore : ∀ j < k, ¬ Ends env candidates maxAttemptTimes j) : k' = k := by
  rcases Nat.lt_trichotomy k' k with hlt | heq | hgt
  · exact absurd hends' (hbefore k' hlt)
  · exact heq
  · exact absurd hends (h.not_ends (Nat.zero_le k) hgt)

theorem sendImplTrace_runsTo (hne : candidates ≠ []) {k : ℕ}
    (hends : Ends env candidates maxAttemptTimes k) (hdefined : outcome env candidates k ≠ none)
    (hbefore : ∀ j < k, ¬ Ends env candidates maxAttemptTimes j) :
    RunsTo env candidates maxAttemptTimes 0 k
      (sendImplTrace env (callback candidates maxAttemptTimes 0)) := by
  obtain ⟨k', hk | hk⟩ := sendImplTrace_runs env maxAttemptTimes hne 0
  · rw [← hk.eq_of_ends hk.ends hends hbefore]
    exact hk
  · rw [← hk.eq_of_ends (Or.inr (Or.inl hk.last)) hends hbefore] at hdefined
    exact absurd hk.last hdefined

theorem CrashesAt.addressReached {k : ℕ} {t : Trace}
    (h : CrashesAt env candidates maxAttemptTimes 0 k t) :
    env.credentialsProvider = false ∧ AddressReached env candidates maxAttemptTimes := by
  obtain ⟨hprovider, haddress⟩ := outcome_eq_none_iff.mp h.last
  refine ⟨hprovider, k, haddress, fun j hj => ?_⟩
  obtain ⟨⟨ec, herror⟩, hgo⟩ := h.before j (Nat.zero_le j) hj
  exact ⟨isEmpty_of_outcome hprovider herror, hgo⟩

theorem RunsTo.not_addressReached {k : ℕ} {t : Trace}
    (h : RunsTo env candidates maxAttemptTimes 0 k t)
    (hprovider : env.credentialsProvider = false) :
    ¬ AddressReached env candidates maxAttemptTimes := by
  rintro ⟨k', haddress, hbefore⟩
  have hcrash := outcome_eq_none_iff.mpr ⟨hprovider, haddress⟩
  rcases Nat.lt_trichotomy k k' with hlt | rfl | hgt
  · obtain ⟨hempty, hgo⟩ := hbefore k hlt
    rcases h.last with ⟨response, hok, -⟩ | ⟨-, -, hstop, -⟩
    · rw [outcome_of_isEmpty env hempty] at hok
      cases hok
    · exact hgo hstop
  · rcases h.last with ⟨_, hout, -⟩ | ⟨_, hout, -, -⟩
    · rw [hcrash] at hout
      cases hout
    · rw [hcrash] at hout
      cases hout
  · obtain ⟨⟨ec, herror⟩, -⟩ := h.before k' (Nat.zero_le k') hgt
    rw [hcrash] at herror
    cases herror

theorem sendImplTrace_ends (env : Attempts) (maxAttemptTimes : ℤ) (hne : candidates ≠ []) :
    (∃ k, RunsTo env candidates maxAttemptTimes 0 k
          (sendImplTrace env (callback candidates maxAttemptTimes 0)) ∧
        (env.credentialsProvider = true ∨ ¬ AddressReached env candidates maxAttemptTimes)) ∨
      ∃ k, CrashesAt env candidates maxAttemptTimes 0 k
          (sendImplTrace env (callback candidates maxAttemptTimes 0)) ∧
        env.credentialsProvider = false ∧ AddressReached env candidates maxAttemptTimes := by
  obtain ⟨k, hk | hk⟩ := sendImplTrace_runs env maxAttemptTimes hne 0
  · refine Or.inl ⟨k, hk, ?_⟩
    cases hprovider : env.credentialsProvider with
    | true => exact Or.inl rfl
    | false => exact Or.inr (hk.not_addressReached hprovider)
  · exact Or.inr ⟨k, hk, hk.addressReached⟩

end Discipline

def answering (credentialsProvider : Bool) : Attempts :=
  { completion := fun _ => { response := {} }, producerAlive := fun _ => true
    credentialsProvider := credentialsProvider }

namespace Producer
variable (p : Producer)

def send0Trace (env : Attempts) (m : MQMessage) (list : List MQMessageQueue) : Trace :=
  if !MixAll.validate m then ⟨⟨[.onFailure .badRequest], false⟩, []⟩
  else if list.isEmpty then ⟨⟨[.onFailure .notFound], false⟩, []⟩
  else if p.maxAttemptTimes ≤ 0 then ⟨⟨[.onFailure .badConfiguration], false⟩, []⟩
  else RetrySendCallback.sendImplTrace env
    { maxAttemptTimes := p.maxAttemptTimes, candidates := list }

theorem send0Trace_reported (env : Attempts) (m : MQMessage) (list : List MQMessageQueue) :
    (p.send0Trace env m list).toReported = p.send0 env m list := by
  rw [send0Trace, send0]
  split_ifs
  · rfl
  · rfl
  · rfl
  · exact RetrySendCallback.sendImplTrace_reported env _

structure Crashes (env : Attempts) (m : MQMessage) (list : List MQMessageQueue) : Prop where
  valid : MixAll.validate m = true
  listed : list ≠ []
  positive : 0 < p.maxAttemptTimes
  unset : env.credentialsProvider = false
  reached : AddressReached env list p.maxAttemptTimes

variable {p} {env : Attempts} {m : MQMessage} {candidates : List MQMessageQueue}

theorem send0Trace_of_valid (hne : candidates ≠ []) (hvalid : MixAll.validate m = true)
    (hmax : 0 < p.maxAttemptTimes) :
    p.send0Trace env m candidates =
      RetrySendCallback.sendImplTrace env (callback candidates p.maxAttemptTimes 0) := by
  rw [send0Trace, if_neg (by simp [hvalid]), if_neg (mt List.isEmpty_iff.mp hne),
    if_neg (not_le.mpr hmax)]
  rfl

theorem send0Trace_cases (env : Attempts) (m : MQMessage) (hne : candidates ≠ []) :
    (MixAll.validate m = false ∧
        p.send0Trace env m candidates = ⟨⟨[.onFailure .badRequest], false⟩, []⟩) ∨
      (MixAll.validate m = true ∧ p.maxAttemptTimes ≤ 0 ∧
        p.send0Trace env m candidates = ⟨⟨[.onFailure .badConfiguration], false⟩, []⟩) ∨
      (MixAll.validate m = true ∧ 0 < p.maxAttemptTimes ∧ ¬ p.Crashes env m candidates ∧
        ∃ k, RunsTo env candidates p.maxAttemptTimes 0 k (p.send0Trace env m candidates)) ∨
      (p.Crashes env m candidates ∧
        ∃ k, CrashesAt env candidates p.maxAttemptTimes 0 k (p.send0Trace env m candidates)) := by
  by_cases hvalid : MixAll.validate m = true
  · by_cases hmax : p.maxAttemptTimes ≤ 0
    · exact Or.inr (Or.inl ⟨hvalid, hmax, by simp [send0Trace, hvalid, hne, hmax]⟩)
    · rw [send0Trace_of_valid hne hvalid (not_le.mp hmax)]
      rcases sendImplTrace_ends env p.maxAttemptTimes hne with ⟨k, hk, hsafe⟩ |
        ⟨k, hk, hunset, hreached⟩
      · refine Or.inr (Or.inr (Or.inl ⟨hvalid, not_le.mp hmax, fun hcrash => ?_, k, hk⟩))
        rcases hsafe with hset | hnot
        · simp [hcrash.unset] at hset
        · exact hnot hcrash.reached
      · exact Or.inr (Or.inr (Or.inr ⟨⟨hvalid, hne, not_le.mp hmax, hunset, hreached⟩, k, hk⟩))
  · exact Or.inl ⟨Bool.eq_false_iff.mpr hvalid, by simp [send0Trace, hvalid]⟩

theorem send0_ends (p : Producer) (env : Attempts) (m : MQMessage) (list : List MQMessageQueue) :
    ¬ p.Crashes env m list ∧ (∃ call, p.send0 env m list = ⟨[call], false⟩) ∨
      p.Crashes env m list ∧ p.send0 env m list = ⟨[], true⟩ := by
  by_cases hne : list = []
  · refine Or.inl ⟨fun h => h.listed hne, ?_⟩
    cases hvalid : MixAll.validate m with
    | false => exact ⟨.onFailure .badRequest, by simp [send0, hvalid]⟩
    | true => exact ⟨.onFailure .notFound, by simp [send0, hvalid, hne]⟩
  rw [← send0Trace_reported]
  rcases p.send0Trace_cases env m hne with ⟨hvalid, ht⟩ | ⟨-, hmax, ht⟩ | ⟨-, -, hsafe, k, hk⟩ |
    ⟨hcrash, k, hk⟩
  · exact Or.inl ⟨fun h => by simp [h.valid] at hvalid, _, congrArg Trace.toReported ht⟩
  · exact Or.inl ⟨fun h => absurd h.positive (not_lt.mpr hmax), _, congrArg Trace.toReported ht⟩
  · refine Or.inl ⟨hsafe, ?_⟩
    rcases hk.last with ⟨_, -, hcall⟩ | ⟨_, -, -, hcall⟩
    · exact ⟨_, hcall⟩
    · exact ⟨_, hcall⟩
  · exact Or.inr ⟨hcrash, hk.reported⟩

end Producer
end RocketMQClient
