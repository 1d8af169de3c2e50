import RocketMQClient.QueueSelection

/-!
# The error code that a caller passes to a synchronous send

`send(message, ec)` reads the code it is given: `ensureRunning` sets it if the producer is
not running and leaves it alone otherwise, and the test that follows takes an old error of
the caller for the answer. Here the send is a function of that code, and its outcome is
what the caller and the servers see of it: the RPCs, the result and the code left behind.

A code is clear if its value is zero, whatever its category. A lookup of the publish info may
ask a name server or be answered from the cache, and without a name server its callback is
never called. An attempt against a queue without an address makes no RPC. A failure that the
waiter of `AwaitSendCallback` overtakes leaves the code as it was, like a success.
-/

namespace RocketMQClient

inductive ErrorCategory
  | system
  | rocketmq
  | other (name : String)
  deriving DecidableEq

structure StdErrorCode where
  category : ErrorCategory := .system
  value : ℤ := 0
  deriving DecidableEq

def StdErrorCode.isSet (ec : StdErrorCode) : Bool := ec.value ≠ 0

def ErrorCode.value : ErrorCode → ℤ
  | .illegalState => 1
  | .badConfiguration => 300
  | .badRequest => 400
  | .unauthorized => 401
  | .forbidden => 403
  | .notFound => 404
  | .requestTimeout => 408
  | .preconditionRequired => 428
  | .internalServerError => 500
  | .notImplemented => 501
  | .badGateway => 502
  | .serviceUnavailable => 503
  | .gatewayTimeout => 504

def makeErrorCode (e : ErrorCode) : StdErrorCode := { category := .rocketmq, value := e.value }

theorem makeErrorCode_isSet (e : ErrorCode) : (makeErrorCode e).isSet = true := by
  cases e <;> rfl

inductive Rpc
  | resolveRoute
  | sendMessage (messageQueue : MQMessageQueue)
  deriving DecidableEq

structure Looked where
  result : Option Lookup
  asked : Bool

def Looked.rpcs (l : Looked) : List Rpc := if l.asked then [.resolveRoute] else []

theorem Looked.rpcs_eq_nil_iff (l : Looked) : l.rpcs = [] ↔ l.asked = false := by
  unfold Looked.rpcs
  cases l.asked <;> simp

/-- A send that waits for a callback for ever, or ends the process, does not return. -/
structure Sent where
  rpcs : List Rpc
  returned : Option (SendResult × StdErrorCode)
  deriving DecidableEq

def SendEnd.returns (ec : StdErrorCode) : SendEnd → Option (SendResult × StdErrorCode)
  | .returned (.ok result) => some (result, ec)
  | .returned (.error e) => some ({}, makeErrorCode e)
  | .crashed => none

def Sent.Answers (s : Sent) (r : SendEnd) : Prop :=
  ∃ ec, ec.isSet = false ∧ s.returned = r.returns ec

def attemptRpcs (attempts : List MQMessageQueue) : List Rpc :=
  (attempts.filter fun q => !q.serviceAddress.isEmpty).map .sendMessage

theorem attemptRpcs_eq_nil_iff {attempts : List MQMessageQueue} :
    attemptRpcs attempts = [] ↔ ∀ q ∈ attempts, q.serviceAddress.isEmpty = true := by
  simp [attemptRpcs, List.filter_eq_nil_iff]

theorem asynchronous_eq_false_iff {t : Trace} :
    t.asynchronous = false ↔ attemptRpcs t.attempts = [] := by
  simp [Trace.asynchronous, attemptRpcs, List.filter_eq_nil_iff]

namespace Producer
variable (p : Producer)

def ensureRunning (ec : StdErrorCode) : StdErrorCode :=
  if !p.running then makeErrorCode .illegalState else ec

def sendAndAwait (env : Awaited) (m : MQMessage) (rpcs : List Rpc) (ec : StdErrorCode)
    (candidates : List MQMessageQueue) : Sent :=
  if candidates.isEmpty then ⟨rpcs, some ({}, makeErrorCode .serviceUnavailable)⟩
  else
    ⟨rpcs ++ attemptRpcs (p.send0Trace env.toAttempts m candidates).attempts,
      (p.awaitSend env m candidates).returns ec⟩

def sendWith (counter : UInt32) (m : MQMessage) (published listed : Looked) (env : Awaited)
    (ec : StdErrorCode) : Sent :=
  let ec := p.ensureRunning ec
  if ec.isSet then ⟨[], some ({}, ec)⟩
  else match published.result with
    | none => ⟨published.rpcs, none⟩
    | some (.error _) => ⟨published.rpcs, some ({}, makeErrorCode .notFound)⟩
    | some (.ok info) =>
      if isBound m then
        -- `listMessageQueue` assigns the code of the lookup, which is clear if it succeeds
        match listed.result with
        | none => ⟨published.rpcs ++ listed.rpcs, none⟩
        | some (.error e) => ⟨published.rpcs ++ listed.rpcs, some ({}, makeErrorCode e)⟩
        | some (.ok info') =>
          let list := info'.getMessageQueueList p.std
          if list.isEmpty then
            ⟨published.rpcs ++ listed.rpcs, some ({}, makeErrorCode .serviceUnavailable)⟩
          else
            p.sendAndAwait env m (published.rpcs ++ listed.rpcs) {} (p.boundQueue m list).toList
      else p.sendAndAwait env m published.rpcs ec (p.roundRobin info counter)

/-- The ways in which `send0` reports an error without an RPC: the last is that no queue it
tries before it gives up has an address. -/
inductive Unsent (env : Attempts) (m : MQMessage) (candidates : List MQMessageQueue) :
    ErrorCode → Prop
  | invalid (hvalid : MixAll.validate m = false) : Unsent env m candidates .badRequest
  | badConfiguration (hvalid : MixAll.validate m = true) (hmax : p.maxAttemptTimes ≤ 0) :
      Unsent env m candidates .badConfiguration
  | unresolved (hvalid : MixAll.validate m = true) (hmax : 0 < p.maxAttemptTimes) (k : ℕ)
      (hlast : GivesUp env p.maxAttemptTimes k)
      (hbefore : ∀ j < k, ¬ GivesUp env p.maxAttemptTimes j)
      (haddress : ∀ j ≤ k, (queueAt candidates j).serviceAddress.isEmpty = true) :
      Unsent env m candidates .badGateway

def Delivers (env : Attempts) (m : MQMessage) (candidates : List MQMessageQueue) : Prop :=
  MixAll.validate m = true ∧ 0 < p.maxAttemptTimes ∧
    ∃ k response, outcome env candidates k = some (.ok response) ∧
      ∀ j < k, ¬ Ends env candidates p.maxAttemptTimes j

def FailsRemotely (env : Attempts) (m : MQMessage) (candidates : List MQMessageQueue) : Prop :=
  MixAll.validate m = true ∧ 0 < p.maxAttemptTimes ∧
    ∃ k ec, outcome env candidates k = some (.error ec) ∧ GivesUp env p.maxAttemptTimes k ∧
      (∀ j < k, ¬ Ends env candidates p.maxAttemptTimes j) ∧
      ∃ j ≤ k, (queueAt candidates j).serviceAddress.isEmpty = false

/-- The message is delivered, or the waiter overtakes the report of the failure. -/
def LeavesCode (env : Awaited) (m : MQMessage) (candidates : List MQMessageQueue) : Prop :=
  p.Delivers env.toAttempts m candidates ∨
    env.wakesEarly = true ∧ p.FailsRemotely env.toAttempts m candidates

section Attempts
variable {p} {env : Attempts} {m : MQMessage} {candidates : List MQMessageQueue}

theorem ends_of_isEmpty_iff {j : ℕ} (h : (queueAt candidates j).serviceAddress.isEmpty = true) :
    Ends env candidates p.maxAttemptTimes j ↔ GivesUp env p.maxAttemptTimes j := by
  simp [Ends, outcome_of_isEmpty env h]

theorem runsTo_silent_iff {k : ℕ} {t : Trace}
    (h : RunsTo env candidates p.maxAttemptTimes 0 k t) :
    attemptRpcs t.attempts = [] ↔
      ∀ j ≤ k, (queueAt candidates j).serviceAddress.isEmpty = true := by
  rw [attemptRpcs_eq_nil_iff, h.attempts, List.forall_mem_map]
  constructor
  · intro hall j hj
    exact hall j (List.mem_range'_1.mpr ⟨Nat.zero_le j, by omega⟩)
  · intro hall j hj
    have hbound := (List.mem_range'_1.mp hj).2
    exact hall j (by omega)

theorem runsTo_asynchronous_iff {k : ℕ} {t : Trace}
    (h : RunsTo env candidates p.maxAttemptTimes 0 k t) :
    t.asynchronous = true ↔ ∃ j ≤ k, (queueAt candidates j).serviceAddress.isEmpty = false := by
  rw [← Bool.not_eq_false, asynchronous_eq_false_iff, runsTo_silent_iff h]
  simp

theorem runsTo_last {k : ℕ} {t : Trace} (h : RunsTo env candidates p.maxAttemptTimes 0 k t)
    (haddress : (queueAt candidates k).serviceAddress.isEmpty = true) :
    GivesUp env p.maxAttemptTimes k ∧ t.toReported = ⟨[.onFailure .badGateway], false⟩ := by
  have hout := outcome_of_isEmpty env haddress
  rcases h.last with ⟨response, hok, -⟩ | ⟨ec, herror, hstop, hcalls⟩
  · rw [hout] at hok
    cases hok
  · rw [hout] at herror
    cases herror
    exact ⟨hstop, hcalls⟩

theorem unsent_of_call (hne : candidates ≠ []) {ec : ErrorCode}
    (hcall : (p.send0Trace env m candidates).toReported = ⟨[.onFailure ec], false⟩)
    (hquiet : attemptRpcs (p.send0Trace env m candidates).attempts = []) :
    p.Unsent env m candidates ec := by
  rcases p.send0Trace_cases env m hne with ⟨hvalid, ht⟩ | ⟨hvalid, hmax, ht⟩ |
    ⟨hvalid, hmax, -, k, hk⟩ | ⟨-, k, hk⟩
  · rw [ht] at hcall
    cases hcall
    exact .invalid hvalid
  · rw [ht] at hcall
    cases hcall
    exact .badConfiguration hvalid hmax
  · have haddress := (runsTo_silent_iff hk).mp hquiet
    obtain ⟨hlast, hcalls⟩ := runsTo_last hk (haddress k le_rfl)
    cases hcalls.symm.trans hcall
    exact .unresolved hvalid hmax k hlast (fun j hj => (hk.before j (Nat.zero_le j) hj).2) haddress
  · cases hk.reported.symm.trans hcall

theorem Unsent.call (hne : candidates ≠ []) {ec : ErrorCode} (h : p.Unsent env m candidates ec) :
    (p.send0Trace env m candidates).toReported = ⟨[.onFailure ec], false⟩ ∧
      attemptRpcs (p.send0Trace env m candidates).attempts = [] := by
  cases h with
  | invalid hvalid => simp [send0Trace, hvalid, attemptRpcs]
  | badConfiguration hvalid hmax => simp [send0Trace, hvalid, hne, hmax, attemptRpcs]
  | unresolved hvalid hmax k hlast hbefore haddress =>
    rw [send0Trace_of_valid hne hvalid hmax]
    have hk := sendImplTrace_runsTo hne ((ends_of_isEmpty_iff (haddress k le_rfl)).mpr hlast)
      (by simp [outcome_of_isEmpty env (haddress k le_rfl)])
      (fun j hj hends => hbefore j hj ((ends_of_isEmpty_iff (haddress j hj.le)).mp hends))
    exact ⟨(runsTo_last hk (haddress k le_rfl)).2, (runsTo_silent_iff hk).mpr haddress⟩

theorem onSuccess_iff_delivers (hne : candidates ≠ []) :
    (∃ result, (p.send0Trace env m candidates).toReported = ⟨[.onSuccess result], false⟩) ↔
      p.Delivers env m candidates := by
  constructor
  · rintro ⟨result, hcall⟩
    rcases p.send0Trace_cases env m hne with ⟨-, ht⟩ | ⟨-, -, ht⟩ | ⟨hvalid, hmax, -, k, hk⟩ |
      ⟨-, k, hk⟩
    · simp [ht] at hcall
    · simp [ht] at hcall
    · rcases hk.last with ⟨response, hok, -⟩ | ⟨ec, -, -, hcalls⟩
      · exact ⟨hvalid, hmax, k, response, hok, fun j => hk.not_ends (Nat.zero_le j)⟩
      · cases hcalls.symm.trans hcall
    · cases hk.reported.symm.trans hcall
  · rintro ⟨hvalid, hmax, k, response, hok, hbefore⟩
    rw [send0Trace_of_valid hne hvalid hmax]
    have hk := sendImplTrace_runsTo hne (Or.inl ⟨response, hok⟩) (by simp [hok]) hbefore
    rcases hk.last with ⟨_, -, hcalls⟩ | ⟨ec, herror, -, -⟩
    · exact ⟨_, hcalls⟩
    · rw [hok] at herror
      cases herror

theorem onFailure_iff_failsRemotely (hne : candidates ≠ []) :
    (∃ ec, (p.send0Trace env m candidates).toReported = ⟨[.onFailure ec], false⟩ ∧
        (p.send0Trace env m candidates).asynchronous = true) ↔
      p.FailsRemotely env m candidates := by
  constructor
  · rintro ⟨ec, hcall, hremote⟩
    rcases p.send0Trace_cases env m hne with ⟨-, ht⟩ | ⟨-, -, ht⟩ | ⟨hvalid, hmax, -, k, hk⟩ |
      ⟨-, k, hk⟩
    · simp [ht, Trace.asynchronous] at hremote
    · simp [ht, Trace.asynchronous] at hremote
    · rcases hk.last with ⟨_, -, hcalls⟩ | ⟨ec', herror, hstop, -⟩
      · cases hcalls.symm.trans hcall
      · exact ⟨hvalid, hmax, k, ec', herror, hstop, fun j => hk.not_ends (Nat.zero_le j),
          (runsTo_asynchronous_iff hk).mp hremote⟩
    · cases hk.reported.symm.trans hcall
  · rintro ⟨hvalid, hmax, k, ec, herror, hstop, hbefore, haddress⟩
    rw [send0Trace_of_valid hne hvalid hmax]
    have hk := sendImplTrace_runsTo hne (Or.inr (Or.inr hstop)) (by simp [herror]) hbefore
    rcases hk.last with ⟨response, hok, -⟩ | ⟨ec', -, -, hcalls⟩
    · rw [hok] at herror
      cases herror
    · exact ⟨ec', hcalls, (runsTo_asynchronous_iff hk).mpr haddress⟩

theorem result_ne_of_onSuccess (hne : candidates ≠ []) {result : SendResult}
    (hcall : (p.send0Trace env m candidates).toReported = ⟨[.onSuccess result], false⟩) :
    result ≠ {} := by
  rcases p.send0Trace_cases env m hne with ⟨-, ht⟩ | ⟨-, -, ht⟩ | ⟨-, -, -, k, hk⟩ | ⟨-, k, hk⟩
  · simp [ht] at hcall
  · simp [ht] at hcall
  · rcases hk.last with ⟨response, hok, hcalls⟩ | ⟨ec, -, -, hcalls⟩
    · cases hcalls.symm.trans hcall
      intro hdefault
      have hqueue : queueAt candidates k = {} := congrArg SendResult.messageQueue hdefault
      rw [outcome_of_isEmpty env (by rw [hqueue]; rfl)] at hok
      cases hok
    · cases hcalls.symm.trans hcall
  · cases hk.reported.symm.trans hcall

end Attempts

section Await
variable {p} {env : Awaited} {m : MQMessage} {candidates : List MQMessageQueue}

theorem awaitSend_of_call {call : Call}
    (hcall : (p.send0Trace env.toAttempts m candidates).toReported = ⟨[call], false⟩) :
    p.awaitSend env m candidates = .returned (call.read
      (env.wakesEarly && (p.send0Trace env.toAttempts m candidates).asynchronous)) := by
  rw [awaitSend, hcall]

theorem awaitSend_of_crash
    (hcrash : (p.send0Trace env.toAttempts m candidates).toReported = ⟨[], true⟩) :
    p.awaitSend env m candidates = .crashed := by
  rw [awaitSend, hcrash]

theorem send0Trace_ends (p : Producer) (env : Attempts) (m : MQMessage)
    (candidates : List MQMessageQueue) :
    (∃ call, (p.send0Trace env m candidates).toReported = ⟨[call], false⟩) ∨
      (p.send0Trace env m candidates).toReported = ⟨[], true⟩ := by
  rw [send0Trace_reported]
  exact (p.send0_ends env m candidates).imp And.right And.right

theorem awaitSend_ok_iff (hne : candidates ≠ []) :
    (∃ result, p.awaitSend env m candidates = .returned (.ok result)) ↔
      p.LeavesCode env m candidates := by
  rw [LeavesCode, ← onSuccess_iff_delivers hne, ← onFailure_iff_failsRemotely hne]
  rcases p.send0Trace_ends env.toAttempts m candidates with ⟨call, hcall⟩ | hcrash
  · rw [awaitSend_of_call hcall, hcall]
    cases call with
    | onSuccess result => simp [Call.read]
    | onFailure ec =>
      cases henv : env.wakesEarly <;>
        cases hremote : (p.send0Trace env.toAttempts m candidates).asynchronous <;> simp [Call.read]
  · rw [awaitSend_of_crash hcrash, hcrash]
    simp

theorem sendAndAwait_of_ne (hne : candidates ≠ []) (rpcs : List Rpc) (ec : StdErrorCode) :
    p.sendAndAwait env m rpcs ec candidates =
      ⟨rpcs ++ attemptRpcs (p.send0Trace env.toAttempts m candidates).attempts,
        (p.awaitSend env m candidates).returns ec⟩ := by
  rw [sendAndAwait, if_neg (mt List.isEmpty_iff.mp hne)]

theorem sendAndAwait_unsent_iff (hne : candidates ≠ []) (rpcs : List Rpc) (ec e : StdErrorCode) :
    p.sendAndAwait env m rpcs ec candidates = ⟨[], some ({}, e)⟩ ↔
      rpcs = [] ∧ ∃ e', e = makeErrorCode e' ∧ p.Unsent env.toAttempts m candidates e' := by
  rw [sendAndAwait_of_ne hne, Sent.mk.injEq, List.append_eq_nil_iff]
  constructor
  · rintro ⟨⟨hrpcs, hquiet⟩, hreturns⟩
    rcases p.send0Trace_ends env.toAttempts m candidates with ⟨call, hcall⟩ | hcrash
    · rw [awaitSend_of_call hcall, asynchronous_eq_false_iff.mpr hquiet, Bool.and_false] at hreturns
      cases call with
      | onSuccess result =>
        cases hreturns
        exact absurd rfl (result_ne_of_onSuccess hne hcall)
      | onFailure e' =>
        cases hreturns
        exact ⟨hrpcs, e', rfl, unsent_of_call hne hcall hquiet⟩
    · rw [awaitSend_of_crash hcrash] at hreturns
      cases hreturns
  · rintro ⟨hrpcs, e', rfl, hunsent⟩
    obtain ⟨hcall, hquiet⟩ := hunsent.call hne
    rw [awaitSend_of_call hcall, asynchronous_eq_false_iff.mpr hquiet, Bool.and_false]
    exact ⟨⟨hrpcs, hquiet⟩, rfl⟩

theorem sendAndAwait_eq_iff (hne : candidates ≠ []) (rpcs : List Rpc) (ec₁ ec₂ : StdErrorCode) :
    p.sendAndAwait env m rpcs ec₁ candidates = p.sendAndAwait env m rpcs ec₂ candidates ↔
      ec₁ = ec₂ ∨ ¬ p.LeavesCode env m candidates := by
  rw [sendAndAwait_of_ne hne, sendAndAwait_of_ne hne, ← awaitSend_ok_iff hne]
  match p.awaitSend env m candidates with
  | .returned (.ok result) => simp [SendEnd.returns]
  | .returned (.error e) => simp [SendEnd.returns]
  | .crashed => simp [SendEnd.returns]

end Await

inductive Candidates (counter : UInt32) (m : MQMessage) (published listed : Looked) :
    List MQMessageQueue → Prop
  | bound {info info' : TopicPublishInfo} (hbound : isBound m = true)
      (hpublished : published.result = some (.ok info))
      (hlisted : listed.result = some (.ok info')) :
      Candidates counter m published listed
        (p.boundQueue m (info'.getMessageQueueList p.std)).toList
  | roundRobin {info : TopicPublishInfo} (hbound : isBound m = false)
      (hpublished : published.result = some (.ok info)) :
      Candidates counter m published listed (p.roundRobin info counter)

inductive Unanswered (m : MQMessage) (published listed : Looked) : Prop
  | published (hpublished : published.result = none)
  | listed {info : TopicPublishInfo} (hpublished : published.result = some (.ok info))
      (hbound : isBound m = true) (hlisted : listed.result = none)

structure Answered (m : MQMessage) (published listed : Looked) (publish list : Lookup) : Prop where
  published : published.result = some publish
  listed : ∀ info, publish = .ok info → isBound m = true → listed.result = some list

def Silent (m : MQMessage) (published listed : Looked) : Prop :=
  published.asked = false ∧
    ∀ info, published.result = some (.ok info) → isBound m = true → listed.asked = false

inductive Refused (counter : UInt32) (m : MQMessage) (published listed : Looked)
    (env : Awaited) : ErrorCode → Prop
  | unpublished {e : ErrorCode} (hpublished : published.result = some (.error e)) :
      Refused counter m published listed env .notFound
  | unlisted {info : TopicPublishInfo} {e : ErrorCode} (hbound : isBound m = true)
      (hpublished : published.result = some (.ok info))
      (hlisted : listed.result = some (.error e)) : Refused counter m published listed env e
  | noQueue (hnone : p.Candidates counter m published listed []) :
      Refused counter m published listed env .serviceUnavailable
  | unsent {candidates : List MQMessageQueue} {e : ErrorCode}
      (hsome : p.Candidates counter m published listed candidates) (hne : candidates ≠ [])
      (hunsent : p.Unsent env.toAttempts m candidates e) : Refused counter m published listed env e

inductive LeavesUnbound (counter : UInt32) (m : MQMessage) (published listed : Looked)
    (env : Awaited) : Prop
  | intro {candidates : List MQMessageQueue} (hbound : isBound m = false)
      (hsome : p.Candidates counter m published listed candidates) (hne : candidates ≠ [])
      (hleaves : p.LeavesCode env m candidates) : LeavesUnbound counter m published listed env

section Lookups
variable {p} {counter : UInt32} {m : MQMessage} {published listed : Looked} {env : Awaited}

theorem lookups_cases (p : Producer) (counter : UInt32) (m : MQMessage)
    (published listed : Looked) :
    Unanswered m published listed ∨ (∃ e, published.result = some (.error e)) ∨
      (∃ info e, published.result = some (.ok info) ∧ isBound m = true ∧
        listed.result = some (.error e)) ∨
      ∃ candidates, p.Candidates counter m published listed candidates := by
  rcases hp : published.result with - | e | info
  · exact Or.inl (.published hp)
  · exact Or.inr (Or.inl ⟨e, rfl⟩)
  · cases hbound : isBound m with
    | false => exact Or.inr (Or.inr (Or.inr ⟨_, .roundRobin hbound hp⟩))
    | true =>
      rcases hl : listed.result with - | e | info'
      · exact Or.inl (.listed hp hbound hl)
      · exact Or.inr (Or.inr (Or.inl ⟨info, e, rfl, rfl, rfl⟩))
      · exact Or.inr (Or.inr (Or.inr ⟨_, .bound hbound hp hl⟩))

theorem unanswered_or_answered (m : MQMessage) (published listed : Looked) :
    Unanswered m published listed ∨
      ∃ publish list, Answered m published listed publish list := by
  rcases hp : published.result with - | e | info
  · exact Or.inl (.published hp)
  · exact Or.inr ⟨.error e, .error e, hp, by simp⟩
  · cases hl : listed.result with
    | some list => exact Or.inr ⟨.ok info, list, hp, fun _ _ _ => hl⟩
    | none =>
      cases hbound : isBound m with
      | false => exact Or.inr ⟨.ok info, .ok info, hp, by simp [hbound]⟩
      | true => exact Or.inl (.listed hp hbound hl)

theorem Answered.publish_eq {publish list publish' : Lookup}
    (h : Answered m published listed publish list) (hp : published.result = some publish') :
    publish = publish' := Option.some.inj (h.published.symm.trans hp)

theorem Answered.list_eq {publish list list' : Lookup} {info : TopicPublishInfo}
    (h : Answered m published listed publish list) (hbound : isBound m = true)
    (hok : publish = .ok info) (hl : listed.result = some list') : list = list' :=
  Option.some.inj ((h.listed info hok hbound).symm.trans hl)

theorem Answered.not_unanswered {publish list : Lookup}
    (h : Answered m published listed publish list) : ¬ Unanswered m published listed := by
  intro hnone
  cases hnone with
  | published hp => simp [h.published] at hp
  | listed hp hbound hl => simp [h.listed _ (h.publish_eq hp) hbound] at hl

theorem Candidates.looked_up {candidates : List MQMessageQueue}
    (h : p.Candidates counter m published listed candidates) :
    ∃ info, published.result = some (.ok info) ∧
      (isBound m = true → ∃ info', listed.result = some (.ok info')) := by
  cases h with
  | bound hbound hp hl => exact ⟨_, hp, fun _ => ⟨_, hl⟩⟩
  | roundRobin hbound hp => exact ⟨_, hp, fun h => by simp [hbound] at h⟩

theorem Candidates.unique {c c' : List MQMessageQueue}
    (h : p.Candidates counter m published listed c)
    (h' : p.Candidates counter m published listed c') : c = c' := by
  cases h with
  | bound hbound hp hl =>
    cases h' with
    | bound hbound' hp' hl' =>
      rw [hl, Option.some.injEq, Except.ok.injEq] at hl'
      rw [hl']
    | roundRobin hbound' hp' => simp [hbound] at hbound'
  | roundRobin hbound hp =>
    cases h' with
    | bound hbound' hp' hl' => simp [hbound] at hbound'
    | roundRobin hbound' hp' =>
      rw [hp, Option.some.injEq, Except.ok.injEq] at hp'
      rw [hp']

theorem no_candidates_of_unanswered (h : Unanswered m published listed)
    (c : List MQMessageQueue) : ¬ p.Candidates counter m published listed c := by
  intro hc
  obtain ⟨info, hok, hlisted⟩ := hc.looked_up
  cases h with
  | published hp => simp [hp] at hok
  | listed hp hbound hl =>
    obtain ⟨info', hok'⟩ := hlisted hbound
    simp [hl] at hok'

theorem no_candidates_of_unpublished {e : ErrorCode} (hp : published.result = some (.error e))
    (c : List MQMessageQueue) : ¬ p.Candidates counter m published listed c := by
  intro hc
  obtain ⟨info, hok, -⟩ := hc.looked_up
  simp [hp] at hok

theorem no_candidates_of_unlisted (hbound : isBound m = true) {e : ErrorCode}
    (hl : listed.result = some (.error e)) (c : List MQMessageQueue) :
    ¬ p.Candidates counter m published listed c := by
  intro hc
  obtain ⟨-, -, hlisted⟩ := hc.looked_up
  obtain ⟨info', hok⟩ := hlisted hbound
  simp [hl] at hok

theorem not_leavesUnbound (h : ∀ c, ¬ p.Candidates counter m published listed c) :
    ¬ p.LeavesUnbound counter m published listed env := by
  rintro ⟨-, hc, -, -⟩
  exact h _ hc

theorem not_refused_of_unanswered (h : Unanswered m published listed) (e : ErrorCode) :
    ¬ p.Refused counter m published listed env e := by
  intro hrefused
  cases hrefused with
  | unpublished hp =>
    cases h with
    | published hnone => simp [hp] at hnone
    | listed hok hbound hl => simp [hp] at hok
  | unlisted hbound hp hl =>
    cases h with
    | published hnone => simp [hp] at hnone
    | listed hok hbound' hnone => simp [hl] at hnone
  | noQueue hc => exact no_candidates_of_unanswered h _ hc
  | unsent hc _ _ => exact no_candidates_of_unanswered h _ hc

theorem refused_of_unpublished_iff {e : ErrorCode} (hp : published.result = some (.error e))
    (e' : ErrorCode) : p.Refused counter m published listed env e' ↔ e' = .notFound := by
  constructor
  · intro h
    cases h with
    | unpublished _ => rfl
    | unlisted _ hok _ => simp [hp] at hok
    | noQueue hc => exact absurd hc (no_candidates_of_unpublished hp _)
    | unsent hc _ _ => exact absurd hc (no_candidates_of_unpublished hp _)
  · rintro rfl
    exact .unpublished hp

theorem refused_of_unlisted_iff (hbound : isBound m = true) {info : TopicPublishInfo}
    (hp : published.result = some (.ok info)) {e : ErrorCode}
    (hl : listed.result = some (.error e)) (e' : ErrorCode) :
    p.Refused counter m published listed env e' ↔ e' = e := by
  constructor
  · intro h
    cases h with
    | unpublished herror => simp [hp] at herror
    | unlisted _ _ hl' =>
      rw [hl, Option.some.injEq, Except.error.injEq] at hl'
      exact hl'.symm
    | noQueue hc => exact absurd hc (no_candidates_of_unlisted hbound hl _)
    | unsent hc _ _ => exact absurd hc (no_candidates_of_unlisted hbound hl _)
  · rintro rfl
    exact .unlisted hbound hp hl

theorem refused_of_candidates_iff {c : List MQMessageQueue}
    (hc : p.Candidates counter m published listed c) (e : ErrorCode) :
    p.Refused counter m published listed env e ↔
      c = [] ∧ e = .serviceUnavailable ∨ c ≠ [] ∧ p.Unsent env.toAttempts m c e := by
  obtain ⟨info, hp, hlisted⟩ := hc.looked_up
  constructor
  · intro h
    cases h with
    | unpublished herror => simp [hp] at herror
    | unlisted hbound _ hl =>
      obtain ⟨info', hok⟩ := hlisted hbound
      simp [hl] at hok
    | noQueue hc' => exact Or.inl ⟨hc.unique hc', rfl⟩
    | unsent hc' hne hunsent =>
      rw [hc'.unique hc] at hne hunsent
      exact Or.inr ⟨hne, hunsent⟩
  · rintro (⟨rfl, rfl⟩ | ⟨hne, hunsent⟩)
    · exact .noQueue hc
    · exact .unsent hc hne hunsent

theorem leavesUnbound_of_candidates_iff {c : List MQMessageQueue}
    (hc : p.Candidates counter m published listed c) :
    p.LeavesUnbound counter m published listed env ↔
      isBound m = false ∧ c ≠ [] ∧ p.LeavesCode env m c := by
  constructor
  · rintro ⟨hbound, hc', hne, hleaves⟩
    rw [hc'.unique hc] at hne hleaves
    exact ⟨hbound, hne, hleaves⟩
  · rintro ⟨hbound, hne, hleaves⟩
    exact .intro hbound hc hne hleaves

theorem syncCandidates_of_candidates (hrun : p.running = true) {c : List MQMessageQueue}
    (hc : p.Candidates counter m published listed c) {publish list : Lookup}
    (h : Answered m published listed publish list) :
    p.syncCandidates counter m publish list =
      if c.isEmpty then .error .serviceUnavailable else .ok c := by
  cases hc with
  | bound hbound hp hl =>
    rename_i info info'
    obtain rfl := h.publish_eq hp
    obtain rfl := h.list_eq hbound rfl hl
    by_cases hempty : info'.getMessageQueueList p.std = []
    · simp [syncCandidates, hrun, hbound, hempty, boundQueue_nil]
    · cases hq : p.boundQueue m (info'.getMessageQueueList p.std) with
      | none => simp [syncCandidates, hrun, hbound, hempty, hq]
      | some q => simp [syncCandidates, hrun, hbound, hempty, hq]
  | roundRobin hbound hp =>
    obtain rfl := h.publish_eq hp
    simp [syncCandidates, hrun, hbound]

end Lookups

section Send
variable {p} {counter : UInt32} {m : MQMessage} {published listed : Looked} {env : Awaited}
  {ec : StdErrorCode}

theorem sendWith_set (hrun : p.running = true) (hec : ec.isSet = true) :
    p.sendWith counter m published listed env ec = ⟨[], some ({}, ec)⟩ := by
  simp [sendWith, ensureRunning, hrun, hec]

theorem sendWith_unanswered (p : Producer) (counter : UInt32) (env : Awaited)
    (hrun : p.running = true) (h : Unanswered m published listed) :
    ∃ rpcs, ∀ ec, ec.isSet = false →
      p.sendWith counter m published listed env ec = ⟨rpcs, none⟩ := by
  cases h with
  | published hp =>
    exact ⟨published.rpcs, fun ec hec => by simp [sendWith, ensureRunning, hrun, hec, hp]⟩
  | listed hp hbound hl =>
    exact ⟨published.rpcs ++ listed.rpcs, fun ec hec => by
      simp [sendWith, ensureRunning, hrun, hec, hp, hbound, hl]⟩

theorem sendWith_unpublished (hrun : p.running = true) (hec : ec.isSet = false) {e : ErrorCode}
    (hp : published.result = some (.error e)) :
    p.sendWith counter m published listed env ec =
      ⟨published.rpcs, some ({}, makeErrorCode .notFound)⟩ := by
  simp [sendWith, ensureRunning, hrun, hec, hp]

theorem sendWith_unlisted (hrun : p.running = true) (hec : ec.isSet = false)
    (hbound : isBound m = true) {info : TopicPublishInfo}
    (hp : published.result = some (.ok info)) {e : ErrorCode}
    (hl : listed.result = some (.error e)) :
    p.sendWith counter m published listed env ec =
      ⟨published.rpcs ++ listed.rpcs, some ({}, makeErrorCode e)⟩ := by
  simp [sendWith, ensureRunning, hrun, hec, hp, hbound, hl]

theorem sendWith_candidates (hrun : p.running = true) (hec : ec.isSet = false)
    {candidates : List MQMessageQueue} (hc : p.Candidates counter m published listed candidates) :
    p.sendWith counter m published listed env ec =
      p.sendAndAwait env m
        (if isBound m then published.rpcs ++ listed.rpcs else published.rpcs)
        (if isBound m then {} else ec) candidates := by
  cases hc with
  | bound hbound hp hl =>
    rename_i info info'
    by_cases hempty : info'.getMessageQueueList p.std = []
    · simp [sendWith, ensureRunning, hrun, hec, hp, hbound, hl, hempty, boundQueue_nil,
        sendAndAwait]
    · simp [sendWith, ensureRunning, hrun, hec, hp, hbound, hl, hempty]
  | roundRobin hbound hp => simp [sendWith, ensureRunning, hrun, hec, hp, hbound]

theorem sendWith_refused_iff (hrun : p.running = true) (hec : ec.isSet = false)
    (e : StdErrorCode) :
    p.sendWith counter m published listed env ec = ⟨[], some ({}, e)⟩ ↔
      Silent m published listed ∧
        ∃ e', e = makeErrorCode e' ∧ p.Refused counter m published listed env e' := by
  rcases p.lookups_cases counter m published listed with h | ⟨e', hp⟩ |
    ⟨info, e', hp, hbound, hl⟩ | ⟨c, hc⟩
  · obtain ⟨rpcs, hsent⟩ := p.sendWith_unanswered counter env hrun h
    rw [hsent ec hec]
    apply iff_of_false
    · simp
    · rintro ⟨-, e', -, hrefused⟩
      exact not_refused_of_unanswered h e' hrefused
  · rw [sendWith_unpublished hrun hec hp, Sent.mk.injEq, Looked.rpcs_eq_nil_iff]
    simp [Silent, hp, refused_of_unpublished_iff hp, eq_comm (b := e)]
  · rw [sendWith_unlisted hrun hec hbound hp hl, Sent.mk.injEq, List.append_eq_nil_iff,
      Looked.rpcs_eq_nil_iff, Looked.rpcs_eq_nil_iff]
    simp [Silent, hp, hbound, refused_of_unlisted_iff hbound hp hl, eq_comm (b := e)]
  · obtain ⟨info, hp, -⟩ := hc.looked_up
    have hsilent : (if isBound m then published.rpcs ++ listed.rpcs else published.rpcs) = [] ↔
        Silent m published listed := by
      cases hbound : isBound m with
      | false => simp [Silent, hbound, Looked.rpcs_eq_nil_iff]
      | true => simp [Silent, hbound, hp, Looked.rpcs_eq_nil_iff]
    rw [sendWith_candidates hrun hec hc]
    simp only [refused_of_candidates_iff hc, ← hsilent]
    by_cases hne : c = []
    · simp [hne, sendAndAwait, eq_comm (b := e)]
    · rw [sendAndAwait_unsent_iff hne]
      simp [hne]

theorem sendWith_clear_eq_iff (hrun : p.running = true) {ec₁ ec₂ : StdErrorCode}
    (h₁ : ec₁.isSet = false) (h₂ : ec₂.isSet = false) :
    p.sendWith counter m published listed env ec₁ =
        p.sendWith counter m published listed env ec₂ ↔
      ec₁ = ec₂ ∨ ¬ p.LeavesUnbound counter m published listed env := by
  rcases p.lookups_cases counter m published listed with h | ⟨e, hp⟩ |
    ⟨info, e, hp, hbound, hl⟩ | ⟨c, hc⟩
  · obtain ⟨rpcs, hsent⟩ := p.sendWith_unanswered counter env hrun h
    rw [hsent ec₁ h₁, hsent ec₂ h₂]
    exact iff_of_true rfl (Or.inr (not_leavesUnbound (no_candidates_of_unanswered h)))
  · rw [sendWith_unpublished hrun h₁ hp, sendWith_unpublished hrun h₂ hp]
    exact iff_of_true rfl (Or.inr (not_leavesUnbound (no_candidates_of_unpublished hp)))
  · rw [sendWith_unlisted hrun h₁ hbound hp hl, sendWith_unlisted hrun h₂ hbound hp hl]
    exact iff_of_true rfl (Or.inr (not_leavesUnbound (no_candidates_of_unlisted hbound hl)))
  · rw [sendWith_candidates hrun h₁ hc, sendWith_candidates hrun h₂ hc,
      leavesUnbound_of_candidates_iff hc]
    by_cases hne : c = []
    · simp [hne, sendAndAwait]
    · rw [sendAndAwait_eq_iff hne]
      cases hbound : isBound m with
      | true => simp
      | false => simp [hne]

theorem sendWith_answers (p : Producer) (counter : UInt32) (env : Awaited)
    (hrun : p.running = true) (hec : ec.isSet = false) {publish list : Lookup}
    (h : Answered m published listed publish list) :
    ∃ r, p.sendSync counter m publish list env = some r ∧
      (p.sendWith counter m published listed env ec).Answers r := by
  simp only [sendSync, selectSync_eq, Option.map_some]
  refine ⟨_, rfl, if isBound m then {} else ec, ?_, ?_⟩
  · split_ifs
    · rfl
    · exact hec
  rcases p.lookups_cases counter m published listed with hnone | ⟨e, hp⟩ |
    ⟨info, e, hp, hbound, hl⟩ | ⟨c, hc⟩
  · exact absurd hnone h.not_unanswered
  · obtain rfl := h.publish_eq hp
    rw [sendWith_unpublished hrun hec hp]
    simp [syncCandidates, hrun, SendEnd.returns]
  · obtain rfl := h.publish_eq hp
    obtain rfl := h.list_eq hbound rfl hl
    rw [sendWith_unlisted hrun hec hbound hp hl]
    simp [syncCandidates, hrun, hbound, SendEnd.returns]
  · rw [sendWith_candidates hrun hec hc, syncCandidates_of_candidates hrun hc h]
    by_cases hne : c = []
    · simp [hne, sendAndAwait, SendEnd.returns]
    · rw [sendAndAwait_of_ne hne, if_neg (mt List.isEmpty_iff.mp hne)]

theorem sendWith_success_clear (hrun : p.running = true) {result : SendResult}
    {ec' : StdErrorCode} (hne : result ≠ {})
    (h : (p.sendWith counter m published listed env ec).returned = some (result, ec')) :
    ec'.isSet = false := by
  cases hec : ec.isSet with
  | true =>
    rw [sendWith_set hrun hec, Option.some.injEq, Prod.mk.injEq] at h
    exact absurd h.1.symm hne
  | false =>
    rcases unanswered_or_answered m published listed with hnone | ⟨publish, list, hanswered⟩
    · obtain ⟨rpcs, hsent⟩ := p.sendWith_unanswered counter env hrun hnone
      rw [hsent ec hec] at h
      cases h
    · obtain ⟨r, -, left, hclear, hreturned⟩ :=
        p.sendWith_answers counter env hrun hec hanswered
      rw [hreturned] at h
      match r with
      | .returned (.ok result') =>
        cases h
        exact hclear
      | .returned (.error e) =>
        cases h
        exact absurd rfl hne
      | .crashed => cases h

end Send

def ClearsCode (s : Sent) : Prop :=
  ∀ result ec, s.returned = some (result, ec) → result ≠ {} → ec.isSet = false

/-- The two runs from the codes `ec₁` and `ec₂` are the same for the caller and the servers,
and a success clears the code. -/
def Independent (counter : UInt32) (m : MQMessage) (published listed : Looked) (env : Awaited)
    (ec₁ ec₂ : StdErrorCode) : Prop :=
  p.sendWith counter m published listed env ec₁ = p.sendWith counter m published listed env ec₂ ∧
    ClearsCode (p.sendWith counter m published listed env ec₁) ∧
    ClearsCode (p.sendWith counter m published listed env ec₂)

/-- The code `ec` is what the send itself would report, before it makes any RPC. -/
def Foretells (counter : UInt32) (m : MQMessage) (published listed : Looked) (env : Awaited)
    (ec : StdErrorCode) : Prop :=
  Silent m published listed ∧
    ∃ e, ec = makeErrorCode e ∧ p.Refused counter m published listed env e

/-- A running producer sends independently of the caller's old code only from equal codes,
from two clear codes unless the one given is left behind, or from a clear code and the one
that the send would report anyway. -/
theorem sendWith_independent_iff (hrun : p.running = true) (counter : UInt32) (m : MQMessage)
    (published listed : Looked) (env : Awaited) (ec₁ ec₂ : StdErrorCode) :
    p.Independent counter m published listed env ec₁ ec₂ ↔
      ec₁ = ec₂ ∨
      (ec₁.isSet = false ∧ ec₂.isSet = false ∧
        ¬ p.LeavesUnbound counter m published listed env) ∨
      (ec₁.isSet = false ∧ p.Foretells counter m published listed env ec₂) ∨
      (ec₂.isSet = false ∧ p.Foretells counter m published listed env ec₁) := by
  have hclears : ∀ ec, ClearsCode (p.sendWith counter m published listed env ec) :=
    fun ec result ec' h hne => sendWith_success_clear hrun hne h
  have hforetold : ∀ ec, p.Foretells counter m published listed env ec → ec.isSet = true := by
    rintro ec ⟨-, e, rfl, -⟩
    exact makeErrorCode_isSet e
  rw [Independent, and_iff_left ⟨hclears ec₁, hclears ec₂⟩]
  cases h₁ : ec₁.isSet with
  | false =>
    have hnot₁ : ¬ p.Foretells counter m published listed env ec₁ := fun h => by
      simp [hforetold ec₁ h] at h₁
    cases h₂ : ec₂.isSet with
    | false =>
      have hnot₂ : ¬ p.Foretells counter m published listed env ec₂ := fun h => by
        simp [hforetold ec₂ h] at h₂
      rw [sendWith_clear_eq_iff hrun h₁ h₂]
      simp [hnot₁, hnot₂]
    | true =>
      have hne : ec₁ ≠ ec₂ := by
        rintro rfl
        simp [h₁] at h₂
      rw [sendWith_set hrun h₂, sendWith_refused_iff hrun h₁, ← Foretells]
      simp [hne]
  | true =>
    cases h₂ : ec₂.isSet with
    | false =>
      have hne : ec₁ ≠ ec₂ := by
        rintro rfl
        simp [h₁] at h₂
      rw [sendWith_set hrun h₁, eq_comm, sendWith_refused_iff hrun h₂, ← Foretells]
      simp [hne]
    | true =>
      rw [sendWith_set hrun h₁, sendWith_set hrun h₂]
      simp

theorem no_queue_foretold :
    ({ hash := fun _ => 0 } : Producer).Independent 0 {} ⟨some (.ok { topic := "T" }), false⟩
      ⟨some (.ok { topic := "T" }), false⟩ { answering true with } {}
      (makeErrorCode .serviceUnavailable) :=
  (sendWith_independent_iff _ rfl _ _ _ _ _ _ _).mpr
    (Or.inr (Or.inr (Or.inl ⟨rfl, ⟨rfl, fun _ _ _ => rfl⟩, .serviceUnavailable, rfl,
      .noQueue (@Candidates.roundRobin _ 0 {} _ _ { topic := "T" } rfl rfl)⟩)))

theorem old_code_refuses_send :
    let p : Producer := { hash := fun _ => 0 }
    let m : MQMessage := { impl := { topic := { name := "topic" }, body := [1] } }
    let queue : Partition := { topic := "topic", brokerName := "b", serviceAddress := "a" }
    let looked : Looked := ⟨some (.ok { topic := "topic", partitionList := [queue] }), false⟩
    let env : Awaited :=
      { completion := fun _ => { response := { messageId := "1" } }, producerAlive := fun _ => true
        credentialsProvider := true }
    p.sendWith 0 m looked looked env (makeErrorCode .requestTimeout) =
        ⟨[], some ({}, makeErrorCode .requestTimeout)⟩ ∧
      p.sendWith 0 m looked looked env {} =
        ⟨[.sendMessage queue.asMessageQueue],
          some ({ msgId := "1", messageQueue := queue.asMessageQueue }, {})⟩ := by
  intro p m queue looked env
  have htake : p.roundRobin { topic := "topic", partitionList := [queue] } 0 =
      [queue.asMessageQueue] := by decide
  have hcandidates : p.Candidates 0 m looked looked [queue.asMessageQueue] :=
    htake ▸ .roundRobin rfl rfl
  have hok : outcome env.toAttempts [queue.asMessageQueue] 0 =
      some (.ok { messageId := "1" }) := rfl
  have hsent : p.send0Trace env.toAttempts m [queue.asMessageQueue] = _ :=
    (send0Trace_of_valid (List.cons_ne_nil _ _) (by decide) (by decide)).trans
      (sendImplTrace_of_ok hok)
  constructor
  · exact sendWith_set rfl rfl
  · rw [sendWith_candidates rfl rfl hcandidates, sendAndAwait_of_ne (List.cons_ne_nil _ _),
      awaitSend_of_call (congrArg Trace.toReported hsent), hsent]
    rfl

end Producer
end RocketMQClient
