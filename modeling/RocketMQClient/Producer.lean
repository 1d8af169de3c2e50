import RocketMQClient.PublishInfo
import RocketMQClient.Rpc

/-!
# Sending a message

The synchronous and the asynchronous `send` choose candidate queues, hand them to
`send0` and report through a `SendCallback`. The lambda of the asynchronous one
holds a copy of the message, and a copy has neither message group nor queue.

The answers of the environment are inputs: how the lookups of the publish info
end, how the RPC of each attempt completes while the client manager is started,
and whether the producer is alive when an attempt has failed. `std::hash` is a
parameter. A choice of queues that is undefined is `none`.

Each attempt asks the credentials provider of the producer for the access key of
its span, without testing the pointer, which is null unless one was set. Such an
attempt ends the process, and the callback gets no further call.
-/

namespace RocketMQClient

structure SendMessageResponse where
  messageId : String := ""
  transactionId : String := ""
  deriving DecidableEq, Repr

structure SendResult where
  msgId : String := ""
  transactionId : String := ""
  messageQueue : MQMessageQueue := {}
  deriving DecidableEq, Repr

def sendMessageError : Code → ErrorCode
  | .invalidArgument => .badRequest
  | .unauthenticated => .unauthorized
  | .permissionDenied => .forbidden
  | .internal => .internalServerError
  | _ => .notImplemented

inductive Call
  | onSuccess (result : SendResult)
  | onFailure (ec : ErrorCode)
  deriving DecidableEq, Repr

structure Reported where
  calls : List Call
  crashed : Bool := false
  deriving DecidableEq, Repr

def Reported.after (before : List Call) (r : Reported) : Reported :=
  { r with calls := before ++ r.calls }

@[simp] theorem Reported.after_nil (r : Reported) : r.after [] = r := rfl

structure Attempts where
  completion : ℕ → Completion SendMessageResponse
  producerAlive : ℕ → Bool
  credentialsProvider : Bool

structure RetrySendCallback where
  maxAttemptTimes : ℤ
  candidates : List MQMessageQueue
  attemptTimes : ℕ := 0

namespace RetrySendCallback

def messageQueue (r : RetrySendCallback) : MQMessageQueue :=
  r.candidates.getD (r.attemptTimes % r.candidates.length) {}

def remaining (r : RetrySendCallback) : ℕ := (r.maxAttemptTimes - r.attemptTimes).toNat

mutual

def sendImpl (env : Attempts) (r : RetrySendCallback) : Reported :=
  if r.messageQueue.serviceAddress.isEmpty then onFailure env r .badGateway
  -- `credentialsProvider()->getCredentials()`, after the request is made and before it is sent
  else if !env.credentialsProvider then ⟨[], true⟩
  else match (env.completion r.attemptTimes).result sendMessageError with
    | .ok response => ⟨[.onSuccess
        { msgId := response.messageId
          transactionId := response.transactionId
          messageQueue := r.messageQueue }], false⟩
    | .error ec => onFailure env r ec
termination_by (r.remaining, 1)

def onFailure (env : Attempts) (r : RetrySendCallback) (ec : ErrorCode) : Reported :=
  if r.maxAttemptTimes ≤ r.attemptTimes + 1 then ⟨[.onFailure ec], false⟩
  else if !env.producerAlive r.attemptTimes then ⟨[.onFailure ec], false⟩
  else if r.candidates.isEmpty then ⟨[.onFailure ec], false⟩
  else sendImpl env { r with attemptTimes := r.attemptTimes + 1 }
termination_by (r.remaining, 0)
decreasing_by
  simp only [remaining]
  left
  omega

end

end RetrySendCallback

structure Producer where
  running : Bool := true
  maxAttemptTimes : ℤ := 3
  isolatedEndpoints : List String := []
  hash : String → UInt64
  std : StdSort MQMessageQueue.less := MQMessageQueue.insertionSort

abbrev Lookup := Except ErrorCode TopicPublishInfo

namespace Producer
variable (p : Producer)

def send0 (env : Attempts) (m : MQMessage) (list : List MQMessageQueue) : Reported :=
  if !MixAll.validate m then ⟨[.onFailure .badRequest], false⟩
  else if list.isEmpty then ⟨[.onFailure .notFound], false⟩
  else if p.maxAttemptTimes ≤ 0 then ⟨[.onFailure .badConfiguration], false⟩
  else RetrySendCallback.sendImpl env
    { maxAttemptTimes := p.maxAttemptTimes, candidates := list }

def isBound (m : MQMessage) : Bool := !m.messageGroup.isEmpty || m.messageQueue.valid

def boundQueue (m : MQMessage) (list : List MQMessageQueue) : Option MQMessageQueue :=
  if !m.messageGroup.isEmpty then list[(p.hash m.messageGroup).toNat % list.length]?
  else list.find? fun entry => entry.same m.messageQueue

def roundRobin (info : TopicPublishInfo) (counter : UInt32) : List MQMessageQueue :=
  (info.takeMessageQueues p.isolatedEndpoints p.maxAttemptTimes counter).2

/-- The candidates that `send(message, ec)` hands to `send0`, from the lookups of
`getPublishInfo` and of `listMessageQueue`. -/
def syncCandidates (counter : UInt32) (m : MQMessage) (published listed : Lookup) :
    Except ErrorCode (List MQMessageQueue) :=
  if !p.running then .error .illegalState
  else match published with
    | .error _ => .error .notFound
    | .ok info =>
      if isBound m then
        match listed with
        | .error ec => .error ec
        | .ok info' =>
          let list := info'.getMessageQueueList p.std
          if list.isEmpty then .error .serviceUnavailable
          else match p.boundQueue m list with
            | some q => .ok [q]
            | none => .error .serviceUnavailable
      else
        let candidates := p.roundRobin info counter
        if candidates.isEmpty then .error .serviceUnavailable else .ok candidates

/-- The candidates that the lambda of `send(message, cb)` hands to `send0`. The
group of a message is reduced modulo the length of a list not tested for emptiness. -/
def asyncCandidates (counter : UInt32) (m : MQMessage) (published : Lookup) :
    Option (Except ErrorCode (List MQMessageQueue)) :=
  match published with
  | .error ec => some (.error ec)
  | .ok info =>
    if isBound m then
      let list := info.getMessageQueueList p.std
      if !m.messageGroup.isEmpty && list.isEmpty then none
      else match p.boundQueue m list with
        | some q => some (.ok [q])
        | none => some (.error .serviceUnavailable)
    else
      let candidates := p.roundRobin info counter
      some (if candidates.isEmpty then .error .serviceUnavailable else .ok candidates)

/-- `ProducerImpl::send(message, cb)`. A producer that is not running reports that,
and goes on. -/
def send (counter : UInt32) (m : MQMessage) (published : Lookup) (env : Attempts) :
    Option Reported :=
  let before : List Call := if p.running then [] else [.onFailure .illegalState]
  (p.asyncCandidates counter m.copy published).map fun r =>
    Reported.after before <| match r with
      | .error ec => ⟨[.onFailure ec], false⟩
      | .ok candidates => p.send0 env m.copy candidates

def sendSelected (counter : UInt32) (m : MQMessage)
    (select : List MQMessageQueue → MQMessage → Option MQMessageQueue)
    (listed published : Lookup) (env : Attempts) : Option Reported :=
  let failed := match listed with
    | .error ec => [.onFailure ec]
    | .ok _ => []
  let list := match listed with
    | .error _ => []
    | .ok info => info.getMessageQueueList p.std
  let unavailable := if list.isEmpty then [.onFailure .serviceUnavailable] else []
  (select list m).bind fun q =>
    (p.send counter (m.bindMessageQueue q) published env).map
      (Reported.after (failed ++ unavailable))

theorem isBound_copy (m : MQMessage) : isBound m.copy = false := rfl

theorem asyncCandidates_copy (counter : UInt32) (m : MQMessage) (published : Lookup) :
    p.asyncCandidates counter m.copy published =
      some (match published with
        | .error ec => .error ec
        | .ok info =>
          if (p.roundRobin info counter).isEmpty then .error .serviceUnavailable
          else .ok (p.roundRobin info counter)) := by
  cases published with
  | error ec => rfl
  | ok info =>
    simp only [asyncCandidates, isBound_copy]
    rfl

def RotationAgrees (counter : UInt32) (m : MQMessage) (info : TopicPublishInfo) : Prop :=
  match p.boundQueue m (info.getMessageQueueList p.std) with
  | none => info.available p.isolatedEndpoints counter = []
  | some q => (info.available p.isolatedEndpoints counter).head? = some q ∧
      ((p.maxAttemptTimes % 2 ^ 32).toNat ≤ 1 ∨
        ∀ x ∈ info.available p.isolatedEndpoints counter, x.brokerName = q.brokerName)

theorem boundQueue_nil (m : MQMessage) : p.boundQueue m [] = none := by
  rw [boundQueue]
  split_ifs <;> simp

theorem syncCandidates_bound {m : MQMessage} (hrun : p.running = true) (hm : isBound m = true)
    (counter : UInt32) (info : TopicPublishInfo) :
    (p.syncCandidates counter m (.ok info) (.ok info)).toOption =
      (p.boundQueue m (info.getMessageQueueList p.std)).map fun q => [q] := by
  simp only [syncCandidates, hrun, hm, Bool.not_true, Bool.false_eq_true, if_false, if_true]
  split_ifs with hempty
  · rw [List.isEmpty_iff.mp hempty, boundQueue_nil]
    rfl
  · cases p.boundQueue m (info.getMessageQueueList p.std) <;> rfl

theorem asyncCandidates_handed (counter : UInt32) (m : MQMessage) (info : TopicPublishInfo) :
    (p.asyncCandidates counter m.copy (.ok info)).bind Except.toOption =
      if p.roundRobin info counter = [] then none else some (p.roundRobin info counter) := by
  rw [asyncCandidates_copy]
  by_cases h : p.roundRobin info counter = [] <;> simp [h, Except.toOption]

theorem roundRobin_eq_nil_iff {info : TopicPublishInfo} {counter : UInt32} :
    p.roundRobin info counter = [] ↔ info.available p.isolatedEndpoints counter = [] :=
  TopicPublishInfo.takeMessageQueues_eq_nil_iff

theorem roundRobin_eq_singleton_iff {info : TopicPublishInfo} {counter : UInt32}
    {q : MQMessageQueue} :
    p.roundRobin info counter = [q] ↔
      (info.available p.isolatedEndpoints counter).head? = some q ∧
        ((p.maxAttemptTimes % 2 ^ 32).toNat ≤ 1 ∨
          ∀ x ∈ info.available p.isolatedEndpoints counter, x.brokerName = q.brokerName) :=
  TopicPublishInfo.takeMessageQueues_eq_singleton_iff

/-- The two ways to send hand the same candidates to `send0` exactly if the message
has neither group nor queue, or round robin agrees with it by chance. -/
theorem sameCandidates_iff (hrun : p.running = true) (counter : UInt32) (m : MQMessage)
    (info : TopicPublishInfo) :
    (p.syncCandidates counter m (.ok info) (.ok info)).toOption =
        (p.asyncCandidates counter m.copy (.ok info)).bind Except.toOption ↔
      (isBound m = true → p.RotationAgrees counter m info) := by
  rw [asyncCandidates_handed]
  cases hm : isBound m with
  | false =>
    refine iff_of_true ?_ (by simp)
    simp only [syncCandidates, hrun, hm, Bool.not_true, Bool.false_eq_true, if_false]
    by_cases h : p.roundRobin info counter = [] <;> simp [h, Except.toOption]
  | true =>
    rw [p.syncCandidates_bound hrun hm, forall_prop_of_true rfl, RotationAgrees]
    cases p.boundQueue m (info.getMessageQueueList p.std) with
    | none =>
      simp only [Option.map_none]
      rw [← p.roundRobin_eq_nil_iff]
      by_cases h : p.roundRobin info counter = [] <;> simp [h]
    | some q =>
      simp only [Option.map_some]
      rw [← p.roundRobin_eq_singleton_iff]
      by_cases h : p.roundRobin info counter = []
      · simp [h]
      · rw [if_neg h, Option.some.injEq]
        exact eq_comm

def twoBrokers : TopicPublishInfo :=
  { topic := "abc"
    partitionList :=
      [{ topic := "abc", brokerName := "a", serviceAddress := "a:10911" },
        { topic := "abc", brokerName := "b", serviceAddress := "b:10911" }] }

theorem sameCandidates_ungrouped :
    (syncCandidates { hash := fun _ => 0 } 0 {} (.ok twoBrokers) (.ok twoBrokers)).toOption =
      (asyncCandidates { hash := fun _ => 0 } 0 (MQMessage.copy {}) (.ok twoBrokers)).bind
        Except.toOption :=
  (sameCandidates_iff { hash := fun _ => 0 } rfl 0 {} twoBrokers).mpr fun h => by cases h

theorem group_forgotten :
    (syncCandidates { hash := fun _ => 0 } 0 { messageGroup := "g" } (.ok twoBrokers)
        (.ok twoBrokers)).toOption =
      some [{ topic := "abc", brokerName := "a", serviceAddress := "a:10911" }] ∧
    (asyncCandidates { hash := fun _ => 0 } 0 (MQMessage.copy { messageGroup := "g" })
        (.ok twoBrokers)).bind Except.toOption =
      some [{ topic := "abc", brokerName := "b", serviceAddress := "b:10911" },
        { topic := "abc", brokerName := "a", serviceAddress := "a:10911" }] ∧
    (syncCandidates { hash := fun _ => 0 } 0 { messageGroup := "g" } (.ok twoBrokers)
        (.ok twoBrokers)).toOption ≠
      (asyncCandidates { hash := fun _ => 0 } 0 (MQMessage.copy { messageGroup := "g" })
        (.ok twoBrokers)).bind Except.toOption := by
  decide

end Producer
end RocketMQClient
