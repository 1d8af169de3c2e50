import RocketMQClient.BrokerEndpoint
import RocketMQClient.Producer
import RocketMQClient.RouteCache
import RocketMQClient.ServiceAddress

/-!
# What the RPC wrappers of the client manager answer

Each asynchronous operation of `ClientManagerImpl` sets a callback on its
invocation context, and the callback answers the caller. A wrapper is modelled
as the list of its answers; `none` is a failed assertion. `send` holds the
manager by a weak pointer and reads its state, so its argument is the state of a
manager that still exists.

The status code of a response is an integer of the wire, so it need not be one
of the named codes. `getRpcClient` always returns a client, and the branches for
a missing one are not modelled.
-/

namespace RocketMQClient

namespace Code

def toInt : Code → ℤ
  | .ok => 0
  | .cancelled => 1
  | .unknown => 2
  | .invalidArgument => 3
  | .deadlineExceeded => 4
  | .notFound => 5
  | .alreadyExists => 6
  | .permissionDenied => 7
  | .resourceExhausted => 8
  | .failedPrecondition => 9
  | .aborted => 10
  | .outOfRange => 11
  | .unimplemented => 12
  | .internal => 13
  | .unavailable => 14
  | .dataLoss => 15
  | .unauthenticated => 16

def all : List Code :=
  [.ok, .cancelled, .unknown, .invalidArgument, .deadlineExceeded, .notFound, .alreadyExists,
    .permissionDenied, .resourceExhausted, .failedPrecondition, .aborted, .outOfRange,
    .unimplemented, .internal, .unavailable, .dataLoss, .unauthenticated]

def ofInt (n : ℤ) : Option Code := all.find? fun c => c.toInt = n

theorem ofInt_toInt (c : Code) : ofInt c.toInt = some c := by
  cases c <;> rfl

theorem ofInt_eq_some_iff {n : ℤ} {c : Code} : ofInt n = some c ↔ n = c.toInt := by
  constructor
  · intro h
    have hfound := List.find?_some h
    exact (of_decide_eq_true hfound).symm
  · rintro rfl
    exact ofInt_toInt c

end Code

namespace RpcAnswers
open BrokerEndpoint (Decoder ReceiveMessageResponse SourcedResult)

structure InvocationContext (Response : Type) where
  remoteAddress : String := ""
  status : Code := .ok
  code : ℤ := 0
  response : Response

/-- `onCompletion`: whether the call is alive decides what is logged and caught. -/
def InvocationContext.onCompletion {Response Answers : Type} (c : InvocationContext Response)
    (ok : Bool) (callback : Option (InvocationContext Response → Answers)) : Option Answers :=
  if !ok then callback.map fun f => f c else callback.map fun f => f c

/-- The switch over the status code. All the tables treat a code that is not listed alike. -/
def errorCode (table : Code → ErrorCode) (code : ℤ) : Option ErrorCode :=
  match Code.ofInt code with
  | some .ok => none
  | some code => some (table code)
  | none => some .notImplemented

section Wrappers
variable {Response Value : Type}

def answer (transport : ErrorCode) (table : Code → ErrorCode)
    (value : InvocationContext Response → Value) (c : InvocationContext Response) :
    List (Option ErrorCode × Value) :=
  if c.status ≠ .ok then [(some transport, value c)] else [(errorCode table c.code, value c)]

def resolveRouteError : Code → ErrorCode
  | .unauthenticated => .unauthorized
  | .permissionDenied => .forbidden
  | .invalidArgument => .badRequest
  | .notFound => .notFound
  | .internal => .internalServerError
  | _ => .notImplemented

def healthCheckError : Code → ErrorCode
  | .unauthenticated => .unauthorized
  | .permissionDenied => .forbidden
  | .internal => .internalServerError
  | _ => .notImplemented

def ackError : Code → ErrorCode
  | .unauthenticated => .unauthorized
  | .permissionDenied => .forbidden
  | .invalidArgument => .badRequest
  | .internal => .internalServerError
  | _ => .notImplemented

def nackError : Code → ErrorCode
  | .unauthenticated => .unauthorized
  | .permissionDenied => .forbidden
  | .internal => .internalServerError
  | _ => .notImplemented

def endTransactionError : Code → ErrorCode
  | .unauthenticated => .unauthorized
  | .permissionDenied => .forbidden
  | .internal => .internalServerError
  | _ => .notImplemented

def routeOf (addresses : StdSort rmq.Address.less) (partitions : StdSort Partition.less)
    (c : InvocationContext (List rmq.Partition)) : Option (List Partition) :=
  if c.status = .ok ∧ c.code = Code.ok.toInt then
    some (partitions.sort (c.response.map fun p => .ofWire addresses p (p.broker.getD {})))
  else none

def resolveRoute (addresses : StdSort rmq.Address.less) (partitions : StdSort Partition.less) :
    InvocationContext (List rmq.Partition) →
      List (Option ErrorCode × Option (List Partition)) :=
  answer .requestTimeout resolveRouteError (routeOf addresses partitions)

def healthCheck :
    InvocationContext Unit → List (Option ErrorCode × InvocationContext Unit) :=
  answer .requestTimeout healthCheckError fun c => c

def queryAssignment :
    InvocationContext (List rmq.Partition) → List (Option ErrorCode × List rmq.Partition) :=
  answer .requestTimeout queryAssignmentError InvocationContext.response

def ack : InvocationContext Unit → List (Option ErrorCode × Unit) :=
  answer .requestTimeout ackError fun _ => ()

def nack : InvocationContext Unit → List (Option ErrorCode × Unit) :=
  answer .requestTimeout nackError fun _ => ()

def queryOffset : InvocationContext ℤ → List (Option ErrorCode × ℤ) :=
  answer .requestTimeout queryOffsetError InvocationContext.response

def endTransaction : InvocationContext Unit → List (Option ErrorCode × Unit) :=
  answer .badRequest endTransactionError InvocationContext.response

/-- The default of this switch only logs. -/
def heartbeat (c : InvocationContext Response) : List (Option ErrorCode × Response) :=
  if c.status ≠ .ok then [(some .requestTimeout, c.response)]
  else match Code.ofInt c.code with
    | some .ok => [(none, c.response)]
    | some .unauthenticated => [(some .unauthorized, c.response)]
    | some .permissionDenied => [(some .forbidden, c.response)]
    | some .invalidArgument => [(some .badRequest, c.response)]
    | some .internal => [(some .internalServerError, c.response)]
    | _ => []

def send (manager : Option LifeState) (c : InvocationContext SendMessageResponse) : List Call :=
  match manager with
  | none => []
  | some state =>
    if state ≠ .started then []
    else if c.status ≠ .ok then [.onFailure .requestTimeout]
    else match errorCode sendMessageError c.code with
      | none => [.onSuccess
          { msgId := c.response.messageId, transactionId := c.response.transactionId }]
      | some ec => [.onFailure ec]

def receiveMessage (dec : Decoder) (c : InvocationContext ReceiveMessageResponse) :
    Option (List (Except ErrorCode SourcedResult)) :=
  if c.status = .ok then
    match errorCode receiveMessageError c.code with
    | none =>
      (BrokerEndpoint.processPopResult dec .ok c.response c.remoteAddress).map fun r => [.ok r]
    | some ec => some [.error ec]
  else some [.error .requestTimeout]

def pullMessage (c : InvocationContext Response) : List (InvocationContext Response) := [c]

def forwardMessageToDeadLetterQueue (c : InvocationContext Response) :
    List (InvocationContext Response) :=
  if c.status ≠ .ok then [c] else [c]

end Wrappers

inductive Operation
  | resolveRoute
  | heartbeat
  | healthCheck
  | queryAssignment
  | send
  | receiveMessage
  | pullMessage
  | ack
  | nack
  | queryOffset
  | endTransaction
  | forwardMessageToDeadLetterQueue
  deriving DecidableEq, Repr

def Operation.Response : Operation → Type
  | .resolveRoute => List rmq.Partition
  | .queryAssignment => List rmq.Partition
  | .send => SendMessageResponse
  | .receiveMessage => ReceiveMessageResponse
  | .pullMessage => PullMessageResponse
  | .queryOffset => ℤ
  | .heartbeat => Unit
  | .healthCheck => Unit
  | .ack => Unit
  | .nack => Unit
  | .endTransaction => Unit
  | .forwardMessageToDeadLetterQueue => Unit

structure Config where
  decoder : Decoder
  addresses : StdSort rmq.Address.less
  partitions : StdSort Partition.less

/-- How often a completion calls the caller back; there is no number if an assertion fails. -/
def invocations (cfg : Config) (manager : Option LifeState) (ok : Bool) :
    (op : Operation) → InvocationContext op.Response → Option ℕ
  | .resolveRoute, c =>
    (c.onCompletion ok (some (resolveRoute cfg.addresses cfg.partitions))).map List.length
  | .heartbeat, c => (c.onCompletion ok (some heartbeat)).map List.length
  | .healthCheck, c => (c.onCompletion ok (some healthCheck)).map List.length
  | .queryAssignment, c => (c.onCompletion ok (some queryAssignment)).map List.length
  | .send, c => (c.onCompletion ok (some (send manager))).map List.length
  | .receiveMessage, c =>
    (c.onCompletion ok (some (receiveMessage cfg.decoder))).bind fun r => r.map List.length
  | .pullMessage, c => (c.onCompletion ok (some pullMessage)).map List.length
  | .ack, c => (c.onCompletion ok (some ack)).map List.length
  | .nack, c => (c.onCompletion ok (some nack)).map List.length
  | .queryOffset, c => (c.onCompletion ok (some queryOffset)).map List.length
  | .endTransaction, c => (c.onCompletion ok (some endTransaction)).map List.length
  | .forwardMessageToDeadLetterQueue, c =>
    (c.onCompletion ok (some forwardMessageToDeadLetterQueue)).map List.length

/-- The broker answered a heartbeat with a code that the client knows, the manager of a send is
still started, and the messages of a pop response are of the namespace of the client. -/
def Answerable (cfg : Config) (manager : Option LifeState) :
    (op : Operation) → InvocationContext op.Response → Prop
  | .heartbeat, c => c.status ≠ .ok ∨ c.code ∈ [0, 3, 7, 13, 16]
  | .send, _ => manager = some .started
  | .receiveMessage, c => c.status = .ok → c.code = 0 → ∀ item ∈ c.response.messages,
      item.topic.resourceNamespace = cfg.decoder.resourceNamespace
  | _, _ => True

theorem onCompletion_some {Response Answers : Type} (c : InvocationContext Response) (ok : Bool)
    (f : InvocationContext Response → Answers) : c.onCompletion ok (some f) = some (f c) := by
  simp [InvocationContext.onCompletion]

theorem count_eq_one_iff {Response Answer : Type} (c : InvocationContext Response) (ok : Bool)
    (f : InvocationContext Response → List Answer) :
    (c.onCompletion ok (some f)).map List.length = some 1 ↔ (f c).length = 1 := by
  rw [onCompletion_some, Option.map_some, Option.some.injEq]

theorem length_answer {Response Value : Type} (transport : ErrorCode) (table : Code → ErrorCode)
    (value : InvocationContext Response → Value) (c : InvocationContext Response) :
    (answer transport table value c).length = 1 := by
  rw [answer]
  split_ifs <;> rfl

theorem count_answer {Response Value : Type} (c : InvocationContext Response) (ok : Bool)
    (transport : ErrorCode) (table : Code → ErrorCode)
    (value : InvocationContext Response → Value) :
    (c.onCompletion ok (some (answer transport table value))).map List.length = some 1 :=
  (count_eq_one_iff c ok _).mpr (length_answer transport table value c)

theorem length_heartbeat_iff {Response : Type} (c : InvocationContext Response) :
    (heartbeat c).length = 1 ↔ c.status ≠ .ok ∨ c.code ∈ [0, 3, 7, 13, 16] := by
  rw [heartbeat]
  split_ifs with hstatus
  · exact iff_of_true rfl (Or.inl hstatus)
  · have hanswered : c.code ∈ [0, 3, 7, 13, 16] ↔
        ∃ code ∈ [Code.ok, .invalidArgument, .permissionDenied, .internal, .unauthenticated],
          Code.ofInt c.code = some code := by
      simp [Code.ofInt_eq_some_iff, Code.toInt]
    rw [hanswered, or_iff_right hstatus]
    split
    all_goals simp_all

theorem length_send_iff (manager : Option LifeState) (c : InvocationContext SendMessageResponse) :
    (send manager c).length = 1 ↔ manager = some .started := by
  cases manager with
  | none => simp [send]
  | some state =>
    rw [send]
    split_ifs with hstate hstatus
    · exact iff_of_false (by simp) (by simpa using hstate)
    · exact iff_of_true rfl (by simpa using hstate)
    · refine iff_of_true ?_ (by simpa using hstate)
      split <;> rfl

theorem processPopResult_isSome_iff (dec : Decoder) (response : ReceiveMessageResponse)
    (host : String) :
    (BrokerEndpoint.processPopResult dec .ok response host).isSome = true ↔
      ∀ item ∈ response.messages, item.topic.resourceNamespace = dec.resourceNamespace := by
  have hdecode : (BrokerEndpoint.processPopResult dec .ok response host).isSome =
      (decodeSkipping (dec.wrap host) response.messages).isSome := by
    simp [BrokerEndpoint.processPopResult, processPopResult, popStatus]
  rw [hdecode, BrokerEndpoint.decodeSkipping_isSome_iff]
  simp only [ne_eq, Decoder.wrap_aborted_iff, not_not]

theorem errorCode_eq_none_iff {table : Code → ErrorCode} {code : ℤ} :
    errorCode table code = none ↔ code = 0 := by
  rw [show (0 : ℤ) = Code.ok.toInt from rfl, ← Code.ofInt_eq_some_iff, errorCode]
  split
  · rename_i h
    simp [h]
  · rename_i code' hnot h
    refine iff_of_false (by simp) fun hok => ?_
    cases h.symm.trans hok
    exact hnot rfl
  · rename_i h
    simp [h]

theorem length_receiveMessage_iff (dec : Decoder) (c : InvocationContext ReceiveMessageResponse) :
    (receiveMessage dec c).map List.length = some 1 ↔
      (c.status = .ok → c.code = 0 → ∀ item ∈ c.response.messages,
        item.topic.resourceNamespace = dec.resourceNamespace) := by
  rw [receiveMessage]
  split_ifs with hstatus
  · split
    · rename_i hnone
      have hcode := errorCode_eq_none_iff.mp hnone
      have hpop := processPopResult_isSome_iff dec c.response c.remoteAddress
      simp only [hstatus, hcode, true_implies, ← hpop]
      cases BrokerEndpoint.processPopResult dec .ok c.response c.remoteAddress <;> simp
    · rename_i ec hsome
      refine iff_of_true rfl fun _ hcode => ?_
      rw [errorCode_eq_none_iff.mpr hcode] at hsome
      cases hsome
  · exact iff_of_true rfl fun hok => absurd hok hstatus

/-- A completion calls the caller back exactly once if it is not a heartbeat answered with a
code that the client does not know, nor a send whose manager is not started, nor a pop
response that fails the assertion on its namespace. -/
theorem answered_once_iff (cfg : Config) (manager : Option LifeState) (ok : Bool)
    (op : Operation) (c : InvocationContext op.Response) :
    invocations cfg manager ok op c = some 1 ↔ Answerable cfg manager op c := by
  cases op with
  | heartbeat => exact (count_eq_one_iff c ok heartbeat).trans (length_heartbeat_iff c)
  | send => exact (count_eq_one_iff c ok (send manager)).trans (length_send_iff manager c)
  | receiveMessage =>
    have hcount : invocations cfg manager ok .receiveMessage c =
        (receiveMessage cfg.decoder c).map List.length := by
      cases ok <;> rfl
    rw [hcount]
    exact length_receiveMessage_iff cfg.decoder c
  | resolveRoute => exact iff_of_true (count_answer c ok _ _ _) trivial
  | healthCheck => exact iff_of_true (count_answer c ok _ _ _) trivial
  | queryAssignment => exact iff_of_true (count_answer c ok _ _ _) trivial
  | ack => exact iff_of_true (count_answer c ok _ _ _) trivial
  | nack => exact iff_of_true (count_answer c ok _ _ _) trivial
  | queryOffset => exact iff_of_true (count_answer c ok _ _ _) trivial
  | endTransaction => exact iff_of_true (count_answer c ok _ _ _) trivial
  | pullMessage => exact iff_of_true ((count_eq_one_iff c ok pullMessage).mpr rfl) trivial
  | forwardMessageToDeadLetterQueue =>
    refine iff_of_true ((count_eq_one_iff c ok forwardMessageToDeadLetterQueue).mpr ?_) trivial
    rw [forwardMessageToDeadLetterQueue]
    split_ifs <;> rfl

def plainConfig : Config :=
  { decoder := BrokerEndpoint.plainDecoder
    addresses := rmq.Address.insertionSort
    partitions := Partition.insertionSort }

theorem unanswered_completions :
    invocations plainConfig (some .started) true .heartbeat { code := 14, response := () } =
      some 0 ∧
    invocations plainConfig (some .stopping) true .send { response := {} } = some 0 := by
  decide

end RpcAnswers
end RocketMQClient
