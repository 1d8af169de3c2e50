import RocketMQClient.Rpc
import RocketMQClient.ProcessQueue

/-!
# Results of receiving messages

A pull or pop response becomes a `ReceiveMessageResult`, and the receive callback
of a process queue stores its messages and decides how the cycle goes on: at
once, behind the throttle check, or after a delay. Decoding is a parameter
`wrap`; a failed assertion is `none`.
-/

namespace RocketMQClient

inductive ReceiveMessageAction
  | polling
  | pull
  deriving DecidableEq, Repr

inductive ReceiveMessageStatus
  | ok
  | deadlineExceeded
  | resourceExhausted
  | notFound
  | outOfRange
  | dataCorrupted
  | internal
  deriving DecidableEq, Repr

structure ReceiveMessageResult where
  status : ReceiveMessageStatus
  messages : List MQMessageExt := []
  nextOffset : ℤ := 0

structure PullMessageResponse where
  messages : List rmq.Message := []
  nextOffset : ℤ := 0

def decodeUntilCorrupted (wrap : rmq.Message → Decoded) :
    List rmq.Message → Option (List MQMessageExt × Bool)
  | [] => some ([], true)
  | item :: items => match wrap item with
    | .aborted => none
    | .rejected => some ([], false)
    | .accepted message =>
      (decodeUntilCorrupted wrap items).map fun r => (message :: r.1, r.2)

/-- Only the answer to an out-of-range request would set the next offset, and the
first test has excluded it. -/
def processPullResult (wrap : rmq.Message → Decoded) (code : Code)
    (response : PullMessageResponse) : Option ReceiveMessageResult :=
  if code ≠ .ok then some { status := .internal }
  else if response.messages.isEmpty then none
  else (decodeUntilCorrupted wrap response.messages).map fun r =>
    { status := if r.2 then .ok else .dataCorrupted, messages := r.1 }

def onPullMessage (wrap : rmq.Message → Decoded) (c : Completion PullMessageResponse) :
    Option (Except ErrorCode ReceiveMessageResult) :=
  match c.result pullMessageError with
  | .error ec => some (.error ec)
  | .ok response => (processPullResult wrap c.code response).map .ok

def decodeSkipping (wrap : rmq.Message → Decoded) :
    List rmq.Message → Option (List MQMessageExt)
  | [] => some []
  | item :: items => match wrap item with
    | .aborted => none
    | .rejected => decodeSkipping wrap items
    | .accepted message => (decodeSkipping wrap items).map (message :: ·)

def popStatus : Code → ReceiveMessageStatus
  | .ok => .ok
  | .resourceExhausted => .resourceExhausted
  | .deadlineExceeded => .deadlineExceeded
  | .notFound => .notFound
  | _ => .internal

def processPopResult (wrap : rmq.Message → Decoded) (code : Code) (items : List rmq.Message) :
    Option ReceiveMessageResult :=
  if popStatus code = .ok then
    (decodeSkipping wrap items).map fun messages => { status := .ok, messages := messages }
  else some { status := popStatus code }

def onReceiveMessage (wrap : rmq.Message → Decoded) (c : Completion (List rmq.Message)) :
    Option (Except ErrorCode ReceiveMessageResult) :=
  match c.result receiveMessageError with
  | .error ec => some (.error ec)
  | .ok items => (processPopResult wrap c.code items).map .ok

inductive Continuation
  | checkThrottleThenReceive
  | receiveMessageLater
  deriving DecidableEq, Repr

def onSuccess (model : MessageModel) (action : ReceiveMessageAction) (q : ProcessQueueImpl)
    (result : ReceiveMessageResult) : Option (ProcessQueueImpl × Continuation) :=
  match result.status with
  | .ok =>
    let q := q.cacheMessages model result.messages
    let q := if action = .pull then { q with nextOffset := result.nextOffset } else q
    some (q, .checkThrottleThenReceive)
  | .dataCorrupted =>
    let q := if action = .polling then q.cacheMessages model result.messages else q
    some (q, .checkThrottleThenReceive)
  | .outOfRange =>
    if action = .pull then
      some ({ q with nextOffset := result.nextOffset }, .checkThrottleThenReceive)
    else none
  | .deadlineExceeded => some (q, .checkThrottleThenReceive)
  | .internal => some (q, .receiveMessageLater)
  | .resourceExhausted => some (q, .receiveMessageLater)
  | .notFound => some (q, .receiveMessageLater)

end RocketMQClient
