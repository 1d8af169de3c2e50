import RocketMQClient.BrokerEndpoint
import RocketMQClient.RateLimiter

/-!
# One task of the standard consume service, call by call

`consumeTask` from its start to its end, as the list of the calls it makes: permits of
the limiter, the listener, the process queue and the consumer. Between the permits and the
listener a tracing span is made for each message with the access key of the consumer, whose
credentials provider may be null. What `ack` and `nack` of the consumer send for a message is
given beside it; an assertion in `ack` wants the host, which every popped message has.

A task consists of steps of the machine of the service.
-/

namespace RocketMQClient.StandardConsume
open EventMachine Pending
open FifoConsume (ListenerOutcome)
open MessageAccessor (targetEndpoint)

inductive ConsumeMessageResult
  | success
  | failure
  deriving DecidableEq

def caught : ListenerOutcome → ConsumeMessageResult
  | .success => .success
  | .failure => .failure
  | .exception => .failure

inductive Call
  | acquire
  | consumeMessage (messages : List MQMessageExt)
  | release (bodySize : ℕ) (offset : ℤ)
  | ack (message : MQMessageExt)
  | nack (message : MQMessageExt)
  | updateOffset (offset : ℤ)
  deriving DecidableEq

def acquirePermits (rateLimiter : Option (RateLimiter 10)) (messages : List MQMessageExt) :
    List Call :=
  match rateLimiter with
  | some _ => messages.foldl (fun calls _ => calls ++ [.acquire]) []
  | none => []

def settleLoop (status : ConsumeMessageResult) :
    List MQMessageExt → ProcessQueueImpl → Option (ProcessQueueImpl × List Call)
  | [], q => some (q, [])
  | message :: messages, q =>
    (q.release .clustering message.getBody.length message.getQueueOffset).bind fun q =>
      (settleLoop status messages q).map fun r =>
        (r.1, .release message.getBody.length message.getQueueOffset ::
          (if status = .success then .ack message else .nack message) :: r.2)

structure TaskEnd where
  processQueue : ProcessQueueImpl
  calls : List Call
  crashed : Bool := false

/-- `queueAlive` and `consumerAlive` say whether the two weak pointers can be locked, and
`credentialsProvider` whether the consumer has one. -/
def consumeTask (model : MessageModel) (rateLimiter : String → Option (RateLimiter 10))
    (queueAlive consumerAlive credentialsProvider : Bool) (q : ProcessQueueImpl)
    (messages : List MQMessageExt) (outcome : ListenerOutcome) : Option TaskEnd :=
  match queueAlive, messages with
  | false, _ => some ⟨q, [], false⟩
  | true, [] => some ⟨q, [], false⟩
  | true, message :: _ =>
    if !consumerAlive then some ⟨q, [], false⟩
    else
      let permits := acquirePermits (rateLimiter message.getTopic) messages
      -- `consumer->credentialsProvider()->getCredentials()`
      if !credentialsProvider then some ⟨q, permits, true⟩
      else
        let calls := permits ++ [.consumeMessage messages]
        match model with
        | .clustering =>
          (settleLoop (caught outcome) messages q).map fun r => ⟨r.1, calls ++ r.2, false⟩
        | .broadcasting =>
          some ⟨q, calls ++ q.committedOffset.toList.map .updateOffset, false⟩

structure Identity where
  resourceNamespace : String
  groupName : String
  clientId : String
  maxDeliveryAttempts : ℤ

structure AckMessageRequest where
  group : Resource
  topic : Resource
  clientId : String
  messageId : String
  receiptHandle : String

structure NackMessageRequest extends AckMessageRequest where
  deliveryAttempt : ℤ
  maxDeliveryAttempts : ℤ

def receiptHandle (m : MQMessageExt) : String := m.impl.systemAttribute.receiptHandle

def Identity.wrapAckMessageRequest (c : Identity) (msg : MQMessageExt) : AckMessageRequest where
  group := { resourceNamespace := c.resourceNamespace, name := c.groupName }
  topic := { resourceNamespace := c.resourceNamespace, name := msg.getTopic }
  clientId := c.clientId
  messageId := msg.getMsgId
  receiptHandle := receiptHandle msg

def Identity.ack (c : Identity) (msg : MQMessageExt) : Option (String × AckMessageRequest) :=
  (BrokerEndpoint.ack msg).map fun targetHost => (targetHost, c.wrapAckMessageRequest msg)

def Identity.nack (c : Identity) (msg : MQMessageExt) : Option (String × NackMessageRequest) :=
  -- the attempt is an `int`, whose overflow is undefined
  if 2 ^ 31 ≤ msg.getDeliveryAttempt + 1 then none
  else some (BrokerEndpoint.nack msg,
    { group := { resourceNamespace := c.resourceNamespace, name := c.groupName }
      topic := { resourceNamespace := c.resourceNamespace, name := msg.getTopic }
      clientId := c.clientId
      receiptHandle := receiptHandle msg
      messageId := msg.getMsgId
      deliveryAttempt := msg.getDeliveryAttempt + 1
      maxDeliveryAttempts := c.maxDeliveryAttempts })

end RocketMQClient.StandardConsume
