import RocketMQClient.Library.OrderedSet
import Mathlib.Data.String.Basic
import Mathlib.Algebra.Ring.Int.Defs

/-!
# Messages, message queues and filter expressions

A message is the heap-allocated `MessageImpl` together with the message group
and the message queue bound to the handle. The copy constructor of the handle
copies the `MessageImpl` only, so a copy has neither group nor queue.

A `std::error_code` is an `Option ErrorCode`, where `none` is the clear code.
Times are nanoseconds since the Unix epoch, bodies are byte strings, and the
property table is an ordered map.
-/

namespace RocketMQClient

inductive MessageModel
  | broadcasting
  | clustering
  deriving DecidableEq, Repr

inductive MessageType
  | normal
  | fifo
  | delay
  | transaction
  deriving DecidableEq, Repr

inductive ErrorCode
  | illegalState
  | badConfiguration
  | badRequest
  | unauthorized
  | forbidden
  | notFound
  | requestTimeout
  | preconditionRequired
  | internalServerError
  | notImplemented
  | badGateway
  | serviceUnavailable
  | gatewayTimeout
  deriving DecidableEq, Repr

inductive LifeState
  | created
  | starting
  | started
  | stopping
  | stopped
  deriving DecidableEq, Repr

structure MQMessageQueue where
  topic : String := ""
  brokerName : String := ""
  queueId : ℤ := 0
  serviceAddress : String := ""
  deriving DecidableEq, Repr

namespace MQMessageQueue

def key (q : MQMessageQueue) : String × String × ℤ := (q.topic, q.brokerName, q.queueId)

/-- `operator==`: the service address does not take part. -/
def same (a b : MQMessageQueue) : Bool :=
  a.topic == b.topic && a.brokerName == b.brokerName && a.queueId == b.queueId

def less (a b : MQMessageQueue) : Bool :=
  if a.topic ≠ b.topic then a.topic < b.topic
  else if a.brokerName ≠ b.brokerName then a.brokerName < b.brokerName
  else a.queueId < b.queueId

def valid (q : MQMessageQueue) : Bool :=
  !q.topic.isEmpty && !q.brokerName.isEmpty && decide (0 ≤ q.queueId)

theorem same_iff {a b : MQMessageQueue} : a.same b = true ↔ a.key = b.key := by
  simp [same, key, and_assoc]

end MQMessageQueue

structure Resource where
  resourceNamespace : String := ""
  name : String := ""
  deriving DecidableEq, Repr

/-- `message_type` has no initializer: it is `none` until it is set. -/
structure SystemAttribute where
  tag : String := ""
  keys : List String := []
  messageId : String := ""
  messageType : Option MessageType := none
  bornTimestamp : ℤ := 0
  bornHost : String := ""
  storeTimestamp : ℤ := 0
  storeHost : String := ""
  deliveryTimestamp : ℤ := 0
  decodeTimestamp : ℤ := 0
  delayLevel : ℤ := 0
  receiptHandle : String := ""
  partitionId : ℤ := 0
  partitionOffset : ℤ := 0
  invisiblePeriod : ℤ := 0
  attemptTimes : ℤ := 0
  traceContext : String := ""
  targetEndpoint : String := ""
  deriving DecidableEq, Repr

abbrev Properties := OrderedSet (Prod.fst : String × String → String)

structure MessageImpl where
  topic : Resource := {}
  userAttributeMap : Properties := OrderedSet.empty
  systemAttribute : SystemAttribute := {}
  body : List UInt8 := []
  deriving DecidableEq

structure MQMessage where
  impl : MessageImpl := {}
  messageGroup : String := ""
  messageQueue : MQMessageQueue := {}
  deriving DecidableEq

abbrev MQMessageExt := MQMessage

namespace MQMessage

/-- The copy constructor, which allocates a new `MessageImpl` and nothing else. -/
def copy (m : MQMessage) : MQMessage := { impl := m.impl }

def getTopic (m : MQMessage) : String := m.impl.topic.name
def getTags (m : MQMessage) : String := m.impl.systemAttribute.tag
def getKeys (m : MQMessage) : List String := m.impl.systemAttribute.keys
def getMsgId (m : MQMessage) : String := m.impl.systemAttribute.messageId
def getBody (m : MQMessage) : List UInt8 := m.impl.body
def getProperties (m : MQMessage) : Properties := m.impl.userAttributeMap
def getDelayTimeLevel (m : MQMessage) : ℤ := m.impl.systemAttribute.delayLevel
def traceContext (m : MQMessage) : String := m.impl.systemAttribute.traceContext
def messageType (m : MQMessage) : Option MessageType := m.impl.systemAttribute.messageType
def getQueueId (m : MQMessage) : ℤ := m.impl.systemAttribute.partitionId
def getQueueOffset (m : MQMessage) : ℤ := m.impl.systemAttribute.partitionOffset
def getDeliveryAttempt (m : MQMessage) : ℤ := m.impl.systemAttribute.attemptTimes

def bodyLength (m : MQMessage) : ℕ := m.impl.body.length % 2 ^ 32

def bindMessageQueue (m : MQMessage) (q : MQMessageQueue) : MQMessage :=
  { m with messageQueue := q }

end MQMessage

namespace MessageAccessor

def setAttribute (f : SystemAttribute → SystemAttribute) (m : MQMessage) : MQMessage :=
  { m with impl := { m.impl with systemAttribute := f m.impl.systemAttribute } }

def setDeliveryAttempt (m : MQMessage) (attemptTimes : ℤ) : MQMessage :=
  setAttribute (fun a => { a with attemptTimes := attemptTimes }) m

def setTargetEndpoint (m : MQMessage) (targetEndpoint : String) : MQMessage :=
  setAttribute (fun a => { a with targetEndpoint := targetEndpoint }) m

def targetEndpoint (m : MQMessage) : String := m.impl.systemAttribute.targetEndpoint

end MessageAccessor

inductive ExpressionType
  | tag
  | sql92
  deriving DecidableEq, Repr

structure FilterExpression where
  content : String := "*"
  type : ExpressionType := .tag
  deriving DecidableEq, Repr

def FilterExpression.accept (f : FilterExpression) (message : MQMessageExt) : Bool :=
  match f.type with
  | .tag => if f.content = "*" then true else message.getTags = f.content
  | .sql92 => true

end RocketMQClient
