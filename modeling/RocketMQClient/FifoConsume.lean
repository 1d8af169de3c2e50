import RocketMQClient.ProcessQueue
import RocketMQClient.Library.EventMachine
import RocketMQClient.Library.Pending

/-!
# The FIFO consume service as an event machine

One process queue served by `ConsumeFifoMessageService`. Everything the service
has handed to the thread pool, to a custom executor, to the scheduler or to an
RPC is an item of `pending`, and any item may be continued next. A call of
`submitConsumeTask` is interrupted between the compare-and-swap on the flag and
the call of `take`; a run of `consumeTask` is interrupted in the listener.

`PushConsumerImpl::start` fixes the consume batch size of a FIFO listener to one.
A rate limiter only delays a task, so it does not appear. A lock on a weak
pointer fails once the process queue or the consumer is gone; the two asserts on
the locked consumer end the process, so there is no state after them.

The fields from `accepted` on record history. The message with identity `i` is
the one that `cacheMessages` appended as number `i`; `taken` counts the messages
that `take` has moved out of the cache, which is a prefix of those accepted.
-/

namespace RocketMQClient.FifoConsume
open EventMachine Pending

structure Config where
  messageModel : MessageModel := .clustering
  maxDeliveryAttempts : ℤ := 16

def consumeBatchSize : ℕ := 1

inductive Stage
  | consume
  | running
  | reconsume
  | ack
  | reack
  | forward
  | reforward
  deriving DecidableEq, Repr

inductive Task
  | dispatch
  | held (stage : Stage) (id : ℕ) (message : MQMessageExt)
  deriving DecidableEq

structure State where
  processQueue : ProcessQueueImpl := {}
  pending : List Task := []
  processQueueAlive : Bool := true
  consumerAlive : Bool := true
  updatedOffsets : List ℤ := []
  accepted : List MQMessageExt := []
  taken : ℕ := 0
  delivered : List ℕ := []
  settled : List ℕ := []

inductive ListenerOutcome
  | success
  | failure
  | exception
  deriving DecidableEq, Repr

inductive Outcome
  | run
  | returned (result : ListenerOutcome)
  | acked (ec : Option ErrorCode)
  | forwarded (ok : Bool)
  deriving DecidableEq, Repr

inductive Event
  | cacheMessages (messages : List MQMessageExt)
  | submitConsumeTask
  | resume (i : ℕ) (outcome : Outcome)
  | destroyProcessQueue
  | destroyConsumer

def State.hold (s : State) (stage : Stage) (id : ℕ) (message : MQMessageExt) : State :=
  { s with pending := s.pending ++ [.held stage id message] }

def cacheMessages (cfg : Config) (s : State) (messages : List MQMessageExt) : State :=
  if s.consumerAlive then
    { s with
      processQueue := s.processQueue.cacheMessages cfg.messageModel messages
      accepted := s.accepted ++ messages.filter s.processQueue.filterExpression.accept }
  else s

def submitConsumeTask0 (s : State) (id : ℕ) (message : MQMessageExt) : State :=
  s.hold .consume id message

def submitConsumeTask (s : State) : State :=
  if s.processQueueAlive && s.consumerAlive then
    let r := s.processQueue.bindFifoConsumeTask
    if r.1 then { s with processQueue := r.2, pending := s.pending ++ [.dispatch] } else s
  else s

def takeThenSubmit (s : State) : State :=
  let r := s.processQueue.take consumeBatchSize
  let s' := { s with processQueue := r.queue, taken := s.taken + r.messages.length }
  if r.more then
    match r.messages with
    | message :: _ => submitConsumeTask0 s' s.taken message
    | [] => s'
  -- the flag of the queue stays set
  else s'

def beginConsume (s : State) (id : ℕ) (message : MQMessageExt) : State :=
  if s.processQueueAlive && s.consumerAlive then
    { s.hold .running id message with delivered := s.delivered ++ [id] }
  else s

def settle (cfg : Config) (s : State) (id : ℕ) (message : MQMessageExt)
    (result : ListenerOutcome) : Option State :=
  match cfg.messageModel with
  | .clustering =>
    if result = .success then
      (s.processQueue.release .clustering message.getBody.length message.getQueueOffset).map
        fun q => { s with processQueue := q }.hold .ack id message
    -- the sum of the attempts and one is an `int32_t`, and its overflow is undefined
    else if 2 ^ 31 ≤ message.getDeliveryAttempt + 1 then none
    else
      let message := MessageAccessor.setDeliveryAttempt message (message.getDeliveryAttempt + 1)
      if message.getDeliveryAttempt < cfg.maxDeliveryAttempts then
        some (s.hold .reconsume id message)
      else some (s.hold .forward id message)
  | .broadcasting =>
    (s.processQueue.release .broadcasting message.getBody.length message.getQueueOffset).map
      fun q => { s with
        processQueue := q
        updatedOffsets := s.updatedOffsets ++ q.committedOffset.toList }

def onAck (s : State) (id : ℕ) (message : MQMessageExt) (ec : Option ErrorCode) : State :=
  let s := if ec.isNone then { s with settled := s.settled ++ [id] } else s
  if s.processQueueAlive then
    if ec.isSome then
      if s.consumerAlive then s.hold .reack id message else s
    else { s with processQueue := s.processQueue.unbindFifoConsumeTask.2 }
  else s

def onForwardToDeadLetterQueue (s : State) (id : ℕ) (message : MQMessageExt) (ok : Bool) :
    Option State :=
  if ok then
    let s := { s with settled := s.settled ++ [id] }
    if s.processQueueAlive then
      some { s with processQueue := s.processQueue.unbindFifoConsumeTask.2 }
    else some s
  else if s.processQueueAlive then
    if s.consumerAlive then some (s.hold .reforward id message) else none
  else some s

def scheduleForwardDeadLetterQueueTask (s : State) (id : ℕ) (message : MQMessageExt) :
    Option State :=
  if s.processQueueAlive then
    if s.consumerAlive then some (s.hold .forward id message) else none
  else some s

def scheduleAckTask (s : State) (id : ℕ) (message : MQMessageExt) : State :=
  if s.processQueueAlive && s.consumerAlive then s.hold .ack id message else s

def scheduleConsumeTask (s : State) (id : ℕ) (message : MQMessageExt) : State :=
  if s.consumerAlive && s.processQueueAlive then submitConsumeTask0 s id message else s

def resume (cfg : Config) (s : State) : Task → Outcome → Option State
  | .dispatch, .run => some (takeThenSubmit s)
  | .held .consume id m, .run => some (beginConsume s id m)
  | .held .running id m, .returned result => settle cfg s id m result
  | .held .reconsume id m, .run => some (scheduleConsumeTask s id m)
  | .held .ack id m, .acked ec => some (onAck s id m ec)
  | .held .reack id m, .run => some (scheduleAckTask s id m)
  | .held .forward id m, .forwarded ok => onForwardToDeadLetterQueue s id m ok
  | .held .reforward id m, .run => scheduleForwardDeadLetterQueueTask s id m
  | _, _ => none

def step (cfg : Config) (s : State) : Event → Option State
  | .cacheMessages messages => some (cacheMessages cfg s messages)
  | .submitConsumeTask => some (submitConsumeTask s)
  | .resume i outcome =>
    (pick s.pending i).bind fun r => resume cfg { s with pending := r.2 } r.1 outcome
  | .destroyProcessQueue => some { s with processQueueAlive := false }
  | .destroyConsumer => some { s with consumerAlive := false }

def machine (cfg : Config) (filter : FilterExpression) : Machine State Event where
  init := { processQueue := { filterExpression := filter } }
  step := step cfg

end RocketMQClient.FifoConsume
