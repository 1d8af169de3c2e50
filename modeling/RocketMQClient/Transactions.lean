import RocketMQClient.RpcAnswers
import RocketMQClient.SendErrorCode

/-! A transactional message is sent like any other one, and what `send` returned is kept in
the transaction: the ids the broker gave, and the address of the queue it was sent to.
`commit` and `rollback` tell that address how the transaction ends. Both ask the credentials
provider for the access key of their span, without a test, and wait once, without a test
either: for the answer, or for a wake-up that means nothing. -/

namespace RocketMQClient

inductive TransactionState
  | commit
  | rollback
  deriving DecidableEq, Repr

structure EndTransactionRequest where
  messageId : String := ""
  transactionId : String := ""
  resolution : TransactionState := .commit
  deriving DecidableEq, Repr

structure EndTransactionCall where
  targetHost : String
  request : EndTransactionRequest
  deriving DecidableEq, Repr

def endTransactionResult (ctx : RpcAnswers.InvocationContext Unit) : Bool :=
  (RpcAnswers.endTransaction ctx).all fun answer => answer.1.isNone

/-- What ends the wait of `endTransaction0`, if anything does: the signal of its callback, or
a spurious wake-up, before the callback has written its result or after. -/
inductive Woken
  | signalled
  | spuriously (written : Bool)
  | never
  deriving DecidableEq, Repr

def Woken.returns (result : Bool) : Woken → Option Bool
  | .signalled => some result
  | .spuriously written => some (written && result)
  | .never => none

structure Finishing where
  producerAlive : Bool
  credentialsProvider : Bool
  woken : Woken
  ctx : RpcAnswers.InvocationContext Unit

inductive Finished
  | crashed
  | ended (call : Option EndTransactionCall) (returned : Option Bool)
  deriving DecidableEq, Repr

namespace Producer

def endTransaction0 (target messageId transactionId : String) (resolution : TransactionState) :
    EndTransactionCall :=
  { targetHost := target
    request :=
      { messageId := messageId, transactionId := transactionId, resolution := resolution } }

end Producer

structure TransactionImpl where
  messageId : String
  transactionId : String
  endpoint : String
  deriving DecidableEq, Repr

namespace TransactionImpl

def finish (t : TransactionImpl) (resolution : TransactionState) (env : Finishing) : Finished :=
  if !env.producerAlive then .ended none (some false)
  else if !env.credentialsProvider then .crashed
  else .ended
    (some (Producer.endTransaction0 t.endpoint t.messageId t.transactionId resolution))
    (env.woken.returns (endTransactionResult env.ctx))

def commit (t : TransactionImpl) : Finishing → Finished := t.finish .commit

def rollback (t : TransactionImpl) : Finishing → Finished := t.finish .rollback

end TransactionImpl

namespace Producer
variable (p : Producer)

variable {p} {counter : UInt32} {m : MQMessage} {published listed : Looked} {env : Awaited}
  {ec ec' : StdErrorCode} {candidates : List MQMessageQueue} {rpcs : List Rpc}
  {result : SendResult}

end Producer

namespace Transactions

def partition : Partition := { topic := "topic", brokerName := "b", serviceAddress := "b:10911" }

def looked : Looked := ⟨some (.ok { topic := "topic", partitionList := [partition] }), false⟩

def message : MQMessage := { impl := { topic := { name := "topic" }, body := [1] } }

def attempts : Awaited :=
  { completion := fun i => if i = 0 then { statusOk := false, response := {} }
      else { response := { messageId := "m", transactionId := "x" } }
    producerAlive := fun _ => true
    credentialsProvider := true }

def producer : Producer := { hash := fun _ => 0 }

end Transactions

end RocketMQClient
