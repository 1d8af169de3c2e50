import RocketMQClient.AccessPoint
import RocketMQClient.RouteDecoding

/-!
# Asking for the assignment of a topic

`queryAssignment` asks for the route of the topic, and the rest is a callback on the
route. In broadcasting mode the assignment is made of the route; the callback reports an
error of the lookup, and then goes on to the route that is not there. In clustering mode a
broker is asked, with the name servers as access point, even if there is no route.

A run is the list of the calls of the caller's callback with the way it ended: `selectBroker`
need not end, `setAccessPoint` may throw, and the constructor of `TopicAssignment` asserts that
a readable partition has a broker.
-/

namespace RocketMQClient.QueryAssignment
open Text AccessPoint
open RpcAnswers (InvocationContext)
open PushConsumerImpl (selectBroker WalkEnds)

inductive Ending
  | returned
  | nullRoute
  | threw (e : ConversionError)
  | failedAssertion
  | unfinished

structure Callback where
  ec : Option ErrorCode
  topicAssignment : Option (List MQMessageQueue)

structure Run where
  calls : List Callback
  ending : Ending

structure Config where
  messageModel : MessageModel
  nameServerList : List (List Char)
  queryWhichBroker : UInt32
  std : StdSort MQMessageQueue.less

def assignmentCallback (cfg : Config) (code : ℤ) :
    Option ErrorCode × List rmq.Partition → Run
  | (some ec, _) => { calls := [⟨some ec, none⟩], ending := .returned }
  | (none, response) =>
    match TopicAssignment.ofResponse cfg.std ((Code.ofInt code).getD .unknown) response with
    | none => { calls := [], ending := .failedAssertion }
    | some queues => { calls := [⟨none, some queues⟩], ending := .returned }

def assignmentCallbacks (cfg : Config) (code : ℤ) :
    List (Option ErrorCode × List rmq.Partition) → Run
  | [] => { calls := [], ending := .returned }
  | answer :: answers =>
    match assignmentCallback cfg code answer with
    | { calls := calls, ending := .returned } =>
      let rest := assignmentCallbacks cfg code answers
      { rest with calls := calls ++ rest.calls }
    | run => run

def onRoute (cfg : Config) (completion : InvocationContext (List rmq.Partition)) (fuel : ℕ)
    (ec : Option ErrorCode) (topicRoute : Option (List RoutePartition)) : Run :=
  match cfg.messageModel with
  | .broadcasting =>
    let reported : List Callback := ec.toList.map fun e => ⟨some e, none⟩
    match topicRoute with
    | none => { calls := reported, ending := .nullRoute }
    | some partitions =>
      { calls := reported ++
          [⟨ec, some (TopicAssignment.ofRoute cfg.std (partitions.map RoutePartition.toPartition))⟩]
        ending := .returned }
  | .clustering =>
    match selectBroker topicRoute cfg.queryWhichBroker fuel with
    | none => { calls := [], ending := .unfinished }
    | some _ =>
      match setAccessPoint cfg.nameServerList {} with
      | .error e => { calls := [], ending := .threw e }
      | .ok _ => assignmentCallbacks cfg completion.code (RpcAnswers.queryAssignment completion)

/-- `lookup` is the outcome of `getRouteFor`, which has no route beside an error. -/
def queryAssignment (cfg : Config) (completion : InvocationContext (List rmq.Partition))
    (fuel : ℕ) : Except ErrorCode (List RoutePartition) → Run
  | .error ec => onRoute cfg completion fuel (some ec) none
  | .ok partitions => onRoute cfg completion fuel none (some partitions)

def Succeeds (completion : InvocationContext (List rmq.Partition)) : Prop :=
  completion.status = .ok ∧ completion.code = 0

def Brokered (response : List rmq.Partition) : Prop :=
  ∀ p ∈ response, p.permission = .read ∨ p.permission = .readWrite → p.broker ≠ none

section Answers
variable {cfg : Config} {completion : InvocationContext (List rmq.Partition)}

end Answers

/-- In broadcasting mode the lookup has to succeed. In clustering mode the walk of
`selectBroker` has to end, the ports of the name servers have to be numbers, and the request to
the broker has to fail if the lookup did. -/
def Answerable (cfg : Config) (completion : InvocationContext (List rmq.Partition)) :
    Except ErrorCode (List RoutePartition) → Prop
  | .error _ => cfg.messageModel = .clustering ∧
      (∀ item ∈ cfg.nameServerList, Convertible item) ∧ ¬ Succeeds completion
  | .ok partitions => cfg.messageModel = .clustering →
      WalkEnds partitions cfg.queryWhichBroker ∧
        (∀ item ∈ cfg.nameServerList, Convertible item) ∧
        (Succeeds completion → Brokered completion.response)

end RocketMQClient.QueryAssignment
