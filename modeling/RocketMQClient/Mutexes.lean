import RocketMQClient.LifeCycle
import RocketMQClient.ReceiveMessage
import RocketMQClient.Library.LockOrder

/-!
# The mutexes of the client

For each function that takes a mutex, and for those that call them, what it does with
mutexes on each of its paths. A branch on data is a free choice, a loop runs any number of
times, and a wait on a condition variable gives its mutex back and takes it again. Calls to
a broker go on in a callback that a thread of the callback pool runs, so such a callback is
an entry of its own; one that runs at once, in the thread that asks, is part of its caller.
`getRpcClient` always has a client, so the branches for none are not there.

`user` is the code of the application: the message listener, the custom executor, the
callbacks, the offset store and the transaction checker.
-/

namespace RocketMQClient.Mutexes
open LockOrder LockOrder.Code

/-- `sync` are the mutexes of calls that wait for a callback or for threads to start. -/
inductive Lock
  | topicFilterExpressionTable
  | throttleTable
  | clients
  | clientsMap
  | processQueueTable
  | inflightRouteRequests
  | rateLimiterTable
  | messages
  | topicRouteTable
  | offsets
  | members
  | limiter
  | rpcClients
  | uniqueId
  | stsCredentials
  | httpClients
  | nameServerList
  | isolatedEndpoints
  | topicPublishInfo
  | partitionList
  | tasks
  | dispatch
  | sync
  | clientManagerTable
  | hosts
  deriving DecidableEq, Repr

def rank : Lock → ℕ
  | .topicFilterExpressionTable | .throttleTable | .clients | .clientsMap => 1
  | .processQueueTable => 2
  | .inflightRouteRequests | .rateLimiterTable | .messages => 3
  | .topicRouteTable | .offsets | .members => 4
  | _ => 5

theorem rank_le (l : Lock) : rank l ≤ 5 := by
  cases l <;> simp [rank]

abbrev Code := LockOrder.Code Lock

def take (l : Lock) : Code := locked l skip

def await : Code := many (take .sync)

namespace UniqueIdGenerator

def next : Code := take .uniqueId

end UniqueIdGenerator

namespace HttpClientImpl

def get (cb : Code) : Code := block [take .httpClients, cb]

end HttpClientImpl

namespace StsCredentialsProviderImpl

def refresh : Code :=
  block [HttpClientImpl.get (block [either skip (take .stsCredentials), take .sync]), await]

def getCredentials : Code := block [either skip refresh, take .stsCredentials]

end StsCredentialsProviderImpl

/-- The other providers of credentials take no mutex. -/
def getCredentials : Code := either skip StsCredentialsProviderImpl.getCredentials

namespace Signature

def sign : Code := either skip getCredentials

end Signature

namespace DynamicNameServerResolver

def onNameServerListFetched : Code := either skip (take .nameServerList)

def fetch : Code := HttpClientImpl.get onNameServerListFetched

def resolve : Code :=
  block [take .nameServerList, either skip fetch, take .nameServerList]

def current : Code := take .nameServerList

end DynamicNameServerResolver

/-- A list of name servers that is fixed is read without a mutex. -/
def current : Code := either skip DynamicNameServerResolver.current

def setAccessPoint : Code := either skip DynamicNameServerResolver.resolve

namespace SchedulerImpl

def start : Code := either skip (take .sync)

def schedule : Code := take .tasks

def cancel : Code := take .tasks

def shutdown : Code := take .tasks

end SchedulerImpl

namespace AdminServerImpl

def start : Code := either skip await

def loop : Code := take .sync

end AdminServerImpl

namespace ClientManagerImpl

def getRpcClient : Code := take .rpcClients

def call : Code := block [getRpcClient, UniqueIdGenerator.next]

def addClientObserver : Code := take .clients

def start : Code :=
  either skip (block [take .sync, SchedulerImpl.start, SchedulerImpl.schedule,
    SchedulerImpl.schedule, SchedulerImpl.schedule])

def shutdown : Code :=
  either skip (block [many SchedulerImpl.cancel, SchedulerImpl.shutdown, take .rpcClients])

end ClientManagerImpl

namespace ClientImpl

def endpointsInUse : Code := take .topicRouteTable

def updateRouteCache : Code := either skip (take .topicRouteTable)

def onTopicRouteReady (cb : Code) : Code :=
  block [updateRouteCache, take .inflightRouteRequests, many cb]

def fetchRouteFor : Code :=
  block [current, either skip (block [setAccessPoint, Signature.sign, ClientManagerImpl.call])]

def onRouteFetched (cb : Code) : Code := block [either skip current, cb]

def getRouteFor (cb : Code) : Code :=
  block [take .topicRouteTable,
    either cb (block [locked .inflightRouteRequests (take .topicRouteTable),
      either skip (either cb fetchRouteFor)])]

def updateRouteInfo : Code :=
  either skip (block [take .topicRouteTable, many fetchRouteFor])

def heartbeat (prepareHeartbeatData : Code) : Code :=
  block [endpointsInUse,
    either skip (block [prepareHeartbeatData, Signature.sign, many ClientManagerImpl.call])]

def onRemoteEndpointRemoval : Code := take .isolatedEndpoints

def healthCheck : Code :=
  block [take .isolatedEndpoints, many (block [Signature.sign, ClientManagerImpl.call])]

def onHealthCheckResponse : Code := either skip (take .isolatedEndpoints)

def notifyClientTermination : Code :=
  block [endpointsInUse, Signature.sign, many ClientManagerImpl.call]

def multiplexing : Code := block [Signature.sign, ClientManagerImpl.call]

/-- The first client of the process makes the factory, which starts the admin server. -/
def start : Code :=
  either skip (block [either skip (block [SchedulerImpl.start, SchedulerImpl.schedule]),
    either skip AdminServerImpl.start, take .clientManagerTable, ClientManagerImpl.start,
    take .sync, SchedulerImpl.schedule])

/-- The last client of a manager ends it. -/
def shutdown : Code :=
  block [either skip SchedulerImpl.shutdown, either skip SchedulerImpl.cancel,
    notifyClientTermination, ClientManagerImpl.shutdown]

def onMultiplexingResponse (fillGenericPollingRequest resolveOrphanedTransactionalMessage : Code) :
    Code :=
  oneOf [SchedulerImpl.schedule, multiplexing,
    block [either skip resolveOrphanedTransactionalMessage, fillGenericPollingRequest,
      multiplexing],
    block [fillGenericPollingRequest, multiplexing]]

end ClientImpl

namespace ClientManagerImpl

def cleanOfflineRpcClients : Code :=
  block [locked .clients (many ClientImpl.endpointsInUse), take .rpcClients]

def doHealthCheck : Code :=
  either skip (block [cleanOfflineRpcClients, take .clients,
    many ClientImpl.onRemoteEndpointRemoval, many ClientImpl.healthCheck])

def doHeartbeat (heartbeat : Code) : Code := either skip (block [take .clients, many heartbeat])

end ClientManagerImpl

namespace ProducerImpl

def takeMessageQueuesRoundRobin : Code := block [take .isolatedEndpoints, take .partitionList]

def onRoute (cb : Code) : Code :=
  either cb (block [take .partitionList, take .topicPublishInfo, cb])

def asyncPublishInfo (cb : Code) : Code :=
  block [take .topicPublishInfo, either cb (ClientImpl.getRouteFor (onRoute cb))]

def getPublishInfo : Code := block [asyncPublishInfo (take .sync), await]

def listMessageQueue : Code :=
  block [asyncPublishInfo (take .sync), await, either skip (take .partitionList)]

def sendImpl (cb : Code) : Code :=
  either cb (block [UniqueIdGenerator.next, Signature.sign, getCredentials,
    ClientManagerImpl.call])

def send0 (cb : Code) : Code := either cb (sendImpl cb)

def send : Code :=
  either skip (block [getPublishInfo, either skip (block [
    either listMessageQueue takeMessageQueuesRoundRobin, either skip (block [
      send0 (take .sync), await])])])

def onPublishInfo (cb : Code) : Code :=
  either cb (block [either (take .partitionList) takeMessageQueuesRoundRobin,
    either cb (send0 cb)])

def sendAsync (cb : Code) : Code := block [either skip cb, asyncPublishInfo (onPublishInfo cb)]

def endTransaction0 : Code :=
  block [Signature.sign, getCredentials, ClientManagerImpl.call, take .sync]

def resolveOrphanedTransactionalMessage (user : Code) : Code :=
  either skip (block [user, endTransaction0])

end ProducerImpl

namespace RetrySendCallback

def onCompletion (cb : Code) : Code := either cb (ProducerImpl.sendImpl cb)

end RetrySendCallback

namespace RateLimiter

def acquire : Code := many (take .limiter)

def tick : Code := take .limiter

end RateLimiter

namespace RateLimiterObserver

def subscribe : Code := take .members

def tick : Code := locked .members (many RateLimiter.tick)

end RateLimiterObserver

namespace ConsumeMessageService

def signalDispatcher : Code := take .dispatch

def throttle : Code := locked .rateLimiterTable RateLimiterObserver.subscribe

def rateLimiter : Code :=
  block [take .rateLimiterTable, either skip (take .rateLimiterTable)]

def shutdown : Code := either skip (take .dispatch)

end ConsumeMessageService

structure PushConsumerImpl where
  listenerType : LifeCycle.MessageListenerType
  messageModel : MessageModel
  receiveMessagePolicy : ReceiveMessageAction := .polling
  deriving DecidableEq, Repr

namespace PushConsumerImpl

def getFilterExpression : Code := take .topicFilterExpressionTable

def ack : Code := block [Signature.sign, ClientManagerImpl.call]

def nack : Code := block [Signature.sign, ClientManagerImpl.call]

def forwardToDeadLetterQueue : Code := block [Signature.sign, ClientManagerImpl.call]

end PushConsumerImpl

namespace ProcessQueueImpl

def popMessage : Code :=
  block [Signature.sign, PushConsumerImpl.getFilterExpression, ClientManagerImpl.call]

def pullMessage : Code := block [PushConsumerImpl.getFilterExpression, ClientManagerImpl.call]

def receiveMessage : ReceiveMessageAction → Code
  | .polling => popMessage
  | .pull => pullMessage

def hasPendingMessages : Code := take .messages

/-- A message that the filter does not accept is acknowledged with both mutexes held. -/
def cacheMessages : Code :=
  either skip (locked .messages (locked .offsets (many PushConsumerImpl.ack)))

def committedOffset : Code := take .offsets

def release : Code := either skip (take .offsets)

end ProcessQueueImpl

namespace ConsumeStandardMessageService

def consumeTask (user : Code) : Code :=
  either skip (block [ConsumeMessageService.rateLimiter, RateLimiter.acquire,
    many getCredentials, user,
    either
      (many (block [ProcessQueueImpl.release,
        either PushConsumerImpl.ack PushConsumerImpl.nack]))
      (block [ProcessQueueImpl.committedOffset, either skip user])])

/-- A custom executor may run the tasks it is given at once. -/
def submitConsumeTask (user : Code) : Code :=
  many (block [take .messages, many (either user (consumeTask user))])

end ConsumeStandardMessageService

namespace ConsumeFifoMessageService

def consumeTask (user : Code) : Code :=
  either skip (block [ConsumeMessageService.rateLimiter, RateLimiter.acquire, user,
    either
      (oneOf [block [ProcessQueueImpl.release, PushConsumerImpl.ack], SchedulerImpl.schedule,
        PushConsumerImpl.forwardToDeadLetterQueue])
      (block [ProcessQueueImpl.release, ProcessQueueImpl.committedOffset, either skip user])])

def submitConsumeTask0 (user : Code) : Code := many (either user (consumeTask user))

def submitConsumeTask (user : Code) : Code :=
  either skip (block [take .messages, either skip (submitConsumeTask0 user)])

def onAck : Code :=
  either skip (either SchedulerImpl.schedule ConsumeMessageService.signalDispatcher)

def onForwardToDeadLetterQueue : Code := either skip SchedulerImpl.schedule

end ConsumeFifoMessageService

namespace PushConsumerImpl

def started (c : PushConsumerImpl) : PushConsumerImpl :=
  { c with
    receiveMessagePolicy :=
      if c.listenerType = .standard ∧ c.messageModel = .clustering then .polling else .pull }

def setMessageModel (c : PushConsumerImpl) (messageModel : MessageModel) : PushConsumerImpl :=
  { c with messageModel := messageModel }

def subscribe : Code := take .topicFilterExpressionTable

def unsubscribe : Code := take .topicFilterExpressionTable

def resourceBundle : Code := take .topicFilterExpressionTable

def prepareHeartbeatData : Code := take .topicFilterExpressionTable

def getProcessQueueTableSize : Code := take .processQueueTable

def setThrottle : Code := locked .throttleTable (either skip ConsumeMessageService.throttle)

def fetchRoutes : Code :=
  block [take .topicFilterExpressionTable,
    either skip (block [many (ClientImpl.getRouteFor (take .sync)), await])]

def start : Code :=
  block [ClientImpl.start, either skip (block [ClientManagerImpl.addClientObserver, fetchRoutes,
    ClientImpl.heartbeat prepareHeartbeatData, take .sync,
    locked .throttleTable (many ConsumeMessageService.throttle), SchedulerImpl.schedule])]

def shutdown : Code :=
  block [either skip SchedulerImpl.cancel, take .processQueueTable,
    either skip ConsumeMessageService.shutdown, ClientImpl.shutdown]

def getOrCreateProcessQueue : Code := take .processQueueTable

def receiveMessage (c : PushConsumerImpl) (user : Code) : Code :=
  either skip (block [getOrCreateProcessQueue, either skip
    (match c.receiveMessagePolicy with
    | .pull => block [either skip user,
        either skip (block [Signature.sign, ClientManagerImpl.call])]
    | .polling => ProcessQueueImpl.receiveMessage .polling)])

def syncProcessQueue (c : PushConsumerImpl) (user : Code) : Code :=
  block [take .processQueueTable, many (c.receiveMessage user)]

/-- The callback of `queryAssignment` for the route, for an assignment callback `cb`. In the
clustering model a broker is asked, and `cb` is called when it has answered. -/
def onRoute (c : PushConsumerImpl) (cb : Code) : Code :=
  match c.messageModel with
  | .broadcasting => cb
  | .clustering => block [setAccessPoint, Signature.sign, ClientManagerImpl.call]

def queryAssignment (c : PushConsumerImpl) (cb : Code) : Code :=
  ClientImpl.getRouteFor (c.onRoute cb)

def onAssignment (c : PushConsumerImpl) (user : Code) : Code :=
  either skip (c.syncProcessQueue user)

def scanAssignments (c : PushConsumerImpl) (user : Code) : Code :=
  either skip (locked .topicFilterExpressionTable
    (many (c.queryAssignment (c.onAssignment user))))

def iterateProcessQueue (callback : Code) : Code :=
  locked .processQueueTable
    (many (block [ProcessQueueImpl.hasPendingMessages, either skip callback]))

end PushConsumerImpl

namespace ConsumeMessageService

def dispatch (user : Code) : Code :=
  either skip (PushConsumerImpl.iterateProcessQueue
    (either (ConsumeStandardMessageService.submitConsumeTask user)
      (ConsumeFifoMessageService.submitConsumeTask user)))

def dispatchThread (user : Code) : Code := many (block [dispatch user, take .dispatch])

end ConsumeMessageService

namespace AsyncReceiveMessageCallback

def receiveMessageLater : Code := either skip SchedulerImpl.schedule

def checkThrottleThenReceive (c : PushConsumerImpl) (user : Code) : Code :=
  either skip (either receiveMessageLater (c.receiveMessage user))

def onSuccess (c : PushConsumerImpl) (user : Code) : Code :=
  either skip (either receiveMessageLater
    (block [either skip (block [ProcessQueueImpl.cacheMessages,
      ConsumeMessageService.signalDispatcher]), checkThrottleThenReceive c user]))

def onFailure : Code := either skip receiveMessageLater

end AsyncReceiveMessageCallback

namespace PullConsumerImpl

def queuesFor : Code := block [take .topicRouteTable, either skip (ClientImpl.getRouteFor skip)]

def queryOffset : Code := block [Signature.sign, ClientManagerImpl.call]

def pull : Code := block [Signature.sign, ClientManagerImpl.call]

end PullConsumerImpl

namespace OtlpExporterHandler

def syncExportClients : Code := block [take .hosts, take .clientsMap]

def exportSpans : Code :=
  either skip (block [syncExportClients, locked .clientsMap (either skip UniqueIdGenerator.next)])

end OtlpExporterHandler

def api : List Code :=
  [ClientImpl.start, ClientImpl.shutdown, ClientManagerImpl.addClientObserver,
    PushConsumerImpl.start, PushConsumerImpl.shutdown, PushConsumerImpl.subscribe,
    PushConsumerImpl.unsubscribe, PushConsumerImpl.setThrottle,
    PushConsumerImpl.getProcessQueueTableSize, ProducerImpl.send, ProducerImpl.endTransaction0,
    PullConsumerImpl.queuesFor, PullConsumerImpl.queryOffset, PullConsumerImpl.pull]

/-- What the threads of the client run of themselves: the tasks of the schedulers, the
dispatcher, the rate limiters, the export of spans and the loop of the admin server. -/
def tasks (c : PushConsumerImpl) (user : Code) : List Code :=
  [ClientImpl.updateRouteInfo, ClientManagerImpl.doHealthCheck,
    ClientManagerImpl.doHeartbeat (ClientImpl.heartbeat skip),
    ClientManagerImpl.doHeartbeat (ClientImpl.heartbeat PushConsumerImpl.prepareHeartbeatData),
    c.scanAssignments user, AsyncReceiveMessageCallback.checkThrottleThenReceive c user,
    PushConsumerImpl.ack, PushConsumerImpl.forwardToDeadLetterQueue,
    ConsumeFifoMessageService.submitConsumeTask0 user, DynamicNameServerResolver.fetch,
    block [PushConsumerImpl.resourceBundle, ClientImpl.multiplexing], ClientImpl.multiplexing,
    ConsumeMessageService.dispatchThread user, ConsumeStandardMessageService.consumeTask user,
    ConsumeFifoMessageService.consumeTask user, RateLimiterObserver.tick,
    OtlpExporterHandler.exportSpans, AdminServerImpl.loop]

def callbacks (c : PushConsumerImpl) (user : Code) : List Code :=
  [ClientImpl.onRouteFetched ClientImpl.updateRouteCache,
    ClientImpl.onRouteFetched (ClientImpl.onTopicRouteReady (oneOf [take .sync,
      c.onRoute (c.onAssignment user), ProducerImpl.onRoute (take .sync),
      ProducerImpl.onRoute (ProducerImpl.onPublishInfo user)])),
    c.onAssignment user, ProcessQueueImpl.receiveMessage c.receiveMessagePolicy,
    AsyncReceiveMessageCallback.onSuccess c user, AsyncReceiveMessageCallback.onFailure,
    ClientImpl.onHealthCheckResponse, ConsumeFifoMessageService.onAck,
    ConsumeFifoMessageService.onForwardToDeadLetterQueue,
    RetrySendCallback.onCompletion (take .sync), RetrySendCallback.onCompletion user,
    ClientImpl.onMultiplexingResponse skip (ProducerImpl.resolveOrphanedTransactionalMessage user),
    ClientImpl.onMultiplexingResponse PushConsumerImpl.resourceBundle skip, take .sync, user]

def client (c : PushConsumerImpl) (user : Code) : Code :=
  many (oneOf (ProducerImpl.sendAsync user :: (api ++ tasks c user ++ callbacks c user)))

section Ordered
variable {c : PushConsumerImpl} {user cb : Code} {r : ℕ}

theorem fetchRouteFor_ordered (hr : r ≤ 4) : ordered rank r ClientImpl.fetchRouteFor = true :=
  ordered_mono hr rfl

theorem call_ordered (hr : r ≤ 4) : ordered rank r ClientManagerImpl.call = true :=
  ordered_mono hr rfl

theorem sign_ordered (hr : r ≤ 4) : ordered rank r Signature.sign = true :=
  ordered_mono hr rfl

theorem setAccessPoint_ordered (hr : r ≤ 4) : ordered rank r setAccessPoint = true :=
  ordered_mono hr rfl

theorem getRouteFor_ordered (hr : r ≤ 2) (hcb : ordered rank r cb = true) :
    ordered rank r (ClientImpl.getRouteFor cb) = true := by
  have hroute : r < 4 := by omega
  have hinflight : r < 3 := by omega
  have hfetch := fetchRouteFor_ordered (r := r) (by omega)
  simp [ClientImpl.getRouteFor, take, ordered, rank, hcb, hfetch, hroute, hinflight]

theorem producer_onRoute_ordered (hcb : ordered rank 0 cb = true) :
    ordered rank 0 (ProducerImpl.onRoute cb) = true := by
  simp [ProducerImpl.onRoute, take, ordered, rank, hcb]

theorem asyncPublishInfo_ordered (hcb : ordered rank 0 cb = true) :
    ordered rank 0 (ProducerImpl.asyncPublishInfo cb) = true := by
  have hroute := getRouteFor_ordered (Nat.zero_le 2) (producer_onRoute_ordered hcb)
  simp [ProducerImpl.asyncPublishInfo, take, ordered, rank, hcb, hroute]

theorem sendImpl_ordered (hcb : ordered rank 0 cb = true) :
    ordered rank 0 (ProducerImpl.sendImpl cb) = true := by
  have hask : ordered rank 0 (block [UniqueIdGenerator.next, Signature.sign, getCredentials,
      ClientManagerImpl.call]) = true := rfl
  simp only [ProducerImpl.sendImpl, ordered, hcb, hask, Bool.and_self]

theorem onPublishInfo_ordered (hcb : ordered rank 0 cb = true) :
    ordered rank 0 (ProducerImpl.onPublishInfo cb) = true := by
  have hsend := sendImpl_ordered hcb
  simp [ProducerImpl.onPublishInfo, ProducerImpl.takeMessageQueuesRoundRobin, ProducerImpl.send0,
    take, ordered, rank, hcb, hsend]

theorem standard_consumeTask_ordered (huser : ordered rank 2 user = true) :
    ordered rank 2 (ConsumeStandardMessageService.consumeTask user) = true := by
  have hlimit : ordered rank 2 ConsumeMessageService.rateLimiter = true := rfl
  have hacquire : ordered rank 2 RateLimiter.acquire = true := rfl
  have hcredentials : ordered rank 2 getCredentials = true := rfl
  have hsettle : ordered rank 2 (block [ProcessQueueImpl.release,
      either PushConsumerImpl.ack PushConsumerImpl.nack]) = true := rfl
  have hoffset : ordered rank 2 ProcessQueueImpl.committedOffset = true := rfl
  rw [ordered_block] at hsettle
  simp only [ConsumeStandardMessageService.consumeTask, ordered, ordered_block, List.all_cons,
    List.all_nil, hlimit, hacquire, hcredentials, hsettle, hoffset, huser, Bool.and_self]

theorem fifo_consumeTask_ordered (huser : ordered rank 2 user = true) :
    ordered rank 2 (ConsumeFifoMessageService.consumeTask user) = true := by
  have hlimit : ordered rank 2 ConsumeMessageService.rateLimiter = true := rfl
  have hacquire : ordered rank 2 RateLimiter.acquire = true := rfl
  have hsettle : ordered rank 2 (oneOf [block [ProcessQueueImpl.release, PushConsumerImpl.ack],
      SchedulerImpl.schedule, PushConsumerImpl.forwardToDeadLetterQueue]) = true := rfl
  have hrelease : ordered rank 2 ProcessQueueImpl.release = true := rfl
  have hoffset : ordered rank 2 ProcessQueueImpl.committedOffset = true := rfl
  rw [ordered_oneOf] at hsettle
  simp only [ConsumeFifoMessageService.consumeTask, ordered, ordered_block, ordered_oneOf,
    hsettle, List.all_cons, List.all_nil, hlimit, hacquire, hrelease, hoffset, huser,
    Bool.and_self]

theorem dispatch_ordered (huser : ordered rank 2 user = true) :
    ordered rank 0 (ConsumeMessageService.dispatch user) = true := by
  have hstandard := standard_consumeTask_ordered huser
  have hfifo := fifo_consumeTask_ordered huser
  simp [ConsumeMessageService.dispatch, PushConsumerImpl.iterateProcessQueue,
    ConsumeStandardMessageService.submitConsumeTask, ConsumeFifoMessageService.submitConsumeTask,
    ConsumeFifoMessageService.submitConsumeTask0, ProcessQueueImpl.hasPendingMessages, take,
    ordered, rank, hstandard, hfifo, huser]

theorem receiveMessage_ordered (hr : r ≤ 1) (hpolicy : c.receiveMessagePolicy = .polling → r = 0)
    (huser : ordered rank 2 user = true) : ordered rank r (c.receiveMessage user) = true := by
  have htable : r < 2 := by omega
  have hsign := sign_ordered (r := r) (by omega)
  have hcall := call_ordered (r := r) (by omega)
  have hstore := ordered_mono (Nat.le_trans hr (Nat.le_succ 1)) huser
  cases hcase : c.receiveMessagePolicy with
  | pull =>
    simp [PushConsumerImpl.receiveMessage, PushConsumerImpl.getOrCreateProcessQueue, hcase, take,
      ordered, rank, htable, hsign, hcall, hstore]
  | polling =>
    obtain rfl := hpolicy hcase
    simp [PushConsumerImpl.receiveMessage, PushConsumerImpl.getOrCreateProcessQueue,
      ProcessQueueImpl.receiveMessage, ProcessQueueImpl.popMessage,
      PushConsumerImpl.getFilterExpression, hcase, take, ordered, rank, hsign, hcall]

theorem onAssignment_ordered (hr : r ≤ 1) (hpolicy : c.receiveMessagePolicy = .polling → r = 0)
    (huser : ordered rank 2 user = true) : ordered rank r (c.onAssignment user) = true := by
  have htable : r < 2 := by omega
  have hreceive := receiveMessage_ordered hr hpolicy huser
  simp [PushConsumerImpl.onAssignment, PushConsumerImpl.syncProcessQueue, take, ordered, rank,
    htable, hreceive]

theorem onRoute_ordered (hr : r ≤ 4)
    (hcb : c.messageModel = .broadcasting → ordered rank r cb = true) :
    ordered rank r (c.onRoute cb) = true := by
  cases hcase : c.messageModel with
  | broadcasting => simpa [PushConsumerImpl.onRoute, hcase] using hcb hcase
  | clustering =>
    simp [PushConsumerImpl.onRoute, hcase, setAccessPoint_ordered hr, sign_ordered hr,
      call_ordered hr]

theorem scanAssignments_ordered
    (hc : c.messageModel = .broadcasting → c.receiveMessagePolicy = .pull)
    (huser : ordered rank 2 user = true) : ordered rank 0 (c.scanAssignments user) = true := by
  have hroute : ordered rank 1 (c.onRoute (c.onAssignment user)) = true := by
    apply onRoute_ordered (by omega)
    intro hmodel
    apply onAssignment_ordered (Nat.le_refl 1) _ huser
    intro hpolling
    simp [hc hmodel] at hpolling
  have hget := getRouteFor_ordered (Nat.le_succ 1) hroute
  simp [PushConsumerImpl.scanAssignments, PushConsumerImpl.queryAssignment, ordered, rank, hget]

theorem api_ordered : ∀ code ∈ api, ordered rank 0 code = true := by
  rw [← List.all_eq_true]
  rfl

theorem checkThrottleThenReceive_ordered (huser : ordered rank 2 user = true) :
    ordered rank 0 (AsyncReceiveMessageCallback.checkThrottleThenReceive c user) = true := by
  have hlater : ordered rank 0 AsyncReceiveMessageCallback.receiveMessageLater = true := rfl
  have hreceive := receiveMessage_ordered (c := c) (Nat.zero_le 1) (fun _ => rfl) huser
  simp [AsyncReceiveMessageCallback.checkThrottleThenReceive, ordered, hlater, hreceive]

theorem tasks_ordered (hc : c.messageModel = .broadcasting → c.receiveMessagePolicy = .pull)
    (huser : ordered rank 2 user = true) : ∀ code ∈ tasks c user, ordered rank 0 code = true := by
  have hlow := ordered_mono (Nat.zero_le 2) huser
  have hstandard := ordered_mono (Nat.zero_le 2) (standard_consumeTask_ordered huser)
  have hfifo := ordered_mono (Nat.zero_le 2) (fifo_consumeTask_ordered huser)
  have hsubmit : ordered rank 0 (ConsumeFifoMessageService.submitConsumeTask0 user) = true := by
    simp [ConsumeFifoMessageService.submitConsumeTask0, ordered, hlow, hfifo]
  have hdispatch : ordered rank 0 (ConsumeMessageService.dispatchThread user) = true := by
    simp [ConsumeMessageService.dispatchThread, take, ordered, rank, dispatch_ordered huser]
  simp only [tasks, List.forall_mem_cons]
  exact ⟨rfl, rfl, rfl, rfl, scanAssignments_ordered hc huser,
    checkThrottleThenReceive_ordered huser, rfl, rfl, hsubmit, rfl, rfl, rfl, hdispatch, hstandard,
    hfifo, rfl, rfl, rfl, by simp⟩

theorem callbacks_ordered (huser : ordered rank 2 user = true) :
    ∀ code ∈ callbacks c user, ordered rank 0 code = true := by
  have hlow := ordered_mono (Nat.zero_le 2) huser
  have hassignment := onAssignment_ordered (c := c) (Nat.zero_le 1) (fun _ => rfl) huser
  have hroute := onRoute_ordered (c := c) (Nat.zero_le 4) (fun _ => hassignment)
  have hsync : ordered rank 0 (ProducerImpl.onRoute (take .sync)) = true := rfl
  have hpublish := producer_onRoute_ordered (onPublishInfo_ordered hlow)
  have hready : ordered rank 0 (ClientImpl.onRouteFetched (ClientImpl.onTopicRouteReady
      (oneOf [take .sync, c.onRoute (c.onAssignment user), ProducerImpl.onRoute (take .sync),
        ProducerImpl.onRoute (ProducerImpl.onPublishInfo user)]))) = true := by
    have hcache : ordered rank 0 ClientImpl.updateRouteCache = true := rfl
    have hcurrent : ordered rank 0 current = true := rfl
    have hinflight : ordered rank 0 (take .inflightRouteRequests) = true := rfl
    have hwait : ordered rank 0 (take .sync) = true := rfl
    simp [ClientImpl.onRouteFetched, ClientImpl.onTopicRouteReady, ordered, hcache, hcurrent,
      hinflight, hwait, hroute, hsync, hpublish]
  have hreceive : ordered rank 0 (ProcessQueueImpl.receiveMessage c.receiveMessagePolicy) =
      true := by
    cases c.receiveMessagePolicy <;> rfl
  have hsuccess : ordered rank 0 (AsyncReceiveMessageCallback.onSuccess c user) = true := by
    have hlater : ordered rank 0 AsyncReceiveMessageCallback.receiveMessageLater = true := rfl
    have hcache : ordered rank 0 ProcessQueueImpl.cacheMessages = true := rfl
    have hsignal : ordered rank 0 ConsumeMessageService.signalDispatcher = true := rfl
    simp [AsyncReceiveMessageCallback.onSuccess, ordered, hlater, hcache, hsignal,
      checkThrottleThenReceive_ordered huser]
  have hretry : ordered rank 0 (RetrySendCallback.onCompletion user) = true := by
    simp [RetrySendCallback.onCompletion, ordered, hlow, sendImpl_ordered hlow]
  have horphan : ordered rank 0 (ClientImpl.onMultiplexingResponse skip
      (ProducerImpl.resolveOrphanedTransactionalMessage user)) = true := by
    have hschedule : ordered rank 0 SchedulerImpl.schedule = true := rfl
    have hpoll : ordered rank 0 ClientImpl.multiplexing = true := rfl
    have hend : ordered rank 0 ProducerImpl.endTransaction0 = true := rfl
    simp [ClientImpl.onMultiplexingResponse, ProducerImpl.resolveOrphanedTransactionalMessage,
      ordered, hschedule, hpoll, hend, hlow]
  simp only [callbacks, List.forall_mem_cons]
  exact ⟨rfl, hready, hassignment, hreceive, hsuccess, rfl, rfl, rfl, rfl, rfl, hretry, horphan,
    rfl, rfl, hlow, by simp⟩

theorem client_ordered (hc : c.messageModel = .broadcasting → c.receiveMessagePolicy = .pull)
    (huser : ordered rank 2 user = true) : ordered rank 0 (client c user) = true := by
  have hlow := ordered_mono (Nat.zero_le 2) huser
  have hsend : ordered rank 0 (ProducerImpl.sendAsync user) = true := by
    simp [ProducerImpl.sendAsync, ordered, hlow,
      asyncPublishInfo_ordered (onPublishInfo_ordered hlow)]
  simp only [client, ordered, ordered_oneOf, List.all_eq_true, List.forall_mem_cons,
    List.forall_mem_append]
  exact ⟨hsend, ⟨api_ordered, tasks_ordered hc huser⟩, callbacks_ordered huser⟩

end Ordered

/-- Whoever has something left to do waits, in the end, for a thread that can go on. -/
def NeverStuck (program : Code) : Prop :=
  ∀ (programs : List (List (Op Lock))) (es : List ℕ) (s : List (Thread Lock)) (i : ℕ)
    (th : Thread Lock), (∀ ops ∈ programs, Runs program ops) →
    (machine programs).run es = some s → s[i]? = some th → th.left ≠ [] →
    ∃ j, Relation.ReflTransGen (WaitsFor s) i j ∧ (step s j).isSome

theorem neverStuck_of_ordered {program : Code} (h : ordered rank 0 program = true) :
    NeverStuck program := by
  intro programs es s i th hruns hrun hth hleft
  have hdisciplined : ∀ ops ∈ programs, Disciplined rank [] ops :=
    fun ops hops => disciplined_of_runs (hruns ops hops) h
  exact exists_runnable (disciplined_run hdisciplined hrun) rank_le hth hleft

theorem runs_take (l : Lock) : Runs (take l) [.acquire (l, 0), .release (l, 0)] :=
  .locked 0 .skip

theorem scanAssignments_reads_filter (user : Code) (listenerType : LifeCycle.MessageListenerType) :
    ∃ rest, Runs (PushConsumerImpl.scanAssignments ⟨listenerType, .broadcasting, .polling⟩ user)
      (.acquire (.topicFilterExpressionTable, 0) ::
        .acquire (.topicRouteTable, 0) :: .release (.topicRouteTable, 0) ::
        .acquire (.processQueueTable, 0) :: .release (.processQueueTable, 0) ::
        .acquire (.processQueueTable, 0) :: .release (.processQueueTable, 0) ::
        .acquire (.topicFilterExpressionTable, 0) :: rest) := by
  obtain ⟨call, hcall⟩ := exists_runs ClientManagerImpl.call
  have hpop : Runs ProcessQueueImpl.popMessage _ :=
    .seq (.left .skip) (.seq (runs_take .topicFilterExpressionTable) (.seq hcall .skip))
  have hreceive : Runs (PushConsumerImpl.receiveMessage ⟨listenerType, .broadcasting, .polling⟩
      user) _ := .right (.seq (runs_take .processQueueTable) (.seq (.right hpop) .skip))
  have hassignment : Runs (PushConsumerImpl.onAssignment ⟨listenerType, .broadcasting, .polling⟩
      user) _ := .right (.seq (runs_take .processQueueTable) (.seq (.again hreceive .done) .skip))
  have hroute : Runs (PushConsumerImpl.queryAssignment ⟨listenerType, .broadcasting, .polling⟩
      (PushConsumerImpl.onAssignment ⟨listenerType, .broadcasting, .polling⟩ user)) _ :=
    .seq (runs_take .topicRouteTable) (.seq (.left hassignment) .skip)
  exact ⟨_, .right (.locked 0 (.again hroute .done))⟩

def process (consumers : List PushConsumerImpl) (user : Code) : Code :=
  oneOf (consumers.map fun c => client c user)

theorem scan_stuck {consumers : List PushConsumerImpl} {c : PushConsumerImpl}
    (hc : c ∈ consumers) (hmodel : c.messageModel = .broadcasting)
    (hpolicy : c.receiveMessagePolicy = .polling) (user : Code) :
    ¬ NeverStuck (process consumers user) := by
  intro hnever
  obtain ⟨listenerType, messageModel, policy⟩ := c
  simp only at hmodel hpolicy
  subst hmodel hpolicy
  obtain ⟨rest, hscan⟩ := scanAssignments_reads_filter user listenerType
  have hruns : Runs (client ⟨listenerType, .broadcasting, .polling⟩ user) _ :=
    .again (runs_oneOf (by simp [tasks]) hscan) .done
  rw [List.append_nil] at hruns
  have hprocess : Runs (process consumers user) _ :=
    runs_oneOf (List.mem_map.mpr ⟨_, hc, rfl⟩) hruns
  obtain ⟨j, -, hgo⟩ := hnever [_] (List.replicate 7 0) _ 0 _
    (fun ops hops => List.mem_singleton.mp hops ▸ hprocess) rfl rfl (by simp)
  cases j with
  | zero => simp [step, machine, isHeld] at hgo
  | succ j => simp [step, machine] at hgo

theorem process_never_stuck_iff (consumers : List PushConsumerImpl) {user : Code}
    (huser : ordered rank (rank .processQueueTable) user = true) :
    NeverStuck (process consumers user) ↔
      ∀ c ∈ consumers, c.messageModel = .broadcasting → c.receiveMessagePolicy = .pull := by
  constructor
  · intro hnever c hc hmodel
    cases hpolicy : c.receiveMessagePolicy with
    | pull => rfl
    | polling => exact absurd hnever (scan_stuck hc hmodel hpolicy user)
  · intro hpull
    apply neverStuck_of_ordered
    rw [process, ordered_oneOf, List.all_eq_true, List.forall_mem_map]
    exact fun c hc => client_ordered (hpull c hc) huser

theorem mutexes_never_stuck_iff (consumers : List (PushConsumerImpl × MessageModel)) {user : Code}
    (huser : ordered rank (rank .processQueueTable) user = true) :
    NeverStuck (process (consumers.map fun p => p.1.started.setMessageModel p.2) user) ↔
      ∀ p ∈ consumers, ¬ (p.1.listenerType = .standard ∧ p.1.messageModel = .clustering ∧
        p.2 = .broadcasting) := by
  rw [process_never_stuck_iff _ huser, List.forall_mem_map]
  apply forall₂_congr
  intro p _
  simp only [PushConsumerImpl.setMessageModel, PushConsumerImpl.started]
  by_cases hpolling : p.1.listenerType = .standard ∧ p.1.messageModel = .clustering
  · simp [hpolling]
  · simp only [hpolling, if_false, implies_true, true_iff]
    exact fun h => hpolling ⟨h.1, h.2.1⟩

theorem sending_listener_never_stuck :
    NeverStuck (process [(PushConsumerImpl.mk .standard .clustering .polling).started]
      ProducerImpl.send) := by
  have huser : ordered rank (rank .processQueueTable) ProducerImpl.send = true := rfl
  exact (mutexes_never_stuck_iff
    [(PushConsumerImpl.mk .standard .clustering .polling, .clustering)] huser).mpr (by decide)

end RocketMQClient.Mutexes
