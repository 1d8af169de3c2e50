import RocketMQClient.Transactions
import RocketMQClient.Library.EventMachine
import RocketMQClient.Library.Pending

/-!
# The multiplexing call

A broker reaches its clients through a long poll: a client calls `MultiplexingCall` with a
generic polling request, and the response is either nothing but the end of the poll or a
command. The client carries the command out and calls again, with its reply to the command
or with a new polling request. When the call fails, it calls again three seconds later.

A producer that is asked for an orphaned transaction waits for `EndTransaction` before it
polls again; `ending` lists the callbacks that wait, and some may wait for ever. A message that
fails the assertion of `wrapMessage` ends the process, as does a missing credentials provider
when a transaction is ended, and the step is undefined.

`multiplexing` is private and only called by the callback of such a call and by the timer that
it sets. So the machine begins with polls that are open, and those of the program are none.
With the manager the exchange stops: its timers are dropped, and so are callbacks that come
later.
-/

namespace RocketMQClient.Multiplexing
open EventMachine EventMachine.Machine Pending
open BrokerEndpoint (Decoder)
open RpcAnswers (InvocationContext)

inductive GroupType
  | publisher
  | subscriber
  deriving DecidableEq, Repr

structure ClientResourceBundle where
  topics : List String := []
  groupType : GroupType := .publisher

structure GenericPollingRequest where
  clientId : String
  topics : List Resource
  producerGroup : Option Resource := none
  consumerGroup : Option Resource := none
  deriving DecidableEq, Repr

inductive MultiplexingRequest
  | polling (request : GenericPollingRequest)
  | printThreadStack (code : Code) (stackTrace : String)
  | verifyMessageConsumption (code : Code) (message : String)
  deriving DecidableEq, Repr

inductive MultiplexingResponse
  | polling
  | printThreadStack
  | verifyMessageConsumption (message : rmq.Message)
  | resolveOrphanedTransaction (message : rmq.Message) (transactionId : String)
  | notSet

structure Client where
  clientId : String := ""
  resourceNamespace : String := ""
  groupName : String := ""
  resourceBundle : ClientResourceBundle := {}
  decoder : Decoder
  checker : Option (MQMessageExt → TransactionState) := none
  credentialsProvider : Bool := false

namespace Client
variable (c : Client)

def resource (name : String) : Resource :=
  { resourceNamespace := c.resourceNamespace, name := name }

def fillGenericPollingRequest : MultiplexingRequest :=
  let request : GenericPollingRequest :=
    { clientId := c.clientId, topics := c.resourceBundle.topics.map c.resource }
  match c.resourceBundle.groupType with
  | .publisher => .polling { request with producerGroup := some (c.resource c.groupName) }
  | .subscriber => .polling { request with consumerGroup := some (c.resource c.groupName) }

def verifyMessageConsumption (_ : MQMessageExt) : String := "Unsupported"

/-- The call of `EndTransaction`, if there is one; without a credentials provider it ends the
process. -/
def resolveOrphanedTransactionalMessage (transactionId : String) (message : MQMessageExt) :
    Option (Option EndTransactionCall) :=
  match c.checker with
  | none => some none
  | some check =>
    if c.credentialsProvider then
      some (some (Producer.endTransaction0 (MessageAccessor.targetEndpoint message)
        message.getMsgId transactionId (check message)))
    else none

inductive Action
  | call (request : MultiplexingRequest)
  | endTransaction (call : EndTransactionCall)
  | later

def onMultiplexingResponse (ctx : InvocationContext MultiplexingResponse) : Option Action :=
  if ctx.status ≠ .ok then some .later
  else match ctx.response with
    | .printThreadStack => some (.call (.printThreadStack .unimplemented
        "Print thread stack trace is not supported by C++ SDK"))
    | .verifyMessageConsumption data =>
      match c.decoder.wrap "" data with
      | .aborted => none
      | .rejected => some (.call (.verifyMessageConsumption .invalidArgument
          "Message to verify is corrupted"))
      | .accepted message =>
        some (.call (.verifyMessageConsumption .ok (verifyMessageConsumption message)))
    | .resolveOrphanedTransaction orphan transactionId =>
      match c.decoder.wrap "" orphan with
      | .aborted => none
      | .rejected => some (.call c.fillGenericPollingRequest)
      | .accepted message =>
        let message := MessageAccessor.setTargetEndpoint message ctx.remoteAddress
        (c.resolveOrphanedTransactionalMessage transactionId message).map fun call =>
          match call with
          | some call => .endTransaction call
          | none => .call c.fillGenericPollingRequest
    | .polling => some (.call c.fillGenericPollingRequest)
    | .notSet => some (.call c.fillGenericPollingRequest)

end Client

/-- `sent`, `answered` and `ended` are histories: the calls made, the completed calls with their
contexts, and the calls of `EndTransaction`. `dropped` are the polls that ended with the
manager. -/
structure State where
  calls : List (String × MultiplexingRequest) := []
  timers : List String := []
  ending : List String := []
  stopped : Bool := false
  dropped : List String := []
  sent : List (String × MultiplexingRequest) := []
  answered : List (InvocationContext MultiplexingResponse) := []
  ended : List EndTransactionCall := []

inductive Event
  | completed (i : ℕ) (status : Code) (response : MultiplexingResponse)
  | timer (i : ℕ)
  | endTransactionReturned (i : ℕ)
  | shutdown

namespace State

def call (s : State) (target : String) (request : MultiplexingRequest) : State :=
  { s with calls := s.calls ++ [(target, request)], sent := s.sent ++ [(target, request)] }

def act (s : State) (remoteAddress : String) : Client.Action → State
  | .call request => s.call remoteAddress request
  | .endTransaction call =>
    { s with ending := s.ending ++ [remoteAddress], ended := s.ended ++ [call] }
  | .later => { s with timers := s.timers ++ [remoteAddress] }

def shutdown (s : State) : State :=
  { s with stopped := true, timers := [], dropped := s.dropped ++ s.timers }

end State

def step (c : Client) (s : State) : Event → Option State
  | .completed i status response =>
    (pick s.calls i).bind fun p =>
      if s.stopped then some { s with calls := p.2, dropped := s.dropped ++ [p.1.1] }
      else
        let ctx : InvocationContext MultiplexingResponse :=
          { remoteAddress := p.1.1, status := status, response := response }
        (c.onMultiplexingResponse ctx).map fun action =>
          { s with calls := p.2, answered := s.answered ++ [ctx] }.act p.1.1 action
  | .timer i =>
    (pick s.timers i).map fun p =>
      { s with timers := p.2 }.call p.1 c.fillGenericPollingRequest
  | .endTransactionReturned i =>
    -- the client has no manager any more once that is shut down
    if s.stopped then none
    else (pick s.ending i).map fun p =>
      { s with ending := p.2 }.call p.1 c.fillGenericPollingRequest
  | .shutdown => some s.shutdown

def machine (c : Client) (polls : List String) : Machine State Event where
  init := { calls := polls.map fun target => (target, c.fillGenericPollingRequest) }
  step := step c

def alive (s : State) (target : String) : ℕ :=
  (s.calls.map Prod.fst ++ s.timers ++ s.ending).count target

def MultiplexingRequest.isPolling : MultiplexingRequest → Bool
  | .polling _ => true
  | _ => false

namespace Client
variable (c : Client) (ctx : InvocationContext MultiplexingResponse)

def dueReply : Option (String × MultiplexingRequest) :=
  if ctx.status ≠ .ok then none
  else match ctx.response with
    | .printThreadStack => some (ctx.remoteAddress, .printThreadStack .unimplemented
        "Print thread stack trace is not supported by C++ SDK")
    | .verifyMessageConsumption data =>
      match c.decoder.wrap "" data with
      | .rejected => some (ctx.remoteAddress, .verifyMessageConsumption .invalidArgument
          "Message to verify is corrupted")
      | .accepted _ => some (ctx.remoteAddress, .verifyMessageConsumption .ok "Unsupported")
      | .aborted => none
    | _ => none

def dueEnd : Option EndTransactionCall :=
  if ctx.status ≠ .ok then none
  else match ctx.response, c.checker with
    | .resolveOrphanedTransaction orphan transactionId, some check =>
      match c.decoder.wrap "" orphan with
      | .accepted message => some
          { targetHost := ctx.remoteAddress
            request :=
              { messageId := message.getMsgId
                transactionId := transactionId
                resolution :=
                  check (MessageAccessor.setTargetEndpoint message ctx.remoteAddress) } }
      | _ => none
    | _, _ => none

theorem isPolling_fillGenericPollingRequest : c.fillGenericPollingRequest.isPolling = true := by
  unfold fillGenericPollingRequest
  cases c.resourceBundle.groupType <;> rfl

inductive Owes : Action → Prop
  | reply {request : MultiplexingRequest}
      (hreply : c.dueReply ctx = some (ctx.remoteAddress, request)) (hend : c.dueEnd ctx = none)
      (hpolling : request.isPolling = false) : Owes (.call request)
  | poll (hreply : c.dueReply ctx = none) (hend : c.dueEnd ctx = none) :
      Owes (.call c.fillGenericPollingRequest)
  | endTransaction {call : EndTransactionCall} (hreply : c.dueReply ctx = none)
      (hend : c.dueEnd ctx = some call) : Owes (.endTransaction call)
  | later (hreply : c.dueReply ctx = none) (hend : c.dueEnd ctx = none) : Owes .later

variable {c ctx}

theorem owes_of_onMultiplexingResponse {action : Action}
    (h : c.onMultiplexingResponse ctx = some action) : c.Owes ctx action := by
  unfold onMultiplexingResponse at h
  by_cases hstatus : ctx.status = .ok
  · cases hresponse : ctx.response with
    | polling =>
      simp only [hstatus, hresponse, ne_eq, not_true_eq_false, if_false, Option.some.injEq] at h
      subst h
      exact .poll (by simp [dueReply, hresponse]) (by simp [dueEnd, hresponse])
    | notSet =>
      simp only [hstatus, hresponse, ne_eq, not_true_eq_false, if_false, Option.some.injEq] at h
      subst h
      exact .poll (by simp [dueReply, hresponse]) (by simp [dueEnd, hresponse])
    | printThreadStack =>
      simp only [hstatus, hresponse, ne_eq, not_true_eq_false, if_false, Option.some.injEq] at h
      subst h
      exact .reply (by simp [dueReply, hstatus, hresponse]) (by simp [dueEnd, hresponse]) rfl
    | verifyMessageConsumption data =>
      simp only [hstatus, hresponse, ne_eq, not_true_eq_false, if_false] at h
      cases hwrap : c.decoder.wrap "" data with
      | aborted => simp [hwrap] at h
      | rejected =>
        simp only [hwrap, Option.some.injEq] at h
        subst h
        exact .reply (by simp [dueReply, hstatus, hresponse, hwrap])
          (by simp [dueEnd, hresponse]) rfl
      | accepted message =>
        simp only [hwrap, Option.some.injEq] at h
        subst h
        exact .reply (by simp [dueReply, hstatus, hresponse, hwrap, verifyMessageConsumption])
          (by simp [dueEnd, hresponse]) rfl
    | resolveOrphanedTransaction orphan transactionId =>
      simp only [hstatus, hresponse, ne_eq, not_true_eq_false, if_false] at h
      cases hwrap : c.decoder.wrap "" orphan with
      | aborted => simp [hwrap] at h
      | rejected =>
        simp only [hwrap, Option.some.injEq] at h
        subst h
        refine .poll (by simp [dueReply, hresponse]) ?_
        cases hchecker : c.checker <;> simp [dueEnd, hresponse, hwrap, hchecker]
      | accepted message =>
        cases hchecker : c.checker with
        | none =>
          simp only [hwrap, resolveOrphanedTransactionalMessage, hchecker, Option.map_some,
            Option.some.injEq] at h
          subst h
          exact .poll (by simp [dueReply, hresponse]) (by simp [dueEnd, hresponse, hchecker])
        | some check =>
          simp only [hwrap, resolveOrphanedTransactionalMessage, hchecker] at h
          split_ifs at h
          · simp only [Option.map_some, Option.some.injEq] at h
            subst h
            refine .endTransaction (by simp [dueReply, hresponse]) ?_
            simp only [dueEnd, hstatus, hresponse, hchecker, hwrap, ne_eq, not_true_eq_false,
              if_false]
            rfl
          · cases h
  · simp only [ne_eq, hstatus, not_false_eq_true, if_true, Option.some.injEq] at h
    subst h
    exact .later (by simp [dueReply, hstatus]) (by simp [dueEnd, hstatus])

end Client

/-- Every poll goes on exactly once or has ended with the manager, every command is answered to
the broker that gave it, in order, and the client sends nothing else. -/
structure Conversation (c : Client) (polls : List String) (s : State) : Prop where
  polls : ∀ target, alive s target + s.dropped.count target = polls.count target
  replies : s.sent.filter (fun p => !p.2.isPolling) = s.answered.filterMap c.dueReply
  polling : ∀ p ∈ s.sent, p.2.isPolling = true → p.2 = c.fillGenericPollingRequest
  ended : s.ended = s.answered.filterMap c.dueEnd

variable {c : Client} {polls : List String} {s t : State} {e : Event}

theorem alive_eq (s : State) (target : String) : alive s target =
    (s.calls.map Prod.fst).count target + s.timers.count target + s.ending.count target := by
  simp only [alive, List.count_append]

theorem alive_call (s : State) (host : String) (request : MultiplexingRequest) (target : String) :
    alive (s.call host request) target = alive s target + [host].count target := by
  simp only [alive_eq, State.call, List.map_append, List.count_append, List.map_cons,
    List.map_nil]
  omega

theorem Conversation.poll (h : Conversation c polls s) (host : String) {u : State}
    (halive : ∀ target, alive u target + [host].count target = alive s target)
    (hdropped : u.dropped = s.dropped) (hsent : u.sent = s.sent)
    (hanswered : u.answered = s.answered) (hended : u.ended = s.ended) :
    Conversation c polls (u.call host c.fillGenericPollingRequest) where
  polls := by
    intro target
    rw [alive_call, halive, ← h.polls]
    exact congrArg _ (congrArg _ hdropped)
  replies := by
    simp only [State.call, hsent, hanswered, List.filter_append, h.replies]
    simp [c.isPolling_fillGenericPollingRequest]
  polling := by
    intro p hp hpolling
    simp only [State.call, hsent, List.mem_append, List.mem_singleton] at hp
    obtain hold | rfl := hp
    · exact h.polling p hold hpolling
    · rfl
  ended := by simp only [State.call, hended, hanswered, h.ended]

theorem alive_act (s : State) (host : String) (action : Client.Action) (target : String) :
    alive (s.act host action) target = alive s target + [host].count target := by
  cases action with
  | call request => exact alive_call s host request target
  | endTransaction call =>
    simp only [alive_eq, State.act, List.count_append]
    omega
  | later =>
    simp only [alive_eq, State.act, List.count_append]
    omega

theorem Conversation.answer (h : Conversation c polls s) {i : ℕ} {host : String}
    {request : MultiplexingRequest} {rest : List (String × MultiplexingRequest)}
    (hpick : pick s.calls i = some ((host, request), rest))
    {ctx : InvocationContext MultiplexingResponse} (hctx : ctx.remoteAddress = host)
    {action : Client.Action} (howes : c.Owes ctx action) :
    Conversation c polls
      ({ s with calls := rest, answered := s.answered ++ [ctx] }.act host action) where
  polls := by
    intro target
    have hcount := count_pick hpick Prod.fst target
    have hdropped : (({ s with calls := rest, answered := s.answered ++ [ctx] } : State).act host
        action).dropped = s.dropped := by cases action <;> rfl
    rw [alive_act, hdropped, ← h.polls target, alive_eq, alive_eq]
    simp only at hcount ⊢
    omega
  replies := by
    cases howes with
    | reply hreply _ hpolling =>
      simp [State.act, State.call, List.filter_append, h.replies, hreply, hctx, hpolling]
    | poll hreply _ =>
      simp [State.act, State.call, List.filter_append, h.replies, hreply,
        c.isPolling_fillGenericPollingRequest]
    | endTransaction hreply _ => simp [State.act, h.replies, hreply]
    | later hreply _ => simp [State.act, h.replies, hreply]
  polling := by
    intro p hp hpolling
    cases howes with
    | reply _ _ hnot =>
      simp only [State.act, State.call, List.mem_append, List.mem_singleton] at hp
      obtain hold | rfl := hp
      · exact h.polling p hold hpolling
      · simp [hnot] at hpolling
    | poll _ _ =>
      simp only [State.act, State.call, List.mem_append, List.mem_singleton] at hp
      obtain hold | rfl := hp
      · exact h.polling p hold hpolling
      · rfl
    | endTransaction _ _ => exact h.polling p hp hpolling
    | later _ _ => exact h.polling p hp hpolling
  ended := by
    cases howes with
    | reply _ hend _ => simp [State.act, State.call, h.ended, hend]
    | poll _ hend => simp [State.act, State.call, h.ended, hend]
    | endTransaction _ hend => simp [State.act, h.ended, hend]
    | later _ hend => simp [State.act, h.ended, hend]

theorem Conversation.drop (h : Conversation c polls s) {i : ℕ} {host : String}
    {request : MultiplexingRequest} {rest : List (String × MultiplexingRequest)}
    (hpick : pick s.calls i = some ((host, request), rest)) :
    Conversation c polls { s with calls := rest, dropped := s.dropped ++ [host] } := by
  refine ⟨fun target => ?_, h.replies, h.polling, h.ended⟩
  have hcount := count_pick hpick Prod.fst target
  rw [← h.polls target, alive_eq, alive_eq]
  simp only [List.count_append] at hcount ⊢
  omega

theorem Conversation.shutdown (h : Conversation c polls s) : Conversation c polls s.shutdown := by
  refine ⟨fun target => ?_, h.replies, h.polling, h.ended⟩
  rw [← h.polls target, alive_eq, alive_eq]
  simp only [State.shutdown, List.count_append, List.count_nil]
  omega

theorem Conversation.step (h : Conversation c polls s) (hs : step c s e = some t) :
    Conversation c polls t := by
  cases e with
  | completed i status response =>
    obtain ⟨⟨⟨host, request⟩, rest⟩, hpick, hnext⟩ := Option.bind_eq_some_iff.mp hs
    simp only at hnext
    split_ifs at hnext
    · cases hnext
      exact h.drop hpick
    · obtain ⟨action, hrespond, rfl⟩ := Option.map_eq_some_iff.mp hnext
      exact h.answer hpick rfl (Client.owes_of_onMultiplexingResponse hrespond)
  | timer i =>
    obtain ⟨⟨host, rest⟩, hpick, rfl⟩ := Option.map_eq_some_iff.mp hs
    refine h.poll host (fun target => ?_) rfl rfl rfl rfl
    have hcount := count_pick hpick id target
    simp only [alive_eq, List.map_id, id] at hcount ⊢
    omega
  | endTransactionReturned i =>
    simp only [Multiplexing.step] at hs
    split_ifs at hs
    obtain ⟨⟨host, rest⟩, hpick, rfl⟩ := Option.map_eq_some_iff.mp hs
    refine h.poll host (fun target => ?_) rfl rfl rfl rfl
    have hcount := count_pick hpick id target
    simp only [alive_eq, List.map_id, id] at hcount ⊢
    omega
  | shutdown =>
    cases hs
    exact h.shutdown

structure Silent (s : State) : Prop where
  calls : s.calls = []
  timers : s.timers = []
  ending : s.ending = []
  sent : s.sent = []
  ended : s.ended = []

theorem Silent.step (h : Silent s) (hs : step c s e = some t) : Silent t := by
  cases e with
  | completed i status response => simp [Multiplexing.step, h.calls, pick] at hs
  | timer i => simp [Multiplexing.step, h.timers, pick] at hs
  | endTransactionReturned i => simp [Multiplexing.step, h.ending, pick] at hs
  | shutdown =>
    cases hs
    exact ⟨h.calls, rfl, h.ending, h.sent, h.ended⟩

/-- The conversation goes on as long as the manager does, but the client does not begin it. -/
theorem conversation_kept (c : Client) (polls : List String) {es : List Event} {s : State}
    (hrun : (machine c polls).run es = some s) :
    Conversation c polls s ∧ (polls = [] → s.sent = [] ∧ s.ended = []) := by
  constructor
  · refine (machine c polls).run_invariant ⟨fun target => ?_, rfl, by simp [machine], rfl⟩
      (fun _ _ _ h hs => h.step hs) hrun
    simp [machine, alive, Function.comp_def]
  · rintro rfl
    have hsilent := (machine c []).run_invariant ⟨rfl, rfl, rfl, rfl, rfl⟩
      (fun _ _ _ h hs => Silent.step h hs) hrun
    exact ⟨hsilent.sent, hsilent.ended⟩

def deafClient : Client := { decoder := BrokerEndpoint.plainDecoder }

theorem refused_command_conversation :
    ∃ s, (machine deafClient ["b:10911"]).run [.completed 0 .ok .printThreadStack,
        .completed 0 .unavailable .notSet, .timer 0] = some s ∧
      s.sent = [("b:10911", .printThreadStack .unimplemented
        "Print thread stack trace is not supported by C++ SDK"),
        ("b:10911", deafClient.fillGenericPollingRequest)] ∧
      s.dropped = [] ∧ Conversation deafClient ["b:10911"] s := by
  obtain ⟨s, hs, hsent, hdropped⟩ : ∃ s, (machine deafClient ["b:10911"]).run
      [.completed 0 .ok .printThreadStack, .completed 0 .unavailable .notSet, .timer 0] = some s ∧
      s.sent = [("b:10911", .printThreadStack .unimplemented
        "Print thread stack trace is not supported by C++ SDK"),
        ("b:10911", deafClient.fillGenericPollingRequest)] ∧ s.dropped = [] := ⟨_, rfl, rfl, rfl⟩
  exact ⟨s, hs, hsent, hdropped, (conversation_kept deafClient ["b:10911"] hs).1⟩

end RocketMQClient.Multiplexing
