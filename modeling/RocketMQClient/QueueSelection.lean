import RocketMQClient.AsyncSend

/-!
# Choosing a queue from a list that may be empty

A hash modulo the length of the list is written in three places: in the two
`send`s of `ProducerImpl` and in `MessageGroupQueueSelector::select`. Here it is
partial: `none` is a modulus by zero, or the assertion that stands before it. The
selector overloads of `DefaultMQProducer` look up a list, let the selector choose
from it and send to the queue chosen.

The synchronous `send` waits for the call of its callback, which comes from another thread
if an RPC was made. `AwaitSendCallback::onFailure` says that it is completed before it writes
the error code, so a waiter that looks in between takes the failure for a success.
-/

namespace RocketMQClient

def hashedQueue (hash : UInt64) (list : List MQMessageQueue) : Option MQMessageQueue :=
  if list.isEmpty then none else list[hash.toNat % list.length]?

structure MessageGroupQueueSelector where
  messageGroup : String

def MessageGroupQueueSelector.select (selector : MessageGroupQueueSelector)
    (hash : String → UInt64) (mqs : List MQMessageQueue) (_msg : MQMessage) :
    Option MQMessageQueue :=
  hashedQueue (hash selector.messageGroup) mqs

theorem hashedQueue_nil (hash : UInt64) : hashedQueue hash [] = none := rfl

theorem exists_hashedQueue {list : List MQMessageQueue} (hne : list ≠ []) (hash : UInt64) :
    ∃ q, hashedQueue hash list = some q ∧ list[hash.toNat % list.length]? = some q := by
  have hlt : hash.toNat % list.length < list.length := Nat.mod_lt _ (List.length_pos_iff.mpr hne)
  have hentry := List.getElem?_eq_getElem hlt
  exact ⟨_, by rw [hashedQueue, if_neg (mt List.isEmpty_iff.mp hne), hentry], hentry⟩

/-- The answers to the attempts, and whether the waiter looks between the two assignments of
`AwaitSendCallback::onFailure`. -/
structure Awaited extends Attempts where
  wakesEarly : Bool := false

inductive SendEnd
  | returned (result : Except ErrorCode SendResult)
  | crashed
  deriving DecidableEq

def Call.read (early : Bool) : Call → Except ErrorCode SendResult
  | .onSuccess result => .ok result
  | .onFailure ec => if early then .ok {} else .error ec

/-- Some attempt was made by an RPC, so the callback is called by another thread. -/
def Trace.asynchronous (t : Trace) : Bool := t.attempts.any fun q => !q.serviceAddress.isEmpty

namespace Producer
variable (p : Producer)

def awaitSend (env : Awaited) (m : MQMessage) (candidates : List MQMessageQueue) : SendEnd :=
  let t := p.send0Trace env.toAttempts m candidates
  match t.toReported with
  | ⟨call :: _, false⟩ => .returned (call.read (env.wakesEarly && t.asynchronous))
  | _ => .crashed

def selectSync (counter : UInt32) (m : MQMessage) (published listed : Lookup) :
    Option (Except ErrorCode (List MQMessageQueue)) :=
  if !p.running then some (.error .illegalState)
  else match published with
    | .error _ => some (.error .notFound)
    | .ok info =>
      if isBound m then
        match listed with
        | .error ec => some (.error ec)
        | .ok info' =>
          let list := info'.getMessageQueueList p.std
          if list.isEmpty then some (.error .serviceUnavailable)
          else if !m.messageGroup.isEmpty then
            (hashedQueue (p.hash m.messageGroup) list).map fun q => .ok [q]
          else some (match list.find? fun entry => entry.same m.messageQueue with
            | some q => .ok [q]
            | none => .error .serviceUnavailable)
      else
        let candidates := p.roundRobin info counter
        some (if candidates.isEmpty then .error .serviceUnavailable else .ok candidates)

def sendSync (counter : UInt32) (m : MQMessage) (published listed : Lookup) (env : Awaited) :
    Option SendEnd :=
  (p.selectSync counter m published listed).map fun
    | .error ec => .returned (.error ec)
    | .ok candidates => p.awaitSend env m candidates

/-- `DefaultMQProducer::send(msg, selector, arg)`; an exception is an error. -/
def sendSelectedSync (counter : UInt32) (m : MQMessage)
    (select : List MQMessageQueue → MQMessage → Option MQMessageQueue)
    (listed published relisted : Lookup) (env : Awaited) : Option SendEnd :=
  match listed with
  | .error ec => some (.returned (.error ec))
  | .ok info => (select (info.getMessageQueueList p.std) m).bind fun q =>
    p.sendSync counter (m.bindMessageQueue q) published relisted env

theorem selectSync_eq (counter : UInt32) (m : MQMessage) (published listed : Lookup) :
    p.selectSync counter m published listed =
      some (p.syncCandidates counter m published listed) := by
  rw [selectSync.eq_def, syncCandidates.eq_def]
  by_cases hrun : (!p.running) = true
  · rw [if_pos hrun, if_pos hrun]
  rw [if_neg hrun, if_neg hrun]
  cases published with
  | error ec => rfl
  | ok info =>
    by_cases hbound : isBound m = true
    · simp only [hbound, if_true]
      cases listed with
      | error ec => rfl
      | ok info' =>
        by_cases hempty : (info'.getMessageQueueList p.std).isEmpty = true
        · simp [hempty]
        · by_cases hgroup : (!m.messageGroup.isEmpty) = true
          · obtain ⟨q, hq, hentry⟩ := exists_hashedQueue (mt List.isEmpty_iff.mpr hempty)
              (p.hash m.messageGroup)
            simp only [hempty, hgroup, hq, boundQueue, hentry]
            rfl
          · simp only [hempty, hgroup, boundQueue]
            rfl
    · simp only [hbound]
      rfl

end Producer

/-- The choice is defined, and if the list it chooses from is empty, that is reported. -/
def SafelyChosen {α : Type} (result : Option α) (empty : Prop) (reported : α → Prop) : Prop :=
  ∃ r, result = some r ∧ (empty → reported r)

def IsError (r : SendEnd) : Prop := ∃ ec, r = .returned (.error ec)

def AllFail (r : Reported) : Prop := r.calls ≠ [] ∧ ∀ call ∈ r.calls, ∃ ec, call = .onFailure ec

def EmptyPartitions (lookup : Lookup) : Prop := ∃ info, lookup = .ok info ∧ info.partitionList = []

namespace Producer
variable (p : Producer)

def EmptyList (lookup : Lookup) : Prop :=
  ∃ info, lookup = .ok info ∧ info.getMessageQueueList p.std = []

theorem not_emptyList {info : TopicPublishInfo} (h : info.getMessageQueueList p.std ≠ []) :
    ¬ p.EmptyList (.ok info) := by
  rintro ⟨info', hinfo, hnil⟩
  cases hinfo
  exact h hnil

theorem roundRobin_of_empty {info : TopicPublishInfo} (h : info.partitionList = [])
    (counter : UInt32) : p.roundRobin info counter = [] := by
  simp [roundRobin, TopicPublishInfo.takeMessageQueues, TopicPublishInfo.visited, h,
    TopicPublishInfo.takeLoop]

theorem syncCandidates_of_empty (counter : UInt32) {m : MQMessage} {published listed : Lookup}
    (h : if isBound m then p.EmptyList listed else EmptyPartitions published) :
    ∃ ec, p.syncCandidates counter m published listed = .error ec := by
  rw [syncCandidates.eq_def]
  by_cases hrun : (!p.running) = true
  · exact ⟨_, if_pos hrun⟩
  rw [if_neg hrun]
  cases published with
  | error ec => exact ⟨_, rfl⟩
  | ok info =>
    by_cases hbound : isBound m = true
    · rw [if_pos hbound] at h
      obtain ⟨info', rfl, hempty⟩ := h
      simp [hbound, hempty]
    · rw [if_neg hbound] at h
      obtain ⟨info', hinfo, hempty⟩ := h
      cases hinfo
      simp [hbound, p.roundRobin_of_empty hempty]

theorem sendSync_safe (counter : UInt32) (m : MQMessage) (published listed : Lookup)
    (env : Awaited) :
    SafelyChosen (p.sendSync counter m published listed env)
      (if isBound m then p.EmptyList listed else EmptyPartitions published) IsError := by
  rw [SafelyChosen, sendSync, selectSync_eq, Option.map_some]
  cases hc : p.syncCandidates counter m published listed with
  | error ec => exact ⟨.returned (.error ec), rfl, fun _ => ⟨ec, rfl⟩⟩
  | ok candidates =>
    refine ⟨p.awaitSend env m candidates, rfl, fun hempty => ?_⟩
    obtain ⟨ec, hec⟩ := p.syncCandidates_of_empty counter hempty
    rw [hc] at hec
    cases hec

theorem send_safe (counter : UInt32) (m : MQMessage) (published : Lookup) (env : Attempts) :
    SafelyChosen (p.send counter m published env) (EmptyPartitions published) AllFail := by
  refine ⟨_, p.send_eq counter m published env, fun hempty => ?_⟩
  obtain ⟨info, rfl, hinfo⟩ := hempty
  rw [looked, p.roundRobin_of_empty hinfo]
  refine ⟨by simp [Reported.after], fun call hcall => ?_⟩
  rcases List.mem_append.mp hcall with hreported | hlast
  · split_ifs at hreported
    · cases hreported
    · exact ⟨_, List.mem_singleton.mp hreported⟩
  · exact ⟨_, List.mem_singleton.mp hlast⟩

theorem sendSelectedSync_safe_iff (selector : MessageGroupQueueSelector) (counter : UInt32)
    (m : MQMessage) (listed published relisted : Lookup) (env : Awaited) :
    SafelyChosen (p.sendSelectedSync counter m (selector.select p.hash) listed published relisted
        env) (p.EmptyList listed) IsError ↔
      ∀ info, listed = .ok info → info.getMessageQueueList p.std ≠ [] := by
  cases listed with
  | error ec =>
    apply iff_of_true ⟨.returned (.error ec), rfl, fun _ => ⟨ec, rfl⟩⟩
    intro info hinfo
    cases hinfo
  | ok info =>
    have hempty_iff : (∀ info', (.ok info : Lookup) = .ok info' →
        info'.getMessageQueueList p.std ≠ []) ↔ info.getMessageQueueList p.std ≠ [] := by simp
    rw [hempty_iff]
    constructor
    · rintro ⟨r, hr, -⟩ hnil
      simp [sendSelectedSync, MessageGroupQueueSelector.select, hnil, hashedQueue_nil] at hr
    · intro hne
      obtain ⟨q, hq, -⟩ := exists_hashedQueue hne (p.hash selector.messageGroup)
      obtain ⟨r, hr, -⟩ := p.sendSync_safe counter (m.bindMessageQueue q) published relisted env
      refine ⟨r, ?_, fun hempty => absurd hempty (p.not_emptyList hne)⟩
      simp [sendSelectedSync, MessageGroupQueueSelector.select, hq, hr]

theorem sendSelected_safe_iff (selector : MessageGroupQueueSelector) (counter : UInt32)
    (m : MQMessage) (listed published : Lookup) (env : Attempts) :
    SafelyChosen (p.sendSelected counter m (selector.select p.hash) listed published env)
        (p.EmptyList listed) AllFail ↔
      ∃ info, listed = .ok info ∧ info.getMessageQueueList p.std ≠ [] := by
  cases listed with
  | error ec =>
    apply iff_of_false
    · rintro ⟨r, hr, -⟩
      simp [sendSelected, MessageGroupQueueSelector.select, hashedQueue_nil] at hr
    · rintro ⟨info, hinfo, -⟩
      cases hinfo
  | ok info =>
    constructor
    · rintro ⟨r, hr, -⟩
      refine ⟨info, rfl, fun hnil => ?_⟩
      simp [sendSelected, MessageGroupQueueSelector.select, hnil, hashedQueue_nil] at hr
    · rintro ⟨info', hinfo, hne⟩
      cases hinfo
      obtain ⟨q, hq, -⟩ := exists_hashedQueue hne (p.hash selector.messageGroup)
      obtain ⟨r, hr, -⟩ := p.send_safe counter (m.bindMessageQueue q) published env
      refine ⟨r, ?_, fun hempty => absurd hempty (p.not_emptyList hne)⟩
      simp [sendSelected, MessageGroupQueueSelector.select, hq, hr, hne]

/-- Both `send`s of the producer never take a modulus by zero, and report an empty list. The
selector overloads do so exactly if the list that they look up is not empty, and the
synchronous one also if the lookup fails. -/
theorem safelyChosen_iff (selector : MessageGroupQueueSelector) (counter : UInt32) (m : MQMessage)
    (listed published relisted : Lookup) (env : Awaited) :
    SafelyChosen (p.sendSync counter m published relisted env)
      (if isBound m then p.EmptyList relisted else EmptyPartitions published) IsError ∧
    SafelyChosen (p.send counter m published env.toAttempts) (EmptyPartitions published) AllFail ∧
    (SafelyChosen (p.sendSelectedSync counter m (selector.select p.hash) listed published relisted
        env) (p.EmptyList listed) IsError ↔
      ∀ info, listed = .ok info → info.getMessageQueueList p.std ≠ []) ∧
    (SafelyChosen (p.sendSelected counter m (selector.select p.hash) listed published
        env.toAttempts) (p.EmptyList listed) AllFail ↔
      ∃ info, listed = .ok info ∧ info.getMessageQueueList p.std ≠ []) :=
  ⟨p.sendSync_safe counter m published relisted env, p.send_safe counter m published env.toAttempts,
    p.sendSelectedSync_safe_iff selector counter m listed published relisted env,
    p.sendSelected_safe_iff selector counter m listed published env.toAttempts⟩

theorem selector_on_empty_list :
    ∃ (p : Producer) (env : Awaited),
      (TopicPublishInfo.getMessageQueueList { topic := "abc" } p.std) = [] ∧
      p.sendSelectedSync 0 {} (MessageGroupQueueSelector.select ⟨"g"⟩ p.hash)
        (.ok { topic := "abc" }) (.ok { topic := "abc" }) (.ok { topic := "abc" }) env = none ∧
      ¬ SafelyChosen (p.sendSelectedSync 0 {} (MessageGroupQueueSelector.select ⟨"g"⟩ p.hash)
        (.ok { topic := "abc" }) (.ok { topic := "abc" }) (.ok { topic := "abc" }) env)
        (p.EmptyList (.ok { topic := "abc" })) IsError ∧
      p.sendSelected 0 {} (MessageGroupQueueSelector.select ⟨"g"⟩ p.hash)
        (.ok { topic := "abc" }) (.ok { topic := "abc" }) env.toAttempts = none ∧
      ¬ SafelyChosen (p.sendSelected 0 {} (MessageGroupQueueSelector.select ⟨"g"⟩ p.hash)
        (.ok { topic := "abc" }) (.ok { topic := "abc" }) env.toAttempts)
        (p.EmptyList (.ok { topic := "abc" })) AllFail := by
  refine ⟨{ hash := fun _ => 0 },
    { answering true with },
    rfl, rfl, ?_, rfl, ?_⟩
  · rintro ⟨r, hr, -⟩
    cases hr
  · rintro ⟨r, hr, -⟩
    cases hr

end Producer
end RocketMQClient
