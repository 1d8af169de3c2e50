import RocketMQClient.Rebalance
import RocketMQClient.PublishInfo
import RocketMQClient.Library.Updates

/-!
# Assignment scans

`scanAssignments` asks for the assignment of each subscribed topic, and each answer
that lists a queue is passed to `syncProcessQueue` for its topic. A scan is one step
here: the answers come in any order, and nothing happens between them. Other steps
of the consumer happen between scans.

In clustering mode the queues are the readable and addressable partitions of the
answer, in broadcasting mode all partitions of the route. An assertion that fails
and the use of a null route are `none`.

`scanned` records the keys that the answers of the last step list, if that step is a
scan of an active consumer whose answers are all in order.
-/

namespace RocketMQClient

namespace rmq

/-- The open enumeration of a decoded message may hold values that are not named. -/
inductive AddressScheme
  | ipv4
  | ipv6
  | domainName
  | unknown
  deriving DecidableEq, Repr

structure Address where
  host : String := ""
  port : ℤ := 0
  deriving DecidableEq, Repr

structure Endpoints where
  scheme : AddressScheme := .ipv4
  addresses : List Address := []
  deriving DecidableEq, Repr

structure Broker where
  name : String := ""
  id : ℤ := 0
  endpoints : Endpoints := {}
  deriving DecidableEq, Repr

inductive Permission
  | none
  | read
  | write
  | readWrite
  | unknown
  deriving DecidableEq, Repr

structure Partition where
  resourceNamespace : String := ""
  topic : String := ""
  id : ℤ := 0
  permission : Permission := .none
  broker : Option Broker := none
  deriving DecidableEq, Repr

def AddressScheme.text : AddressScheme → String
  | .ipv4 => "ipv4:"
  | .ipv6 => "ipv6:"
  | .domainName => "dns:"
  | .unknown => ""

end rmq

namespace TopicAssignment

def appendAddress (scheme : rmq.AddressScheme) (serviceAddress : String)
    (address : rmq.Address) : String :=
  (if serviceAddress.isEmpty then scheme.text else serviceAddress ++ ",") ++
    address.host ++ ":" ++ toString address.port

def serviceAddress (endpoints : rmq.Endpoints) : String :=
  -- the loop breaks after the first address of a domain name
  let addresses :=
    if endpoints.scheme = .domainName then endpoints.addresses.take 1 else endpoints.addresses
  addresses.foldl (appendAddress endpoints.scheme) ""

def assignmentList : List rmq.Partition → Option (List MQMessageQueue)
  | [] => some []
  | partition :: partitions =>
    if partition.permission ≠ .read ∧ partition.permission ≠ .readWrite then
      assignmentList partitions
    else match partition.broker with
      | none => none
      | some broker =>
        if broker.endpoints.addresses.isEmpty then assignmentList partitions
        else (assignmentList partitions).map fun queues =>
          { topic := partition.topic, brokerName := broker.name, queueId := partition.id
            serviceAddress := serviceAddress broker.endpoints } :: queues

def ofResponse (std : StdSort MQMessageQueue.less) (code : Code)
    (assignments : List rmq.Partition) : Option (List MQMessageQueue) :=
  if code ≠ .ok then some [] else (assignmentList assignments).map std.sort

def ofRoute (std : StdSort MQMessageQueue.less) (partitions : List Partition) :
    List MQMessageQueue :=
  std.sort (partitions.map Partition.asMessageQueue)

end TopicAssignment

namespace AssignmentScan
open EventMachine Pending
open Rebalance (Key receiveMessage dropUnassigned toStart listed)

structure Config where
  consumer : Rebalance.Config
  std : StdSort MQMessageQueue.less

inductive Answer
  | assignments (c : Completion (List rmq.Partition))
  | route (result : Except ErrorCode (List Partition))

structure Answered where
  topic : String
  answer : Answer
  expired : List ℕ := []
  stored : MQMessageQueue → Bool := fun _ => false

structure State where
  topicFilterExpressionTable : List (String × FilterExpression) := []
  consumer : Rebalance.State := {}
  scanned : Option (List Key) := none

inductive Event
  | subscribe (topic : String) (filterExpression : FilterExpression)
  | unsubscribe (topic : String)
  | scanAssignments (answers : List Answered)
  | consume (e : Rebalance.Event)

def queryAssignment (cfg : Config) : Answer → Option (Except ErrorCode (List MQMessageQueue))
  | .assignments c =>
    if cfg.consumer.messageModel = .broadcasting then none
    else match c.result queryAssignmentError with
      | .error ec => some (.error ec)
      | .ok assignments => (TopicAssignment.ofResponse cfg.std c.code assignments).map .ok
  | .route result =>
    if cfg.consumer.messageModel = .broadcasting then
      match result with
      | .error _ => none
      | .ok partitions => some (.ok (TopicAssignment.ofRoute cfg.std partitions))
    else none

def start (cfg : Rebalance.Config) (filterExpression : FilterExpression)
    (stored : MQMessageQueue → Bool) (s : Rebalance.State) (queues : List MQMessageQueue) :
    Rebalance.State :=
  queues.foldl (fun s q => receiveMessage cfg s q filterExpression (stored q)) s

def syncProcessQueue (cfg : Rebalance.Config) (filterExpression : FilterExpression)
    (s : Rebalance.State) (a : Answered) (queues : List MQMessageQueue) : Rebalance.State :=
  start cfg filterExpression a.stored (dropUnassigned s a.topic queues a.expired)
    (toStart s a.topic queues a.expired)

def onAnswer (cfg : Config) (filterExpression : FilterExpression) (s : Rebalance.State)
    (a : Answered) : Option Rebalance.State :=
  (queryAssignment cfg a.answer).map fun
    | .error _ => s
    | .ok queues =>
      if queues.isEmpty then s
      else syncProcessQueue cfg.consumer filterExpression s a queues

def onAnswers (cfg : Config) (table : List (String × FilterExpression)) :
    Rebalance.State → List Answered → Option Rebalance.State
  | s, [] => some s
  | s, a :: answers =>
    (onAnswer cfg ((table.lookup a.topic).getD {}) s a).bind fun t =>
      onAnswers cfg table t answers

def assignment (cfg : Config) (a : Answered) : Option (List MQMessageQueue) :=
  (queryAssignment cfg a.answer).bind Except.toOption

def queues (cfg : Config) (a : Answered) : List MQMessageQueue := (assignment cfg a).getD []

def assigned (cfg : Config) (answers : List Answered) : List Key :=
  answers.flatMap fun a => listed (queues cfg a)

def answeredOk (cfg : Config) (answers : List Answered) : Bool :=
  answers.all fun a => (assignment cfg a).isSome

def subscribe (s : State) (topic : String) (filterExpression : FilterExpression) : State :=
  { s with
    topicFilterExpressionTable :=
      if s.topicFilterExpressionTable.any fun entry => entry.1 = topic then
        s.topicFilterExpressionTable
      else s.topicFilterExpressionTable ++ [(topic, filterExpression)]
    scanned := none }

def unsubscribe (s : State) (topic : String) : State :=
  { s with
    topicFilterExpressionTable :=
      s.topicFilterExpressionTable.filter fun entry => entry.1 ≠ topic
    scanned := none }

def scanAssignments (cfg : Config) (s : State) (answers : List Answered) : Option State :=
  if !s.consumer.active then some { s with scanned := none }
  -- one query for each subscribed topic
  else if (answers.map Answered.topic).Perm (s.topicFilterExpressionTable.map Prod.fst) then
    (onAnswers cfg s.topicFilterExpressionTable s.consumer answers).map fun t =>
      { s with
        consumer := t
        scanned := if answeredOk cfg answers then some (assigned cfg answers) else none }
  else none

def step (cfg : Config) (s : State) : Event → Option State
  | .subscribe topic filterExpression => some (subscribe s topic filterExpression)
  | .unsubscribe topic => some (unsubscribe s topic)
  | .scanAssignments answers => scanAssignments cfg s answers
  | .consume e => (Rebalance.step cfg.consumer s.consumer e).map fun t =>
      { s with consumer := t, scanned := none }

def machine (cfg : Config) : Machine State Event where
  init := {}
  step := step cfg

theorem start_reaches (cfg : Rebalance.Config) (f : FilterExpression)
    (stored : MQMessageQueue → Bool) (s : Rebalance.State) (qs : List MQMessageQueue) :
    (Rebalance.machine cfg).Reaches (s.add (.starting qs f)) (start cfg f stored s qs) := by
  induction qs generalizing s with
  | nil =>
    refine .head _ (e := .resume s.pending.length .run false) ?_ (.refl _ s)
    simp [Rebalance.machine, Rebalance.step, Rebalance.State.add, pick_concat, Rebalance.resume]
  | cons q qs ih =>
    refine .head _ (e := .resume s.pending.length .run (stored q)) ?_
      (ih (receiveMessage cfg s q f (stored q)))
    simp [Rebalance.machine, Rebalance.step, Rebalance.State.add, pick_concat, Rebalance.resume]

theorem syncProcessQueue_reaches (cfg : Rebalance.Config) (f : FilterExpression)
    (s : Rebalance.State) (a : Answered) (qs : List MQMessageQueue) :
    (Rebalance.machine cfg).Reaches s (syncProcessQueue cfg f s a qs) :=
  .head _ (e := .syncProcessQueue a.topic qs f a.expired) rfl (start_reaches cfg f a.stored _ _)

theorem onAnswer_reaches {cfg : Config} {f : FilterExpression} {s t : Rebalance.State}
    {a : Answered} (h : onAnswer cfg f s a = some t) :
    (Rebalance.machine cfg.consumer).Reaches s t := by
  obtain ⟨result, -, rfl⟩ := Option.map_eq_some_iff.mp h
  cases result with
  | error ec => exact .refl _ s
  | ok qs =>
    by_cases hnone : qs.isEmpty = true
    · simp only [hnone, if_true]
      exact .refl _ s
    · simp only [hnone]
      exact syncProcessQueue_reaches cfg.consumer f s a qs

theorem onAnswers_reaches {cfg : Config} {table : List (String × FilterExpression)}
    {s t : Rebalance.State} {answers : List Answered}
    (h : onAnswers cfg table s answers = some t) :
    (Rebalance.machine cfg.consumer).Reaches s t := by
  induction answers generalizing s with
  | nil =>
    cases h
    exact .refl _ _
  | cons a answers ih =>
    obtain ⟨u, hu, hrest⟩ := Option.bind_eq_some_iff.mp h
    exact (onAnswer_reaches hu).trans _ (ih hrest)

theorem scanAssignments_cases {cfg : Config} {s t : State} {answers : List Answered}
    (h : scanAssignments cfg s answers = some t) :
    (s.consumer.active = false ∧ t = { s with scanned := none }) ∨
    s.consumer.active = true ∧
      ∃ u, onAnswers cfg s.topicFilterExpressionTable s.consumer answers = some u ∧
        t = { s with
          consumer := u
          scanned := if answeredOk cfg answers then some (assigned cfg answers) else none } := by
  rw [scanAssignments] at h
  by_cases hactive : s.consumer.active = true
  · rw [if_neg (by simp [hactive])] at h
    by_cases hperm : (answers.map Answered.topic).Perm
        (s.topicFilterExpressionTable.map Prod.fst)
    · rw [if_pos hperm] at h
      obtain ⟨u, hu, rfl⟩ := Option.map_eq_some_iff.mp h
      exact Or.inr ⟨hactive, u, hu, rfl⟩
    · rw [if_neg hperm] at h
      cases h
  · rw [if_pos (by simp [hactive])] at h
    cases h
    exact Or.inl ⟨by simpa using hactive, rfl⟩

theorem step_reaches {cfg : Config} {s t : State} {e : Event} (h : step cfg s e = some t) :
    (Rebalance.machine cfg.consumer).Reaches s.consumer t.consumer := by
  cases e with
  | subscribe topic f =>
    cases h
    exact .refl _ _
  | unsubscribe topic =>
    cases h
    exact .refl _ _
  | scanAssignments answers =>
    rcases scanAssignments_cases h with ⟨-, rfl⟩ | ⟨-, u, hu, rfl⟩
    · exact .refl _ _
    · exact onAnswers_reaches hu
  | consume e =>
    obtain ⟨u, hu, rfl⟩ := Option.map_eq_some_iff.mp h
    exact .head _ hu (.refl _ u)

/-- Scans add no behaviour to the consumer: its states under scans are states of its own
runs, and so its table has each key once. -/
theorem consumer_reachable {cfg : Config} {es : List Event} {s : State}
    (h : (machine cfg).run es = some s) :
    (Rebalance.machine cfg.consumer).Reaches {} s.consumer ∧
      Rebalance.KeysDistinct s.consumer := by
  have hreaches : (Rebalance.machine cfg.consumer).Reaches {} s.consumer :=
    (machine cfg).run_invariant
      (I := fun s => (Rebalance.machine cfg.consumer).Reaches {} s.consumer) (.refl _ _)
      (fun _ _ _ hs hstep => hs.trans _ (step_reaches hstep)) h
  obtain ⟨es', hrun⟩ := hreaches
  have hdistinct : Rebalance.KeysDistinct s.consumer :=
    (Rebalance.machine cfg.consumer).run_invariant (I := Rebalance.KeysDistinct) List.nodup_nil
      (fun _ _ _ hs hstep => Rebalance.step_keysDistinct hs hstep) hrun
  exact ⟨⟨es', hrun⟩, hdistinct⟩

def keys (s : Rebalance.State) : List Key := s.table.map fun r => r.messageQueue.key

def Exact (s : State) : Prop := ∀ ks ∈ s.scanned, ∀ k, k ∈ keys s.consumer ↔ k ∈ ks

def Lists (cfg : Config) (k : Key) (a : Answered) : Prop := k ∈ listed (queues cfg a)

def Replaces (cfg : Config) (k : Key) (a : Answered) : Prop :=
  queues cfg a ≠ [] ∧ a.topic = k.1

/-- Every queue in the table is listed or replaced, and every queue that is listed has an
answer that lists it and is not followed by one that replaces it. -/
structure Settles (cfg : Config) (s : Rebalance.State) (answers : List Answered) : Prop where
  touched : ∀ k ∈ keys s, ∃ a ∈ answers, Lists cfg k a ∨ Replaces cfg k a
  lasts : ∀ k ∈ assigned cfg answers, Updates.Lasts (Lists cfg k) (Replaces cfg k) answers

def ScanSettles (cfg : Config) (s : State) : Event → Prop
  | .scanAssignments answers => s.consumer.active = true → answeredOk cfg answers = true →
      Settles cfg s.consumer answers
  | _ => True

theorem receiveMessage_keys {s : Rebalance.State} (hactive : s.active = true)
    (cfg : Rebalance.Config) (q : MQMessageQueue) (f : FilterExpression) (stored : Bool) :
    (receiveMessage cfg s q f stored).active = true ∧
      ∀ k, k ∈ keys (receiveMessage cfg s q f stored) ↔ k ∈ keys s ∨ k = q.key := by
  obtain ⟨t, queue, hlocated, hcases⟩ := Rebalance.receiveMessage_cases hactive cfg q f stored
  have ht : t.active = true ∧ ∀ k, k ∈ keys t ↔ k ∈ keys s ∨ k = q.key := by
    refine ⟨hlocated.active.trans hactive, fun k => ?_⟩
    rcases hlocated.table with ⟨htable, hmem⟩ | ⟨htable, hq, -⟩
    · have hkey : q.key ∈ keys s := List.mem_map.mpr ⟨queue, hmem, hlocated.key⟩
      rw [keys, htable]
      exact (or_iff_left_of_imp fun heq => heq ▸ hkey).symm
    · simp [keys, htable, hq]
  rcases hcases with ⟨-, heq⟩ | heq | heq
  · rwa [heq]
  · rw [heq]
    exact ht
  · rw [heq]
    exact ht

theorem start_keys {s : Rebalance.State} (hactive : s.active = true) (cfg : Rebalance.Config)
    (f : FilterExpression) (stored : MQMessageQueue → Bool) (qs : List MQMessageQueue) :
    (start cfg f stored s qs).active = true ∧
      ∀ k, k ∈ keys (start cfg f stored s qs) ↔ k ∈ keys s ∨ k ∈ listed qs := by
  induction qs generalizing s with
  | nil => exact ⟨hactive, fun k => by simp [start, listed]⟩
  | cons q qs ih =>
    obtain ⟨hactive', hkeys⟩ := receiveMessage_keys hactive cfg q f (stored q)
    obtain ⟨hlast, hrest⟩ := ih hactive'
    refine ⟨hlast, fun k => (hrest k).trans ?_⟩
    rw [hkeys, or_assoc]
    simp [listed]

theorem mem_dropUnassigned {s : Rebalance.State} {topic : String} {qs : List MQMessageQueue}
    {expired : List ℕ} {k : Key} : k ∈ keys (dropUnassigned s topic qs expired) ↔
      ∃ r ∈ s.table, r.messageQueue.key = k ∧ (k.1 ≠ topic ∨ k ∈ listed qs ∧ r.id ∉ expired) := by
  simp only [keys, dropUnassigned, List.mem_map, List.mem_filter, Rebalance.kept_iff]
  constructor
  · rintro ⟨r, ⟨hr, hkept⟩, rfl⟩
    exact ⟨r, hr, rfl, hkept⟩
  · rintro ⟨r, hr, rfl, hkept⟩
    exact ⟨r, ⟨hr, hkept⟩, rfl⟩

theorem mem_toStart {s : Rebalance.State} {topic : String} {qs : List MQMessageQueue}
    {expired : List ℕ} {k : Key} (hk : k ∈ listed qs)
    (hnew : k ∉ keys (dropUnassigned s topic qs expired)) :
    k ∈ listed (toStart s topic qs expired) := by
  obtain ⟨q, hq, rfl⟩ := List.mem_map.mp hk
  refine List.mem_map.mpr ⟨q, List.mem_filter.mpr ⟨hq, ?_⟩, rfl⟩
  rw [List.all_eq_true]
  intro r hr
  obtain ⟨hmem, hkept⟩ := List.mem_filter.mp hr
  rw [Bool.and_eq_true] at hkept
  rw [Bool.not_eq_true', Bool.eq_false_iff, ne_eq, MQMessageQueue.same_iff]
  intro hkey
  refine hnew (List.mem_map.mpr ⟨r, List.mem_filter.mpr ⟨hmem, hkept.2⟩, hkey⟩)

theorem syncProcessQueue_keys {s : Rebalance.State} (hactive : s.active = true)
    (cfg : Rebalance.Config) (f : FilterExpression) (a : Answered) (qs : List MQMessageQueue) :
    (syncProcessQueue cfg f s a qs).active = true ∧
      ∀ k, k ∈ keys (syncProcessQueue cfg f s a qs) ↔
        k ∈ listed qs ∨ k ∈ keys s ∧ a.topic ≠ k.1 := by
  have hdrop : (dropUnassigned s a.topic qs a.expired).active = true := hactive
  obtain ⟨hlast, hkeys⟩ := start_keys hdrop cfg f a.stored (toStart s a.topic qs a.expired)
  refine ⟨hlast, fun k => (hkeys k).trans ?_⟩
  constructor
  · rintro (hkept | hstarted)
    · obtain ⟨r, hr, hkey, hother | ⟨hlisted, -⟩⟩ := mem_dropUnassigned.mp hkept
      · exact Or.inr ⟨List.mem_map.mpr ⟨r, hr, hkey⟩, hother.symm⟩
      · exact Or.inl hlisted
    · obtain ⟨q, hq, hkey⟩ := List.mem_map.mp hstarted
      exact Or.inl (List.mem_map.mpr ⟨q, List.mem_of_mem_filter hq, hkey⟩)
  · rintro (hlisted | ⟨hk, hother⟩)
    · by_cases hkept : k ∈ keys (dropUnassigned s a.topic qs a.expired)
      · exact Or.inl hkept
      · exact Or.inr (mem_toStart hlisted hkept)
    · obtain ⟨r, hr, hkey⟩ := List.mem_map.mp hk
      exact Or.inl (mem_dropUnassigned.mpr ⟨r, hr, hkey, Or.inl hother.symm⟩)

theorem onAnswer_eq {cfg : Config} {f : FilterExpression} {s t : Rebalance.State} {a : Answered}
    (h : onAnswer cfg f s a = some t) : t =
      if queues cfg a = [] then s
      else syncProcessQueue cfg.consumer f s a (queues cfg a) := by
  obtain ⟨result, hresult, rfl⟩ := Option.map_eq_some_iff.mp h
  cases result with
  | error ec => simp [queues, assignment, hresult, Except.toOption]
  | ok qs => simp [queues, assignment, hresult, Except.toOption]

theorem onAnswer_keys {cfg : Config} {f : FilterExpression} {s t : Rebalance.State}
    {a : Answered} (hactive : s.active = true) (h : onAnswer cfg f s a = some t) :
    t.active = true ∧
      ∀ k, k ∈ keys t ↔ Lists cfg k a ∨ k ∈ keys s ∧ ¬ Replaces cfg k a := by
  rw [onAnswer_eq h]
  split_ifs with hnone
  · exact ⟨hactive, fun k => by simp [Lists, Replaces, hnone, listed]⟩
  · obtain ⟨hlast, hkeys⟩ := syncProcessQueue_keys hactive cfg.consumer f a (queues cfg a)
    exact ⟨hlast, fun k => (hkeys k).trans (by simp [Lists, Replaces, hnone])⟩

theorem onAnswers_keys {cfg : Config} {table : List (String × FilterExpression)}
    {s t : Rebalance.State} {answers : List Answered} (hactive : s.active = true)
    (h : onAnswers cfg table s answers = some t) (k : Key) :
    k ∈ keys t ↔ Updates.After (Lists cfg k) (Replaces cfg k) (k ∈ keys s) answers := by
  induction answers generalizing s with
  | nil =>
    cases h
    rfl
  | cons a answers ih =>
    obtain ⟨u, hu, hrest⟩ := Option.bind_eq_some_iff.mp h
    obtain ⟨hactive', hkeys⟩ := onAnswer_keys hactive hu
    rw [ih hactive' hrest, propext (hkeys k)]
    rfl

theorem mem_assigned {cfg : Config} {answers : List Answered} {k : Key} :
    k ∈ assigned cfg answers ↔ ∃ a ∈ answers, Lists cfg k a := by
  simp [assigned, Lists]

theorem onAnswers_exact_iff {cfg : Config} {table : List (String × FilterExpression)}
    {s t : Rebalance.State} {answers : List Answered} (hactive : s.active = true)
    (h : onAnswers cfg table s answers = some t) :
    (∀ k, k ∈ keys t ↔ k ∈ assigned cfg answers) ↔ Settles cfg s answers := by
  have hkey : ∀ k, (k ∈ keys t ↔ k ∈ assigned cfg answers) ↔
      (k ∈ keys s → ∃ a ∈ answers, Lists cfg k a ∨ Replaces cfg k a) ∧
        (k ∈ assigned cfg answers →
          Updates.Lasts (Lists cfg k) (Replaces cfg k) answers) := fun k => by
    rw [onAnswers_keys hactive h k, mem_assigned]
    exact Updates.after_iff_exists_sets_iff answers
  constructor
  · intro hexact
    exact ⟨fun k => ((hkey k).mp (hexact k)).1, fun k => ((hkey k).mp (hexact k)).2⟩
  · intro hsettles k
    exact (hkey k).mpr ⟨hsettles.touched k, hsettles.lasts k⟩

theorem step_exact_iff {cfg : Config} {s t : State} {e : Event} (h : step cfg s e = some t) :
    Exact t ↔ ScanSettles cfg s e := by
  cases e with
  | subscribe topic f =>
    cases h
    exact iff_of_true nofun trivial
  | unsubscribe topic =>
    cases h
    exact iff_of_true nofun trivial
  | scanAssignments answers =>
    rcases scanAssignments_cases h with ⟨hstopped, rfl⟩ | ⟨hactive, u, hu, rfl⟩
    · exact iff_of_true nofun fun hactive => by simp [hstopped] at hactive
    · by_cases hok : answeredOk cfg answers = true
      · simpa [Exact, ScanSettles, hactive, hok] using onAnswers_exact_iff hactive hu
      · simp [Exact, ScanSettles, hok]
  | consume e =>
    obtain ⟨u, -, rfl⟩ := Option.map_eq_some_iff.mp h
    exact iff_of_true nofun trivial

theorem exact_along_iff (cfg : Config) (es : List Event) :
    (machine cfg).Along Exact (machine cfg).init es ↔
      (machine cfg).Guarded (ScanSettles cfg) (machine cfg).init es :=
  (machine cfg).along_iff_guarded (J := fun _ => True) (A := fun _ => True)
    (fun _ _ _ _ _ _ => trivial) (fun _ _ _ _ _ _ h => step_exact_iff h) es
    (fun _ _ => trivial) trivial nofun

def clustering : Config :=
  { consumer := { wrap := fun _ => .rejected }, std := MQMessageQueue.insertionSort }

def readable (topic : String) (id : ℤ) : rmq.Partition :=
  { topic := topic, id := id, permission := .read
    broker := some { name := "a", endpoints := { addresses := [{ host := "a", port := 80 }] } } }

def answer (topic : String) (partitions : List rmq.Partition) : Answered :=
  { topic := topic, answer := .assignments { response := partitions } }

/-- The queues stay when the answer assigns nothing, and when the topic is not subscribed
any more; a queue that another topic's answer lists goes when the answer of its own topic
does not list it. -/
theorem table_not_assigned :
    (∃ s, (machine clustering).run
        [.subscribe "abc" {}, .scanAssignments [answer "abc" [readable "abc" 0]],
          .scanAssignments [answer "abc" []]] = some s ∧ ¬ Exact s) ∧
    (∃ s, (machine clustering).run
        [.subscribe "abc" {}, .scanAssignments [answer "abc" [readable "abc" 0]],
          .unsubscribe "abc", .scanAssignments []] = some s ∧ ¬ Exact s) ∧
    ∃ s, (machine clustering).run
        [.subscribe "abc" {}, .subscribe "xyz" {},
          .scanAssignments [answer "abc" [readable "abc" 0, readable "xyz" 0],
            answer "xyz" [readable "xyz" 1]]] = some s ∧ ¬ Exact s := by
  refine ⟨⟨_, rfl, fun h => ?_⟩, ⟨_, rfl, fun h => ?_⟩, ⟨_, rfl, fun h => ?_⟩⟩
  · have hmem := (h [] rfl ("abc", "a", 0)).mp (by decide)
    simp at hmem
  · have hmem := (h [] rfl ("abc", "a", 0)).mp (by decide)
    simp at hmem
  · have hmem := (h _ rfl ("xyz", "a", 0)).mpr (by decide)
    revert hmem
    decide

end AssignmentScan
end RocketMQClient
