import RocketMQClient.PublishRoute
import RocketMQClient.RpcAnswers
import RocketMQClient.Library.RoundRobin

/-!
# Decoding a route, and the broker to ask for an assignment

`resolveRoute` decodes the partitions of the answer and hands them over as a
`TopicRouteData`. A `RoutePartition` is a partition as the route holds it, with the
addresses of its broker; the other modules only use the text of the address, and
`toPartition` gives them what they use.

`selectBroker` walks round the partitions with a counter of 32 bits. The bound of
the loop is computed in 64 bits, so the loop need not end; it is given fuel, and
`none` means that the fuel ran out.
-/

namespace RocketMQClient

structure Broker where
  name : String
  id : ℤ
  serviceAddress : ServiceAddress

structure RoutePartition where
  topic : Resource
  broker : Broker
  id : ℤ
  permission : Permission

namespace RoutePartition

def ofWire (std : StdSort rmq.Address.less) (p : rmq.Partition) : RoutePartition :=
  let broker := p.broker.getD {}
  { topic := { resourceNamespace := p.resourceNamespace, name := p.topic }
    broker :=
      { name := broker.name
        id := broker.id
        serviceAddress := .new std (.ofWire broker.endpoints.scheme) broker.endpoints.addresses }
    id := p.id
    permission := .ofWire p.permission }

def toPartition (p : RoutePartition) : Partition :=
  { resourceNamespace := p.topic.resourceNamespace
    topic := p.topic.name
    brokerName := p.broker.name
    brokerId := p.broker.id
    serviceAddress := p.broker.serviceAddress.address
    id := p.id
    permission := p.permission }

def less (a b : RoutePartition) : Bool := a.toPartition.less b.toPartition

def insertionSort : StdSort less :=
  .insertion (fun p => p.toPartition.sortKey) fun a b =>
    Partition.less_iff a.toPartition b.toPartition

end RoutePartition

namespace RouteDecoding
open RpcAnswers (InvocationContext answer resolveRouteError)

section Decoding
variable (addresses : StdSort rmq.Address.less) (partitions : StdSort RoutePartition.less)

def topicRouteData (c : InvocationContext (List rmq.Partition)) : Option (List RoutePartition) :=
  if c.status = .ok ∧ c.code = Code.ok.toInt then
    some (partitions.sort (c.response.map (.ofWire addresses)))
  else none

def resolveRoute : InvocationContext (List rmq.Partition) →
    List (Option ErrorCode × Option (List RoutePartition)) :=
  answer .requestTimeout resolveRouteError (topicRouteData addresses partitions)

theorem resolveRoute_ok (host : String) (response : List rmq.Partition) :
    resolveRoute addresses partitions { remoteAddress := host, response := response } =
      [(none, some (partitions.sort (response.map (.ofWire addresses))))] := rfl

end Decoding

structure View where
  topic : Resource
  id : ℤ
  permission : rmq.Permission
  brokerName : String
  brokerId : ℤ
  scheme : rmq.AddressScheme
  addresses : Finset rmq.Address
  deriving DecidableEq

def ofPermission : Permission → rmq.Permission
  | .none => .none
  | .read => .read
  | .write => .write
  | .readWrite => .readWrite

def ofScheme : AddressScheme → rmq.AddressScheme
  | .ipv4 => .ipv4
  | .ipv6 => .ipv6
  | .domainName => .domainName

def wireView (p : rmq.Partition) : View :=
  let broker := p.broker.getD {}
  { topic := { resourceNamespace := p.resourceNamespace, name := p.topic }
    id := p.id
    permission := p.permission
    brokerName := broker.name
    brokerId := broker.id
    scheme := broker.endpoints.scheme
    addresses := broker.endpoints.addresses.toFinset }

def routeView (p : RoutePartition) : View :=
  { topic := p.topic
    id := p.id
    permission := ofPermission p.permission
    brokerName := p.broker.name
    brokerId := p.broker.id
    scheme := ofScheme p.broker.serviceAddress.scheme
    addresses := p.broker.serviceAddress.addresses.toFinset }

def markedWritable (p : rmq.Partition) : Prop :=
  p.permission = .write ∨ p.permission = .readWrite

structure Faithful (response : List rmq.Partition) (route : List RoutePartition) : Prop where
  partitions : (Multiset.ofList (route.map routeView)) = Multiset.ofList (response.map wireView)
  offered : ∀ topic info,
    TopicPublishInfo.updatePublishInfo { topic := topic } (route.map RoutePartition.toPartition) =
      some info →
    ∀ q, PublishRoute.Chosen info q → ∃ p ∈ response, markedWritable p ∧
      q.topic = p.topic ∧ q.brokerName = (p.broker.getD {}).name ∧ q.queueId = p.id

structure Known (p : rmq.Partition) : Prop where
  permission : p.permission = .read ∨ p.permission = .write ∨ p.permission = .readWrite
  scheme : (p.broker.getD {}).endpoints.scheme ≠ .unknown

section Faithful
variable {addresses : StdSort rmq.Address.less} {partitions : StdSort RoutePartition.less}
  {response : List rmq.Partition}

theorem ofScheme_ofWire_iff (s : rmq.AddressScheme) :
    ofScheme (.ofWire s) = s ↔ s ≠ .unknown := by
  cases s <;> simp [AddressScheme.ofWire, ofScheme]

theorem ofPermission_ofWire_iff (p : rmq.Permission) :
    ofPermission (.ofWire p) = p ↔ p = .read ∨ p = .write ∨ p = .readWrite := by
  cases p <;> simp [Permission.ofWire, ofPermission]

theorem routeView_ofWire (p : rmq.Partition) : routeView (.ofWire addresses p) =
    { wireView p with
      permission := ofPermission (.ofWire p.permission)
      scheme := ofScheme (.ofWire (p.broker.getD {}).endpoints.scheme) } := by
  have hset : (addresses.sort (p.broker.getD {}).endpoints.addresses).toFinset =
      (p.broker.getD {}).endpoints.addresses.toFinset :=
    List.toFinset_eq_of_perm _ _ (addresses.perm _)
  simp only [routeView, wireView, RoutePartition.ofWire, ServiceAddress.new, hset]

theorem routeView_ofWire_of_known {p : rmq.Partition} (h : Known p) :
    routeView (.ofWire addresses p) = wireView p := by
  rw [routeView_ofWire, (ofPermission_ofWire_iff _).mpr h.permission,
    (ofScheme_ofWire_iff _).mpr h.scheme]
  rfl

theorem known_of_view {p p' : rmq.Partition} (h : routeView (.ofWire addresses p') = wireView p) :
    Known p := by
  rw [routeView_ofWire] at h
  have hpermission : ofPermission (.ofWire p'.permission) = p.permission :=
    congrArg View.permission h
  have hscheme : ofScheme (.ofWire (p'.broker.getD {}).endpoints.scheme) =
      (p.broker.getD {}).endpoints.scheme := congrArg View.scheme h
  constructor
  · rw [← hpermission]
    cases p'.permission <;> simp [Permission.ofWire, ofPermission]
  · rw [← hscheme]
    cases (p'.broker.getD {}).endpoints.scheme <;> simp [AddressScheme.ofWire, ofScheme]

theorem offered_of_known (h : ∀ p ∈ response, Known p) {topic : String} {info : TopicPublishInfo}
    (hinfo : TopicPublishInfo.updatePublishInfo { topic := topic }
      ((partitions.sort (response.map (.ofWire addresses))).map RoutePartition.toPartition) =
        some info) {q : MQMessageQueue} (hq : PublishRoute.Chosen info q) :
    ∃ p ∈ response, markedWritable p ∧
      q.topic = p.topic ∧ q.brokerName = (p.broker.getD {}).name ∧ q.queueId = p.id := by
  obtain ⟨x, hx, rfl⟩ := hq.mem
  rw [PublishRoute.updatePublishInfo_new hinfo] at hx
  obtain ⟨hroute, hpublishable⟩ := List.mem_filter.mp hx
  have hwritable : x.writable = true := (Bool.and_eq_true_iff.mp hpublishable).1
  obtain ⟨r, hr, rfl⟩ := List.mem_map.mp hroute
  obtain ⟨p, hp, rfl⟩ := List.mem_map.mp ((partitions.perm _).mem_iff.mp hr)
  refine ⟨p, hp, ?_, rfl, rfl, rfl⟩
  rcases (h p hp).permission with hread | hwrite | hboth
  · simp [Partition.writable, RoutePartition.toPartition, RoutePartition.ofWire, hread,
      Permission.ofWire] at hwritable
  · exact Or.inl hwrite
  · exact Or.inr hboth

end Faithful

/-- A route is handed over as the server sent it, and no partition is offered for sending that
the server did not mark as writable, exactly if no partition has the permission `NONE` and no
enumeration has a value that is not named. -/
theorem faithful_iff (addresses : StdSort rmq.Address.less)
    (partitions : StdSort RoutePartition.less) (host : String) (response : List rmq.Partition) :
    ∃ route, resolveRoute addresses partitions { remoteAddress := host, response := response } =
        [(none, some route)] ∧
      (Faithful response route ↔ ∀ p ∈ response, Known p) := by
  refine ⟨_, resolveRoute_ok addresses partitions host response, ?_⟩
  have hperm := (partitions.perm (response.map (.ofWire addresses))).map routeView
  constructor
  · intro h p hp
    have hview : wireView p ∈ response.map wireView := List.mem_map.mpr ⟨p, hp, rfl⟩
    have hdecoded := (Multiset.coe_eq_coe.mp h.partitions).mem_iff.mpr hview
    rw [hperm.mem_iff, List.map_map] at hdecoded
    obtain ⟨p', -, hp'⟩ := List.mem_map.mp hdecoded
    exact known_of_view hp'
  · intro h
    constructor
    · have hviews : (response.map (.ofWire addresses)).map routeView = response.map wireView := by
        rw [List.map_map]
        apply List.map_congr_left
        intro p hp
        exact routeView_ofWire_of_known (h p hp)
      rw [hviews] at hperm
      exact Multiset.coe_eq_coe.mpr hperm
    · intro topic info hinfo q hq
      exact offered_of_known h hinfo hq

def closedPartition : rmq.Partition :=
  { topic := "abc"
    broker := some
      { name := "a", endpoints := { addresses := [{ host := "10.0.0.1", port := 8081 }] } } }

theorem closed_partition_offered :
    ∃ route info q, resolveRoute rmq.Address.insertionSort RoutePartition.insertionSort
        { response := [closedPartition] } = [(none, some route)] ∧
      route.map RoutePartition.permission = [.readWrite] ∧
      TopicPublishInfo.updatePublishInfo { topic := "abc" }
        (route.map RoutePartition.toPartition) = some info ∧
      q ∈ info.getMessageQueueList MQMessageQueue.insertionSort ∧ q.queueId = closedPartition.id ∧
      ¬ Faithful [closedPartition] route := by
  refine ⟨_, _, _, rfl, rfl, rfl, List.mem_singleton.mpr rfl, rfl, fun h => ?_⟩
  have hviews := Multiset.coe_eq_coe.mp h.partitions
  have hmem : wireView closedPartition ∈ [closedPartition].map wireView := by simp
  have hdecoded := hviews.mem_iff.mpr hmem
  revert hdecoded
  decide

end RouteDecoding

namespace PushConsumerImpl
open RoundRobin

def brokerHost (p : RoutePartition) : Option String :=
  if p.broker.id ≠ TopicPublishInfo.masterBrokerId ∨ p.permission = .none then none
  else if p.broker.serviceAddress.addresses.isEmpty then none
  else some p.broker.serviceAddress.address

def selectLoop (partitions : List RoutePartition) (index : UInt32) :
    ℕ → UInt32 → Option (Option String)
  | 0, _ => none
  | fuel + 1, i =>
    -- the sum is a `size_t` and does not wrap, the count does
    if i.toNat < index.toNat + partitions.length then
      match partitions[i.toNat % partitions.length]?.bind brokerHost with
      | some host => some (some host)
      | none => selectLoop partitions index fuel (i + 1)
    else some none

def selectBroker (route : Option (List RoutePartition)) (counter : UInt32) (fuel : ℕ) :
    Option (Option String) :=
  match route with
  | none => some none
  | some partitions =>
    if partitions.isEmpty then some none
    else selectLoop partitions (counter + 1) fuel (counter + 1)

def Suitable (p : RoutePartition) : Prop :=
  p.broker.id = TopicPublishInfo.masterBrokerId ∧ p.permission ≠ .none ∧
    p.broker.serviceAddress.addresses ≠ []

structure SelectsBroker (route : Option (List RoutePartition)) (counter : UInt32) : Prop where
  ends : ∃ fuel result, selectBroker route counter fuel = some result
  found : ∀ fuel result, selectBroker route counter fuel = some result →
    (result.isSome = true ↔ ∃ p ∈ route.getD [], Suitable p) ∧
    ∀ host, result = some host →
      ∃ p ∈ route.getD [], Suitable p ∧ p.broker.serviceAddress.address = host

/-- The counter does not wrap on the walk, or the walk comes past a suitable partition. -/
def WalkEnds (partitions : List RoutePartition) (counter : UInt32) : Prop :=
  (counter + 1).toNat + partitions.length < 2 ^ 32 ∨ ∃ p ∈ partitions.take (2 ^ 32), Suitable p

section Walk
variable {partitions : List RoutePartition} {index : UInt32}

theorem brokerHost_eq_some_iff {p : RoutePartition} {host : String} :
    brokerHost p = some host ↔ Suitable p ∧ p.broker.serviceAddress.address = host := by
  rw [brokerHost, Suitable]
  split_ifs with hskip hempty
  · apply iff_of_false (by simp)
    intro h
    rcases hskip with hslave | hnone
    · exact hslave h.1.1
    · exact h.1.2.1 hnone
  · apply iff_of_false (by simp)
    intro h
    exact h.1.2.2 (List.isEmpty_iff.mp hempty)
  · rw [not_or, not_not] at hskip
    simp [hskip.1, hskip.2, mt List.isEmpty_iff.mpr hempty]

def stopsAt (n start k : ℕ) : Bool := !decide ((start + k) % 2 ^ 32 < start + n)

theorem stopsAt_iff {n start k : ℕ} :
    stopsAt n start k = true ↔ start + n ≤ (start + k) % 2 ^ 32 := by
  rw [stopsAt, Bool.not_eq_true', decide_eq_false_iff_not, not_lt]

def hostAt (partitions : List RoutePartition) (start k : ℕ) : Option String :=
  partitions[position (2 ^ 32) start partitions.length k]?.bind brokerHost

theorem selectLoop_eq_search (partitions : List RoutePartition) (index : UInt32) (fuel k : ℕ) :
    selectLoop partitions index fuel (index + UInt32.ofNat k) =
      search (stopsAt partitions.length index.toNat) (hostAt partitions index.toNat) fuel k := by
  induction fuel generalizing k with
  | zero => rfl
  | succ fuel ih =>
    have hword : (index + UInt32.ofNat k).toNat = (index.toNat + k) % 2 ^ 32 := by
      rw [UInt32.toNat_add, UInt32.toNat_ofNat', Nat.add_mod_mod]
    have hnext : index + UInt32.ofNat k + 1 = index + UInt32.ofNat (k + 1) := by
      rw [UInt32.ofNat_add, UInt32.add_assoc]
      rfl
    rw [selectLoop, search, hword, hnext, ih (k + 1)]
    by_cases hlt : (index.toNat + k) % 2 ^ 32 < index.toNat + partitions.length
    · rw [if_pos hlt, if_neg (mt stopsAt_iff.mp (not_le.mpr hlt)), hostAt, position]
      cases partitions[(index.toNat + k) % 2 ^ 32 % partitions.length]?.bind brokerHost <;> rfl
    · rw [if_neg hlt, if_pos (stopsAt_iff.mpr (not_lt.mp hlt))]

theorem hostAt_eq_none_iff {start k : ℕ} : hostAt partitions start k = none ↔
    ∀ p, partitions[position (2 ^ 32) start partitions.length k]? = some p → ¬ Suitable p := by
  rw [hostAt, Option.bind_eq_none_iff]
  constructor
  · intro h p hp hsuitable
    have hsome := brokerHost_eq_some_iff.mpr ⟨hsuitable, rfl⟩
    rw [h p hp] at hsome
    cases hsome
  · intro h p hp
    cases hhost : brokerHost p with
    | none => rfl
    | some host => exact absurd (brokerHost_eq_some_iff.mp hhost).1 (h p hp)

theorem hostAt_eq_some {start k : ℕ} {host : String} (h : hostAt partitions start k = some host) :
    ∃ p ∈ partitions, Suitable p ∧ p.broker.serviceAddress.address = host := by
  obtain ⟨p, hp, hhost⟩ := Option.bind_eq_some_iff.mp h
  exact ⟨p, List.mem_of_getElem? hp, brokerHost_eq_some_iff.mp hhost⟩

theorem not_suitable_of_stopsAt {start j : ℕ}
    (hstop : stopsAt partitions.length start j = true)
    (hbefore : ∀ l < j, hostAt partitions start l = none) {p : RoutePartition}
    (hp : p ∈ partitions) : ¬ Suitable p := by
  have hend := stopsAt_iff.mp hstop
  have hfits : start + partitions.length ≤ 2 ^ 32 := by omega
  have hj : partitions.length ≤ j := by
    by_contra hlt
    rw [Nat.mod_eq_of_lt (by omega)] at hend
    omega
  obtain ⟨i, hi, rfl⟩ := List.mem_iff_getElem.mp hp
  obtain ⟨k, hk, hki⟩ := exists_position (Or.inl hfits) hi
  apply hostAt_eq_none_iff.mp (hbefore k (by omega))
  rw [hki, List.getElem?_eq_getElem hi]

theorem walk_ends_iff (start : ℕ) :
    (∃ k, stopsAt partitions.length start k = true ∨
        (hostAt partitions start k).isSome = true) ↔
      start + partitions.length < 2 ^ 32 ∨ ∃ p ∈ partitions.take (2 ^ 32), Suitable p := by
  constructor
  · rintro ⟨k, hstop | hhost⟩
    · have hend := stopsAt_iff.mp hstop
      have hlt : (start + k) % 2 ^ 32 < 2 ^ 32 := Nat.mod_lt _ (by decide)
      exact Or.inl (by omega)
    · obtain ⟨host, hhost⟩ := Option.isSome_iff_exists.mp hhost
      obtain ⟨p, hp, hhost⟩ := Option.bind_eq_some_iff.mp hhost
      have hlt : position (2 ^ 32) start partitions.length k < 2 ^ 32 :=
        (Nat.mod_le _ _).trans_lt (Nat.mod_lt _ (by decide))
      refine Or.inr ⟨p, ?_, (brokerHost_eq_some_iff.mp hhost).1⟩
      exact List.mem_of_getElem? ((List.getElem?_take_of_lt hlt).trans hp)
  · rintro (hfits | ⟨p, hp, hsuitable⟩)
    · refine ⟨partitions.length, Or.inl (stopsAt_iff.mpr ?_)⟩
      rw [Nat.mod_eq_of_lt hfits]
    · obtain ⟨i, hi, rfl⟩ := List.mem_iff_getElem.mp hp
      have hlen := hi
      rw [List.length_take] at hlen
      obtain ⟨k, hk⟩ := exists_position_of_lt (W := 2 ^ 32) (n := partitions.length) (j := i) start
        (by omega) (by omega)
      refine ⟨k, Or.inr ?_⟩
      rw [← Option.ne_none_iff_isSome]
      intro hnone
      apply hostAt_eq_none_iff.mp hnone _ _ hsuitable
      rw [hk, List.getElem_take, List.getElem?_eq_getElem]

end Walk

theorem selectBroker_eq_search {partitions : List RoutePartition} (hne : partitions ≠ [])
    (counter : UInt32) (fuel : ℕ) : selectBroker (some partitions) counter fuel =
      search (stopsAt partitions.length (counter + 1).toNat)
        (hostAt partitions (counter + 1).toNat) fuel 0 := by
  rw [← selectLoop_eq_search, selectBroker, if_neg (mt List.isEmpty_iff.mp hne)]
  simp

theorem walkEnds_of_ends {partitions : List RoutePartition} (hne : partitions ≠ [])
    {counter : UInt32} {fuel : ℕ} {result : Option String}
    (h : selectBroker (some partitions) counter fuel = some result) :
    WalkEnds partitions counter := by
  rw [selectBroker_eq_search hne] at h
  obtain ⟨j, -, -, hend⟩ := search_first _ _ h
  apply (walk_ends_iff _).mp
  rcases hend with ⟨hstop, -⟩ | ⟨-, host, hhost, -⟩
  · exact ⟨j, Or.inl hstop⟩
  · exact ⟨j, Or.inr (by rw [hhost]; rfl)⟩

theorem selectBroker_ends_iff (partitions : List RoutePartition) (counter : UInt32) :
    (∃ fuel result, selectBroker (some partitions) counter fuel = some result) ↔
      WalkEnds partitions counter := by
  by_cases hne : partitions = []
  · subst hne
    exact iff_of_true ⟨0, none, rfl⟩ (Or.inl (counter + 1).toNat_lt)
  constructor
  · rintro ⟨fuel, result, h⟩
    exact walkEnds_of_ends hne h
  · intro h
    obtain ⟨k, hend⟩ := (walk_ends_iff _).mpr h
    obtain ⟨fuel, result, hresult⟩ := search_ends _ _ (Nat.zero_le k) hend
    exact ⟨fuel, result, (selectBroker_eq_search hne counter fuel).trans hresult⟩

theorem selectsBroker_of_empty {route : Option (List RoutePartition)} (h : route.getD [] = [])
    (counter : UInt32) : SelectsBroker route counter := by
  have hnone : ∀ fuel, selectBroker route counter fuel = some none := by
    intro fuel
    rcases route with - | partitions
    · rfl
    · rw [Option.getD_some] at h
      subst h
      rfl
  refine ⟨⟨0, none, hnone 0⟩, fun fuel result hresult => ?_⟩
  rw [hnone] at hresult
  cases hresult
  simp [h]

/-- For every counter the choice ends with a suitable partition if there is one and with none
otherwise, exactly if the walk ends: the counter does not reach 2 ^ 32 on it, or one of the
partitions that the counter can name is suitable. -/
theorem selectsBroker_iff (route : Option (List RoutePartition)) (counter : UInt32) :
    SelectsBroker route counter ↔ WalkEnds (route.getD []) counter := by
  by_cases hne : route.getD [] = []
  · apply iff_of_true (selectsBroker_of_empty hne counter)
    rw [hne]
    exact Or.inl (counter + 1).toNat_lt
  rcases route with - | partitions
  · exact absurd rfl hne
  rw [Option.getD_some] at hne ⊢
  constructor
  · intro h
    exact (selectBroker_ends_iff partitions counter).mp h.ends
  · intro h
    constructor
    · exact (selectBroker_ends_iff partitions counter).mpr h
    · intro fuel result hresult
      rw [selectBroker_eq_search hne] at hresult
      obtain ⟨j, -, hbefore, hcase⟩ := search_first _ _ hresult
      rcases hcase with ⟨hstop, rfl⟩ | ⟨-, host, hhost, rfl⟩
      · refine ⟨iff_of_false (by simp) ?_, fun host h => by cases h⟩
        rintro ⟨p, hp, hsuitable⟩
        have hpassed := fun l hl => (hbefore l (Nat.zero_le l) hl).2
        exact not_suitable_of_stopsAt hstop hpassed hp hsuitable
      · obtain ⟨p, hp, hsuitable, haddress⟩ := hostAt_eq_some hhost
        refine ⟨iff_of_true rfl ⟨p, hp, hsuitable⟩, fun host' h => ?_⟩
        cases h
        exact ⟨p, hp, hsuitable, haddress⟩

def slavePartition : RoutePartition :=
  { topic := { name := "abc" }
    broker := { name := "a", id := 1, serviceAddress := ⟨.ipv4, [{ host := "a", port := 80 }]⟩ }
    id := 0
    permission := .readWrite }

theorem select_loops :
    (∀ p ∈ [slavePartition], ¬ Suitable p) ∧
    ¬ (∃ fuel result, selectBroker (some [slavePartition]) 4294967294 fuel = some result) ∧
    ¬ SelectsBroker (some [slavePartition]) 4294967294 := by
  have hnone : ∀ p ∈ [slavePartition], ¬ Suitable p := by
    intro p hp hsuitable
    rw [List.mem_singleton.mp hp] at hsuitable
    exact absurd hsuitable.1 (by decide)
  have hnever : ¬ ∃ fuel result, selectBroker (some [slavePartition]) 4294967294 fuel =
      some result := by
    rintro ⟨fuel, result, hresult⟩
    rcases walkEnds_of_ends (by simp) hresult with hfits | ⟨p, hp, hsuitable⟩
    · exact absurd hfits (by decide)
    · exact hnone p (List.mem_of_mem_take hp) hsuitable
  exact ⟨hnone, hnever, fun h => hnever h.ends⟩

end PushConsumerImpl

end RocketMQClient
