import RocketMQClient.Producer
import RocketMQClient.RouteLookup
import Mathlib.Data.List.GetD

/-!
# Publishing along the current route

A producer keeps two caches. The route table follows lookups and the periodic
refresh; the publish info of a topic is built from the route that the first send
of the topic got, and is never built again. Every use of a publish info by a send
is recorded with the route that was cached when the send began, if there was one.

A lookup that finds no route in the table ends with the route that is in the table
by then, or with the answer to a query. `publishedFrom` records the routes that the publish
infos were built from.
-/

namespace RocketMQClient.PublishRoute
open EventMachine Pending RouteLookup

inductive Work
  | lookup (topic : String)
  | ready (topic : String) (started route : Option TopicRouteData)

structure Use where
  info : TopicPublishInfo
  started : Option TopicRouteData

structure State where
  routeTable : RouteTable := fun _ => none
  publishTable : String → Option TopicPublishInfo := fun _ => none
  publishedFrom : RouteTable := fun _ => none
  pending : List Work := []
  uses : List Use := []

inductive Outcome
  | run
  | completed (ec : Option ErrorCode) (route : Option TopicRouteData)

inductive Event
  | asyncPublishInfo (topic : String)
  | updateRouteCache (topic : String) (ec : Option ErrorCode) (route : Option TopicRouteData)
  | resume (i : ℕ) (outcome : Outcome)

def State.add (s : State) (w : Work) : State := { s with pending := s.pending ++ [w] }

def asyncPublishInfo (s : State) (topic : String) : State :=
  match s.publishTable topic with
  | some info => { s with uses := s.uses ++ [⟨info, s.routeTable topic⟩] }
  | none => match s.routeTable topic with
    | some route => s.add (.ready topic (some route) (some route))
    | none => s.add (.lookup topic)

def updateRouteCache (s : State) (topic : String) (ec : Option ErrorCode)
    (route : Option TopicRouteData) : State :=
  { s with routeTable := s.routeTable.updateRouteCache topic ec route }

/-- The callback that `asyncPublishInfo` passes to `getRouteFor`. A null route is
undefined behaviour. -/
def onRoute (s : State) (topic : String) (started route : Option TopicRouteData) : Option State :=
  route.bind fun route =>
    (({ topic := topic } : TopicPublishInfo).updatePublishInfo route).map fun info =>
      { s with
        publishTable := Function.update s.publishTable topic (some info)
        publishedFrom := Function.update s.publishedFrom topic (some route)
        uses := s.uses ++ [⟨info, started⟩] }

def resume (s : State) : Work → Outcome → Option State
  | .lookup topic, .run =>
    (s.routeTable topic).map fun route => s.add (.ready topic none (some route))
  | .lookup topic, .completed ec route =>
    let s := updateRouteCache s topic ec route
    some (if ec.isSome then s else s.add (.ready topic none route))
  | .ready topic started route, .run => onRoute s topic started route
  | _, _ => none

def step (s : State) : Event → Option State
  | .asyncPublishInfo topic => some (asyncPublishInfo s topic)
  | .updateRouteCache topic ec route => some (updateRouteCache s topic ec route)
  | .resume i outcome =>
    (pick s.pending i).bind fun r => resume { s with pending := r.2 } r.1 outcome

def machine : Machine State Event where
  init := {}
  step := step

def publishable (p : Partition) : Bool :=
  p.writable && p.brokerId == TopicPublishInfo.masterBrokerId

def Chosen (info : TopicPublishInfo) (q : MQMessageQueue) : Prop :=
  ∃ (p : Producer) (counter : UInt32) (m : MQMessage) (candidates : List MQMessageQueue),
    q ∈ candidates ∧
      (p.syncCandidates counter m (.ok info) (.ok info) = .ok candidates ∨
        p.asyncCandidates counter m (.ok info) = some (.ok candidates))

/-- Along the route: what is chosen is the queue of a writable partition of a master
broker, and there is something to choose from if the route has such a partition. -/
def Use.Current (u : Use) : Prop :=
  ∀ route ∈ u.started,
    (∀ q, Chosen u.info q → ∃ p ∈ route, publishable p = true ∧ p.asMessageQueue = q) ∧
    ((∃ p ∈ route, publishable p = true) → u.info.partitionList ≠ [])

def UsesCurrent (s : State) : Prop := ∀ u ∈ s.uses, u.Current

/-- What can be published to along `old` can be along `new`, and there is something along `old`
if there is along `new`. -/
def Sustains (old new : TopicRouteData) : Prop :=
  (∀ p ∈ old, publishable p = true → ∃ p' ∈ new, publishable p' = true ∧
    p'.asMessageQueue = p.asMessageQueue) ∧
  ((∃ p ∈ new, publishable p = true) → ∃ p ∈ old, publishable p = true)

instance (old new : TopicRouteData) : Decidable (Sustains old new) :=
  inferInstanceAs (Decidable ((∀ p ∈ old, _ → _) ∧ (_ → _)))

/-- A route that is about to replace the cached one sustains the route that the publish info of
the topic was built from. -/
def RefreshSustains (s : State) (topic : String) (ec : Option ErrorCode)
    (route : Option TopicRouteData) : Prop :=
  s.routeTable.replaces topic ec route = true →
    ∀ new ∈ route, ∀ old ∈ s.publishedFrom topic, Sustains old new

def CacheSustains (s : State) : Work → Prop
  | .ready topic _ route => ∀ old ∈ route, ∀ cached ∈ s.routeTable topic, Sustains old cached
  | .lookup _ => True

def KeepsRoutes (s : State) : Event → Prop
  | .asyncPublishInfo _ => True
  | .updateRouteCache topic ec route => RefreshSustains s topic ec route
  | .resume i .run => ∀ r ∈ pick s.pending i, CacheSustains s r.1
  | .resume i (.completed ec route) => ∀ r ∈ pick s.pending i, match r.1 with
    | .lookup topic => RefreshSustains s topic ec route
    | .ready _ _ _ => True

instance (s : State) (topic : String) (ec : Option ErrorCode) (route : Option TopicRouteData) :
    Decidable (RefreshSustains s topic ec route) :=
  inferInstanceAs (Decidable (_ → ∀ new ∈ route, ∀ old ∈ s.publishedFrom topic, Sustains old new))

instance (s : State) : ∀ w, Decidable (CacheSustains s w)
  | .ready topic _ route => inferInstanceAs (Decidable (∀ old ∈ route,
      ∀ cached ∈ s.routeTable topic, Sustains old cached))
  | .lookup _ => inferInstanceAs (Decidable True)

instance (s : State) : ∀ e, Decidable (KeepsRoutes s e)
  | .asyncPublishInfo _ => inferInstanceAs (Decidable True)
  | .updateRouteCache topic ec route =>
    inferInstanceAs (Decidable (RefreshSustains s topic ec route))
  | .resume i .run => inferInstanceAs (Decidable (∀ r ∈ pick s.pending i, CacheSustains s r.1))
  | .resume i (.completed ec route) => match hp : pick s.pending i with
    | none => .isTrue fun r hr => by simp [hp] at hr
    | some (.lookup topic, rest) =>
      decidable_of_iff (RefreshSustains s topic ec route) (by simp [KeepsRoutes, hp])
    | some (.ready topic started r, rest) => .isTrue (by simp [KeepsRoutes, hp])

theorem mem_boundQueue {p : Producer} {m : MQMessage} {list : List MQMessageQueue}
    {q : MQMessageQueue} (h : p.boundQueue m list = some q) : q ∈ list := by
  rw [Producer.boundQueue] at h
  split_ifs at h
  · exact List.mem_of_getElem? h
  · exact List.mem_of_find?_eq_some h

theorem mem_roundRobin {p : Producer} {info : TopicPublishInfo} {counter : UInt32}
    {q : MQMessageQueue} (h : q ∈ p.roundRobin info counter) :
    ∃ x ∈ info.partitionList, x.asMessageQueue = q := by
  have hvisited := TopicPublishInfo.mem_takeLoop h
  exact TopicPublishInfo.mem_visited (hvisited.resolve_right (by simp))

theorem Chosen.mem {info : TopicPublishInfo} {q : MQMessageQueue} (h : Chosen info q) :
    ∃ x ∈ info.partitionList, x.asMessageQueue = q := by
  obtain ⟨p, counter, m, candidates, hq, hsync | hasync⟩ := h
  · simp only [Producer.syncCandidates] at hsync
    split_ifs at hsync
    · split at hsync
      · rename_i hbound
        cases hsync
        have hmem := List.mem_singleton.mp hq ▸ mem_boundQueue hbound
        exact TopicPublishInfo.mem_getMessageQueueList hmem
      · cases hsync
    · cases hsync
      exact mem_roundRobin hq
  · simp only [Producer.asyncCandidates] at hasync
    split_ifs at hasync
    · split at hasync
      · rename_i hbound
        cases hasync
        have hmem := List.mem_singleton.mp hq ▸ mem_boundQueue hbound
        exact TopicPublishInfo.mem_getMessageQueueList hmem
      · cases hasync
    · cases hasync
    · cases hasync
      exact mem_roundRobin hq

theorem Sustains.refl (route : TopicRouteData) : Sustains route route :=
  ⟨fun p hp hpub => ⟨p, hp, hpub, rfl⟩, id⟩

theorem Sustains.current {info : TopicPublishInfo} {old new : TopicRouteData}
    (h : Sustains old new) (hinfo : info.partitionList = old.filter publishable) :
    Use.Current ⟨info, some new⟩ := by
  intro route hroute
  cases hroute
  constructor
  · intro q hq
    obtain ⟨x, hx, rfl⟩ := hq.mem
    rw [hinfo] at hx
    exact h.1 x (List.mem_of_mem_filter hx) (List.mem_filter.mp hx).2
  · intro hnew hnil
    obtain ⟨p, hp, hpub⟩ := h.2 hnew
    have hmem : p ∈ info.partitionList := hinfo ▸ List.mem_filter.mpr ⟨hp, hpub⟩
    exact List.ne_nil_of_mem hmem hnil

theorem updatePublishInfo_new {topic : String} {route : TopicRouteData} {info : TopicPublishInfo}
    (h : ({ topic := topic } : TopicPublishInfo).updatePublishInfo route = some info) :
    info.partitionList = route.filter publishable := by
  simp only [TopicPublishInfo.updatePublishInfo] at h
  split_ifs at h with hother hempty
  · cases h
    exact (List.isEmpty_iff.mp hempty).symm
  · cases h
    rfl

theorem updateRouteCache_of_ne {table : RouteTable} {topic topic' : String}
    {ec : Option ErrorCode} {route : Option TopicRouteData} (h : topic' ≠ topic) :
    table.updateRouteCache topic ec route topic' = table topic' := by
  rw [RouteTable.updateRouteCache_eq]
  split_ifs
  · exact Function.update_of_ne h _ _
  · rfl

theorem updateRouteCache_self {table : RouteTable} {topic : String} {ec : Option ErrorCode}
    {route : Option TopicRouteData} {r : TopicRouteData}
    (h : table.updateRouteCache topic ec route topic = some r) :
    table topic = some r ∨ table.replaces topic ec route = true ∧ route = some r := by
  rw [RouteTable.updateRouteCache_eq] at h
  split_ifs at h with hreplaces
  · rw [Function.update_self] at h
    exact Or.inr ⟨hreplaces, h⟩
  · exact Or.inl h

structure Inv (s : State) : Prop where
  built : ∀ topic info, s.publishTable topic = some info →
    ∃ old, s.publishedFrom topic = some old ∧ info.partitionList = old.filter publishable
  sustains : ∀ topic old route, s.publishedFrom topic = some old →
    s.routeTable topic = some route → Sustains old route
  ready : ∀ topic started route, .ready topic started route ∈ s.pending →
    ∀ r, started = some r → route = some r
  uses : UsesCurrent s

theorem Inv.updateRouteCache {s : State} {topic : String} {ec : Option ErrorCode}
    {route : Option TopicRouteData} (h : Inv s) (hok : RefreshSustains s topic ec route) :
    Inv (updateRouteCache s topic ec route) := by
  refine ⟨h.built, fun topic' old r hold hr => ?_, h.ready, h.uses⟩
  change s.routeTable.updateRouteCache topic ec route topic' = some r at hr
  by_cases htopic : topic' = topic
  · subst htopic
    rcases updateRouteCache_self hr with hcached | ⟨hreplaces, hroute⟩
    · exact h.sustains topic' old r hold hcached
    · exact hok hreplaces r hroute old hold
  · rw [updateRouteCache_of_ne htopic] at hr
    exact h.sustains topic' old r hold hr

theorem Inv.add {s : State} {w : Work} (h : Inv s)
    (hw : ∀ topic started route, w = .ready topic started route →
      ∀ r, started = some r → route = some r) : Inv (s.add w) := by
  refine ⟨h.built, h.sustains, fun topic started route hmem => ?_, h.uses⟩
  rcases List.mem_append.mp hmem with hmem | hmem
  · exact h.ready topic started route hmem
  · exact hw topic started route (List.mem_singleton.mp hmem).symm

theorem Inv.use {s : State} {u : Use} (h : Inv s) (hu : u.Current) :
    Inv { s with uses := s.uses ++ [u] } := by
  refine ⟨h.built, h.sustains, h.ready, fun u' hmem => ?_⟩
  rcases List.mem_append.mp hmem with hmem | hmem
  · exact h.uses u' hmem
  · exact List.mem_singleton.mp hmem ▸ hu

theorem Inv.onRoute {s t : State} {topic : String} {started route : Option TopicRouteData}
    (h : Inv s) (hok : CacheSustains s (.ready topic started route))
    (hstarted : ∀ r, started = some r → route = some r)
    (ht : onRoute s topic started route = some t) : Inv t := by
  obtain ⟨r, rfl, hmap⟩ := Option.bind_eq_some_iff.mp ht
  obtain ⟨info, hinfo, rfl⟩ := Option.map_eq_some_iff.mp hmap
  have hlist := updatePublishInfo_new hinfo
  have hcurrent : Use.Current ⟨info, started⟩ := by
    cases started with
    | none =>
      intro _ hr
      cases hr
    | some r' =>
      obtain rfl : r = r' := Option.some.inj (hstarted r' rfl)
      exact (Sustains.refl r).current hlist
  have huse := h.use hcurrent
  refine ⟨fun topic' info' hinfo' => ?_, fun topic' old cached hold hcached => ?_,
    huse.ready, huse.uses⟩
  · by_cases htopic : topic' = topic
    · subst htopic
      simp only [Function.update_self, Option.some.injEq] at hinfo' ⊢
      subst hinfo'
      exact ⟨r, rfl, hlist⟩
    · simp only [Function.update_of_ne htopic] at hinfo' ⊢
      exact h.built topic' info' hinfo'
  · by_cases htopic : topic' = topic
    · subst htopic
      simp only [Function.update_self, Option.some.injEq] at hold
      subst hold
      exact hok r rfl cached hcached
    · simp only [Function.update_of_ne htopic] at hold
      exact h.sustains topic' old cached hold hcached

theorem Inv.asyncPublishInfo {s : State} (h : Inv s) (topic : String) :
    Inv (asyncPublishInfo s topic) := by
  rw [PublishRoute.asyncPublishInfo]
  split
  · rename_i info hinfo
    apply h.use
    obtain ⟨old, hold, hlist⟩ := h.built topic info hinfo
    cases hroute : s.routeTable topic with
    | none =>
      intro _ hr
      cases hr
    | some route => exact (h.sustains topic old route hold hroute).current hlist
  · split
    · refine h.add fun _ _ _ heq r hr => ?_
      cases heq
      exact hr
    · exact h.add (by simp)

theorem step_inv {s t : State} {e : Event} (h : Inv s) (hok : KeepsRoutes s e)
    (hstep : step s e = some t) : Inv t := by
  cases e with
  | asyncPublishInfo topic =>
    cases hstep
    exact h.asyncPublishInfo topic
  | updateRouteCache topic ec route =>
    cases hstep
    exact h.updateRouteCache hok
  | resume i outcome =>
    obtain ⟨⟨w, rest⟩, hpick, hres⟩ := Option.bind_eq_some_iff.mp hstep
    have hrest : Inv { s with pending := rest } :=
      ⟨h.built, h.sustains, fun topic started route hm => h.ready topic started route
        (mem_of_mem_rest hpick hm), h.uses⟩
    cases w with
    | lookup topic =>
      cases outcome with
      | run =>
        obtain ⟨route, -, rfl⟩ := Option.map_eq_some_iff.mp hres
        refine hrest.add fun _ _ _ heq r hr => ?_
        cases heq
        cases hr
      | completed ec route =>
        have hsustains : RefreshSustains s topic ec route := hok _ hpick
        have hcache := hrest.updateRouteCache hsustains
        cases hres
        dsimp only
        split_ifs
        · exact hcache
        · refine hcache.add fun _ _ _ heq r hr => ?_
          cases heq
          cases hr
    | ready topic started route =>
      cases outcome with
      | run =>
        have hsustains : CacheSustains s (.ready topic started route) := hok _ hpick
        exact hrest.onRoute hsustains (h.ready topic started route (mem_of_pick hpick)) hres
      | completed ec route => cases hres

/-- In a run in which each new route, and the cached one when publish info is stored, sustains
the route that the publish info was built from, every send publishes along the route it found. -/
theorem usesCurrent_along {es : List Event} (h : machine.Guarded KeepsRoutes machine.init es) :
    machine.Along UsesCurrent machine.init es := by
  refine machine.along_of_guarded (J := Inv) (fun s e t hs hok ht => step_inv hs hok ht)
    (fun s hs => hs.uses) ⟨?_, ?_, ?_, ?_⟩ h
  · intro topic info hinfo
    cases hinfo
  · intro topic old route hold
    cases hold
  · simp [machine]
  · simp [machine, UsesCurrent]

def routeOf (brokerName : String) (permission : Permission) : TopicRouteData :=
  [{ topic := "abc", brokerName := brokerName, serviceAddress := brokerName ++ ":10911"
     permission := permission }]

theorem usesCurrent_new_reader :
    machine.Along UsesCurrent machine.init
      [.asyncPublishInfo "abc", .resume 0 (.completed none (some (routeOf "a" .write))),
        .resume 0 .run,
        .updateRouteCache "abc" none (some (routeOf "a" .write ++ routeOf "b" .read)),
        .updateRouteCache "abc" none (some []), .asyncPublishInfo "abc"] :=
  usesCurrent_along (by decide)

theorem stale_publish_info :
    (∃ s, machine.run
        [.asyncPublishInfo "abc", .resume 0 (.completed none (some (routeOf "a" .write))),
          .resume 0 .run, .updateRouteCache "abc" none (some (routeOf "b" .write)),
          .asyncPublishInfo "abc"] = some s ∧ ¬ UsesCurrent s) ∧
    ∃ s, machine.run
        [.asyncPublishInfo "abc", .resume 0 (.completed none (some (routeOf "a" .read))),
          .resume 0 .run, .updateRouteCache "abc" none (some (routeOf "a" .write)),
          .asyncPublishInfo "abc"] = some s ∧ ¬ UsesCurrent s := by
  refine ⟨⟨_, rfl, fun h => ?_⟩, ⟨_, rfl, fun h => ?_⟩⟩
  · obtain ⟨hchosen, -⟩ := h _ (List.mem_append_right _ (List.mem_singleton.mpr rfl))
      (routeOf "b" .write) rfl
    obtain ⟨p, hp, -, hqueue⟩ := hchosen _
      ⟨{ hash := fun _ => 0 }, 0, {}, _, List.mem_singleton.mpr rfl, Or.inr rfl⟩
    rw [List.mem_singleton.mp hp] at hqueue
    exact absurd hqueue (by decide)
  · obtain ⟨-, hsendable⟩ := h _ (List.mem_append_right _ (List.mem_singleton.mpr rfl))
      (routeOf "a" .write) rfl
    exact hsendable ⟨_, List.mem_singleton.mpr rfl, rfl⟩ rfl

end RocketMQClient.PublishRoute
