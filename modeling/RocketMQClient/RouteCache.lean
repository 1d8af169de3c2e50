import RocketMQClient.RouteLookup
import RocketMQClient.Library.StdSort
import Mathlib.Order.Lex
import Mathlib.Data.Prod.Lex
import Mathlib.Data.String.Basic

/-!
# The route cache

Routes are delivered to `updateRouteCache` by lookups and by the periodic refresh.
A `TopicRouteData` sorts its partitions when it is built, by topic, broker name and
id; a new route replaces the cached one unless `operator==` finds them equal, and
that operator does not see broker ids and addresses.

`delivered` records the partitions of the last valid route of each topic.
-/

namespace RocketMQClient

def Partition.topicLess (a b : Partition) : Bool :=
  if a.resourceNamespace < b.resourceNamespace then true
  else if b.resourceNamespace < a.resourceNamespace then false
  else if a.topic < b.topic then true
  else false

def Partition.less (a b : Partition) : Bool :=
  if a.topicLess b then true
  else if b.topicLess a then false
  else if a.brokerName < b.brokerName then true
  else if b.brokerName < a.brokerName then false
  else a.id < b.id

def Partition.sortKey (p : Partition) : String ×ₗ String ×ₗ String ×ₗ ℤ :=
  toLex (p.resourceNamespace, toLex (p.topic, toLex (p.brokerName, p.id)))

theorem Partition.less_iff (a b : Partition) : a.less b = true ↔ a.sortKey < b.sortKey := by
  simp only [sortKey, Prod.Lex.toLex_lt_toLex]
  rcases lt_trichotomy a.resourceNamespace b.resourceNamespace with hn | hn | hn
  · simp [less, topicLess, hn]
  · rcases lt_trichotomy a.topic b.topic with ht | ht | ht
    · simp [less, topicLess, hn, ht]
    · rcases lt_trichotomy a.brokerName b.brokerName with hb | hb | hb
      · simp [less, topicLess, hn, ht, hb]
      · simp [less, topicLess, hn, ht, hb]
      · simp [less, topicLess, hn, ht, hb, hb.not_gt, hb.ne']
    · simp [less, topicLess, hn, ht, ht.not_gt, ht.ne']
  · simp [less, topicLess, hn, hn.not_gt, hn.ne']

def Partition.insertionSort : StdSort Partition.less := .insertion sortKey less_iff

namespace RouteCache
open EventMachine RouteLookup

structure State where
  table : RouteTable := fun _ => none
  delivered : String → Option (List Partition) := fun _ => none

/-- A delivery: the error code, and the partitions unless the route is null. -/
structure Event where
  topic : String
  ec : Option ErrorCode := none
  route : Option (List Partition)

def Event.valid (e : Event) : Bool :=
  e.ec.isNone && e.route.any fun partitions => !partitions.isEmpty

def Event.updates (std : StdSort Partition.less) (table : RouteTable) (e : Event) : RouteTable :=
  table.updateRouteCache e.topic e.ec (e.route.map std.sort)

def machine (std : StdSort Partition.less) : Machine State Event where
  init := {}
  step := fun s e => some
    { table := e.updates std s.table
      delivered := if e.valid then Function.update s.delivered e.topic e.route else s.delivered }

def Follows (s : State) : Prop :=
  ∀ topic partitions, s.delivered topic = some partitions →
    ∃ cached, s.table topic = some cached ∧ cached.Perm partitions

def EqualIsSame (std : StdSort Partition.less) (s : State) (e : Event) : Prop :=
  e.valid = true → ∀ partitions ∈ e.route, ∀ cached ∈ s.table e.topic,
    sameRoute cached (std.sort partitions) = true → cached.Perm partitions

theorem Event.valid_iff (e : Event) :
    e.valid = true ↔ e.ec = none ∧ ∃ p ps, e.route = some (p :: ps) := by
  rw [Event.valid, Bool.and_eq_true, Option.isNone_iff_eq_none]
  refine and_congr_right fun _ => ?_
  match e.route with
  | none => simp
  | some [] => simp
  | some (p :: ps) => simp

theorem sort_isEmpty (std : StdSort Partition.less) (partitions : List Partition) :
    (std.sort partitions).isEmpty = partitions.isEmpty := by
  have hperm := std.perm partitions
  cases partitions with
  | nil => rw [hperm.eq_nil]
  | cons p ps =>
    cases hsort : std.sort (p :: ps) with
    | nil => simp [hsort] at hperm
    | cons p' ps' => rfl

theorem updates_of_not_valid (std : StdSort Partition.less) (table : RouteTable) {e : Event}
    (h : e.valid = false) : e.updates std table = table := by
  have hstays : table.replaces e.topic e.ec (e.route.map std.sort) = false := by
    rw [Event.valid] at h
    cases hroute : e.route with
    | none => simp [RouteTable.replaces]
    | some partitions =>
      simp only [hroute, Option.any_some, Bool.and_eq_false_iff] at h
      rcases h with hec | hempty
      · simp [RouteTable.replaces, hec]
      · simp [RouteTable.replaces, sort_isEmpty, hempty]
  simp [Event.updates, RouteTable.updateRouteCache_eq, hstays]

theorem updates_of_valid (std : StdSort Partition.less) (table : RouteTable) {e : Event}
    {partitions : List Partition} (h : e.valid = true) (hroute : e.route = some partitions) :
    e.updates std table =
      if (table e.topic).any fun cached => sameRoute cached (std.sort partitions) then table
      else Function.update table e.topic (some (std.sort partitions)) := by
  have hvalid : e.ec.isNone = true ∧ (!partitions.isEmpty) = true := by
    simpa [Event.valid, hroute] using h
  rw [Event.updates, RouteTable.updateRouteCache_eq, hroute, Option.map_some]
  simp only [RouteTable.replaces, Option.any_some, sort_isEmpty, hvalid, Bool.true_and]
  cases table e.topic with
  | none => simp
  | some cached => by_cases hs : sameRoute cached (std.sort partitions) = true <;> simp [hs]

theorem step_follows_iff (std : StdSort Partition.less) {s t : State} {e : Event} (hs : Follows s)
    (hstep : (machine std).step s e = some t) : Follows t ↔ EqualIsSame std s e := by
  cases hstep
  by_cases hvalid : e.valid = true
  · obtain ⟨-, p, ps, hroute⟩ := e.valid_iff.mp hvalid
    have hupdates := updates_of_valid std s.table hvalid hroute
    simp only [EqualIsSame, hvalid, hroute, Option.mem_def, Option.some.injEq, true_imp_iff,
      forall_eq']
    constructor
    · intro h cached hcached hsame
      obtain ⟨cached', hcached', hperm⟩ := h e.topic (p :: ps) (by simp)
      rw [hupdates, hcached, if_pos (by simpa using hsame)] at hcached'
      cases hcached.symm.trans hcached'
      exact hperm
    · intro h topic partitions hdelivered
      simp only [if_true] at hdelivered
      by_cases htopic : topic = e.topic
      · subst htopic
        rw [Function.update_self, Option.some.injEq] at hdelivered
        subst hdelivered
        simp only [hupdates]
        split_ifs with hany
        · cases hcached : s.table e.topic with
          | none => simp [hcached] at hany
          | some cached =>
            rw [hcached, Option.any_some] at hany
            exact ⟨cached, rfl, h cached hcached hany⟩
        · exact ⟨_, Function.update_self _ _ _, std.perm _⟩
      · rw [Function.update_of_ne htopic] at hdelivered
        obtain ⟨cached, hcached, hperm⟩ := hs topic partitions hdelivered
        refine ⟨cached, ?_, hperm⟩
        simp only [hupdates]
        split_ifs
        · exact hcached
        · rw [Function.update_of_ne htopic]
          exact hcached
  · rw [Bool.not_eq_true] at hvalid
    refine iff_of_true ?_ fun h => by simp [hvalid] at h
    intro topic partitions hdelivered
    simp only [hvalid, Bool.false_eq_true, if_false] at hdelivered
    rw [updates_of_not_valid std s.table hvalid]
    exact hs topic partitions hdelivered

/-- A delivery that is not valid leaves the table alone, and the cache follows what is
delivered along a run exactly if each valid route that compares equal to the cached
one has the same partitions. -/
theorem follows_along_iff (std : StdSort Partition.less) :
    (∀ table (e : Event), e.valid = false → e.updates std table = table) ∧
    ∀ es : List Event, (machine std).Along Follows (machine std).init es ↔
      (machine std).Guarded (EqualIsSame std) (machine std).init es := by
  refine ⟨fun table e h => updates_of_not_valid std table h, fun es => ?_⟩
  refine (machine std).along_iff_guarded (J := fun _ => True) (A := fun _ => True)
    (fun _ _ _ _ _ _ => trivial) (fun _ _ _ _ hs _ ht => step_follows_iff std hs ht) es
    (fun _ _ => trivial) trivial ?_
  intro topic partitions h
  cases h

def onePartition (serviceAddress : String) : List Partition :=
  [{ topic := "abc", brokerName := "a", serviceAddress := serviceAddress }]

theorem follows_null_route :
    Event.updates Partition.insertionSort (fun _ => some (onePartition "a:10911"))
        { topic := "abc", route := none } = (fun _ => some (onePartition "a:10911")) ∧
      (machine Partition.insertionSort).Along Follows (machine Partition.insertionSort).init
        [{ topic := "abc", route := some (onePartition "a:10911") }] := by
  refine ⟨(follows_along_iff Partition.insertionSort).1 _ _ rfl, ?_⟩
  rw [(follows_along_iff Partition.insertionSort).2]
  intro t ht
  refine ⟨fun _ partitions _ cached hcached => ?_, trivial⟩
  cases hcached

theorem moved_broker_ignored :
    ∃ s, (machine Partition.insertionSort).run
        [{ topic := "abc", route := some (onePartition "a:10911") },
          { topic := "abc", route := some (onePartition "b:10911") }] = some s ∧
      ¬ Follows s := by
  refine ⟨_, rfl, fun h => ?_⟩
  obtain ⟨cached, hcached, hperm⟩ := h "abc" (onePartition "b:10911") rfl
  have hold : cached = onePartition "a:10911" := by
    cases hcached
    rfl
  rw [hold] at hperm
  exact absurd (hperm.eq_singleton) (by decide)

end RouteCache
end RocketMQClient
