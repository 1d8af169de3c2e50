import RocketMQClient.PublishInfo
import RocketMQClient.Library.EventMachine
import RocketMQClient.Library.Pending
import RocketMQClient.Library.WaitTable

/-!
# Route lookups

`getRouteFor` answers from the route table, joins the lookup in flight for its
topic, or opens one. The threads interleave at the locks: a call is interrupted
between the first look at the table and the second one under the lock, and again
before `fetchRouteFor`; the completion of a query updates the table, then drains
the callers in flight, then calls them one by one.

`fetchRouteFor` issues no query when the resolver has no current name server, and
it throws when the port of a listed name server is not a number. In both cases
the callback passed to it is dropped.

Callers are numbered in the order of their calls. The periodic refresh of the
table queries routes as well, for topics that the table has.
-/

namespace RocketMQClient.RouteLookup
open EventMachine Pending WaitTable

abbrev TopicRouteData := List Partition

abbrev RouteTable := String → Option TopicRouteData

abbrev RouteResult := Except ErrorCode TopicRouteData

inductive Work
  | looking (caller : ℕ) (topic : String)
  | fetching (topic : String)
  | query (topic : String)
  | refresh (topic : String)
  | applied (topic : String) (result : RouteResult)
  | draining (callers : List ℕ) (result : RouteResult)

structure State where
  routeTable : RouteTable := fun _ => none
  inflight : List (String × List ℕ) := []
  pending : List Work := []
  calls : ℕ := 0
  invoked : List ℕ := []

structure Resolver where
  current : String := ""
  nameServers : List String := []

inductive Outcome
  | run
  | fetch (resolver : Resolver)
  | completed (result : RouteResult)

inductive Event
  | getRouteFor (topic : String)
  | updateRouteInfo (topic : String) (resolver : Resolver)
  | resume (i : ℕ) (outcome : Outcome)

/-- `std::stoi`: blanks, a sign, and at least one digit, within the range of an `int`. -/
def stoi (s : List Char) : Option ℤ :=
  let s := s.dropWhile fun c => c == ' ' || ('\t' ≤ c && c ≤ '\r')
  let signed := match s with
    | '-' :: rest => (-1, rest)
    | '+' :: rest => (1, rest)
    | _ => ((1 : ℤ), s)
  let digits := signed.2.takeWhile Char.isDigit
  let magnitude : ℕ := digits.foldl (fun n c => 10 * n + (c.toNat - '0'.toNat)) 0
  let value : ℤ := signed.1 * (magnitude : ℤ)
  if digits.isEmpty then none
  else if value < -2 ^ 31 ∨ 2 ^ 31 ≤ value then none
  else some value

def portOf (item : String) : Option (List Char) :=
  let reversed := item.toList.reverse
  if reversed.contains ':' then some (reversed.takeWhile (· ≠ ':')).reverse else none

def setAccessPoint (nameServers : List String) : Option (List ℤ) :=
  (nameServers.filterMap portOf).mapM stoi

def Resolver.issues (r : Resolver) : Bool :=
  !r.current.isEmpty && (setAccessPoint r.nameServers).isSome

def State.add (s : State) (w : Work) : State := { s with pending := s.pending ++ [w] }

def State.invoke (s : State) (caller : ℕ) : State := { s with invoked := s.invoked ++ [caller] }

def getRouteFor (s : State) (topic : String) : State :=
  let caller := s.calls
  let s := { s with calls := s.calls + 1 }
  match s.routeTable topic with
  | some _ => s.invoke caller
  | none => s.add (.looking caller topic)

def joinOrOpen (s : State) (caller : ℕ) (topic : String) : State :=
  match s.routeTable topic with
  | some _ => s.invoke caller
  | none =>
    if topic ∈ keys s.inflight then { s with inflight := join topic caller s.inflight }
    else { s with inflight := s.inflight ++ [(topic, [caller])] }.add (.fetching topic)

def fetchRouteFor (s : State) (resolver : Resolver) (call : Work) : State :=
  if resolver.issues then s.add call else s

def RouteTable.updateRouteCache (table : RouteTable) (topic : String) (ec : Option ErrorCode)
    (route : Option TopicRouteData) : RouteTable :=
  match ec, route with
  | none, some route =>
    if route.isEmpty then table
    else match table topic with
      | none => Function.update table topic (some route)
      | some cached =>
        if !sameRoute cached route then Function.update table topic (some route) else table
  | _, _ => table

def RouteTable.replaces (table : RouteTable) (topic : String) (ec : Option ErrorCode)
    (route : Option TopicRouteData) : Bool :=
  ec.isNone && route.any fun r => !r.isEmpty && (table topic).all fun cached => !sameRoute cached r

theorem RouteTable.updateRouteCache_eq (table : RouteTable) (topic : String)
    (ec : Option ErrorCode) (route : Option TopicRouteData) :
    table.updateRouteCache topic ec route =
      if table.replaces topic ec route then Function.update table topic route else table := by
  match ec, route with
  | some _, _ => rfl
  | none, none => rfl
  | none, some r =>
    by_cases hempty : r.isEmpty = true
    · simp [updateRouteCache, replaces, hempty]
    · cases htable : table topic with
      | none => simp [updateRouteCache, replaces, hempty, htable]
      | some cached => simp [updateRouteCache, replaces, hempty, htable]

def updateRouteCache (s : State) (topic : String) (result : RouteResult) : State :=
  { s with routeTable := match result with
      | .error ec => s.routeTable.updateRouteCache topic (some ec) none
      | .ok route => s.routeTable.updateRouteCache topic none (some route) }

/-- `onTopicRouteReady` takes the callers in flight. A missing key fails an assertion. -/
def takePending (s : State) (topic : String) (result : RouteResult) : Option State :=
  (drain topic s.inflight).map fun r =>
    { s with inflight := r.2 }.add (.draining r.1 result)

def invokeNext (s : State) (callers : List ℕ) (result : RouteResult) : State :=
  match callers with
  | [] => s
  | caller :: callers => (s.invoke caller).add (.draining callers result)

def resume (s : State) : Work → Outcome → Option State
  | .looking caller topic, .run => some (joinOrOpen s caller topic)
  | .fetching topic, .fetch resolver => some (fetchRouteFor s resolver (.query topic))
  | .query topic, .completed result =>
    some ((updateRouteCache s topic result).add (.applied topic result))
  | .refresh topic, .completed result => some (updateRouteCache s topic result)
  | .applied topic result, .run => takePending s topic result
  | .draining callers result, .run => some (invokeNext s callers result)
  | _, _ => none

def step (s : State) : Event → Option State
  | .getRouteFor topic => some (getRouteFor s topic)
  | .updateRouteInfo topic resolver =>
    if (s.routeTable topic).isSome then some (fetchRouteFor s resolver (.refresh topic)) else none
  | .resume i outcome =>
    (pick s.pending i).bind fun r => resume { s with pending := r.2 } r.1 outcome

def machine : Machine State Event where
  init := {}
  step := step

def Work.callers : Work → List ℕ
  | .looking caller _ => [caller]
  | .draining callers _ => callers
  | _ => []

def Work.owned : Work → List String
  | .fetching topic => [topic]
  | .query topic => [topic]
  | .applied topic _ => [topic]
  | _ => []

def owners (s : State) : List String := s.pending.flatMap Work.owned

def callers (s : State) : List ℕ :=
  s.pending.flatMap Work.callers ++ waiters s.inflight ++ s.invoked

def Work.isFetching : Work → Bool
  | .fetching _ => true
  | _ => false

def fetched (s : State) : Event → Option Resolver
  | .resume i (.fetch resolver) =>
    if (pick s.pending i).any (fun r => r.1.isFetching) then some resolver else none
  | _ => none

def IssuesQuery (s : State) (e : Event) : Prop := (fetched s e).all Resolver.issues = true

inductive Effect (s : State) (e : Event) (t : State) : Prop
  | works (owners : (owners t).Perm (owners s)) (keys : keys t.inflight = keys s.inflight)
      (callers : (callers t).Perm (callers s)) (calls : t.calls = s.calls)
      (ok : IssuesQuery s e)
  | arrives (owners : (owners t).Perm (owners s)) (keys : keys t.inflight = keys s.inflight)
      (callers : (callers t).Perm (s.calls :: callers s)) (calls : t.calls = s.calls + 1)
      (ok : IssuesQuery s e)
  | opens (topic : String) (new : topic ∉ keys s.inflight)
      (owners : (owners t).Perm (topic :: owners s))
      (keys : (keys t.inflight).Perm (topic :: keys s.inflight))
      (callers : (callers t).Perm (callers s)) (calls : t.calls = s.calls) (ok : IssuesQuery s e)
  | closes (topic : String) (owners : (owners s).Perm (topic :: owners t))
      (keys : (keys s.inflight).Perm (topic :: keys t.inflight))
      (callers : (callers t).Perm (callers s)) (calls : t.calls = s.calls) (ok : IssuesQuery s e)
  | loses (topic : String) (owners : (owners s).Perm (topic :: owners t))
      (keys : keys t.inflight = keys s.inflight)
      (callers : (callers t).Perm (callers s)) (calls : t.calls = s.calls)
      (ok : ¬ IssuesQuery s e)

theorem updateRouteCache_rest (s : State) (topic : String) (result : RouteResult) :
    (updateRouteCache s topic result).pending = s.pending ∧
    (updateRouteCache s topic result).inflight = s.inflight ∧
    (updateRouteCache s topic result).calls = s.calls ∧
    (updateRouteCache s topic result).invoked = s.invoked :=
  ⟨rfl, rfl, rfl, rfl⟩

theorem getRouteFor_effect (s : State) (topic : String) :
    Effect s (.getRouteFor topic) (getRouteFor s topic) := by
  simp only [getRouteFor]
  split
  · refine .arrives (List.Perm.refl _) rfl ?_ rfl rfl
    simp only [callers, State.invoke, ← List.append_assoc]
    exact List.perm_append_singleton _ _
  · refine .arrives ?_ rfl ?_ rfl rfl
    · simp [owners, State.add, Work.owned]
    · apply List.perm_iff_count.mpr
      intro x
      simp only [callers, State.add, List.flatMap_append, List.flatMap_cons, List.flatMap_nil,
        Work.callers, List.count_append, List.count_cons, List.count_nil, List.append_nil]
      omega

theorem pick_owners {s : State} {i : ℕ} {w : Work} {rest : List Work}
    (h : pick s.pending i = some (w, rest)) :
    (owners s).Perm (w.owned ++ rest.flatMap Work.owned) :=
  (pick_perm h).flatMap_right Work.owned

theorem pick_callers {s : State} {i : ℕ} {w : Work} {rest : List Work}
    (h : pick s.pending i = some (w, rest)) :
    (callers s).Perm
      (w.callers ++ (rest.flatMap Work.callers ++ waiters s.inflight ++ s.invoked)) := by
  have hp := (pick_perm h).flatMap_right Work.callers
  rw [← List.append_assoc, ← List.append_assoc]
  exact (hp.append_right _).append_right _

theorem joinOrOpen_effect {s : State} {i : ℕ} {caller : ℕ} {topic : String} {rest : List Work}
    (h : pick s.pending i = some (.looking caller topic, rest)) :
    Effect s (.resume i .run) (joinOrOpen { s with pending := rest } caller topic) := by
  have ho := pick_owners h
  have hc := pick_callers h
  simp only [joinOrOpen]
  split
  · refine .works ho.symm rfl (List.Perm.trans ?_ hc.symm) rfl rfl
    simp only [callers, State.invoke, Work.callers, List.singleton_append, ← List.append_assoc]
    exact List.perm_append_singleton _ _
  · split_ifs with hkey
    · refine .works ho.symm (keys_join _ _ _) (List.Perm.trans ?_ hc.symm) rfl rfl
      have hjoin := waiters_join caller hkey
      apply List.perm_iff_count.mpr
      intro x
      have hx := hjoin.count_eq x
      simp only [callers, Work.callers, List.count_append, List.count_cons, List.count_nil] at hx ⊢
      omega
    · refine .opens topic hkey ?_ ?_ (List.Perm.trans ?_ hc.symm) rfl rfl
      · simp only [owners, State.add, List.flatMap_append, List.flatMap_singleton, Work.owned]
        refine (List.perm_append_singleton _ _).trans (ho.symm.cons topic)
      · simp only [State.add, keys, List.map_append, List.map_singleton]
        exact List.perm_append_singleton _ _
      · apply List.perm_iff_count.mpr
        intro x
        simp only [callers, State.add, Work.callers, waiters, List.flatMap_append,
          List.flatMap_singleton, List.count_append, List.count_cons, List.count_nil]
        omega

theorem fetching_effect {s : State} {i : ℕ} {topic : String} {rest : List Work}
    (h : pick s.pending i = some (.fetching topic, rest)) (resolver : Resolver) :
    Effect s (.resume i (.fetch resolver))
      (fetchRouteFor { s with pending := rest } resolver (.query topic)) := by
  have ho := pick_owners h
  have hc := pick_callers h
  have hok : IssuesQuery s (.resume i (.fetch resolver)) ↔ resolver.issues = true := by
    simp [IssuesQuery, fetched, h, Work.isFetching]
  rw [fetchRouteFor]
  split_ifs with hissues
  · refine .works (List.Perm.trans ?_ ho.symm) rfl (List.Perm.trans ?_ hc.symm) rfl
      (hok.mpr hissues)
    · simp only [owners, State.add, List.flatMap_append, List.flatMap_singleton, Work.owned]
      exact List.perm_append_comm
    · simp [callers, State.add, Work.callers]
  · exact .loses topic ho rfl hc.symm rfl (mt hok.mp hissues)

theorem query_effect {s : State} {i : ℕ} {topic : String} {rest : List Work}
    (h : pick s.pending i = some (.query topic, rest)) (result : RouteResult) :
    Effect s (.resume i (.completed result))
      ((updateRouteCache { s with pending := rest } topic result).add (.applied topic result)) := by
  obtain ⟨hp, hi, hcalls, hinvoked⟩ := updateRouteCache_rest { s with pending := rest } topic result
  refine .works (List.Perm.trans ?_ (pick_owners h).symm) (by simp [State.add, hi])
    (List.Perm.trans ?_ (pick_callers h).symm) hcalls rfl
  · simp only [owners, State.add, hp, List.flatMap_append, List.flatMap_singleton, Work.owned]
    exact List.perm_append_comm
  · simp [callers, State.add, Work.callers, hp, hi, hinvoked]

theorem refresh_effect {s : State} {i : ℕ} {topic : String} {rest : List Work}
    (h : pick s.pending i = some (.refresh topic, rest)) (result : RouteResult) :
    Effect s (.resume i (.completed result))
      (updateRouteCache { s with pending := rest } topic result) := by
  obtain ⟨hp, hi, hcalls, hinvoked⟩ := updateRouteCache_rest { s with pending := rest } topic result
  refine .works (List.Perm.trans ?_ (pick_owners h).symm) (by rw [hi])
    (List.Perm.trans ?_ (pick_callers h).symm) hcalls rfl
  · simp [owners, hp, Work.owned]
  · simp [callers, Work.callers, hp, hi, hinvoked]

theorem takePending_effect {s t : State} {i : ℕ} {topic : String} {result : RouteResult}
    {rest : List Work} (h : pick s.pending i = some (.applied topic result, rest))
    (ht : takePending { s with pending := rest } topic result = some t) :
    Effect s (.resume i .run) t := by
  obtain ⟨⟨taken, table⟩, hdrain, rfl⟩ := Option.map_eq_some_iff.mp ht
  obtain ⟨hkeys, hwaiters⟩ := drain_perm hdrain
  refine .closes topic ((pick_owners h).trans ?_) hkeys
    (List.Perm.trans ?_ (pick_callers h).symm) rfl rfl
  · simp [owners, State.add, Work.owned]
  · apply List.perm_iff_count.mpr
    intro x
    have hx := hwaiters.count_eq x
    simp only [callers, State.add, Work.callers, List.flatMap_append, List.flatMap_singleton,
      List.count_append, List.count_nil] at hx ⊢
    omega

theorem invokeNext_effect {s : State} {i : ℕ} {taken : List ℕ} {result : RouteResult}
    {rest : List Work} (h : pick s.pending i = some (.draining taken result, rest)) :
    Effect s (.resume i .run) (invokeNext { s with pending := rest } taken result) := by
  cases taken with
  | nil => exact .works (pick_owners h).symm rfl (pick_callers h).symm rfl rfl
  | cons caller taken =>
    refine .works (List.Perm.trans ?_ (pick_owners h).symm) rfl
      (List.Perm.trans ?_ (pick_callers h).symm) rfl rfl
    · simp [invokeNext, owners, State.add, State.invoke, Work.owned]
    · apply List.perm_iff_count.mpr
      intro x
      simp only [invokeNext, callers, State.add, State.invoke, Work.callers, List.flatMap_append,
        List.flatMap_singleton, List.count_append, List.count_cons, List.count_nil]
      omega

theorem step_effect {s t : State} {e : Event} (h : step s e = some t) : Effect s e t := by
  cases e with
  | getRouteFor topic =>
    cases h
    exact getRouteFor_effect s topic
  | updateRouteInfo topic resolver =>
    simp only [step] at h
    split_ifs at h
    cases h
    rw [fetchRouteFor]
    split_ifs
    · refine .works ?_ rfl ?_ rfl rfl
      · simp [owners, State.add, Work.owned]
      · simp [callers, State.add, Work.callers]
    · exact .works (List.Perm.refl _) rfl (List.Perm.refl _) rfl rfl
  | resume i outcome =>
    obtain ⟨⟨w, rest⟩, hpick, hres⟩ := Option.bind_eq_some_iff.mp h
    change resume { s with pending := rest } w outcome = some t at hres
    rw [resume.eq_def] at hres
    split at hres
    · cases hres
      exact joinOrOpen_effect hpick
    · cases hres
      exact fetching_effect hpick _
    · cases hres
      exact query_effect hpick _
    · cases hres
      exact refresh_effect hpick _
    · exact takePending_effect hpick hres
    · cases hres
      exact invokeNext_effect hpick
    · cases hres

structure Inv (s : State) : Prop where
  nodup : (keys s.inflight).Nodup
  perm : (callers s).Perm (List.range s.calls)

def Matched (s : State) : Prop := (owners s).Perm (keys s.inflight)

def Orphaned (s : State) : Prop := ∃ topic ∈ keys s.inflight, topic ∉ owners s

theorem Effect.inv {s t : State} {e : Event} (he : Effect s e t) (h : Inv s) : Inv t := by
  cases he with
  | works ho hk hc hn ok =>
    exact ⟨by rw [hk]; exact h.nodup, by rw [hn]; exact hc.trans h.perm⟩
  | arrives ho hk hc hn ok =>
    refine ⟨by rw [hk]; exact h.nodup, ?_⟩
    rw [hn, List.range_succ]
    exact hc.trans ((h.perm.cons _).trans (List.perm_append_singleton _ _).symm)
  | opens topic new ho hk hc hn ok =>
    exact ⟨hk.nodup_iff.mpr (List.nodup_cons.mpr ⟨new, h.nodup⟩),
      by rw [hn]; exact hc.trans h.perm⟩
  | closes topic ho hk hc hn ok =>
    exact ⟨(List.nodup_cons.mp (hk.nodup_iff.mp h.nodup)).2, by rw [hn]; exact hc.trans h.perm⟩
  | loses topic ho hk hc hn ok =>
    exact ⟨by rw [hk]; exact h.nodup, by rw [hn]; exact hc.trans h.perm⟩

theorem Effect.matched {s t : State} {e : Event} (he : Effect s e t) (hm : Matched s)
    (hok : IssuesQuery s e) : Matched t := by
  cases he with
  | works ho hk hc hn ok => exact ho.trans (hm.trans (by rw [hk]))
  | arrives ho hk hc hn ok => exact ho.trans (hm.trans (by rw [hk]))
  | opens topic new ho hk hc hn ok => exact ho.trans ((hm.cons topic).trans hk.symm)
  | closes topic ho hk hc hn ok => exact (ho.symm.trans (hm.trans hk)).cons_inv
  | loses topic ho hk hc hn ok => exact absurd hok ok

theorem Effect.orphans {s t : State} {e : Event} (he : Effect s e t) (h : Inv s) (hm : Matched s)
    (hok : ¬ IssuesQuery s e) : Orphaned t := by
  cases he with
  | works ho hk hc hn ok => exact absurd ok hok
  | arrives ho hk hc hn ok => exact absurd ok hok
  | opens topic new ho hk hc hn ok => exact absurd ok hok
  | closes topic ho hk hc hn ok => exact absurd ok hok
  | loses topic ho hk hc hn ok =>
    have hnodup : (topic :: owners t).Nodup := ho.nodup_iff.mp (hm.nodup_iff.mpr h.nodup)
    refine ⟨topic, ?_, (List.nodup_cons.mp hnodup).1⟩
    rw [hk]
    exact hm.mem_iff.mp (ho.mem_iff.mpr (by simp))

theorem Effect.orphaned {s t : State} {e : Event} (he : Effect s e t) (h : Orphaned s) :
    Orphaned t := by
  obtain ⟨topic, hkey, howner⟩ := h
  refine ⟨topic, ?_⟩
  cases he with
  | works ho hk hc hn ok => exact ⟨by rw [hk]; exact hkey, fun hm => howner (ho.mem_iff.mp hm)⟩
  | arrives ho hk hc hn ok => exact ⟨by rw [hk]; exact hkey, fun hm => howner (ho.mem_iff.mp hm)⟩
  | opens topic' new ho hk hc hn ok =>
    refine ⟨hk.mem_iff.mpr (by simp [hkey]), fun hm => ?_⟩
    rcases List.mem_cons.mp (ho.mem_iff.mp hm) with rfl | hm
    · exact new hkey
    · exact howner hm
  | closes topic' ho hk hc hn ok =>
    refine ⟨?_, fun hm => howner (ho.mem_iff.mpr (by simp [hm]))⟩
    rcases List.mem_cons.mp (hk.mem_iff.mp hkey) with rfl | hm
    · exact absurd (ho.mem_iff.mpr (by simp)) howner
    · exact hm
  | loses topic' ho hk hc hn ok =>
    exact ⟨by rw [hk]; exact hkey, fun hm => howner (ho.mem_iff.mpr (by simp [hm]))⟩

def Work.queried : Work → List String
  | .query topic => [topic]
  | _ => []

def queries (s : State) : List String := s.pending.flatMap Work.queried

def AtRest (s : State) : Prop := ∀ w ∈ s.pending, ∃ topic, w = .query topic ∨ w = .refresh topic

structure SingleFlight (s : State) : Prop where
  atMostOne : (queries s).Nodup
  neverTwice : s.invoked.Nodup
  perKey : AtRest s → ∀ topic ∈ keys s.inflight, (queries s).count topic = 1
  answered : AtRest s → queries s = [] → ∀ caller < s.calls, s.invoked.count caller = 1

theorem queries_sublist (l : List Work) :
    (l.flatMap Work.queried).Sublist (l.flatMap Work.owned) := by
  induction l with
  | nil => exact List.Sublist.refl _
  | cons w l ih =>
    have hw : w.queried.Sublist w.owned := by
      cases w <;> simp [Work.queried, Work.owned]
    exact hw.append ih

theorem AtRest.owners_eq {s : State} (h : AtRest s) : owners s = queries s := by
  apply List.flatMap_congr
  intro w hw
  obtain ⟨topic, rfl | rfl⟩ := h w hw <;> rfl

theorem AtRest.callers_eq {s : State} (h : AtRest s) :
    callers s = waiters s.inflight ++ s.invoked := by
  have hnil : s.pending.flatMap Work.callers = [] := by
    apply List.flatMap_eq_nil_iff.mpr
    intro w hw
    obtain ⟨topic, rfl | rfl⟩ := h w hw <;> rfl
  rw [callers, hnil, List.nil_append]

theorem Inv.singleFlight {s : State} (h : Inv s) (hm : Matched s) : SingleFlight s := by
  have howners : (owners s).Nodup := hm.nodup_iff.mpr h.nodup
  have hcallers : (callers s).Nodup := h.perm.nodup_iff.mpr List.nodup_range
  refine ⟨(queries_sublist s.pending).nodup howners,
    (List.sublist_append_right _ _).nodup hcallers, ?_, ?_⟩
  · intro hrest topic htopic
    rw [← hrest.owners_eq]
    exact List.count_eq_one_of_mem howners (hm.mem_iff.mpr htopic)
  · intro hrest hnone caller hcaller
    have hkeys : keys s.inflight = [] := by
      rw [← hrest.owners_eq] at hnone
      exact List.nil_perm.mp (hnone ▸ hm)
    have hinflight : s.inflight = [] := List.map_eq_nil_iff.mp hkeys
    have hall : s.invoked.Perm (List.range s.calls) := by
      simpa [hrest.callers_eq, hinflight, waiters] using h.perm
    rw [hall.count_eq]
    exact List.count_eq_one_of_mem List.nodup_range (List.mem_range.mpr hcaller)

theorem SingleFlight.not_orphaned {s : State} (h : SingleFlight s) (hrest : AtRest s) :
    ¬ Orphaned s := by
  rintro ⟨topic, hkey, howner⟩
  rw [hrest.owners_eq] at howner
  have hcount := h.perKey hrest topic hkey
  rw [List.count_eq_zero_of_not_mem howner] at hcount
  cases hcount

theorem inv_init : Inv machine.init := ⟨List.nodup_nil, List.Perm.refl _⟩

/-- A run in which every fetch issues its query is single-flight and answers every
caller once; and a run that ends at rest with that property has issued them all. -/
theorem singleFlight_along (es : List Event) :
    (machine.Guarded IssuesQuery machine.init es → machine.Along SingleFlight machine.init es) ∧
    ∀ t, machine.run es = some t → AtRest t → machine.Along SingleFlight machine.init es →
      machine.Guarded IssuesQuery machine.init es := by
  have hJ : ∀ s e t, Inv s ∧ Matched s → IssuesQuery s e → machine.step s e = some t →
      Inv t ∧ Matched t :=
    fun s e t h hok ht => ⟨(step_effect ht).inv h.1, (step_effect ht).matched h.2 hok⟩
  have hinit : Inv machine.init ∧ Matched machine.init := ⟨inv_init, List.Perm.refl _⟩
  constructor
  · intro hg
    exact machine.along_of_guarded hJ (fun s h => h.1.singleFlight h.2) hinit hg
  · intro t hrun hrest halong
    have hlast : SingleFlight t := Machine.Along.last machine halong hrun
    exact machine.guarded_of_last hJ (fun s e t h hok ht => (step_effect ht).orphans h.1 h.2 hok)
      (fun s e t h ht => (step_effect ht).orphaned h) hinit hrun (hlast.not_orphaned hrest)

instance (s : State) (e : Event) : Decidable (IssuesQuery s e) :=
  inferInstanceAs (Decidable (_ = true))

theorem singleFlight_two_callers :
    machine.Along SingleFlight machine.init
      [.getRouteFor "abc", .getRouteFor "abc", .resume 0 .run, .resume 0 .run,
        .resume 0 (.fetch { current := "ns:9876", nameServers := ["ns:9876"] }),
        .resume 0 (.completed (.error .notFound)), .resume 0 .run, .resume 0 .run] :=
  (singleFlight_along _).1 (by decide)

theorem caller_never_answered :
    ∃ s, machine.run [.getRouteFor "abc", .resume 0 .run, .resume 0 (.fetch {})] = some s ∧
      AtRest s ∧ keys s.inflight = ["abc"] ∧ queries s = [] ∧ s.calls = 1 ∧ s.invoked = [] ∧
      ¬ SingleFlight s := by
  refine ⟨_, rfl, ?_, rfl, rfl, rfl, rfl, fun h => ?_⟩
  · intro w hw
    cases hw
  · have hcount := h.perKey (fun w hw => by cases hw) "abc" (by decide)
    exact absurd hcount (by decide)

end RocketMQClient.RouteLookup
