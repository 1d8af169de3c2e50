import RocketMQClient.Message
import RocketMQClient.Library.EventMachine
import RocketMQClient.Library.Pending
import RocketMQClient.Library.RoundRobin

/-!
# Moving on from a name server that does not answer

A lookup of a route asks the name server that is current, and if it fails it moves the
resolver on by one. The client refreshes the routes of all its topics at once, so that many
lookups ask one server, and each of those that fail moves the resolver on. `up` are the
name servers that answer.
-/

namespace RocketMQClient.NameServerFailover
open EventMachine EventMachine.Machine Pending

/-- `absl::StrSplit` gives at least one entry. -/
structure StaticNameServerResolver where
  nameServerList : List String
  nonempty : nameServerList ≠ []
  index : UInt32 := 0

namespace StaticNameServerResolver

def current (r : StaticNameServerResolver) : String :=
  r.nameServerList.get
    ⟨r.index.toNat % r.nameServerList.length, Nat.mod_lt _ (List.length_pos_iff.mpr r.nonempty)⟩

def next (r : StaticNameServerResolver) : StaticNameServerResolver :=
  { r with index := r.index + 1 }

end StaticNameServerResolver

structure State where
  resolver : StaticNameServerResolver
  pending : List (String × String) := []
  answered : List String := []

inductive Event
  | fetchRouteFor (topic : String)
  | completed (i : ℕ)

def fetchRouteFor (s : State) (topic : String) : State :=
  if s.resolver.current = "" then s
  else { s with pending := s.pending ++ [(topic, s.resolver.current)] }

def completed (up : String → Bool) (s : State) (topic server : String) : State :=
  if up server then { s with answered := s.answered ++ [topic] }
  else { s with resolver := s.resolver.next }

def step (up : String → Bool) (s : State) : Event → Option State
  | .fetchRouteFor topic => some (fetchRouteFor s topic)
  | .completed i => (pick s.pending i).map fun ((topic, server), rest) =>
      completed up { s with pending := rest } topic server

def machine (up : String → Bool) (r : StaticNameServerResolver) : Machine State Event where
  init := { resolver := r }
  step := step up

/-- `updateRouteInfo`, when the answers come after all lookups were sent. -/
def updateRouteInfo (topics : List String) : List Event :=
  topics.map .fetchRouteFor ++ List.replicate topics.length (.completed 0)

def StaticNameServerResolver.moved (r : StaticNameServerResolver) (m : ℕ) :
    StaticNameServerResolver :=
  { r with index := r.index + UInt32.ofNat m }

theorem moved_next (r : StaticNameServerResolver) (m : ℕ) : r.next.moved m = r.moved (m + 1) := by
  simp only [StaticNameServerResolver.next, StaticNameServerResolver.moved]
  congr 1
  rw [UInt32.ofNat_add, UInt32.add_assoc, UInt32.add_comm 1]
  rfl

theorem moved_moved (r : StaticNameServerResolver) (m k : ℕ) :
    (r.moved m).moved k = r.moved (m + k) := by
  simp only [StaticNameServerResolver.moved]
  congr 1
  rw [UInt32.ofNat_add, UInt32.add_assoc]

section Rounds
variable {up : String → Bool} {r : StaticNameServerResolver} {topics : List String}

theorem fetches_run (s : State) (hname : s.resolver.current ≠ "") :
    (machine up r).runFrom s (topics.map .fetchRouteFor) =
      some { s with pending := s.pending ++ topics.map fun topic =>
        (topic, s.resolver.current) } := by
  induction topics generalizing s with
  | nil => simp [runFrom]
  | cons topic topics ih =>
    have hstep : (machine up r).step s (.fetchRouteFor topic) =
        some { s with pending := s.pending ++ [(topic, s.resolver.current)] } := by
      simp [machine, step, fetchRouteFor, hname]
    have hrest := ih { s with pending := s.pending ++ [(topic, s.resolver.current)] } hname
    rw [List.map_cons, runFrom, hstep, Option.bind_some, hrest]
    simp

theorem answers_run {server : String} (hup : up server = true) (resolver : StaticNameServerResolver)
    (answered : List String) :
    (machine up r).runFrom ⟨resolver, topics.map fun topic => (topic, server), answered⟩
      (List.replicate topics.length (.completed 0)) =
      some ⟨resolver, [], answered ++ topics⟩ := by
  induction topics generalizing answered with
  | nil => simp [runFrom]
  | cons topic topics ih =>
    have hstep : (machine up r).step
        ⟨resolver, (topic :: topics).map fun topic => (topic, server), answered⟩ (.completed 0) =
        some ⟨resolver, topics.map fun topic => (topic, server), answered ++ [topic]⟩ := by
      simp [machine, step, pick, completed, hup]
    rw [List.length_cons, List.replicate_succ, runFrom, hstep, Option.bind_some, ih]
    simp

theorem failures_run {server : String} (hup : up server = false)
    (resolver : StaticNameServerResolver) (answered : List String) :
    (machine up r).runFrom ⟨resolver, topics.map fun topic => (topic, server), answered⟩
      (List.replicate topics.length (.completed 0)) =
      some ⟨resolver.moved topics.length, [], answered⟩ := by
  induction topics generalizing resolver with
  | nil => simp [runFrom, StaticNameServerResolver.moved]
  | cons topic topics ih =>
    have hstep : (machine up r).step
        ⟨resolver, (topic :: topics).map fun topic => (topic, server), answered⟩ (.completed 0) =
        some ⟨resolver.next, topics.map fun topic => (topic, server), answered⟩ := by
      simp [machine, step, pick, completed, hup]
    rw [List.length_cons, List.replicate_succ, runFrom, hstep, Option.bind_some, ih, moved_next]

theorem updateRouteInfo_run (resolver : StaticNameServerResolver) (answered : List String)
    (hname : resolver.current ≠ "") :
    (machine up r).runFrom ⟨resolver, [], answered⟩ (updateRouteInfo topics) =
      some (if up resolver.current then ⟨resolver, [], answered ++ topics⟩
        else ⟨resolver.moved topics.length, [], answered⟩) := by
  rw [updateRouteInfo, runFrom_append, fetches_run _ hname, Option.bind_some, List.nil_append]
  by_cases hup : up resolver.current = true
  · rw [answers_run hup, if_pos hup]
  · rw [failures_run (by simpa using hup), if_neg hup]

def rounds (topics : List String) (m : ℕ) : List Event :=
  (List.replicate m (updateRouteInfo topics)).flatten

theorem current_mem (resolver : StaticNameServerResolver) :
    resolver.current ∈ resolver.nameServerList :=
  List.get_mem _ _

theorem rounds_run_of_down (hnames : "" ∉ r.nameServerList) {m : ℕ}
    (hdown : ∀ t < m, up (r.moved (topics.length * t)).current = false) :
    (machine up r).run (rounds topics m) = some ⟨r.moved (topics.length * m), [], []⟩ := by
  induction m with
  | zero => simp [rounds, run, runFrom, machine, StaticNameServerResolver.moved]
  | succ m ih =>
    have hname : (r.moved (topics.length * m)).current ≠ "" := by
      intro heq
      exact hnames (heq ▸ current_mem (r.moved (topics.length * m)))
    have hprefix := ih fun t ht => hdown t (by omega)
    rw [rounds, List.replicate_succ', List.flatten_concat, ← rounds]
    rw [run, runFrom_append, ← run, hprefix, Option.bind_some, updateRouteInfo_run _ _ hname]
    simp [hdown m (by omega), moved_moved, Nat.mul_succ]

theorem answered_iff (hnames : "" ∉ r.nameServerList) (htopics : topics ≠ []) (n : ℕ) :
    (∃ m ≤ n, ∃ s, (machine up r).run (rounds topics m) = some s ∧ s.answered ≠ []) ↔
      ∃ t < n, up (r.moved (topics.length * t)).current = true := by
  constructor
  · intro ⟨m, hm, s, hrun, hanswered⟩
    by_contra hnone
    push Not at hnone
    rw [rounds_run_of_down hnames fun t ht => by simpa using hnone t (by omega),
      Option.some.injEq] at hrun
    subst hrun
    simp at hanswered
  · intro hsome
    classical
    obtain ⟨hlt, hup⟩ := Nat.find_spec hsome
    have hdown : ∀ t < Nat.find hsome, up (r.moved (topics.length * t)).current = false := by
      intro t ht
      have hmin := Nat.find_min hsome ht
      simpa [Nat.lt_trans ht hlt] using hmin
    have hname : (r.moved (topics.length * Nat.find hsome)).current ≠ "" := by
      intro heq
      exact hnames (heq ▸ current_mem (r.moved (topics.length * Nat.find hsome)))
    refine ⟨Nat.find hsome + 1, hlt, ⟨r.moved (topics.length * Nat.find hsome), [], topics⟩, ?_,
      htopics⟩
    rw [rounds, List.replicate_succ', List.flatten_concat, ← rounds]
    rw [run, runFrom_append, ← run, rounds_run_of_down hnames hdown, Option.bind_some,
      updateRouteInfo_run _ _ hname, if_pos hup, List.nil_append]

theorem moved_current {m : ℕ} (hwrap : r.index.toNat + m < 2 ^ 32) :
    r.nameServerList[(r.index.toNat + m) % r.nameServerList.length]? =
      some (r.moved m).current := by
  have htoNat : (r.index + UInt32.ofNat m).toNat = r.index.toNat + m := by
    rw [UInt32.toNat_add, UInt32.toNat_ofNat']
    omega
  have hlt : (r.index.toNat + m) % r.nameServerList.length < r.nameServerList.length :=
    Nat.mod_lt _ (List.length_pos_iff.mpr r.nonempty)
  rw [List.getElem?_eq_getElem hlt]
  simp [StaticNameServerResolver.current, StaticNameServerResolver.moved, htoNat]

end Rounds

theorem every_outage_survived_iff (r : StaticNameServerResolver) (hnodup : r.nameServerList.Nodup)
    (hnames : "" ∉ r.nameServerList) {topics : List String} (htopics : topics ≠ [])
    (hwrap : r.index.toNat + topics.length * r.nameServerList.length < 2 ^ 32) :
    (∀ up : String → Bool, (∃ server ∈ r.nameServerList, up server = true) →
      ∃ m ≤ r.nameServerList.length, ∃ s, (machine up r).run (rounds topics m) = some s ∧
        s.answered ≠ []) ↔
      topics.length.Coprime r.nameServerList.length := by
  have hcurrent : ∀ t < r.nameServerList.length,
      r.nameServerList[(r.index.toNat + topics.length * t) % r.nameServerList.length]? =
        some (r.moved (topics.length * t)).current := by
    intro t ht
    have hle := Nat.mul_le_mul_left topics.length (Nat.le_of_lt ht)
    exact moved_current (by omega)
  rw [← RoundRobin.exists_add_mul_mod_iff (List.length_pos_iff.mpr r.nonempty) r.index.toNat]
  constructor
  · intro hsurvives j hj
    have hj' := List.getElem?_eq_getElem hj
    obtain ⟨t, ht, hup⟩ := (answered_iff hnames htopics _).mp
      (hsurvives (· == r.nameServerList[j]) ⟨_, List.getElem_mem hj, by simp⟩)
    refine ⟨t, ht, ?_⟩
    have hat := hcurrent t ht
    rw [beq_iff_eq.mp hup, ← hj'] at hat
    exact (List.getElem?_inj (Nat.mod_lt _ (List.length_pos_iff.mpr r.nonempty)) hnodup).mp hat
  · intro hvisits up ⟨server, hserver, hup⟩
    obtain ⟨j, hj, rfl⟩ := List.mem_iff_getElem.mp hserver
    obtain ⟨t, ht, hmod⟩ := hvisits j hj
    apply (answered_iff hnames htopics _).mpr
    refine ⟨t, ht, ?_⟩
    have hat := hcurrent t ht
    rw [hmod, List.getElem?_eq_getElem hj, Option.some.injEq] at hat
    rw [← hat, hup]

def pairOfServers : StaticNameServerResolver := ⟨["a:9876", "b:9876"], by decide, 0⟩

theorem pairOfServers_current (t : ℕ) : (pairOfServers.moved (2 * t)).current = "a:9876" := by
  have hindex : (pairOfServers.index + UInt32.ofNat (2 * t)).toNat % 2 = 0 := by
    have hzero : pairOfServers.index = 0 := rfl
    rw [hzero, UInt32.zero_add, UInt32.toNat_ofNat']
    omega
  have hget : pairOfServers.nameServerList[(pairOfServers.index +
      UInt32.ofNat (2 * t)).toNat % 2]? = some (pairOfServers.moved (2 * t)).current :=
    List.getElem?_eq_getElem _
  rw [hindex] at hget
  exact (Option.some.inj hget).symm

/-- Two name servers, the second of which is up: the routes of two topics are never refreshed. -/
theorem two_topics_two_servers :
    ¬ (∀ up : String → Bool, (∃ server ∈ pairOfServers.nameServerList, up server = true) →
      ∃ m ≤ pairOfServers.nameServerList.length, ∃ s,
        (machine up pairOfServers).run (rounds ["t1", "t2"] m) = some s ∧ s.answered ≠ []) ∧
    ∀ m, ∃ s, (machine (· == "b:9876") pairOfServers).run (rounds ["t1", "t2"] m) = some s ∧
      s.answered = [] := by
  have htopics : ["t1", "t2"] ≠ [] := by decide
  constructor
  · intro hsurvives
    have hcoprime := (every_outage_survived_iff pairOfServers (by decide) (by decide) htopics
      (by decide)).mp hsurvives
    exact absurd hcoprime (by decide)
  · intro m
    refine ⟨_, rounds_run_of_down (by decide) fun t _ => ?_, rfl⟩
    have hcurrent : (pairOfServers.moved (["t1", "t2"].length * t)).current = "a:9876" :=
      pairOfServers_current t
    rw [hcurrent]
    decide

end RocketMQClient.NameServerFailover
