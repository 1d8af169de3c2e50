import RocketMQClient.Message
import RocketMQClient.Library.EventMachine
import RocketMQClient.Library.Pending
import RocketMQClient.Library.Slots
import Mathlib.Data.List.AList

/-!
# Client managers, shared by the clients of a namespace

The factory keeps a weak pointer to the client manager of each resource namespace. A client
that starts takes the manager that is there, or has one made, and calls `start` on it; it
lets it go as it shuts down. Process queues hold the manager of their consumer, and the
manager's own threads hold it while a scheduled task or a callback runs. When nobody holds
it any more, a manager is destroyed.

`ClientManagerImpl::start` reads the state and stores another one in two steps, so between
them a second client can read the same state.
-/

namespace RocketMQClient.ClientManagers
open EventMachine EventMachine.Machine Pending Slots

/-- `willStart` has read that the manager is not started, and will start it. -/
inductive Phase
  | created
  | obtained (manager : ℕ)
  | willStart (manager : ℕ)
  | starting (manager : ℕ)
  | running (manager : ℕ)
  | stopped
  deriving DecidableEq, Repr

structure Manager where
  resourceNamespace : String
  state : LifeState := .created
  launches : ℕ := 0
  deriving DecidableEq, Repr

/-- `queues` are the managers held by process queues, and `locks` those held by threads of
their own. -/
structure State where
  phases : List Phase
  queues : List ℕ := []
  locks : List ℕ := []
  managers : List Manager := []
  clientManagerTable : AList fun _ : String => ℕ := ∅

inductive Event
  | getClientManager (i : ℕ)
  | readState (i : ℕ)
  | launch (i : ℕ)
  | started (i : ℕ)
  | reset (i : ℕ)
  | createProcessQueue (i : ℕ)
  | destroyProcessQueue (k : ℕ)
  | lock (manager : ℕ)
  | unlock (k : ℕ)
  deriving DecidableEq, Repr

def Phase.manager? : Phase → Option ℕ
  | .created => none
  | .obtained m => some m
  | .willStart m => some m
  | .starting m => some m
  | .running m => some m
  | .stopped => none

namespace State

def alive (s : State) (m : ℕ) : Bool :=
  s.phases.any (fun p => p.manager? == some m) || s.queues.contains m || s.locks.contains m

def become (s : State) (i : ℕ) (p : Phase) : State := { s with phases := s.phases.set i p }

def update (s : State) (m : ℕ) (f : Manager → Manager) : State :=
  { s with managers := s.managers.modify m f }

def make (s : State) (i : ℕ) (resourceNamespace : String) : State :=
  { s.become i (.obtained s.managers.length) with
    managers := s.managers ++ [{ resourceNamespace := resourceNamespace }]
    clientManagerTable := s.clientManagerTable.insert resourceNamespace s.managers.length }

def getClientManager (s : State) (i : ℕ) (resourceNamespace : String) : State :=
  match s.clientManagerTable.lookup resourceNamespace with
  | some m => if s.alive m then s.become i (.obtained m) else s.make i resourceNamespace
  | none => s.make i resourceNamespace

end State

def step (namespaces : List String) (s : State) : Event → Option State
  | .getClientManager i =>
    match s.phases[i]? with
    | some .created => namespaces[i]?.map (s.getClientManager i)
    | _ => none
  | .readState i =>
    match s.phases[i]? with
    | some (.obtained m) => s.managers[m]?.map fun manager =>
        s.become i (if manager.state = .created then .willStart m else .running m)
    | _ => none
  | .launch i =>
    match s.phases[i]? with
    | some (.willStart m) => some ((s.become i (.starting m)).update m fun manager =>
        { manager with state := .starting, launches := manager.launches + 1 })
    | _ => none
  | .started i =>
    match s.phases[i]? with
    | some (.starting m) => some ((s.become i (.running m)).update m fun manager =>
        { manager with state := .started })
    | _ => none
  | .reset i =>
    match s.phases[i]? with
    | some (.running _) => some (s.become i .stopped)
    | _ => none
  | .createProcessQueue i =>
    match s.phases[i]? with
    | some (.running m) => some { s with queues := s.queues ++ [m] }
    | _ => none
  | .destroyProcessQueue k => (pick s.queues k).map fun r => { s with queues := r.2 }
  | .lock m => if s.alive m then some { s with locks := s.locks ++ [m] } else none
  | .unlock k => (pick s.locks k).map fun r => { s with locks := r.2 }

def machine (namespaces : List String) : Machine State Event where
  init := { phases := namespaces.map fun _ => .created }
  step := step namespaces

def State.Holds (s : State) (i m : ℕ) : Prop := ∃ p ∈ s.phases[i]?, p.manager? = some m

def names (s : State) : List String := s.managers.map Manager.resourceNamespace

variable {namespaces : List String} {s t : State} {e : Event} {i m : ℕ}

inductive Taken (namespaces : List String) (s : State) : Event → State → Prop
  | obtain {i m : ℕ} {n : String} (hp : s.phases[i]? = some .created)
      (hn : namespaces[i]? = some n) (hlookup : s.clientManagerTable.lookup n = some m)
      (halive : s.alive m = true) :
      Taken namespaces s (.getClientManager i) (s.become i (.obtained m))
  | make {i : ℕ} {n : String} (hp : s.phases[i]? = some .created) (hn : namespaces[i]? = some n)
      (hfree : ∀ m, s.clientManagerTable.lookup n = some m → s.alive m = false) :
      Taken namespaces s (.getClientManager i) (s.make i n)
  | readState {i m : ℕ} {manager : Manager} (hp : s.phases[i]? = some (.obtained m))
      (hmanager : s.managers[m]? = some manager) :
      Taken namespaces s (.readState i)
        (s.become i (if manager.state = .created then .willStart m else .running m))
  | launch {i m : ℕ} (hp : s.phases[i]? = some (.willStart m)) :
      Taken namespaces s (.launch i) ((s.become i (.starting m)).update m fun manager =>
        { manager with state := .starting, launches := manager.launches + 1 })
  | started {i m : ℕ} (hp : s.phases[i]? = some (.starting m)) :
      Taken namespaces s (.started i) ((s.become i (.running m)).update m fun manager =>
        { manager with state := .started })
  | reset {i m : ℕ} (hp : s.phases[i]? = some (.running m)) :
      Taken namespaces s (.reset i) (s.become i .stopped)
  | createProcessQueue {i m : ℕ} (hp : s.phases[i]? = some (.running m)) :
      Taken namespaces s (.createProcessQueue i) { s with queues := s.queues ++ [m] }
  | destroyProcessQueue {k : ℕ} {r : ℕ × List ℕ} (hpick : pick s.queues k = some r) :
      Taken namespaces s (.destroyProcessQueue k) { s with queues := r.2 }
  | lock {m : ℕ} (halive : s.alive m = true) :
      Taken namespaces s (.lock m) { s with locks := s.locks ++ [m] }
  | unlock {k : ℕ} {r : ℕ × List ℕ} (hpick : pick s.locks k = some r) :
      Taken namespaces s (.unlock k) { s with locks := r.2 }

theorem taken_getClientManager {n : String} (hp : s.phases[i]? = some .created)
    (hn : namespaces[i]? = some n) :
    Taken namespaces s (.getClientManager i) (s.getClientManager i n) := by
  unfold State.getClientManager
  split
  · rename_i m hlookup
    split_ifs with halive
    · exact .obtain hp hn hlookup halive
    · refine .make hp hn fun k hk => ?_
      rw [hlookup, Option.some.injEq] at hk
      simpa [← hk] using halive
  · rename_i hlookup
    exact .make hp hn fun k hk => by simp [hlookup] at hk

theorem taken_of_step (h : step namespaces s e = some t) : Taken namespaces s e t := by
  cases e with
  | getClientManager i =>
    simp only [step] at h
    split at h
    · rename_i hp
      obtain ⟨n, hn, rfl⟩ := Option.map_eq_some_iff.mp h
      exact taken_getClientManager hp hn
    · cases h
  | readState i =>
    simp only [step] at h
    split at h
    · rename_i m hp
      obtain ⟨manager, hmanager, rfl⟩ := Option.map_eq_some_iff.mp h
      exact .readState hp hmanager
    · cases h
  | launch i =>
    simp only [step] at h
    split at h
    · rename_i m hp
      cases h
      exact .launch hp
    · cases h
  | started i =>
    simp only [step] at h
    split at h
    · rename_i m hp
      cases h
      exact .started hp
    · cases h
  | reset i =>
    simp only [step] at h
    split at h
    · rename_i m hp
      cases h
      exact .reset hp
    · cases h
  | createProcessQueue i =>
    simp only [step] at h
    split at h
    · rename_i m hp
      cases h
      exact .createProcessQueue hp
    · cases h
  | destroyProcessQueue k =>
    obtain ⟨r, hpick, rfl⟩ := Option.map_eq_some_iff.mp h
    exact .destroyProcessQueue hpick
  | lock m =>
    simp only [step] at h
    split_ifs at h with halive
    cases h
    exact .lock halive
  | unlock k =>
    obtain ⟨r, hpick, rfl⟩ := Option.map_eq_some_iff.mp h
    exact .unlock hpick

theorem alive_iff : s.alive m = true ↔ (∃ i, s.Holds i m) ∨ m ∈ s.queues ∨ m ∈ s.locks := by
  have hphases : (∃ p ∈ s.phases, p.manager? = some m) ↔ ∃ i, s.Holds i m := by
    constructor
    · intro h
      obtain ⟨p, hp, hm⟩ := h
      obtain ⟨i, hi⟩ := List.getElem?_of_mem hp
      exact ⟨i, p, hi, hm⟩
    · intro h
      obtain ⟨i, p, hi, hm⟩ := h
      exact ⟨p, List.mem_of_getElem? hi, hm⟩
  simp [State.alive, hphases, or_assoc]

theorem holds_become {p : Phase} {j : ℕ} (h : (s.become i p).Holds j m) :
    s.Holds j m ∨ j = i ∧ p.manager? = some m := by
  obtain ⟨q, hq, hm⟩ := h
  simp only [State.become, List.getElem?_set, Option.mem_def] at hq
  split_ifs at hq with hij hlt
  · simp only [Option.some.injEq] at hq
    subst hq
    exact Or.inr ⟨hij.symm, hm⟩
  · exact Or.inl ⟨q, hq, hm⟩

inductive Stepped (namespaces : List String) (s t : State) : Prop
  | keeps (hnames : names t = names s) (htable : t.clientManagerTable = s.clientManagerTable)
      (halive : ∀ m, t.alive m = true → s.alive m = true)
      (hholds : ∀ i m, t.Holds i m → s.Holds i m ∨
        ∃ n, namespaces[i]? = some n ∧ s.clientManagerTable.lookup n = some m)
  | makes {i : ℕ} {n : String} (hn : namespaces[i]? = some n)
      (hfree : ∀ m, s.clientManagerTable.lookup n = some m → s.alive m = false)
      (hnames : names t = names s ++ [n])
      (htable : t.clientManagerTable = s.clientManagerTable.insert n s.managers.length)
      (halive : ∀ m, t.alive m = true → s.alive m = true ∨ m = s.managers.length)
      (hholds : ∀ j m, t.Holds j m → s.Holds j m ∨ j = i ∧ m = s.managers.length)

theorem alive_of_queue (h : m ∈ s.queues) : s.alive m = true := alive_iff.mpr (Or.inr (Or.inl h))

theorem alive_of_lock (h : m ∈ s.locks) : s.alive m = true := alive_iff.mpr (Or.inr (Or.inr h))

theorem alive_of_holds (h : s.Holds i m) : s.alive m = true := alive_iff.mpr (Or.inl ⟨i, h⟩)

theorem names_update (s : State) (m : ℕ) {f : Manager → Manager}
    (hf : ∀ manager, (f manager).resourceNamespace = manager.resourceNamespace) :
    names (s.update m f) = names s := by
  unfold names State.update
  apply List.ext_getElem?
  intro j
  simp only [List.getElem?_map, List.getElem?_modify]
  by_cases hj : m = j
  · simp [hj, Function.comp_def, hf]
  · simp [hj]

theorem stepped_of_become {p q : Phase} (hp : s.phases[i]? = some p)
    (hq : ∀ m, q.manager? = some m → p.manager? = some m)
    (hphases : t.phases = (s.become i q).phases) (hqueues : t.queues = s.queues)
    (hlocks : t.locks = s.locks) (hnames : names t = names s)
    (htable : t.clientManagerTable = s.clientManagerTable) : Stepped namespaces s t := by
  have hholds : ∀ j m, t.Holds j m → s.Holds j m := by
    intro j m h
    have hbecome : (s.become i q).Holds j m := by
      unfold State.Holds at h ⊢
      rwa [hphases] at h
    obtain hold | ⟨rfl, hm⟩ := holds_become hbecome
    · exact hold
    · exact ⟨p, hp, hq m hm⟩
  refine .keeps hnames htable ?_ (fun j m h => Or.inl (hholds j m h))
  intro m halive
  obtain ⟨j, h⟩ | h | h := alive_iff.mp halive
  · exact alive_of_holds (hholds j m h)
  · exact alive_of_queue (hqueues ▸ h)
  · exact alive_of_lock (hlocks ▸ h)

theorem stepped_of_references {queues locks : List ℕ}
    (hqueues : ∀ m ∈ queues, s.alive m = true) (hlocks : ∀ m ∈ locks, s.alive m = true) :
    Stepped namespaces s { s with queues := queues, locks := locks } := by
  refine .keeps rfl rfl ?_ (fun j m h => Or.inl h)
  intro m halive
  obtain ⟨j, h⟩ | h | h := alive_iff.mp halive
  · exact alive_of_holds (i := j) h
  · exact hqueues m h
  · exact hlocks m h

theorem stepped_make {n : String} (hn : namespaces[i]? = some n)
    (hfree : ∀ m, s.clientManagerTable.lookup n = some m → s.alive m = false) :
    Stepped namespaces s (s.make i n) := by
  have hholds : ∀ j m, (s.make i n).Holds j m → s.Holds j m ∨ j = i ∧ m = s.managers.length := by
    intro j m h
    obtain hold | ⟨hj, hm⟩ := holds_become (s := s) h
    · exact Or.inl hold
    · exact Or.inr ⟨hj, (Option.some.inj hm).symm⟩
  refine .makes hn hfree (by simp [names, State.make, State.become]) rfl ?_ hholds
  intro m halive
  obtain ⟨j, h⟩ | h | h := alive_iff.mp halive
  · obtain hold | ⟨-, hm⟩ := hholds j m h
    · exact Or.inl (alive_of_holds hold)
    · exact Or.inr hm
  · exact Or.inl (alive_of_queue h)
  · exact Or.inl (alive_of_lock h)

theorem stepped_obtain {n : String} (hn : namespaces[i]? = some n)
    (hlookup : s.clientManagerTable.lookup n = some m) (halive : s.alive m = true) :
    Stepped namespaces s (s.become i (.obtained m)) := by
  have hholds : ∀ j k, (s.become i (.obtained m)).Holds j k → s.Holds j k ∨ j = i ∧ k = m := by
    intro j k h
    obtain hold | ⟨hj, hk⟩ := holds_become h
    · exact Or.inl hold
    · exact Or.inr ⟨hj, (Option.some.inj hk).symm⟩
  refine .keeps rfl rfl ?_ ?_
  · intro k hk
    obtain ⟨j, h⟩ | h | h := alive_iff.mp hk
    · obtain hold | ⟨-, rfl⟩ := hholds j k h
      · exact alive_of_holds hold
      · exact halive
    · exact alive_of_queue h
    · exact alive_of_lock h
  · intro j k h
    obtain hold | ⟨rfl, rfl⟩ := hholds j k h
    · exact Or.inl hold
    · exact Or.inr ⟨n, hn, hlookup⟩

theorem stepped_of_step (h : step namespaces s e = some t) : Stepped namespaces s t := by
  cases taken_of_step h with
  | obtain _ hn hlookup halive => exact stepped_obtain hn hlookup halive
  | make _ hn hfree => exact stepped_make hn hfree
  | readState hp _ =>
    refine stepped_of_become hp ?_ rfl rfl rfl rfl rfl
    split_ifs <;> simp [Phase.manager?]
  | launch hp =>
    exact stepped_of_become hp (by simp [Phase.manager?]) rfl rfl rfl
      (names_update _ _ fun _ => rfl) rfl
  | started hp =>
    exact stepped_of_become hp (by simp [Phase.manager?]) rfl rfl rfl
      (names_update _ _ fun _ => rfl) rfl
  | reset hp => exact stepped_of_become hp (by simp [Phase.manager?]) rfl rfl rfl rfl rfl
  | createProcessQueue hp =>
    apply stepped_of_references ?_ fun k hk => alive_of_lock hk
    intro k hk
    obtain hold | hnew := List.mem_append.mp hk
    · exact alive_of_queue hold
    · rw [List.mem_singleton.mp hnew]
      exact alive_of_holds ⟨_, hp, rfl⟩
  | destroyProcessQueue hpick =>
    exact stepped_of_references (fun k hk => alive_of_queue (mem_of_mem_rest hpick hk))
      fun k hk => alive_of_lock hk
  | lock halive =>
    apply stepped_of_references fun k hk => alive_of_queue hk
    intro k hk
    obtain hold | hnew := List.mem_append.mp hk
    · exact alive_of_lock hold
    · rw [List.mem_singleton.mp hnew]
      exact halive
  | unlock hpick =>
    exact stepped_of_references (fun k hk => alive_of_queue hk)
      fun k hk => alive_of_lock (mem_of_mem_rest hpick hk)

structure Inv (namespaces : List String) (s : State) : Prop where
  entries : ∀ n m, s.clientManagerTable.lookup n = some m → (names s)[m]? = some n
  alive : ∀ m, s.alive m = true →
    ∃ n, (names s)[m]? = some n ∧ s.clientManagerTable.lookup n = some m
  holds : ∀ i m, s.Holds i m → ∃ n, namespaces[i]? = some n ∧ (names s)[m]? = some n

theorem Inv.lt (h : Inv namespaces s) (halive : s.alive m = true) : m < s.managers.length := by
  obtain ⟨n, hn, -⟩ := h.alive m halive
  have hlt := (List.getElem?_eq_some_iff.mp hn).1
  simpa [names] using hlt

theorem Inv.step (h : Inv namespaces s) (hs : Stepped namespaces s t) : Inv namespaces t := by
  cases hs with
  | keeps hnames htable halive hholds =>
    refine ⟨?_, ?_, ?_⟩
    · rw [htable, hnames]
      exact h.entries
    · rw [htable, hnames]
      exact fun m hm => h.alive m (halive m hm)
    · intro i m hm
      rw [hnames]
      obtain hold | ⟨n, hn, hlookup⟩ := hholds i m hm
      · exact h.holds i m hold
      · exact ⟨n, hn, h.entries n m hlookup⟩
  | @makes i n hn hfree hnames htable halive hholds =>
    have hlength : (names s).length = s.managers.length := by simp [names]
    have hold : ∀ {m : ℕ} {n' : String}, (names s)[m]? = some n' → (names t)[m]? = some n' := by
      intro m n' hm
      rw [hnames, List.getElem?_append_left (List.getElem?_eq_some_iff.mp hm).1]
      exact hm
    have hnew : (names t)[s.managers.length]? = some n := by
      rw [hnames, ← hlength, List.getElem?_concat_length]
    refine ⟨?_, ?_, ?_⟩
    · intro n' m hlookup
      rw [htable] at hlookup
      by_cases heq : n' = n
      · subst heq
        rw [AList.lookup_insert, Option.some.injEq] at hlookup
        exact hlookup ▸ hnew
      · rw [AList.lookup_insert_ne heq] at hlookup
        exact hold (h.entries n' m hlookup)
    · intro m hm
      obtain hbefore | rfl := halive m hm
      · obtain ⟨n', hn', hlookup⟩ := h.alive m hbefore
        have hne : n' ≠ n := by
          intro heq
          subst heq
          simp [hfree m hlookup] at hbefore
        exact ⟨n', hold hn', by rw [htable, AList.lookup_insert_ne hne]; exact hlookup⟩
      · exact ⟨n, hnew, by rw [htable, AList.lookup_insert]⟩
    · intro j m hm
      obtain hbefore | ⟨rfl, rfl⟩ := hholds j m hm
      · obtain ⟨n', hn', hname⟩ := h.holds j m hbefore
        exact ⟨n', hn', hold hname⟩
      · exact ⟨n, hn, hnew⟩

theorem inv_init (namespaces : List String) : Inv namespaces (machine namespaces).init := by
  have hholds : ∀ i m, ¬ (machine namespaces).init.Holds i m := by
    intro i m h
    obtain ⟨p, hp, hm⟩ := h
    simp only [machine, List.getElem?_map, Option.mem_def, Option.map_eq_some_iff] at hp
    obtain ⟨n, -, rfl⟩ := hp
    simp [Phase.manager?] at hm
  refine ⟨by simp [machine], ?_, fun i m h => absurd h (hholds i m)⟩
  intro m halive
  obtain ⟨i, h⟩ | h | h := alive_iff.mp halive
  · exact absurd h (hholds i m)
  · simp [machine] at h
  · simp [machine] at h

theorem inv_run {es : List Event} (hrun : (machine namespaces).run es = some s) :
    Inv namespaces s :=
  (machine namespaces).run_invariant (inv_init namespaces)
    (fun _ _ _ h hs => h.step (stepped_of_step hs)) hrun

theorem Stepped.dead (hs : Stepped namespaces s t) (hlt : m < s.managers.length)
    (hdead : s.alive m = false) : m < t.managers.length ∧ t.alive m = false := by
  have hlength : ∀ u : State, (names u).length = u.managers.length := fun u => by simp [names]
  cases hs with
  | keeps hnames _ halive _ =>
    refine ⟨by rw [← hlength, hnames, hlength]; exact hlt, ?_⟩
    by_contra hnot
    simp [halive m (by simpa using hnot)] at hdead
  | makes _ _ hnames _ halive _ =>
    refine ⟨by rw [← hlength, hnames, List.length_append, hlength]; omega, ?_⟩
    by_contra hnot
    obtain hbefore | rfl := halive m (by simpa using hnot)
    · simp [hbefore] at hdead
    · omega

theorem managers_shared (namespaces : List String) {es : List Event} {s : State}
    (hrun : (machine namespaces).run es = some s) :
    (∀ i j m m', s.Holds i m → s.Holds j m' → namespaces[i]? = namespaces[j]? → m = m') ∧
      (∀ m m', s.alive m = true → s.alive m' = true → (names s)[m]? = (names s)[m']? → m = m') ∧
      ∀ m < s.managers.length, s.alive m = false →
        ∀ u, (machine namespaces).Reaches s u → u.alive m = false := by
  have hinv := inv_run hrun
  have hunique : ∀ m m', s.alive m = true → s.alive m' = true →
      (names s)[m]? = (names s)[m']? → m = m' := by
    intro m m' hm hm' hsame
    obtain ⟨n, hn, hlookup⟩ := hinv.alive m hm
    obtain ⟨n', hn', hlookup'⟩ := hinv.alive m' hm'
    rw [hn, hn', Option.some.injEq] at hsame
    subst hsame
    exact Option.some.inj (hlookup.symm.trans hlookup')
  refine ⟨?_, hunique, ?_⟩
  · intro i j m m' hm hm' hsame
    obtain ⟨n, hn, hname⟩ := hinv.holds i m hm
    obtain ⟨n', hn', hname'⟩ := hinv.holds j m' hm'
    rw [hn, hn'] at hsame
    apply hunique m m' (alive_of_holds hm) (alive_of_holds hm')
    rw [hname, hname', hsame]
  · intro m hlt hdead u hreach
    obtain ⟨es', hrun'⟩ := hreach
    have hkept := (machine namespaces).runFrom_invariant
      (I := fun v => m < v.managers.length ∧ v.alive m = false) (A := fun _ => True)
      (fun v e w hv _ hstep => (stepped_of_step hstep).dead hv.1 hv.2) es' (fun _ _ => trivial)
      ⟨hlt, hdead⟩ hrun'
    exact hkept.2

def sharedRun : List Event :=
  [.getClientManager 0, .readState 0, .launch 0, .started 0, .createProcessQueue 0, .reset 0,
    .getClientManager 1, .getClientManager 2]

theorem manager_outlives_client : ∃ s, (machine ["a", "a", "b"]).run sharedRun = some s ∧
    s.managers.length = 2 ∧ s.alive 0 = true ∧
      ∀ i j m m', s.Holds i m → s.Holds j m' →
        ["a", "a", "b"][i]? = ["a", "a", "b"][j]? → m = m' := by
  have hrun : ((machine ["a", "a", "b"]).run sharedRun).map
      (fun s => (s.managers.length, s.alive 0)) = some (2, true) := by decide
  obtain ⟨s, hs, heq⟩ := Option.map_eq_some_iff.mp hrun
  simp only [Prod.mk.injEq] at heq
  exact ⟨s, hs, heq.1, heq.2, (managers_shared ["a", "a", "b"] hs).1⟩

def launches (s : State) (m : ℕ) : ℕ := (s.managers[m]?.map Manager.launches).getD 0

/-- The decisions to start manager `m`, whether the client has still to carry it out or has done
so. -/
def decisions (s : State) (m : ℕ) : ℕ := s.phases.count (.willStart m) + launches s m

def readsCreated (s : State) (m : ℕ) : Event → Bool
  | .readState i => s.phases[i]? == some (.obtained m) &&
      (s.managers[m]?.map Manager.state) == some .created
  | _ => false

/-- No other client is between reading the state of a manager and storing it. -/
def ReadsAlone (s : State) (e : Event) : Prop :=
  ∀ m, readsCreated s m e = true → .willStart m ∉ s.phases

theorem count_become {p q : Phase} (hp : s.phases[i]? = some p) (k : ℕ) :
    (s.become i q).phases.count (.willStart k) + (if p = .willStart k then 1 else 0) =
      s.phases.count (.willStart k) + (if q = .willStart k then 1 else 0) := by
  have hcount := countP_set hp q (· == .willStart k)
  simpa [State.become, List.count, beq_iff_eq] using hcount

theorem launches_update (f : Manager → Manager) (k : ℕ) {d : ℕ} (hlt : m < s.managers.length)
    (hf : ∀ manager, (f manager).launches = manager.launches + d) :
    launches (s.update m f) k = launches s k + if m = k then d else 0 := by
  unfold launches State.update
  rw [List.getElem?_modify]
  by_cases hk : m = k
  · subst hk
    simp [hlt, hf]
  · simp [hk]

theorem launches_make (n : String) (k : ℕ) : launches (s.make i n) k = launches s k := by
  simp only [launches, State.make]
  rw [List.getElem?_append]
  split_ifs with hk
  · rfl
  · rw [List.getElem?_eq_none (by omega : s.managers.length ≤ k)]
    cases hj : k - s.managers.length with
    | zero => rfl
    | succ j => simp

theorem decisions_become {p q : Phase} (hp : s.phases[i]? = some p)
    (hnot : ∀ m, p ≠ .willStart m) (k : ℕ) :
    decisions (s.become i q) k = decisions s k + if q = .willStart k then 1 else 0 := by
  have hcount := count_become (q := q) hp k
  rw [if_neg (hnot k)] at hcount
  simp only [decisions, launches, State.become] at hcount ⊢
  omega

theorem decisions_make {n : String} (hp : s.phases[i]? = some .created) (k : ℕ) :
    decisions (s.make i n) k = decisions s k := by
  have hcount := count_become (q := .obtained s.managers.length) hp k
  unfold decisions
  rw [launches_make]
  simpa [State.make] using hcount

theorem decisions_readState {manager : Manager} (hp : s.phases[i]? = some (.obtained m))
    (hmanager : s.managers[m]? = some manager) (k : ℕ) :
    decisions (s.become i (if manager.state = .created then .willStart m else .running m)) k =
      decisions s k + if readsCreated s k (.readState i) then 1 else 0 := by
  rw [decisions_become hp (by simp)]
  by_cases hk : m = k
  · subst hk
    by_cases hcreated : manager.state = .created
    · simp [readsCreated, hp, hmanager, hcreated]
    · simp [readsCreated, hp, hmanager, hcreated]
  · by_cases hcreated : manager.state = .created
    · simp [readsCreated, hp, hcreated, hk]
    · simp [readsCreated, hp, hcreated, hk]

theorem decisions_launch (hp : s.phases[i]? = some (.willStart m)) (hlt : m < s.managers.length)
    (k : ℕ) :
    decisions ((s.become i (.starting m)).update m fun manager =>
      { manager with state := .starting, launches := manager.launches + 1 }) k =
        decisions s k := by
  have hcount := count_become (q := .starting m) hp k
  have hlaunches := launches_update (s := s.become i (.starting m)) (m := m) (d := 1)
    (fun manager => { manager with state := .starting, launches := manager.launches + 1 })
    k hlt fun _ => rfl
  have hsame : launches (s.become i (.starting m)) k = launches s k := rfl
  simp only [decisions, hlaunches, hsame]
  by_cases hk : m = k
  · simp [hk, State.update] at hcount ⊢
    omega
  · simp [hk, State.update] at hcount ⊢
    omega

theorem decisions_started (hp : s.phases[i]? = some (.starting m)) (hlt : m < s.managers.length)
    (k : ℕ) :
    decisions ((s.become i (.running m)).update m fun manager =>
      { manager with state := .started }) k = decisions s k := by
  have hbecome := decisions_become (q := .running m) hp (by simp) k
  have hlaunches := launches_update (s := s.become i (.running m)) (m := m) (d := 0)
    (fun manager => { manager with state := .started }) k hlt fun _ => rfl
  simp only [decisions, hlaunches, ite_self, Nat.add_zero] at hbecome ⊢
  exact hbecome

/-- A decision is taken by reading that the manager is not started, and nowhere else. -/
theorem decisions_step (hinv : Inv namespaces s) (h : step namespaces s e = some t) (k : ℕ) :
    decisions t k = decisions s k + if readsCreated s k e then 1 else 0 := by
  have hlt : ∀ {i m : ℕ} {p : Phase}, s.phases[i]? = some p → p.manager? = some m →
      m < s.managers.length := fun hp hm => hinv.lt (alive_of_holds ⟨_, hp, hm⟩)
  cases taken_of_step h with
  | obtain hp _ _ _ => exact decisions_become hp (by simp) k
  | make hp _ _ => exact decisions_make hp k
  | readState hp hmanager => exact decisions_readState hp hmanager k
  | launch hp => exact decisions_launch hp (hlt hp rfl) k
  | started hp => exact decisions_started hp (hlt hp rfl) k
  | reset hp => exact decisions_become hp (by simp) k
  | createProcessQueue _ => rfl
  | destroyProcessQueue _ => rfl
  | lock _ => rfl
  | unlock _ => rfl

theorem decisions_le_run (hinv : Inv namespaces s) {es : List Event}
    (hrun : (machine namespaces).runFrom s es = some t) (k : ℕ) :
    decisions s k ≤ decisions t k := by
  have hlast := (machine namespaces).runFrom_invariant
    (I := fun u => Inv namespaces u ∧ decisions s k ≤ decisions u k) (A := fun _ => True)
    (fun u e v hu _ hstep => by
      have hnext := decisions_step hu.1 hstep k
      exact ⟨hu.1.step (stepped_of_step hstep), by omega⟩)
    es (fun _ _ => trivial) ⟨hinv, Nat.le_refl _⟩ hrun
  exact hlast.2

structure Unlaunched (s : State) : Prop where
  launches : ∀ m, s.managers[m]?.map Manager.state = some .created → launches s m = 0

theorem unlaunched_update {f : Manager → Manager} (h : Unlaunched s)
    (hf : ∀ manager, (f manager).state ≠ .created) : Unlaunched (s.update m f) := by
  constructor
  intro k hk
  by_cases heq : m = k
  · subst heq
    simp only [State.update, List.getElem?_modify, if_true] at hk
    cases hm : s.managers[m]? with
    | none => simp [hm] at hk
    | some manager => exact absurd (by simpa [hm] using hk) (hf manager)
  · have hsame : (s.update m f).managers[k]? = s.managers[k]? := by
      simp [State.update, heq]
    rw [hsame] at hk
    unfold ClientManagers.launches
    rw [hsame]
    exact h.launches k hk

theorem unlaunched_of_managers (h : Unlaunched s) (hmanagers : t.managers = s.managers) :
    Unlaunched t := by
  constructor
  intro k hk
  have hsame : ClientManagers.launches t k = ClientManagers.launches s k := by
    simp only [ClientManagers.launches, hmanagers]
  rw [hsame]
  exact h.launches k (hmanagers ▸ hk)

theorem unlaunched_make {n : String} (h : Unlaunched s) : Unlaunched (s.make i n) := by
  constructor
  intro k hk
  rw [launches_make]
  by_cases hlt : k < s.managers.length
  · apply h.launches k
    simpa [State.make, List.getElem?_append_left hlt] using hk
  · simp [ClientManagers.launches, List.getElem?_eq_none (by omega : s.managers.length ≤ k)]

theorem Unlaunched.step (h : Unlaunched s) (hs : step namespaces s e = some t) :
    Unlaunched t := by
  cases taken_of_step hs with
  | make _ _ _ => exact unlaunched_make h
  | launch _ => exact unlaunched_update (unlaunched_of_managers h rfl) (by simp)
  | started _ => exact unlaunched_update (unlaunched_of_managers h rfl) (by simp)
  | obtain _ _ _ _ => exact unlaunched_of_managers h rfl
  | readState _ _ => exact unlaunched_of_managers h rfl
  | reset _ => exact unlaunched_of_managers h rfl
  | createProcessQueue _ => exact unlaunched_of_managers h rfl
  | destroyProcessQueue _ => exact unlaunched_of_managers h rfl
  | lock _ => exact unlaunched_of_managers h rfl
  | unlock _ => exact unlaunched_of_managers h rfl

theorem decisions_of_readsCreated (h : Unlaunched s) (hreads : readsCreated s m e = true) :
    decisions s m = s.phases.count (.willStart m) := by
  have hcreated : s.managers[m]?.map Manager.state = some .created := by
    cases e <;> simp_all [readsCreated]
  simp [decisions, h.launches m hcreated]

theorem decided_once_iff (namespaces : List String) (es : List Event) :
    (machine namespaces).Along (fun s => ∀ m, decisions s m ≤ 1) (machine namespaces).init es ↔
      (machine namespaces).Guarded ReadsAlone (machine namespaces).init es := by
  apply (machine namespaces).along_iff_guarded (J := fun s => Inv namespaces s ∧ Unlaunched s)
    (A := fun _ => True)
  · intro s e t hs _ hstep
    exact ⟨hs.1.step (stepped_of_step hstep), hs.2.step hstep⟩
  · intro s e t hs hle _ hstep
    constructor
    · intro hnext m hreads hmem
      have hdecisions := decisions_step hs.1 hstep m
      have hcount := decisions_of_readsCreated hs.2 hreads
      have hpos := List.count_pos_iff.mpr hmem
      have hlast := hnext m
      simp only [hreads, if_true] at hdecisions
      omega
    · intro halone m
      have hdecisions := decisions_step hs.1 hstep m
      by_cases hreads : readsCreated s m e = true
      · have hcount := decisions_of_readsCreated hs.2 hreads
        have hzero := List.count_eq_zero.mpr (halone m hreads)
        simp only [hreads, if_true] at hdecisions
        omega
      · simp only [hreads, if_false, Bool.false_eq_true] at hdecisions
        have hold := hle m
        omega
  · exact fun _ _ => trivial
  · exact ⟨inv_init namespaces, ⟨fun m hm => by simp [machine] at hm⟩⟩
  · intro m
    have hnone : .willStart m ∉ (machine namespaces).init.phases := by simp [machine]
    rw [decisions, List.count_eq_zero.mpr hnone]
    simp [launches, machine]

theorem along_decisions_iff {es : List Event} (hinv : Inv namespaces s)
    (hrun : (machine namespaces).runFrom s es = some t) :
    (machine namespaces).Along (fun s => ∀ m, decisions s m ≤ 1) s es ↔
      ∀ m, decisions t m ≤ 1 := by
  constructor
  · exact fun h => h.last _ hrun
  · intro hlast
    induction es generalizing s with
    | nil => exact fun m => (decisions_le_run hinv hrun m).trans (hlast m)
    | cons e es ih =>
      refine ⟨fun m => (decisions_le_run hinv hrun m).trans (hlast m), fun u hu => ?_⟩
      obtain ⟨v, hv, hrest⟩ := Option.bind_eq_some_iff.mp hrun
      obtain rfl : v = u := Option.some.inj (hv.symm.trans hu)
      exact ih (hinv.step (stepped_of_step hu)) hrest

/-- When every client that has decided to start its manager has done so, no manager was started
twice exactly if no client read the state of its manager between the reading and the storing of
another. -/
theorem started_once_iff (namespaces : List String) {es : List Event} {s : State}
    (hrun : (machine namespaces).run es = some s) (hsettled : ∀ m, .willStart m ∉ s.phases) :
    (∀ m, launches s m ≤ 1) ↔
      (machine namespaces).Guarded ReadsAlone (machine namespaces).init es := by
  rw [← decided_once_iff, along_decisions_iff (inv_init namespaces) hrun]
  refine forall_congr' fun m => ?_
  rw [decisions, List.count_eq_zero.mpr (hsettled m), Nat.zero_add]

def racingRun : List Event :=
  [.getClientManager 0, .getClientManager 1, .readState 0, .readState 1, .launch 0, .launch 1]

theorem racing_clients_start_twice : ∃ s, (machine ["a", "a"]).run racingRun = some s ∧
    launches s 0 = 2 ∧
      ¬ (machine ["a", "a"]).Guarded ReadsAlone (machine ["a", "a"]).init racingRun := by
  have hrun : ((machine ["a", "a"]).run racingRun).map (fun s => (launches s 0, s.phases)) =
      some (2, [.starting 0, .starting 0]) := by decide
  obtain ⟨s, hs, heq⟩ := Option.map_eq_some_iff.mp hrun
  simp only [Prod.mk.injEq] at heq
  refine ⟨s, hs, heq.1, fun hguarded => ?_⟩
  have honce := (started_once_iff ["a", "a"] hs (by simp [heq.2])).mpr hguarded 0
  rw [heq.1] at honce
  exact absurd honce (by decide)

end RocketMQClient.ClientManagers
