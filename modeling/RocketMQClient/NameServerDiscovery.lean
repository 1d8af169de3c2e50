import RocketMQClient.DiscoveryEndpoint
import RocketMQClient.Library.EventMachine

/-!
# Name server discovery over a run

A fetch asks the discovery service through three classes. `HttpClientImpl::get` turns the
outcome of the request into a status and a body, `TopAddressing` cuts the body of a good
status into addresses, and the resolver stores them. `HttpClientImpl::get` dereferences the
result of a request that found no server; what follows is undefined.

The machine runs over fetches and over the steps of `index_` in any order, since the list is
only read and written under its mutex. `next` is a step of the index followed by `current`.
-/

namespace RocketMQClient
open EventMachine

inductive HttpOutcome
  -- the `httplib::Client` made from host and port is not valid
  | invalidClient
  | transportFailure
  | response (status : ℤ) (body : List Char)
  deriving DecidableEq, Repr

/-- There is no result if `get` dereferences a null pointer. -/
def HttpClientImpl.get {α : Type} (cb : ℤ → List Char → α) : HttpOutcome → Option α
  | .invalidClient => some (cb 400 [])
  | .transportFailure => none
  | .response status body => some (cb status body)

def HttpStatus.ok : ℤ := 200

def TopAddressing.fetchNameServerAddresses {α : Type} (cb : Bool → List (List Char) → α) :
    HttpOutcome → Option α :=
  HttpClientImpl.get fun code body =>
    if code = HttpStatus.ok then cb true (body.splitOn ';') else cb false []

namespace DynamicNameServerResolver

def onNameServerListFetched (r : DynamicNameServerResolver) (list : List (List Char)) :
    DynamicNameServerResolver :=
  if !list.isEmpty then
    if r.nameServerList ≠ list then { r with nameServerList := list } else r
  else r

def fetch (r : DynamicNameServerResolver) : HttpOutcome → Option DynamicNameServerResolver :=
  TopAddressing.fetchNameServerAddresses fun success list =>
    if success && !list.isEmpty then r.onNameServerListFetched list else r

def current (r : DynamicNameServerResolver) : List Char :=
  if h : r.nameServerList = [] then []
  else r.nameServerList.get
    ⟨r.index.toNat % r.nameServerList.length, Nat.mod_lt _ (List.length_pos_iff.mpr h)⟩

def advance (r : DynamicNameServerResolver) : DynamicNameServerResolver :=
  { r with index := r.index + 1 }

def next (r : DynamicNameServerResolver) : List Char := r.advance.current

variable {r : DynamicNameServerResolver}

theorem current_mem (h : r.nameServerList ≠ []) : r.current ∈ r.nameServerList := by
  rw [current, dif_neg h]
  exact List.get_mem _ _

theorem onNameServerListFetched_of_ne {list : List (List Char)} (h : list ≠ []) :
    r.onNameServerListFetched list = { r with nameServerList := list } := by
  rw [onNameServerListFetched, if_pos (by simpa using h)]
  split_ifs with hchanged
  · rfl
  · rw [← not_not.mp hchanged]

theorem fetch_ok (body : List Char) :
    r.fetch (.response HttpStatus.ok body) =
      some { r with nameServerList := body.splitOn ';' } := by
  have hne : body.splitOn ';' ≠ [] := List.splitOn_ne_nil _ _
  simp [fetch, TopAddressing.fetchNameServerAddresses, HttpClientImpl.get, hne,
    onNameServerListFetched_of_ne hne]

theorem fetch_of_ne_ok {status : ℤ} (h : status ≠ HttpStatus.ok) (body : List Char) :
    r.fetch (.response status body) = some r := by
  simp [fetch, TopAddressing.fetchNameServerAddresses, HttpClientImpl.get, h]

theorem fetch_invalidClient : r.fetch .invalidClient = some r := rfl

theorem fetch_transportFailure : r.fetch .transportFailure = none := rfl

end DynamicNameServerResolver

namespace NameServerDiscovery
open DynamicNameServerResolver

structure State where
  resolver : DynamicNameServerResolver
  undefined : Bool := false
  deriving DecidableEq

inductive Event
  | fetched (outcome : HttpOutcome)
  | advance
  deriving DecidableEq

def step (s : State) : Event → State
  | .fetched outcome =>
    if s.undefined then s
    else match s.resolver.fetch outcome with
      | some r => { s with resolver := r }
      | none => { s with undefined := true }
  | .advance => { s with resolver := s.resolver.advance }

def machine (t : TopAddressing) : Machine State Event where
  init := { resolver := { topAddressing := t } }
  step := fun s e => some (step s e)

structure Fetched where
  outcome : HttpOutcome
  before : List (List Char)
  after : List (List Char)

def observe (s : State) : Event → List Fetched
  | .fetched outcome => [⟨outcome, s.resolver.nameServerList,
      (step s (.fetched outcome)).resolver.nameServerList⟩]
  | .advance => []

def recorded (t : TopAddressing) : Machine (State × List Fetched) Event :=
  (machine t).record observe

def Yields : HttpOutcome → Prop
  | .response status body => status = HttpStatus.ok ∧ ∃ a ∈ body.splitOn ';', a ≠ []
  | _ => False

structure Kept (s : State × List Fetched) : Prop where
  defined : s.1.undefined = false
  nonEmpty : ∀ a ∈ s.1.resolver.nameServerList, a ≠ []
  unchanged : ∀ f ∈ s.2, f.before ≠ [] → ¬ Yields f.outcome → f.after = f.before
  answers : (∃ f ∈ s.2, f.after ≠ []) →
    s.1.resolver.current ≠ [] ∧ s.1.resolver.next ≠ []

def Clean : Event → Prop
  | .fetched .transportFailure => False
  | .fetched (.response status body) =>
    status = HttpStatus.ok → ∀ a ∈ body.splitOn ';', a ≠ []
  | _ => True

def Remembered (s : State × List Fetched) : Prop :=
  (∃ f ∈ s.2, f.after ≠ []) → s.1.resolver.nameServerList ≠ []

theorem step_fetched_cases {s : State} (hdefined : s.undefined = false) (outcome : HttpOutcome) :
    outcome = .transportFailure ∧
        step s (.fetched outcome) = { s with undefined := true } ∨
      (∃ body, outcome = .response HttpStatus.ok body ∧ step s (.fetched outcome) =
        { s with resolver := { s.resolver with nameServerList := body.splitOn ';' } }) ∨
      Clean (.fetched outcome) ∧ step s (.fetched outcome) = s := by
  have hstep : ∀ r, s.resolver.fetch outcome = some r →
      step s (.fetched outcome) = { s with resolver := r } := by
    intro r hr
    simp [step, hdefined, hr]
  cases outcome with
  | invalidClient => exact Or.inr (Or.inr ⟨trivial, hstep _ fetch_invalidClient⟩)
  | transportFailure => exact Or.inl ⟨rfl, by simp [step, hdefined, fetch_transportFailure]⟩
  | response status body =>
    by_cases hok : status = HttpStatus.ok
    · subst hok
      exact Or.inr (Or.inl ⟨body, rfl, hstep _ (fetch_ok body)⟩)
    · exact Or.inr (Or.inr ⟨fun h => absurd h hok, hstep _ (fetch_of_ne_ok hok body)⟩)

theorem step_nameServerList_ne {s : State} (h : s.resolver.nameServerList ≠ []) (e : Event) :
    (step s e).resolver.nameServerList ≠ [] := by
  cases e with
  | advance => exact h
  | fetched outcome =>
    by_cases hdefined : s.undefined = true
    · simpa [step, hdefined] using h
    · rcases step_fetched_cases (Bool.eq_false_iff.mpr hdefined) outcome with
        ⟨-, hstep⟩ | ⟨body, -, hstep⟩ | ⟨-, hstep⟩
      · rwa [hstep]
      · rw [hstep]
        exact List.splitOn_ne_nil _ _
      · rwa [hstep]

theorem remembered_step {s : State × List Fetched} (h : Remembered s) (e : Event) :
    Remembered (step s.1 e, s.2 ++ observe s.1 e) := by
  rintro ⟨f, hf, hafter⟩
  rcases List.mem_append.mp hf with hold | hnew
  · exact step_nameServerList_ne (h ⟨f, hold, hafter⟩) e
  · cases e with
    | advance => cases hnew
    | fetched outcome =>
      rw [List.mem_singleton.mp hnew] at hafter
      exact hafter

theorem Remembered.answers {s : State × List Fetched} (h : Remembered s)
    (hne : ∀ a ∈ s.1.resolver.nameServerList, a ≠ []) (haccepted : ∃ f ∈ s.2, f.after ≠ []) :
    s.1.resolver.current ≠ [] ∧ s.1.resolver.next ≠ [] := by
  have hlist := h haccepted
  exact ⟨hne _ (current_mem hlist), hne _ (current_mem (r := s.1.resolver.advance) hlist)⟩

theorem yields_of_clean {body : List Char} (h : ∀ a ∈ body.splitOn ';', a ≠ []) :
    Yields (.response HttpStatus.ok body) := by
  obtain ⟨a, ha⟩ := List.exists_mem_of_ne_nil _ (List.splitOn_ne_nil ';' body)
  exact ⟨rfl, a, ha, h a ha⟩

theorem Kept.after {s : State × List Fetched} (hs : Kept s) (hr : Remembered s) {e : Event}
    (hdefined : (step s.1 e).undefined = false)
    (hne : ∀ a ∈ (step s.1 e).resolver.nameServerList, a ≠ [])
    (hnew : ∀ f ∈ observe s.1 e, f.before ≠ [] → ¬ Yields f.outcome → f.after = f.before) :
    Kept (step s.1 e, s.2 ++ observe s.1 e) := by
  refine ⟨hdefined, hne, ?_, (remembered_step hr e).answers hne⟩
  intro f hf
  rcases List.mem_append.mp hf with hold | hnow
  · exact hs.unchanged f hold
  · exact hnew f hnow

theorem kept_fetched_iff {s : State × List Fetched} (hs : Kept s) (hr : Remembered s)
    (outcome : HttpOutcome) :
    Kept (step s.1 (.fetched outcome), s.2 ++ observe s.1 (.fetched outcome)) ↔
      Clean (.fetched outcome) := by
  rcases step_fetched_cases hs.defined outcome with
    ⟨rfl, hstep⟩ | ⟨body, rfl, hstep⟩ | ⟨hclean, hstep⟩
  · apply iff_of_false
    · intro h
      simpa [hstep] using h.defined
    · exact id
  · have hlist : (step s.1 (.fetched (.response HttpStatus.ok body))).resolver.nameServerList =
        body.splitOn ';' := by rw [hstep]
    constructor
    · intro h _
      rw [← hlist]
      exact h.nonEmpty
    · intro hclean
      have hne := hclean rfl
      rw [← hlist] at hne
      apply hs.after hr
      · rw [hstep]
        exact hs.defined
      · exact hne
      · intro f hf _ hyields
        rw [List.mem_singleton.mp hf] at hyields
        exact absurd (yields_of_clean (hclean rfl)) hyields
  · apply iff_of_true _ hclean
    apply hs.after hr
    · rw [hstep]
      exact hs.defined
    · rw [hstep]
      exact hs.nonEmpty
    · intro f hf _ _
      rw [List.mem_singleton.mp hf, hstep]

theorem kept_step_iff {s : State × List Fetched} (hs : Kept s) (hr : Remembered s) (e : Event) :
    Kept (step s.1 e, s.2 ++ observe s.1 e) ↔ Clean e := by
  cases e with
  | advance =>
    apply iff_of_true _ trivial
    exact hs.after hr hs.defined hs.nonEmpty (by simp [observe])
  | fetched outcome => exact kept_fetched_iff hs hr outcome

/-- A run keeps a usable list exactly if all its fetches are clean. -/
theorem list_kept_iff_clean (t : TopAddressing) (es : List Event) :
    (recorded t).Along Kept (recorded t).init es ↔ ∀ e ∈ es, Clean e := by
  have hinit : Kept (recorded t).init := ⟨rfl, by simp [recorded, machine, Machine.record],
    by simp [recorded, Machine.record], by simp [recorded, Machine.record]⟩
  rw [← (recorded t).guarded_iff_forall (s := (recorded t).init) fun s e => ⟨_, rfl⟩]
  apply (recorded t).along_iff_guarded (J := Remembered) (A := fun _ => True)
  · intro s e u hs _ hu
    cases hu
    exact remembered_step hs e
  · intro s e u hr hs _ hu
    cases hu
    exact kept_step_iff hs hr e
  · intros
    trivial
  · rintro ⟨f, hf, -⟩
    cases hf
  · exact hinit

/-- A trailing separator puts an empty address into the list, and an empty body replaces the
list by the empty address. -/
theorem empty_body_replaces_list :
    let t : TopAddressing := { host := ['h'], port := 80, path := [] }
    (∃ s, (machine t).run [.fetched (.response 200 ['a', ';'])] = some s ∧
      s.resolver.nameServerList = [['a'], []]) ∧
    (∃ s, (machine t).run [.fetched (.response 200 ['a']), .fetched (.response 200 [])] = some s ∧
      s.resolver.nameServerList = [[]] ∧ s.resolver.current = []) ∧
    (∃ s, (machine t).run [.fetched (.response 200 ['a']), .fetched .transportFailure] = some s ∧
      s.undefined = true) ∧
    ¬ (recorded t).Along Kept (recorded t).init
      [.fetched (.response 200 ['a']), .fetched (.response 200 [])] := by
  intro t
  refine ⟨⟨_, rfl, by decide⟩, ⟨_, rfl, by decide, by decide⟩, ⟨_, rfl, by decide⟩, ?_⟩
  intro h
  have hlast := h.last _ rfl
  exact absurd hlast.nonEmpty (by decide)

end NameServerDiscovery
end RocketMQClient
