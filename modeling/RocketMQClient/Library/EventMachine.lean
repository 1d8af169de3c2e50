import Mathlib.Data.List.Basic
import Mathlib.Tactic.Common

/-!
# Runs of an event machine

A machine is an initial state with a partial step function: `step s e = none`
when the event `e` cannot happen in `s`. Interleaving is a matter of the event
list alone, so a statement over every list of events covers every schedule.

`Along P` says that `P` holds in each state a run goes through, and `Guarded ok`
that each step taken meets `ok` in the state it starts from. The main rule turns
a step-wise equivalence of the two into one for whole runs.
-/

namespace EventMachine

structure Machine (State Event : Type*) where
  init : State
  step : State → Event → Option State

namespace Machine
variable {State Event : Type*} (M : Machine State Event)

def runFrom : State → List Event → Option State
  | s, [] => some s
  | s, e :: es => (M.step s e).bind fun t => runFrom t es

def run (es : List Event) : Option State := M.runFrom M.init es

theorem runFrom_append (es es' : List Event) (s : State) :
    M.runFrom s (es ++ es') = (M.runFrom s es).bind fun t => M.runFrom t es' := by
  induction es generalizing s with
  | nil => rfl
  | cons e es ih =>
    rw [List.cons_append, runFrom, runFrom, Option.bind_assoc]
    exact congrArg _ (funext ih)

def Along (P : State → Prop) : State → List Event → Prop
  | s, [] => P s
  | s, e :: es => P s ∧ ∀ t, M.step s e = some t → Along P t es

/-- Every step that the run takes meets `ok` in the state before it. -/
def Guarded (ok : State → Event → Prop) : State → List Event → Prop
  | _, [] => True
  | s, e :: es => ∀ t, M.step s e = some t → ok s e ∧ Guarded ok t es

instance decidableGuarded {ok : State → Event → Prop} [∀ s e, Decidable (ok s e)] :
    ∀ s es, Decidable (M.Guarded ok s es)
  | _, [] => .isTrue trivial
  | s, e :: es =>
    match hs : M.step s e with
    | none => .isTrue fun t ht => by simp [hs] at ht
    | some t =>
      have : Decidable (M.Guarded ok t es) := decidableGuarded t es
      decidable_of_iff (ok s e ∧ M.Guarded ok t es)
        ⟨fun h u hu => by rw [hs] at hu; cases hu; exact h, fun h => h t hs⟩

theorem runFrom_invariant {I : State → Prop} {A : Event → Prop}
    (hstep : ∀ s e t, I s → A e → M.step s e = some t → I t)
    (es : List Event) {s t : State} (hA : ∀ e ∈ es, A e) (hI : I s)
    (hrun : M.runFrom s es = some t) : I t := by
  induction es generalizing s with
  | nil =>
    simp only [runFrom, Option.some.injEq] at hrun
    exact hrun ▸ hI
  | cons e es ih =>
    simp only [runFrom] at hrun
    obtain ⟨u, hu, hrest⟩ := Option.bind_eq_some_iff.mp hrun
    have hAe : A e := hA e (by simp)
    exact ih (fun e' he' => hA e' (by simp [he'])) (hstep s e u hI hAe hu) hrest

theorem run_invariant {I : State → Prop} (hinit : I M.init)
    (hstep : ∀ s e t, I s → M.step s e = some t → I t)
    {es : List Event} {t : State} (hrun : M.run es = some t) : I t :=
  M.runFrom_invariant (A := fun _ => True) (fun s e t hI _ h => hstep s e t hI h) es
    (fun _ _ => trivial) hinit hrun

theorem runFrom_length_le {I : State → Prop} {A : Event → Prop} (rank : State → ℕ)
    (hstep : ∀ s e t, I s → A e → M.step s e = some t → I t ∧ rank t < rank s)
    (es : List Event) {s t : State} (hA : ∀ e ∈ es, A e) (hI : I s)
    (hrun : M.runFrom s es = some t) : rank t + es.length ≤ rank s := by
  induction es generalizing s with
  | nil =>
    simp only [runFrom, Option.some.injEq] at hrun
    simp [hrun]
  | cons e es ih =>
    simp only [runFrom] at hrun
    obtain ⟨u, hu, hrest⟩ := Option.bind_eq_some_iff.mp hrun
    obtain ⟨hnext, hlt⟩ := hstep s e u hI (hA e (by simp)) hu
    have hle := ih (fun e' he' => hA e' (by simp [he'])) hnext hrest
    rw [List.length_cons]
    omega

def Reaches (s t : State) : Prop := ∃ es, M.runFrom s es = some t

theorem Reaches.refl (s : State) : M.Reaches s s := ⟨[], rfl⟩

theorem Reaches.head {s t u : State} {e : Event} (hstep : M.step s e = some t)
    (h : M.Reaches t u) : M.Reaches s u := by
  obtain ⟨es, hrun⟩ := h
  exact ⟨e :: es, by rw [runFrom, hstep, Option.bind_some, hrun]⟩

theorem Reaches.trans {s t u : State} (hst : M.Reaches s t) (htu : M.Reaches t u) :
    M.Reaches s u := by
  obtain ⟨es, hrun⟩ := hst
  induction es generalizing s with
  | nil =>
    simp only [runFrom, Option.some.injEq] at hrun
    exact hrun ▸ htu
  | cons e es ih =>
    simp only [runFrom] at hrun
    obtain ⟨v, hv, hrest⟩ := Option.bind_eq_some_iff.mp hrun
    exact Reaches.head M hv (ih hrest)

/-- The allowed runs along which `P` holds are those whose steps all meet `ok`,
when `J` is an invariant of the allowed steps and a step out of a state with `J`
and `P` ends in `P` exactly if it meets `ok`. -/
theorem along_iff_guarded {J P : State → Prop} {ok : State → Event → Prop}
    {A : Event → Prop}
    (hJ : ∀ s e t, J s → A e → M.step s e = some t → J t)
    (hP : ∀ s e t, J s → P s → A e → M.step s e = some t → (P t ↔ ok s e))
    (es : List Event) {s : State} (hA : ∀ e ∈ es, A e) (hj : J s) (hp : P s) :
    M.Along P s es ↔ M.Guarded ok s es := by
  induction es generalizing s with
  | nil => exact ⟨fun _ => trivial, fun _ => hp⟩
  | cons e es ih =>
    have hAe : A e := hA e (by simp)
    have hAs : ∀ e' ∈ es, A e' := fun e' he' => hA e' (by simp [he'])
    constructor
    · rintro ⟨-, hall⟩ t ht
      have hpt : P t := by
        cases es with
        | nil => exact hall t ht
        | cons e' es' => exact (hall t ht).1
      exact ⟨(hP s e t hj hp hAe ht).mp hpt,
        (ih hAs (hJ s e t hj hAe ht) hpt).mp (hall t ht)⟩
    · intro hall
      refine ⟨hp, fun t ht => ?_⟩
      obtain ⟨hok, hrest⟩ := hall t ht
      have hpt : P t := (hP s e t hj hp hAe ht).mpr hok
      exact (ih hAs (hJ s e t hj hAe ht) hpt).mpr hrest

theorem along_of_guarded {J P : State → Prop} {ok : State → Event → Prop}
    (hJ : ∀ s e t, J s → ok s e → M.step s e = some t → J t) (hP : ∀ s, J s → P s)
    {es : List Event} {s : State} (hj : J s) (hg : M.Guarded ok s es) : M.Along P s es := by
  induction es generalizing s with
  | nil => exact hP s hj
  | cons e es ih =>
    refine ⟨hP s hj, fun t ht => ?_⟩
    obtain ⟨hok, hrest⟩ := hg t ht
    exact ih (hJ s e t hj hok ht) hrest

theorem along_of_invariant {J P : State → Prop}
    (hJ : ∀ s e t, J s → M.step s e = some t → J t) (hP : ∀ s, J s → P s)
    (es : List Event) {s : State} (hj : J s) : M.Along P s es := by
  induction es generalizing s with
  | nil => exact hP s hj
  | cons e es ih => exact ⟨hP s hj, fun t ht => ih (hJ s e t hj ht)⟩

theorem guarded_congr {J : State → Prop} {ok ok' : State → Event → Prop}
    (hok : ∀ s e t, J s → M.step s e = some t → (ok s e ↔ ok' s e))
    (hJ : ∀ s e t, J s → ok' s e → M.step s e = some t → J t)
    (es : List Event) {s : State} (hj : J s) : M.Guarded ok s es ↔ M.Guarded ok' s es := by
  induction es generalizing s with
  | nil => exact Iff.rfl
  | cons e es ih =>
    constructor
    · intro hall t ht
      obtain ⟨he, hrest⟩ := hall t ht
      have he' : ok' s e := (hok s e t hj ht).mp he
      exact ⟨he', (ih (hJ s e t hj he' ht)).mp hrest⟩
    · intro hall t ht
      obtain ⟨he', hrest⟩ := hall t ht
      exact ⟨(hok s e t hj ht).mpr he', (ih (hJ s e t hj he' ht)).mpr hrest⟩

theorem guarded_iff_forall {ok : Event → Prop} (htotal : ∀ s e, ∃ t, M.step s e = some t)
    {es : List Event} {s : State} : M.Guarded (fun _ e => ok e) s es ↔ ∀ e ∈ es, ok e := by
  induction es generalizing s with
  | nil => simp [Guarded]
  | cons e es ih =>
    obtain ⟨t, ht⟩ := htotal s e
    rw [List.forall_mem_cons, ← ih (s := t)]
    constructor
    · intro hall
      exact hall t ht
    · intro hall u hu
      rw [ht] at hu
      cases hu
      exact hall

/-- When a step that is not guarded leads to a state with `B`, and `B` is never left,
a run that ends without `B` is guarded. -/
theorem guarded_of_last {J B : State → Prop} {ok : State → Event → Prop}
    (hJ : ∀ s e t, J s → ok s e → M.step s e = some t → J t)
    (hB : ∀ s e t, J s → ¬ ok s e → M.step s e = some t → B t)
    (hstay : ∀ s e t, B s → M.step s e = some t → B t)
    {es : List Event} {s t : State} (hj : J s) (hrun : M.runFrom s es = some t) (ht : ¬ B t) :
    M.Guarded ok s es := by
  induction es generalizing s with
  | nil => trivial
  | cons e es ih =>
    intro u hu
    simp only [runFrom, hu, Option.bind_some] at hrun
    by_cases hok : ok s e
    · exact ⟨hok, ih (hJ s e u hj hok hu) hrun⟩
    · have hlast := M.runFrom_invariant (A := fun _ => True)
        (fun s e t h _ hs => hstay s e t h hs) es (fun _ _ => trivial) (hB s e u hj hok hu) hrun
      exact absurd hlast ht

def record {Observation : Type*} (observe : State → Event → List Observation) :
    Machine (State × List Observation) Event where
  init := (M.init, [])
  step := fun s e => (M.step s.1 e).map fun t => (t, s.2 ++ observe s.1 e)

theorem record_step {Observation : Type*} {observe : State → Event → List Observation}
    {s t : State × List Observation} {e : Event} (h : (M.record observe).step s e = some t) :
    M.step s.1 e = some t.1 ∧ t.2 = s.2 ++ observe s.1 e := by
  obtain ⟨u, hu, rfl⟩ := Option.map_eq_some_iff.mp h
  exact ⟨hu, rfl⟩

theorem Along.last {P : State → Prop} {es : List Event} {s t : State}
    (h : M.Along P s es) (hrun : M.runFrom s es = some t) : P t := by
  induction es generalizing s with
  | nil =>
    simp only [runFrom, Option.some.injEq] at hrun
    exact hrun ▸ h
  | cons e es ih =>
    simp only [runFrom] at hrun
    obtain ⟨u, hu, hrest⟩ := Option.bind_eq_some_iff.mp hrun
    exact ih (h.2 u hu) hrest

end Machine
end EventMachine
