import RocketMQClient.Library.EventMachine
import Mathlib.Logic.Relation
import Mathlib.Tactic.Common

/-!
# Mutexes taken in a fixed order

What a function does with mutexes is written as a small program: which mutexes it holds
while it does what, on each of its paths. A mutex is given by its name and by the object it
belongs to; the program has only the name, since a function may be called for any object.
If every mutex is taken while only mutexes of a lower rank are held, no threads that run
such programs ever wait for each other in a circle, however many they are. A mutex cannot
be taken twice by the same thread.
-/

namespace LockOrder
open EventMachine EventMachine.Machine

inductive Code (N : Type*)
  | skip
  | locked (name : N) (body : Code N)
  | seq (first second : Code N)
  | either (left right : Code N)
  | many (body : Code N)
  deriving DecidableEq, Repr

abbrev Mutex (N : Type*) := N × ℕ

inductive Op (N : Type*)
  | acquire (m : Mutex N)
  | release (m : Mutex N)
  deriving DecidableEq, Repr

variable {N : Type*}

def Code.block : List (Code N) → Code N
  | [] => .skip
  | c :: cs => .seq c (block cs)

def Code.oneOf : List (Code N) → Code N
  | [] => .skip
  | c :: cs => .either c (oneOf cs)

inductive Runs : Code N → List (Op N) → Prop
  | skip : Runs .skip []
  | locked {name : N} {body : Code N} {ops : List (Op N)} (object : ℕ) (h : Runs body ops) :
      Runs (.locked name body) (.acquire (name, object) :: (ops ++ [.release (name, object)]))
  | seq {a b : Code N} {x y : List (Op N)} (ha : Runs a x) (hb : Runs b y) :
      Runs (.seq a b) (x ++ y)
  | left {a b : Code N} {x : List (Op N)} (h : Runs a x) : Runs (.either a b) x
  | right {a b : Code N} {x : List (Op N)} (h : Runs b x) : Runs (.either a b) x
  | done {a : Code N} : Runs (.many a) []
  | again {a : Code N} {x y : List (Op N)} (hx : Runs a x) (hy : Runs (.many a) y) :
      Runs (.many a) (x ++ y)

theorem exists_runs (c : Code N) : ∃ ops, Runs c ops := by
  induction c with
  | skip => exact ⟨[], .skip⟩
  | locked name body ih =>
    obtain ⟨ops, hops⟩ := ih
    exact ⟨_, .locked 0 hops⟩
  | seq a b iha ihb =>
    obtain ⟨x, hx⟩ := iha
    obtain ⟨y, hy⟩ := ihb
    exact ⟨x ++ y, .seq hx hy⟩
  | either a b iha _ =>
    obtain ⟨x, hx⟩ := iha
    exact ⟨x, .left hx⟩
  | many a _ => exact ⟨[], .done⟩

theorem runs_oneOf {c : Code N} {cs : List (Code N)} (hc : c ∈ cs) {ops : List (Op N)}
    (h : Runs c ops) : Runs (.oneOf cs) ops := by
  induction cs with
  | nil => simp at hc
  | cons d ds ih =>
    obtain rfl | hin := List.mem_cons.mp hc
    · exact .left h
    · exact .right (ih hin)

section Ordered
variable (rank : N → ℕ)

/-- Mutexes are taken above rank `r` only, and each above those that are held. -/
def ordered : ℕ → Code N → Bool
  | _, .skip => true
  | r, .locked name body => decide (r < rank name) && ordered (rank name) body
  | r, .seq a b => ordered r a && ordered r b
  | r, .either a b => ordered r a && ordered r b
  | r, .many a => ordered r a

/-- A thread that holds `held` can do `ops` and then holds nothing. -/
def Disciplined : List (Mutex N) → List (Op N) → Prop
  | held, [] => held = []
  | held, .acquire m :: ops => (∀ h ∈ held, rank h.1 < rank m.1) ∧ Disciplined (m :: held) ops
  | held, .release m :: ops => ∃ rest, held = m :: rest ∧ Disciplined rest ops

variable {rank}

@[simp] theorem ordered_block (r : ℕ) (cs : List (Code N)) :
    ordered rank r (.block cs) = cs.all (ordered rank r) := by
  induction cs with
  | nil => rfl
  | cons c cs ih => simp [Code.block, ordered, ih]

@[simp] theorem ordered_oneOf (r : ℕ) (cs : List (Code N)) :
    ordered rank r (.oneOf cs) = cs.all (ordered rank r) := by
  induction cs with
  | nil => rfl
  | cons c cs ih => simp [Code.oneOf, ordered, ih]

theorem ordered_mono {r r' : ℕ} (hle : r' ≤ r) {c : Code N} (h : ordered rank r c = true) :
    ordered rank r' c = true := by
  induction c with
  | skip => rfl
  | locked name body _ =>
    simp only [ordered, Bool.and_eq_true, decide_eq_true_eq] at h ⊢
    exact ⟨Nat.lt_of_le_of_lt hle h.1, h.2⟩
  | seq a b iha ihb =>
    simp only [ordered, Bool.and_eq_true] at h ⊢
    exact ⟨iha h.1, ihb h.2⟩
  | either a b iha ihb =>
    simp only [ordered, Bool.and_eq_true] at h ⊢
    exact ⟨iha h.1, ihb h.2⟩
  | many a ih => exact ih h

theorem disciplined_append {c : Code N} {x : List (Op N)} (h : Runs c x) {r : ℕ}
    (hc : ordered rank r c = true) {held : List (Mutex N)} (hheld : ∀ m ∈ held, rank m.1 ≤ r)
    {y : List (Op N)} (hy : Disciplined rank held y) : Disciplined rank held (x ++ y) := by
  induction h generalizing r held y with
  | skip => exact hy
  | @locked name body ops object _ ih =>
    simp only [ordered, Bool.and_eq_true, decide_eq_true_eq] at hc
    rw [List.cons_append, List.append_assoc]
    refine ⟨fun m hm => Nat.lt_of_le_of_lt (hheld m hm) hc.1, ?_⟩
    apply ih hc.2
    · intro m hm
      obtain rfl | hold := List.mem_cons.mp hm
      · exact Nat.le_refl _
      · exact Nat.le_trans (hheld m hold) (Nat.le_of_lt hc.1)
    · exact ⟨held, rfl, hy⟩
  | seq _ _ iha ihb =>
    simp only [ordered, Bool.and_eq_true] at hc
    rw [List.append_assoc]
    exact iha hc.1 hheld (ihb hc.2 hheld hy)
  | left _ ih =>
    simp only [ordered, Bool.and_eq_true] at hc
    exact ih hc.1 hheld hy
  | right _ ih =>
    simp only [ordered, Bool.and_eq_true] at hc
    exact ih hc.2 hheld hy
  | done => exact hy
  | again _ _ ihx ihy =>
    rw [List.append_assoc]
    exact ihx hc hheld (ihy hc hheld hy)

theorem disciplined_of_runs {c : Code N} {x : List (Op N)} (h : Runs c x)
    (hc : ordered rank 0 c = true) : Disciplined rank [] x := by
  have hend : Disciplined rank [] ([] : List (Op N)) := rfl
  have hall := disciplined_append h hc (by simp) hend
  rwa [List.append_nil] at hall

theorem Disciplined.left_ne_nil {held : List (Mutex N)} {left : List (Op N)}
    (h : Disciplined rank held left) {m : Mutex N} (hm : m ∈ held) : left ≠ [] := by
  intro hnil
  subst hnil
  rw [Disciplined] at h
  simp [h] at hm

end Ordered

structure Thread (N : Type*) where
  held : List (Mutex N)
  left : List (Op N)
  deriving DecidableEq, Repr

section Machine
variable [DecidableEq N]

def isHeld (s : List (Thread N)) (m : Mutex N) : Bool := s.any fun th => th.held.contains m

def step (s : List (Thread N)) (i : ℕ) : Option (List (Thread N)) :=
  s[i]?.bind fun th =>
    match th.left with
    | [] => none
    | .acquire m :: ops => if isHeld s m then none else some (s.set i ⟨m :: th.held, ops⟩)
    | .release m :: ops => some (s.set i ⟨th.held.erase m, ops⟩)

def machine (programs : List (List (Op N))) : Machine (List (Thread N)) ℕ where
  init := programs.map fun ops => ⟨[], ops⟩
  step := step

def WaitsFor (s : List (Thread N)) (i j : ℕ) : Prop :=
  ∃ th ∈ s[i]?, ∃ m ops, th.left = .acquire m :: ops ∧ ∃ th' ∈ s[j]?, m ∈ th'.held

variable {rank : N → ℕ} {s t : List (Thread N)} {i : ℕ}

theorem disciplined_step (h : ∀ th ∈ s, Disciplined rank th.held th.left)
    (hs : step s i = some t) : ∀ th ∈ t, Disciplined rank th.held th.left := by
  obtain ⟨th, hth, hnext⟩ := Option.bind_eq_some_iff.mp hs
  have hold := h th (List.mem_of_getElem? hth)
  have hset : ∀ th' : Thread N, Disciplined rank th'.held th'.left →
      ∀ u ∈ s.set i th', Disciplined rank u.held u.left := by
    intro th' hth' u hu
    obtain hin | rfl := List.mem_or_eq_of_mem_set hu
    · exact h u hin
    · exact hth'
  split at hnext
  · simp at hnext
  · rename_i m ops hleft
    split_ifs at hnext
    simp only [Option.some.injEq] at hnext
    subst hnext
    rw [hleft] at hold
    exact hset _ hold.2
  · rename_i m ops hleft
    simp only [Option.some.injEq] at hnext
    subst hnext
    rw [hleft] at hold
    obtain ⟨rest, hheld, hrest⟩ := hold
    apply hset
    simpa [hheld] using hrest

theorem disciplined_run {programs : List (List (Op N))}
    (h : ∀ ops ∈ programs, Disciplined rank [] ops) {es : List ℕ}
    (hrun : (machine programs).run es = some s) :
    ∀ th ∈ s, Disciplined rank th.held th.left := by
  apply (machine programs).run_invariant (I := fun s => ∀ th ∈ s, Disciplined rank th.held th.left)
    ?_ (fun _ _ _ hs hstep => disciplined_step hs hstep) hrun
  intro th hth
  obtain ⟨ops, hops, rfl⟩ := List.mem_map.mp hth
  exact h ops hops

theorem blocked_of_step_eq_none {th : Thread N} (hth : s[i]? = some th) (hleft : th.left ≠ [])
    (hstep : step s i = none) :
    ∃ m ops, th.left = .acquire m :: ops ∧ ∃ (j : ℕ) (th' : Thread N), s[j]? = some th' ∧
      m ∈ th'.held := by
  simp only [step, hth, Option.bind_some] at hstep
  split at hstep
  · rename_i hnil
    exact absurd hnil hleft
  · rename_i m ops hnext
    split_ifs at hstep with hheld
    simp only [isHeld, List.any_eq_true, List.contains_iff_mem] at hheld
    obtain ⟨th', hth', hm⟩ := hheld
    obtain ⟨j, hj⟩ := List.getElem?_of_mem hth'
    exact ⟨m, ops, hnext, j, th', hj, hm⟩
  · simp at hstep

theorem waitsFor_above (h : ∀ th ∈ s, Disciplined rank th.held th.left) {th : Thread N}
    {m : Mutex N} {ops : List (Op N)} (hth : s[i]? = some th) (hnext : th.left = .acquire m :: ops)
    (hstep : step s i = none) :
    ∃ j th', s[j]? = some th' ∧ WaitsFor s i j ∧
      ((step s j).isSome ∨ ∃ m' ops', th'.left = .acquire m' :: ops' ∧ rank m.1 < rank m'.1) := by
  obtain ⟨m', ops', hnext', j, th', hj, hm⟩ :=
    blocked_of_step_eq_none hth (by simp [hnext]) hstep
  rw [hnext, List.cons.injEq, Op.acquire.injEq] at hnext'
  obtain ⟨rfl, -⟩ := hnext'
  refine ⟨j, th', hj, ⟨th, hth, m, ops, hnext, th', hj, hm⟩, ?_⟩
  have hdisc := h th' (List.mem_of_getElem? hj)
  by_cases hstep' : step s j = none
  · obtain ⟨m'', ops'', hnext'', -⟩ := blocked_of_step_eq_none hj (hdisc.left_ne_nil hm) hstep'
    rw [hnext''] at hdisc
    exact Or.inr ⟨m'', ops'', hnext'', hdisc.1 m hm⟩
  · exact Or.inl (Option.isSome_iff_ne_none.mpr hstep')

/-- Whoever waits, waits in the end for a thread that can go on: the ranks of the mutexes
that are waited for increase along the way. -/
theorem exists_runnable (h : ∀ th ∈ s, Disciplined rank th.held th.left) {bound : ℕ}
    (hbound : ∀ n, rank n ≤ bound) {th : Thread N} (hth : s[i]? = some th)
    (hleft : th.left ≠ []) :
    ∃ j, Relation.ReflTransGen (WaitsFor s) i j ∧ (step s j).isSome := by
  have hchain : ∀ d (i : ℕ) (th : Thread N) (m : Mutex N) (ops : List (Op N)), s[i]? = some th →
      th.left = .acquire m :: ops → bound < rank m.1 + d →
      ∃ j, Relation.ReflTransGen (WaitsFor s) i j ∧ (step s j).isSome := by
    intro d
    induction d with
    | zero =>
      intro i th m ops hi hnext hd
      have hle := hbound m.1
      omega
    | succ d ih =>
      intro i th m ops hi hnext hd
      by_cases hstep : step s i = none
      · obtain ⟨j, th', hj, hwaits, hgo | ⟨m', ops', hnext', hlt⟩⟩ :=
          waitsFor_above h hi hnext hstep
        · exact ⟨j, .single hwaits, hgo⟩
        · obtain ⟨l, hreach, hgo⟩ := ih j th' m' ops' hj hnext' (by omega)
          exact ⟨l, .head hwaits hreach, hgo⟩
      · exact ⟨i, .refl, Option.isSome_iff_ne_none.mpr hstep⟩
  by_cases hstep : step s i = none
  · obtain ⟨m, ops, hnext, -⟩ := blocked_of_step_eq_none hth hleft hstep
    exact hchain (bound + 1) i th m ops hth hnext (by omega)
  · exact ⟨i, .refl, Option.isSome_iff_ne_none.mpr hstep⟩

end Machine

end LockOrder
