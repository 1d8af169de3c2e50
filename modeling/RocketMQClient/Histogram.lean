import RocketMQClient.Library.EventMachine
import Mathlib.Data.Int.ModEq

/-!
# The histogram of latencies

`countIn` adds one to the bucket of a grade, and `reportAndReset` reads each bucket and takes
from it what it has read. The buckets are 32-bit atomics and wrap.

A call of `countIn` makes one atomic operation at most, so it is one event, whichever thread
makes it. The reporting thread makes two for each bucket, `load` and `fetch_sub`, and any
number of calls may come between them; `Reporter` is where it stands. Its assertion on the
number of labels ends the process if it fails, so that there is no further step.

What happens is observed: a call of `countIn` with its grade, and the value that a `fetch_sub`
takes from a bucket. A call counts for the bucket of its grade, or for the last one if the grade
is beyond it.
-/

namespace RocketMQClient
open EventMachine

structure Histogram (capacity : ℕ) where
  title : String
  data : Fin capacity → Int32
  labels : List String

namespace Histogram
variable {capacity : ℕ}

def new (capacity : ℕ) (title : String) (labels : List String) : Histogram capacity :=
  { title := title, data := fun _ => 0, labels := labels }

def bucket (capacity : ℕ) [NeZero capacity] (grade : ℤ) : Option (Fin capacity) :=
  if grade < 0 then none
  else if h : capacity ≤ grade.toNat then
    some ⟨capacity - 1, Nat.sub_lt (Nat.pos_of_neZero capacity) Nat.one_pos⟩
  else some ⟨grade.toNat, Nat.lt_of_not_le h⟩

def fetchAdd (h : Histogram capacity) (i : Fin capacity) (n : Int32) : Histogram capacity :=
  { h with data := Function.update h.data i (h.data i + n) }

def fetchSub (h : Histogram capacity) (i : Fin capacity) (n : Int32) : Histogram capacity :=
  { h with data := Function.update h.data i (h.data i - n) }

def countIn [NeZero capacity] (h : Histogram capacity) (grade : ℤ) : Histogram capacity :=
  match bucket capacity grade with
  | none => h
  | some i => h.fetchAdd i 1

def report (h : Histogram capacity) (values : List Int32) : String :=
  h.title ++ ":" ++ String.intercalate ", "
    (List.zipWith (fun label value => label ++ toString value.toInt) h.labels values)

/-- Where the thread that runs `reportAndReset` stands: `values` is what it has reported so
far, and `value` what it has read of bucket `i` and not yet taken away. -/
inductive Reporter (capacity : ℕ)
  | idle
  | scanning (values : List Int32)
  | loaded (i : Fin capacity) (value : Int32) (values : List Int32)

structure State (capacity : ℕ) where
  histogram : Histogram capacity
  reporter : Reporter capacity := .idle
  result : String := ""

inductive Event
  | countIn (grade : ℤ)
  | reportAndReset

def reportStep (s : State capacity) : Option (State capacity) :=
  match s.reporter with
  | .idle =>
    if s.histogram.labels.length = capacity then some { s with reporter := .scanning [] } else none
  | .scanning values =>
    if h : values.length < capacity then
      some { s with reporter := .loaded ⟨values.length, h⟩ (s.histogram.data ⟨values.length, h⟩)
                      values }
    else some { s with reporter := .idle, result := s.histogram.report values }
  | .loaded i value values =>
    some { s with
      histogram := s.histogram.fetchSub i value
      reporter := .scanning (values ++ [value]) }

def step [NeZero capacity] (s : State capacity) : Event → Option (State capacity)
  | .countIn grade => some { s with histogram := s.histogram.countIn grade }
  | .reportAndReset => reportStep s

def machine (capacity : ℕ) [NeZero capacity] (title : String) (labels : List String) :
    Machine (State capacity) Event where
  init := { histogram := new capacity title labels }
  step := step

inductive Observation (capacity : ℕ)
  | called (grade : ℤ)
  | reported (i : Fin capacity) (value : Int32)
  deriving DecidableEq

def observe (s : State capacity) : Event → List (Observation capacity)
  | .countIn grade => [.called grade]
  | .reportAndReset =>
    match s.reporter with
    | .loaded i value _ => [.reported i value]
    | _ => []

def recorded (capacity : ℕ) [NeZero capacity] (title : String) (labels : List String) :
    Machine (State capacity × List (Observation capacity)) Event :=
  (machine capacity title labels).record observe

def countsFor (i : Fin capacity) : Observation capacity → Bool
  | .called grade => 0 ≤ grade ∧ min grade.toNat (capacity - 1) = i
  | .reported _ _ => false

def countedIn (log : List (Observation capacity)) (i : Fin capacity) : ℕ :=
  log.countP (countsFor i)

def reportedBy (i : Fin capacity) : Observation capacity → ℤ
  | .called _ => 0
  | .reported j value => if j = i then value.toInt else 0

def reportedOf (log : List (Observation capacity)) (i : Fin capacity) : ℤ :=
  (log.map (reportedBy i)).sum

def Conserved (s : State capacity × List (Observation capacity)) : Prop :=
  ∀ i, reportedOf s.2 i + (s.1.histogram.data i).toInt ≡ countedIn s.2 i [ZMOD 2 ^ 32]

theorem bucket_of_nonneg (capacity : ℕ) [NeZero capacity] {grade : ℤ} (h : 0 ≤ grade) :
    ∃ i, bucket capacity grade = some i ∧ i.val = min grade.toNat (capacity - 1) := by
  rw [bucket, if_neg (by omega)]
  split_ifs with hcap
  · exact ⟨_, rfl, (min_eq_right (by omega)).symm⟩
  · exact ⟨_, rfl, (min_eq_left (by omega)).symm⟩

theorem fetchAdd_one_ne (h : Histogram capacity) (i : Fin capacity) : h.fetchAdd i 1 ≠ h := by
  intro he
  have hi := congrFun (congrArg Histogram.data he) i
  simp only [fetchAdd, Function.update_self] at hi
  exact absurd (Int32.add_eq_left.mp hi) (by decide)

theorem fetchAdd_one_inj {h : Histogram capacity} {i j : Fin capacity} :
    h.fetchAdd i 1 = h.fetchAdd j 1 ↔ i = j := by
  constructor
  · intro he
    by_contra hne
    have hi := congrFun (congrArg Histogram.data he) i
    simp only [fetchAdd, Function.update_self, Function.update_of_ne hne] at hi
    exact absurd (Int32.add_eq_left.mp hi) (by decide)
  · intro he
    rw [he]

theorem toInt_fetchAdd_modEq (h : Histogram capacity) (i j : Fin capacity) (n : Int32) :
    ((h.fetchAdd i n).data j).toInt ≡
      (h.data j).toInt + if j = i then n.toInt else 0 [ZMOD 2 ^ 32] := by
  by_cases hj : j = i
  · subst hj
    simp only [fetchAdd, Function.update_self, Int32.toInt_add, if_pos]
    exact Int.bmod_emod
  · simp only [fetchAdd, Function.update_of_ne hj, if_neg hj, add_zero]
    rfl

theorem toInt_fetchSub_modEq (h : Histogram capacity) (i j : Fin capacity) (n : Int32) :
    ((h.fetchSub i n).data j).toInt ≡
      (h.data j).toInt - if j = i then n.toInt else 0 [ZMOD 2 ^ 32] := by
  by_cases hj : j = i
  · subst hj
    simp only [fetchSub, Function.update_self, Int32.toInt_sub, if_pos]
    exact Int.bmod_emod
  · simp only [fetchSub, Function.update_of_ne hj, if_neg hj, sub_zero]
    rfl

theorem bucket_eq_none {capacity : ℕ} [NeZero capacity] {grade : ℤ}
    (h : bucket capacity grade = none) : grade < 0 := by
  by_contra hneg
  obtain ⟨i, hi, -⟩ := bucket_of_nonneg capacity (not_lt.mp hneg)
  rw [h] at hi
  cases hi

theorem countsFor_called [NeZero capacity] {grade : ℤ} {i : Fin capacity}
    (h : bucket capacity grade = some i) (j : Fin capacity) :
    countsFor j (.called grade) = true ↔ j = i := by
  have hgrade : 0 ≤ grade := by
    by_contra hneg
    rw [bucket, if_pos (not_le.mp hneg)] at h
    cases h
  obtain ⟨i', hi', hval⟩ := bucket_of_nonneg capacity hgrade
  obtain rfl : i' = i := Option.some.inj (hi'.symm.trans h)
  simp only [countsFor, hgrade, true_and, decide_eq_true_eq, ← hval, eq_comm (b := j.val)]
  exact Fin.ext_iff.symm

section Log
variable (log : List (Observation capacity)) (i j : Fin capacity)

theorem countedIn_called [NeZero capacity] {grade : ℤ} (h : bucket capacity grade = some i) :
    countedIn (log ++ [.called grade]) j = countedIn log j + if j = i then 1 else 0 := by
  simp only [countedIn, List.countP_append, List.countP_singleton, countsFor_called h]

theorem countedIn_ignored [NeZero capacity] {grade : ℤ} (h : bucket capacity grade = none) :
    countedIn (log ++ [.called grade]) j = countedIn log j := by
  simp [countedIn, countsFor, not_le.mpr (bucket_eq_none h)]

theorem countedIn_reported (value : Int32) :
    countedIn (log ++ [.reported i value]) j = countedIn log j := by
  simp [countedIn, countsFor]

theorem reportedOf_called (grade : ℤ) :
    reportedOf (log ++ [.called grade]) j = reportedOf log j := by
  simp [reportedOf, reportedBy]

theorem reportedOf_reported (value : Int32) :
    reportedOf (log ++ [.reported i value]) j =
      reportedOf log j + if j = i then value.toInt else 0 := by
  simp [reportedOf, reportedBy, eq_comm (b := j)]

end Log

theorem Conserved.countIn [NeZero capacity] {s : State capacity}
    {log : List (Observation capacity)} (h : Conserved (s, log)) (grade : ℤ) :
    Conserved ({ s with histogram := s.histogram.countIn grade }, log ++ [.called grade]) := by
  intro j
  rw [Histogram.countIn]
  cases hb : bucket capacity grade with
  | none =>
    simp only [reportedOf_called, countedIn_ignored log j hb]
    exact h j
  | some i =>
    have hadd := toInt_fetchAdd_modEq s.histogram i j 1
    have hold := (h j).add_right (if j = i then 1 else 0)
    simp only [reportedOf_called, countedIn_called log i j hb, Nat.cast_add, Nat.cast_ite,
      Nat.cast_one, Nat.cast_zero]
    refine (hadd.add_left _).trans ?_
    rw [← add_assoc]
    exact hold

theorem Conserved.reported {s : State capacity} {log : List (Observation capacity)}
    (h : Conserved (s, log)) (i : Fin capacity) (value : Int32) (reporter : Reporter capacity) :
    Conserved ({ s with histogram := s.histogram.fetchSub i value, reporter := reporter },
      log ++ [.reported i value]) := by
  intro j
  have hsub := toInt_fetchSub_modEq s.histogram i j value
  simp only [reportedOf_reported, countedIn_reported]
  refine (hsub.add_left _).trans ?_
  rw [add_add_sub_cancel]
  exact h j

theorem Conserved.step [NeZero capacity] {s t : State capacity} {e : Event}
    {log : List (Observation capacity)} (h : Conserved (s, log)) (hstep : step s e = some t) :
    Conserved (t, log ++ observe s e) := by
  cases e with
  | countIn grade =>
    simp only [Histogram.step, Option.some.injEq] at hstep
    subst hstep
    exact h.countIn grade
  | reportAndReset =>
    simp only [Histogram.step, reportStep] at hstep
    cases hr : s.reporter with
    | idle =>
      simp only [hr, Option.ite_none_right_eq_some, Option.some.injEq] at hstep
      obtain ⟨-, rfl⟩ := hstep
      simp only [observe, hr, List.append_nil]
      exact h
    | scanning values =>
      simp only [hr] at hstep
      simp only [observe, hr, List.append_nil]
      split_ifs at hstep
      · cases hstep
        exact h
      · cases hstep
        exact h
    | loaded i value values =>
      simp only [hr, Option.some.injEq] at hstep
      subst hstep
      simp only [observe, hr]
      exact h.reported i value _

/-- However the calls of `countIn` fall between the operations of the reporting thread, what
was reported of a bucket and what is in it add up to its calls. -/
theorem counts_conserved (capacity : ℕ) [NeZero capacity] (title : String)
    (labels : List String) (es : List Event) :
    (recorded capacity title labels).Along Conserved (recorded capacity title labels).init es := by
  apply Machine.along_of_invariant _ _ (fun s h => h)
  · intro i
    rfl
  · intro s e t h hstep
    obtain ⟨hs, hlog⟩ := Machine.record_step _ hstep
    have hnext := h.step hs
    rw [← hlog] at hnext
    exact hnext

/-- Two calls count for the last of two buckets and one for none. The second comes between the
`load` and the `fetch_sub` of the bucket: it stays there when the first is reported. -/
theorem counts_conserved_between :
    ∃ s, (recorded 2 "t" ["a", "b"]).run [.countIn 5, .countIn (-1), .reportAndReset,
          .reportAndReset, .reportAndReset, .reportAndReset, .countIn 7, .reportAndReset] =
        some s ∧
      s.2 = [.called 5, .called (-1), .reported 0 0, .called 7, .reported 1 1] ∧
      s.1.histogram.data 1 = 1 ∧ reportedOf s.2 1 = 1 ∧ countedIn s.2 1 = 2 ∧
      (recorded 2 "t" ["a", "b"]).Along Conserved (recorded 2 "t" ["a", "b"]).init
        [.countIn 5, .countIn (-1), .reportAndReset, .reportAndReset, .reportAndReset,
          .reportAndReset, .countIn 7, .reportAndReset] :=
  ⟨_, rfl, by decide, by decide, by decide, by decide,
    counts_conserved 2 "t" ["a", "b"] _⟩

end Histogram
end RocketMQClient
