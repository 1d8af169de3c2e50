import Mathlib.Data.List.Range
import Mathlib.Data.List.Nodup
import Mathlib.Data.List.Sort
import Mathlib.Tactic.Common

/-!
# A queue that hands out one item at a time

Items are numbered in the order they are appended. A worker binds the queue,
takes the next item, may deliver it several times, and frees the queue once the
item is settled. A bound queue that nobody works for is stuck.

The invariant says that every item taken before the last one is settled. It
gives mutual exclusion (`Inv.unsettled_le`), the order of the first deliveries
(`Inv.firsts_sublist`) and where each item is (`Inv.allPlaced_iff`).
-/

namespace SerialQueue

inductive Phase
  | free
  | bound
  | holding (i : ℕ)
  | stuck
  deriving DecidableEq, Repr

structure Queue where
  appended : ℕ := 0
  taken : ℕ := 0
  phase : Phase := .free
  settled : List ℕ := []
  delivered : List ℕ := []
  deriving DecidableEq, Repr

inductive Move (v : Queue) : Queue → Prop
  | stay : Move v v
  | append (n : ℕ) : Move v { v with appended := v.appended + n }
  | bind : v.phase = .free → Move v { v with phase := .bound }
  | takeNone : v.phase = .bound → Move v { v with phase := .stuck }
  | takeLose : v.phase = .bound → v.taken < v.appended →
      Move v { v with phase := .stuck, taken := v.taken + 1 }
  | takeHold : v.phase = .bound → v.taken < v.appended →
      Move v { v with phase := .holding v.taken, taken := v.taken + 1 }
  | deliver (i : ℕ) : v.phase = .holding i → Move v { v with delivered := v.delivered ++ [i] }
  | drop (i : ℕ) : v.phase = .holding i → Move v { v with phase := .stuck }
  | settle (i : ℕ) (p : Phase) : v.phase = .holding i → p = .free ∨ p = .stuck →
      Move v { v with phase := p, settled := v.settled ++ [i] }

structure Inv (v : Queue) : Prop where
  taken_le : v.taken ≤ v.appended
  earlier : ∀ j, j + 1 < v.taken → j ∈ v.settled
  idle : v.phase = .free ∨ v.phase = .bound → ∀ j < v.taken, j ∈ v.settled
  holding : ∀ i, v.phase = .holding i → i + 1 = v.taken ∧ i ∉ v.settled
  settled_lt : ∀ j ∈ v.settled, j < v.taken
  settled_nodup : v.settled.Nodup
  delivered_lt : ∀ j ∈ v.delivered, j < v.taken
  delivered_sorted : v.delivered.Pairwise (· ≤ ·)

theorem inv_init : Inv {} := by
  constructor <;> simp

theorem Inv.takeNext {v : Queue} (h : Inv v) (hb : v.phase = .bound) (hlt : v.taken < v.appended)
    {p : Phase} (hp : p = .stuck ∨ p = .holding v.taken) :
    Inv { v with phase := p, taken := v.taken + 1 } := by
  have hall := h.idle (Or.inr hb)
  refine ⟨hlt, fun j hj => hall j (by simpa using hj), fun hf => ?_, fun i hi => ?_,
    fun j hj => (h.settled_lt j hj).trans (Nat.lt_succ_self _), h.settled_nodup,
    fun j hj => (h.delivered_lt j hj).trans (Nat.lt_succ_self _), h.delivered_sorted⟩
  · rcases hp with rfl | rfl <;> simp at hf
  · rcases hp with rfl | rfl
    · simp at hi
    · simp only [Phase.holding.injEq] at hi
      subst hi
      exact ⟨rfl, fun hm => lt_irrefl _ (h.settled_lt _ hm)⟩

theorem Inv.settleHeld {v : Queue} (h : Inv v) {i : ℕ} (hi : v.phase = .holding i) {p : Phase}
    (hp : p = .free ∨ p = .stuck) : Inv { v with phase := p, settled := v.settled ++ [i] } := by
  obtain ⟨hlast, hnew⟩ := h.holding i hi
  refine ⟨h.taken_le, fun j hj => by simp [h.earlier j hj], fun _ j hj => ?_, fun k hk => ?_,
    fun j hj => ?_, ?_, h.delivered_lt, h.delivered_sorted⟩
  · rcases Nat.lt_or_ge (j + 1) v.taken with hlt | hge
    · simp [h.earlier j hlt]
    · have hji : j = i := by
        change j < v.taken at hj
        omega
      simp [hji]
  · rcases hp with rfl | rfl <;> simp at hk
  · rcases List.mem_append.mp hj with hj | hj
    · exact h.settled_lt j hj
    · rw [List.mem_singleton.mp hj]
      change i < v.taken
      omega
  · refine List.nodup_append.mpr ⟨h.settled_nodup, by simp, fun a ha b hb => ?_⟩
    rw [List.mem_singleton.mp hb]
    rintro rfl
    exact hnew ha

theorem Move.inv {v w : Queue} (hm : Move v w) (h : Inv v) : Inv w := by
  cases hm with
  | stay => exact h
  | append n =>
    exact ⟨h.taken_le.trans (Nat.le_add_right _ _), h.earlier, h.idle, h.holding, h.settled_lt,
      h.settled_nodup, h.delivered_lt, h.delivered_sorted⟩
  | bind hf =>
    exact ⟨h.taken_le, h.earlier, fun _ => h.idle (Or.inl hf), by simp, h.settled_lt,
      h.settled_nodup, h.delivered_lt, h.delivered_sorted⟩
  | takeNone hb =>
    exact ⟨h.taken_le, h.earlier, by simp, by simp, h.settled_lt, h.settled_nodup,
      h.delivered_lt, h.delivered_sorted⟩
  | takeLose hb hlt => exact h.takeNext hb hlt (Or.inl rfl)
  | takeHold hb hlt => exact h.takeNext hb hlt (Or.inr rfl)
  | deliver i hi =>
    obtain ⟨hlast, -⟩ := h.holding i hi
    refine ⟨h.taken_le, h.earlier, h.idle, h.holding, h.settled_lt, h.settled_nodup, ?_, ?_⟩
    · intro j hj
      rcases List.mem_append.mp hj with hj | hj
      · exact h.delivered_lt j hj
      · rw [List.mem_singleton.mp hj]
        change i < v.taken
        omega
    · refine List.pairwise_append.mpr ⟨h.delivered_sorted, by simp, fun j hj k hk => ?_⟩
      have hjt := h.delivered_lt j hj
      rw [List.mem_singleton.mp hk]
      omega
  | drop i hi =>
    exact ⟨h.taken_le, h.earlier, by simp, by simp, h.settled_lt, h.settled_nodup,
      h.delivered_lt, h.delivered_sorted⟩
  | settle i p hi hp => exact h.settleHeld hi hp

theorem Move.holding_of_delivered {v w : Queue} (hm : Move v w) {i : ℕ}
    (hi : w.delivered = v.delivered ++ [i]) : v.phase = .holding i := by
  cases hm with
  | deliver j hj =>
    have hij : j = i := by simpa using hi
    exact hij ▸ hj
  | _ => simp at hi

def unsettled (v : Queue) : List ℕ := (List.range v.taken).filter fun j => j ∉ v.settled

theorem Inv.unsettled_le {v : Queue} (h : Inv v) : (unsettled v).length ≤ 1 := by
  have hsub : unsettled v ⊆ [v.taken - 1] := by
    intro j hj
    simp only [unsettled, List.mem_filter, List.mem_range, decide_eq_true_eq] at hj
    have hge : ¬ j + 1 < v.taken := fun hlt => hj.2 (h.earlier j hlt)
    have hj1 := hj.1
    exact List.mem_singleton.mpr (by omega)
  have hnd : (unsettled v).Nodup := List.nodup_range.filter _
  exact (List.subperm_of_subset hnd hsub).length_le

theorem Inv.delivered_settled {v : Queue} (h : Inv v) {i j : ℕ} (hi : v.phase = .holding i)
    (hj : j ∈ v.delivered) (hne : j ≠ i) : j ∈ v.settled := by
  obtain ⟨hlast, -⟩ := h.holding i hi
  have hlt := h.delivered_lt j hj
  exact h.earlier j (by omega)

def firsts (l : List ℕ) : List ℕ :=
  l.foldl (fun acc i => if i ∈ acc then acc else acc ++ [i]) []

theorem firsts_concat (l : List ℕ) (i : ℕ) :
    firsts (l ++ [i]) = if i ∈ firsts l then firsts l else firsts l ++ [i] := by
  rw [firsts, List.foldl_append]
  rfl

theorem mem_firsts {l : List ℕ} {i : ℕ} : i ∈ firsts l ↔ i ∈ l := by
  induction l using List.reverseRecOn with
  | nil => simp [firsts]
  | append_singleton l j ih =>
    rw [firsts_concat]
    split_ifs with hj
    · by_cases hij : i = j
      · subst hij
        simp [hj]
      · simp [ih, hij]
    · simp [ih]

theorem firsts_pairwise {l : List ℕ} (h : l.Pairwise (· ≤ ·)) : (firsts l).Pairwise (· < ·) := by
  induction l using List.reverseRecOn with
  | nil => simp [firsts]
  | append_singleton l j ih =>
    obtain ⟨hl, -, hlast⟩ := List.pairwise_append.mp h
    rw [firsts_concat]
    split_ifs with hj
    · exact ih hl
    · refine List.pairwise_append.mpr ⟨ih hl, by simp, fun a ha b hb => ?_⟩
      rw [List.mem_singleton.mp hb]
      exact lt_of_le_of_ne (hlast a (mem_firsts.mp ha) j (by simp)) fun he => hj (he ▸ ha)

theorem Inv.firsts_sublist {v : Queue} (h : Inv v) :
    (firsts v.delivered).Sublist (List.range v.appended) := by
  have hlt : (firsts v.delivered).Pairwise (· < ·) := firsts_pairwise h.delivered_sorted
  refine List.sublist_of_subperm_of_pairwise ?_ hlt List.pairwise_lt_range
  refine List.subperm_of_subset (hlt.imp fun hab => ne_of_lt hab) fun i hi => ?_
  have hi' := h.delivered_lt i (mem_firsts.mp hi)
  have hle := h.taken_le
  exact List.mem_range.mpr (by omega)

def Placed (v : Queue) (i : ℕ) : Prop :=
  (v.taken ≤ i ∧ v.phase ≠ .holding i ∧ i ∉ v.settled) ∨
  (i < v.taken ∧ v.phase = .holding i ∧ i ∉ v.settled) ∨
  (i < v.taken ∧ v.phase ≠ .holding i ∧ v.settled.count i = 1)

def AllPlaced (v : Queue) : Prop := ∀ i < v.appended, Placed v i

theorem Inv.allPlaced_iff {v : Queue} (h : Inv v) :
    AllPlaced v ↔ (v.phase = .stuck → ∀ j < v.taken, j ∈ v.settled) := by
  constructor
  · intro hall hs j hj
    rcases hall j (hj.trans_le h.taken_le) with hp | hp | hp
    · omega
    · simp [hs] at hp
    · exact List.one_le_count_iff.mp hp.2.2.ge
  · intro hstuck i hi
    have hone : ∀ j ∈ v.settled, v.settled.count j = 1 :=
      fun j hj => List.count_eq_one_of_mem h.settled_nodup hj
    by_cases hge : v.taken ≤ i
    · refine Or.inl ⟨hge, fun hh => ?_, fun hm => ?_⟩
      · have := (h.holding i hh).1
        omega
      · have := h.settled_lt i hm
        omega
    · have hlt : i < v.taken := by omega
      by_cases hh : v.phase = .holding i
      · exact Or.inr (Or.inl ⟨hlt, hh, (h.holding i hh).2⟩)
      · have hm : i ∈ v.settled := by
          cases hp : v.phase with
          | free => exact h.idle (Or.inl hp) i hlt
          | bound => exact h.idle (Or.inr hp) i hlt
          | stuck => exact hstuck hp i hlt
          | holding j =>
            have hj := (h.holding j hp).1
            have hne : i ≠ j := fun he => hh (he ▸ hp)
            exact h.earlier i (by omega)
        exact Or.inr (Or.inr ⟨hlt, hh, hone i hm⟩)

end SerialQueue
