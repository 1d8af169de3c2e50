import Mathlib.Data.List.Basic
import Mathlib.Tactic.Common

/-!
# Lists joined with a separator

A joined list determines the pieces between its separators, and those are the
pieces of its parts in order. Two joined lists are therefore equal exactly if
their parts, cut at the separators inside them, are the same list of pieces.
-/

namespace Joined
variable {α : Type*} {x : α} {ls ms : List (List α)}

section Split
variable [BEq α] [LawfulBEq α]

theorem splitOn_append_cons (xs ys : List α) :
    List.splitOn x (xs ++ x :: ys) = List.splitOn x xs ++ List.splitOn x ys :=
  List.splitOnP_append_cons xs ys (beq_self_eq_true x)

theorem splitOn_join (h : ls ≠ []) :
    List.splitOn x ([x].intercalate ls) = ls.flatMap (List.splitOn x) := by
  induction ls with
  | nil => exact absurd rfl h
  | cons l ls ih =>
    cases ls with
    | nil => simp
    | cons m ls =>
      have hjoin : [x].intercalate (l :: m :: ls) = l ++ x :: [x].intercalate (m :: ls) := by
        simp
      rw [hjoin, splitOn_append_cons, ih (by simp)]
      simp only [List.flatMap_cons]

theorem join_eq_iff (hl : ls ≠ []) (hm : ms ≠ []) :
    [x].intercalate ls = [x].intercalate ms ↔
      ls.flatMap (List.splitOn x) = ms.flatMap (List.splitOn x) := by
  rw [← splitOn_join hl, ← splitOn_join hm]
  constructor
  · intro h
    rw [h]
  · intro h
    have hjoin := congrArg (List.intercalate [x]) h
    rwa [List.intercalate_splitOn, List.intercalate_splitOn] at hjoin

theorem flatMap_splitOn_of_forall (h : ∀ l ∈ ls, x ∉ l) :
    ls.flatMap (List.splitOn x) = ls := by
  induction ls with
  | nil => rfl
  | cons l ls ih =>
    have hfree : ∀ m ∈ [l], x ∉ m := by simpa using h l (by simp)
    have hl : List.splitOn x l = [l] := by
      simpa using List.splitOn_intercalate x hfree (by simp)
    rw [List.flatMap_cons, hl, ih fun m hm => h m (by simp [hm])]
    rfl

end Split

theorem length_lt_join {l : List α} (hl : l ∈ ls) (htwo : 2 ≤ ls.length) :
    l.length < ([x].intercalate ls).length := by
  induction ls with
  | nil => cases hl
  | cons m ls ih =>
    cases ls with
    | nil => simp at htwo
    | cons m' ls =>
      have hlen : ([x].intercalate (m :: m' :: ls)).length =
          m.length + 1 + ([x].intercalate (m' :: ls)).length := by
        simp
        omega
      rcases List.mem_cons.mp hl with rfl | hl
      · omega
      · cases ls with
        | nil =>
          rw [List.mem_singleton.mp hl]
          simp at hlen ⊢
          omega
        | cons m'' ls =>
          have := ih hl (by simp)
          omega

theorem append_cons_inj {as bs cs ds : List α} (hb : x ∉ bs) (hd : x ∉ ds)
    (h : as ++ x :: bs = cs ++ x :: ds) : as = cs ∧ bs = ds := by
  induction as generalizing cs with
  | nil =>
    cases cs with
    | nil => simpa using h
    | cons c cs =>
      simp only [List.nil_append, List.cons_append, List.cons.injEq] at h
      exact absurd (by simp [h.2]) hb
  | cons a as ih =>
    cases cs with
    | nil =>
      simp only [List.nil_append, List.cons_append, List.cons.injEq] at h
      exact absurd (by simp [← h.2]) hd
    | cons c cs =>
      simp only [List.cons_append, List.cons.injEq] at h
      obtain ⟨rfl, rfl⟩ := ih h.2
      exact ⟨by rw [h.1], rfl⟩

end Joined
