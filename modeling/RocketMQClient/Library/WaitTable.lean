import Mathlib.Data.List.Perm.Basic
import Mathlib.Tactic.Common

/-!
# A table of waiting callers

Each key of the table has a list of callers that wait for it. A caller joins the
list of a key, and draining a key takes its list out of the table. Up to
permutation the callers of the table are neither lost nor repeated.
-/

namespace WaitTable
variable {κ α : Type*} [DecidableEq κ]

def keys (t : List (κ × List α)) : List κ := t.map Prod.fst

def waiters (t : List (κ × List α)) : List α := t.flatMap Prod.snd

def join (k : κ) (a : α) : List (κ × List α) → List (κ × List α)
  | [] => []
  | e :: t => if e.1 = k then (e.1, e.2 ++ [a]) :: t else e :: join k a t

def drain (k : κ) : List (κ × List α) → Option (List α × List (κ × List α))
  | [] => none
  | e :: t => if e.1 = k then some (e.2, t) else (drain k t).map fun r => (r.1, e :: r.2)

theorem keys_join (k : κ) (a : α) (t : List (κ × List α)) : keys (join k a t) = keys t := by
  induction t with
  | nil => rfl
  | cons e t ih =>
    simp only [join]
    split_ifs
    · rfl
    · exact congrArg (e.1 :: ·) ih

theorem waiters_join {k : κ} (a : α) {t : List (κ × List α)} (hk : k ∈ keys t) :
    (waiters (join k a t)).Perm (a :: waiters t) := by
  induction t with
  | nil => simp [keys] at hk
  | cons e t ih =>
    simp only [join]
    split_ifs with he
    · simp only [waiters, List.flatMap_cons, List.append_assoc, List.singleton_append]
      exact List.perm_middle
    · have hmem : k ∈ keys t := by
        rcases List.mem_cons.mp hk with rfl | hmem
        · exact absurd rfl he
        · exact hmem
      exact ((ih hmem).append_left e.2).trans List.perm_middle

theorem drain_perm {k : κ} {t rest : List (κ × List α)} {as : List α}
    (h : drain k t = some (as, rest)) :
    (keys t).Perm (k :: keys rest) ∧ (waiters t).Perm (as ++ waiters rest) := by
  induction t generalizing rest with
  | nil => simp [drain] at h
  | cons e t ih =>
    simp only [drain] at h
    split_ifs at h with he
    · cases h
      exact ⟨by rw [← he]; rfl, List.Perm.refl _⟩
    · obtain ⟨⟨bs, rest'⟩, hdrain, heq⟩ := Option.map_eq_some_iff.mp h
      cases heq
      obtain ⟨hkeys, hwaiters⟩ := ih hdrain
      refine ⟨(hkeys.cons e.1).trans (List.Perm.swap _ _ _), ?_⟩
      change (e.2 ++ waiters t).Perm (bs ++ (e.2 ++ waiters rest'))
      apply (hwaiters.append_left e.2).trans
      rw [← List.append_assoc, ← List.append_assoc]
      exact List.perm_append_comm.append_right _

end WaitTable
