import Mathlib.Data.List.Perm.Basic
import Mathlib.Logic.Function.Basic

/-!
# Tables that keep the first write and tables that keep the last

A sequence of writes is a list of keys with values. `emplaceAll` keeps the first value
written for a key and `assignAll` the last one, after `g` has made of it what is stored.
Both are read off `writesTo k`, the values written for `k` in order. A table made by
`emplaceAll` has each key once, so what is made of its entries does not depend on the
order in which they are taken.
-/

namespace KeyedWrites
variable {κ β γ : Type*} [DecidableEq κ]

def writesTo (k : κ) (l : List (κ × β)) : List β :=
  l.filterMap fun w => if w.1 = k then some w.2 else none

@[simp] theorem writesTo_nil (k : κ) : writesTo k ([] : List (κ × β)) = [] := rfl

theorem writesTo_cons (k : κ) (w : κ × β) (l : List (κ × β)) :
    writesTo k (w :: l) = if w.1 = k then w.2 :: writesTo k l else writesTo k l := by
  unfold writesTo
  by_cases hw : w.1 = k <;> simp [hw]

theorem writesTo_append (k : κ) (l l' : List (κ × β)) :
    writesTo k (l ++ l') = writesTo k l ++ writesTo k l' :=
  List.filterMap_append

theorem mem_keys_iff {k : κ} {l : List (κ × β)} : k ∈ l.map Prod.fst ↔ writesTo k l ≠ [] := by
  induction l with
  | nil => simp
  | cons w l ih =>
    rw [List.map_cons, List.mem_cons, ih, writesTo_cons]
    by_cases hw : w.1 = k
    · simp [hw]
    · simp [hw, Ne.symm hw]

def emplace (t : List (κ × β)) (w : κ × β) : List (κ × β) :=
  if w.1 ∈ t.map Prod.fst then t else t ++ [w]

def emplaceAll (t l : List (κ × β)) : List (κ × β) := l.foldl emplace t

theorem writesTo_emplace (k : κ) (t : List (κ × β)) (w : κ × β) :
    writesTo k (emplace t w) =
      if writesTo k t = [] ∧ w.1 = k then [w.2] else writesTo k t := by
  unfold emplace
  by_cases hmem : w.1 ∈ t.map Prod.fst
  · have hne : writesTo w.1 t ≠ [] := mem_keys_iff.mp hmem
    rw [if_pos hmem, if_neg]
    rintro ⟨hnil, rfl⟩
    exact hne hnil
  · have hnil : writesTo w.1 t = [] := not_not.mp fun h => hmem (mem_keys_iff.mpr h)
    rw [if_neg hmem, writesTo_append, writesTo_cons, writesTo_nil]
    by_cases hw : w.1 = k
    · subst hw
      simp [hnil]
    · simp [hw]

theorem writesTo_emplaceAll (k : κ) (t l : List (κ × β)) :
    writesTo k (emplaceAll t l) =
      if writesTo k t = [] then (writesTo k l).head?.toList else writesTo k t := by
  induction l generalizing t with
  | nil =>
    by_cases ht : writesTo k t = [] <;> simp [emplaceAll, ht]
  | cons w l ih =>
    have hstep : emplaceAll t (w :: l) = emplaceAll (emplace t w) l := rfl
    rw [hstep, ih, writesTo_emplace, writesTo_cons]
    by_cases ht : writesTo k t = [] <;> by_cases hw : w.1 = k <;> simp [ht, hw]

theorem writesTo_of_perm_emplaceAll {k : κ} {l items : List (κ × β)}
    (h : items.Perm (emplaceAll [] l)) : writesTo k items = (writesTo k l).head?.toList := by
  have hperm : (writesTo k items).Perm (writesTo k l).head?.toList := by
    have hw := writesTo_emplaceAll k [] l
    rw [writesTo_nil, if_pos rfl] at hw
    rw [← hw]
    exact h.filterMap _
  cases hhead : (writesTo k l).head? with
  | none =>
    rw [hhead] at hperm
    exact hperm.eq_nil
  | some b =>
    rw [hhead] at hperm
    exact List.perm_singleton.mp hperm

def assignAll (g : β → γ) (f : κ → Option γ) (l : List (κ × β)) : κ → Option γ :=
  l.foldl (fun f w => Function.update f w.1 (some (g w.2))) f

theorem assignAll_apply (g : β → γ) (f : κ → Option γ) (l : List (κ × β)) (k : κ) :
    assignAll g f l k = ((writesTo k l).getLast?.map g).or (f k) := by
  induction l generalizing f with
  | nil => simp [assignAll]
  | cons w l ih =>
    have hstep : assignAll g f (w :: l) =
        assignAll g (Function.update f w.1 (some (g w.2))) l := rfl
    rw [hstep, ih, writesTo_cons]
    by_cases hw : w.1 = k
    · subst hw
      rw [Function.update_self, if_pos rfl, List.getLast?_cons]
      cases (writesTo w.1 l).getLast? <;> rfl
    · rw [Function.update_of_ne (Ne.symm hw), if_neg hw]

end KeyedWrites
