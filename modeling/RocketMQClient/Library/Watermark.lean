import Mathlib.Order.SuccPred.Basic
import Mathlib.Data.List.Basic
import Mathlib.Logic.Relation
import Mathlib.Tactic.Common

/-!
# The watermark of a window

Items are opened in increasing order and closed in any order. The watermark is
the least item that is still open; when there is none, it is the successor of
the item closed last. It never moves back, but with nothing open it is past
every item only if the greatest one was closed last.
-/

namespace Watermark
variable {α : Type*} [LinearOrder α] [SuccOrder α]

structure Window (α : Type*) where
  opened : List α := []
  closed : List α := []

def Window.live (w : Window α) : List α := w.opened.filter fun a => a ∉ w.closed

def Window.mark (w : Window α) : Option α :=
  match w.live with
  | a :: _ => some a
  | [] => w.closed.getLast?.map Order.succ

inductive Move (w : Window α) : Window α → Prop
  | openNext (a : α) (new : ∀ b ∈ w.opened, b < a) : Move w { w with opened := w.opened ++ [a] }
  | close (a : α) (live : a ∈ w.live) : Move w { w with closed := w.closed ++ [a] }

structure Inv (w : Window α) : Prop where
  sorted : w.opened.Pairwise (· < ·)
  closed_opened : ∀ a ∈ w.closed, a ∈ w.opened

omit [SuccOrder α] in
theorem mem_live {w : Window α} {a : α} : a ∈ w.live ↔ a ∈ w.opened ∧ a ∉ w.closed := by
  simp [Window.live]

omit [SuccOrder α] in
theorem inv_init : Inv ({} : Window α) := ⟨List.Pairwise.nil, by simp⟩

omit [SuccOrder α] in
theorem Inv.live_sorted {w : Window α} (h : Inv w) : w.live.Pairwise (· < ·) :=
  h.sorted.filter _

omit [SuccOrder α] in
theorem Inv.live_openNext {w : Window α} (h : Inv w) {a : α} (new : ∀ b ∈ w.opened, b < a) :
    Window.live { w with opened := w.opened ++ [a] } = w.live ++ [a] := by
  have ha : a ∉ w.closed := fun hc => lt_irrefl a (new a (h.closed_opened a hc))
  simp [Window.live, List.filter_append, ha]

omit [SuccOrder α] in
theorem live_close (w : Window α) (a : α) :
    Window.live { w with closed := w.closed ++ [a] } = w.live.filter fun b => b ≠ a := by
  simp only [Window.live, List.filter_filter]
  apply List.filter_congr
  intro b _
  by_cases hb : b = a <;> simp [hb]

omit [SuccOrder α] in
theorem Move.inv {w v : Window α} (hm : Move w v) (h : Inv w) : Inv v := by
  cases hm with
  | openNext a new =>
    refine ⟨List.pairwise_append.mpr ⟨h.sorted, by simp, ?_⟩, ?_⟩
    · intro b hb c hc
      rw [List.mem_singleton.mp hc]
      exact new b hb
    · intro b hb
      exact List.mem_append_left _ (h.closed_opened b hb)
  | close a live =>
    refine ⟨h.sorted, ?_⟩
    intro b hb
    rcases List.mem_append.mp hb with hb | hb
    · exact h.closed_opened b hb
    · rw [List.mem_singleton.mp hb]
      exact (mem_live.mp live).1

theorem Inv.mark_least {w : Window α} (h : Inv w) {a : α} (ha : a ∈ w.live) :
    ∃ b ∈ w.live, w.mark = some b ∧ ∀ c ∈ w.live, b ≤ c := by
  have hsorted := h.live_sorted
  rw [Window.mark]
  match hlive : w.live with
  | [] => simp [hlive] at ha
  | b :: l =>
    rw [hlive] at hsorted
    refine ⟨b, by simp, rfl, ?_⟩
    intro c hc
    rcases List.mem_cons.mp hc with rfl | hc
    · exact le_rfl
    · exact ((List.pairwise_cons.mp hsorted).1 c hc).le

theorem Inv.mark_opened {w : Window α} (h : Inv w) {a : α} (ha : w.mark = some a) :
    a ∈ w.opened ∨ ∃ b ∈ w.opened, a = Order.succ b := by
  rw [Window.mark] at ha
  match hlive : w.live with
  | b :: l =>
    rw [hlive, Option.some.injEq] at ha
    have hmem : a ∈ w.live := by simp [hlive, ha]
    exact Or.inl (mem_live.mp hmem).1
  | [] =>
    rw [hlive] at ha
    obtain ⟨b, hb, rfl⟩ := Option.map_eq_some_iff.mp ha
    exact Or.inr ⟨b, h.closed_opened b (List.mem_of_getLast? hb), rfl⟩

theorem mark_of_live_eq_nil {w : Window α} (h : w.live = []) :
    w.mark = w.closed.getLast?.map Order.succ := by
  simp [Window.mark, h]

omit [SuccOrder α] in
theorem Inv.live_eq_singleton {w : Window α} (h : Inv w) {a : α} (ha : a ∈ w.live)
    (hall : ∀ b ∈ w.live, b = a) : w.live = [a] := by
  have hrep := List.eq_replicate_of_mem hall
  have hnodup : w.live.Nodup := h.live_sorted.imp fun hab => ne_of_lt hab
  rw [hrep] at hnodup ha ⊢
  have hlen := List.nodup_replicate.mp hnodup
  have hpos : w.live.length ≠ 0 := (List.mem_replicate.mp ha).1
  have hone : w.live.length = 1 := by omega
  rw [hone]
  rfl

theorem Move.mark_le {w v : Window α} (hm : Move w v) (h : Inv w) {a : α}
    (ha : w.mark = some a) : ∃ b, v.mark = some b ∧ a ≤ b := by
  cases hm with
  | openNext n new =>
    rw [Window.mark, h.live_openNext new]
    match hlive : w.live with
    | b :: l =>
      have hab : b = a := by simpa [Window.mark, hlive] using ha
      exact ⟨b, rfl, hab.ge⟩
    | [] =>
      rw [mark_of_live_eq_nil hlive] at ha
      obtain ⟨c, hc, rfl⟩ := Option.map_eq_some_iff.mp ha
      exact ⟨n, rfl, Order.succ_le_of_lt (new c (h.closed_opened c (List.mem_of_getLast? hc)))⟩
  | close c live =>
    obtain ⟨b, hb, hmark, hleast⟩ := h.mark_least live
    have hab : b = a := Option.some.inj (hmark.symm.trans ha)
    subst hab
    have hnext := live_close w c
    match hv : Window.live { w with closed := w.closed ++ [c] } with
    | d :: l =>
      have hd : d ∈ w.live := by
        have hmem : d ∈ w.live.filter fun x => x ≠ c := by rw [← hnext, hv]; simp
        exact (List.mem_filter.mp hmem).1
      exact ⟨d, by simp [Window.mark, hv], hleast d hd⟩
    | [] =>
      refine ⟨Order.succ c, by simp [mark_of_live_eq_nil hv], ?_⟩
      exact (hleast c live).trans (Order.le_succ c)

theorem mark_le_of_moves {w v : Window α} (hm : Relation.ReflTransGen Move w v) (h : Inv w)
    {a : α} (ha : w.mark = some a) : Inv v ∧ ∃ b, v.mark = some b ∧ a ≤ b := by
  induction hm with
  | refl => exact ⟨h, a, ha, le_rfl⟩
  | tail _ hstep ih =>
    obtain ⟨hinv, b, hb, hab⟩ := ih
    obtain ⟨c, hc, hbc⟩ := hstep.mark_le hinv hb
    exact ⟨hstep.inv hinv, c, hc, hab.trans hbc⟩

omit [SuccOrder α] in
theorem inv_of_moves {w v : Window α} (hm : Relation.ReflTransGen Move w v) (h : Inv w) :
    Inv v := by
  induction hm with
  | refl => exact h
  | tail _ hstep ih => exact hstep.inv ih

omit [SuccOrder α] in
theorem Inv.exists_greatest {w : Window α} (h : Inv w) {a : α} (ha : a ∈ w.opened) :
    ∃ m ∈ w.opened, ∀ b ∈ w.opened, b ≤ m := by
  have hs := h.sorted
  rcases List.eq_nil_or_concat w.opened with hnil | ⟨l, m, hl⟩
  · simp [hnil] at ha
  · rw [List.concat_eq_append] at hl
    rw [hl] at hs ⊢
    refine ⟨m, by simp, ?_⟩
    intro b hb
    rcases List.mem_append.mp hb with hb | hb
    · exact ((List.pairwise_append.mp hs).2.2 b hb m (by simp)).le
    · exact (List.mem_singleton.mp hb).le

def PastAll (w : Window α) : Prop :=
  w.live = [] → ∀ m ∈ w.opened, (∀ a ∈ w.opened, a ≤ m) → w.mark = some (Order.succ m)

theorem pastAll_close_iff [NoMaxOrder α] {w : Window α} (h : Inv w) {c : α} (hc : c ∈ w.live) :
    PastAll { w with closed := w.closed ++ [c] } ↔
      (w.live = [c] → ∀ a ∈ w.opened, a ≤ c) := by
  have hopened := (mem_live.mp hc).1
  by_cases hone : w.live = [c]
  · have hlive : Window.live { w with closed := w.closed ++ [c] } = [] := by
      rw [live_close, hone]
      simp
    have hmark : Window.mark { w with closed := w.closed ++ [c] } = some (Order.succ c) := by
      simp [mark_of_live_eq_nil hlive]
    constructor
    · intro hpast _ a ha
      obtain ⟨m, hm, htop⟩ := h.exists_greatest hopened
      have heq := hpast hlive m hm htop
      rw [hmark] at heq
      have hcm : c = m := Order.succ_injective (Option.some.inj heq)
      rw [hcm]
      exact htop a ha
    · intro htop _ m hm hall
      rw [hmark, le_antisymm (hall c hopened) (htop hone m hm)]
  · refine iff_of_true ?_ fun hw => absurd hw hone
    intro hlive
    rw [live_close] at hlive
    refine absurd (h.live_eq_singleton hc ?_) hone
    intro b hb
    by_contra hne
    have hmem : b ∈ w.live.filter fun x => x ≠ c := List.mem_filter.mpr ⟨hb, by simpa using hne⟩
    rw [hlive] at hmem
    cases hmem

end Watermark
