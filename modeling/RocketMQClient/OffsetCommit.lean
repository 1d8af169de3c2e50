import RocketMQClient.ProcessQueue
import RocketMQClient.Library.EventMachine
import RocketMQClient.Library.Watermark
import Mathlib.Data.Int.SuccPred

/-!
# The committed offset of a broadcast queue

In broadcasting mode the records of a process queue are meant to be a window over
the queue offsets: `cacheMessages` opens offsets in increasing order, `release`
closes them in any order, and `committedOffset` is the watermark. `records` says
what the set holds for a window, and the operations are shown to keep it that
way.

In the machine a message is known by its offset. An event is possible when it
keeps the cached offsets strictly increasing, or releases a cached message that
was not released before. Offsets have 64 bits in the source, and the sum in
`committedOffset` fits them unless the largest of all offsets is cached.
-/

namespace RocketMQClient.OffsetCommit
open EventMachine Watermark

structure State where
  queue : ProcessQueueImpl := {}
  cached : List ℤ := []
  released : List ℤ := []
  assertionFailed : Bool := false

inductive Event
  | cacheMessages (messages : List MQMessageExt)
  | release (bodySize : ℕ) (offset : ℤ)

def acceptedOffsets (q : ProcessQueueImpl) (messages : List MQMessageExt) : List ℤ :=
  (messages.filter q.filterExpression.accept).map MQMessage.getQueueOffset

def step (s : State) : Event → Option State
  | .cacheMessages messages =>
    let cached := s.cached ++ acceptedOffsets s.queue messages
    if cached.Pairwise (· < ·) then
      some { s with queue := s.queue.cacheMessages .broadcasting messages, cached := cached }
    else none
  | .release bodySize offset =>
    if offset ∈ s.cached ∧ offset ∉ s.released then
      match s.queue.release .broadcasting bodySize offset with
      | some q => some { s with queue := q, released := s.released ++ [offset] }
      | none => some { s with assertionFailed := true }
    else none

def machine (filter : FilterExpression) : Machine State Event where
  init := { queue := { filterExpression := filter } }
  step := step

def window (s : State) : Window ℤ := { opened := s.cached, closed := s.released }

def unreleased (s : State) : List ℤ := s.cached.filter fun o => o ∉ s.released

def records (w : Window ℤ) : List OffsetRecord :=
  match w.live with
  | [] => w.closed.getLast?.toList.map fun o => ⟨o, true⟩
  | o :: l => (o :: l).map fun o => ⟨o, false⟩

theorem committedOffset_eq_mark {q : ProcessQueueImpl} {w : Window ℤ}
    (h : q.offsets.entries = records w) : q.committedOffset = w.mark := by
  rw [ProcessQueueImpl.committedOffset, OrderedSet.first?, h, records, Window.mark]
  cases w.live with
  | cons o l => rfl
  | nil =>
    cases w.closed.getLast? with
    | none => rfl
    | some c => rfl

theorem records_openNext {w : Window ℤ} (hw : Inv w) {o : ℤ} (new : ∀ b ∈ w.opened, b < o) :
    records { w with opened := w.opened ++ [o] } = (w.live ++ [o]).map fun o => ⟨o, false⟩ := by
  rw [records, hw.live_openNext new]
  cases w.live <;> rfl

theorem recordOffset_records {offsets : Offsets} {w : Window ℤ} (hw : Inv w)
    (h : offsets.entries = records w) {o : ℤ} (new : ∀ b ∈ w.opened, b < o) :
    (ProcessQueueImpl.recordOffset offsets o).entries =
      records { w with opened := w.opened ++ [o] } := by
  rw [records_openNext hw new]
  rw [records] at h
  match hlive : w.live with
  | [] =>
    rw [hlive] at h
    rw [ProcessQueueImpl.recordOffset]
    cases hlast : w.closed.getLast? with
    | none =>
      have hnil : offsets.entries = [] := by simpa [hlast] using h
      rw [hnil, OrderedSet.emplace_last (by simp [hnil]), hnil]
      rfl
    | some c =>
      have hone : offsets.entries = [⟨c, true⟩] := by simpa [hlast] using h
      have hkept : (offsets.erase c).entries = [] := by simp [OrderedSet.erase, hone]
      simp only [hone, if_true]
      rw [OrderedSet.emplace_last (by simp [hkept]), hkept]
      rfl
  | a :: l =>
    rw [hlive] at h
    have hlt : ∀ r ∈ offsets.entries, r.offset < o := by
      intro r hr
      rw [h] at hr
      obtain ⟨b, hb, rfl⟩ := List.mem_map.mp hr
      have hmem : b ∈ w.live := by rwa [hlive]
      exact new b (mem_live.mp hmem).1
    have hlive : ∀ r ∈ offsets.entries, r.released = false := by
      intro r hr
      rw [h] at hr
      obtain ⟨b, -, rfl⟩ := List.mem_map.mp hr
      rfl
    rw [ProcessQueueImpl.recordOffset_eq_emplace hlive, OrderedSet.emplace_last hlt, h]
    simp

theorem cacheMessage_offsets (q : ProcessQueueImpl) (m : MQMessageExt) :
    (q.cacheMessage .broadcasting m).offsets =
      if q.filterExpression.accept m then
        ProcessQueueImpl.recordOffset q.offsets m.getQueueOffset
      else q.offsets := by
  rw [ProcessQueueImpl.cacheMessage]
  split_ifs <;> rfl

theorem acceptedOffsets_cons (q : ProcessQueueImpl) (m : MQMessageExt)
    (messages : List MQMessageExt) :
    acceptedOffsets q (m :: messages) =
      (if q.filterExpression.accept m then [m.getQueueOffset] else []) ++
        acceptedOffsets (q.cacheMessage .broadcasting m) messages := by
  by_cases hm : q.filterExpression.accept m = true <;> simp [acceptedOffsets, hm]

theorem cacheMessages_records {q : ProcessQueueImpl} {w : Window ℤ} (hw : Inv w)
    (h : q.offsets.entries = records w) {messages : List MQMessageExt}
    (hsorted : (w.opened ++ acceptedOffsets q messages).Pairwise (· < ·)) :
    (q.cacheMessages .broadcasting messages).offsets.entries =
        records { w with opened := w.opened ++ acceptedOffsets q messages } ∧
      Relation.ReflTransGen Move w
        { w with opened := w.opened ++ acceptedOffsets q messages } := by
  induction messages generalizing q w with
  | nil => simpa [acceptedOffsets, ProcessQueueImpl.cacheMessages] using ⟨h, .refl⟩
  | cons m messages ih =>
    rw [acceptedOffsets_cons] at hsorted ⊢
    have hq := cacheMessage_offsets q m
    change ((q.cacheMessage .broadcasting m).cacheMessages .broadcasting messages).offsets.entries
      = _ ∧ _
    by_cases hm : q.filterExpression.accept m = true
    · rw [if_pos hm] at hq hsorted
      rw [if_pos hm]
      rw [← List.append_assoc] at hsorted ⊢
      have hnew : ∀ b ∈ w.opened, b < m.getQueueOffset := by
        intro b hb
        have hfirst := (List.pairwise_append.mp hsorted).1
        exact (List.pairwise_append.mp hfirst).2.2 b hb _ (by simp)
      have hmove : Move w { w with opened := w.opened ++ [m.getQueueOffset] } :=
        .openNext _ hnew
      obtain ⟨hentries, hmoves⟩ := ih (hmove.inv hw)
        (by rw [hq]; exact recordOffset_records hw h hnew) hsorted
      exact ⟨hentries, .head hmove hmoves⟩
    · rw [if_neg hm] at hq hsorted
      rw [if_neg hm]
      exact ih hw (by rw [hq]; exact h) hsorted

theorem releaseOffset_records {offsets : Offsets} {w : Window ℤ} (hw : Inv w)
    (h : offsets.entries = records w) {o : ℤ} (ho : o ∈ w.live) :
    ∃ offsets', ProcessQueueImpl.releaseOffset offsets o = some offsets' ∧
      offsets'.entries = records { w with closed := w.closed ++ [o] } := by
  have hlive := live_close w o
  have hall : offsets.entries = w.live.map fun o => (⟨o, false⟩ : OffsetRecord) := by
    rw [h, records]
    cases hl : w.live with
    | nil => simp [hl] at ho
    | cons a l => rfl
  have herase : (offsets.erase o).entries =
      (w.live.filter fun b => b ≠ o).map fun o => ⟨o, false⟩ := by
    simp [OrderedSet.erase, hall, List.filter_map, Function.comp_def]
  by_cases hone : w.live = [o]
  · have hentries : offsets.entries = [⟨o, false⟩] := by rw [hall, hone]; rfl
    have hnil : (offsets.erase o).entries = [] := by simp [herase, hone]
    have hrec : records { w with closed := w.closed ++ [o] } = [⟨o, true⟩] := by
      rw [records, hlive, hone]
      simp
    refine ⟨(offsets.erase o).emplace ⟨o, true⟩, ?_, ?_⟩
    · simp [ProcessQueueImpl.releaseOffset, OrderedSet.size, OrderedSet.first?, hentries]
    · rw [OrderedSet.emplace_last (by simp [hnil]), hnil, hrec]
      rfl
  · have hsize : 1 < offsets.size := by
      rw [OrderedSet.size, hall, List.length_map]
      by_contra hle
      have hlen : w.live.length = 1 := by
        have hpos := List.length_pos_of_mem ho
        omega
      obtain ⟨a, ha⟩ := List.length_eq_one_iff.mp hlen
      rw [ha, List.mem_singleton] at ho
      exact hone (by rw [ha, ho])
    refine ⟨offsets.erase o, if_pos hsize, ?_⟩
    rw [herase, records, hlive]
    cases hrest : w.live.filter fun b => b ≠ o with
    | cons a l => rfl
    | nil =>
      -- nothing else would be open
      refine absurd (hw.live_eq_singleton ho ?_) hone
      intro b hb
      by_contra hne
      have hmem : b ∈ w.live.filter fun x => x ≠ o := List.mem_filter.mpr ⟨hb, by simpa using hne⟩
      rw [hrest] at hmem
      cases hmem

structure Tracks (s : State) : Prop where
  inv : Inv (window s)
  entries : s.queue.offsets.entries = records (window s)
  assertionFailed : s.assertionFailed = false

theorem tracks_init (filter : FilterExpression) : Tracks (machine filter).init :=
  ⟨Watermark.inv_init, rfl, rfl⟩

theorem step_moves {s t : State} {e : Event} (h : Tracks s) (hstep : step s e = some t) :
    Tracks t ∧ Relation.ReflTransGen Move (window s) (window t) := by
  cases e with
  | cacheMessages messages =>
    simp only [step] at hstep
    split_ifs at hstep with hsorted
    cases hstep
    obtain ⟨hentries, hmoves⟩ := cacheMessages_records h.inv h.entries hsorted
    exact ⟨⟨inv_of_moves hmoves h.inv, hentries, h.assertionFailed⟩, hmoves⟩
  | release bodySize offset =>
    simp only [step] at hstep
    split_ifs at hstep with hlive
    have ho : offset ∈ (window s).live := mem_live.mpr hlive
    have hmove : Move (window s) { window s with closed := s.released ++ [offset] } :=
      .close offset ho
    obtain ⟨offsets, hoffsets, hentries⟩ := releaseOffset_records h.inv h.entries ho
    rw [ProcessQueueImpl.release_eq, hoffsets] at hstep
    cases hstep
    exact ⟨⟨hmove.inv h.inv, hentries, h.assertionFailed⟩, .single hmove⟩

theorem runFrom_moves {filter : FilterExpression} {es : List Event} {s t : State} (h : Tracks s)
    (hrun : (machine filter).runFrom s es = some t) :
    Tracks t ∧ Relation.ReflTransGen Move (window s) (window t) := by
  refine (machine filter).runFrom_invariant
    (I := fun u => Tracks u ∧ Relation.ReflTransGen Move (window s) (window u))
    (A := fun _ => True) ?_ es (fun _ _ => trivial) ⟨h, .refl⟩ hrun
  intro u e v hu _ hv
  obtain ⟨htracks, hmoves⟩ := step_moves hu.1 hv
  exact ⟨htracks, hu.2.trans hmoves⟩

theorem Tracks.committedOffset_fits {s : State} (h : Tracks s) {c : ℤ}
    (hc : s.queue.committedOffset = some c)
    (hcached : ∀ o ∈ s.cached, -2 ^ 63 ≤ o ∧ o < 2 ^ 63 - 1) : -2 ^ 63 ≤ c ∧ c < 2 ^ 63 := by
  rw [committedOffset_eq_mark h.entries] at hc
  rcases h.inv.mark_opened hc with hmem | ⟨o, ho, rfl⟩
  · have hfits := hcached c hmem
    omega
  · have hfits := hcached o ho
    have hsucc : Order.succ o = o + 1 := rfl
    omega

/-- While a message is unreleased the committed offset is the smallest unreleased
one; it never moves back, and the assertion of `release` never fails. Nor does an
offset overflow. -/
theorem committedOffset_least_and_monotone (filter : FilterExpression) {es : List Event}
    {s : State} (hrun : (machine filter).run es = some s) :
    s.assertionFailed = false ∧
    (unreleased s ≠ [] → ∃ m ∈ unreleased s, s.queue.committedOffset = some m ∧
      ∀ o ∈ unreleased s, m ≤ o) ∧
    (∀ es' t, (machine filter).runFrom s es' = some t → ∀ a, s.queue.committedOffset = some a →
      ∃ b, t.queue.committedOffset = some b ∧ a ≤ b) ∧
    ((∀ o ∈ s.cached, -2 ^ 63 ≤ o ∧ o < 2 ^ 63 - 1) →
      ∀ c, s.queue.committedOffset = some c → -2 ^ 63 ≤ c ∧ c < 2 ^ 63) := by
  obtain ⟨htracks, -⟩ := runFrom_moves (tracks_init filter) hrun
  have hcommitted := committedOffset_eq_mark htracks.entries
  refine ⟨htracks.assertionFailed, ?_, ?_, fun hcached c hc =>
    htracks.committedOffset_fits hc hcached⟩
  · intro hne
    obtain ⟨o, ho⟩ := List.exists_mem_of_ne_nil _ hne
    rw [hcommitted]
    exact htracks.inv.mark_least ho
  · intro es' t hrun' a ha
    obtain ⟨htracks', hmoves⟩ := runFrom_moves htracks hrun'
    rw [committedOffset_eq_mark htracks'.entries]
    rw [hcommitted] at ha
    exact (mark_le_of_moves hmoves htracks.inv ha).2

def messageAt (offset : ℤ) : MQMessageExt :=
  { impl := { systemAttribute := { partitionOffset := offset } } }

def outOfOrder : List Event :=
  [.cacheMessages [messageAt 3, messageAt 4], .release 0 4, .cacheMessages [messageAt 7]]

theorem committedOffset_out_of_order :
    ∃ s t, (machine {}).run outOfOrder = some s ∧ unreleased s = [3, 7] ∧
      (machine {}).runFrom s [.release 0 3] = some t ∧ s.assertionFailed = false ∧
      ∃ b, t.queue.committedOffset = some b ∧ 3 ≤ b := by
  have hs : (machine {}).run outOfOrder = some (((machine {}).run outOfOrder).get rfl) := rfl
  have h := committedOffset_least_and_monotone {} hs
  exact ⟨_, _, hs, rfl, rfl, h.1, h.2.2.1 [.release 0 3] _ rfl 3 rfl⟩

def PastEverything (s : State) : Prop :=
  unreleased s = [] → ∀ m ∈ s.cached, (∀ o ∈ s.cached, o ≤ m) →
    s.queue.committedOffset = some (1 + m)

def ReleasesLargestLast (s : State) : Event → Prop
  | .cacheMessages _ => True
  | .release _ offset => unreleased s = [offset] → ∀ o ∈ s.cached, o ≤ offset

theorem Tracks.pastEverything_iff {s : State} (h : Tracks s) :
    PastEverything s ↔ PastAll (window s) := by
  have hsucc : ∀ m : ℤ, Order.succ m = 1 + m := fun m => Int.add_comm m 1
  simp only [PastEverything, PastAll, committedOffset_eq_mark h.entries, hsucc]
  exact Iff.rfl

theorem step_pastEverything_iff {s t : State} {e : Event} (h : Tracks s)
    (hs : PastEverything s) (hstep : step s e = some t) :
    PastEverything t ↔ ReleasesLargestLast s e := by
  obtain ⟨ht, -⟩ := step_moves h hstep
  rw [ht.pastEverything_iff]
  rw [h.pastEverything_iff] at hs
  cases e with
  | cacheMessages messages =>
    simp only [step] at hstep
    split_ifs at hstep with hsorted
    cases hstep
    refine iff_of_true ?_ trivial
    intro hlive
    cases hnew : acceptedOffsets s.queue messages with
    | nil =>
      simp only [window, hnew, List.append_nil] at hlive ⊢
      exact hs hlive
    | cons o l =>
      -- a new message is open
      rw [hnew] at hsorted
      have hclosed : o ∉ s.released := by
        intro hr
        have hlt := (List.pairwise_append.mp hsorted).2.2 o (h.inv.closed_opened o hr) o
        exact lt_irrefl o (hlt (by simp))
      have hmem : o ∈ Window.live { opened := s.cached ++ o :: l, closed := s.released } :=
        mem_live.mpr ⟨by simp, hclosed⟩
      rw [window, hnew] at hlive
      rw [hlive] at hmem
      cases hmem
  | release bodySize offset =>
    simp only [step] at hstep
    split_ifs at hstep with hcached
    have ho : offset ∈ (window s).live := mem_live.mpr hcached
    obtain ⟨offsets, hoffsets, -⟩ := releaseOffset_records h.inv h.entries ho
    rw [ProcessQueueImpl.release_eq, hoffsets] at hstep
    cases hstep
    exact pastAll_close_iff h.inv ho

theorem pastEverything_along_iff (filter : FilterExpression) (es : List Event) :
    (machine filter).Along PastEverything (machine filter).init es ↔
      (machine filter).Guarded ReleasesLargestLast (machine filter).init es := by
  refine (machine filter).along_iff_guarded (J := Tracks) (A := fun _ => True)
    (fun s e t h _ ht => (step_moves h ht).1)
    (fun s e t h hs _ ht => step_pastEverything_iff h hs ht) es (fun _ _ => trivial)
    (tracks_init filter) ?_
  intro _ m hm
  cases hm

theorem committed_short_of_largest :
    ∃ s, (machine {}).run
        [.cacheMessages [messageAt 3, messageAt 4], .release 0 4, .release 0 3] = some s ∧
      unreleased s = [] ∧ s.queue.committedOffset = some 4 ∧ ¬ PastEverything s := by
  refine ⟨_, rfl, rfl, rfl, ?_⟩
  intro h
  have hfive := h rfl 4 (by decide) (by decide)
  exact absurd hfive (by decide)

end RocketMQClient.OffsetCommit
