import RocketMQClient.Codec
import RocketMQClient.Library.EventMachine
import RocketMQClient.Library.Pending
import Mathlib.Order.Basic

/-!
# Unique identities

`UniqueIdGenerator::next` draws a slot, the second and a number within it, under
a lock, and renders it afterwards, so calls return in any order. The clock is
read under the lock. `calls` lists the slots in the order in which they are drawn.

The identity is the version, the eight bytes fixed at construction and the slot as
it lies in memory, in hexadecimal. Times are nanoseconds.
-/

namespace RocketMQClient

namespace MixAll

theorem hexDigits_getD_injective {m n : ℕ} (hm : m < 16) (hn : n < 16)
    (h : hexDigits.getD m '0' = hexDigits.getD n '0') : m = n := by
  have hall : ∀ i < 16, ∀ j < 16, hexDigits.getD i '0' = hexDigits.getD j '0' → i = j := by
    decide
  exact hall m hm n hn h

theorem hex_injective : Function.Injective hex := by
  intro as bs h
  have hlists := String.ofList_injective h
  clear h
  induction as generalizing bs with
  | nil =>
    cases bs with
    | nil => rfl
    | cons b bs => simp at hlists
  | cons a as ih =>
    cases bs with
    | nil => simp at hlists
    | cons b bs =>
      simp only [List.flatMap_cons, List.cons_append, List.nil_append, List.cons.injEq] at hlists
      obtain ⟨hhigh, hlow, hrest⟩ := hlists
      have ha := a.toNat_lt
      have hb := b.toNat_lt
      have hhigh := hexDigits_getD_injective (by omega) (by omega) hhigh
      have hlow := hexDigits_getD_injective (by omega) (by omega) hlow
      have hbyte : a = b := UInt8.toNat_inj.mp (by omega)
      rw [hbyte, ih hrest]

theorem networkByteOrder_injective : Function.Injective networkByteOrder := by
  intro m n h
  simp only [networkByteOrder, List.cons.injEq, and_true] at h
  obtain ⟨h3, h2, h1, h0⟩ := h
  have h3 := congrArg UInt8.toNat h3
  have h2 := congrArg UInt8.toNat h2
  have h1 := congrArg UInt8.toNat h1
  have h0 := congrArg UInt8.toNat h0
  simp only [UInt32.toNat_toUInt8, UInt32.toNat_shiftRight, Nat.shiftRight_eq_div_pow,
    UInt32.reduceToNat, Nat.reduceMod, Nat.reducePow] at h3 h2 h1 h0
  have hm := m.toNat_lt
  have hn := n.toNat_lt
  exact UInt32.toNat_inj.mp (by omega)

end MixAll

namespace UniqueId
open EventMachine Pending

structure Slot where
  seconds : UInt32
  sequence : UInt32
  deriving DecidableEq, Repr

inductive ByteOrder
  | little
  | big
  deriving DecidableEq, Repr

def hostBytes : ByteOrder → UInt32 → List UInt8
  | .big, n => MixAll.networkByteOrder n
  | .little, n => (MixAll.networkByteOrder n).reverse

/-- What the constructor finds. `macAddress` is empty if there is none, and
`constructed` is the reading of the steady clock from which `seconds_` is computed. -/
structure Host where
  byteOrder : ByteOrder := .little
  macAddress : List UInt8 := []
  pid : UInt32 := 0
  sinceCustomEpoch : ℤ := 0
  startTimePoint : ℤ := 0
  constructed : ℤ := 0

def version : UInt8 := 1

def Host.prefixBytes (host : Host) : List UInt8 :=
  (host.macAddress ++ List.replicate 6 0).take 6 ++ (MixAll.networkByteOrder host.pid).drop 2

def Host.elapsedSeconds (host : Host) (now : ℤ) : ℤ :=
  (now - host.startTimePoint + host.sinceCustomEpoch).tdiv (10 ^ 9)

def Host.deltaSeconds (host : Host) (now : ℤ) : UInt32 := UInt32.ofInt (host.elapsedSeconds now)

def Host.render (host : Host) (slot : Slot) : String :=
  MixAll.hex (version :: (host.prefixBytes ++
    (hostBytes host.byteOrder slot.seconds ++ hostBytes host.byteOrder slot.sequence)))

structure State where
  seconds : UInt32
  sequence : UInt32 := 0
  pending : List Slot := []
  returned : List String := []
  calls : List Slot := []

inductive Event
  | draw (now : ℤ)
  | finish (i : ℕ)

def nextSlot (host : Host) (slot : Slot) (now : ℤ) : Slot :=
  let delta := host.deltaSeconds now
  if slot.seconds ≠ delta then { seconds := delta, sequence := 0 }
  else { slot with sequence := slot.sequence + 1 }

def step (host : Host) (s : State) : Event → Option State
  | .draw now =>
    let slot := nextSlot host { seconds := s.seconds, sequence := s.sequence } now
    some { s with
      seconds := slot.seconds
      sequence := slot.sequence
      pending := s.pending ++ [slot]
      calls := s.calls ++ [slot] }
  | .finish i => (pick s.pending i).map fun r =>
    { s with pending := r.2, returned := s.returned ++ [host.render r.1] }

def machine (host : Host) : Machine State Event where
  init := { seconds := host.deltaSeconds host.constructed }
  step := step host

theorem hostBytes_injective (order : ByteOrder) : Function.Injective (hostBytes order) := by
  intro m n h
  cases order with
  | big => exact MixAll.networkByteOrder_injective h
  | little => exact MixAll.networkByteOrder_injective (List.reverse_injective h)

theorem length_hostBytes (order : ByteOrder) (n : UInt32) : (hostBytes order n).length = 4 := by
  cases order <;> rfl

theorem Host.render_injective (host : Host) : Function.Injective host.render := by
  rintro ⟨seconds, sequence⟩ ⟨seconds', sequence'⟩ h
  have hbytes := List.append_cancel_left (List.cons.inj (MixAll.hex_injective h)).2
  obtain ⟨hseconds, hsequence⟩ := List.append_inj hbytes (by simp [length_hostBytes])
  have hseconds : seconds = seconds' := hostBytes_injective _ hseconds
  have hsequence : sequence = sequence' := hostBytes_injective _ hsequence
  rw [hseconds, hsequence]

def draws (host : Host) : Slot → List ℤ → List Slot
  | _, [] => []
  | slot, now :: nows => nextSlot host slot now :: draws host (nextSlot host slot now) nows

def readings (es : List Event) : List ℤ :=
  es.filterMap fun
    | .draw now => some now
    | .finish _ => none

def Accounted (host : Host) (s : State) : Prop :=
  ∃ done : List Slot, s.returned = done.map host.render ∧ (done ++ s.pending).Perm s.calls

theorem step_accounted {host : Host} {s t : State} {e : Event} (h : Accounted host s)
    (hstep : step host s e = some t) : Accounted host t := by
  obtain ⟨done, hreturned, hperm⟩ := h
  cases e with
  | draw now =>
    cases hstep
    refine ⟨done, hreturned, ?_⟩
    rw [← List.append_assoc]
    exact hperm.append_right _
  | finish i =>
    obtain ⟨⟨slot, rest⟩, hpick, rfl⟩ := Option.map_eq_some_iff.mp hstep
    refine ⟨done ++ [slot], by simp [hreturned], ?_⟩
    rw [List.append_assoc]
    exact ((pick_perm hpick).symm.append_left done).trans hperm

theorem runFrom_calls {host : Host} (es : List Event) {s t : State}
    (hrun : (machine host).runFrom s es = some t) :
    t.calls = s.calls ++
      draws host { seconds := s.seconds, sequence := s.sequence } (readings es) := by
  induction es generalizing s with
  | nil =>
    cases hrun
    simp [readings, draws]
  | cons e es ih =>
    obtain ⟨u, hu, hrest⟩ := Option.bind_eq_some_iff.mp hrun
    rw [ih hrest]
    cases e with
    | draw now =>
      cases hu
      simp [readings, draws]
    | finish i =>
      obtain ⟨r, -, rfl⟩ := Option.map_eq_some_iff.mp hu
      simp [readings]

def Slot.before (a b : Slot) : Prop :=
  a.seconds.toNat < b.seconds.toNat ∨
    a.seconds.toNat = b.seconds.toNat ∧ a.sequence.toNat < b.sequence.toNat

structure Paced (host : Host) (slot : Slot) (start : ℤ) (nows : List ℤ) : Prop where
  second : slot.seconds.toNat = host.elapsedSeconds start
  ordered : (start :: nows).Pairwise (· ≤ ·)
  fits : ∀ now ∈ nows, 0 ≤ host.elapsedSeconds now ∧ host.elapsedSeconds now < 2 ^ 32
  few : ∀ v, (nows.filter fun now => host.elapsedSeconds now = v).length +
    (if host.elapsedSeconds start = v then slot.sequence.toNat else 0) < 2 ^ 32

theorem Host.elapsedSeconds_mono (host : Host) {a b : ℤ} (h : a ≤ b) :
    host.elapsedSeconds a ≤ host.elapsedSeconds b :=
  Int.tdiv_le_tdiv (by decide) (by omega)

theorem Host.toNat_deltaSeconds (host : Host) {now : ℤ} (h : 0 ≤ host.elapsedSeconds now)
    (hfits : host.elapsedSeconds now < 2 ^ 32) :
    ((host.deltaSeconds now).toNat : ℤ) = host.elapsedSeconds now := by
  rw [Host.deltaSeconds, UInt32.ofInt, UInt32.toNat_ofNat']
  omega

theorem Paced.fits_tail {host : Host} {slot : Slot} {start now : ℤ} {nows : List ℤ}
    (h : Paced host slot start (now :: nows)) :
    ∀ now ∈ nows, 0 ≤ host.elapsedSeconds now ∧ host.elapsedSeconds now < 2 ^ 32 :=
  fun now' hmem => h.fits now' (by simp [hmem])

theorem Paced.next_same {host : Host} {slot : Slot} {start now : ℤ} {nows : List ℤ}
    (h : Paced host slot start (now :: nows)) (hsame : slot.seconds = host.deltaSeconds now) :
    Paced host (nextSlot host slot now) now nows ∧ slot.before (nextSlot host slot now) := by
  obtain ⟨hnow, hnowFits⟩ := h.fits now (by simp)
  have helapsed : host.elapsedSeconds now = host.elapsedSeconds start := by
    rw [← host.toNat_deltaSeconds hnow hnowFits, ← hsame, h.second]
  have hslot : nextSlot host slot now = { slot with sequence := slot.sequence + 1 } :=
    if_neg (not_not.mpr hsame)
  have hroom := h.few (host.elapsedSeconds start)
  simp only [List.filter_cons, helapsed, decide_true, ↓reduceIte, List.length_cons] at hroom
  have hsucc : (slot.sequence + 1).toNat = slot.sequence.toNat + 1 := by
    rw [UInt32.toNat_add, UInt32.toNat_one, Nat.mod_eq_of_lt (by omega)]
  rw [hslot]
  refine ⟨⟨?_, h.ordered.of_cons, h.fits_tail, fun v => ?_⟩, Or.inr ⟨rfl, ?_⟩⟩
  · rw [helapsed]
    exact h.second
  · have hv := h.few v
    rw [helapsed, hsucc]
    by_cases hstart : host.elapsedSeconds start = v
    · simp only [List.filter_cons, helapsed, hstart, decide_true, ↓reduceIte,
        List.length_cons] at hv ⊢
      omega
    · simpa [List.filter_cons, helapsed, hstart] using hv
  · rw [hsucc]
    omega

theorem Paced.next_later {host : Host} {slot : Slot} {start now : ℤ} {nows : List ℤ}
    (h : Paced host slot start (now :: nows)) (hlater : slot.seconds ≠ host.deltaSeconds now) :
    Paced host (nextSlot host slot now) now nows ∧ slot.before (nextSlot host slot now) := by
  obtain ⟨hnow, hnowFits⟩ := h.fits now (by simp)
  have hdelta := host.toNat_deltaSeconds hnow hnowFits
  have hle : start ≤ now := List.rel_of_pairwise_cons h.ordered (by simp)
  have hmono := host.elapsedSeconds_mono hle
  have hslot : nextSlot host slot now = { seconds := host.deltaSeconds now, sequence := 0 } :=
    if_pos hlater
  have hlt : slot.seconds.toNat < (host.deltaSeconds now).toNat := by
    have hne : slot.seconds.toNat ≠ (host.deltaSeconds now).toNat := fun heq =>
      hlater (UInt32.toNat_inj.mp heq)
    have hsecond := h.second
    omega
  rw [hslot]
  refine ⟨⟨hdelta, h.ordered.of_cons, h.fits_tail, fun v => ?_⟩, Or.inl hlt⟩
  have hv := h.few v
  have hfewer : (nows.filter fun now => host.elapsedSeconds now = v).length ≤
      ((now :: nows).filter fun now => host.elapsedSeconds now = v).length :=
    ((List.sublist_cons_self now nows).filter _).length_le
  simp only [UInt32.toNat_zero, ite_self, Nat.add_zero]
  omega

theorem Paced.next {host : Host} {slot : Slot} {start now : ℤ} {nows : List ℤ}
    (h : Paced host slot start (now :: nows)) :
    Paced host (nextSlot host slot now) now nows ∧ slot.before (nextSlot host slot now) := by
  by_cases hsame : slot.seconds = host.deltaSeconds now
  · exact h.next_same hsame
  · exact h.next_later hsame

theorem Slot.before_trans {a b c : Slot} (hab : a.before b) (hbc : b.before c) : a.before c := by
  unfold Slot.before at *
  omega

theorem draws_before {host : Host} (nows : List ℤ) {slot : Slot} {start : ℤ}
    (h : Paced host slot start nows) :
    (slot :: draws host slot nows).Pairwise Slot.before := by
  induction nows generalizing slot start with
  | nil => exact List.pairwise_singleton _ _
  | cons now nows ih =>
    obtain ⟨hpaced, hbefore⟩ := h.next
    have hrest := ih hpaced
    refine List.pairwise_cons.mpr ⟨fun x hx => ?_, hrest⟩
    rcases List.mem_cons.mp hx with rfl | hx
    · exact hbefore
    · exact Slot.before_trans hbefore (List.rel_of_pairwise_cons hrest hx)

theorem draws_nodup {host : Host} {nows : List ℤ} {slot : Slot} {start : ℤ}
    (h : Paced host slot start nows) : (draws host slot nows).Nodup := by
  apply (draws_before nows h).of_cons.imp
  intro a b hab heq
  rw [heq, Slot.before] at hab
  omega

/-- The steady clock does not go back, its seconds fit in 32 bits, and no second sees `2 ^ 32`
calls. -/
structure Steady (host : Host) (es : List Event) : Prop where
  ordered : (host.constructed :: readings es).Pairwise (· ≤ ·)
  fits : ∀ now ∈ host.constructed :: readings es,
    0 ≤ host.elapsedSeconds now ∧ host.elapsedSeconds now < 2 ^ 32
  few : ∀ v, ((readings es).filter fun now => host.elapsedSeconds now = v).length < 2 ^ 32

theorem Steady.paced {host : Host} {es : List Event} (h : Steady host es) :
    Paced host { seconds := host.deltaSeconds host.constructed, sequence := 0 }
      host.constructed (readings es) := by
  obtain ⟨hnonneg, hlt⟩ := h.fits host.constructed (by simp)
  refine ⟨host.toNat_deltaSeconds hnonneg hlt, h.ordered,
    fun now hmem => h.fits now (by simp [hmem]), fun v => ?_⟩
  simpa using h.few v

theorem calls_nodup {host : Host} {es : List Event} {s : State} (h : Steady host es)
    (hrun : (machine host).run es = some s) : s.calls.Nodup := by
  rw [runFrom_calls es hrun]
  simpa [machine] using draws_nodup h.paced

theorem returned_nodup {host : Host} {es : List Event} {s : State}
    (hrun : (machine host).run es = some s) (hcalls : s.calls.Nodup) : s.returned.Nodup := by
  obtain ⟨done, hreturned, hperm⟩ : Accounted host s :=
    (machine host).run_invariant (I := Accounted host) ⟨[], rfl, List.Perm.refl _⟩
      (fun _ _ _ h hstep => step_accounted h hstep) hrun
  have hdone : done.Nodup := (hperm.nodup_iff.mpr hcalls).of_append_left
  rw [hreturned]
  exact hdone.map host.render_injective

theorem identities_distinct (host : Host) {es : List Event} {s : State}
    (hclock : (host.constructed :: readings es).Pairwise (· ≤ ·))
    (hfits : ∀ now ∈ host.constructed :: readings es,
      0 ≤ host.elapsedSeconds now ∧ host.elapsedSeconds now < 2 ^ 32)
    (hfew : ∀ v, ((readings es).filter fun now => host.elapsedSeconds now = v).length < 2 ^ 32)
    (hrun : (machine host).run es = some s) : s.returned.Nodup :=
  returned_nodup hrun (calls_nodup ⟨hclock, hfits, hfew⟩ hrun)

def threeCalls : List Event :=
  [.draw 0, .draw 5, .finish 1, .draw (10 ^ 9), .finish 0, .finish 0]

theorem three_identities_distinct :
    ∃ s, (machine {}).run threeCalls = some s ∧ s.calls = [⟨0, 1⟩, ⟨0, 2⟩, ⟨1, 0⟩] ∧
      s.returned.length = 3 ∧ s.returned.Nodup := by
  have hrun : (machine {}).run threeCalls = some _ := rfl
  refine ⟨_, hrun, by decide, by decide, identities_distinct {} ?_ ?_ (fun v => ?_) hrun⟩
  · decide
  · decide
  · exact (List.length_filter_le _ _).trans_lt (by decide)

end UniqueId
end RocketMQClient
