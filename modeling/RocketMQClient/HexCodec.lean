import RocketMQClient.Codec
import Mathlib.Tactic.IntervalCases

/-!
# Hexadecimal texts

`MixAll::hex` writes two upper-case digits for each byte, the high half first, and
`MixAll::hexToBinary` reads digits of either case. The reader appends to its output as it
goes, so a text that it rejects may leave some bytes behind.
-/

namespace RocketMQClient
namespace MixAll

def hexCharValue (c : Char) : Option UInt8 :=
  if '0' ≤ c ∧ c ≤ '9' then some (UInt8.ofNat (c.toNat - '0'.toNat))
  else if 'a' ≤ c ∧ c ≤ 'f' then some (UInt8.ofNat (c.toNat - 'a'.toNat + 10))
  else if 'A' ≤ c ∧ c ≤ 'F' then some (UInt8.ofNat (c.toNat - 'A'.toNat + 10))
  else none

def hexPairs : List Char → List UInt8 → Bool × List UInt8
  | c1 :: c2 :: rest, bin =>
    match hexCharValue c1 with
    | none => (false, bin)
    | some high =>
      match hexCharValue c2 with
      | none => (false, bin)
      | some low => hexPairs rest (bin ++ [high <<< 4 ||| low])
  | _, bin => (true, bin)

def hexToBinary (hex : String) (bin : List UInt8) : Bool × List UInt8 :=
  if hex.length % 2 ≠ 0 then (false, bin) else hexPairs hex.toList bin

def IsHexChar (c : Char) : Prop :=
  ('0' ≤ c ∧ c ≤ '9') ∨ ('a' ≤ c ∧ c ≤ 'f') ∨ ('A' ≤ c ∧ c ≤ 'F')

def hexPair (c : UInt8) : List Char :=
  [hexDigits.getD (c.toNat / 16) '0', hexDigits.getD (c.toNat % 16) '0']

theorem toList_hex (data : List UInt8) : (hex data).toList = data.flatMap hexPair := by
  rw [hex, String.toList_ofList]
  rfl

theorem hexCharValue_hexDigits {n : ℕ} (h : n < 16) :
    hexCharValue (hexDigits.getD n '0') = some (UInt8.ofNat n) := by
  interval_cases n <;> rfl

theorem IsHexChar.toNat_range {c : Char} (h : IsHexChar c) :
    (48 ≤ c.toNat ∧ c.toNat ≤ 57) ∨ (97 ≤ c.toNat ∧ c.toNat ≤ 102) ∨
      (65 ≤ c.toNat ∧ c.toNat ≤ 70) :=
  h

theorem IsHexChar.value {c : Char} (h : IsHexChar c) :
    ∃ v, hexCharValue c = some v ∧ v.toNat < 16 ∧ hexDigits.getD v.toNat '0' = c.toUpper := by
  have hrange := h.toNat_range
  rw [← Char.ofNat_toNat c]
  generalize c.toNat = n at hrange
  rcases hrange with ⟨hlow, hhigh⟩ | ⟨hlow, hhigh⟩ | ⟨hlow, hhigh⟩
  · interval_cases n <;> exact ⟨_, rfl, by decide, rfl⟩
  · interval_cases n <;> exact ⟨_, rfl, by decide, rfl⟩
  · interval_cases n <;> exact ⟨_, rfl, by decide, rfl⟩

theorem isHexChar_of_hexCharValue {c : Char} {v : UInt8} (h : hexCharValue c = some v) :
    IsHexChar c := by
  rw [hexCharValue] at h
  split_ifs at h with hdigit hlower hupper
  · exact Or.inl hdigit
  · exact Or.inr (Or.inl hlower)
  · exact Or.inr (Or.inr hupper)

theorem toNat_join {high low : UInt8} (hhigh : high.toNat < 16) (hlow : low.toNat < 16) :
    (high <<< 4 ||| low).toNat = 16 * high.toNat + low.toNat := by
  have hshift : high.toNat <<< 4 = 16 * high.toNat := by
    rw [Nat.shiftLeft_eq]
    omega
  have hfour : (4 : UInt8).toNat % 8 = 4 := rfl
  rw [UInt8.toNat_or, UInt8.toNat_shiftLeft, hfour, Nat.mod_eq_of_lt (by omega),
    ← Nat.shiftLeft_add_eq_or_of_lt hlow, hshift]

theorem join_halves (c : UInt8) :
    UInt8.ofNat (c.toNat / 16) <<< 4 ||| UInt8.ofNat (c.toNat % 16) = c := by
  have hmax : c.toNat < 256 := c.toNat_lt
  have hhigh : (UInt8.ofNat (c.toNat / 16)).toNat = c.toNat / 16 :=
    UInt8.toNat_ofNat_of_lt' (by simp only [UInt8.size]; omega)
  have hlow : (UInt8.ofNat (c.toNat % 16)).toNat = c.toNat % 16 :=
    UInt8.toNat_ofNat_of_lt' (by simp only [UInt8.size]; omega)
  rw [← UInt8.toNat_inj, toNat_join (by omega) (by omega)]
  omega

theorem hexPair_join {high low : UInt8} (hhigh : high.toNat < 16) (hlow : low.toNat < 16) :
    hexPair (high <<< 4 ||| low) =
      [hexDigits.getD high.toNat '0', hexDigits.getD low.toNat '0'] := by
  have hjoin := toNat_join hhigh hlow
  have hdiv : (high <<< 4 ||| low).toNat / 16 = high.toNat := by omega
  have hmod : (high <<< 4 ||| low).toNat % 16 = low.toNat := by omega
  rw [hexPair, hdiv, hmod]

theorem hexPairs_flatMap (data bin : List UInt8) :
    hexPairs (data.flatMap hexPair) bin = (true, bin ++ data) := by
  induction data generalizing bin with
  | nil => simp [hexPairs]
  | cons c data ih =>
    have hmax : c.toNat < 256 := c.toNat_lt
    simp only [List.flatMap_cons, hexPair, List.cons_append, List.nil_append, hexPairs,
      hexCharValue_hexDigits (show c.toNat / 16 < 16 by omega),
      hexCharValue_hexDigits (show c.toNat % 16 < 16 by omega), join_halves]
    rw [ih, List.append_assoc]
    rfl

theorem length_flatMap_hexPair (data : List UInt8) :
    (data.flatMap hexPair).length = 2 * data.length := by
  induction data with
  | nil => rfl
  | cons c data ih =>
    simp only [List.flatMap_cons, List.length_append, List.length_cons, ih, hexPair,
      List.length_nil]
    omega

theorem eq_nil_of_even {l : List Char} (heven : l.length % 2 = 0)
    (hshort : ∀ c1 c2 rest, l = c1 :: c2 :: rest → False) : l = [] := by
  match l, heven, hshort with
  | [], _, _ => rfl
  | [c], heven, _ => simp at heven
  | c1 :: c2 :: rest, _, hshort => exact absurd rfl (hshort c1 c2 rest)

theorem hexPairs_of_forall {l : List Char} (heven : l.length % 2 = 0)
    (hall : ∀ c ∈ l, IsHexChar c) (bin : List UInt8) :
    ∃ data, hexPairs l bin = (true, bin ++ data) ∧ data.flatMap hexPair = l.map Char.toUpper := by
  induction l, bin using hexPairs.induct with
  | case1 c1 c2 rest bin h1 =>
    obtain ⟨v, hv, -, -⟩ := (hall c1 (by simp)).value
    rw [hv] at h1
    cases h1
  | case2 c1 c2 rest bin high h1 h2 =>
    obtain ⟨v, hv, -, -⟩ := (hall c2 (by simp)).value
    rw [hv] at h2
    cases h2
  | case3 c1 c2 rest bin high h1 low h2 ih =>
    obtain ⟨v, hv, hhigh, hupper1⟩ := (hall c1 (by simp)).value
    obtain ⟨w, hw, hlow, hupper2⟩ := (hall c2 (by simp)).value
    rw [h1, Option.some.injEq] at hv
    rw [h2, Option.some.injEq] at hw
    subst hv hw
    have hrest : rest.length % 2 = 0 := by
      simp only [List.length_cons] at heven
      omega
    obtain ⟨data, hdata, htext⟩ := ih hrest fun c hc => hall c (by simp [hc])
    refine ⟨(high <<< 4 ||| low) :: data, ?_, ?_⟩
    · simp only [hexPairs, h1, h2, hdata, List.append_assoc, List.singleton_append]
    · simp only [List.flatMap_cons, hexPair_join hhigh hlow, htext, hupper1, hupper2,
        List.map_cons, List.cons_append, List.nil_append]
  | case4 l bin hshort =>
    rw [eq_nil_of_even heven hshort]
    exact ⟨[], by simp [hexPairs], rfl⟩

theorem forall_of_hexPairs {l : List Char} {bin : List UInt8} (heven : l.length % 2 = 0)
    (h : (hexPairs l bin).1 = true) : ∀ c ∈ l, IsHexChar c := by
  induction l, bin using hexPairs.induct with
  | case1 c1 c2 rest bin h1 => simp [hexPairs, h1] at h
  | case2 c1 c2 rest bin high h1 h2 => simp [hexPairs, h1, h2] at h
  | case3 c1 c2 rest bin high h1 low h2 ih =>
    simp only [hexPairs, h1, h2] at h
    have hrest : rest.length % 2 = 0 := by
      simp only [List.length_cons] at heven
      omega
    simp only [List.forall_mem_cons]
    exact ⟨isHexChar_of_hexCharValue h1, isHexChar_of_hexCharValue h2, ih hrest h⟩
  | case4 l bin hshort =>
    rw [eq_nil_of_even heven hshort]
    simp

theorem hexToBinary_accepts_iff (s : String) :
    (hexToBinary s []).1 = true ↔ s.length % 2 = 0 ∧ ∀ c ∈ s.toList, IsHexChar c := by
  rw [hexToBinary]
  split_ifs with hodd
  · simp [hodd]
  · have heven : s.toList.length % 2 = 0 := not_not.mp hodd
    constructor
    · intro h
      exact ⟨heven, forall_of_hexPairs heven h⟩
    · rintro ⟨-, hall⟩
      obtain ⟨data, hdata, -⟩ := hexPairs_of_forall heven hall []
      rw [hdata]

theorem hexToBinary_exact (b : List UInt8) (s : String) :
    hexToBinary (hex b) [] = (true, b) ∧
      ((hexToBinary s []).1 = true ↔ s.length % 2 = 0 ∧ ∀ c ∈ s.toList, IsHexChar c) ∧
      ((hexToBinary s []).1 = true → hex (hexToBinary s []).2 = s.toUpper) := by
  refine ⟨?_, hexToBinary_accepts_iff s, ?_⟩
  · have heven : ¬ (hex b).length % 2 ≠ 0 := by
      rw [← String.length_toList, toList_hex, length_flatMap_hexPair]
      omega
    rw [hexToBinary, if_neg heven, toList_hex, hexPairs_flatMap]
    rfl
  · intro h
    obtain ⟨heven, hall⟩ := (hexToBinary_accepts_iff s).mp h
    obtain ⟨data, hdata, htext⟩ := hexPairs_of_forall (l := s.toList) heven hall []
    rw [hexToBinary, if_neg (not_not.mpr heven), hdata, List.nil_append, ← String.toList_inj,
      toList_hex, htext, String.toUpper, String.toList_map]

end MixAll
end RocketMQClient
