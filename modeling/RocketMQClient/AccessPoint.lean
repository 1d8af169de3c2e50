import RocketMQClient.AssignmentScan
import RocketMQClient.Library.Pattern
import RocketMQClient.Library.Text

/-!
# The name servers as the access point of a request

`setAccessPoint` cuts each name server at its last colon, reads the port with `stoi` and
keeps it in 16 bits. A name server without a colon is passed over; one whose port is no
number makes `stoi` throw, and a port that is too large, signed or followed by other
characters is taken for another one. `hostPort` says which addresses are meant.
-/

namespace RocketMQClient.AccessPoint
open Text

def collectPairs : List (List Char) → Except ConversionError (List (List Char × ℤ))
  | [] => .ok []
  | nameServerItem :: items =>
    match splitLast ':' nameServerItem with
    | none => collectPairs items
    | some (host, port) =>
      match stoi port with
      | .error e => .error e
      | .ok number => (collectPairs items).map fun pairs => (host, number % 65536) :: pairs

def ipRegex : List (Pattern.Piece Char) :=
  let number : Pattern.Piece Char := { accepts := Char.isDigit }
  let dot : Pattern.Piece Char := { accepts := (· == '.'), most := some 1 }
  [number, dot, number, dot, number, dot, number]

def isIPv4 (host : List Char) : Bool := Pattern.fullMatch ipRegex host

def addressScheme (host : List Char) : rmq.AddressScheme :=
  if isIPv4 host then .ipv4 else if ':' ∈ host then .ipv6 else .domainName

def addressOf (hostPort : List Char × ℤ) : rmq.Address :=
  { host := String.ofList hostPort.1, port := hostPort.2 }

def addPairs (endpoints : rmq.Endpoints) : List (List Char × ℤ) → rmq.Endpoints
  | [] => endpoints
  | first :: pairs =>
    { addresses := endpoints.addresses ++ (first :: pairs).map addressOf
      scheme := addressScheme first.1 }

def setAccessPoint (nameServerList : List (List Char)) (endpoints : rmq.Endpoints) :
    Except ConversionError rmq.Endpoints :=
  (collectPairs nameServerList).map (addPairs endpoints)

theorem addPairs_addresses (endpoints : rmq.Endpoints) (pairs : List (List Char × ℤ)) :
    (addPairs endpoints pairs).addresses = endpoints.addresses ++ pairs.map addressOf := by
  cases pairs with
  | nil => simp [addPairs]
  | cons first pairs => rfl

def IsPort (port : List Char) : Prop := Digits port ∧ value port ≤ 65535

instance (port : List Char) : Decidable (IsPort port) := inferInstanceAs (Decidable (_ ∧ _))

def hostPort (nameServerItem : List Char) : Option (List Char × ℤ) :=
  match splitLast ':' nameServerItem with
  | none => none
  | some (host, port) => if IsPort port then some (host, (value port : ℤ)) else none

def WellFormed (nameServerItem : List Char) : Prop :=
  ∀ r, splitLast ':' nameServerItem = some r → IsPort r.2

theorem wellFormed_iff {item : List Char} :
    WellFormed item ↔ ':' ∉ item ∨ (hostPort item).isSome := by
  rw [WellFormed, hostPort]
  cases hsplit : splitLast ':' item with
  | none => simp [splitLast_eq_none_iff.mp hsplit]
  | some r =>
    have hmem : ':' ∈ item := by
      rw [(splitLast_eq_some_iff.mp hsplit).1]
      simp
    by_cases hport : IsPort r.2 <;> simp [hmem, hport]

section Pairs
variable {items : List (List Char)}

theorem collectPairs_of_wellFormed (h : ∀ item ∈ items, WellFormed item) :
    collectPairs items = .ok (items.filterMap hostPort) := by
  induction items with
  | nil => rfl
  | cons item items ih =>
    have hrest := ih fun i hi => h i (by simp [hi])
    have hitem : WellFormed item := h item (by simp)
    rw [collectPairs, List.filterMap_cons, hostPort]
    cases hsplit : splitLast ':' item with
    | none => exact hrest
    | some r =>
      have hport : IsPort r.2 := hitem r hsplit
      have hle := hport.2
      have hstoi : stoi r.2 = .ok (value r.2 : ℤ) := stoi_of_digits hport.1 (by omega)
      have hmod : (value r.2 : ℤ) % 65536 = value r.2 := by omega
      simp only [hstoi, hrest, if_pos hport, Except.map, hmod]

theorem collectPairs_length {pairs : List (List Char × ℤ)} (h : collectPairs items = .ok pairs) :
    pairs.length = items.countP fun item => (splitLast ':' item).isSome := by
  induction items generalizing pairs with
  | nil =>
    cases h
    rfl
  | cons item items ih =>
    rw [collectPairs] at h
    rw [List.countP_cons]
    cases hsplit : splitLast ':' item with
    | none =>
      rw [hsplit] at h
      simpa using ih h
    | some r =>
      simp only [hsplit] at h
      cases hstoi : stoi r.2 with
      | error e => simp [hstoi] at h
      | ok number =>
        cases hrest : collectPairs items with
        | error e => simp [hstoi, hrest, Except.map] at h
        | ok rest =>
          simp only [hstoi, hrest, Except.map, Except.ok.injEq] at h
          subst h
          simp [ih hrest]

def Convertible (nameServerItem : List Char) : Prop :=
  ∀ r, splitLast ':' nameServerItem = some r → ∃ number, stoi r.2 = .ok number

end Pairs

theorem splitLast_isSome_of_hostPort {item : List Char} (h : (hostPort item).isSome = true) :
    (splitLast ':' item).isSome = true := by
  rw [hostPort] at h
  cases hsplit : splitLast ':' item with
  | none => simp [hsplit] at h
  | some r => rfl

def ExactAccessPoint (nameServerList : List (List Char)) (endpoints : rmq.Endpoints) : Prop :=
  ∃ r, setAccessPoint nameServerList endpoints = .ok r ∧
    r.addresses = endpoints.addresses ++ (nameServerList.filterMap hostPort).map addressOf

/-- The access point is exact if every name server with a colon ends in a port; any other
one throws or adds an address that nobody wrote. -/
theorem exactAccessPoint_iff (nameServerList : List (List Char)) (endpoints : rmq.Endpoints) :
    ExactAccessPoint nameServerList endpoints ↔ ∀ item ∈ nameServerList, WellFormed item := by
  constructor
  · rintro ⟨r, hset, haddresses⟩
    rw [setAccessPoint] at hset
    cases hpairs : collectPairs nameServerList with
    | error e => simp [hpairs, Except.map] at hset
    | ok pairs =>
      simp only [hpairs, Except.map, Except.ok.injEq] at hset
      subst hset
      rw [addPairs_addresses, List.append_cancel_left_eq] at haddresses
      have hlength : nameServerList.countP (fun item => (hostPort item).isSome) =
          nameServerList.countP fun item => (splitLast ':' item).isSome := by
        have hlen := congrArg List.length haddresses
        rw [List.length_map, List.length_map, List.length_filterMap_eq_countP,
          collectPairs_length hpairs] at hlen
        exact hlen.symm
      have hsub : (nameServerList.filter fun item => (hostPort item).isSome).Sublist
          (nameServerList.filter fun item => (splitLast ':' item).isSome) :=
        List.monotone_filter_right _ fun item h => splitLast_isSome_of_hostPort h
      have hsame := hsub.eq_of_length
        (by rw [← List.countP_eq_length_filter, ← List.countP_eq_length_filter, hlength])
      intro item hitem r hr
      have hcolon : item ∈ nameServerList.filter fun item => (splitLast ':' item).isSome :=
        List.mem_filter.mpr ⟨hitem, by rw [hr]; rfl⟩
      rw [← hsame] at hcolon
      exact wellFormed_iff.mpr (Or.inr (List.mem_filter.mp hcolon).2) r hr
  · intro h
    refine ⟨addPairs endpoints (nameServerList.filterMap hostPort), ?_, ?_⟩
    · rw [setAccessPoint, collectPairs_of_wellFormed h]
      rfl
    · exact addPairs_addresses _ _

theorem inexact_access_points :
    setAccessPoint [['a', ':', 'x']] {} = .error .invalidArgument ∧
    setAccessPoint [['a', ':', '6', '5', '6', '1', '6']] {} =
      .ok { addresses := [{ host := "a", port := 80 }], scheme := .domainName } ∧
    setAccessPoint [['a', ':', '8', '0', 'x']] {} =
      .ok { addresses := [{ host := "a", port := 80 }], scheme := .domainName } ∧
    ¬ ExactAccessPoint [['a', ':', 'x']] {} ∧
    ¬ ExactAccessPoint [['a', ':', '6', '5', '6', '1', '6']] {} := by
  refine ⟨rfl, rfl, rfl, ?_, ?_⟩
  · rintro ⟨r, hset, -⟩
    cases hset
  · rintro ⟨r, hset, haddresses⟩
    cases hset
    exact absurd haddresses (by decide)

end RocketMQClient.AccessPoint
