import RocketMQClient.AssignmentScan
import RocketMQClient.Library.Joined

/-!
# The address of a broker, from a route and from an assignment

A route builds a `ServiceAddress`, which sorts the addresses of the broker and
joins all of them. An assignment joins the addresses in the order of the answer,
and takes the first only if they are domain names. Both texts begin with the
scheme and are the key under which the RPC client of the broker is kept.
-/

namespace RocketMQClient

namespace rmq.Address

def less (a b : rmq.Address) : Bool :=
  if a.host < b.host then true
  else if b.host < a.host then false
  else if a.port < b.port then true
  else if b.port < a.port then false
  else false

def sortKey (a : rmq.Address) : String ×ₗ ℤ := toLex (a.host, a.port)

theorem less_iff (a b : rmq.Address) : a.less b = true ↔ a.sortKey < b.sortKey := by
  simp only [sortKey, Prod.Lex.toLex_lt_toLex, less]
  rcases lt_trichotomy a.host b.host with hh | hh | hh
  · simp [hh]
  · simp [hh]
  · simp [hh, hh.not_gt, hh.ne']

theorem sortKey_injective : Function.Injective sortKey := by
  rintro ⟨host, port⟩ ⟨host', port'⟩ h
  cases h
  rfl

def insertionSort : StdSort less := .insertion sortKey less_iff

def text (a : rmq.Address) : String := a.host ++ ":" ++ toString a.port

end rmq.Address

inductive AddressScheme
  | ipv4
  | ipv6
  | domainName
  deriving DecidableEq, Repr

structure ServiceAddress where
  scheme : AddressScheme
  addresses : List rmq.Address

namespace ServiceAddress

def new (std : StdSort rmq.Address.less) (scheme : AddressScheme)
    (addresses : List rmq.Address) : ServiceAddress :=
  { scheme := scheme, addresses := std.sort addresses }

def schemeText : AddressScheme → String
  | .ipv4 => "ipv4:"
  | .ipv6 => "ipv6:"
  | .domainName => "dns:"

def appendItem (r : String × Bool) (item : rmq.Address) : String × Bool :=
  ((if r.2 then r.1 else r.1 ++ ",") ++ item.host ++ ":" ++ toString item.port, false)

def address (a : ServiceAddress) : String :=
  (a.addresses.foldl appendItem (schemeText a.scheme, true)).1

end ServiceAddress

def AddressScheme.ofWire : rmq.AddressScheme → AddressScheme
  | .ipv4 => .ipv4
  | .ipv6 => .ipv6
  | .domainName => .domainName
  | .unknown => .ipv4

/-- The switch over the permission has no case for `NONE`. -/
def Permission.ofWire : rmq.Permission → Permission
  | .read => .read
  | .write => .write
  | .readWrite => .readWrite
  | _ => .readWrite

def Partition.ofWire (std : StdSort rmq.Address.less) (p : rmq.Partition) (broker : rmq.Broker) :
    Partition :=
  { resourceNamespace := p.resourceNamespace
    topic := p.topic
    brokerName := broker.name
    brokerId := broker.id
    serviceAddress := (ServiceAddress.new std (.ofWire broker.endpoints.scheme)
      broker.endpoints.addresses).address
    id := p.id
    permission := .ofWire p.permission }

namespace ServiceAddress

theorem foldl_appendItem (text : String) (items : List rmq.Address) :
    (items.foldl appendItem (text, false)).1 =
      ",".intercalate (text :: items.map rmq.Address.text) := by
  induction items generalizing text with
  | nil => simp
  | cons a items ih =>
    have happend : appendItem (text, false) a = (text ++ "," ++ a.text, false) := by
      simp [appendItem, rmq.Address.text, String.append_assoc]
    rw [List.foldl_cons, happend, ih]
    simp [String.append_assoc]

theorem address_eq {a : ServiceAddress} (h : a.addresses ≠ []) :
    a.address = schemeText a.scheme ++ ",".intercalate (a.addresses.map rmq.Address.text) := by
  obtain ⟨item, items, hitems⟩ := List.exists_cons_of_ne_nil h
  have hfirst : appendItem (schemeText a.scheme, true) item =
      (schemeText a.scheme ++ item.text, false) := by
    simp [appendItem, rmq.Address.text, String.append_assoc]
  rw [address, hitems, List.foldl_cons, hfirst, foldl_appendItem, List.map_cons,
    String.intercalate_cons_append]

end ServiceAddress

namespace TopicAssignment

theorem foldl_appendAddress (scheme : rmq.AddressScheme) {text : String} (h : text ≠ "")
    (addresses : List rmq.Address) :
    addresses.foldl (appendAddress scheme) text =
      ",".intercalate (text :: addresses.map rmq.Address.text) := by
  induction addresses generalizing text with
  | nil => simp
  | cons a addresses ih =>
    have happend : appendAddress scheme text a = text ++ "," ++ a.text := by
      simp [appendAddress, rmq.Address.text, String.append_assoc, h]
    rw [List.foldl_cons, happend, ih (by simp [h])]
    simp [String.append_assoc]

def usedAddresses (endpoints : rmq.Endpoints) : List rmq.Address :=
  if endpoints.scheme = .domainName then endpoints.addresses.take 1 else endpoints.addresses

theorem usedAddresses_ne_nil {endpoints : rmq.Endpoints} (h : endpoints.addresses ≠ []) :
    usedAddresses endpoints ≠ [] := by
  rw [usedAddresses]
  split_ifs
  · simpa using h
  · exact h

theorem serviceAddress_eq {endpoints : rmq.Endpoints} (h : endpoints.addresses ≠ [])
    (hscheme : endpoints.scheme ≠ .unknown) :
    serviceAddress endpoints = ServiceAddress.schemeText (.ofWire endpoints.scheme) ++
      ",".intercalate ((usedAddresses endpoints).map rmq.Address.text) := by
  obtain ⟨a, addresses, hused⟩ := List.exists_cons_of_ne_nil (usedAddresses_ne_nil h)
  have htext : endpoints.scheme.text = ServiceAddress.schemeText (.ofWire endpoints.scheme) := by
    cases hs : endpoints.scheme with
    | ipv4 => rfl
    | ipv6 => rfl
    | domainName => rfl
    | unknown => exact absurd hs hscheme
  have hfirst : appendAddress endpoints.scheme "" a = endpoints.scheme.text ++ a.text := by
    simp [appendAddress, rmq.Address.text, String.append_assoc]
  have hne : endpoints.scheme.text ++ a.text ≠ "" := by simp [rmq.Address.text]
  change (usedAddresses endpoints).foldl (appendAddress endpoints.scheme) "" = _
  rw [hused, List.foldl_cons, hfirst, foldl_appendAddress _ hne, List.map_cons,
    String.intercalate_cons_append, htext]

end TopicAssignment

namespace rmq.Address

theorem toList_text (a : rmq.Address) :
    a.text.toList = a.host.toList ++ ':' :: (toString a.port).toList := by
  simp [text]

theorem toList_port (port : ℤ) :
    (toString port).toList =
      if 0 ≤ port then Nat.toDigits 10 port.toNat else '-' :: Nat.toDigits 10 (-port).toNat := by
  rw [Int.toString_eq_repr, Int.repr_eq_if]
  split_ifs <;> simp [Nat.toList_repr]

theorem isDigit_of_mem {n : ℕ} {c : Char} (h : c ∈ Nat.toDigits 10 n) : c.isDigit = true :=
  Nat.isDigit_of_mem_toDigits (by omega) (by omega) h

theorem mem_port {port : ℤ} {c : Char} (h : c ∈ (toString port).toList) :
    c.isDigit = true ∨ c = '-' := by
  rw [toList_port] at h
  split_ifs at h
  · exact Or.inl (isDigit_of_mem h)
  · exact (List.mem_cons.mp h).symm.imp isDigit_of_mem id

theorem port_injective {a b : ℤ} (h : (toString a).toList = (toString b).toList) : a = b := by
  have hvalue : ∀ {m n : ℕ}, Nat.toDigits 10 m = Nat.toDigits 10 n → m = n := by
    intro m n hdigits
    rw [← Nat.ofDigitChars_ten_toDigits (n := m), hdigits, Nat.ofDigitChars_ten_toDigits]
  have hminus : ∀ {n : ℕ}, '-' ∉ Nat.toDigits 10 n := fun hmem =>
    absurd (isDigit_of_mem hmem) (by decide)
  rw [toList_port, toList_port] at h
  split_ifs at h
  · have hnat := hvalue h
    omega
  · exact absurd (h ▸ List.mem_cons_self) hminus
  · exact absurd (h ▸ List.mem_cons_self) hminus
  · have hnat := hvalue (List.cons.inj h).2
    omega

theorem text_injective : Function.Injective text := by
  intro a b h
  have hlists := congrArg String.toList h
  rw [toList_text, toList_text] at hlists
  have hcolon : ∀ port : ℤ, ':' ∉ (toString port).toList := by
    intro port hmem
    rcases mem_port hmem with hdigit | hminus
    · exact absurd hdigit (by decide)
    · exact absurd hminus (by decide)
  obtain ⟨hhost, hport⟩ := Joined.append_cons_inj (hcolon a.port) (hcolon b.port) hlists
  have hhost : a.host = b.host := String.toList_injective hhost
  have hport : a.port = b.port := port_injective hport
  cases a
  cases b
  simp_all

end rmq.Address

namespace ServiceAddress

/-- The texts of the addresses, cut at their commas. A host of one piece has none. -/
def pieces (addresses : List rmq.Address) : List (List Char) :=
  (addresses.map fun a => a.text.toList).flatMap (List.splitOn ',')

theorem joined_eq_iff {as bs : List rmq.Address} (ha : as ≠ []) (hb : bs ≠ []) :
    ",".intercalate (as.map rmq.Address.text) = ",".intercalate (bs.map rmq.Address.text) ↔
      pieces as = pieces bs := by
  have hchars : ∀ l : List rmq.Address, (",".intercalate (l.map rmq.Address.text)).toList =
      [','].intercalate (l.map fun a => a.text.toList) := by
    intro l
    rw [String.toList_intercalate, List.map_map]
    rfl
  rw [← String.toList_inj, hchars, hchars, Joined.join_eq_iff (by simpa using ha)
    (by simpa using hb)]
  rfl

theorem pieces_injective {as bs : List rmq.Address}
    (ha : ∀ a ∈ as, ',' ∉ a.host.toList) (hb : ∀ b ∈ bs, ',' ∉ b.host.toList)
    (h : pieces as = pieces bs) : as = bs := by
  have hplain : ∀ l : List rmq.Address, (∀ a ∈ l, ',' ∉ a.host.toList) →
      pieces l = l.map fun a => a.text.toList := by
    intro l hl
    apply Joined.flatMap_splitOn_of_forall
    intro piece hpiece hcomma
    obtain ⟨a, ha, rfl⟩ := List.mem_map.mp hpiece
    rw [rmq.Address.toList_text, List.mem_append, List.mem_cons] at hcomma
    rcases hcomma with hhost | hcolon | hport
    · exact hl a ha hhost
    · exact absurd hcolon (by decide)
    · rcases rmq.Address.mem_port hport with hdigit | hminus
      · exact absurd hdigit (by decide)
      · exact absurd hminus (by decide)
  rw [hplain as ha, hplain bs hb] at h
  have hinjective : Function.Injective fun a : rmq.Address => a.text.toList :=
    fun _ _ htext => rmq.Address.text_injective (String.toList_injective htext)
  exact hinjective.list_map h

theorem pieces_sort_iff (std : StdSort rmq.Address.less) {addresses : List rmq.Address}
    (h : ∀ a ∈ addresses, ',' ∉ a.host.toList) :
    pieces (std.sort addresses) = pieces addresses ↔
      addresses.Pairwise fun a b => b.less a = false := by
  rw [← std.sort_eq_self_iff rmq.Address.sortKey_injective rmq.Address.less_iff]
  constructor
  · exact pieces_injective (fun a ha => h a ((std.perm addresses).mem_iff.mp ha)) h
  · intro hsorted
    rw [hsorted]

theorem first_of_joined {addresses : List rmq.Address} {a : rmq.Address} (ha : a ∈ addresses)
    (h : ",".intercalate (addresses.map rmq.Address.text) = a.text) : addresses.length = 1 := by
  have hpos : 0 < addresses.length := List.length_pos_of_mem ha
  have hsmall : ¬ 2 ≤ (addresses.map fun a => a.text.toList).length := by
    intro htwo
    have hlt : a.text.toList.length <
        ([','].intercalate (addresses.map fun a => a.text.toList)).length :=
      Joined.length_lt_join (List.mem_map.mpr ⟨a, ha, rfl⟩) htwo
    have hchars := congrArg String.toList h
    rw [String.toList_intercalate, List.map_map] at hchars
    rw [← hchars] at hlt
    exact lt_irrefl _ hlt
  rw [List.length_map] at hsmall
  omega

/-- The order in which the addresses are listed does not matter: there is one domain name,
or sorting the addresses leaves the pieces of their texts in the same order. -/
def OrderIrrelevant (std : StdSort rmq.Address.less) (endpoints : rmq.Endpoints) : Prop :=
  if endpoints.scheme = .domainName then endpoints.addresses.length = 1
  else pieces (std.sort endpoints.addresses) = pieces endpoints.addresses

/-- The two texts are equal exactly if there is one domain name, or the addresses are listed
in sorted order. The order is that of the pieces if a host contains a comma. -/
theorem addresses_agree_iff (std : StdSort rmq.Address.less) (p : rmq.Partition)
    (broker : rmq.Broker) (hne : broker.endpoints.addresses ≠ [])
    (hscheme : broker.endpoints.scheme ≠ .unknown) :
    ((Partition.ofWire std p broker).asMessageQueue.serviceAddress =
        TopicAssignment.serviceAddress broker.endpoints ↔
      OrderIrrelevant std broker.endpoints) ∧
    ((∀ a ∈ broker.endpoints.addresses, ',' ∉ a.host.toList) →
      (OrderIrrelevant std broker.endpoints ↔
        if broker.endpoints.scheme = .domainName then broker.endpoints.addresses.length = 1
        else broker.endpoints.addresses.Pairwise fun a b => b.less a = false)) := by
  have hperm := std.perm broker.endpoints.addresses
  have hsorted : std.sort broker.endpoints.addresses ≠ [] := fun hnil =>
    hne (List.Perm.nil_eq (hnil ▸ hperm)).symm
  constructor
  · change (ServiceAddress.new std _ _).address = _ ↔ _
    rw [address_eq hsorted, TopicAssignment.serviceAddress_eq hne hscheme, new,
      String.append_right_inj, OrderIrrelevant, TopicAssignment.usedAddresses]
    split_ifs with hdomain
    · obtain ⟨a, addresses, haddresses⟩ := List.exists_cons_of_ne_nil hne
      have ha : a ∈ std.sort broker.endpoints.addresses :=
        hperm.mem_iff.mpr (haddresses ▸ List.mem_cons_self)
      have hfirst : broker.endpoints.addresses.take 1 = [a] := by simp [haddresses]
      rw [hfirst, List.map_singleton, String.intercalate_singleton]
      constructor
      · intro h
        rw [← hperm.length_eq]
        exact first_of_joined ha h
      · intro hone
        rw [← hperm.length_eq] at hone
        obtain ⟨b, hb⟩ := List.length_eq_one_iff.mp hone
        rw [hb] at ha ⊢
        rw [List.mem_singleton.mp ha]
        simp
    · exact joined_eq_iff hsorted hne
  · intro hhosts
    rw [OrderIrrelevant]
    split_ifs
    · rfl
    · exact pieces_sort_iff std hhosts

def listing (scheme : rmq.AddressScheme) (hosts : List String) : rmq.Broker :=
  { name := "broker-a"
    endpoints :=
      { scheme := scheme, addresses := hosts.map fun host => { host := host, port := 8081 } } }

theorem sorted_addresses_agree :
    (Partition.ofWire rmq.Address.insertionSort {}
        (listing .ipv4 ["10.0.0.1", "10.0.0.2"])).asMessageQueue.serviceAddress =
      TopicAssignment.serviceAddress (listing .ipv4 ["10.0.0.1", "10.0.0.2"]).endpoints := by
  have h := addresses_agree_iff rmq.Address.insertionSort {}
    (listing .ipv4 ["10.0.0.1", "10.0.0.2"]) (by simp [listing]) (by simp [listing])
  refine h.1.mpr ((h.2 (by decide)).mpr ?_)
  decide

theorem listed_order_differs :
    (Partition.ofWire rmq.Address.insertionSort {}
        (listing .ipv4 ["10.0.0.2", "10.0.0.1"])).asMessageQueue.serviceAddress =
      "ipv4:10.0.0.1:8081,10.0.0.2:8081" ∧
    TopicAssignment.serviceAddress (listing .ipv4 ["10.0.0.2", "10.0.0.1"]).endpoints ≠
      "ipv4:10.0.0.1:8081,10.0.0.2:8081" ∧
    (Partition.ofWire rmq.Address.insertionSort {}
        (listing .domainName ["a.com", "b.com"])).asMessageQueue.serviceAddress ≠
      TopicAssignment.serviceAddress (listing .domainName ["a.com", "b.com"]).endpoints := by
  decide

end ServiceAddress

end RocketMQClient
