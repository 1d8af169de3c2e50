import RocketMQClient.Library.Text

/-!
# The endpoint of name server discovery

The constructor of `DynamicNameServerResolver` cuts the endpoint into a scheme, a host, a
port and a path, and hands all but the scheme to a `TopAddressing`, whose request goes to the
`HttpClient`. A port that is no number aborts the process. The cutting is done by functions of
a `TextLibrary`.

`Endpoint` is an endpoint as a user writes it, in its parts.
-/

namespace RocketMQClient
open Text

inductive HttpProtocol
  | http
  | https
  deriving DecidableEq, Repr

structure HttpRequest where
  protocol : HttpProtocol
  host : List Char
  port : ℕ
  path : List Char
  deriving DecidableEq, Repr

structure HostInfo where
  site : List Char := []
  unit : List Char := []
  app : List Char := []
  stage : List Char := []
  deriving DecidableEq, Repr

namespace HostInfo

def hasHostInfo (h : HostInfo) : Bool := !h.unit.isEmpty && !h.stage.isEmpty

def appendLabel (queryString key value : List Char) : List Char :=
  if value.isEmpty then queryString
  else if queryString.getLast? = some '=' then queryString ++ key ++ [':'] ++ value
  else queryString ++ [','] ++ key ++ [':'] ++ value

def queryString (h : HostInfo) : List Char :=
  if !h.hasHostInfo then []
  else
    let q := ['l', 'a', 'b', 'e', 'l', 's', '=']
    let q := appendLabel q ['s', 'i', 't', 'e'] h.site
    let q := appendLabel q ['u', 'n', 'i', 't'] h.unit
    let q := appendLabel q ['a', 'p', 'p'] h.app
    appendLabel q ['s', 't', 'a', 'g', 'e'] h.stage

end HostInfo

structure TopAddressing where
  host : List Char
  port : ℤ
  path : List Char
  hostInfo : HostInfo := {}
  deriving DecidableEq, Repr

namespace TopAddressing

def queryString (t : TopAddressing) : List Char :=
  let q := if '?' ∈ t.path then t.path ++ ['&'] else t.path ++ ['?']
  if t.hostInfo.hasHostInfo then q ++ t.hostInfo.queryString
  else q ++ ['n', 'o', 'f', 'i', 'x', '=', '1']

/-- The request of `fetchNameServerAddresses`; its `int` port becomes a `uint16_t`. -/
def request (t : TopAddressing) : HttpRequest :=
  { protocol := .http, host := t.host, port := (t.port % 65536).toNat, path := t.queryString }

theorem prefix_queryString (t : TopAddressing) : t.path <+: t.queryString := by
  unfold queryString
  split_ifs <;> simp only [List.append_assoc] <;> exact List.prefix_append _ _

end TopAddressing

structure DynamicNameServerResolver where
  topAddressing : TopAddressing
  nameServerList : List (List Char) := []
  index : UInt32 := 0
  deriving DecidableEq, Repr

namespace DynamicNameServerResolver
variable (lib : TextLibrary)

def httpScheme : List Char := ['h', 't', 't', 'p', ':', '/', '/']
def httpsScheme : List Char := ['h', 't', 't', 'p', 's', ':', '/', '/']

def splitScheme (endpoint : List Char) : Bool × List Char :=
  if httpsScheme.isPrefixOf endpoint then (true, lib.stripPrefix httpsScheme endpoint)
  else (false, lib.stripPrefix httpScheme endpoint)

def splitAuthority (hostInfo : HostInfo) (port : ℤ) (remains : List Char) :
    Option TopAddressing :=
  if ':' ∈ remains then
    let host := firstSegment ':' remains
    let remains := lib.stripPrefix [':'] (lib.stripPrefix host remains)
    let portText := firstSegment '/' remains
    (lib.simpleAtoi portText).map fun port =>
      { host := host, port := port, path := lib.stripPrefix portText remains, hostInfo := hostInfo }
  else
    let host := firstSegment '/' remains
    some { host := host, port := port, path := lib.stripPrefix host remains, hostInfo := hostInfo }

def ofEndpoint (hostInfo : HostInfo) (endpoint : List Char) :
    Option DynamicNameServerResolver :=
  let r := splitScheme lib endpoint
  (splitAuthority lib hostInfo (if r.1 then 443 else 80) r.2).map fun t => { topAddressing := t }

end DynamicNameServerResolver

structure Endpoint where
  scheme : Option HttpProtocol
  host : List Char
  port : Option (List Char)
  path : List Char
  host_ne : host ≠ []
  host_free : ':' ∉ host ∧ '/' ∉ host
  port_number : ∀ text ∈ port, Digits text ∧ value text < 65536
  path_rooted : path = [] ∨ path.head? = some '/'

namespace Endpoint
open DynamicNameServerResolver
variable (e : Endpoint)

def schemeText : List Char :=
  match e.scheme with
  | none => []
  | some .http => httpScheme
  | some .https => httpsScheme

def portText : List Char :=
  match e.port with
  | none => []
  | some text => ':' :: text

def authority : List Char := e.host ++ e.portText

def text : List Char := e.schemeText ++ (e.authority ++ e.path)

def portNumber : ℕ :=
  match e.port with
  | none => if e.scheme = some .https then 443 else 80
  | some text => value text

structure AsWritten (r : HttpRequest) : Prop where
  scheme : r.protocol = e.scheme.getD .http
  host : r.host = e.host
  port : r.port = e.portNumber
  path : e.path <+: r.path

variable (lib : TextLibrary) {e}

theorem slash_notMem_authority : '/' ∉ e.authority := by
  rw [authority, List.mem_append, not_or]
  refine ⟨e.host_free.2, ?_⟩
  unfold portText
  cases hport : e.port with
  | none => simp
  | some text =>
    intro hmem
    have hslash : '/' ∈ text := by simpa using hmem
    exact absurd ((e.port_number text hport).1.2 _ hslash) (by decide)

theorem authority_ne {w : List Char} (hw : ':' ∉ w) : e.authority ≠ w ++ [':'] := by
  intro h
  rw [authority] at h
  unfold portText at h
  cases hport : e.port with
  | none =>
    rw [hport, List.append_nil] at h
    exact e.host_free.1 (by rw [h]; simp)
  | some text =>
    rw [hport] at h
    have hfirst : firstSegment ':' (e.host ++ ':' :: text) = e.host :=
      firstSegment_append e.host_free.1 (Or.inr rfl)
    have hhost : w = e.host := by
      rw [← hfirst, h, firstSegment_append hw (Or.inr rfl)]
    rw [hhost, List.append_cancel_left_eq, List.cons.injEq] at h
    exact (e.port_number text hport).1.1 h.2

theorem not_prefix_authority {w : List Char} (hcolon : ':' ∉ w) (hslash : '/' ∉ w) :
    ¬ w ++ [':', '/', '/'] <+: e.authority ++ e.path := by
  rintro ⟨t, ht⟩
  apply authority_ne (e := e) hcolon
  have hcut : w ++ [':', '/', '/'] ++ t = (w ++ [':']) ++ '/' :: '/' :: t := by simp
  rw [← firstSegment_append slash_notMem_authority e.path_rooted, ← ht, hcut]
  exact firstSegment_append (by simp [hslash]) (Or.inr rfl)

theorem splitScheme_text :
    splitScheme lib e.text = (decide (e.scheme = some .https), e.authority ++ e.path) := by
  unfold text schemeText
  cases hscheme : e.scheme with
  | none =>
    have hhttps : ¬ httpsScheme.isPrefixOf (e.authority ++ e.path) = true :=
      mt List.isPrefixOf_iff_prefix.mp
        (not_prefix_authority (w := ['h', 't', 't', 'p', 's']) (by decide) (by decide))
    have hhttp : ¬ httpScheme <+: e.authority ++ e.path :=
      not_prefix_authority (w := ['h', 't', 't', 'p']) (by decide) (by decide)
    rw [List.nil_append, splitScheme, if_neg hhttps, lib.stripPrefix_of_not_prefix hhttp]
    rfl
  | some protocol =>
    cases protocol with
    | http =>
      have hhttps : ¬ httpsScheme.isPrefixOf (httpScheme ++ (e.authority ++ e.path)) = true := by
        simp [httpsScheme, httpScheme, List.isPrefixOf]
      simp only [splitScheme, if_neg hhttps, lib.stripPrefix_append]
      rfl
    | https => simp [splitScheme]

theorem splitAuthority_of_port (hostInfo : HostInfo) (port : ℤ) {text : List Char}
    (hport : e.port = some text) :
    splitAuthority lib hostInfo port (e.authority ++ e.path) =
      some { host := e.host, port := value text, path := e.path, hostInfo := hostInfo } := by
  obtain ⟨hdigits, hlt⟩ := e.port_number text hport
  have hremains : e.authority ++ e.path = e.host ++ ([':'] ++ (text ++ e.path)) := by
    simp [authority, portText, hport]
  have hhost : firstSegment ':' (e.host ++ ([':'] ++ (text ++ e.path))) = e.host :=
    firstSegment_append e.host_free.1 (Or.inr rfl)
  have hslash : '/' ∉ text := fun hmem => absurd (hdigits.2 _ hmem) (by decide)
  have hfirst : firstSegment '/' (text ++ e.path) = text :=
    firstSegment_append hslash e.path_rooted
  rw [hremains, splitAuthority, if_pos (by simp)]
  simp only [hhost, lib.stripPrefix_append, hfirst, lib.simpleAtoi_of_digits hdigits (by omega),
    Option.map_some]

theorem splitAuthority_of_no_colon (hostInfo : HostInfo) (port : ℤ) (hport : e.port = none)
    (hpath : ':' ∉ e.path) :
    splitAuthority lib hostInfo port (e.authority ++ e.path) =
      some { host := e.host, port := port, path := e.path, hostInfo := hostInfo } := by
  have hremains : e.authority ++ e.path = e.host ++ e.path := by
    simp [authority, portText, hport]
  have hhost : firstSegment '/' (e.host ++ e.path) = e.host :=
    firstSegment_append e.host_free.2 e.path_rooted
  rw [hremains, splitAuthority, if_neg (by simp [e.host_free.1, hpath])]
  simp only [hhost, lib.stripPrefix_append]

theorem splitAuthority_of_colon (hostInfo : HostInfo) (port : ℤ) (hport : e.port = none)
    (hpath : ':' ∈ e.path) {t : TopAddressing}
    (ht : splitAuthority lib hostInfo port (e.authority ++ e.path) = some t) : t.host ≠ e.host := by
  obtain ⟨before, after, hcut, hfree⟩ := List.eq_append_cons_of_mem hpath
  have hne : before ≠ [] := by
    rintro rfl
    simpa [hcut] using e.path_rooted
  have hremains : e.authority ++ e.path = (e.host ++ before) ++ ':' :: after := by
    simp [authority, portText, hport, hcut]
  have hhost : firstSegment ':' ((e.host ++ before) ++ ':' :: after) = e.host ++ before :=
    firstSegment_append (by simp [e.host_free.1, hfree]) (Or.inr rfl)
  rw [hremains, splitAuthority, if_pos (by simp)] at ht
  simp only [hhost, Option.map_eq_some_iff] at ht
  obtain ⟨number, -, rfl⟩ := ht
  intro h
  exact hne (List.append_right_eq_self.mp h)

theorem asWritten_request {t : TopAddressing} (hscheme : e.scheme ≠ some .https)
    (hhost : t.host = e.host) (hport : (t.port % 65536).toNat = e.portNumber)
    (hpath : t.path = e.path) : e.AsWritten t.request := by
  refine ⟨?_, hhost, hport, hpath ▸ t.prefix_queryString⟩
  cases h : e.scheme with
  | none => rfl
  | some protocol =>
    cases protocol with
    | http => rfl
    | https => exact absurd h hscheme

/-- The request is the one that was written unless the scheme is `https`, which the request
forgets, or a colon of the path is read as that of a port. -/
theorem request_asWritten_iff (lib : TextLibrary) (hostInfo : HostInfo) (e : Endpoint) :
    (∃ r, ofEndpoint lib hostInfo e.text = some r ∧ e.AsWritten r.topAddressing.request) ↔
      e.scheme ≠ some .https ∧ (e.port ≠ none ∨ ':' ∉ e.path) := by
  rw [ofEndpoint, splitScheme_text]
  constructor
  · rintro ⟨r, hr, hwritten⟩
    obtain ⟨t, ht, rfl⟩ := Option.map_eq_some_iff.mp hr
    constructor
    · intro hhttps
      have hscheme := hwritten.scheme
      rw [hhttps] at hscheme
      exact absurd hscheme (by simp [TopAddressing.request])
    · by_contra hcolon
      rw [not_or, not_not, not_not] at hcolon
      exact splitAuthority_of_colon lib hostInfo _ hcolon.1 hcolon.2 ht hwritten.host
  · rintro ⟨hscheme, hcolon⟩
    cases hport : e.port with
    | some text =>
      obtain ⟨-, hlt⟩ := e.port_number text hport
      refine ⟨_, congrArg (Option.map _) (splitAuthority_of_port lib hostInfo _ hport),
        asWritten_request hscheme rfl ?_ rfl⟩
      simp only [portNumber, hport]
      omega
    | none =>
      have hpath : ':' ∉ e.path := by simpa [hport] using hcolon
      refine ⟨_, congrArg (Option.map _) (splitAuthority_of_no_colon lib hostInfo _ hport hpath),
        asWritten_request hscheme rfl ?_ rfl⟩
      simp [portNumber, hport, hscheme]

def httpsEndpoint : Endpoint where
  scheme := some .https
  host := ['a']
  port := none
  path := []
  host_ne := by decide
  host_free := by decide
  port_number := by simp
  path_rooted := by decide

def colonEndpoint : Endpoint where
  scheme := none
  host := ['a']
  port := none
  path := ['/', 'b', ':', '1']
  host_ne := by decide
  host_free := by decide
  port_number := by simp
  path_rooted := by decide

theorem ofEndpoint_httpsEndpoint : ofEndpoint lib {} httpsEndpoint.text =
    some { topAddressing := { host := ['a'], port := 443, path := [] } } := by
  rw [ofEndpoint, splitScheme_text]
  exact congrArg (Option.map _)
    (splitAuthority_of_no_colon (e := httpsEndpoint) lib {} 443 rfl (by decide))

theorem ofEndpoint_colonEndpoint : ofEndpoint lib {} colonEndpoint.text =
    some { topAddressing := { host := ['a', '/', 'b'], port := 1, path := [] } } := by
  have hhost : firstSegment ':' ['a', '/', 'b', ':', '1'] = ['a', '/', 'b'] := by decide
  have hport : lib.stripPrefix [':'] (lib.stripPrefix ['a', '/', 'b']
      ['a', '/', 'b', ':', '1']) = ['1'] := by
    have hcut := lib.stripPrefix_append ['a', '/', 'b'] [':', '1']
    exact (congrArg (lib.stripPrefix [':']) hcut).trans (lib.stripPrefix_append [':'] ['1'])
  have hfirst : firstSegment '/' ['1'] = ['1'] := by decide
  have hnumber : lib.simpleAtoi ['1'] = some 1 :=
    lib.simpleAtoi_of_digits (s := ['1']) (by decide) (by decide)
  have hpath : lib.stripPrefix ['1'] ['1'] = [] := lib.stripPrefix_append ['1'] []
  have hremains : splitAuthority lib {} 80 ['a', '/', 'b', ':', '1'] =
      some { host := ['a', '/', 'b'], port := 1, path := [] } := by
    rw [splitAuthority, if_pos (by decide)]
    simp only [hhost, hport, hfirst, hnumber, hpath, Option.map_some]
  rw [ofEndpoint, splitScheme_text]
  exact congrArg (Option.map _) hremains

/-- `https://a` is asked for over http, and in `a/b:1` the host is taken to be `a/b`. -/
theorem endpoint_not_as_written :
    (∀ lib : TextLibrary, ∃ r, ofEndpoint lib {} httpsEndpoint.text = some r ∧
      r.topAddressing.request.protocol = .http ∧ r.topAddressing.request.port = 443 ∧
        ¬ httpsEndpoint.AsWritten r.topAddressing.request) ∧
    ∀ lib : TextLibrary, ∃ r, ofEndpoint lib {} colonEndpoint.text = some r ∧
      r.topAddressing.request.host = ['a', '/', 'b'] ∧ r.topAddressing.request.port = 1 ∧
        ¬ colonEndpoint.AsWritten r.topAddressing.request := by
  constructor
  · intro lib
    refine ⟨_, ofEndpoint_httpsEndpoint lib, rfl, rfl, fun h => ?_⟩
    exact absurd h.scheme (by decide)
  · intro lib
    refine ⟨_, ofEndpoint_colonEndpoint lib, rfl, rfl, fun h => ?_⟩
    exact absurd h.host (by decide)

example : ofEndpoint library {} ['a', ':', ' ', '8', '1', '/', 'b'] =
    some { topAddressing := { host := ['a'], port := 81, path := ['/', 'b'] } } := by decide

end Endpoint
end RocketMQClient
