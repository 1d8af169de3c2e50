import RocketMQClient.NameServerDiscovery
import RocketMQClient.Library.TimeFormat

/-!
# The credentials of a RAM role

`StsCredentialsProviderImpl` asks the metadata server for temporary credentials when those it
has are expired. The answer is a JSON object with four texts, one of them the time up to which
the others are valid. `JsonStringToMessage` is a parameter: the fields of an object, or none
if the status is not ok. A field that is missing fails an assertion, and the text of a value
of another kind is empty. Times are read by any `TimeLibrary`.

The format of the time has `%H` in the place of the minute, so that the minutes are read as
the hour and the hour is dropped. And no constructor sets `http_client_`, which only
`withHttpClient` does: a refresh without it dereferences a null pointer.
-/

namespace RocketMQClient
open TimeFormat EventMachine

inductive JsonValue
  | string (v : List Char)
  | other
  deriving DecidableEq

def JsonValue.stringValue : JsonValue → List Char
  | .string v => v
  | .other => []

abbrev JsonFields := List Char → Option JsonValue

abbrev JsonParser := List Char → Option JsonFields

structure Credentials where
  accessKey : List Char
  accessSecret : List Char
  sessionToken : List Char
  expirationInstant : ℤ
  deriving DecidableEq

structure StsCredentialsProviderImpl where
  ramRoleName : List Char
  accessKey : List Char := []
  accessSecret : List Char := []
  sessionToken : List Char := []
  expiration : ℤ := 0
  httpClient : Bool := false
  deriving DecidableEq

namespace StsCredentialsProviderImpl

def ramRoleHost : List Char := "100.100.100.200".toList

def ramRoleUrlPrefix : List Char := "/latest/meta-data/Ram/security-credentials/".toList

def fieldAccessKey : List Char := "AccessKeyId".toList

def fieldAccessSecret : List Char := "AccessKeySecret".toList

def fieldSessionToken : List Char := "SecurityToken".toList

def fieldExpiration : List Char := "Expiration".toList

def expirationDateTimeFormat : List Char := "%Y-%m-%d%ET%H:%H:%S%Ez".toList

structure Texts where
  accessKey : List Char
  accessSecret : List Char
  sessionToken : List Char
  expiration : List Char
  deriving DecidableEq

def readFields (fields : JsonFields) : Option Texts := do
  let accessKey ← fields fieldAccessKey
  let accessSecret ← fields fieldAccessSecret
  let sessionToken ← fields fieldSessionToken
  let expiration ← fields fieldExpiration
  some ⟨accessKey.stringValue, accessSecret.stringValue, sessionToken.stringValue,
    expiration.stringValue⟩

variable (lib : TimeLibrary) (p : StsCredentialsProviderImpl)

def credentials : Credentials := ⟨p.accessKey, p.accessSecret, p.sessionToken, p.expiration⟩

def request : HttpRequest :=
  { protocol := .http, host := ramRoleHost, port := 80, path := ramRoleUrlPrefix ++ p.ramRoleName }

def withHttpClient : StsCredentialsProviderImpl := { p with httpClient := true }

def store (r : Texts) (t : lib.Time) : StsCredentialsProviderImpl :=
  { p with accessKey := r.accessKey, accessSecret := r.accessSecret,
           sessionToken := r.sessionToken, expiration := lib.toChronoTime t }

def update (r : Texts) : StsCredentialsProviderImpl :=
  match lib.parseTime expirationDateTimeFormat r.expiration with
  | some t => p.store lib r t
  | none => p

/-- The callback of `refresh`; there is no result if an assertion fails. -/
def onResponse (json : JsonParser) (code : ℤ) (body : List Char) :
    Option StsCredentialsProviderImpl :=
  if code = HttpStatus.ok then
    match json body with
    | some fields => (readFields fields).map (p.update lib)
    | none => some p
  else some p

def refresh (json : JsonParser) (outcome : HttpOutcome) : Option StsCredentialsProviderImpl :=
  if p.httpClient then (HttpClientImpl.get (p.onResponse lib json) outcome).join else none

structure Obtained where
  requests : List HttpRequest
  credentials : Credentials
  provider : StsCredentialsProviderImpl
  deriving DecidableEq

def getCredentials (json : JsonParser) (now : ℤ) (outcome : HttpOutcome) : Option Obtained :=
  if p.expiration ≤ now then
    (p.refresh lib json outcome).map fun p' => ⟨[p.request], p'.credentials, p'⟩
  else some ⟨[], p.credentials, p⟩

structure Delivery where
  accessKey : List Char
  accessSecret : List Char
  sessionToken : List Char
  expiration : DateTime

namespace Delivery
variable (c : Delivery)

def texts : Texts := ⟨c.accessKey, c.accessSecret, c.sessionToken, c.expiration.text⟩

def ticks : ℤ := c.expiration.instant * 10 ^ 9

def credentials : Credentials := ⟨c.accessKey, c.accessSecret, c.sessionToken, c.ticks⟩

structure InFields (fields : JsonFields) : Prop where
  accessKey : fields fieldAccessKey = some (.string c.accessKey)
  accessSecret : fields fieldAccessSecret = some (.string c.accessSecret)
  sessionToken : fields fieldSessionToken = some (.string c.sessionToken)
  expiration : fields fieldExpiration = some (.string c.expiration.text)

def InOutcome (json : JsonParser) : HttpOutcome → Prop
  | .response status body =>
    status = HttpStatus.ok ∧ ∃ fields, json body = some fields ∧ c.InFields fields
  | _ => False

end Delivery

/-- What a refresh should do to the provider, and `getCredentials` after it. -/
structure Refreshed (json : JsonParser) (outcome : HttpOutcome)
    (p' : StsCredentialsProviderImpl) : Prop where
  delivered : ∀ c : Delivery, c.InOutcome json outcome → p'.credentials = c.credentials ∧
    ∀ now < c.ticks, ∀ next, p'.getCredentials lib json now next = some ⟨[], c.credentials, p'⟩
  otherwise : (∀ c : Delivery, ¬ c.InOutcome json outcome) → p'.credentials = p.credentials

def RefreshesRight (json : JsonParser) (outcome : HttpOutcome) : Prop :=
  ∃ p', p.refresh lib json outcome = some p' ∧ p.Refreshed lib json outcome p'

/-- In the first minute of a day the minutes are the hour; the clock must have the time too. -/
structure Delivery.InFirstMinute (c : Delivery) : Prop where
  hour : c.expiration.hour = 0
  minute : c.expiration.minute = 0
  fits : -2 ^ 63 ≤ c.ticks ∧ c.ticks < 2 ^ 63

/-- The object has all four fields. If it is regular, its time is in the first minute of a
day; otherwise its time is no text that can be read with the format. -/
structure Harmless (fields : JsonFields) (r : Texts) : Prop where
  present : readFields fields = some r
  regular : ∀ c : Delivery, c.InFields fields → c.InFirstMinute
  irregular : (∀ c : Delivery, ¬ c.InFields fields) →
    lib.parseTime expirationDateTimeFormat r.expiration = none

def HandlesOutcome (json : JsonParser) : HttpOutcome → Prop
  | .invalidClient => True
  | .transportFailure => False
  | .response status body =>
    status = HttpStatus.ok → ∀ fields, json body = some fields → ∃ r, Harmless lib fields r

theorem directives_expiration :
    directives expirationDateTimeFormat = some (DateTime.form .hour) := by
  decide

theorem parseTime_expiration (d : DateTime) :
    lib.parseTime expirationDateTimeFormat d.text =
      if d.minute < 24 then
        some (lib.fromUnixSeconds (civilSeconds d.year d.month d.day d.minute 0 d.second))
      else none := by
  split_ifs with hhour
  · exact DateTime.parseTime_set lib directives_expiration rfl (by omega) (by omega) rfl hhour
      (by omega)
  · exact DateTime.parseTime_outOfRange lib directives_expiration rfl (by omega)

theorem toChronoTime_eq_iff (t u : ℤ) :
    lib.toChronoTime (lib.fromUnixSeconds t) = u * 10 ^ 9 ↔
      t = u ∧ -2 ^ 63 ≤ u * 10 ^ 9 ∧ u * 10 ^ 9 < 2 ^ 63 := by
  rw [lib.toChronoTime_seconds]
  omega

variable {lib p} {json : JsonParser} {c : Delivery}

theorem ticks_eq_iff (lib : TimeLibrary) (c : Delivery) :
    lib.toChronoTime (lib.fromUnixSeconds (civilSeconds c.expiration.year c.expiration.month
      c.expiration.day c.expiration.minute 0 c.expiration.second)) = c.ticks ↔
        c.InFirstMinute := by
  have hminute := c.expiration.minute_lt
  rw [Delivery.ticks, toChronoTime_eq_iff]
  constructor
  · intro h
    obtain ⟨hinstant, hfits⟩ := h
    simp only [DateTime.instant, civilSeconds] at hinstant
    exact ⟨by omega, by omega, hfits⟩
  · intro h
    have hhour := h.hour
    have hzero := h.minute
    refine ⟨?_, h.fits⟩
    simp only [DateTime.instant, civilSeconds]
    omega

theorem texts_eq {fields : JsonFields} {r : Texts} (h : c.InFields fields)
    (hr : readFields fields = some r) : c.texts = r := by
  apply Option.some.inj
  rw [← hr]
  simp [readFields, h.accessKey, h.accessSecret, h.sessionToken, h.expiration, Delivery.texts,
    JsonValue.stringValue]

theorem inOutcome_iff {body : List Char} {fields : JsonFields} (hjson : json body = some fields) :
    c.InOutcome json (.response HttpStatus.ok body) ↔ c.InFields fields := by
  simp [Delivery.InOutcome, hjson]

theorem credentials_update_iff (p : StsCredentialsProviderImpl) (c : Delivery) :
    (p.update lib c.texts).credentials = c.credentials ↔
      c.InFirstMinute ∨ 24 ≤ c.expiration.minute ∧ p.credentials = c.credentials := by
  rw [update, Delivery.texts, parseTime_expiration]
  by_cases hhour : c.expiration.minute < 24
  · rw [if_pos hhour, ← ticks_eq_iff lib]
    simp [store, credentials, Delivery.credentials, not_le.mpr hhour]
  · have hnot : ¬ c.InFirstMinute := fun h => hhour (by rw [h.minute]; omega)
    simp [hhour, hnot, not_lt.mp hhour]

theorem update_of_refused {r : Texts}
    (h : lib.parseTime expirationDateTimeFormat r.expiration = none) : p.update lib r = p := by
  rw [update, h]

theorem accessKey_update {r : Texts} {t : lib.Time}
    (h : lib.parseTime expirationDateTimeFormat r.expiration = some t) :
    (p.update lib r).accessKey = r.accessKey := by
  rw [update, h]
  rfl

theorem getCredentials_of_lt (h : p.credentials = c.credentials) {now : ℤ} (hnow : now < c.ticks)
    (next : HttpOutcome) :
    p.getCredentials lib json now next = some ⟨[], c.credentials, p⟩ := by
  have hexpiration : p.expiration = c.ticks := congrArg Credentials.expirationInstant h
  rw [getCredentials, if_neg (by omega), h]

theorem refreshed_of_harmless {body : List Char} {fields : JsonFields} {r : Texts}
    (hjson : json body = some fields) (h : Harmless lib fields r) :
    p.Refreshed lib json (.response HttpStatus.ok body) (p.update lib r) := by
  constructor
  · intro c hc
    have hfields := (inOutcome_iff hjson).mp hc
    have hstored : (p.update lib r).credentials = c.credentials := by
      rw [← texts_eq hfields h.present, credentials_update_iff]
      exact .inl (h.regular c hfields)
    exact ⟨hstored, fun now hnow next => getCredentials_of_lt hstored hnow next⟩
  · intro hnone
    rw [update_of_refused (h.irregular fun c hc => hnone c ((inOutcome_iff hjson).mpr hc))]

theorem harmless_of_refreshed {body : List Char} {fields : JsonFields} {r : Texts}
    (hjson : json body = some fields) (hr : readFields fields = some r)
    (hnew : p.accessKey ≠ r.accessKey)
    (h : p.Refreshed lib json (.response HttpStatus.ok body) (p.update lib r)) :
    Harmless lib fields r := by
  refine ⟨hr, ?_, ?_⟩
  · intro c hc
    have htexts := texts_eq hc hr
    have hstored := (h.delivered c ((inOutcome_iff hjson).mpr hc)).1
    rw [← htexts, credentials_update_iff] at hstored
    rcases hstored with hfirst | ⟨-, hsame⟩
    · exact hfirst
    · have hkey : p.accessKey = c.accessKey := congrArg Credentials.accessKey hsame
      exact absurd (hkey.trans (congrArg Texts.accessKey htexts)) hnew
  · intro hnone
    have hsame := h.otherwise fun c hc => hnone c ((inOutcome_iff hjson).mp hc)
    cases hparse : lib.parseTime expirationDateTimeFormat r.expiration with
    | none => rfl
    | some t =>
      have hkey : (p.update lib r).accessKey = p.accessKey := congrArg Credentials.accessKey hsame
      exact absurd (hkey.symm.trans (accessKey_update hparse)) hnew

theorem refresh_object {body : List Char} {fields : JsonFields} (hclient : p.httpClient = true)
    (hjson : json body = some fields) :
    p.refresh lib json (.response HttpStatus.ok body) =
      (readFields fields).map (p.update lib) := by
  simp [refresh, hclient, HttpClientImpl.get, onResponse, hjson]

theorem RefreshesRight.httpClient {outcome : HttpOutcome} (h : p.RefreshesRight lib json outcome) :
    p.httpClient = true := by
  obtain ⟨p', hp', -⟩ := h
  by_contra hclient
  rw [refresh, if_neg hclient] at hp'
  cases hp'

theorem RefreshesRight.harmless {body : List Char} {fields : JsonFields}
    (hjson : json body = some fields)
    (hnew : ∀ r, readFields fields = some r → p.accessKey ≠ r.accessKey)
    (h : p.RefreshesRight lib json (.response HttpStatus.ok body)) :
    ∃ r, Harmless lib fields r := by
  have hclient := h.httpClient
  obtain ⟨p', hp', hrefreshed⟩ := h
  rw [refresh_object hclient hjson] at hp'
  obtain ⟨r, hr, hupdate⟩ := Option.map_eq_some_iff.mp hp'
  rw [← hupdate] at hrefreshed
  exact ⟨r, harmless_of_refreshed hjson hr (hnew r hr) hrefreshed⟩

theorem refreshesRight_of_harmless {body : List Char} {fields : JsonFields} {r : Texts}
    (hclient : p.httpClient = true) (hjson : json body = some fields)
    (h : Harmless lib fields r) : p.RefreshesRight lib json (.response HttpStatus.ok body) := by
  refine ⟨p.update lib r, ?_, refreshed_of_harmless hjson h⟩
  rw [refresh_object hclient hjson, h.present, Option.map_some]

theorem refreshesRight_of_same {outcome : HttpOutcome}
    (hsame : p.refresh lib json outcome = some p)
    (hnone : ∀ c : Delivery, ¬ c.InOutcome json outcome) : p.RefreshesRight lib json outcome :=
  ⟨p, hsame, fun c hc => absurd hc (hnone c), fun _ => rfl⟩

theorem refreshesRight_of_handles {outcome : HttpOutcome} (hclient : p.httpClient = true)
    (h : HandlesOutcome lib json outcome) : p.RefreshesRight lib json outcome := by
  cases outcome with
  | invalidClient =>
    refine refreshesRight_of_same ?_ fun c hc => hc
    simp [refresh, hclient, HttpClientImpl.get, onResponse, HttpStatus.ok]
  | transportFailure => exact absurd h id
  | response status body =>
    by_cases hstatus : status = HttpStatus.ok
    · subst hstatus
      cases hjson : json body with
      | none =>
        refine refreshesRight_of_same ?_ fun c hc => ?_
        · simp [refresh, hclient, HttpClientImpl.get, onResponse, hjson]
        · simp [Delivery.InOutcome, hjson] at hc
      | some fields =>
        obtain ⟨r, hr⟩ := h rfl fields hjson
        exact refreshesRight_of_harmless hclient hjson hr
    · refine refreshesRight_of_same ?_ fun c hc => hstatus hc.1
      simp [refresh, hclient, HttpClientImpl.get, onResponse, hstatus]

def strange (fields : JsonFields) : StsCredentialsProviderImpl where
  ramRoleName := []
  accessKey := 'x' :: ((fields fieldAccessKey).map JsonValue.stringValue).getD []
  httpClient := true

theorem accessKey_strange {fields : JsonFields} {r : Texts} (hr : readFields fields = some r) :
    (strange fields).accessKey ≠ r.accessKey := by
  have hkey : (fields fieldAccessKey).map JsonValue.stringValue = some r.accessKey := by
    obtain ⟨v, hv, hrest⟩ := Option.bind_eq_some_iff.mp hr
    simp only [Option.bind_eq_bind, Option.bind_eq_some_iff, Option.some.injEq] at hrest
    obtain ⟨_, -, _, -, _, -, rfl⟩ := hrest
    rw [hv, Option.map_some]
  rw [strange, hkey]
  exact fun h => absurd (congrArg List.length h) (by simp)

/-- No refresh works without a client. With one, a refresh of every provider does what it should
exactly if the request reaches a server and, where a good response is an object, that object is
harmless. -/
theorem refreshesRight_iff (lib : TimeLibrary) (json : JsonParser) (outcome : HttpOutcome) :
    (∀ p : StsCredentialsProviderImpl, p.RefreshesRight lib json outcome → p.httpClient = true) ∧
      ((∀ p : StsCredentialsProviderImpl, p.httpClient = true →
        p.RefreshesRight lib json outcome) ↔ HandlesOutcome lib json outcome) := by
  refine ⟨fun p h => h.httpClient, fun hall => ?_,
    fun h p hclient => refreshesRight_of_handles hclient h⟩
  cases outcome with
  | invalidClient => trivial
  | transportFailure =>
    obtain ⟨p', hp', -⟩ := hall (withHttpClient { ramRoleName := [] }) rfl
    cases hp'
  | response status body =>
    intro hstatus fields hjson
    rw [hstatus] at hall
    exact (hall (strange fields) rfl).harmless hjson fun r hr => accessKey_strange hr

def sampleFields : JsonFields := fun name =>
  if name = fieldAccessKey then some (.string "key".toList)
  else if name = fieldAccessSecret then some (.string "secret".toList)
  else if name = fieldSessionToken then some (.string "token".toList)
  else if name = fieldExpiration then some (.string "2017-11-01T05:20:01Z".toList)
  else none

def sampleParser : JsonParser := fun _ => some sampleFields

def sampleDelivery : Delivery where
  accessKey := "key".toList
  accessSecret := "secret".toList
  sessionToken := "token".toList
  expiration :=
    { year := 2017, month := 11, day := 1, hour := 5, minute := 20, second := 1
      year_lt := by decide, month_range := by decide, day_range := by decide
      hour_lt := by decide, minute_lt := by decide, second_lt := by decide }

/-- Credentials that expire at 05:20:01 are kept until 20:00:01. As the constructor leaves the
provider, it cannot ask for them at all. -/
theorem sample_expires_late :
    (∀ lib : TimeLibrary,
      (withHttpClient { ramRoleName := "test".toList }).refresh lib sampleParser
          (.response 200 []) =
        some { ramRoleName := "test".toList, accessKey := "key".toList
               accessSecret := "secret".toList, sessionToken := "token".toList
               expiration := 1509566401 * 10 ^ 9, httpClient := true }) ∧
      sampleDelivery.ticks = 1509513601 * 10 ^ 9 ∧
      (∀ lib : TimeLibrary, ¬ (withHttpClient { ramRoleName := "test".toList }).RefreshesRight lib
        sampleParser (.response 200 [])) ∧
      ∀ lib : TimeLibrary, getCredentials lib { ramRoleName := "test".toList } sampleParser 1
        (.response 200 []) = none := by
  have hdelivered : sampleDelivery.InFields sampleFields :=
    ⟨by decide, by decide, by decide, by decide⟩
  have hjson : sampleParser [] = some sampleFields := rfl
  have hread : readFields sampleFields = some sampleDelivery.texts := by decide
  refine ⟨fun lib => ?_, by decide, fun lib h => ?_, fun lib => rfl⟩
  · have hticks : lib.toChronoTime (lib.fromUnixSeconds (civilSeconds 2017 11 1 20 0 1)) =
        1509566401 * 10 ^ 9 := by
      rw [lib.toChronoTime_seconds]
      decide
    have hparse : lib.parseTime expirationDateTimeFormat sampleDelivery.texts.expiration =
        some (lib.fromUnixSeconds (civilSeconds 2017 11 1 20 0 1)) :=
      (parseTime_expiration lib sampleDelivery.expiration).trans (if_pos (by decide))
    have hobject : (withHttpClient { ramRoleName := "test".toList }).refresh lib sampleParser
        (.response HttpStatus.ok []) = (readFields sampleFields).map (update lib _) :=
      refresh_object rfl hjson
    rw [hread, Option.map_some, update, hparse] at hobject
    refine hobject.trans ?_
    simp only [store, hticks]
    rfl
  · obtain ⟨r, hr⟩ := h.harmless hjson fun r hr => by
      rw [hread] at hr
      cases hr
      decide
    exact absurd (hr.regular sampleDelivery hdelivered).hour (by decide)

example : (update library { ramRoleName := [] }
    ⟨[], [], [], "2017-11-01T13:20:01+08:00".toList⟩).expiration = 1509537601 * 10 ^ 9 := by
  decide

section Runs

theorem update_cases (lib : TimeLibrary) (p : StsCredentialsProviderImpl) (r : Texts) :
    p.update lib r = p ∨ ∃ t, lib.parseTime expirationDateTimeFormat r.expiration = some t ∧
      p.update lib r = p.store lib r t := by
  unfold update
  cases lib.parseTime expirationDateTimeFormat r.expiration with
  | none => exact .inl rfl
  | some t => exact .inr ⟨t, rfl, rfl⟩

theorem refresh_cases {outcome : HttpOutcome} {p' : StsCredentialsProviderImpl}
    (h : p.refresh lib json outcome = some p') :
    p' = p ∨ ∃ body fields r t, json body = some fields ∧ readFields fields = some r ∧
      lib.parseTime expirationDateTimeFormat r.expiration = some t ∧ p' = p.store lib r t := by
  unfold refresh at h
  split_ifs at h
  obtain ⟨code, body, hbody⟩ : ∃ code body, p.onResponse lib json code body = some p' := by
    cases outcome with
    | invalidClient => exact ⟨400, [], by simpa [HttpClientImpl.get] using h⟩
    | transportFailure => cases h
    | response status body => exact ⟨status, body, by simpa [HttpClientImpl.get] using h⟩
  unfold onResponse at hbody
  split_ifs at hbody
  · cases hjson : json body with
    | none =>
      rw [hjson] at hbody
      exact .inl (Option.some.inj hbody).symm
    | some fields =>
      rw [hjson] at hbody
      obtain ⟨r, hr, hupdate⟩ := Option.map_eq_some_iff.mp hbody
      rcases update_cases lib p r with hsame | ⟨t, ht, hstore⟩
      · exact .inl (hupdate.symm.trans hsame)
      · exact .inr ⟨body, fields, r, t, hjson, hr, ht, hupdate.symm.trans hstore⟩
  · exact .inl (Option.some.inj hbody).symm

structure Call where
  now : ℤ
  outcome : HttpOutcome

def machine (lib : TimeLibrary) (json : JsonParser) (p : StsCredentialsProviderImpl) :
    Machine StsCredentialsProviderImpl Call where
  init := p
  step := fun p e => (p.getCredentials lib json e.now e.outcome).map Obtained.provider

def OfOneObject (lib : TimeLibrary) (json : JsonParser) (p p' : StsCredentialsProviderImpl) :
    Prop :=
  p' = p ∨ ∃ body fields r t, json body = some fields ∧ readFields fields = some r ∧
    lib.parseTime expirationDateTimeFormat r.expiration = some t ∧ p' = p.store lib r t

theorem OfOneObject.step {q p' : StsCredentialsProviderImpl} {e : Call}
    (h : OfOneObject lib json p q) (hstep : (machine lib json p).step q e = some p') :
    OfOneObject lib json p p' := by
  obtain ⟨o, ho, rfl⟩ := Option.map_eq_some_iff.mp hstep
  unfold getCredentials at ho
  split_ifs at ho
  · obtain ⟨p', hp', rfl⟩ := Option.map_eq_some_iff.mp ho
    rcases refresh_cases hp' with rfl | ⟨body, fields, r, t, hjson, hr, ht, rfl⟩
    · exact h
    · refine .inr ⟨body, fields, r, t, hjson, hr, ht, ?_⟩
      -- what was stored before does not matter
      rcases h with rfl | ⟨body', fields', r', t', -, -, -, rfl⟩
      · rfl
      · rfl
  · rw [← Option.some.inj ho]
    exact h

theorem ofOneObject_of_run {p' : StsCredentialsProviderImpl} {es : List Call}
    (hrun : (machine lib json p).run es = some p') : OfOneObject lib json p p' :=
  (machine lib json p).run_invariant (.inl rfl) (fun _ _ _ h hstep => h.step hstep) hrun

end Runs

end StsCredentialsProviderImpl

end RocketMQClient
