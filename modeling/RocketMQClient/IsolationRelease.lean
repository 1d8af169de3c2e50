import RocketMQClient.EndpointHealth
import Mathlib.Algebra.GroupWithZero.Nat

/-! An endpoint that a client has isolated, but that is in no route any more, is not
isolated for ever. Nobody else talks to such an endpoint, so it need not have an RPC
client that could be found offline. It is the check itself that makes one: the first sweep
that checks the endpoint leaves an RPC client to it, and the next sweep finds that RPC
client offline and has the clients drop the endpoint. -/

namespace RocketMQClient.EndpointHealth
open EventMachine EventMachine.Machine

def Event.isolates (d : ℕ) (h : String) : Event → Bool
  | .isolateEndpoint i target => i == d && target == h
  | _ => false

/-- `h` is in no route of a live client, client `d` is active and does not isolate `h`
anew, and `h` is not asked as a name server. -/
@[mk_iff]
structure Abandoned (d : ℕ) (h : String) (s : State) (e : Event) : Prop where
  unused : ∀ c ∈ s.clients, c.alive = true → h ∉ c.serviceAddresses
  active : ∃ c ∈ s.clients[d]?, c.alive = true ∧ c.active = true
  notIsolated : e.isolates d h = false
  notNameServer : e.asksNameServer h = false

instance (d : ℕ) (h : String) : ∀ s e, Decidable (Abandoned d h s e) :=
  fun s e => decidable_of_iff _ (abandoned_iff d h s e).symm

def Event.sweeps : Event → ℕ
  | .doHealthCheck => 1
  | _ => 0

/-- How far the sweeps begun so far have got with an endpoint that `d` still isolates: the
first one makes an RPC client to it that needs heartbeats, the second finds that client
offline and takes the endpoint back. -/
def Pursued (d : ℕ) (h : String) (s : State) : ℕ → Prop
  | 0 => True
  | 1 =>
    match s.sweep with
    | .idle => s.rpcClients.Obtained h none
    | .collecting _ next => d < next → d ∈ s.held
    | .removing _ _ => d ∈ s.held
    | .checking todo => s.rpcClients.Obtained h none ∨ d ∈ todo
    | .sending i endpoints todo =>
      s.rpcClients.Obtained h none ∨ d ∈ todo ∨ i = d ∧ h ∈ endpoints
    | .marking i endpoint object endpoints todo =>
      s.rpcClients.Obtained h none ∨ d ∈ todo ∨
        i = d ∧ (h ∈ endpoints ∨ endpoint = h ∧ s.rpcClients.Obtained h (some object))
    | _ => True
  | 2 =>
    match s.sweep with
    | .scanning _ hosts => s.rpcClients.Obtained h none ∧ h ∉ hosts
    | .cleaning hosts => s.rpcClients.Obtained h none ∧ h ∉ hosts
    | .collecting removed next => h ∈ removed ∧ (d < next → d ∈ s.held)
    | .removing removed todo => h ∈ removed ∧ d ∈ todo
    | _ => False
  | _ => False

variable {d n : ℕ} {h : String} {s t : State} {e : Event}

theorem Pursued.cases (hp : Pursued d h s n) : n = 0 ∨ n = 1 ∨ n = 2 := by
  by_contra hn
  obtain ⟨k, rfl⟩ := Nat.exists_eq_add_of_le (show 3 ≤ n by omega)
  simp [Pursued, Nat.add_comm 3 k] at hp

theorem Change.isolates {c c' : Client} (hchange : Change s e d c c')
    (he : e.isolates d h = false) (hin : h ∈ c'.isolatedEndpoints) :
    h ∈ c.isolatedEndpoints := by
  cases hchange with
  | route topic ec route =>
    unfold Client.updateRouteCache at hin
    split at hin
    · exact hin
    · split at hin <;> exact hin
  | isolate target =>
    obtain htarget | hold := List.mem_insert_iff.mp hin
    · simp [Event.isolates, htarget] at he
    · exact hold
  | deactivate => exact hin
  | reset => exact hin
  | expire => exact hin
  | removal => exact (List.mem_filter.mp hin).1
  | answered =>
    unfold Client.onHealthCheckResponse at hin
    split at hin
    · exact hin
    · exact (List.mem_filter.mp hin).1

theorem isolates_of_step (hin : Isolates t d h) (hab : Abandoned d h s e)
    (hs : step s e = some t) : Isolates s d h := by
  obtain ⟨c, hc, -⟩ := hab.active
  have hlt : d < s.clients.length := (List.getElem?_eq_some_iff.mp hc).1
  obtain ⟨c', hc', hmem⟩ := hin
  cases step_clients hs with
  | same heq => exact ⟨c', heq ▸ hc', hmem⟩
  | added client _ heq =>
    rw [heq, List.getElem?_append_left hlt] at hc'
    exact ⟨c', hc', hmem⟩
  | changed i x x' hx hchange heq =>
    by_cases hi : i = d
    · subst hi
      rw [heq, List.getElem?_set_self hlt] at hc'
      cases hc'
      exact ⟨x, hx, hchange.isolates hab.notIsolated hmem⟩
    · rw [heq, List.getElem?_set_ne hi] at hc'
      exact ⟨c', hc', hmem⟩

theorem not_isolates_removed {removed : List String} (hmem : h ∈ removed)
    (heq : t.clients = s.clients.modify d fun c => c.onRemoteEndpointRemoval removed) :
    ¬ Isolates t d h := by
  intro hin
  obtain ⟨c, hc, hisolated⟩ := hin
  rw [heq, List.getElem?_modify] at hc
  cases hx : s.clients[d]? with
  | none => simp [hx] at hc
  | some x =>
    have hc' : x.onRemoteEndpointRemoval removed = c := by simpa [hx] using hc
    subst hc'
    simp [Client.onRemoteEndpointRemoval, hmem] at hisolated

theorem mem_held_collected (hab : Abandoned d h s e) {next : ℕ}
    (hnext : s.clients[next]? = none) (hheld : d < next → d ∈ s.held) : d ∈ s.held := by
  obtain ⟨c, hc, -⟩ := hab.active
  have hlt : d < s.clients.length := (List.getElem?_eq_some_iff.mp hc).1
  have hle := List.getElem?_eq_none_iff.mp hnext
  exact hheld (by omega)

theorem mem_held_collect (hab : Abandoned d h s e) {next : ℕ} {c : Client}
    (hnext : s.clients[next]? = some c) (hheld : d < next → d ∈ s.held) :
    d < next + 1 → d ∈ if c.alive && c.active then s.held ++ [next] else s.held := by
  intro hlt
  by_cases hd : d < next
  · have := hheld hd
    split <;> simp [this]
  · have hd : d = next := by omega
    subst hd
    obtain ⟨x, hx, halive, hactive⟩ := hab.active
    cases hx.symm.trans hnext
    simp [halive, hactive]

theorem Swept.pursued_first (hswept : Swept s t) (hab : Abandoned d h s e)
    (hin : Isolates s d h) (hp : Pursued d h s 1) : Pursued d h t 1 := by
  cases hswept with
  | scan hsweep hnext => trivial
  | scanned hsweep hnext => trivial
  | clean hsweep =>
    intro hlt
    exact absurd hlt (Nat.not_lt_zero d)
  | collect hsweep hnext =>
    simp only [Pursued, hsweep] at hp
    exact mem_held_collect hab hnext hp
  | collected hsweep hnext =>
    rename_i removed next
    simp only [Pursued, hsweep] at hp
    have hheld := mem_held_collected hab hnext hp
    by_cases hempty : removed.isEmpty = true
    · simpa [Pursued, hempty] using Or.inr hheld
    · simpa [Pursued, hempty] using hheld
  | remove hsweep =>
    simp only [Pursued, hsweep] at hp
    exact hp
  | removed hsweep =>
    simp only [Pursued, hsweep] at hp
    exact Or.inr hp
  | check hsweep hc =>
    simp only [Pursued, hsweep] at hp
    obtain hmade | hmem := hp
    · exact Or.inl hmade
    · obtain rfl | hlater := List.mem_cons.mp hmem
      · obtain ⟨x, hx, hisolated⟩ := hin
        cases hx.symm.trans hc
        exact Or.inr (Or.inr ⟨rfl, hisolated⟩)
      · exact Or.inr (Or.inl hlater)
  | checked hsweep =>
    simp only [Pursued, hsweep] at hp
    obtain hmade | hmem := hp
    · exact hmade
    · cases hmem
  | fault hsweep => trivial
  | send hsweep =>
    simp only [Pursued, hsweep] at hp
    obtain hmade | hlater | ⟨rfl, hmem⟩ := hp
    · exact Or.inl (hmade.getRpcClient fun _ => rfl)
    · exact Or.inr (Or.inl hlater)
    · refine Or.inr (Or.inr ⟨rfl, ?_⟩)
      obtain rfl | hmore := List.mem_cons.mp hmem
      · exact Or.inr ⟨rfl, RpcClients.obtained_getRpcClient _ _ _⟩
      · exact Or.inl hmore
  | sent hsweep =>
    simp only [Pursued, hsweep] at hp
    obtain hmade | hlater | ⟨-, hmem⟩ := hp
    · exact Or.inl hmade
    · exact Or.inr hlater
    · cases hmem
  | mark hsweep =>
    simp only [Pursued, hsweep] at hp
    obtain hmade | hlater | ⟨rfl, hmore | ⟨rfl, hobtained⟩⟩ := hp
    · exact Or.inl (hmade.setNeedHeartbeat _)
    · exact Or.inr (Or.inl hlater)
    · exact Or.inr (Or.inr ⟨rfl, hmore⟩)
    · exact Or.inl hobtained.marked

theorem Swept.pursued_second (hswept : Swept s t) (hab : Abandoned d h s e)
    (hin : Isolates t d h) (hp : Pursued d h s 2) : Pursued d h t 2 := by
  cases hswept with
  | scan hsweep hnext =>
    simp only [Pursued, hsweep] at hp
    refine ⟨hp.1, ?_⟩
    split
    case isTrue halive =>
      have hunused := hab.unused _ (List.mem_of_getElem? hnext) halive
      simp [Client.mem_endpointsInUse, hp.2, hunused]
    case isFalse => exact hp.2
  | scanned hsweep hnext =>
    simp only [Pursued, hsweep] at hp
    exact hp
  | clean hsweep =>
    simp only [Pursued, hsweep] at hp
    obtain ⟨⟨c, hc, hflag⟩, hout⟩ := hp
    refine ⟨RpcClients.mem_offline.mpr ⟨c, hc, by simpa using hflag, hout⟩, ?_⟩
    intro hlt
    exact absurd hlt (Nat.not_lt_zero d)
  | collect hsweep hnext =>
    simp only [Pursued, hsweep] at hp
    exact ⟨hp.1, mem_held_collect hab hnext hp.2⟩
  | collected hsweep hnext =>
    rename_i removed next
    simp only [Pursued, hsweep] at hp
    have hheld := mem_held_collected hab hnext hp.2
    have hsome : removed.isEmpty = false := by
      simpa using List.ne_nil_of_mem hp.1
    simpa [Pursued, hsome] using ⟨hp.1, hheld⟩
  | remove hsweep =>
    simp only [Pursued, hsweep] at hp
    obtain ⟨hmem, htodo⟩ := hp
    obtain rfl | hlater := List.mem_cons.mp htodo
    · exact absurd hin (not_isolates_removed hmem rfl)
    · exact ⟨hmem, hlater⟩
  | removed hsweep => simp [Pursued, hsweep] at hp
  | check hsweep _ => simp [Pursued, hsweep] at hp
  | checked hsweep => simp [Pursued, hsweep] at hp
  | fault hsweep => simp [Pursued, hsweep] at hp
  | send hsweep => simp [Pursued, hsweep] at hp
  | sent hsweep => simp [Pursued, hsweep] at hp
  | mark hsweep => simp [Pursued, hsweep] at hp

theorem Pursued.aside (hp : Pursued d h s n) (hsweep : t.sweep = s.sweep)
    (hheld : t.held = s.held)
    (hkept : ∀ object, s.rpcClients.Obtained h object → t.rpcClients.Obtained h object) :
    Pursued d h t n := by
  unfold Pursued at hp ⊢
  rw [hsweep, hheld]
  split at hp
  · trivial
  · split at hp
    · exact hkept none hp
    · exact hp
    · exact hp
    · exact hp.imp (hkept none) id
    · exact hp.imp (hkept none) id
    · refine hp.imp (hkept none) (Or.imp_right (And.imp_right (Or.imp_right ?_)))
      exact And.imp_right (hkept _)
    · trivial
  · split at hp
    · exact hp.imp_left (hkept none)
    · exact hp.imp_left (hkept none)
    · exact hp
    · exact hp
    · exact hp
  · exact hp

theorem pursued_step (hab : Abandoned d h s e) (hp : Isolates s d h → Pursued d h s n)
    (hs : step s e = some t) (hin : Isolates t d h) : Pursued d h t (n + e.sweeps) := by
  have hin' := isolates_of_step hin hab hs
  have hp := hp hin'
  cases step_paced hs with
  | sweep he hswept =>
    subst he
    obtain rfl | rfl | rfl := hp.cases
    · trivial
    · exact hswept.pursued_first hab hin' hp
    · exact hswept.pursued_second hab hin hp
  | start he hidle heq =>
    subst he heq
    obtain rfl | rfl | rfl := hp.cases
    · trivial
    · simp only [Pursued, hidle] at hp
      exact ⟨hp, List.not_mem_nil⟩
    · simp [Pursued, hidle] at hp
  | aside he hsweep hheld htouched =>
    have hzero : e.sweeps = 0 := by
      cases e with
      | doHealthCheck => exact absurd rfl he
      | _ => rfl
    rw [hzero]
    exact hp.aside hsweep hheld fun object => htouched.obtained hab.notNameServer

theorem pursued_run {es : List Event} (hp : Isolates s d h → Pursued d h s n)
    (hab : machine.Guarded (Abandoned d h) s es) (hrun : machine.runFrom s es = some t)
    (hin : Isolates t d h) : Pursued d h t (n + (es.map Event.sweeps).sum) := by
  induction es generalizing s n with
  | nil =>
    simp only [runFrom, Option.some.injEq] at hrun
    subst hrun
    exact hp hin
  | cons e es ih =>
    simp only [runFrom] at hrun
    obtain ⟨u, hu, hrest⟩ := Option.bind_eq_some_iff.mp hrun
    obtain ⟨hok, hab⟩ := hab u hu
    rw [List.map_cons, List.sum_cons, ← Nat.add_assoc]
    exact ih (pursued_step hok hp hu) hab hrest

theorem abandoned_endpoint_released (d : ℕ) (h : String) {s t : State} {es : List Event}
    (hrun : machine.runFrom s es = some t) (hab : machine.Guarded (Abandoned d h) s es)
    (hsweeps : 2 ≤ (es.map Event.sweeps).sum) (hidle : t.sweep = .idle) :
    ¬ Isolates t d h := by
  intro hin
  have hp := pursued_run (n := 0) (fun _ => trivial) hab hrun hin
  have htwo : 0 + (es.map Event.sweeps).sum = 2 := by
    have hle := hp.cases
    omega
  rw [htwo] at hp
  simp [Pursued, hidle] at hp

def twoSweeps : List Event :=
  .doHealthCheck :: List.replicate 10 .sweep ++ .doHealthCheck :: List.replicate 10 .sweep

theorem lone_endpoint_released : ∃ t,
    machine.runFrom { clients := [{ isolatedEndpoints := ["b:1"] }] } twoSweeps = some t ∧
      ¬ Isolates t 0 "b:1" := by
  have hidle : (machine.runFrom { clients := [{ isolatedEndpoints := ["b:1"] }] } twoSweeps).map
      State.sweep = some .idle := by decide
  obtain ⟨t, ht, hsweep⟩ := Option.map_eq_some_iff.mp hidle
  exact ⟨t, ht, abandoned_endpoint_released 0 "b:1" ht (by decide) (by decide) hsweep⟩

end RocketMQClient.EndpointHealth
