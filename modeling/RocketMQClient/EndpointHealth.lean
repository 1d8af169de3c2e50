import RocketMQClient.RpcClients
import RocketMQClient.RpcAnswers
import RocketMQClient.RouteLookup

/-!
# Isolated endpoints and the periodic health check

The client manager keeps one RPC client for each host and, by weak pointers, the clients
that share it. A client keeps the routes of its topics and the endpoints it has isolated.
Every few seconds `doHealthCheck` erases the RPC clients whose host is in no route any
more, tells the active clients which hosts went, and has each of them check the endpoints
it has isolated.

The sweep is one thread, and it is interrupted between its locks: the routes are read
client by client before the table is cleaned, and the clients are told one by one after
that. The manager is taken to be started.
-/

namespace RocketMQClient.EndpointHealth
open EventMachine EventMachine.Machine Pending RpcAnswers
open RouteLookup (TopicRouteData RouteTable)

structure Client where
  alive : Bool := true
  active : Bool := true
  clientManager : Bool := true
  topicRouteTable : AList fun _ : String => TopicRouteData := ∅
  isolatedEndpoints : List String := []

namespace Client

def updateRouteCache (c : Client) (topic : String) (ec : Option ErrorCode)
    (route : Option TopicRouteData) : Client :=
  match route with
  | none => c
  | some r =>
    if RouteTable.replaces (fun t => c.topicRouteTable.lookup t) topic ec route then
      { c with topicRouteTable := c.topicRouteTable.insert topic r }
    else c

def serviceAddresses (c : Client) : List String :=
  c.topicRouteTable.entries.flatMap fun e => e.2.map fun p => p.asMessageQueue.serviceAddress

def endpointsInUse (c : Client) (endpoints : List String) : List String :=
  c.serviceAddresses.foldl
    (fun found e => if !found.contains e then found ++ [e] else found) endpoints

def isolateEndpoint (c : Client) (target : String) : Client :=
  { c with isolatedEndpoints := c.isolatedEndpoints.insert target }

def onRemoteEndpointRemoval (c : Client) (hosts : List String) : Client :=
  { c with isolatedEndpoints := c.isolatedEndpoints.filter fun e => !hosts.contains e }

def onHealthCheckResponse (c : Client) (ec : Option ErrorCode) (remoteAddress : String) : Client :=
  if ec.isSome then c
  else { c with isolatedEndpoints := c.isolatedEndpoints.filter fun e => e ≠ remoteAddress }

end Client

inductive Sweep
  | idle
  | scanning (next : ℕ) (hosts : List String)
  | cleaning (hosts : List String)
  | collecting (removed : List String) (next : ℕ)
  | removing (removed : List String) (todo : List ℕ)
  | checking (todo : List ℕ)
  | sending (client : ℕ) (endpoints : List String) (todo : List ℕ)
  | marking (client : ℕ) (endpoint : String) (object : ℕ) (endpoints : List String)
      (todo : List ℕ)
  | faulted
  deriving DecidableEq, Repr

/-- `held` are the clients to which the sweep has shared pointers, `marks` the calls of
`getRpcClient` by other threads that are yet to set the flag, and `checks` the health
checks in flight, each with the client that sent it. -/
structure State where
  rpcClients : RpcClients := {}
  clients : List Client := []
  sweep : Sweep := .idle
  held : List ℕ := []
  marks : List (String × ℕ) := []
  checks : List (ℕ × String) := []

inductive Event
  | addClientObserver (client : Client)
  | updateRouteCache (client : ℕ) (topic : String) (ec : Option ErrorCode)
      (route : Option TopicRouteData)
  | isolateEndpoint (client : ℕ) (target : String)
  | deactivate (client : ℕ)
  | resetClientManager (client : ℕ)
  | expire (client : ℕ)
  | getRpcClient (targetHost : String) (needHeartbeat : Bool)
  | setNeedHeartbeat (i : ℕ)
  | shutDownChannel (host : String)
  | doHealthCheck
  | sweep
  | healthCheckCompleted (i : ℕ) (ctx : InvocationContext Unit)

namespace State

-- nobody calls a client whose last reference is gone
def withClient (s : State) (i : ℕ) (f : Client → Client) : Option State :=
  match s.clients[i]? with
  | some c => if c.alive then some { s with clients := s.clients.set i (f c) } else none
  | none => none

def clientsLocked (s : State) : Bool :=
  match s.sweep with
  | .scanning _ _ => true
  | .collecting _ _ => true
  | _ => false

def sweepStep (s : State) : Option State :=
  match s.sweep with
  | .idle => none
  | .scanning next hosts =>
    match s.clients[next]? with
    | some c =>
      let hosts := if c.alive then c.endpointsInUse hosts else hosts
      some { s with sweep := .scanning (next + 1) hosts }
    | none => some { s with sweep := .cleaning hosts }
  | .cleaning hosts =>
    let removed := s.rpcClients.offline hosts
    some { s with rpcClients := s.rpcClients.eraseAll removed, sweep := .collecting removed 0 }
  | .collecting removed next =>
    match s.clients[next]? with
    | some c =>
      let held := if c.alive && c.active then s.held ++ [next] else s.held
      some { s with held := held, sweep := .collecting removed (next + 1) }
    | none =>
      let sweep := if !removed.isEmpty then .removing removed s.held else .checking s.held
      some { s with sweep := sweep }
  | .removing removed (i :: todo) =>
    some { s with clients := s.clients.modify i fun c => c.onRemoteEndpointRemoval removed
                  sweep := .removing removed todo }
  | .removing _ [] => some { s with sweep := .checking s.held }
  | .checking (i :: todo) =>
    (s.clients[i]?).map fun c => { s with sweep := .sending i c.isolatedEndpoints todo }
  | .checking [] => some { s with held := [], sweep := .idle }
  | .sending i (endpoint :: endpoints) todo =>
    (s.clients[i]?).map fun c =>
      -- `client_manager_->healthCheck` after the client has reset the pointer
      if !c.clientManager then { s with sweep := .faulted }
      else
        let r := s.rpcClients.getRpcClient endpoint true
        { s with rpcClients := r.1, sweep := .marking i endpoint r.2 endpoints todo }
  | .sending _ [] todo => some { s with sweep := .checking todo }
  | .marking i endpoint object endpoints todo =>
    some { s with rpcClients := s.rpcClients.setNeedHeartbeat endpoint object
                  checks := s.checks ++ [(i, endpoint)]
                  sweep := .sending i endpoints todo }
  | .faulted => none

def answerCheck (s : State) (i : ℕ) (answer : Option ErrorCode × String) : State :=
  (s.withClient i fun c => c.onHealthCheckResponse answer.1 answer.2).getD s

end State

def step (s : State) : Event → Option State
  | .addClientObserver client =>
    if s.clientsLocked then none else some { s with clients := s.clients ++ [client] }
  | .updateRouteCache i topic ec route => s.withClient i fun c => c.updateRouteCache topic ec route
  | .isolateEndpoint i target => s.withClient i fun c => c.isolateEndpoint target
  | .deactivate i => s.withClient i fun c => { c with active := false }
  | .resetClientManager i => s.withClient i fun c => { c with clientManager := false }
  | .expire i =>
    if i ∈ s.held then none else s.withClient i fun c => { c with alive := false }
  | .getRpcClient targetHost needHeartbeat =>
    let r := s.rpcClients.getRpcClient targetHost needHeartbeat
    some { s with rpcClients := r.1
                  marks := if needHeartbeat then s.marks ++ [(targetHost, r.2)] else s.marks }
  | .setNeedHeartbeat i =>
    (pick s.marks i).map fun p =>
      { s with rpcClients := s.rpcClients.setNeedHeartbeat p.1.1 p.1.2, marks := p.2 }
  | .shutDownChannel host => some { s with rpcClients := s.rpcClients.shutDownChannel host }
  | .doHealthCheck =>
    if s.sweep = .idle then some { s with sweep := .scanning 0 [] } else none
  | .sweep => s.sweepStep
  | .healthCheckCompleted i ctx =>
    (pick s.checks i).map fun p =>
      let answers := healthCheck { ctx with remoteAddress := p.1.2 }
      (answers.map fun a => (a.1, a.2.remoteAddress)).foldl
        (fun t a => t.answerCheck p.1.1 a) { s with checks := p.2 }

def machine : Machine State Event where
  init := {}
  step := step

theorem Client.mem_endpointsInUse {c : Client} {endpoints : List String} {h : String} :
    h ∈ c.endpointsInUse endpoints ↔ h ∈ endpoints ∨ h ∈ c.serviceAddresses := by
  unfold endpointsInUse
  induction c.serviceAddresses generalizing endpoints with
  | nil => simp
  | cons e es ih =>
    rw [List.foldl_cons, ih]
    by_cases he : e ∈ endpoints
    · by_cases hh : h = e
      · simp [hh, he]
      · simp [hh, he]
    · simp [he, or_assoc]

def checkError (ctx : InvocationContext Unit) : Option ErrorCode :=
  if ctx.status ≠ .ok then some .requestTimeout else errorCode healthCheckError ctx.code

def Passed (ctx : InvocationContext Unit) : Prop := ctx.status = .ok ∧ ctx.code = Code.ok.toInt

instance (ctx : InvocationContext Unit) : Decidable (Passed ctx) :=
  inferInstanceAs (Decidable (_ ∧ _))

theorem checkError_eq_none_iff {ctx : InvocationContext Unit} :
    checkError ctx = none ↔ Passed ctx := by
  unfold checkError Passed
  by_cases hstatus : ctx.status = .ok
  · simp [hstatus, errorCode_eq_none_iff, Code.toInt]
  · simp [hstatus]

theorem healthCheckCompleted_eq (s : State) (k : ℕ) (ctx : InvocationContext Unit) :
    step s (.healthCheckCompleted k ctx) = (pick s.checks k).map fun p =>
      ({ s with checks := p.2 } : State).answerCheck p.1.1 (checkError ctx, p.1.2) := by
  by_cases hstatus : ctx.status = .ok
  · simp [step, healthCheck, answer, checkError, hstatus]
  · simp [step, healthCheck, answer, checkError, hstatus]

inductive Change (s : State) : Event → ℕ → Client → Client → Prop
  | route {i : ℕ} {c : Client} (topic : String) (ec : Option ErrorCode)
      (route : Option TopicRouteData) :
      Change s (.updateRouteCache i topic ec route) i c (c.updateRouteCache topic ec route)
  | isolate {i : ℕ} {c : Client} (target : String) :
      Change s (.isolateEndpoint i target) i c (c.isolateEndpoint target)
  | deactivate {i : ℕ} {c : Client} : Change s (.deactivate i) i c { c with active := false }
  | reset {i : ℕ} {c : Client} :
      Change s (.resetClientManager i) i c { c with clientManager := false }
  | expire {i : ℕ} {c : Client} : Change s (.expire i) i c { c with alive := false }
  | removal {i : ℕ} {c : Client} {removed : List String} {todo : List ℕ}
      (h : s.sweep = .removing removed (i :: todo)) :
      Change s .sweep i c (c.onRemoteEndpointRemoval removed)
  | answered {i k : ℕ} {c : Client} {host : String} {rest : List (ℕ × String)}
      {ctx : InvocationContext Unit} (h : pick s.checks k = some ((i, host), rest)) :
      Change s (.healthCheckCompleted k ctx) i c (c.onHealthCheckResponse (checkError ctx) host)

theorem withClient_eq_some {s t : State} {i : ℕ} {f : Client → Client}
    (h : s.withClient i f = some t) : ∃ c, s.clients[i]? = some c ∧ c.alive = true ∧
      t = { s with clients := s.clients.set i (f c) } := by
  unfold State.withClient at h
  cases hc : s.clients[i]? with
  | none => simp [hc] at h
  | some c =>
    by_cases halive : c.alive = true
    · simp only [hc, halive, if_true, Option.some.injEq] at h
      exact ⟨c, rfl, halive, h.symm⟩
    · simp [hc, halive] at h

inductive Clients (s : State) (e : Event) (after : List Client) : Prop
  | same (h : after = s.clients)
  | added (client : Client) (he : e = .addClientObserver client)
      (h : after = s.clients ++ [client])
  | changed (i : ℕ) (c c' : Client) (hc : s.clients[i]? = some c) (hchange : Change s e i c c')
      (h : after = s.clients.set i c')

theorem Clients.of_withClient {s t : State} {e : Event} {i : ℕ} {f : Client → Client}
    (h : s.withClient i f = some t) (hchange : ∀ c, Change s e i c (f c)) :
    Clients s e t.clients := by
  obtain ⟨c, hc, -, rfl⟩ := withClient_eq_some h
  exact .changed i c (f c) hc (hchange c) rfl

theorem Clients.of_answerCheck (s : State) {k i : ℕ} {host : String}
    {rest : List (ℕ × String)} {ctx : InvocationContext Unit}
    (h : pick s.checks k = some ((i, host), rest)) :
    Clients s (.healthCheckCompleted k ctx)
      (({ s with checks := rest } : State).answerCheck i (checkError ctx, host)).clients := by
  unfold State.answerCheck
  cases hw : ({ s with checks := rest } : State).withClient i
      fun c => c.onHealthCheckResponse (checkError ctx) host with
  | none => exact .same rfl
  | some t =>
    obtain ⟨c, hc, -, rfl⟩ := withClient_eq_some hw
    exact .changed i c _ hc (.answered h) rfl

theorem Clients.of_modify (s : State) {removed : List String} {i : ℕ} {todo : List ℕ}
    (h : s.sweep = .removing removed (i :: todo)) :
    Clients s .sweep (s.clients.modify i fun c => c.onRemoteEndpointRemoval removed) := by
  cases hc : s.clients[i]? with
  | none =>
    refine .same (List.ext_getElem? fun j => ?_)
    rw [List.getElem?_modify]
    by_cases hj : i = j
    · subst hj
      simp [hc]
    · simp [hj]
  | some c =>
    refine .changed i c _ hc (.removal h) (List.ext_getElem? fun j => ?_)
    rw [List.getElem?_modify, List.getElem?_set]
    by_cases hj : i = j
    · subst hj
      have hlt : i < s.clients.length := (List.getElem?_eq_some_iff.mp hc).1
      rw [hc]
      simp [hlt]
    · simp [hj]

inductive Swept (s : State) : State → Prop
  | scan {next : ℕ} {hosts : List String} {c : Client} (h : s.sweep = .scanning next hosts)
      (hc : s.clients[next]? = some c) :
      Swept s { s with
        sweep := .scanning (next + 1) (if c.alive then c.endpointsInUse hosts else hosts) }
  | scanned {next : ℕ} {hosts : List String} (h : s.sweep = .scanning next hosts)
      (hc : s.clients[next]? = none) : Swept s { s with sweep := .cleaning hosts }
  | clean {hosts : List String} (h : s.sweep = .cleaning hosts) :
      Swept s { s with rpcClients := s.rpcClients.eraseAll (s.rpcClients.offline hosts)
                       sweep := .collecting (s.rpcClients.offline hosts) 0 }
  | collect {removed : List String} {next : ℕ} {c : Client}
      (h : s.sweep = .collecting removed next) (hc : s.clients[next]? = some c) :
      Swept s { s with held := if c.alive && c.active then s.held ++ [next] else s.held
                       sweep := .collecting removed (next + 1) }
  | collected {removed : List String} {next : ℕ} (h : s.sweep = .collecting removed next)
      (hc : s.clients[next]? = none) :
      Swept s { s with
        sweep := if !removed.isEmpty then .removing removed s.held else .checking s.held }
  | remove {removed : List String} {i : ℕ} {todo : List ℕ}
      (h : s.sweep = .removing removed (i :: todo)) :
      Swept s { s with clients := s.clients.modify i fun c => c.onRemoteEndpointRemoval removed
                       sweep := .removing removed todo }
  | removed {removed : List String} (h : s.sweep = .removing removed []) :
      Swept s { s with sweep := .checking s.held }
  | check {i : ℕ} {todo : List ℕ} {c : Client} (h : s.sweep = .checking (i :: todo))
      (hc : s.clients[i]? = some c) :
      Swept s { s with sweep := .sending i c.isolatedEndpoints todo }
  | checked (h : s.sweep = .checking []) : Swept s { s with held := [], sweep := .idle }
  | fault {i : ℕ} {endpoint : String} {endpoints : List String} {todo : List ℕ}
      (h : s.sweep = .sending i (endpoint :: endpoints) todo) :
      Swept s { s with sweep := .faulted }
  | send {i : ℕ} {endpoint : String} {endpoints : List String} {todo : List ℕ}
      (h : s.sweep = .sending i (endpoint :: endpoints) todo) :
      Swept s { s with
        rpcClients := (s.rpcClients.getRpcClient endpoint true).1
        sweep := .marking i endpoint (s.rpcClients.getRpcClient endpoint true).2 endpoints todo }
  | sent {i : ℕ} {todo : List ℕ} (h : s.sweep = .sending i [] todo) :
      Swept s { s with sweep := .checking todo }
  | mark {i : ℕ} {endpoint : String} {object : ℕ} {endpoints : List String} {todo : List ℕ}
      (h : s.sweep = .marking i endpoint object endpoints todo) :
      Swept s { s with rpcClients := s.rpcClients.setNeedHeartbeat endpoint object
                       checks := s.checks ++ [(i, endpoint)]
                       sweep := .sending i endpoints todo }

theorem swept_of_sweepStep {s t : State} (h : s.sweepStep = some t) : Swept s t := by
  unfold State.sweepStep at h
  split at h
  case h_1 => cases h
  case h_2 next hosts hsweep =>
    split at h
    · cases h
      exact .scan hsweep ‹_›
    · cases h
      exact .scanned hsweep ‹_›
  case h_3 hosts hsweep =>
    cases h
    exact .clean hsweep
  case h_4 removed next hsweep =>
    split at h
    · cases h
      exact .collect hsweep ‹_›
    · cases h
      exact .collected hsweep ‹_›
  case h_5 removed i todo hsweep =>
    cases h
    exact .remove hsweep
  case h_6 removed hsweep =>
    cases h
    exact .removed hsweep
  case h_7 i todo hsweep =>
    obtain ⟨c, hc, rfl⟩ := Option.map_eq_some_iff.mp h
    exact .check hsweep hc
  case h_8 hsweep =>
    cases h
    exact .checked hsweep
  case h_9 i endpoint endpoints todo hsweep =>
    obtain ⟨c, -, ht⟩ := Option.map_eq_some_iff.mp h
    split at ht
    · cases ht
      exact .fault hsweep
    · cases ht
      exact .send hsweep
  case h_10 i todo hsweep =>
    cases h
    exact .sent hsweep
  case h_11 i endpoint object endpoints todo hsweep =>
    cases h
    exact .mark hsweep
  case h_12 => cases h

theorem step_clients {s t : State} {e : Event} (h : step s e = some t) :
    Clients s e t.clients := by
  cases e with
  | addClientObserver client =>
    simp only [step] at h
    split at h
    · cases h
    · cases h
      exact .added client rfl rfl
  | updateRouteCache i topic ec route => exact .of_withClient h fun c => .route topic ec route
  | isolateEndpoint i target => exact .of_withClient h fun c => .isolate target
  | deactivate i => exact .of_withClient h fun c => .deactivate
  | resetClientManager i => exact .of_withClient h fun c => .reset
  | expire i =>
    simp only [step] at h
    split at h
    · cases h
    · exact .of_withClient h fun c => .expire
  | getRpcClient targetHost needHeartbeat =>
    cases h
    exact .same rfl
  | setNeedHeartbeat k =>
    obtain ⟨p, -, rfl⟩ := Option.map_eq_some_iff.mp h
    exact .same rfl
  | shutDownChannel host =>
    cases h
    exact .same rfl
  | doHealthCheck =>
    simp only [step] at h
    split at h
    · cases h
      exact .same rfl
    · cases h
  | healthCheckCompleted k ctx =>
    rw [healthCheckCompleted_eq] at h
    obtain ⟨⟨⟨i, host⟩, rest⟩, hpick, rfl⟩ := Option.map_eq_some_iff.mp h
    exact .of_answerCheck s hpick
  | sweep =>
    have hswept := swept_of_sweepStep h
    cases hswept with
    | remove hsweep => exact .of_modify s hsweep
    | _ => exact .same rfl

-- `resolveRoute` alone obtains its RPC client without asking for heartbeats
def Event.asksNameServer (h : String) : Event → Bool
  | .getRpcClient host needHeartbeat => host == h && !needHeartbeat
  | _ => false

inductive Touched (r : RpcClients) : Event → RpcClients → Prop
  | same {e : Event} : Touched r e r
  | get (host : String) (b : Bool) :
      Touched r (.getRpcClient host b) (r.getRpcClient host b).1
  | mark {e : Event} (host : String) (object : ℕ) : Touched r e (r.setNeedHeartbeat host object)
  | shutDown {e : Event} (host : String) : Touched r e (r.shutDownChannel host)

theorem Touched.keeps {r r' : RpcClients} {e : Event} (ht : Touched r e r') (h : String) :
    r.Keeps r' h := by
  cases ht with
  | same => exact .refl r h
  | get host b => exact .getRpcClient r host h b
  | mark host object => exact .setNeedHeartbeat r host h object
  | shutDown host => exact .shutDownChannel r host h

theorem Touched.obtained {r r' : RpcClients} {e : Event} {h : String} {object : Option ℕ}
    (ht : Touched r e r') (he : e.asksNameServer h = false) (hr : r.Obtained h object) :
    r'.Obtained h object := by
  cases ht with
  | same => exact hr
  | get host b =>
    refine hr.getRpcClient fun hhost => ?_
    simpa [Event.asksNameServer, hhost] using he
  | mark host o => exact hr.setNeedHeartbeat o
  | shutDown host => exact hr.shutDownChannel

inductive Paced (s : State) (e : Event) (t : State) : Prop
  | sweep (he : e = .sweep) (h : Swept s t)
  | start (he : e = .doHealthCheck) (hidle : s.sweep = .idle)
      (h : t = { s with sweep := .scanning 0 [] })
  | aside (he : e ≠ .doHealthCheck) (hsweep : t.sweep = s.sweep) (hheld : t.held = s.held)
      (htouched : Touched s.rpcClients e t.rpcClients)

theorem Paced.of_withClient {s t : State} {e : Event} {i : ℕ} {f : Client → Client}
    (he : e ≠ .doHealthCheck) (h : s.withClient i f = some t) : Paced s e t := by
  obtain ⟨c, -, -, rfl⟩ := withClient_eq_some h
  exact .aside he rfl rfl .same

theorem step_paced {s t : State} {e : Event} (h : step s e = some t) : Paced s e t := by
  cases e with
  | addClientObserver client =>
    simp only [step] at h
    split at h
    · cases h
    · cases h
      exact .aside (by simp) rfl rfl .same
  | updateRouteCache i topic ec route => exact .of_withClient (by simp) h
  | isolateEndpoint i target => exact .of_withClient (by simp) h
  | deactivate i => exact .of_withClient (by simp) h
  | resetClientManager i => exact .of_withClient (by simp) h
  | expire i =>
    simp only [step] at h
    split at h
    · cases h
    · exact .of_withClient (by simp) h
  | getRpcClient targetHost needHeartbeat =>
    cases h
    exact .aside (by simp) rfl rfl (.get targetHost needHeartbeat)
  | setNeedHeartbeat k =>
    obtain ⟨p, -, rfl⟩ := Option.map_eq_some_iff.mp h
    exact .aside (by simp) rfl rfl (.mark p.1.1 p.1.2)
  | shutDownChannel host =>
    cases h
    exact .aside (by simp) rfl rfl (.shutDown host)
  | doHealthCheck =>
    simp only [step] at h
    split at h
    · cases h
      exact .start rfl ‹_› rfl
    · cases h
  | sweep => exact .sweep rfl (swept_of_sweepStep h)
  | healthCheckCompleted k ctx =>
    rw [healthCheckCompleted_eq] at h
    obtain ⟨p, -, rfl⟩ := Option.map_eq_some_iff.mp h
    unfold State.answerCheck
    cases hw : ({ s with checks := p.2 } : State).withClient p.1.1
        fun c => c.onHealthCheckResponse (checkError ctx, p.1.2).1 (checkError ctx, p.1.2).2 with
    | none => exact .aside (by simp) rfl rfl .same
    | some t =>
      obtain ⟨c, -, -, rfl⟩ := withClient_eq_some hw
      exact .aside (by simp) rfl rfl .same

def Isolates (s : State) (d : ℕ) (h : String) : Prop :=
  ∃ c, s.clients[d]? = some c ∧ h ∈ c.isolatedEndpoints

inductive Released (s : State) (d : ℕ) (h : String) : Event → Prop
  | passed {k : ℕ} {rest : List (ℕ × String)} {ctx : InvocationContext Unit}
      (hpick : pick s.checks k = some ((d, h), rest)) (hpassed : Passed ctx) :
      Released s d h (.healthCheckCompleted k ctx)
  | offline {removed : List String} {todo : List ℕ}
      (hsweep : s.sweep = .removing removed (d :: todo)) (hmem : h ∈ removed) :
      Released s d h .sweep

theorem Change.released {s : State} {e : Event} {d : ℕ} {c c' : Client} {h : String}
    (hchange : Change s e d c c') (hin : h ∈ c.isolatedEndpoints)
    (hout : h ∉ c'.isolatedEndpoints) : Released s d h e := by
  cases hchange with
  | route topic ec route =>
    refine absurd ?_ hout
    unfold Client.updateRouteCache
    split
    · exact hin
    · split <;> exact hin
  | isolate target => exact absurd (List.mem_insert_of_mem hin) hout
  | deactivate => exact absurd hin hout
  | reset => exact absurd hin hout
  | expire => exact absurd hin hout
  | removal hsweep =>
    refine .offline hsweep ?_
    simpa [Client.onRemoteEndpointRemoval, hin] using hout
  | answered hpick =>
    rename_i host rest ctx
    by_cases hec : (checkError ctx).isSome = true
    · rw [Client.onHealthCheckResponse, if_pos hec] at hout
      exact absurd hin hout
    · rw [Client.onHealthCheckResponse, if_neg hec] at hout
      have hhost : h = host := by simpa [hin] using hout
      subst hhost
      exact .passed hpick (checkError_eq_none_iff.mp (by simpa using hec))

theorem Isolates.next {s t : State} {e : Event} {d : ℕ} {h : String} (hin : Isolates s d h)
    (hs : step s e = some t) : Isolates t d h ∨ Released s d h e := by
  obtain ⟨c, hc, hmem⟩ := hin
  have hlt : d < s.clients.length := (List.getElem?_eq_some_iff.mp hc).1
  cases step_clients hs with
  | same heq => exact Or.inl ⟨c, heq ▸ hc, hmem⟩
  | added client he heq =>
    left
    exact ⟨c, by rw [heq, List.getElem?_append_left hlt, hc], hmem⟩
  | changed i x x' hx hchange heq =>
    by_cases hi : i = d
    · subst hi
      cases hc.symm.trans hx
      by_cases hmem' : h ∈ x'.isolatedEndpoints
      · left
        exact ⟨x', by rw [heq, List.getElem?_set_self hlt], hmem'⟩
      · exact Or.inr (hchange.released hmem hmem')
    · left
      exact ⟨c, by rw [heq, List.getElem?_set_ne hi, hc], hmem⟩

section InUse

def UsedBy (i : ℕ) (h : String) (s : State) : Prop :=
  ∃ c ∈ s.clients[i]?, c.alive = true ∧ h ∈ c.serviceAddresses

instance (i : ℕ) (h : String) (s : State) : Decidable (UsedBy i h s) :=
  inferInstanceAs (Decidable (∃ c ∈ s.clients[i]?, _ ∧ _))

def Sweep.Spares (i : ℕ) (h : String) : Sweep → Prop
  | .scanning next hosts => i < next → h ∈ hosts
  | .cleaning hosts => h ∈ hosts
  | .collecting removed _ => h ∉ removed
  | .removing removed _ => h ∉ removed
  | _ => True

variable {i : ℕ} {h : String} {s t : State} {e : Event}

theorem Swept.spares (hswept : Swept s t) (huse : UsedBy i h s) (hs : s.sweep.Spares i h) :
    t.sweep.Spares i h := by
  obtain ⟨c, hc, halive, hmem⟩ := huse
  cases hswept with
  | scan hsweep hnext =>
    rename_i next hosts x
    rw [hsweep] at hs
    intro hlt
    by_cases hi : i < next
    · split
      · exact Client.mem_endpointsInUse.mpr (Or.inl (hs hi))
      · exact hs hi
    · have hi : i = next := by omega
      subst hi
      cases hc.symm.trans hnext
      rw [if_pos halive]
      exact Client.mem_endpointsInUse.mpr (Or.inr hmem)
  | scanned hsweep hnext =>
    rw [hsweep] at hs
    have hlt : i < s.clients.length := (List.getElem?_eq_some_iff.mp hc).1
    have hle := List.getElem?_eq_none_iff.mp hnext
    exact hs (by omega)
  | clean hsweep =>
    rw [hsweep] at hs
    intro hoff
    obtain ⟨-, -, -, hnot⟩ := RpcClients.mem_offline.mp hoff
    exact hnot hs
  | collect hsweep _ =>
    rw [hsweep] at hs
    exact hs
  | collected hsweep _ =>
    rw [hsweep] at hs
    show Sweep.Spares i h (if _ then _ else _)
    split
    · exact hs
    · trivial
  | remove hsweep =>
    rw [hsweep] at hs
    exact hs
  | _ => trivial

theorem Swept.keeps (hswept : Swept s t) (hs : s.sweep.Spares i h) :
    s.rpcClients.Keeps t.rpcClients h := by
  cases hswept with
  | clean hsweep =>
    rw [hsweep] at hs
    intro c hc
    refine ⟨c, ?_, fun _ => rfl⟩
    rw [RpcClients.lookup_eraseAll, if_neg, hc]
    intro hoff
    obtain ⟨-, -, -, hnot⟩ := RpcClients.mem_offline.mp hoff
    exact hnot hs
  | send hsweep => exact .getRpcClient _ _ _ _
  | mark hsweep => exact .setNeedHeartbeat _ _ _ _
  | _ => exact .refl _ _

/-- Nothing but a passed check of its own ends a client's isolation of `h`, and the RPC
client to `h` is kept. -/
structure Kept (h : String) (s : State) (e : Event) (t : State) : Prop where
  isolated : ∀ d, Isolates s d h → Isolates t d h ∨ ∃ k rest ctx,
    e = .healthCheckCompleted k ctx ∧ pick s.checks k = some ((d, h), rest) ∧ Passed ctx
  rpcClient : s.rpcClients.Keeps t.rpcClients h

theorem kept_of_spares (hs : s.sweep.Spares i h) (hstep : step s e = some t) : Kept h s e t := by
  constructor
  · intro d hin
    obtain hstays | hout := hin.next hstep
    · exact Or.inl hstays
    · cases hout with
      | passed hpick hpassed => exact Or.inr ⟨_, _, _, rfl, hpick, hpassed⟩
      | offline hsweep hmem =>
        rw [hsweep] at hs
        exact absurd hmem hs
  · cases step_paced hstep with
    | sweep _ hswept => exact hswept.keeps hs
    | start _ _ heq =>
      subst heq
      exact .refl _ _
    | aside _ _ _ htouched => exact htouched.keeps h

theorem spares_step (huse : UsedBy i h s) (hs : s.sweep.Spares i h)
    (hstep : step s e = some t) : t.sweep.Spares i h := by
  cases step_paced hstep with
  | sweep _ hswept => exact hswept.spares huse hs
  | start _ _ heq =>
    subst heq
    intro hlt
    exact absurd hlt (Nat.not_lt_zero i)
  | aside _ hsweep _ _ =>
    rw [hsweep]
    exact hs

theorem endpoint_in_use_kept (i : ℕ) (h : String) {s : State} (hidle : s.sweep = .idle)
    {es : List Event} (huse : machine.Guarded (fun u _ => UsedBy i h u) s es) :
    machine.Guarded (fun u e => ∀ v, step u e = some v → Kept h u e v) s es := by
  have hspares : s.sweep.Spares i h := by
    rw [hidle]
    trivial
  clear hidle
  induction es generalizing s with
  | nil => trivial
  | cons e es ih =>
    intro t ht
    obtain ⟨hused, hrest⟩ := huse t ht
    refine ⟨fun v hv => kept_of_spares hspares hv, ?_⟩
    exact ih hrest (spares_step hused hspares ht)

def routedClient : Client :=
  { topicRouteTable := AList.singleton "t" [{ topic := "t", serviceAddress := "b:1" }]
    isolatedEndpoints := ["b:1"] }

theorem routed_endpoint_kept :
    machine.Guarded (fun u e => ∀ v, step u e = some v → Kept "b:1" u e v)
      { clients := [routedClient] } (.doHealthCheck :: List.replicate 10 .sweep) :=
  endpoint_in_use_kept 0 "b:1" rfl (by decide)

end InUse

end RocketMQClient.EndpointHealth
