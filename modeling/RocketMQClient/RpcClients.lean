import Mathlib.Data.List.AList

/-! The RPC clients of the client manager, one for each host it has talked to. The flag
`need_heartbeat_` of an RPC client that exists already is set outside the lock, on the
object that was found, and by then another object may be in the table. So an RPC client
has a number of its own here. -/

namespace RocketMQClient.EndpointHealth

structure RpcClient where
  object : ℕ
  ok : Bool := true
  needHeartbeat : Bool
  deriving DecidableEq, Repr

structure RpcClients where
  table : AList fun _ : String => RpcClient := ∅
  made : ℕ := 0

namespace RpcClients

def create (r : RpcClients) (targetHost : String) (needHeartbeat : Bool) : RpcClients × ℕ :=
  ({ table := r.table.insert targetHost { object := r.made, needHeartbeat := needHeartbeat }
     made := r.made + 1 }, r.made)

/-- What `getRpcClient` does under its lock, with the object that it has then. -/
def getRpcClient (r : RpcClients) (targetHost : String) (needHeartbeat : Bool) :
    RpcClients × ℕ :=
  match r.table.lookup targetHost with
  | none => r.create targetHost needHeartbeat
  | some client =>
    if !client.ok then r.create targetHost needHeartbeat else (r, client.object)

/-- `needHeartbeat(true)` on an object, which may have left the table by now. -/
def setNeedHeartbeat (r : RpcClients) (host : String) (object : ℕ) : RpcClients :=
  match r.table.lookup host with
  | some client =>
    if client.object = object then
      { r with table := r.table.insert host { client with needHeartbeat := true } }
    else r
  | none => r

def shutDownChannel (r : RpcClients) (host : String) : RpcClients :=
  match r.table.lookup host with
  | some client => { r with table := r.table.insert host { client with ok := false } }
  | none => r

def offline (r : RpcClients) (hosts : List String) : List String :=
  (r.table.entries.filter fun e => e.2.needHeartbeat && !hosts.contains e.1).map Sigma.fst

def eraseAll (r : RpcClients) (hosts : List String) : RpcClients :=
  { r with table := hosts.foldl (fun table host => table.erase host) r.table }

end RpcClients

def RpcClients.Obtained (r : RpcClients) (h : String) (object : Option ℕ) : Prop :=
  ∃ c, r.table.lookup h = some c ∧ (c.needHeartbeat = true ∨ object = some c.object)

/-- An RPC client to `h` is still there, and it is the same one unless its channel was down. -/
def RpcClients.Keeps (r r' : RpcClients) (h : String) : Prop :=
  ∀ c, r.table.lookup h = some c →
    ∃ c', r'.table.lookup h = some c' ∧ (c.ok = true → c'.object = c.object)

namespace RpcClients
variable {r : RpcClients} {h host : String} {object : Option ℕ}

theorem Keeps.refl (r : RpcClients) (h : String) : r.Keeps r h :=
  fun c hc => ⟨c, hc, fun _ => rfl⟩

theorem lookup_create (r : RpcClients) (host h : String) (b : Bool) :
    (r.create host b).1.table.lookup h =
      if h = host then some { object := r.made, needHeartbeat := b } else r.table.lookup h := by
  by_cases hh : h = host
  · subst hh
    simp [create]
  · simp [create, hh, AList.lookup_insert_ne hh]

theorem getRpcClient_cases (r : RpcClients) (host : String) (b : Bool) :
    (r.getRpcClient host b = r.create host b ∧
      ∀ c, r.table.lookup host = some c → c.ok = false) ∨
    ∃ c, r.table.lookup host = some c ∧ c.ok = true ∧ r.getRpcClient host b = (r, c.object) := by
  unfold getRpcClient
  cases hl : r.table.lookup host with
  | none =>
    left
    exact ⟨rfl, by simp⟩
  | some c =>
    cases hok : c.ok with
    | false =>
      left
      refine ⟨by simp [hok], ?_⟩
      intro c' hc'
      cases hc'
      exact hok
    | true =>
      right
      exact ⟨c, rfl, hok, by simp [hok]⟩

theorem lookup_setNeedHeartbeat (r : RpcClients) (host h : String) (o : ℕ) :
    (r.setNeedHeartbeat host o).table.lookup h = (r.table.lookup h).map fun c =>
      if h = host ∧ c.object = o then { c with needHeartbeat := true } else c := by
  unfold setNeedHeartbeat
  by_cases hh : h = host
  · subst hh
    cases hl : r.table.lookup h with
    | none => simp [hl]
    | some c =>
      by_cases ho : c.object = o
      · simp [ho]
      · simp [ho, hl]
  · cases hl : r.table.lookup host with
    | none => simp [hh]
    | some c =>
      by_cases ho : c.object = o
      · simp [ho, hh, AList.lookup_insert_ne hh]
      · simp [ho, hh]

theorem lookup_shutDownChannel (r : RpcClients) (host h : String) :
    (r.shutDownChannel host).table.lookup h = (r.table.lookup h).map fun c =>
      if h = host then { c with ok := false } else c := by
  unfold shutDownChannel
  by_cases hh : h = host
  · subst hh
    cases hl : r.table.lookup h with
    | none => simp [hl]
    | some c => simp
  · cases hl : r.table.lookup host with
    | none => simp [hh]
    | some c => simp [hh, AList.lookup_insert_ne hh]

theorem lookup_eraseAll (r : RpcClients) (hosts : List String) (h : String) :
    (r.eraseAll hosts).table.lookup h = if h ∈ hosts then none else r.table.lookup h := by
  unfold eraseAll
  simp only
  generalize r.table = table
  induction hosts generalizing table with
  | nil => simp
  | cons host hosts ih =>
    rw [List.foldl_cons, ih]
    by_cases hh : h = host
    · subst hh
      simp
    · by_cases hmem : h ∈ hosts
      · simp [hmem]
      · simp [hmem, hh, AList.lookup_erase_ne hh]

theorem mem_offline {hosts : List String} : h ∈ r.offline hosts ↔
    ∃ c, r.table.lookup h = some c ∧ c.needHeartbeat = true ∧ h ∉ hosts := by
  simp only [offline, List.mem_map, List.mem_filter, Bool.and_eq_true, Bool.not_eq_true',
    List.contains_eq_mem, decide_eq_false_iff_not]
  constructor
  · intro hmem
    obtain ⟨e, ⟨he, hflag, hout⟩, rfl⟩ := hmem
    exact ⟨e.2, AList.mem_lookup_iff.mpr he, hflag, hout⟩
  · intro hmem
    obtain ⟨c, hc, hflag, hout⟩ := hmem
    exact ⟨⟨h, c⟩, ⟨AList.mem_lookup_iff.mp hc, hflag, hout⟩, rfl⟩

theorem Keeps.getRpcClient (r : RpcClients) (host h : String) (b : Bool) :
    r.Keeps (r.getRpcClient host b).1 h := by
  intro c hc
  obtain ⟨hnew, hdown⟩ | ⟨c', hc', -, heq⟩ := r.getRpcClient_cases host b
  · rw [hnew, lookup_create]
    by_cases hh : h = host
    · subst hh
      exact ⟨_, if_pos rfl, fun hok => by simp [hdown c hc] at hok⟩
    · exact ⟨c, by simpa [hh] using hc, fun _ => rfl⟩
  · rw [heq]
    exact ⟨c, hc, fun _ => rfl⟩

theorem Keeps.setNeedHeartbeat (r : RpcClients) (host h : String) (o : ℕ) :
    r.Keeps (r.setNeedHeartbeat host o) h := by
  intro c hc
  refine ⟨_, by rw [lookup_setNeedHeartbeat, hc, Option.map_some], ?_⟩
  intro _
  split <;> rfl

theorem Keeps.shutDownChannel (r : RpcClients) (host h : String) :
    r.Keeps (r.shutDownChannel host) h := by
  intro c hc
  refine ⟨_, by rw [lookup_shutDownChannel, hc, Option.map_some], ?_⟩
  intro _
  split <;> rfl

theorem Obtained.getRpcClient (hr : r.Obtained h object) {b : Bool}
    (hb : host = h → b = true) : (r.getRpcClient host b).1.Obtained h object := by
  obtain ⟨c, hc, hobtained⟩ := hr
  obtain ⟨hnew, -⟩ | ⟨c', -, -, heq⟩ := r.getRpcClient_cases host b
  · rw [hnew, Obtained, lookup_create]
    by_cases hh : h = host
    · exact ⟨_, if_pos hh, Or.inl (hb hh.symm)⟩
    · exact ⟨c, by simpa [hh] using hc, hobtained⟩
  · rw [heq]
    exact ⟨c, hc, hobtained⟩

theorem Obtained.setNeedHeartbeat (hr : r.Obtained h object) (o : ℕ) :
    (r.setNeedHeartbeat host o).Obtained h object := by
  obtain ⟨c, hc, hobtained⟩ := hr
  refine ⟨_, by rw [lookup_setNeedHeartbeat, hc, Option.map_some], ?_⟩
  split
  · exact Or.inl rfl
  · exact hobtained

theorem Obtained.shutDownChannel (hr : r.Obtained h object) :
    (r.shutDownChannel host).Obtained h object := by
  obtain ⟨c, hc, hobtained⟩ := hr
  refine ⟨_, by rw [lookup_shutDownChannel, hc, Option.map_some], ?_⟩
  split <;> exact hobtained

theorem obtained_getRpcClient (r : RpcClients) (h : String) (b : Bool) :
    (r.getRpcClient h b).1.Obtained h (some (r.getRpcClient h b).2) := by
  obtain ⟨hnew, -⟩ | ⟨c, hc, -, heq⟩ := r.getRpcClient_cases h b
  · rw [hnew]
    exact ⟨_, by rw [lookup_create, if_pos rfl], Or.inr rfl⟩
  · rw [heq]
    exact ⟨c, hc, Or.inr rfl⟩

theorem Obtained.marked {o : ℕ} (hr : r.Obtained h (some o)) :
    (r.setNeedHeartbeat h o).Obtained h none := by
  obtain ⟨c, hc, hobtained⟩ := hr
  refine ⟨_, by rw [lookup_setNeedHeartbeat, hc, Option.map_some], Or.inl ?_⟩
  by_cases ho : c.object = o
  · simp [ho]
  · simpa [ho, Ne.symm ho] using hobtained

end RpcClients

end RocketMQClient.EndpointHealth
