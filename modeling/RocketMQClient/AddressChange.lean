import RocketMQClient.Rebalance

/-!
# Receive requests and the address of a broker

The key of a message queue leaves out its service address, and a process queue
keeps the message queue it was created with. `due` records under which addresses
the latest assignment that lists a queue lists it, and `sent` each pop or pull
request, as the message queue of its process queue, with the addresses due then.
-/

namespace RocketMQClient.AddressChange
open EventMachine Pending Rebalance
open ReceiveCycle (ProcessQueueRef)

structure State where
  consumer : Rebalance.State := {}
  due : Key → List String := fun _ => []
  sent : List (MQMessageQueue × List String) := []

def addresses (assigned : List MQMessageQueue) (k : Key) : List String :=
  (assigned.filter fun q => q.key = k).map MQMessageQueue.serviceAddress

def noted (due : Key → List String) : Event → Key → List String
  | .syncProcessQueue _ assigned _ _, k =>
    if (addresses assigned k).isEmpty then due k else addresses assigned k
  | _, k => due k

def requested : Work → Option MQMessageQueue
  | .receive .rpc queue => some queue.messageQueue
  | _ => none

def issued (s t : Rebalance.State) : Event → List MQMessageQueue
  | .resume .. => (t.pending.drop (s.pending.length - 1)).filterMap requested
  | _ => []

def step (cfg : Config) (s : State) (e : Event) : Option State :=
  (Rebalance.step cfg s.consumer e).map fun t =>
    { consumer := t
      due := noted s.due e
      sent := s.sent ++ (issued s.consumer t e).map fun q => (q, s.due q.key) }

def machine (cfg : Config) : Machine State Event where
  init := {}
  step := step cfg

def Follows (s : State) : Prop := ∀ p ∈ s.sent, ∀ a ∈ p.2, p.1.serviceAddress = a

def queues : Work → List MQMessageQueue
  | .starting qs _ => qs
  | .receive _ queue => [queue.messageQueue]

def known (s : Rebalance.State) : List MQMessageQueue :=
  s.table.map ProcessQueueRef.messageQueue ++ s.pending.flatMap queues

theorem mem_known {s : Rebalance.State} {q : MQMessageQueue} :
    q ∈ known s ↔ (∃ r ∈ s.table, r.messageQueue = q) ∨ ∃ w ∈ s.pending, q ∈ queues w := by
  simp [known]

theorem known_of_table {s : Rebalance.State} {r : ProcessQueueRef} (h : r ∈ s.table) :
    r.messageQueue ∈ known s :=
  mem_known.mpr (Or.inl ⟨r, h, rfl⟩)

theorem known_of_pending {s : Rebalance.State} {w : Work} {q : MQMessageQueue}
    (h : w ∈ s.pending) (hq : q ∈ queues w) : q ∈ known s :=
  mem_known.mpr (Or.inr ⟨w, h, hq⟩)

theorem known_mono {s t : Rebalance.State} {q : MQMessageQueue} (h : q ∈ known t)
    (htable : ∀ r ∈ t.table, r ∈ s.table) (hpending : ∀ w ∈ t.pending, w ∈ s.pending) :
    q ∈ known s := by
  rcases mem_known.mp h with ⟨r, hr, rfl⟩ | ⟨w, hw, hq⟩
  · exact known_of_table (htable r hr)
  · exact known_of_pending (hpending w hw) hq

theorem known_add {s : Rebalance.State} {w : Work} {q : MQMessageQueue}
    (h : q ∈ known (s.add w)) : q ∈ known s ∨ q ∈ queues w := by
  rcases mem_known.mp h with ⟨r, hr, rfl⟩ | ⟨w', hw', hq⟩
  · exact Or.inl (known_of_table hr)
  · rcases List.mem_append.mp hw' with hw' | hw'
    · exact Or.inl (known_of_pending hw' hq)
    · exact Or.inr (List.mem_singleton.mp hw' ▸ hq)

theorem known_pick {s : Rebalance.State} {i : ℕ} {w : Work} {rest : List Work}
    (hpick : pick s.pending i = some (w, rest)) {q : MQMessageQueue}
    (h : q ∈ known { s with pending := rest } ∨ q ∈ queues w) : q ∈ known s := by
  rcases h with h | h
  · rcases mem_known.mp h with ⟨r, hr, rfl⟩ | ⟨w', hw', hq⟩
    · exact known_of_table hr
    · exact known_of_pending (mem_of_mem_rest hpick hw') hq
  · exact known_of_pending (mem_of_pick hpick) h

theorem known_located {s t : Rebalance.State} {q : MQMessageQueue} {queue : ProcessQueueRef}
    (h : Located s q t queue) {q' : MQMessageQueue}
    (hq' : q' ∈ known t ∨ q' = queue.messageQueue) : q' ∈ known s ∨ q' = q := by
  have htable : ∀ r ∈ t.table, r.messageQueue ∈ known s ∨ r.messageQueue = q := by
    intro r hr
    exact (h.old_or_new hr).imp known_of_table And.right
  rcases hq' with hq' | rfl
  · rcases mem_known.mp hq' with ⟨r, hr, rfl⟩ | ⟨w, hw, hq⟩
    · exact htable r hr
    · exact Or.inl (known_of_pending (h.pending ▸ hw) hq)
  · exact htable queue h.mem

theorem known_receiveMessage {cfg : Config} {s : Rebalance.State} {q : MQMessageQueue}
    {f : FilterExpression} {stored : Bool} {q' : MQMessageQueue}
    (h : q' ∈ known (receiveMessage cfg s q f stored)) : q' ∈ known s ∨ q' = q := by
  by_cases hactive : s.active = true
  · obtain ⟨t, queue, hlocated, ⟨-, heq⟩ | heq | heq⟩ :=
      receiveMessage_cases hactive cfg q f stored
    · rw [heq] at h
      exact known_located hlocated (Or.inl h)
    · rw [heq] at h
      exact known_located hlocated ((known_add h).imp_right List.mem_singleton.mp)
    · rw [heq] at h
      exact known_located hlocated ((known_add h).imp_right List.mem_singleton.mp)
  · have hsame : receiveMessage cfg s q f stored = s := by simp [receiveMessage, hactive]
    exact Or.inl (hsame ▸ h)

theorem known_goOn {cfg : Config} {s : Rebalance.State} {queue : ProcessQueueRef}
    {stored : Bool} {next : Next} {q : MQMessageQueue}
    (h : q ∈ known (goOn cfg s queue stored next)) : q ∈ known s ∨ q = queue.messageQueue := by
  cases next with
  | nothing => exact Or.inl h
  | receiveMessageLater => exact (known_add h).imp_right List.mem_singleton.mp
  | receiveMessageImmediately => exact known_receiveMessage h
  | request => exact (known_add h).imp_right List.mem_singleton.mp

theorem known_resume {cfg : Config} {s t : Rebalance.State} {outcome : Outcome} {stored : Bool}
    {w : Work} (h : resume cfg s outcome stored w = some t) {q : MQMessageQueue}
    (hq : q ∈ known t) : q ∈ known s ∨ q ∈ queues w := by
  cases w with
  | starting qs f =>
    cases qs with
    | nil =>
      cases outcome with
      | run =>
        cases h
        exact Or.inl hq
      | received _ => cases h
      | pulled _ => cases h
      | queried _ => cases h
    | cons q₀ qs =>
      cases outcome with
      | run =>
        cases h
        rcases known_add hq with hq | hq
        · rcases known_receiveMessage hq with hq | rfl
          · exact Or.inl hq
          · exact Or.inr List.mem_cons_self
        · exact Or.inr (List.mem_cons_of_mem _ hq)
      | received _ => cases h
      | pulled _ => cases h
      | queried _ => cases h
  | receive stage queue =>
    obtain ⟨⟨u, next⟩, hcall, rfl⟩ := Option.map_eq_some_iff.mp h
    obtain ⟨contents, hcontents⟩ := callback_frame hcall
    have hcontents : u = { s with contents := contents } := hcontents
    subst hcontents
    rcases known_goOn hq with hq | rfl
    · exact Or.inl hq
    · exact Or.inr (List.mem_singleton_self _)

theorem known_dropUnassigned {s : Rebalance.State} {topic : String}
    {assigned : List MQMessageQueue} {expired : List ℕ} {q : MQMessageQueue}
    (h : q ∈ known (dropUnassigned s topic assigned expired)) : q ∈ known s :=
  known_mono h (fun _ hr => (List.mem_filter.mp hr).1) fun _ hw => hw

theorem known_sync {s : Rebalance.State} {topic : String} {assigned : List MQMessageQueue}
    {f : FilterExpression} {expired : List ℕ} {q : MQMessageQueue}
    (h : q ∈ known (syncProcessQueue s topic assigned f expired)) :
    q ∈ known (dropUnassigned s topic assigned expired) ∨ q ∈ assigned :=
  (known_add h).imp_right fun hq => (List.mem_filter.mp hq).1

theorem known_step {cfg : Config} {s t : Rebalance.State} {e : Event}
    (h : Rebalance.step cfg s e = some t) {q : MQMessageQueue} (hq : q ∈ known t) :
    q ∈ known s ∨ ∃ topic assigned f expired,
      e = .syncProcessQueue topic assigned f expired ∧ q ∈ assigned := by
  cases e with
  | syncProcessQueue topic assigned f expired =>
    cases h
    exact (known_sync hq).imp known_dropUnassigned fun hq => ⟨topic, assigned, f, expired, rfl, hq⟩
  | resume i outcome stored =>
    obtain ⟨⟨w, rest⟩, hpick, hres⟩ := Option.bind_eq_some_iff.mp h
    exact Or.inl (known_pick hpick (known_resume hres hq))
  | hold queue =>
    simp only [Rebalance.step] at h
    split_ifs at h
    cases h
    exact Or.inl hq
  | letGo id =>
    cases h
    exact Or.inl hq
  | take id batchSize =>
    cases h
    exact Or.inl hq
  | release id bodySize offset =>
    obtain ⟨contents, -, rfl⟩ := Option.map_eq_some_iff.mp h
    exact Or.inl hq
  | clear =>
    cases h
    exact Or.inl (known_mono hq (fun _ hr => by simp at hr) fun _ hw => hw)
  | shutdown =>
    cases h
    exact Or.inl hq

theorem known_of_issued {cfg : Config} {s t : Rebalance.State} {e : Event}
    (h : Rebalance.step cfg s e = some t) {q : MQMessageQueue} (hq : q ∈ issued s t e) :
    q ∈ known s := by
  rw [issued.eq_def] at hq
  split at hq
  · obtain ⟨w, hw, hrequested⟩ := List.mem_filterMap.mp hq
    have hqueues : q ∈ queues w := by
      rw [requested.eq_def] at hrequested
      split at hrequested
      · cases hrequested
        exact List.mem_singleton_self _
      · cases hrequested
    rcases known_step h (known_of_pending (List.mem_of_mem_drop hw) hqueues) with
      hknown | ⟨topic, assigned, f, expired, he, -⟩
    · exact hknown
    · cases he
  · cases hq

def Aligned (s : State) : Prop :=
  ∀ q ∈ known s.consumer, ∀ a ∈ s.due q.key, q.serviceAddress = a

/-- An assignment lists a queue under one address, and under the one that its process
queue in the table and the outstanding steps for it have. -/
def KeepsAddress (s : State) : Event → Prop
  | .syncProcessQueue topic assigned _ expired =>
    ∀ q ∈ assigned,
      ∀ q' ∈ known (dropUnassigned s.consumer topic assigned expired) ++ assigned,
        q'.key = q.key → q'.serviceAddress = q.serviceAddress
  | _ => True

theorem mem_addresses {assigned : List MQMessageQueue} {k : Key} {a : String} :
    a ∈ addresses assigned k ↔ ∃ q ∈ assigned, q.key = k ∧ q.serviceAddress = a := by
  simp [addresses, and_assoc]

theorem step_aligned {cfg : Config} {s t : State} {e : Event} (hs : Aligned s)
    (hkeeps : KeepsAddress s e) (h : step cfg s e = some t) : Aligned t := by
  obtain ⟨u, hu, rfl⟩ := Option.map_eq_some_iff.mp h
  intro q hq a ha
  cases e with
  | syncProcessQueue topic assigned f expired =>
    cases hu
    simp only [noted] at ha
    have hmem : q ∈ known (dropUnassigned s.consumer topic assigned expired) ++ assigned :=
      List.mem_append.mpr (known_sync hq)
    split_ifs at ha with hunlisted
    · have hknown : q ∈ known s.consumer := by
        rcases List.mem_append.mp hmem with hmem | hmem
        · exact known_dropUnassigned hmem
        · have hlisted := mem_addresses.mpr ⟨q, hmem, rfl, rfl⟩
          rw [List.isEmpty_iff.mp hunlisted] at hlisted
          cases hlisted
      exact hs q hknown a ha
    · obtain ⟨q₀, hq₀, hkey, rfl⟩ := mem_addresses.mp ha
      exact hkeeps q₀ hq₀ q hmem hkey.symm
  | resume i outcome stored => exact hs q (by simpa using known_step hu hq) a ha
  | hold queue => exact hs q (by simpa using known_step hu hq) a ha
  | letGo id => exact hs q (by simpa using known_step hu hq) a ha
  | take id batchSize => exact hs q (by simpa using known_step hu hq) a ha
  | release id bodySize offset => exact hs q (by simpa using known_step hu hq) a ha
  | clear => exact hs q (by simpa using known_step hu hq) a ha
  | shutdown => exact hs q (by simpa using known_step hu hq) a ha

theorem step_follows {cfg : Config} {s t : State} {e : Event} (hs : Aligned s)
    (hf : Follows s) (h : step cfg s e = some t) : Follows t := by
  obtain ⟨u, hu, rfl⟩ := Option.map_eq_some_iff.mp h
  intro p hp a ha
  rcases List.mem_append.mp hp with hp | hp
  · exact hf p hp a ha
  · obtain ⟨q, hq, rfl⟩ := List.mem_map.mp hp
    exact hs q (known_of_issued hu hq) a ha

/-- Requests go to the address that the latest assignment gives along every run in which no
assignment changes the address of a queue that the consumer still knows. -/
theorem follows_along (cfg : Config) (es : List Event)
    (hkeeps : (machine cfg).Guarded KeepsAddress (machine cfg).init es) :
    (machine cfg).Along Follows (machine cfg).init es :=
  (machine cfg).along_of_guarded (J := fun s => Aligned s ∧ Follows s)
    (fun _ _ _ hj hok h => ⟨step_aligned hj.1 hok h, step_follows hj.1 hj.2 h⟩)
    (fun _ hj => hj.2) ⟨nofun, nofun⟩ hkeeps

instance (s : State) : ∀ e, Decidable (KeepsAddress s e)
  | .syncProcessQueue topic assigned _ expired =>
    inferInstanceAs (Decidable (∀ q ∈ assigned,
      ∀ q' ∈ known (dropUnassigned s.consumer topic assigned expired) ++ assigned,
        q'.key = q.key → q'.serviceAddress = q.serviceAddress))
  | .resume .. | .hold .. | .letGo .. | .take .. | .release .. | .clear | .shutdown =>
    .isTrue trivial

def movedQueue : MQMessageQueue := { oldQueue with serviceAddress := "c:10911" }

def polling : Config := { wrap := fun _ => .rejected }

theorem follows_after_withdrawal :
    (machine polling).Along Follows (machine polling).init
      [.syncProcessQueue "abc" [oldQueue] {} [], .resume 0 .run false, .resume 1 .run false,
        .syncProcessQueue "abc" [] {} [], .resume 1 .run false,
        .resume 0 (.received { response := [] }) false,
        .syncProcessQueue "abc" [movedQueue] {} [], .resume 0 .run false] := by
  apply follows_along
  decide

theorem request_to_old_address :
    ∃ s, (machine polling).run
        [.syncProcessQueue "abc" [oldQueue] {} [], .resume 0 .run false,
          .syncProcessQueue "abc" [movedQueue] {} [],
          .resume 0 (.received { response := [] }) false] = some s ∧
      s.sent = [(oldQueue, ["a:10911"]), (oldQueue, ["c:10911"])] ∧ ¬ Follows s := by
  refine ⟨_, rfl, rfl, fun h => ?_⟩
  exact absurd (h (oldQueue, ["c:10911"]) (by decide) "c:10911" (by decide)) (by decide)

end RocketMQClient.AddressChange
