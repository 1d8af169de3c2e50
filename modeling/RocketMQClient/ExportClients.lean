import Mathlib.Data.List.Nodup
import Mathlib.Data.List.Infix
import Mathlib.Tactic.Common

/-!
# The clients of the trace exporter

`syncExportClients` removes the clients of hosts that are gone and adds those of new hosts.
Its removal loop moves its iterator twice in each round, once in the body, where an entry is
erased or passed, and once in the `for` statement. The second step passes an entry without
looking at it, and goes past the end of the map if the body has already reached it.

`ClientsMap` holds the entries of the hash map in the order in which an iterator meets them.
Erasing an entry keeps the order of the others. A client is an object of any type, so that two
clients are equal only if they are the same object.
-/

namespace RocketMQClient

structure ClientsMap (Client : Type) where
  entries : List (String × Client)
  nodup : (entries.map Prod.fst).Nodup

/-- What a handler sees of its exporter: the hosts, and how a client manager that is still
there makes the client of a host. -/
structure Exporter (Client : Type) where
  hosts : List String
  clientManager : Option (String → Client)

namespace ClientsMap
variable {Client : Type}

def contains (m : ClientsMap Client) (host : String) : Bool :=
  (m.entries.map Prod.fst).contains host

theorem contains_iff {m : ClientsMap Client} {host : String} :
    m.contains host = true ↔ host ∈ m.entries.map Prod.fst := by
  rw [contains, List.contains_iff_mem]

def emplace (m : ClientsMap Client) (host : String) (client : Client) : ClientsMap Client :=
  if h : m.contains host = true then m
  else
    { entries := m.entries ++ [(host, client)]
      nodup := by
        rw [List.map_append, List.nodup_append]
        refine ⟨m.nodup, List.nodup_singleton _, ?_⟩
        intro a ha b hb hab
        rw [hab, List.mem_singleton.mp hb] at ha
        exact h (contains_iff.mpr ha) }

def gone (hosts : List String) (entry : String × Client) : Bool :=
  hosts.all fun host => entry.1 ≠ host

theorem gone_eq_false_iff {hosts : List String} {entry : String × Client} :
    gone hosts entry = false ↔ entry.1 ∈ hosts := by
  simp [gone]

def removalLoop (hosts : List String) :
    List (String × Client) → Option (List (String × Client))
  | [] => some []
  -- the body leaves the iterator at the end, and the `for` statement goes past it
  | [_] => none
  | entry :: next :: rest =>
    (removalLoop hosts rest).map fun kept =>
      if gone hosts entry then next :: kept else entry :: next :: kept

section RemovalLoop
variable {hosts : List String} {l kept : List (String × Client)}

theorem removalLoop_sublist (h : removalLoop hosts l = some kept) : kept.Sublist l := by
  induction l using removalLoop.induct generalizing kept with
  | case1 =>
    cases h
    exact List.Sublist.refl _
  | case2 entry => cases h
  | case3 entry next rest ih =>
    obtain ⟨kept', hrest, hkept⟩ := Option.map_eq_some_iff.mp h
    have hsub := ih hrest
    subst hkept
    split_ifs
    · exact (hsub.cons_cons next).cons entry
    · exact (hsub.cons_cons next).cons_cons entry

theorem removalLoop_isSome_iff (hosts : List String) (l : List (String × Client)) :
    (removalLoop hosts l).isSome = true ↔ l.length % 2 = 0 := by
  induction l using removalLoop.induct with
  | case1 => simp [removalLoop]
  | case2 entry => simp [removalLoop]
  | case3 entry next rest ih =>
    rw [removalLoop, Option.isSome_map, ih]
    simp only [List.length_cons]
    omega

theorem mem_of_removalLoop (h : removalLoop hosts l = some kept) {e : String × Client}
    (he : e ∈ l) (hhost : e.1 ∈ hosts) : e ∈ kept := by
  induction l using removalLoop.induct generalizing kept with
  | case1 => cases he
  | case2 entry => cases h
  | case3 entry next rest ih =>
    obtain ⟨kept', hrest, hkept⟩ := Option.map_eq_some_iff.mp h
    subst hkept
    rcases List.mem_cons.mp he with rfl | he
    · rw [gone_eq_false_iff.mpr hhost]
      exact List.mem_cons_self
    · have htail : e ∈ next :: kept' := by
        rcases List.mem_cons.mp he with rfl | he
        · exact List.mem_cons_self
        · exact List.mem_cons_of_mem _ (ih hrest he)
      split_ifs
      · exact htail
      · exact List.mem_cons_of_mem _ htail

theorem forall_odd_cons_cons {α : Type} {P : α → Prop} {a b : α} {l : List α} :
    (∀ i e, (a :: b :: l)[2 * i + 1]? = some e → P e) ↔
      P b ∧ ∀ i e, l[2 * i + 1]? = some e → P e := by
  constructor
  · intro h
    refine ⟨h 0 b rfl, fun i e he => h (i + 1) e ?_⟩
    simpa [Nat.mul_add] using he
  · intro h i e he
    cases i with
    | zero =>
      cases he
      exact h.1
    | succ i => exact h.2 i e (by simpa [Nat.mul_add] using he)

theorem forall_kept_iff (h : removalLoop hosts l = some kept) :
    (∀ e ∈ kept, e.1 ∈ hosts) ↔ ∀ i e, l[2 * i + 1]? = some e → e.1 ∈ hosts := by
  induction l using removalLoop.induct generalizing kept with
  | case1 =>
    cases h
    simp
  | case2 entry => cases h
  | case3 entry next rest ih =>
    obtain ⟨kept', hrest, hkept⟩ := Option.map_eq_some_iff.mp h
    rw [forall_odd_cons_cons, ← ih hrest, ← hkept]
    split_ifs with hgone
    · rw [List.forall_mem_cons]
    · have hhost : entry.1 ∈ hosts := gone_eq_false_iff.mp (Bool.eq_false_iff.mpr hgone)
      simp only [List.forall_mem_cons, hhost, true_and]

end RemovalLoop

def removeGone (m : ClientsMap Client) (hosts : List String) : Option (ClientsMap Client) :=
  match h : removalLoop hosts m.entries with
  | none => none
  | some kept => some ⟨kept, m.nodup.sublist ((removalLoop_sublist h).map Prod.fst)⟩

def addHost (clientManager : Option (String → Client)) (m : ClientsMap Client) (host : String) :
    ClientsMap Client :=
  if !m.contains host then
    match clientManager with
    | some createClient => m.emplace host (createClient host)
    | none => m
  else m

def addHosts (m : ClientsMap Client) (clientManager : Option (String → Client))
    (hosts : List String) : ClientsMap Client :=
  hosts.foldl (addHost clientManager) m

/-- There is no result if the iterator goes past the end of the map. -/
def syncExportClients (m : ClientsMap Client) :
    Option (Exporter Client) → Option (ClientsMap Client)
  | none => some m
  | some e => (m.removeGone e.hosts).map fun m => m.addHosts e.clientManager e.hosts

def choose (m : ClientsMap Client) (roundRobin : UInt32) : Option Client :=
  (m.entries[roundRobin.toNat % m.entries.length]?).map Prod.snd

section AddHosts
variable (m : ClientsMap Client) (createClient : String → Client) (hosts : List String)

theorem addHost_spec (host : String) :
    (∀ e ∈ m.entries, e ∈ (addHost (some createClient) m host).entries) ∧
      ∀ k, k ∈ (addHost (some createClient) m host).entries.map Prod.fst ↔
        k ∈ m.entries.map Prod.fst ∨ k = host := by
  by_cases h : m.contains host = true
  · have hmem := contains_iff.mp h
    have hsame : addHost (some createClient) m host = m := by simp [addHost, h]
    rw [hsame]
    refine ⟨fun e he => he, fun k => ⟨Or.inl, ?_⟩⟩
    rintro (hk | rfl)
    · exact hk
    · exact hmem
  · have hadded : (addHost (some createClient) m host).entries =
        m.entries ++ [(host, createClient host)] := by
      simp [addHost, h, emplace]
    rw [hadded]
    exact ⟨fun e he => List.mem_append_left _ he, fun k => by simp⟩

theorem addHosts_spec :
    (∀ e ∈ m.entries, e ∈ (m.addHosts (some createClient) hosts).entries) ∧
      ∀ k, k ∈ (m.addHosts (some createClient) hosts).entries.map Prod.fst ↔
        k ∈ m.entries.map Prod.fst ∨ k ∈ hosts := by
  induction hosts generalizing m with
  | nil => simp [addHosts]
  | cons host hosts ih =>
    obtain ⟨hkeep, hkeys⟩ := addHost_spec m createClient host
    obtain ⟨hkeep', hkeys'⟩ := ih (addHost (some createClient) m host)
    refine ⟨fun e he => hkeep' e (hkeep e he), fun k => ?_⟩
    rw [List.mem_cons, ← or_assoc, ← hkeys k]
    exact hkeys' k

end AddHosts

section Sync
variable {m : ClientsMap Client} {hosts : List String}

theorem removeGone_of_none (h : removalLoop hosts m.entries = none) :
    m.removeGone hosts = none := by
  rw [removeGone]
  split
  · rfl
  · rename_i kept hkept
    rw [h] at hkept
    cases hkept

theorem removeGone_of_some {kept : List (String × Client)}
    (h : removalLoop hosts m.entries = some kept) :
    ∃ m₁, m.removeGone hosts = some m₁ ∧ m₁.entries = kept := by
  rw [removeGone]
  split
  · rename_i hnone
    rw [h] at hnone
    cases hnone
  · rename_i kept' hkept
    rw [h] at hkept
    cases hkept
    exact ⟨_, rfl, rfl⟩

end Sync

/-- The clients follow the hosts: there is one for each of them and no other, and a client
that was there before and still has its host is the same object. -/
def Follows (m : ClientsMap Client) (hosts : List String) (m' : ClientsMap Client) : Prop :=
  (∀ k, k ∈ m'.entries.map Prod.fst ↔ k ∈ hosts) ∧
    ∀ e ∈ m.entries, e.1 ∈ hosts → e ∈ m'.entries

/-- With a live client manager the sync is right exactly for a map of even size in which the
iterator meets only hosts of the list at the odd places. -/
theorem sync_follows_iff (m : ClientsMap Client) (hosts : List String)
    (createClient : String → Client) :
    (∃ m', m.syncExportClients (some ⟨hosts, some createClient⟩) = some m' ∧
        m.Follows hosts m') ↔
      m.entries.length % 2 = 0 ∧ ∀ i e, m.entries[2 * i + 1]? = some e → e.1 ∈ hosts := by
  cases h : removalLoop hosts m.entries with
  | none =>
    have hodd : ¬ m.entries.length % 2 = 0 := by
      rw [← removalLoop_isSome_iff hosts, h]
      simp
    rw [syncExportClients, removeGone_of_none h]
    exact iff_of_false (by simp) (fun hc => hodd hc.1)
  | some kept =>
    have heven : m.entries.length % 2 = 0 := by
      rw [← removalLoop_isSome_iff hosts, h]
      rfl
    obtain ⟨m₁, hm₁, hentries⟩ := removeGone_of_some h
    obtain ⟨hkeep, hkeys⟩ := addHosts_spec m₁ createClient hosts
    rw [syncExportClients, hm₁, ← forall_kept_iff h, ← hentries]
    simp only [Option.map_some, Option.some.injEq, exists_eq_left', heven, true_and]
    constructor
    · intro hfollows e he
      apply (hfollows.1 e.1).mp
      exact (hkeys e.1).mpr (Or.inl (List.mem_map_of_mem he))
    · intro hhosts
      refine ⟨fun k => ?_, fun e he hhost => ?_⟩
      · rw [hkeys k, or_iff_right_of_imp]
        intro hk
        obtain ⟨e, he, rfl⟩ := List.mem_map.mp hk
        exact hhosts e he
      · apply hkeep e
        rw [hentries]
        exact mem_of_removalLoop h he hhost

theorem sync_misses_second :
    let one : ClientsMap ℕ := ⟨[("a", 0)], by decide⟩
    let two : ClientsMap ℕ := ⟨[("a", 0), ("b", 1)], by decide⟩
    one.syncExportClients (some ⟨["a"], some fun _ => 2⟩) = none ∧
      (two.syncExportClients (some ⟨["a"], some fun _ => 2⟩)).map entries =
        some [("a", 0), ("b", 1)] ∧
      ¬ ∃ m', two.syncExportClients (some ⟨["a"], some fun _ => 2⟩) = some m' ∧
        two.Follows ["a"] m' := by
  intro one two
  have htwo : (two.syncExportClients (some ⟨["a"], some fun _ => 2⟩)).map entries =
      some [("a", 0), ("b", 1)] := by decide
  refine ⟨rfl, htwo, ?_⟩
  rintro ⟨m', hm', hkeys, -⟩
  rw [hm', Option.map_some, Option.some.injEq] at htwo
  have hb : "b" ∈ m'.entries.map Prod.fst := by
    rw [htwo]
    decide
  exact absurd ((hkeys "b").mp hb) (by decide)

end ClientsMap
end RocketMQClient
