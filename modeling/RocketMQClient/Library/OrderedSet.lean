import Mathlib.Data.List.Sort
import Mathlib.Order.Basic

/-!
# Finite sets ordered by a key

The semantics of an ordered associative container: entries are kept in strictly
increasing order of their key, an insertion is ignored when the key is present,
and an erasure is by key. With `Prod.fst` as the key this is an ordered map.

Inserting the entries of a set into the empty one, in whatever order they are
visited, gives the set back (`insertAll_perm`).
-/

/-- The order of the entries is a field, so two entries never share a key. -/
structure OrderedSet {α κ : Type*} [LinearOrder κ] (key : α → κ) where
  entries : List α
  sorted : entries.Pairwise fun a b => key a < key b

namespace OrderedSet
variable {α κ : Type*} [LinearOrder κ] {key : α → κ}

theorem ext_entries {s t : OrderedSet key} (h : s.entries = t.entries) : s = t := by
  cases s
  cases t
  cases h
  rfl

instance [DecidableEq α] : DecidableEq (OrderedSet key) := fun s t =>
  decidable_of_iff (s.entries = t.entries) ⟨ext_entries, fun h => h ▸ rfl⟩

theorem nodup (s : OrderedSet key) : s.entries.Nodup := by
  refine List.Pairwise.imp ?_ s.sorted
  rintro a b hab rfl
  exact lt_irrefl _ hab

def empty : OrderedSet key := ⟨[], List.Pairwise.nil⟩

def contains (s : OrderedSet key) (k : κ) : Bool := s.entries.any fun a => key a = k

def first? (s : OrderedSet key) : Option α := s.entries.head?

def size (s : OrderedSet key) : ℕ := s.entries.length

def insertEntry (key : α → κ) (a : α) : List α → List α
  | [] => [a]
  | b :: l => if key a < key b then a :: b :: l else b :: insertEntry key a l

theorem mem_insertEntry {a b : α} {l : List α} : b ∈ insertEntry key a l ↔ b = a ∨ b ∈ l := by
  induction l with
  | nil => simp [insertEntry]
  | cons c l ih =>
    simp only [insertEntry]
    split_ifs
    · simp
    · simp only [List.mem_cons, ih]
      tauto

theorem insertEntry_sorted {a : α} {l : List α} (hl : l.Pairwise fun x y => key x < key y)
    (ha : ∀ b ∈ l, key b ≠ key a) : (insertEntry key a l).Pairwise fun x y => key x < key y := by
  induction l with
  | nil => simp [insertEntry]
  | cons b l ih =>
    have hb := List.pairwise_cons.mp hl
    simp only [insertEntry]
    split_ifs with hlt
    · refine List.pairwise_cons.mpr ⟨fun c hc => ?_, hl⟩
      rcases List.mem_cons.mp hc with rfl | hc
      · exact hlt
      · exact hlt.trans (hb.1 c hc)
    · have hba : key b < key a := lt_of_le_of_ne (not_lt.mp hlt) (ha b (by simp))
      refine List.pairwise_cons.mpr ⟨fun c hc => ?_, ih hb.2 fun c hc => ha c (by simp [hc])⟩
      rcases mem_insertEntry.mp hc with rfl | hc
      · exact hba
      · exact hb.1 c hc

def emplace (s : OrderedSet key) (a : α) : OrderedSet key :=
  if h : s.contains (key a) = true then s
  else ⟨insertEntry key a s.entries, insertEntry_sorted s.sorted (by
    simpa [contains] using h)⟩

def erase (s : OrderedSet key) (k : κ) : OrderedSet key :=
  ⟨s.entries.filter fun a => key a ≠ k, s.sorted.filter _⟩

def insertAll (s : OrderedSet key) (l : List α) : OrderedSet key := l.foldl emplace s

theorem mem_emplace {s : OrderedSet key} {a b : α} (ha : ∀ c ∈ s.entries, key c ≠ key a) :
    b ∈ (s.emplace a).entries ↔ b = a ∨ b ∈ s.entries := by
  have hc : ¬ s.contains (key a) = true := by simpa [contains] using ha
  simp only [emplace, hc, Bool.false_eq_true, ↓reduceDIte]
  exact mem_insertEntry

theorem exists_key_emplace {s : OrderedSet key} {a : α} {k : κ} :
    (∃ b ∈ (s.emplace a).entries, key b = k) ↔ (∃ b ∈ s.entries, key b = k) ∨ key a = k := by
  by_cases hc : s.contains (key a) = true
  · simp only [emplace, hc, ↓reduceDIte]
    simp only [contains, List.any_eq_true, decide_eq_true_eq] at hc
    exact (or_iff_left_of_imp fun hk => hk ▸ hc).symm
  · simp only [emplace, hc, Bool.false_eq_true, ↓reduceDIte]
    simp only [mem_insertEntry, or_and_right, exists_or, exists_eq_left]
    exact or_comm

theorem mem_of_mem_emplace {s : OrderedSet key} {a b : α} (h : b ∈ (s.emplace a).entries) :
    b = a ∨ b ∈ s.entries := by
  by_cases hc : s.contains (key a) = true
  · simp only [emplace, hc, ↓reduceDIte] at h
    exact Or.inr h
  · simp only [emplace, hc, Bool.false_eq_true, ↓reduceDIte] at h
    exact mem_insertEntry.mp h

theorem mem_of_first? {s : OrderedSet key} {a : α} (h : s.first? = some a) : a ∈ s.entries :=
  List.mem_of_head? h

theorem first?_le {s : OrderedSet key} {a b : α} (h : s.first? = some a) (hb : b ∈ s.entries) :
    key a ≤ key b := by
  obtain ⟨l, hl⟩ := List.head?_eq_some_iff.mp h
  have hsorted := s.sorted
  rw [hl] at hb hsorted
  rcases List.mem_cons.mp hb with rfl | hb
  · exact le_rfl
  · exact ((List.pairwise_cons.mp hsorted).1 b hb).le

theorem insertEntry_last {a : α} {l : List α} (ha : ∀ b ∈ l, key b < key a) :
    insertEntry key a l = l ++ [a] := by
  induction l with
  | nil => rfl
  | cons b l ih =>
    have hb : ¬ key a < key b := (ha b (by simp)).le.not_gt
    rw [insertEntry, if_neg hb, ih fun c hc => ha c (by simp [hc])]
    rfl

theorem emplace_last {s : OrderedSet key} {a : α} (ha : ∀ b ∈ s.entries, key b < key a) :
    (s.emplace a).entries = s.entries ++ [a] := by
  have hc : ¬ s.contains (key a) = true := by
    simp only [contains, List.any_eq_true, decide_eq_true_eq, not_exists, not_and]
    intro b hb
    exact ne_of_lt (ha b hb)
  simp only [emplace, hc, Bool.false_eq_true, ↓reduceDIte]
  exact insertEntry_last ha

theorem mem_insertAll {s : OrderedSet key} {l : List α}
    (hl : l.Pairwise fun a b => key a ≠ key b)
    (hs : ∀ a ∈ l, ∀ c ∈ s.entries, key c ≠ key a) {b : α} :
    b ∈ (s.insertAll l).entries ↔ b ∈ l ∨ b ∈ s.entries := by
  induction l generalizing s with
  | nil => simp [insertAll]
  | cons a l ih =>
    have hal := List.pairwise_cons.mp hl
    have hmem : ∀ c, c ∈ (s.emplace a).entries ↔ c = a ∨ c ∈ s.entries :=
      fun c => mem_emplace (hs a (by simp))
    have hnew : ∀ d ∈ l, ∀ c ∈ (s.emplace a).entries, key c ≠ key d := by
      intro d hd c hc
      rcases (hmem c).mp hc with rfl | hc
      · exact hal.1 d hd
      · exact hs d (by simp [hd]) c hc
    have h := ih (s := s.emplace a) hal.2 hnew
    change b ∈ ((s.emplace a).insertAll l).entries ↔ _
    rw [h, hmem, List.mem_cons]
    tauto

theorem insertAll_perm {s : OrderedSet key} {l : List α} (h : l.Perm s.entries) :
    (empty : OrderedSet key).insertAll l = s := by
  have hdistinct : l.Pairwise fun a b => key a ≠ key b :=
    (h.pairwise_iff fun hab => Ne.symm hab).mpr (s.sorted.imp fun hab => ne_of_lt hab)
  have hperm : ((empty : OrderedSet key).insertAll l).entries.Perm s.entries := by
    apply (List.perm_ext_iff_of_nodup (nodup _) (nodup s)).mpr
    intro b
    rw [mem_insertAll hdistinct (by simp [empty]), h.mem_iff]
    simp [empty]
  refine ext_entries (hperm.eq_of_pairwise (fun a b _ _ hab hba => ?_) (sorted _) s.sorted)
  exact absurd (hab.trans hba) (lt_irrefl _)

end OrderedSet
