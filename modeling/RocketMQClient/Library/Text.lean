import Mathlib.Algebra.Ring.Nat
import Mathlib.Data.Int.Notation
import Mathlib.Data.List.Basic
import Mathlib.Data.List.DropRight
import Mathlib.Data.List.TakeWhile
import Mathlib.Tactic.Common

/-!
# Cutting texts and reading numbers from them

A text is a list of characters. `splitFirst` and `splitLast` cut it at the first and at
the last occurrence of a separator, `firstSegment` is the first of the pieces between the
separators. `value` is the number a digit string stands for, and `padded` writes a number
with a fixed number of digits.

`stoi` is the conversion of the C++ standard library: it skips leading white space, takes
a sign and then as many digits as there are, and ignores what follows. It throws if there
is no digit or the number is no `int`.

A `TextLibrary` is any pair of functions of which one takes a prefix off a text and the other
reads an `int` that is written in digits. In `library` nothing but white space and a sign may
stand beside the digits.
-/

namespace Text

section Split
variable {α : Type*} [DecidableEq α] {x : α}

def splitFirst (x : α) : List α → Option (List α × List α)
  | [] => none
  | c :: cs => if c = x then some ([], cs) else (splitFirst x cs).map fun r => (c :: r.1, r.2)

def splitLast (x : α) (l : List α) : Option (List α × List α) :=
  (splitFirst x l.reverse).map fun r => (r.2.reverse, r.1.reverse)

theorem splitFirst_eq_none_iff {l : List α} : splitFirst x l = none ↔ x ∉ l := by
  induction l with
  | nil => simp [splitFirst]
  | cons c cs ih =>
    rw [splitFirst, List.mem_cons, not_or]
    by_cases hc : c = x
    · simp [hc]
    · rw [if_neg hc, Option.map_eq_none_iff, ih]
      exact ⟨fun h => ⟨Ne.symm hc, h⟩, fun h => h.2⟩

theorem splitFirst_append {as : List α} (has : x ∉ as) (bs : List α) :
    splitFirst x (as ++ x :: bs) = some (as, bs) := by
  induction as with
  | nil => simp [splitFirst]
  | cons a as ih =>
    have ha : a ≠ x := fun h => has (by simp [h])
    have hrest : x ∉ as := fun h => has (by simp [h])
    rw [List.cons_append, splitFirst, if_neg ha, ih hrest]
    rfl

theorem splitLast_eq_none_iff {l : List α} : splitLast x l = none ↔ x ∉ l := by
  rw [splitLast, Option.map_eq_none_iff, splitFirst_eq_none_iff, List.mem_reverse]

theorem splitLast_append (as : List α) {bs : List α} (hbs : x ∉ bs) :
    splitLast x (as ++ x :: bs) = some (as, bs) := by
  have hreverse : (as ++ x :: bs).reverse = bs.reverse ++ x :: as.reverse := by simp
  have hfirst : x ∉ bs.reverse := fun h => hbs (List.mem_reverse.mp h)
  rw [splitLast, hreverse, splitFirst_append hfirst]
  simp

theorem splitLast_eq_some_iff {l as bs : List α} :
    splitLast x l = some (as, bs) ↔ l = as ++ x :: bs ∧ x ∉ bs := by
  constructor
  · intro h
    have hmem : x ∈ l.reverse := by
      by_contra hnot
      rw [splitLast_eq_none_iff.mpr fun hl => hnot (List.mem_reverse.mpr hl)] at h
      cases h
    obtain ⟨cs, ds, hcut, hfree⟩ := List.eq_append_cons_of_mem hmem
    have hl : l = ds.reverse ++ x :: cs.reverse := by
      rw [← List.reverse_reverse l, hcut]
      simp
    have hlast : x ∉ cs.reverse := fun hcs => hfree (List.mem_reverse.mp hcs)
    rw [hl, splitLast_append _ hlast, Option.some.injEq, Prod.mk.injEq] at h
    rw [← h.1, ← h.2]
    exact ⟨hl, hlast⟩
  · rintro ⟨rfl, hbs⟩
    exact splitLast_append as hbs

def firstSegment (x : α) (l : List α) : List α := (l.splitOn x).headD []

theorem firstSegment_append {as bs : List α} (has : x ∉ as)
    (hbs : bs = [] ∨ bs.head? = some x) : firstSegment x (as ++ bs) = as := by
  have hfree : ∀ c ∈ as, (c == x) = false := fun c hc => by
    simp [ne_of_mem_of_not_mem hc has]
  rw [firstSegment, List.splitOn]
  cases bs with
  | nil =>
    rw [List.append_nil, List.splitOnP_eq_singleton hfree]
    rfl
  | cons b bs =>
    have hb : b = x := by simpa using hbs
    rw [hb, List.splitOnP_append_cons_of_forall_mem hfree x (beq_self_eq_true x)]
    rfl

def stripPrefix (p l : List α) : List α := if p.isPrefixOf l then l.drop p.length else l

end Split

def Digits (l : List Char) : Prop := l ≠ [] ∧ ∀ c ∈ l, c.isDigit = true

instance (l : List Char) : Decidable (Digits l) :=
  decidable_of_iff (l ≠ [] ∧ l.all Char.isDigit = true) (by simp [Digits])

def value (l : List Char) : ℕ := l.foldl (fun n c => 10 * n + (c.toNat - 48)) 0

def padded : ℕ → ℕ → List Char
  | 0, _ => []
  | width + 1, n => padded width (n / 10) ++ [Nat.digitChar (n % 10)]

theorem isDigit_digitChar {n : ℕ} (h : n < 10) :
    n.digitChar.isDigit = true ∧ n.digitChar.toNat = 48 + n := by
  have hall : ∀ i < 10, (Nat.digitChar i).isDigit = true ∧ (Nat.digitChar i).toNat = 48 + i := by
    decide
  exact hall n h

@[simp] theorem length_padded (width n : ℕ) : (padded width n).length = width := by
  induction width generalizing n with
  | zero => rfl
  | succ width ih => rw [padded, List.length_append, ih, List.length_singleton]

theorem isDigit_of_mem_padded {width n : ℕ} {c : Char} (h : c ∈ padded width n) :
    c.isDigit = true := by
  induction width generalizing n with
  | zero => cases h
  | succ width ih =>
    rw [padded, List.mem_append, List.mem_singleton] at h
    rcases h with hinit | hlast
    · exact ih hinit
    · rw [hlast]
      exact (isDigit_digitChar (Nat.mod_lt n (by omega))).1

theorem digits_padded {width : ℕ} (hwidth : 0 < width) (n : ℕ) : Digits (padded width n) := by
  refine ⟨?_, fun c => isDigit_of_mem_padded⟩
  rw [← List.length_pos_iff, length_padded]
  exact hwidth

theorem value_padded {width n : ℕ} (h : n < 10 ^ width) : value (padded width n) = n := by
  induction width generalizing n with
  | zero =>
    rw [Nat.pow_zero] at h
    exact (Nat.lt_one_iff.mp h).symm
  | succ width ih =>
    have hinit : value (padded width (n / 10)) = n / 10 := by
      apply ih
      rw [Nat.pow_succ] at h
      omega
    have hlast := (isDigit_digitChar (Nat.mod_lt n (by omega : 10 > 0))).2
    rw [padded, value, List.foldl_append, ← value, hinit, List.foldl_cons, List.foldl_nil, hlast]
    omega

inductive ConversionError
  | invalidArgument
  | outOfRange
  deriving DecidableEq, Repr

def isSpace (c : Char) : Bool := c ∈ [' ', '\t', '\n', '\x0b', '\x0c', '\r']

/-- Whether there is a minus sign, and what follows a sign. -/
def sign (s : List Char) : Bool × List Char :=
  if s.head? = some '-' then (true, s.tail)
  else if s.head? = some '+' then (false, s.tail)
  else (false, s)

def stoi (s : List Char) : Except ConversionError ℤ :=
  let r := sign (s.dropWhile isSpace)
  let digits := r.2.takeWhile Char.isDigit
  let v : ℤ := if r.1 then -(value digits : ℤ) else value digits
  if digits = [] then .error .invalidArgument
  else if -2147483648 ≤ v ∧ v < 2147483648 then .ok v
  else .error .outOfRange

theorem isSpace_of_isDigit {c : Char} (h : c.isDigit = true) : isSpace c = false := by
  apply Bool.eq_false_iff.mpr
  intro hspace
  have hmem := of_decide_eq_true hspace
  simp only [List.mem_cons, List.not_mem_nil, or_false] at hmem
  rcases hmem with rfl | rfl | rfl | rfl | rfl | rfl <;> exact absurd h (by decide)

theorem dropWhile_isSpace {s : List Char} (h : Digits s) : s.dropWhile isSpace = s := by
  obtain ⟨c, cs, rfl⟩ := List.exists_cons_of_ne_nil h.1
  rw [List.dropWhile_cons_of_neg]
  simp [isSpace_of_isDigit (h.2 c (by simp))]

theorem sign_of_isDigit {c : Char} (h : c.isDigit = true) (s : List Char) :
    sign (c :: s) = (false, c :: s) := by
  have hminus : c ≠ '-' := by
    rintro rfl
    exact absurd h (by decide)
  have hplus : c ≠ '+' := by
    rintro rfl
    exact absurd h (by decide)
  simp [sign, hminus, hplus]

theorem stoi_of_digits {s : List Char} (h : Digits s) (hfits : value s < 2147483648) :
    stoi s = .ok (value s : ℤ) := by
  obtain ⟨c, cs, rfl⟩ := List.exists_cons_of_ne_nil h.1
  have hc : c.isDigit = true := h.2 c (by simp)
  have hdigits : (c :: cs).takeWhile Char.isDigit = c :: cs := List.takeWhile_eq_self_iff.mpr h.2
  simp only [stoi, dropWhile_isSpace h, sign_of_isDigit hc, hdigits]
  rw [if_neg (by simp), if_pos]
  · rfl
  · simp only [Bool.false_eq_true, if_false]
    omega

def simpleAtoi (s : List Char) : Option ℤ :=
  let r := sign ((s.dropWhile isSpace).rdropWhile isSpace)
  let v : ℤ := if r.1 then -(value r.2 : ℤ) else value r.2
  if Digits r.2 ∧ -2147483648 ≤ v ∧ v < 2147483648 then some v else none

theorem simpleAtoi_of_digits {s : List Char} (h : Digits s) (hfits : value s < 2147483648) :
    simpleAtoi s = some (value s : ℤ) := by
  obtain ⟨c, cs, rfl⟩ := List.exists_cons_of_ne_nil h.1
  have hc : c.isDigit = true := h.2 c (by simp)
  have hright : (c :: cs).rdropWhile isSpace = c :: cs := by
    apply List.rdropWhile_eq_self_iff.mpr
    intro hne
    simp [isSpace_of_isDigit (h.2 _ (List.getLast_mem hne))]
  simp only [simpleAtoi, dropWhile_isSpace h, hright, sign_of_isDigit hc]
  rw [if_pos]
  · rfl
  · simp only [Bool.false_eq_true, if_false]
    exact ⟨h, by omega, by omega⟩

structure TextLibrary where
  stripPrefix : List Char → List Char → List Char
  simpleAtoi : List Char → Option ℤ
  stripPrefix_append : ∀ p l, stripPrefix p (p ++ l) = l
  stripPrefix_of_not_prefix : ∀ {p l}, ¬ p <+: l → stripPrefix p l = l
  simpleAtoi_of_digits : ∀ {s}, Digits s → value s < 2147483648 →
    simpleAtoi s = some (value s : ℤ)

attribute [simp] TextLibrary.stripPrefix_append

def library : TextLibrary where
  stripPrefix := stripPrefix
  simpleAtoi := simpleAtoi
  stripPrefix_append p l := by simp [stripPrefix]
  stripPrefix_of_not_prefix h := if_neg (mt List.isPrefixOf_iff_prefix.mp h)
  simpleAtoi_of_digits := simpleAtoi_of_digits

end Text
