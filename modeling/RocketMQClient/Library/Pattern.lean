import Mathlib.Computability.Language

/-!
# Patterns of repeated characters

A pattern is a sequence of pieces, and a piece stands for a number of characters of one class.
The language of a pattern is the product of those of its pieces. A text matches in full if it is
in the language, which settles `fullMatch` however it is computed.
-/

namespace Pattern
variable {α : Type*}

structure Piece (α : Type*) where
  accepts : α → Bool
  least : ℕ := 1
  most : Option ℕ := none

namespace Piece

def language (p : Piece α) : Language α :=
  {s | (∀ c ∈ s, p.accepts c = true) ∧ p.least ≤ s.length ∧ ∀ n ∈ p.most, s.length ≤ n}

def fits (p : Piece α) (s : List α) : Bool :=
  s.all p.accepts && decide (p.least ≤ s.length) && p.most.all fun n => decide (s.length ≤ n)

theorem mem_language {p : Piece α} {s : List α} :
    s ∈ p.language ↔
      (∀ c ∈ s, p.accepts c = true) ∧ p.least ≤ s.length ∧ ∀ n ∈ p.most, s.length ≤ n := Iff.rfl

theorem fits_iff {p : Piece α} {s : List α} : p.fits s = true ↔ s ∈ p.language := by
  rw [mem_language]
  cases hmost : p.most <;> simp [fits, hmost, and_assoc]

end Piece

def language (ps : List (Piece α)) : Language α := (ps.map Piece.language).prod

def fullMatch : List (Piece α) → List α → Bool
  | [], s => s.isEmpty
  | p :: ps, s =>
    (List.range (s.length + 1)).any fun n => p.fits (s.take n) && fullMatch ps (s.drop n)

theorem fullMatch_iff {ps : List (Piece α)} {s : List α} :
    fullMatch ps s = true ↔ s ∈ language ps := by
  induction ps generalizing s with
  | nil => simp [fullMatch, language, Language.mem_one]
  | cons p ps ih =>
    have hprod : language (p :: ps) = p.language * language ps := List.prod_cons
    simp only [fullMatch, List.any_eq_true, List.mem_range, Bool.and_eq_true, Piece.fits_iff, ih,
      hprod, Language.mem_mul]
    constructor
    · rintro ⟨n, -, hfirst, hrest⟩
      exact ⟨_, hfirst, _, hrest, List.take_append_drop n s⟩
    · rintro ⟨first, hfirst, rest, hrest, rfl⟩
      refine ⟨first.length, by rw [List.length_append]; omega, ?_⟩
      simpa using ⟨hfirst, hrest⟩

theorem fullMatch_singleton_iff {p : Piece α} {s : List α} :
    fullMatch [p] s = true ↔ s ∈ p.language := by
  rw [fullMatch_iff, language, List.map_singleton, List.prod_singleton]

end Pattern
