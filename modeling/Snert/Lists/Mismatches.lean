/-
Module: Snert.Lists.Mismatches
Purpose: Occurrences of a pattern in a text with a bounded number of mismatches. A shift of the
  pattern that puts more than the bound of the characters behind the window out of place passes no
  occurrence.
Trusted boundary: none
Main exports: mismatchesBelow, mismatches, OccursAt, FirstAt
-/
import Mathlib.Data.Finset.Card
import Mathlib.Data.Int.Notation

namespace Lists

variable {α : Type*} [DecidableEq α]

/-- The positions, of the first `n` of the pattern, at which it differs from the text that starts at
an offset. -/
def mismatchesBelow (pattern text : List α) (offset n : Nat) : Finset Nat :=
  (Finset.range n).filter fun i => pattern[i]? ≠ text[offset + i]?

/-- The number of positions at which a pattern differs from the text that starts at an offset. -/
def mismatches (pattern text : List α) (offset : Nat) : Nat :=
  (mismatchesBelow pattern text offset pattern.length).card

/-- The pattern lies in the text at an offset, but for at most `bound` mismatches. -/
def OccursAt (pattern text : List α) (bound offset : Nat) : Prop :=
  offset + pattern.length ≤ text.length ∧ mismatches pattern text offset ≤ bound

instance (pattern text : List α) (bound offset : Nat) :
    Decidable (OccursAt pattern text bound offset) :=
  inferInstanceAs (Decidable (_ ∧ _))

/-- The answer of a search: the first offset at which the pattern occurs, or -1 if it nowhere
    does. -/
def FirstAt (pattern text : List α) (bound : Nat) (answer : Int) : Prop :=
  (∃ offset : Nat, answer = offset ∧ OccursAt pattern text bound offset ∧
      ∀ before < offset, ¬ OccursAt pattern text bound before) ∨
    answer = -1 ∧ ∀ offset, ¬ OccursAt pattern text bound offset

variable {pattern text : List α} {bound offset : Nat}

@[simp] theorem mismatchesBelow_zero : mismatchesBelow pattern text offset 0 = ∅ := rfl

theorem card_mismatchesBelow_succ (n : Nat) :
    (mismatchesBelow pattern text offset (n + 1)).card =
      (mismatchesBelow pattern text offset n).card +
        if pattern[n]? ≠ text[offset + n]? then 1 else 0 := by
  rw [mismatchesBelow, Finset.range_add_one, Finset.filter_insert]
  split
  · rw [Finset.card_insert_of_notMem (by simp)]
    rfl
  · rfl

theorem card_mismatchesBelow_le {n : Nat} (hn : n ≤ pattern.length) :
    (mismatchesBelow pattern text offset n).card ≤ mismatches pattern text offset :=
  Finset.card_le_card (Finset.filter_subset_filter _ (Finset.range_subset_range.mpr hn))

theorem not_occursAt_of_lt (h : text.length < offset + pattern.length) :
    ¬ OccursAt pattern text bound offset := fun hoccurs =>
  absurd hoccurs.1 (Nat.not_le.mpr h)

theorem not_occursAt_of_shift {shift : Nat} (hpos : 0 < shift)
    (hshift : shift + bound ≤ pattern.length)
    (hmeets : ∀ e ≤ bound, pattern[pattern.length - e - shift]? ≠
      text[offset + pattern.length - e]?) :
    ¬ OccursAt pattern text bound (offset + shift) := by
  rintro ⟨-, hfew⟩
  have hmaps : ∀ e ∈ Finset.range (bound + 1), pattern.length - e - shift ∈
      mismatchesBelow pattern text (offset + shift) pattern.length := by
    intro e he
    have he : e ≤ bound := Nat.lt_succ_iff.mp (Finset.mem_range.mp he)
    rw [mismatchesBelow, Finset.mem_filter, Finset.mem_range]
    refine ⟨by omega, ?_⟩
    have hindex : offset + shift + (pattern.length - e - shift) = offset + pattern.length - e := by
      omega
    rw [hindex]
    exact hmeets e he
  have hinj : Set.InjOn (fun e => pattern.length - e - shift) (Finset.range (bound + 1)) := by
    intro e he e' he' h
    have he := Finset.mem_range.mp he
    have he' := Finset.mem_range.mp he'
    dsimp only at h
    omega
  have hcard := Finset.card_le_card_of_injOn _ hmaps hinj
  rw [Finset.card_range] at hcard
  exact absurd (hcard.trans hfew) (Nat.not_succ_le_self bound)

end Lists
