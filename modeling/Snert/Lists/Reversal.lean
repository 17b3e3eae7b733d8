/-
Module: Snert.Lists.Reversal
Purpose: A part of a list is reversed in place by swapping its two ends and going inwards.
  `Reversing` is what the loop keeps: the part that is left has still to be reversed.
Trusted boundary: none
Main exports: Reversing, reversing_part, Reversing.swap, Reversing.finished
-/

namespace Lists

variable {α : Type}

/-- With its items from index `i` to index `j` reversed, the list `l` is `goal`. -/
def Reversing (goal l : List α) (i : Nat) (j : Int) : Prop :=
  ∃ front part back, l = front ++ part ++ back ∧ goal = front ++ part.reverse ++ back ∧
    i = front.length ∧ j = (front.length + part.length : Nat) - 1

/-- The loop begins with the whole part. -/
theorem reversing_part (front part back : List α) :
    Reversing (front ++ part.reverse ++ back) (front ++ part ++ back) front.length
      ((front.length + part.length : Nat) - 1) :=
  ⟨front, part, back, rfl, rfl, rfl, rfl⟩

namespace Reversing

variable {goal l : List α} {i : Nat} {j : Int}

/-- A round swaps the two ends of the part that is left. -/
theorem swap (h : Reversing goal l i j) (hij : i < j) :
    ∃ x y, l[i]? = some x ∧ l[j.toNat]? = some y ∧
      Reversing goal ((l.set i y).set j.toNat x) (i + 1) (j - 1) := by
  obtain ⟨front, part, back, rfl, rfl, rfl, rfl⟩ := h
  -- Two ends, as the part has at least two items.
  obtain ⟨x, mid, y, rfl⟩ : ∃ x mid y, part = x :: (mid ++ [y]) := by
    cases part with
    | nil => simp only [List.length_nil] at hij; omega
    | cons x rest =>
        rcases List.eq_nil_or_concat rest with rfl | ⟨mid, y, rfl⟩
        · simp only [List.length_cons, List.length_nil] at hij
          omega
        · exact ⟨x, mid, y, by rw [List.concat_eq_append]⟩
  have hlast : ((front.length + (x :: (mid ++ [y])).length : Nat) - 1 : Int).toNat =
      front.length + mid.length + 1 := by
    simp only [List.length_cons, List.length_append, List.length_nil]
    omega
  refine ⟨x, y, by simp, ?_, front ++ [y], mid, x :: back, ?_, ?_, ?_, ?_⟩
  · rw [hlast]
    simp [Nat.add_assoc]
  · rw [hlast]
    simp [Nat.add_assoc]
  · simp
  · simp
  · simp only [List.length_cons, List.length_append, List.length_nil]
    omega

/-- Nothing is left to be reversed. -/
theorem finished (h : Reversing goal l i j) (hij : ¬ i < j) : l = goal := by
  obtain ⟨front, part, back, rfl, rfl, rfl, rfl⟩ := h
  match part with
  | [] => rfl
  | [_] => rfl
  | _ :: _ :: part =>
      simp only [List.length_cons] at hij
      omega

end Reversing

end Lists
