/-
Module: Snert.Lists.OctetNumber
Purpose: Octet strings as numbers of base 256, the most significant octet first.
Trusted boundary: none
Main exports: number, number_append, number_lt, number_set
-/
import Mathlib.Data.Nat.Digits.Defs

namespace Lists

/-- The number that the octets stand for. -/
def number (l : List UInt8) : Nat :=
  Nat.ofDigits 256 (l.reverse.map UInt8.toNat)

@[simp] theorem number_nil : number [] = 0 := rfl

theorem number_append (a b : List UInt8) :
    number (a ++ b) = number a * 256 ^ b.length + number b := by
  rw [number, List.reverse_append, List.map_append, Nat.ofDigits_append, List.length_map,
    List.length_reverse, Nat.add_comm, Nat.mul_comm]
  rfl

@[simp] theorem number_singleton (c : UInt8) : number [c] = c.toNat :=
  Nat.ofDigits_singleton

theorem number_cons (c : UInt8) (l : List UInt8) :
    number (c :: l) = c.toNat * 256 ^ l.length + number l := by
  rw [← List.singleton_append, number_append, number_singleton]

theorem number_concat (l : List UInt8) (c : UInt8) :
    number (l ++ [c]) = number l * 256 + c.toNat := by
  rw [number_append, number_singleton, List.length_singleton, pow_one]

theorem number_lt (l : List UInt8) : number l < 256 ^ l.length := by
  have hlt : Nat.ofDigits 256 (l.reverse.map UInt8.toNat) <
      256 ^ (l.reverse.map UInt8.toNat).length := by
    refine Nat.ofDigits_lt_base_pow_length (by decide) fun x hx => ?_
    obtain ⟨c, -, rfl⟩ := List.mem_map.mp hx
    exact c.toNat_lt
  rwa [List.length_map, List.length_reverse] at hlt

theorem number_eq_zero_iff {l : List UInt8} : number l = 0 ↔ ∀ c ∈ l, c = 0 := by
  induction l with
  | nil => simp
  | cons c l ih =>
      have hpow : 0 < 256 ^ l.length := Nat.pow_pos (by decide)
      rw [number_cons, Nat.add_eq_zero_iff, Nat.mul_eq_zero, ih, List.forall_mem_cons]
      refine and_congr ?_ Iff.rfl
      rw [or_iff_left hpow.ne', ← UInt8.toNat_inj]
      rfl

theorem number_replicate_zero (n : Nat) : number (List.replicate n 0) = 0 :=
  number_eq_zero_iff.mpr fun _ hc => List.eq_of_mem_replicate hc

theorem number_dropZeros (l : List UInt8) : number (l.dropWhile (· = 0)) = number l := by
  induction l with
  | nil => rfl
  | cons c l ih =>
      by_cases hc : c = 0
      · subst hc
        rw [List.dropWhile_cons_of_pos (by simp), ih, number_cons]
        exact (Nat.zero_add _).symm.trans (congrArg (· + number l) (Nat.zero_mul _).symm)
      · rw [List.dropWhile_cons_of_neg (by simpa using hc)]

theorem number_complement (l : List UInt8) :
    number (l.map (~~~ ·)) + number l + 1 = 256 ^ l.length := by
  induction l with
  | nil => rfl
  | cons c l ih =>
      have hc := c.toNat_lt
      have hcomplement : (~~~c).toNat = 255 - c.toNat := by
        rw [UInt8.toNat_not]
        rfl
      have hsum : (255 - c.toNat) * 256 ^ l.length + c.toNat * 256 ^ l.length =
          255 * 256 ^ l.length := by
        rw [← Nat.add_mul, Nat.sub_add_cancel (by omega)]
      rw [List.map_cons, number_cons, number_cons, hcomplement, List.length_map, List.length_cons,
        pow_succ]
      omega

theorem number_replicate_max (n : Nat) (l : List UInt8) :
    number (List.replicate n 0xff ++ l) + 256 ^ l.length = 256 ^ (n + l.length) + number l := by
  induction n with
  | zero =>
      rw [List.replicate_zero, List.nil_append, Nat.zero_add]
      exact Nat.add_comm _ _
  | succ n ih =>
      have hmax : (0xff : UInt8).toNat = 255 := rfl
      have hpow : 256 ^ (n + 1 + l.length) = 256 ^ (n + l.length) * 256 := by
        rw [Nat.add_right_comm, pow_succ]
      rw [List.replicate_succ, List.cons_append, number_cons, hmax, List.length_append,
        List.length_replicate, hpow]
      omega

/-- One octet is replaced. -/
theorem number_set {l : List UInt8} {i : Nat} (hi : i < l.length) (c : UInt8) :
    number (l.set i c) + l[i].toNat * 256 ^ (l.length - 1 - i) =
      number l + c.toNat * 256 ^ (l.length - 1 - i) := by
  have hset : l.set i c = l.take i ++ c :: l.drop (i + 1) := by
    rw [List.set_eq_take_append_cons_drop, if_pos hi]
  have hsplit : l = l.take i ++ l[i] :: l.drop (i + 1) := by
    rw [← List.drop_eq_getElem_cons hi, List.take_append_drop]
  have hdrop : (l.drop (i + 1)).length = l.length - 1 - i := by
    rw [List.length_drop]
    omega
  have hnumber := congrArg number hsplit
  rw [number_append, number_cons, hdrop] at hnumber
  rw [hset, number_append, number_cons, hdrop, hnumber]
  simp only [List.length_cons]
  omega

/-! ### Order -/

theorem le_number {c : UInt8} (hc : c ≠ 0) (l : List UInt8) : 256 ^ l.length ≤ number (c :: l) := by
  have hpos : 0 < c.toNat := Nat.pos_of_ne_zero fun h => hc (UInt8.toNat_inj.mp h)
  rw [number_cons]
  exact (Nat.le_mul_of_pos_left _ hpos).trans (Nat.le_add_right _ _)

theorem number_lt_of_length_lt {a b : List UInt8} (h : a.length < b.length)
    (hb : b.head? ≠ some 0) : number a < number b := by
  cases b with
  | nil => exact absurd h (Nat.not_lt_zero _)
  | cons c b =>
      have hc : c ≠ 0 := fun h => hb (congrArg some h)
      calc number a < 256 ^ a.length := number_lt a
        _ ≤ 256 ^ b.length := Nat.pow_le_pow_right (by decide) (Nat.le_of_lt_succ h)
        _ ≤ number (c :: b) := le_number hc b

theorem number_cons_lt {c d : UInt8} (hcd : c < d) {a b : List UInt8} (h : a.length = b.length) :
    number (c :: a) < number (d :: b) := by
  have ha := number_lt a
  have hcd : c.toNat + 1 ≤ d.toNat := UInt8.lt_iff_toNat_lt.mp hcd
  rw [number_cons, number_cons, h] at *
  calc c.toNat * 256 ^ b.length + number a < c.toNat * 256 ^ b.length + 256 ^ b.length :=
        Nat.add_lt_add_left ha _
    _ = (c.toNat + 1) * 256 ^ b.length := (Nat.succ_mul _ _).symm
    _ ≤ d.toNat * 256 ^ b.length := Nat.mul_le_mul_right _ hcd
    _ ≤ d.toNat * 256 ^ b.length + number b := Nat.le_add_right _ _

end Lists
