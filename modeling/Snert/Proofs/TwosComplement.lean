/-
Module: Snert.Proofs.TwosComplement
Purpose: Which two's complement numbers `BigIntFromBytes` decodes. The loop that adds one stops
  where no carry is left to be added and goes on where one is, the other way round: it is right for
  one octet that is not 255, and wrong for any longer complement.
Trusted boundary: none
Main exports: bigIntFromBytes_iff
-/
import Mathlib.Data.List.TakeWhile
import Snert.Proofs.BigIntArithmetic
import Snert.Util.BigInt

namespace Snert

open CModel Lists

/-- The number that octets stand for in two's complement, the most significant one first. -/
def twosComplement : List Octet → Int
  | [] => 0
  | c :: value =>
      if c < 0x80 then number (c :: value) else number (c :: value) - 256 ^ (value.length + 1)

namespace BigInt

/-! ### Adding one -/

theorem addOne_exact_iff (c : Octet) (value : List Octet) :
    number (addOne (c :: value)).reverse = number (c :: value).reverse + 1 ↔
      c ≠ 0xff ∧ value = [] := by
  have hc := c.toNat_lt
  have hnext : (c + 1).toNat = (c.toNat + 1) % 256 := UInt8.toNat_add ..
  have hmax : c ≠ 0xff ↔ c.toNat ≠ 255 := not_congr UInt8.toNat_inj.symm
  have hzero : c + 1 = 0 ↔ c.toNat = 255 := by
    rw [← UInt8.toNat_inj, hnext]
    change _ = 0 ↔ _
    omega
  rw [addOne]
  by_cases hcarry : c + 1 = 0
  · -- A carry would have to go on.
    have h255 := hzero.mp hcarry
    rw [if_pos hcarry, number_reverse_cons, number_reverse_cons, hcarry, h255]
    refine iff_of_false ?_ fun h => hmax.mp h.1 h255
    change _ + 0 ≠ _
    omega
  · have h255 := mt hzero.mpr hcarry
    rw [if_neg hcarry, number_reverse_cons, number_reverse_cons, hnext,
      Nat.mod_eq_of_lt (by omega), and_iff_right (hmax.mpr h255)]
    cases value with
    | nil => simp [addOne]
    | cons d value =>
        -- The next octet is changed too.
        refine iff_of_false (fun h => ?_) (by simp)
        have hsame : number (addOne (d :: value)).reverse = number (d :: value).reverse := by omega
        have hd := d.toNat_lt
        have hlow := congrArg (· % 256) hsame
        rw [addOne, apply_ite List.reverse, apply_ite number, number_reverse_cons,
          number_reverse_cons, number_reverse_cons, UInt8.toNat_add] at hlow
        change _ = _ at hlow
        have hone : (1 : Octet).toNat = 1 := rfl
        rw [hone] at hlow
        split at hlow <;> omega

/-! ### The complement -/

/-- The octets behind the leading octets 255. -/
def nonSign (value : List Octet) : List Octet :=
  value.dropWhile (· = 0xff)

theorem replicate_append_nonSign (value : List Octet) :
    List.replicate (firstNonSign value) 0xff ++ nonSign value = value := by
  have htake : value.takeWhile (· = 0xff) = List.replicate (firstNonSign value) 0xff := by
    refine List.eq_replicate_iff.mpr ⟨rfl, fun c hc => ?_⟩
    simpa using List.mem_takeWhile_imp hc
  rw [← htake]
  exact List.takeWhile_append_dropWhile

theorem head_nonSign (value : List Octet) : (nonSign value).head? ≠ some 0xff := fun h => by
  have hnot := List.head?_dropWhile_not (· = (0xff : Octet)) value
  rw [← nonSign, h] at hnot
  simp at hnot

theorem drop_firstNonSign (value : List Octet) :
    value.drop (firstNonSign value) = nonSign value := by
  have hdrop : (List.replicate (firstNonSign value) 0xff ++ nonSign value).drop
      (firstNonSign value) = nonSign value := List.drop_left' List.length_replicate
  rwa [replicate_append_nonSign] at hdrop

theorem length_nonSign (value : List Octet) :
    firstNonSign value + (nonSign value).length = value.length := by
  have hsplit := congrArg List.length (replicate_append_nonSign value)
  rwa [List.length_append, List.length_replicate] at hsplit

theorem length_le_secondScan (value : List Octet) :
    value.length ≤ secondScan value (firstNonSign value) ↔
      ∀ c ∈ (nonSign value).head?, c = 0 := by
  have hfirst : value[firstNonSign value]? = (nonSign value).head? := by
    rw [← drop_firstNonSign, List.head?_drop]
  have hlength := length_nonSign value
  rw [secondScan, drop_firstNonSign, hfirst]
  cases hrest : nonSign value with
  | nil =>
      rw [hrest] at hlength
      exact iff_of_true (Nat.le_of_eq hlength.symm) (by simp)
  | cons c rest =>
      rw [hrest, List.length_cons] at hlength
      rw [List.head?_cons]
      by_cases hc : c = 0
      · subst hc
        rw [List.takeWhile_eq_self_iff.mpr (by simp)]
        exact iff_of_true (Nat.le_of_eq hlength.symm) (by simp)
      · rw [List.takeWhile_cons_of_neg (by simpa using hc), List.length_nil]
        exact iff_of_false (by omega) (by simpa using hc)

/-- The octets to which one is added: one cleared octet when there are only signs; otherwise the
complement, behind a cleared octet if it begins with 255. -/
def complement : List Octet → List Octet
  | [] => [0]
  | c :: rest => if c = 0 then 0 :: (c :: rest).map (~~~ ·) else (c :: rest).map (~~~ ·)

theorem changeRepresentation_eq (value : List Octet) :
    changeRepresentation ⟨0, value⟩ =
      ⟨-1, (addOne (complement (nonSign value)).reverse).reverse⟩ := by
  have hextra := length_le_secondScan value
  rw [changeRepresentation]
  dsimp only
  rw [drop_firstNonSign, BigInt.length]
  cases hrest : nonSign value with
  | nil =>
      rw [hrest] at hextra
      rw [if_pos (hextra.mpr (by simp))]
      rfl
  | cons c rest =>
      rw [hrest, List.head?_cons] at hextra
      rw [complement]
      by_cases hc : c = 0
      · rw [if_pos (hextra.mpr (by simpa using hc)), if_pos hc]
        rfl
      · rw [if_neg (mt hextra.mp (by simpa using hc)), if_neg hc]
        rfl

theorem complement_ne_nil (rest : List Octet) : complement rest ≠ [] := by
  cases rest with
  | nil => simp [complement]
  | cons c rest =>
      rw [complement]
      split <;> simp

theorem number_complement_nonSign (value : List Octet) :
    (number (complement (nonSign value)) : Int) + 1 = 256 ^ value.length - number value := by
  have hsplit := number_replicate_max (firstNonSign value) (nonSign value)
  have hlength := length_nonSign value
  have hcomplement : number (complement (nonSign value)) + number (nonSign value) + 1 =
      256 ^ (nonSign value).length := by
    rw [← number_complement]
    cases nonSign value with
    | nil => rfl
    | cons c rest =>
        rw [complement]
        split
        · rw [number_cons]
          simp
        · rfl
  rw [replicate_append_nonSign, hlength] at hsplit
  have hcast : ((256 ^ value.length : Nat) : Int) = 256 ^ value.length := by push_cast; rfl
  omega

theorem complement_single_iff {rest : List Octet} (hhead : rest.head? ≠ some 0xff) :
    (∃ c, c ≠ 0xff ∧ complement rest = [c]) ↔ rest = [] ∨ ∃ c, c ≠ 0 ∧ rest = [c] := by
  cases rest with
  | nil => exact iff_of_true ⟨0, by decide, rfl⟩ (.inl rfl)
  | cons d rest =>
      have hd : d ≠ 0xff := fun h => hhead (congrArg some h)
      have hnot : ∀ d : Octet, ~~~d ≠ 0xff ↔ d ≠ 0 := forall_octet (by decide +kernel)
      rw [complement]
      by_cases hzero : d = 0
      · rw [if_pos hzero]
        simp [hzero]
      · rw [if_neg hzero]
        cases rest with
        | nil => exact iff_of_true ⟨~~~d, (hnot d).mpr hzero, rfl⟩ (.inr ⟨d, hzero, rfl⟩)
        | cons e rest => simp

end BigInt

open BigInt

/-- All octets but the last one are signs, and the last one is not zero. -/
def OneOctetNegative (value : List Octet) : Prop :=
  (∀ c ∈ value.dropLast, c = 0xff) ∧ value.getLast? ≠ some 0

instance (value : List Octet) : Decidable (OneOctetNegative value) :=
  inferInstanceAs (Decidable (_ ∧ _))

theorem oneOctetNegative_iff (value : List Octet) :
    OneOctetNegative value ↔ nonSign value = [] ∨ ∃ c, c ≠ 0 ∧ nonSign value = [c] := by
  have hhead := head_nonSign value
  have hvalue := replicate_append_nonSign value
  rw [OneOctetNegative]
  cases hrest : nonSign value with
  | nil =>
      rw [hrest, List.append_nil] at hvalue
      refine iff_of_true ⟨fun c hc => ?_, fun hlast => ?_⟩ (.inl rfl)
      · rw [← hvalue] at hc
        exact List.eq_of_mem_replicate (List.dropLast_subset _ hc)
      · have hmem := List.mem_of_getLast? hlast
        rw [← hvalue] at hmem
        exact absurd (List.eq_of_mem_replicate hmem) (by decide)
  | cons d rest =>
      rw [hrest] at hvalue hhead
      cases rest with
      | nil =>
          rw [← hvalue, List.dropLast_concat, List.getLast?_concat]
          simp
      | cons e rest =>
          refine iff_of_false (fun h => hhead ?_) (by simp)
          have hmem : d ∈ value.dropLast := by
            rw [← hvalue, List.dropLast_append_of_ne_nil (by simp)]
            simp
          exact congrArg some (h.1 d hmem)

theorem toInt_positive (value : List Octet) :
    (leftJustify ⟨if (value.takeWhile (· = 0)).length < value.length then 1 else 0, value⟩).toInt =
      number value := by
  have hsign : ∀ n : BigInt, (leftJustify n).sign = n.sign := fun n => by
    rw [leftJustify]
    split <;> rfl
  rw [toInt, magnitude_leftJustify, hsign]
  change _ * (number value : Int) = _
  by_cases hzero : number value = 0
  · rw [hzero]
    exact Int.mul_zero _
  · rw [if_pos, Int.one_mul]
    refine Nat.lt_of_le_of_ne (List.takeWhile_prefix _).length_le fun hall => hzero ?_
    have hself := (List.takeWhile_prefix (· = (0 : Octet)) (l := value)).eq_of_length hall
    exact number_eq_zero_iff.mpr fun c hc => by
      simpa using List.takeWhile_eq_self_iff.mp hself c hc

theorem changeRepresentation_toInt_iff (value : List Octet) :
    (changeRepresentation ⟨0, value⟩).toInt = number value - 256 ^ value.length ↔
      ∃ c, c ≠ 0xff ∧ complement (nonSign value) = [c] := by
  have hone := number_complement_nonSign value
  have hvalue : (changeRepresentation ⟨0, value⟩).toInt =
      -(number (addOne (complement (nonSign value)).reverse).reverse : Int) := by
    rw [changeRepresentation_eq, toInt]
    exact Int.neg_one_mul _
  rw [hvalue]
  cases hreverse : (complement (nonSign value)).reverse with
  | nil => exact absurd (List.reverse_eq_nil_iff.mp hreverse) (complement_ne_nil _)
  | cons c l =>
      have hcomplement : complement (nonSign value) = (c :: l).reverse := by
        rw [← hreverse, List.reverse_reverse]
      have hexact := addOne_exact_iff c l
      rw [hcomplement] at hone ⊢
      have hnumber : -(number (addOne (c :: l)).reverse : Int) =
          number value - 256 ^ value.length ↔
            number (addOne (c :: l)).reverse = number (c :: l).reverse + 1 := by omega
      rw [hnumber, hexact]
      constructor
      · rintro ⟨hc, rfl⟩
        exact ⟨c, hc, rfl⟩
      · rintro ⟨d, hd, hsingle⟩
        obtain ⟨rfl, rfl⟩ : c = d ∧ l = [] := by
          simpa using congrArg List.reverse hsingle
        exact ⟨hd, rfl⟩

/-- For every octet array with at least one octet, what `BigIntFromBytes` returns is the number in
two's complement exactly if the number is not below zero, or all octets but the last one are signs
and the last one is not zero. -/
theorem bigIntFromBytes_iff (value : List Octet) (h : value ≠ []) :
    (∃ number, BigIntFromBytes value = some number ∧ number.toInt = twosComplement value) ↔
      (∃ c ∈ value.head?, c < 0x80) ∨ OneOctetNegative value := by
  cases value with
  | nil => exact absurd rfl h
  | cons c rest =>
      by_cases hc : c < 0x80
      · refine iff_of_true ⟨_, if_neg (UInt8.not_le.mpr hc), ?_⟩ (.inl ⟨c, rfl, hc⟩)
        rw [twosComplement, if_pos hc]
        exact toInt_positive (c :: rest)
      · have hnone : ¬ ∃ c' ∈ (c :: rest).head?, c' < 0x80 := by simpa using hc
        have hresult : BigIntFromBytes (c :: rest) =
            some (changeRepresentation ⟨0, c :: rest⟩) := if_pos (UInt8.not_lt.mp hc)
        have hsigned := changeRepresentation_toInt_iff (c :: rest)
        rw [complement_single_iff (head_nonSign _), ← oneOctetNegative_iff] at hsigned
        rw [or_iff_right hnone, twosComplement, if_neg hc, hresult, ← hsigned]
        simp

/-- The octet array of -2. -/
theorem bigIntFromBytes_minusTwo : ∃ number, BigIntFromBytes [0xff, 0xfe] = some number ∧
    number.toInt = twosComplement [0xff, 0xfe] :=
  (bigIntFromBytes_iff [0xff, 0xfe] (by decide)).mpr (.inr (by decide))

/-- 0xfefe stands for -258. The octet 0x01 becomes 0x02, and the one before it, to which no carry
goes, becomes 0x02 too: -514. -/
theorem bigIntFromBytes_addsTwice : ¬ ∀ value : List Octet, value ≠ [] →
    ∃ number, BigIntFromBytes value = some number ∧ number.toInt = twosComplement value := by
  intro h
  obtain ⟨number, hnumber, hvalue⟩ := h [0xfe, 0xfe] (by decide)
  have hresult : BigIntFromBytes [0xfe, 0xfe] = some ⟨-1, [2, 2]⟩ := by decide
  obtain rfl := Option.some.inj (hnumber.symm.trans hresult)
  exact absurd hvalue (by decide)

end Snert
