/-
Module: Snert.Proofs.BigIntArithmetic
Purpose: The sum, the difference and the product of big integers are exact. Each loop over the
  octets keeps one equation between the octets it has written, its carry and the octets that are
  left.
Trusted boundary: none
Main exports: bigIntArithmetic_exact
-/
import Mathlib.Tactic.LinearCombination
import Snert.Lists.OctetBits
import Snert.Lists.OctetNumber
import Snert.Util.BigInt

namespace Snert

open CModel Lists

namespace BigInt

/-! ### What a big integer stands for -/

/-- The absolute value. -/
def magnitude (n : BigInt) : Nat :=
  number n.value

def toInt (n : BigInt) : Int :=
  n.sign * n.magnitude

/-- The sign is that of the value, and no octet at the front is zero unless the value is. -/
structure Canonical (n : BigInt) : Prop where
  sign_mem : n.sign = -1 ∨ n.sign = 0 ∨ n.sign = 1
  sign_zero : n.sign = 0 ↔ n.magnitude = 0
  front : n.magnitude ≠ 0 → n.value.head? ≠ some 0

theorem Canonical.front_of_sign {n : BigInt} (h : n.Canonical) (hsign : n.sign ≠ 0) :
    n.value.head? ≠ some 0 :=
  h.front fun hzero => hsign (h.sign_zero.mpr hzero)

theorem Canonical.negate {n : BigInt} (h : n.Canonical) : n.negate.Canonical where
  sign_mem := by
    have := h.sign_mem
    simp only [BigInt.negate]
    omega
  sign_zero := (neg_eq_zero (a := n.sign)).trans h.sign_zero
  front := h.front

theorem toInt_negate (n : BigInt) : n.negate.toInt = -n.toInt :=
  Int.neg_mul _ _

theorem magnitude_leftJustify (n : BigInt) : n.leftJustify.magnitude = n.magnitude := by
  have hdrop := number_dropZeros n.value
  rw [leftJustify]
  cases hvalue : n.value.dropWhile (· = 0) with
  | nil => rfl
  | cons c value => rwa [hvalue] at hdrop

theorem front_leftJustify {n : BigInt} (h : n.magnitude ≠ 0) :
    n.leftJustify.value.head? ≠ some 0 := by
  rw [leftJustify]
  cases hvalue : n.value.dropWhile (· = 0) with
  | nil =>
      have hzero := number_dropZeros n.value
      rw [hvalue, number_nil] at hzero
      exact absurd hzero.symm h
  | cons c value =>
      have hne : n.value.dropWhile (· = 0) ≠ [] := by simp [hvalue]
      have hc := List.head_dropWhile_not (· = (0 : Octet)) hne
      simpa [hvalue] using hc

theorem canonical_leftJustify {sign : Int} {value : List Octet}
    (hmem : sign = -1 ∨ sign = 0 ∨ sign = 1) (hzero : sign = 0 ↔ number value = 0) :
    ({ leftJustify ⟨0, value⟩ with sign := sign } : BigInt).Canonical where
  sign_mem := hmem
  sign_zero := by
    have hmagnitude : number (leftJustify ⟨0, value⟩).value = number value :=
      magnitude_leftJustify ⟨0, value⟩
    rw [magnitude, hmagnitude]
    exact hzero
  front := fun h => front_leftJustify fun hvalue => h <| by
    have hmagnitude : number (leftJustify ⟨0, value⟩).value = number value :=
      magnitude_leftJustify ⟨0, value⟩
    rw [magnitude, hmagnitude]
    exact hvalue

theorem toInt_leftJustify (sign : Int) (value : List Octet) :
    ({ leftJustify ⟨0, value⟩ with sign := sign } : BigInt).toInt = sign * number value := by
  have hmagnitude : number (leftJustify ⟨0, value⟩).value = number value :=
    magnitude_leftJustify ⟨0, value⟩
  rw [toInt, magnitude, hmagnitude]

/-! ### Comparison -/

/-- The sign of a comparison of two natural numbers. -/
def Compares (i : Int) (a b : Nat) : Prop :=
  (i = -1 ∧ a < b) ∨ (i = 0 ∧ a = b) ∨ (i = 1 ∧ b < a)

theorem compareOctets_spec {a b : List Octet} (h : a.length = b.length) :
    Compares (compareOctets a b) (number a) (number b) := by
  induction a generalizing b with
  | nil =>
      obtain rfl := List.eq_nil_of_length_eq_zero h.symm
      exact .inr (.inl ⟨rfl, rfl⟩)
  | cons c a ih =>
      cases b with
      | nil => simp at h
      | cons d b =>
          have hlength : a.length = b.length := Nat.succ.inj h
          rw [compareOctets]
          by_cases hlt : c < d
          · rw [if_pos hlt]
            exact .inl ⟨rfl, number_cons_lt hlt hlength⟩
          · by_cases hgt : d < c
            · rw [if_neg hlt, if_pos hgt]
              exact .inr (.inr ⟨rfl, number_cons_lt hgt hlength.symm⟩)
            · obtain rfl : c = d := UInt8.le_antisymm (UInt8.not_lt.mp hgt) (UInt8.not_lt.mp hlt)
              rw [if_neg hlt, if_neg hgt, number_cons, number_cons, hlength]
              have hrest := ih hlength
              unfold Compares at hrest ⊢
              omega

theorem compareAbs_spec {x y : BigInt} (hx : x.value.head? ≠ some 0) (hy : y.value.head? ≠ some 0) :
    Compares (compareAbs x y) x.magnitude y.magnitude := by
  rw [compareAbs]
  by_cases hlt : x.length < y.length
  · rw [if_pos hlt]
    exact .inl ⟨rfl, number_lt_of_length_lt hlt hy⟩
  · by_cases hgt : y.length < x.length
    · rw [if_neg hlt, if_pos hgt]
      exact .inr (.inr ⟨rfl, number_lt_of_length_lt hgt hx⟩)
    · rw [if_neg hlt, if_neg hgt]
      exact compareOctets_spec (Nat.le_antisymm (Nat.not_lt.mp hgt) (Nat.not_lt.mp hlt))

/-! ### The sum -/

theorem number_reverse_cons (c : Octet) (l : List Octet) :
    number (c :: l).reverse = number l.reverse * 256 + c.toNat := by
  rw [List.reverse_cons, number_concat]

theorem toNat_ofNat (n : Nat) : (UInt8.ofNat n).toNat = n % 256 :=
  UInt8.toNat_ofNat'

theorem addCommon_spec {x y : List Octet} (h : y.length ≤ x.length) (sum : Nat) (hsum : sum < 512)
    (z : List Octet) : ∃ rest last written, addCommon x y sum z = some (rest, last, written ++ z) ∧
      last < 512 ∧ number written + 256 ^ written.length * (number rest.reverse + last / 256)
        = number x.reverse + number y.reverse + sum / 256 := by
  induction y generalizing x sum z with
  | nil => exact ⟨x, sum, [], by rw [addCommon.eq_1]; rfl, hsum, by simp⟩
  | cons b y ih =>
      cases x with
      | nil => simp at h
      | cons a x =>
          have ha : a.toNat < 256 := a.toNat_lt
          have hb : b.toNat < 256 := b.toNat_lt
          have hshift : sum >>> 8 = sum / 256 := Nat.shiftRight_eq_div_pow sum 8
          have hnext : a.toNat + b.toNat + sum >>> 8 < 512 := by omega
          obtain ⟨rest, last, written, hrun, hlast, heq⟩ := ih (Nat.le_of_succ_le_succ h) _ hnext
            (UInt8.ofNat (a.toNat + b.toNat + sum >>> 8) :: z)
          refine ⟨rest, last, written ++ [UInt8.ofNat (a.toNat + b.toNat + sum >>> 8)], ?_, hlast,
            ?_⟩
          · rw [addCommon, hrun]
            simp
          · rw [number_concat, number_reverse_cons, number_reverse_cons, toNat_ofNat,
              List.length_append, List.length_singleton, pow_succ]
            rw [hshift] at heq ⊢
            have hdiv := Nat.div_add_mod (a.toNat + b.toNat + sum / 256) 256
            linear_combination 256 * heq + hdiv

theorem addCarry_spec (x : List Octet) (carry : Bool) (z : List Octet) :
    ∃ rest last written, addCarry x carry z = (rest, last, written ++ z) ∧
      rest.length + written.length = x.length ∧ (last = true → rest = []) ∧
      number written + 256 ^ written.length * (number rest.reverse + last.toNat)
        = number x.reverse + carry.toNat := by
  induction x generalizing carry z with
  | nil => exact ⟨[], carry, [], by cases carry <;> rfl, rfl, fun _ => rfl, by simp⟩
  | cons a x ih =>
      cases carry with
      | false => exact ⟨a :: x, false, [], rfl, rfl, nofun, by simp⟩
      | true =>
          obtain ⟨rest, last, written, hrun, hlength, hrest, heq⟩ := ih (a + 1 = 0) ((a + 1) :: z)
          refine ⟨rest, last, written ++ [a + 1], ?_, ?_, hrest, ?_⟩
          · rw [addCarry, hrun]
            simp
          · rw [List.length_append, List.length_singleton, List.length_cons]
            omega
          · have hstep : (decide (a + 1 = 0)).toNat * 256 + (a + 1).toNat = a.toNat + 1 :=
              forall_octet (P := fun a =>
                (decide (a + 1 = 0)).toNat * 256 + (a + 1).toNat = a.toNat + 1)
                (by decide +kernel) a
            rw [number_concat, number_reverse_cons, List.length_append, List.length_singleton,
              pow_succ]
            simp only [Bool.toNat_true]
            linear_combination 256 * heq + hstep

theorem addOrdered_spec {x y : BigInt} (hle : y.length ≤ x.length) : ∃ value,
    (do
      let (x, sum, z) ← addCommon x.value.reverse y.value.reverse 0 []
      let (x, carry, z) := addCarry x (sum >>> 8 ≠ 0) z
      let z := x.reverse ++ z
      let z := if carry then 1 :: z else 0 :: z
      pure (leftJustify ⟨0, z⟩)) = some (leftJustify ⟨0, value⟩) ∧
    number value = x.magnitude + y.magnitude := by
  obtain ⟨rest, sum, written, hcommon, hsum, heq⟩ := addCommon_spec
    (x := x.value.reverse) (y := y.value.reverse) (by simpa [BigInt.length] using hle)
    0 (by decide) []
  obtain ⟨last, carry, carried, hcarry, -, hlast, heq'⟩ :=
    addCarry_spec rest (sum >>> 8 ≠ 0) (written ++ [])
  have hshift : sum >>> 8 = sum / 256 := Nat.shiftRight_eq_div_pow sum 8
  have hbit : (decide (sum >>> 8 ≠ 0)).toNat = sum / 256 := by
    rw [hshift]
    by_cases h : sum / 256 = 0
    · simp [h]
    · have hone : sum / 256 = 1 := by omega
      simp [hone]
  have hfront : number ((if carry then 1 else 0) :: last.reverse) =
      number last.reverse + carry.toNat := by
    cases carry with
    | true =>
        rw [hlast rfl]
        rfl
    | false => rw [number_cons]; simp
  refine ⟨(if carry then 1 else 0) :: last.reverse ++ carried ++ written, ?_, ?_⟩
  · rw [hcommon]
    simp only [Option.bind_eq_bind, Option.bind_some, hcarry]
    cases carry <;> simp
  · rw [List.reverse_reverse, List.reverse_reverse] at heq
    rw [number_append, number_append, hfront]
    rw [hbit] at heq'
    simp only [magnitude]
    linear_combination 256 ^ written.length * heq' + heq

theorem add_spec (xx yy : BigInt) :
    ∃ value, add xx yy = some (leftJustify ⟨0, value⟩) ∧
      number value = xx.magnitude + yy.magnitude := by
  rw [add]
  by_cases hlt : xx.length < yy.length
  · obtain ⟨value, hvalue, hnumber⟩ := addOrdered_spec hlt.le
    refine ⟨value, ?_, hnumber.trans (Nat.add_comm _ _)⟩
    rw [if_pos hlt]
    exact hvalue
  · obtain ⟨value, hvalue, hnumber⟩ := addOrdered_spec (Nat.not_lt.mp hlt)
    refine ⟨value, ?_, hnumber⟩
    rw [if_neg hlt]
    exact hvalue

/-! ### The difference -/

theorem ofNat_emod (n : Int) : ((UInt8.ofNat (n % 256).toNat).toNat : Int) = n % 256 := by
  rw [toNat_ofNat]
  omega

theorem subtractCommon_spec {x y : List Octet} (h : y.length ≤ x.length) (diff : Int)
    (hdiff : -256 ≤ diff ∧ diff < 256) (z : List Octet) : ∃ rest last written,
      subtractCommon x y diff z = some (rest, last, written ++ z) ∧ (-256 ≤ last ∧ last < 256) ∧
        (number written : Int) + 256 ^ written.length * (number rest.reverse + last / 256)
          = number x.reverse - number y.reverse + diff / 256 := by
  induction y generalizing x diff z with
  | nil => exact ⟨x, diff, [], by rw [subtractCommon.eq_1]; rfl, hdiff, by simp⟩
  | cons b y ih =>
      cases x with
      | nil => simp at h
      | cons a x =>
          have ha : a.toNat < 256 := a.toNat_lt
          have hb : b.toNat < 256 := b.toNat_lt
          have hshift : diff >>> (8 : Nat) = diff / 256 := Int.shiftRight_eq_div_pow diff 8
          have hnext : -256 ≤ (a.toNat : Int) - b.toNat + diff >>> (8 : Nat) ∧
              (a.toNat : Int) - b.toNat + diff >>> (8 : Nat) < 256 := by omega
          obtain ⟨rest, last, written, hrun, hlast, heq⟩ := ih (Nat.le_of_succ_le_succ h) _ hnext
            (UInt8.ofNat (((a.toNat : Int) - b.toNat + diff >>> (8 : Nat)) % 256).toNat :: z)
          refine ⟨rest, last,
            written ++ [UInt8.ofNat (((a.toNat : Int) - b.toNat + diff >>> (8 : Nat)) % 256).toNat], ?_,
            hlast, ?_⟩
          · rw [subtractCommon, hrun]
            simp
          · rw [number_concat, number_reverse_cons, number_reverse_cons, List.length_append,
              List.length_singleton, pow_succ]
            push_cast
            rw [ofNat_emod]
            rw [hshift] at heq ⊢
            have hdiv := Int.mul_ediv_add_emod ((a.toNat : Int) - b.toNat + diff / 256) 256
            linear_combination 256 * heq + hdiv

theorem subtractBorrow_spec (x : List Octet) (borrow : Bool) (z : List Octet) :
    ∃ rest last written, subtractBorrow x borrow z = (rest, last, written ++ z) ∧
      (last = true → rest = []) ∧
      (number written : Int) + 256 ^ written.length * (number rest.reverse - last.toNat)
        = number x.reverse - borrow.toNat := by
  induction x generalizing borrow z with
  | nil => exact ⟨[], borrow, [], by cases borrow <;> rfl, fun _ => rfl, by simp⟩
  | cons a x ih =>
      cases borrow with
      | false => exact ⟨a :: x, false, [], rfl, nofun, by simp⟩
      | true =>
          obtain ⟨rest, last, written, hrun, hrest, heq⟩ := ih (a - 1 = 255) ((a - 1) :: z)
          refine ⟨rest, last, written ++ [a - 1], ?_, hrest, ?_⟩
          · rw [subtractBorrow, hrun]
            simp
          · have hstep : ((a - 1).toNat : Int) - (decide (a - 1 = 255)).toNat * 256 = a.toNat - 1 :=
              forall_octet (P := fun a =>
                ((a - 1).toNat : Int) - (decide (a - 1 = 255)).toNat * 256 = a.toNat - 1)
                (by decide +kernel) a
            rw [number_concat, number_reverse_cons, List.length_append, List.length_singleton,
              pow_succ]
            push_cast
            simp only [Bool.toNat_true, Nat.cast_one]
            linear_combination 256 * heq + hstep

theorem subtract_spec {xx yy : BigInt} (hlength : yy.length ≤ xx.length)
    (hle : yy.magnitude ≤ xx.magnitude) :
    ∃ value, subtract xx yy = some (leftJustify ⟨0, value⟩) ∧
      number value = xx.magnitude - yy.magnitude := by
  obtain ⟨rest, diff, written, hcommon, hdiff, heq⟩ := subtractCommon_spec
    (x := xx.value.reverse) (y := yy.value.reverse) (by simpa [BigInt.length] using hlength)
    0 (by decide) []
  obtain ⟨last, borrow, borrowed, hborrow, hlast, heq'⟩ :=
    subtractBorrow_spec rest (diff >>> (8 : Nat) ≠ 0) (written ++ [])
  have hshift : diff >>> (8 : Nat) = diff / 256 := Int.shiftRight_eq_div_pow diff 8
  have hbit : ((decide (diff >>> (8 : Nat) ≠ 0)).toNat : Int) = -(diff / 256) := by
    rw [hshift]
    by_cases h : diff / 256 = 0
    · simp [h]
    · have hone : diff / 256 = -1 := by omega
      simp [hone]
  rw [hbit] at heq'
  rw [List.reverse_reverse, List.reverse_reverse] at heq
  refine ⟨0 :: last.reverse ++ borrowed ++ written, ?_, ?_⟩
  · rw [subtract, hcommon]
    simp only [Option.bind_eq_bind, Option.bind_some, hborrow]
    simp
  · have hnumber : number (0 :: last.reverse ++ borrowed ++ written) =
        number last.reverse * 256 ^ (borrowed.length + written.length) +
          number (borrowed ++ written) := by
      rw [List.append_assoc, number_append, number_cons, List.length_append]
      simp
    have hlow := number_append borrowed written
    have htotal : (number (0 :: last.reverse ++ borrowed ++ written) : Int) -
        256 ^ (borrowed.length + written.length) * borrow.toNat = xx.magnitude - yy.magnitude := by
      rw [hnumber, hlow, pow_add]
      push_cast
      simp only [magnitude]
      linear_combination 256 ^ written.length * heq' + heq
    -- A borrow that is left would make the difference negative.
    have hnone : borrow = false := by
      cases borrow with
      | false => rfl
      | true =>
          have hlt := number_lt (borrowed ++ written)
          rw [List.length_append] at hlt
          have hlt' : (number (borrowed ++ written) : Int) <
              256 ^ (borrowed.length + written.length) := by exact_mod_cast hlt
          rw [hnumber, hlast rfl] at htotal
          simp only [List.reverse_nil, number_nil, Nat.zero_mul, Nat.zero_add, Bool.toNat_true,
            Nat.cast_one, mul_one] at htotal
          omega
    rw [hnone] at htotal
    simp only [Bool.toNat_false, Nat.cast_zero, mul_zero, sub_zero] at htotal
    omega

/-! ### The product -/

theorem number_take_succ {l : List Octet} {i : Nat} (h : i < l.length) :
    number (l.take (i + 1)) = number (l.take i) * 256 + l[i].toNat := by
  rw [List.take_succ_eq_append_getElem h, number_concat]

theorem multiplyOctet_spec (a : Octet) (ix : Nat) {j : Nat} {y : List Octet} (p : List Octet)
    (carry : Nat) (hj : j ≤ y.length) (hp : ix + y.length < p.length) (hcarry : carry < 256) :
    ∃ p' last, multiplyOctet a ix y j p carry = some (p', last) ∧ last < 256 ∧
      p'.length = p.length ∧ p'.take (ix + 1) = p.take (ix + 1) ∧
      number p' + last * 256 ^ (p.length - 1 - ix) =
        number p + (carry + a.toNat * number (y.take j)) * 256 ^ (p.length - 1 - ix - j) := by
  induction j generalizing p carry with
  | zero => exact ⟨p, carry, rfl, hcarry, rfl, rfl, by simp⟩
  | succ iy ih =>
      have hy : iy < y.length := hj
      have hip : iy + ix + 1 < p.length := by omega
      obtain ⟨acc, hacc⟩ : ∃ acc, acc =
        a.toNat * y[iy].toNat + p[iy + ix + 1].toNat + carry := ⟨_, rfl⟩
      have hbound : acc < 65536 := by
        have hmul : a.toNat * y[iy].toNat ≤ 255 * 255 :=
          Nat.mul_le_mul (Nat.le_of_lt_succ a.toNat_lt) (Nat.le_of_lt_succ y[iy].toNat_lt)
        have hc := p[iy + ix + 1].toNat_lt
        omega
      have hshift : acc >>> 8 = acc / 256 := Nat.shiftRight_eq_div_pow acc 8
      obtain ⟨p', last, hrun, hlast, hlength, htake, heq⟩ :=
        ih (p.set (iy + ix + 1) (UInt8.ofNat acc)) (acc >>> 8) hy.le
          (by rwa [List.length_set]) (by omega)
      rw [List.length_set] at hlength heq
      refine ⟨p', last, ?_, hlast, hlength, ?_, ?_⟩
      · rw [multiplyOctet, List.getElem?_eq_getElem hy, List.getElem?_eq_getElem hip]
        simp only [Option.bind_eq_bind, Option.bind_some]
        rw [← hacc, hrun]
      · rw [htake, List.take_set_of_le (by omega)]
      · have hset := number_set hip (UInt8.ofNat acc)
        rw [toNat_ofNat] at hset
        have hexp : p.length - 1 - ix - iy = p.length - 1 - (iy + ix + 1) + 1 := by omega
        have hexp' : p.length - 1 - ix - (iy + 1) = p.length - 1 - (iy + ix + 1) := by omega
        have hdiv := Nat.div_add_mod acc 256
        rw [hexp, hshift, pow_succ] at heq
        rw [hexp', number_take_succ hy]
        zify at heq hset hdiv hacc ⊢
        linear_combination heq + hset +
          256 ^ (p.length - 1 - (iy + ix + 1)) * (hdiv + hacc)

theorem multiplyOctets_spec (x y : List Octet) {i : Nat} {p : List Octet} (hi : i ≤ x.length)
    (hp : p.length = x.length + y.length) (hzero : ∀ c ∈ p.take i, c = 0) :
    ∃ p', multiplyOctets x y i p = some p' ∧
      number p' = number p + number (x.take i) * number y * 256 ^ (x.length - i) := by
  induction i generalizing p with
  | zero => exact ⟨p, rfl, by simp⟩
  | succ ix ih =>
      have hx : ix < x.length := hi
      have hip : ix < p.length := by omega
      obtain ⟨p₁, carry, hrow, hcarry, hlength, htake, heq⟩ := multiplyOctet_spec x[ix]
        ix p 0 (Nat.le_refl y.length) (by omega) (by decide)
      have hip₁ : ix < p₁.length := hlength ▸ hip
      have hold : p₁[ix] = 0 := by
        refine hzero _ (htake ▸ ?_)
        rw [List.take_succ_eq_append_getElem hip₁]
        exact List.mem_append_right _ (List.mem_singleton_self _)
      have hrest : ∀ c ∈ (p₁.set ix (UInt8.ofNat carry)).take ix, c = 0 := by
        intro c hc
        rw [List.take_set_of_le (Nat.le_refl ix)] at hc
        refine hzero c (htake ▸ ?_)
        exact (List.take_prefix_take_left (Nat.le_succ ix)).subset hc
      have hlength' : (p₁.set ix (UInt8.ofNat carry)).length = x.length + y.length := by
        rw [List.length_set, hlength, hp]
      obtain ⟨p', hrun, heq'⟩ := ih hx.le hlength' hrest
      refine ⟨p', ?_, ?_⟩
      · rw [multiplyOctets, List.getElem?_eq_getElem hx]
        simp only [Option.bind_eq_bind, Option.bind_some, hrow, if_pos hip₁, hrun]
      · have hset := number_set hip₁ (UInt8.ofNat carry)
        rw [hold, toNat_ofNat, Nat.mod_eq_of_lt hcarry, hlength] at hset
        have hexp : p.length - 1 - ix - y.length = x.length - (ix + 1) := by omega
        have hexp' : x.length - ix = x.length - (ix + 1) + 1 := by omega
        rw [List.take_length, hexp] at heq
        rw [hexp', pow_succ] at heq'
        rw [number_take_succ hx]
        simp only [UInt8.toNat_zero, Nat.zero_mul, Nat.add_zero] at hset
        zify at heq heq' hset ⊢
        linear_combination heq' + hset + heq

theorem multiply_spec (x y : List Octet) :
    ∃ p, multiplyOctets x y x.length (List.replicate (x.length + y.length) 0) = some p ∧
      number p = number x * number y := by
  obtain ⟨p, hrun, heq⟩ := multiplyOctets_spec x y (Nat.le_refl x.length)
    (List.length_replicate (n := x.length + y.length) (a := (0 : Octet)))
    fun c hc => List.eq_of_mem_replicate (List.mem_of_mem_take hc)
  refine ⟨p, hrun, ?_⟩
  rw [heq, number_replicate_zero, List.take_length]
  simp

/-! ### The operations -/

theorem Canonical.magnitude_ne_zero {n : BigInt} (h : n.Canonical) (hsign : n.sign ≠ 0) :
    n.magnitude ≠ 0 :=
  fun hzero => hsign (h.sign_zero.mpr hzero)

theorem toInt_of_sign {n : BigInt} (hsign : n.sign = 0) : n.toInt = 0 := by
  rw [toInt, hsign, Int.zero_mul]

/-- A number with a result of the given value. -/
def Denotes (result : Option BigInt) (value : Int) : Prop :=
  ∃ number, result = some number ∧ number.Canonical ∧ number.toInt = value

theorem denotes_map {result : Option BigInt} {sign : Int} {value : List Octet}
    (hresult : result = some (leftJustify ⟨0, value⟩))
    (hmem : sign = -1 ∨ sign = 0 ∨ sign = 1) (hzero : sign = 0 ↔ number value = 0) {total : Int}
    (htotal : sign * number value = total) :
    Denotes (result.map fun number => { number with sign := sign }) total :=
  ⟨_, congrArg (Option.map _) hresult, canonical_leftJustify hmem hzero,
    (toInt_leftJustify sign value).trans htotal⟩

theorem denotes_add {xx yy : BigInt} (hx : xx.Canonical) (hsign : xx.sign ≠ 0) :
    Denotes ((add xx yy).map fun sum => { sum with sign := xx.sign })
      (xx.sign * (xx.magnitude + yy.magnitude)) := by
  obtain ⟨value, hadd, hnumber⟩ := add_spec xx yy
  have hpos := hx.magnitude_ne_zero hsign
  refine denotes_map hadd hx.sign_mem ?_ (by rw [hnumber, Nat.cast_add])
  rw [hnumber]
  omega

theorem denotes_subtract {xx yy : BigInt} (hx : xx.Canonical) (hy : yy.Canonical)
    (hsign : xx.sign ≠ 0) (hsign' : yy.sign ≠ 0) :
    Denotes ((if 0 ≤ compareAbs xx yy then subtract xx yy else subtract yy xx).map fun diff =>
      { diff with sign := compareAbs xx yy * xx.sign })
      (xx.sign * (xx.magnitude - yy.magnitude)) := by
  have hxfront := hx.front_of_sign hsign
  have hyfront := hy.front_of_sign hsign'
  have hmem := hx.sign_mem
  have hle : ∀ {a b : BigInt}, a.value.head? ≠ some 0 → b.magnitude ≤ a.magnitude →
      b.value.head? ≠ some 0 → b.length ≤ a.length := fun _ hmagnitude hb =>
    Nat.not_lt.mp fun hlt => Nat.not_lt.mpr hmagnitude (number_lt_of_length_lt hlt hb)
  obtain ⟨hcmp, hlt⟩ | ⟨hcmp, heq⟩ | ⟨hcmp, hgt⟩ := compareAbs_spec hxfront hyfront
  · obtain ⟨value, hsub, hnumber⟩ := subtract_spec (hle hyfront hlt.le hxfront) hlt.le
    rw [hcmp, if_neg (by decide)]
    refine denotes_map hsub (by omega) (by omega) ?_
    rw [hnumber, Nat.cast_sub hlt.le]
    ring
  · obtain ⟨value, hsub, hnumber⟩ := subtract_spec (hle hxfront heq.ge hyfront) heq.ge
    rw [hcmp, if_pos (by decide)]
    refine denotes_map hsub (by omega) (by omega) ?_
    rw [heq]
    ring
  · obtain ⟨value, hsub, hnumber⟩ := subtract_spec (hle hxfront hgt.le hyfront) hgt.le
    rw [hcmp, if_pos (by decide)]
    refine denotes_map hsub (by omega) (by omega) ?_
    rw [hnumber, Nat.cast_sub hgt.le]
    ring

theorem denotes_BigIntAdd {xx yy : BigInt} (hx : xx.Canonical) (hy : yy.Canonical) :
    Denotes (BigIntAdd xx yy) (xx.toInt + yy.toInt) := by
  rw [BigIntAdd]
  by_cases hxzero : xx.sign = 0
  · rw [if_pos hxzero]
    exact ⟨yy, rfl, hy, by rw [toInt_of_sign hxzero, Int.zero_add]⟩
  · by_cases hyzero : yy.sign = 0
    · rw [if_neg hxzero, if_pos hyzero]
      exact ⟨xx, rfl, hx, by rw [toInt_of_sign hyzero, Int.add_zero]⟩
    · rw [if_neg hxzero, if_neg hyzero, toInt, toInt]
      by_cases hsigns : xx.sign = yy.sign
      · rw [if_pos hsigns, ← hsigns, ← Int.mul_add]
        exact denotes_add hx hxzero
      · have hxmem := hx.sign_mem
        have hymem := hy.sign_mem
        have hneg : yy.sign = -xx.sign := by omega
        rw [if_neg hsigns, hneg, Int.neg_mul, ← Int.sub_eq_add_neg, ← Int.mul_sub]
        exact denotes_subtract hx hy hxzero hyzero

theorem denotes_BigIntSubtract {xx yy : BigInt} (hx : xx.Canonical) (hy : yy.Canonical) :
    Denotes (BigIntSubtract xx yy) (xx.toInt - yy.toInt) := by
  rw [BigIntSubtract]
  by_cases hxzero : xx.sign = 0
  · rw [if_pos hxzero]
    refine ⟨yy.negate, rfl, hy.negate, ?_⟩
    rw [toInt_negate, toInt_of_sign hxzero, Int.zero_sub]
  · by_cases hyzero : yy.sign = 0
    · rw [if_neg hxzero, if_pos hyzero]
      exact ⟨xx, rfl, hx, by rw [toInt_of_sign hyzero, Int.sub_zero]⟩
    · rw [if_neg hxzero, if_neg hyzero, toInt, toInt]
      by_cases hsigns : xx.sign = yy.sign
      · rw [if_neg (not_not.mpr hsigns), ← hsigns, ← Int.mul_sub]
        exact denotes_subtract hx hy hxzero hyzero
      · have hxmem := hx.sign_mem
        have hymem := hy.sign_mem
        have hneg : yy.sign = -xx.sign := by omega
        rw [if_pos hsigns, hneg, Int.neg_mul, Int.sub_neg, ← Int.mul_add]
        exact denotes_add hx hxzero

theorem denotes_BigIntMultiply {xx yy : BigInt} (hx : xx.Canonical) (hy : yy.Canonical) :
    Denotes (BigIntMultiply xx yy) (xx.toInt * yy.toInt) := by
  rw [BigIntMultiply]
  by_cases hzero : xx.sign = 0 ∨ yy.sign = 0
  · rw [if_pos hzero]
    refine ⟨create 0, rfl, ⟨.inr (.inl rfl), iff_of_true rfl rfl, fun h => absurd rfl h⟩, ?_⟩
    obtain hzero | hzero := hzero
    · rw [toInt_of_sign hzero, Int.zero_mul]
      rfl
    · rw [toInt_of_sign hzero, Int.mul_zero]
      rfl
  · rw [if_neg hzero]
    push Not at hzero
    obtain ⟨hxzero, hyzero⟩ := hzero
    have hxmem := hx.sign_mem
    have hymem := hy.sign_mem
    obtain ⟨p, hrun, hnumber⟩ := multiply_spec xx.value yy.value
    have hproduct : number p ≠ 0 := by
      rw [hnumber]
      exact Nat.mul_ne_zero (hx.magnitude_ne_zero hxzero) (hy.magnitude_ne_zero hyzero)
    refine ⟨{ leftJustify ⟨0, p⟩ with sign := xx.sign * yy.sign }, ?_,
      canonical_leftJustify ?_ ?_, ?_⟩
    · simp only [create, BigInt.length, hrun, Option.bind_eq_bind, Option.bind_some]
      rfl
    · obtain h | h | h := hxmem <;> obtain h' | h' | h' := hymem <;> simp [h, h']
    · exact iff_of_false (mul_ne_zero hxzero hyzero) hproduct
    · rw [toInt_leftJustify, hnumber, toInt, toInt, magnitude, magnitude]
      push_cast
      ring

end BigInt

/-- A big integer in canonical form. -/
structure CanonicalBigInt extends BigInt where
  canonical : toBigInt.Canonical

/-- The sum, the difference and the product of canonical numbers are canonical and exact. -/
theorem bigIntArithmetic_exact (x y : CanonicalBigInt) :
    (∃ s, BigIntAdd x.toBigInt y.toBigInt = some s ∧ s.Canonical ∧
      s.toInt = x.toInt + y.toInt) ∧
    (∃ d, BigIntSubtract x.toBigInt y.toBigInt = some d ∧ d.Canonical ∧
      d.toInt = x.toInt - y.toInt) ∧
    (∃ p, BigIntMultiply x.toBigInt y.toBigInt = some p ∧ p.Canonical ∧
      p.toInt = x.toInt * y.toInt) :=
  ⟨BigInt.denotes_BigIntAdd x.canonical y.canonical,
    BigInt.denotes_BigIntSubtract x.canonical y.canonical,
    BigInt.denotes_BigIntMultiply x.canonical y.canonical⟩

end Snert
