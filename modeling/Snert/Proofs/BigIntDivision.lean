/-
Module: Snert.Proofs.BigIntDivision
Purpose: The law of division for `BigIntDivideByLong`, and exactly where it holds. The remainder is
  shifted left in a machine word and can lose its top octet, a dividend below zero keeps neither its
  quotient nor the sign of its remainder, and a quotient of zero can be given a sign.
Trusted boundary: none
Main exports: bigIntDivideByLong_iff
-/
import Snert.Proofs.BigIntArithmetic

namespace Snert

open CModel Lists

namespace BigInt

/-! ### A number from a machine word -/

theorem number_unsignedLongOctets (i : Nat) (value : UInt64) (filled : List Octet) :
    number (unsignedLongOctets i value filled) =
      value.toNat % 256 ^ i * 256 ^ filled.length + number filled := by
  induction i generalizing value filled with
  | zero => simp [unsignedLongOctets, Nat.mod_one]
  | succ i ih =>
      have hshift : (value >>> 8).toNat = value.toNat / 256 := by
        rw [UInt64.toNat_shiftRight]
        exact Nat.shiftRight_eq_div_pow _ 8
      have hlow : (value &&& 0xff).toUInt8.toNat = value.toNat % 256 := by
        rw [UInt64.toNat_toUInt8, UInt64.toNat_and]
        rw [show (0xff : UInt64).toNat = 2 ^ 8 - 1 from rfl, Nat.and_two_pow_sub_one_eq_mod]
        omega
      rw [unsignedLongOctets, ih, hshift, number_cons, hlow, List.length_cons, pow_succ, pow_succ',
        Nat.mod_mul]
      ring

theorem leftJustify_sign (sign sign' : Int) (value : List Octet) :
    ({ leftJustify ⟨sign, value⟩ with sign := sign' } : BigInt) =
      { leftJustify ⟨0, value⟩ with sign := sign' } := by
  simp only [leftJustify]
  cases value.dropWhile (· = 0) <;> rfl

theorem denotes_fromUnsignedLong (value : UInt64) {sign : Int}
    (hmem : sign = -1 ∨ sign = 0 ∨ sign = 1) (hzero : sign = 0 ↔ value = 0) :
    ({ fromUnsignedLong value with sign := sign } : BigInt).Canonical ∧
      ({ fromUnsignedLong value with sign := sign } : BigInt).toInt = sign * value.toNat := by
  have hnumber : number (unsignedLongOctets 8 value []) = value.toNat := by
    have hlt := value.toNat_lt
    rw [number_unsignedLongOctets, number_nil, List.length_nil, pow_zero, Nat.mul_one, Nat.add_zero]
    exact Nat.mod_eq_of_lt hlt
  rw [fromUnsignedLong, leftJustify_sign]
  refine ⟨canonical_leftJustify hmem (hzero.trans ?_), ?_⟩
  · rw [hnumber, ← UInt64.toNat_inj]
    rfl
  · rw [toInt_leftJustify, hnumber]

theorem toInt_word (value : Int64) : value.toInt = if value.toUInt64.toNat < 2 ^ 63 then
    (value.toUInt64.toNat : Int) else value.toUInt64.toNat - 2 ^ 64 := by
  have hcond := BitVec.toInt_eq_toNat_cond value.toBitVec
  rw [Int64.toNat_toBitVec] at hcond
  rw [← Int64.toInt_toBitVec, hcond]
  by_cases h : value.toUInt64.toNat < 2 ^ 63
  · rw [if_pos h, if_pos (by omega)]
  · rw [if_neg h, if_neg (by omega)]
    rfl

theorem abs_word (value : Int64) :
    (if value < 0 then -value else value).toUInt64.toNat = value.toInt.natAbs := by
  have hword := toInt_word value
  have hlt := value.toUInt64.toNat_lt
  have hneg : (-value.toUInt64).toNat = (2 ^ 64 - value.toUInt64.toNat) % 2 ^ 64 :=
    UInt64.toNat_neg value.toUInt64
  have hzero : value < 0 ↔ value.toInt < 0 := Int64.lt_iff_toInt_lt
  by_cases h : value < 0
  · rw [if_pos h, Int64.toUInt64_neg, hneg]
    have hneg := hzero.mp h
    split at hword <;> omega
  · rw [if_neg h]
    have hnonneg := mt hzero.mpr h
    split at hword <;> omega

theorem fromLong_spec (value : Int64) :
    (fromLong value).Canonical ∧ (fromLong value).toInt = value.toInt := by
  have habs := abs_word value
  have hneg : value < 0 ↔ value.toInt < 0 := Int64.lt_iff_toInt_lt
  have hpos : 0 < value ↔ 0 < value.toInt := Int64.lt_iff_toInt_lt
  have hword : ∀ {word : UInt64} {sign : Int}, (sign = 0 ↔ value.toInt = 0) →
      word.toNat = value.toInt.natAbs → (sign = 0 ↔ word = 0) := fun hsign hvalue => by
    rw [hsign, ← UInt64.toNat_inj, hvalue]
    exact Int.natAbs_eq_zero.symm
  rw [fromLong]
  by_cases h : value < 0
  · rw [if_pos h] at habs ⊢
    have hlt := hneg.mp h
    obtain ⟨hcanonical, hvalue⟩ :=
      denotes_fromUnsignedLong (-value).toUInt64 (.inl rfl) (hword (by omega) habs)
    refine ⟨hcanonical, hvalue.trans ?_⟩
    omega
  · rw [if_neg h] at habs ⊢
    have hle := mt hneg.mpr h
    by_cases h' : 0 < value
    · rw [if_pos h']
      have hlt := hpos.mp h'
      obtain ⟨hcanonical, hvalue⟩ :=
        denotes_fromUnsignedLong value.toUInt64 (.inr (.inr rfl)) (hword (by omega) habs)
      refine ⟨hcanonical, hvalue.trans ?_⟩
      omega
    · rw [if_neg h']
      have hge := mt hpos.mpr h'
      obtain ⟨hcanonical, hvalue⟩ :=
        denotes_fromUnsignedLong value.toUInt64 (.inr (.inl rfl)) (hword (by omega) habs)
      refine ⟨hcanonical, hvalue.trans ?_⟩
      omega

/-! ### The loop -/

theorem toNat_shiftLeft_or (remainder : UInt64) (c : Octet) :
    (remainder <<< 8 ||| c.toUInt64).toNat = (remainder.toNat * 256 + c.toNat) % 2 ^ 64 := by
  have hc := c.toNat_lt
  have hshift : (remainder <<< 8).toNat = (remainder.toNat % 2 ^ 56) <<< 8 := by
    rw [UInt64.toNat_shiftLeft]
    simp only [Nat.shiftLeft_eq]
    change remainder.toNat * 256 % 2 ^ 64 = _
    omega
  rw [UInt64.toNat_or, hshift, UInt8.toNat_toUInt64, ← Nat.shiftLeft_add_eq_or_of_lt hc,
    Nat.shiftLeft_eq]
  omega

theorem divideOctets_cons {divisor : UInt64} (c : Octet) (value : List Octet) (remainder : UInt64) :
    divideOctets divisor (c :: value) remainder =
      (((remainder <<< 8 ||| c.toUInt64) / divisor).toUInt8 ::
          (divideOctets divisor value ((remainder <<< 8 ||| c.toUInt64) % divisor)).1,
        (divideOctets divisor value ((remainder <<< 8 ||| c.toUInt64) % divisor)).2) := by
  rw [divideOctets]
  generalize remainder <<< 8 ||| c.toUInt64 = next
  by_cases h : divisor ≤ next
  · dsimp only
    rw [if_pos h]
  · have hlt : next.toNat < divisor.toNat := UInt64.lt_iff_toNat_lt.mp (UInt64.not_le.mp h)
    have hdiv : next / divisor = 0 := by
      rw [← UInt64.toNat_inj, UInt64.toNat_div, Nat.div_eq_of_lt hlt]
      rfl
    have hmod : next % divisor = next := by
      rw [← UInt64.toNat_inj, UInt64.toNat_mod, Nat.mod_eq_of_lt hlt]
    dsimp only
    rw [if_neg h, hdiv, hmod]
    rfl

/-- No remainder that is moved up has more than 56 bits, `remainder` being what the octets before
`value` have left. -/
def KeepsFrom (divisor remainder : Nat) (value : List Octet) : Prop :=
  ∀ i < value.length, (remainder * 256 ^ i + number (value.take i)) % divisor < 2 ^ 56

theorem keepsFrom_cons {divisor remainder : Nat} (hlt : remainder < divisor) (c : Octet)
    (value : List Octet) : KeepsFrom divisor remainder (c :: value) ↔
      remainder < 2 ^ 56 ∧ KeepsFrom divisor ((remainder * 256 + c.toNat) % divisor) value := by
  have hstep : ∀ i ≤ value.length, (remainder * 256 ^ (i + 1) + number ((c :: value).take (i + 1)))
      % divisor = ((remainder * 256 + c.toNat) % divisor * 256 ^ i + number (value.take i))
        % divisor := by
    intro i hi
    rw [List.take_succ_cons, number_cons, List.length_take, Nat.min_eq_left hi, Nat.add_mod,
      Nat.add_mod ((remainder * 256 + c.toNat) % divisor * 256 ^ i), Nat.mod_mul_mod]
    rw [← Nat.add_mod, ← Nat.add_mod, pow_succ]
    ring_nf
  constructor
  · intro h
    refine ⟨?_, fun i hi => ?_⟩
    · have hfirst := h 0 (Nat.succ_pos _)
      simpa [Nat.mod_eq_of_lt hlt] using hfirst
    · rw [← hstep i hi.le]
      exact h (i + 1) (Nat.succ_lt_succ hi)
  · rintro ⟨hfirst, hrest⟩ i hi
    cases i with
    | zero => simpa [Nat.mod_eq_of_lt hlt] using hfirst
    | succ i =>
        have hi : i < value.length := Nat.lt_of_succ_lt_succ hi
        rw [hstep i hi.le]
        exact hrest i hi

theorem divideOctets_spec {divisor : UInt64} (value : List Octet) {remainder : UInt64}
    (hlt : remainder.toNat < divisor.toNat) {quotient : List Octet} {last : UInt64}
    (hrun : divideOctets divisor value remainder = (quotient, last)) :
    last.toNat < divisor.toNat ∧ quotient.length = value.length ∧
      number quotient * divisor.toNat + last.toNat ≤
        remainder.toNat * 256 ^ value.length + number value ∧
      (number quotient * divisor.toNat + last.toNat =
        remainder.toNat * 256 ^ value.length + number value ↔
          KeepsFrom divisor.toNat remainder.toNat value) := by
  induction value generalizing remainder quotient last with
  | nil =>
      obtain ⟨rfl, rfl⟩ := Prod.mk.inj hrun
      have hnone : KeepsFrom divisor.toNat remainder.toNat [] := nofun
      simpa [hnone] using hlt
  | cons c value ih =>
      rw [divideOctets_cons] at hrun
      have hnext := toNat_shiftLeft_or remainder c
      generalize remainder <<< 8 ||| c.toUInt64 = next at hrun hnext
      cases hrest : divideOctets divisor value (next % divisor) with
      | mk rest last' =>
          rw [hrest] at hrun
          obtain ⟨rfl, rfl⟩ := Prod.mk.inj hrun
          have hpos : 0 < divisor.toNat := Nat.zero_lt_of_lt hlt
          have hmod : (next % divisor).toNat = next.toNat % divisor.toNat := UInt64.toNat_mod ..
          obtain ⟨hlast, hlength, hle, hiff⟩ :=
            ih (by rw [hmod]; exact Nat.mod_lt _ hpos) hrest
          rw [hmod] at hle hiff
          have hc := c.toNat_lt
          have hdigit : (next / divisor).toUInt8.toNat = next.toNat / divisor.toNat := by
            have hbyte : next.toNat / divisor.toNat < 256 := by
              rw [Nat.div_lt_iff_lt_mul hpos]
              omega
            rw [UInt64.toNat_toUInt8, UInt64.toNat_div]
            exact Nat.mod_eq_of_lt hbyte
          have hpow : 0 < 256 ^ value.length := Nat.pow_pos (by decide)
          have hdiv := Nat.div_add_mod next.toNat divisor.toNat
          -- What the digits make up is what the word has kept of the dividend.
          have hkept : next.toNat / divisor.toNat * 256 ^ value.length * divisor.toNat +
              (next.toNat % divisor.toNat * 256 ^ value.length + number value) =
                next.toNat * 256 ^ value.length + number value := by
            linear_combination 256 ^ value.length * hdiv
          have htotal : remainder.toNat * 256 ^ (value.length + 1) +
              (c.toNat * 256 ^ value.length + number value) =
                (remainder.toNat * 256 + c.toNat) * 256 ^ value.length + number value := by
            ring
          dsimp only
          rw [keepsFrom_cons hlt, number_cons, number_cons, hdigit, List.length_cons,
            List.length_cons, hlength, htotal, Nat.add_mul, Nat.add_assoc]
          refine ⟨hlast, rfl, ?_, ?_⟩
          · have hnarrow : next.toNat * 256 ^ value.length ≤
                (remainder.toNat * 256 + c.toNat) * 256 ^ value.length :=
              Nat.mul_le_mul_right _ (hnext ▸ Nat.mod_le _ _)
            omega
          · by_cases hfits : remainder.toNat < 2 ^ 56
            · have hexact : next.toNat = remainder.toNat * 256 + c.toNat := by omega
              rw [hexact] at hkept hiff ⊢
              rw [← hkept, Nat.add_left_cancel_iff, hiff, and_iff_right hfits]
            · have hnarrow : next.toNat * 256 ^ value.length <
                  (remainder.toNat * 256 + c.toNat) * 256 ^ value.length :=
                Nat.mul_lt_mul_of_pos_right (by omega) hpow
              exact iff_of_false (by omega) fun h => hfits h.1

/-- Every number that the leading octets of the dividend make leaves a remainder of at most 56
bits. -/
def KeepsRemainders (dividend divisor : Nat) : Prop :=
  ∀ k, 0 < k → dividend / 256 ^ k % divisor < 2 ^ 56

theorem number_take (l : List Octet) (i : Nat) :
    number (l.take i) = number l / 256 ^ (l.length - i) := by
  have hsplit : number l =
      number (l.take i) * 256 ^ (l.length - i) + number (l.drop i) := by
    rw [← List.length_drop, ← number_append, List.take_append_drop]
  have hlow : number (l.drop i) < 256 ^ (l.length - i) := by
    rw [← List.length_drop]
    exact number_lt _
  rw [hsplit, Nat.add_comm, Nat.add_mul_div_right _ _ (Nat.pow_pos (by decide)),
    Nat.div_eq_of_lt hlow, Nat.zero_add]

theorem keepsFrom_zero_iff {divisor : Nat} (value : List Octet) :
    KeepsFrom divisor 0 value ↔ KeepsRemainders (number value) divisor := by
  constructor
  · intro h k hk
    by_cases hlong : value.length < k
    · have hzero : number value / 256 ^ k = 0 := Nat.div_eq_of_lt
        ((number_lt value).trans_le (Nat.pow_le_pow_right (by decide) hlong.le))
      rw [hzero, Nat.zero_mod]
      decide
    · by_cases hempty : value.length = 0
      · omega
      · have hkeeps := h (value.length - k) (by omega)
        rw [number_take, Nat.zero_mul, Nat.zero_add,
          Nat.sub_sub_self (Nat.not_lt.mp hlong)] at hkeeps
        exact hkeeps
  · intro h i hi
    rw [Nat.zero_mul, Nat.zero_add, number_take]
    exact h _ (Nat.sub_pos_of_lt hi)

/-! ### The law of division -/

/-- A quotient and a remainder, both canonical, that make up the dividend. -/
def DivisionLaw (result : Option (BigInt × BigInt)) (dividend divisor : Int) : Prop :=
  ∃ q r, result = some (q, r) ∧ q.Canonical ∧ r.Canonical ∧
    dividend = q.toInt * divisor + r.toInt ∧ r.toInt.natAbs < divisor.natAbs

theorem divisionLaw_some {result : Option (BigInt × BigInt)} {q r : BigInt}
    (hresult : result = some (q, r)) (dividend divisor : Int) :
    DivisionLaw result dividend divisor ↔ q.Canonical ∧ r.Canonical ∧
      dividend = q.toInt * divisor + r.toInt ∧ r.toInt.natAbs < divisor.natAbs := by
  constructor
  · rintro ⟨q', r', h, hlaw⟩
    obtain ⟨rfl, rfl⟩ := Prod.mk.inj (Option.some.inj (hresult.symm.trans h))
    exact hlaw
  · exact fun h => ⟨q, r, hresult, h⟩

theorem canonical_leftJustify_iff {sign : Int} {value : List Octet}
    (hmem : sign = -1 ∨ sign = 0 ∨ sign = 1) :
    ({ leftJustify ⟨0, value⟩ with sign := sign } : BigInt).Canonical ↔
      (sign = 0 ↔ number value = 0) := by
  refine ⟨fun h => ?_, canonical_leftJustify hmem⟩
  have hmagnitude : number (leftJustify ⟨0, value⟩).value = number value :=
    magnitude_leftJustify ⟨0, value⟩
  rw [← hmagnitude]
  exact h.sign_zero

theorem compare_spec {a b : BigInt} (ha : a.value.head? ≠ some 0) (hb : b.value.head? ≠ some 0) :
    (a.sign = b.sign → Compares (compare a b) a.magnitude b.magnitude) ∧
      (a.sign ≠ b.sign → compare a b = a.sign - b.sign) := by
  rw [compare]
  refine ⟨fun h => ?_, fun h => if_pos h⟩
  rw [if_neg (not_not.mpr h)]
  exact compareAbs_spec ha hb

theorem divideByLong_loop {dividend : BigInt} {divisor : Int64} (hdivisor : divisor ≠ 0)
    (hsign : dividend.sign = -1 ∨ dividend.sign = 1)
    (hgreater : 0 < compare dividend (fromLong divisor)) :
    ∃ quotient remainder : Nat, remainder < divisor.toInt.natAbs ∧
      quotient * divisor.toInt.natAbs + remainder ≤ dividend.magnitude ∧
      (quotient * divisor.toInt.natAbs + remainder = dividend.magnitude ↔
        KeepsRemainders dividend.magnitude divisor.toInt.natAbs) ∧
      (DivisionLaw (BigIntDivideByLong dividend divisor) dividend.toInt divisor.toInt ↔
        quotient ≠ 0 ∧ dividend.sign * dividend.magnitude =
          dividend.sign * (quotient * divisor.toInt.natAbs : Nat) + remainder) := by
  have habs := abs_word divisor
  have hneg : divisor < 0 ↔ divisor.toInt < 0 := Int64.lt_iff_toInt_lt
  have hbound := divisor.le_toInt
  have hbound' := divisor.toInt_lt
  have hne : divisor.toInt ≠ 0 := fun h => hdivisor (Int64.toInt_inj.mp h)
  cases hrun : divideOctets (if divisor < 0 then -divisor else divisor).toUInt64
      dividend.value 0 with
  | mk value last =>
      obtain ⟨hlast, -, hle, hiff⟩ := divideOctets_spec dividend.value
        (by rw [habs]; exact Int.natAbs_pos.mpr hne) hrun
      rw [habs] at hlast hle hiff
      have hzero : (0 : UInt64).toNat = 0 := rfl
      rw [hzero, Nat.zero_mul, Nat.zero_add] at hle hiff
      rw [keepsFrom_zero_iff] at hiff
      refine ⟨number value, last.toNat, hlast, hle, hiff, ?_⟩
      obtain ⟨hcanonical, hvalue⟩ := fromLong_spec last.toInt64
      rw [toInt_word, UInt64.toUInt64_toInt64, if_pos (by omega)] at hvalue
      have hresult : BigIntDivideByLong dividend divisor = some ({ leftJustify ⟨0, value⟩ with
          sign := dividend.sign.tdiv (if divisor < 0 then -1 else 1) }, fromLong last.toInt64) := by
        rw [BigIntDivideByLong, if_neg hdivisor, if_neg (by omega)]
        dsimp only
        rw [if_neg (by omega), if_neg (by omega), hrun]
      obtain ⟨sign, hquotient⟩ : ∃ sign, sign =
        dividend.sign.tdiv (if divisor < 0 then -1 else 1) := ⟨_, rfl⟩
      -- The sign of the quotient, and what the quotient takes of the dividend.
      have hmem : sign = -1 ∨ sign = 1 := by
        rcases hsign with h | h <;> rw [hquotient, h] <;> split <;> decide
      have htakes : sign * divisor.toInt = dividend.sign * divisor.toInt.natAbs := by
        by_cases h : divisor < 0
        · rw [if_pos h] at hquotient
          have := hneg.mp h
          rcases hsign with hs | hs <;> rw [hs] at hquotient ⊢ <;> rw [hquotient] <;>
            simp only [Int.reduceNeg, Int.reduceTDiv] <;> omega
        · rw [if_neg h] at hquotient
          have := mt hneg.mpr h
          rcases hsign with hs | hs <;> rw [hs] at hquotient ⊢ <;> rw [hquotient] <;>
            simp only [Int.reduceNeg, Int.reduceTDiv] <;> omega
      have hproduct : sign * (number value : Int) * divisor.toInt =
          dividend.sign * (number value * divisor.toInt.natAbs : Nat) := by
        rw [Nat.cast_mul]
        linear_combination (number value : Int) * htakes
      rw [← hquotient] at hresult
      rw [divisionLaw_some hresult, canonical_leftJustify_iff (by omega), toInt_leftJustify,
        and_iff_right hcanonical, hvalue, hproduct, toInt]
      constructor
      · rintro ⟨hsigns, hlaw, -⟩
        exact ⟨fun h => by omega, hlaw⟩
      · rintro ⟨hvalue, hlaw⟩
        exact ⟨iff_of_false (by omega) hvalue, hlaw, by omega⟩

theorem divideByLong_positive {dividend : BigInt} {divisor : Int64} (hdivisor : divisor ≠ 0)
    (hsign : dividend.sign = 1) (hgreater : 0 < compare dividend (fromLong divisor)) :
    DivisionLaw (BigIntDivideByLong dividend divisor) dividend.toInt divisor.toInt ↔
      divisor.toInt.natAbs ≤ dividend.magnitude ∧
        KeepsRemainders dividend.magnitude divisor.toInt.natAbs := by
  obtain ⟨quotient, remainder, hlt, -, hkeeps, hlaw⟩ :=
    divideByLong_loop hdivisor (.inr hsign) hgreater
  rw [hlaw, ← hkeeps, hsign]
  constructor
  · rintro ⟨hquotient, hexact⟩
    have htakes : divisor.toInt.natAbs ≤ quotient * divisor.toInt.natAbs :=
      Nat.le_mul_of_pos_left _ (Nat.pos_of_ne_zero hquotient)
    omega
  · rintro ⟨hle, hexact⟩
    refine ⟨?_, by omega⟩
    rintro rfl
    omega

theorem divideByLong_negative {dividend : BigInt} {divisor : Int64} (hdivisor : divisor ≠ 0)
    (hsign : dividend.sign = -1) (hgreater : 0 < compare dividend (fromLong divisor))
    (hlarger : divisor.toInt.natAbs < dividend.magnitude) :
    DivisionLaw (BigIntDivideByLong dividend divisor) dividend.toInt divisor.toInt ↔
      divisor.toInt.natAbs ∣ dividend.magnitude ∧
        KeepsRemainders dividend.magnitude divisor.toInt.natAbs := by
  obtain ⟨quotient, remainder, hlt, hle, hkeeps, hlaw⟩ :=
    divideByLong_loop hdivisor (.inl hsign) hgreater
  rw [hlaw, ← hkeeps, hsign]
  constructor
  · rintro ⟨-, hexact⟩
    have hnone : remainder = 0 := by omega
    have htotal : dividend.magnitude = quotient * divisor.toInt.natAbs := by omega
    exact ⟨htotal ▸ Nat.dvd_mul_left _ _, by omega⟩
  · rintro ⟨hdvd, hexact⟩
    have hnone : remainder = 0 := by
      rw [← hexact, Nat.dvd_add_right (Nat.dvd_mul_left _ _)] at hdvd
      exact Nat.eq_zero_of_dvd_of_lt hdvd hlt
    refine ⟨?_, by omega⟩
    rintro rfl
    omega

theorem divideByLong_zero {dividend : BigInt} {divisor : Int64} (hdividend : dividend.Canonical)
    (hdivisor : divisor ≠ 0) (hsign : dividend.sign = 0) :
    DivisionLaw (BigIntDivideByLong dividend divisor) dividend.toInt divisor.toInt := by
  have hne : divisor.toInt ≠ 0 := fun h => hdivisor (Int64.toInt_inj.mp h)
  refine ⟨fromBigInt dividend, fromLong 0, ?_, hdividend, (fromLong_spec 0).1, ?_, ?_⟩
  · rw [BigIntDivideByLong, if_neg hdivisor, if_pos hsign]
  · have hquotient : (fromBigInt dividend).toInt = 0 := toInt_of_sign hsign
    rw [(fromLong_spec 0).2, hquotient, toInt_of_sign hsign, Int.zero_mul]
    rfl
  · rw [(fromLong_spec 0).2]
    exact Int.natAbs_pos.mpr hne

theorem divideByLong_smaller {dividend : BigInt} {divisor : Int64} (hdividend : dividend.Canonical)
    (hdivisor : divisor ≠ 0) (hsign : dividend.sign ≠ 0)
    (hsmaller : compare dividend (fromLong divisor) < 0) :
    DivisionLaw (BigIntDivideByLong dividend divisor) dividend.toInt divisor.toInt ↔
      dividend.toInt.natAbs < divisor.toInt.natAbs := by
  have hresult : BigIntDivideByLong dividend divisor = some (fromLong 0, fromBigInt dividend) := by
    rw [BigIntDivideByLong, if_neg hdivisor, if_neg hsign]
    exact if_pos hsmaller
  have hzero : (fromLong 0).toInt = 0 := (fromLong_spec 0).2
  rw [divisionLaw_some hresult, and_iff_right (fromLong_spec 0).1, hzero]
  refine ⟨fun hlaw => hlaw.2.2, fun hlt => ⟨hdividend, ?_, hlt⟩⟩
  rw [Int.zero_mul, Int.zero_add]
  rfl

theorem divideByLong_equal {dividend : BigInt} {divisor : Int64} (hdivisor : divisor ≠ 0)
    (hsign : dividend.sign ≠ 0) (hequal : compare dividend (fromLong divisor) = 0)
    (hvalue : dividend.toInt = divisor.toInt) :
    DivisionLaw (BigIntDivideByLong dividend divisor) dividend.toInt divisor.toInt := by
  have hresult : BigIntDivideByLong dividend divisor = some (fromLong 1, fromLong 0) := by
    rw [BigIntDivideByLong, if_neg hdivisor, if_neg hsign]
    dsimp only
    rw [if_neg (by omega), if_pos hequal]
  have hzero : (fromLong 0).toInt = 0 := (fromLong_spec 0).2
  have hone : (fromLong 1).toInt = 1 := (fromLong_spec 1).2
  have hne : divisor.toInt ≠ 0 := fun h => hdivisor (Int64.toInt_inj.mp h)
  refine ⟨fromLong 1, fromLong 0, hresult, (fromLong_spec 1).1, (fromLong_spec 0).1, ?_, ?_⟩
  · rw [hone, hzero, hvalue]
    omega
  · rw [hzero]
    exact Int.natAbs_pos.mpr hne

end BigInt

open BigInt

/-- When the quotient and the remainder obey the law. A dividend that the comparison calls smaller
is the remainder; what is left are dividends that the loop divides, or that have the divisor's
absolute value. -/
def Divides (dividend divisor : Int) : Prop :=
  dividend = 0 ∨
  (0 < dividend ∧ 0 < divisor ∧ KeepsRemainders dividend.natAbs divisor.natAbs) ∨
  -- The quotient is given the sign even if it is zero.
  (0 < dividend ∧ divisor < 0 ∧ divisor.natAbs ≤ dividend.natAbs ∧
    KeepsRemainders dividend.natAbs divisor.natAbs) ∨
  -- Any dividend below zero is smaller than a divisor above zero.
  (dividend < 0 ∧ 0 < divisor ∧ dividend.natAbs < divisor.natAbs) ∨
  -- The remainder is never below zero.
  (dividend < 0 ∧ divisor < 0 ∧ (dividend.natAbs < divisor.natAbs ∨
    divisor ∣ dividend ∧ KeepsRemainders dividend.natAbs divisor.natAbs))

section
variable {dividend divisor : Int}

theorem divides_pos_pos (h : 0 < dividend) (h' : 0 < divisor) :
    Divides dividend divisor ↔ KeepsRemainders dividend.natAbs divisor.natAbs := by
  simp [Divides, h, h', h.ne', h.not_gt, h'.not_gt]

theorem divides_pos_neg (h : 0 < dividend) (h' : divisor < 0) : Divides dividend divisor ↔
    divisor.natAbs ≤ dividend.natAbs ∧ KeepsRemainders dividend.natAbs divisor.natAbs := by
  simp [Divides, h, h', h.ne', h.not_gt, h'.not_gt]

theorem divides_neg_pos (h : dividend < 0) (h' : 0 < divisor) :
    Divides dividend divisor ↔ dividend.natAbs < divisor.natAbs := by
  simp [Divides, h, h', h.ne, h.not_gt, h'.not_gt]

theorem divides_neg_neg (h : dividend < 0) (h' : divisor < 0) :
    Divides dividend divisor ↔ dividend.natAbs < divisor.natAbs ∨
      divisor ∣ dividend ∧ KeepsRemainders dividend.natAbs divisor.natAbs := by
  simp [Divides, h, h', h.ne, h.not_gt, h'.not_gt]

end

theorem keepsRemainders_of_le {dividend divisor : Nat} (hle : dividend ≤ divisor)
    (hdivisor : divisor ≤ 2 ^ 63) : KeepsRemainders dividend divisor := by
  intro k hk
  have hpow : 256 ^ 1 ≤ 256 ^ k := Nat.pow_le_pow_right (by decide) hk
  calc dividend / 256 ^ k % divisor ≤ dividend / 256 ^ k := Nat.mod_le _ _
    _ ≤ dividend / 256 := Nat.div_le_div_left hpow (by decide)
    _ < 2 ^ 56 := by omega

/-- For every canonical dividend and every divisor but zero, the quotient and the remainder are
canonical and obey the law of division exactly if the two numbers are of the named kinds. -/
theorem bigIntDivideByLong_iff (dividend : CanonicalBigInt) (divisor : Int64) (h : divisor ≠ 0) :
    DivisionLaw (BigIntDivideByLong dividend.toBigInt divisor) dividend.toInt divisor.toInt ↔
      Divides dividend.toInt divisor.toInt := by
  obtain ⟨hlong, hvalue⟩ := fromLong_spec divisor
  have hbound := divisor.le_toInt
  have hbound' := divisor.toInt_lt
  by_cases hzero : dividend.sign = 0
  · exact iff_of_true (divideByLong_zero dividend.canonical h hzero) (.inl (toInt_of_sign hzero))
  have hlongSign : (fromLong divisor).sign ≠ 0 := fun hsign => h <| Int64.toInt_inj.mp <| by
    rw [← hvalue, toInt_of_sign hsign]
    rfl
  have hmem := dividend.canonical.sign_mem
  have hmem' := hlong.sign_mem
  have hmagnitude : 0 < dividend.magnitude :=
    Nat.pos_of_ne_zero (dividend.canonical.magnitude_ne_zero hzero)
  have hmagnitude' : 0 < (fromLong divisor).magnitude :=
    Nat.pos_of_ne_zero (hlong.magnitude_ne_zero hlongSign)
  obtain ⟨hsame, hdiffer⟩ := compare_spec (dividend.canonical.front_of_sign hzero)
    (hlong.front_of_sign hlongSign)
  have hdividend : dividend.toInt = dividend.sign * dividend.magnitude := rfl
  rw [toInt] at hvalue
  have habs : dividend.toInt.natAbs = dividend.magnitude := by
    rcases hmem with hs | hs | hs <;> rw [hs] at hdividend <;> omega
  have habs' : divisor.toInt.natAbs = (fromLong divisor).magnitude := by
    rcases hmem' with hs | hs | hs <;> rw [hs] at hvalue <;> omega
  have hkeeps : dividend.magnitude ≤ divisor.toInt.natAbs →
      KeepsRemainders dividend.magnitude divisor.toInt.natAbs := fun hle =>
    keepsRemainders_of_le hle (by omega)
  rcases hmem with hsign | hsign | hsign
  · rcases hmem' with hsign' | hsign' | hsign'
    · rw [hsign, hsign'] at hsame
      rw [hsign] at hdividend
      rw [hsign'] at hvalue
      rw [divides_neg_neg (by omega) (by omega), habs]
      obtain ⟨hcmp, hlt⟩ | ⟨hcmp, heq⟩ | ⟨hcmp, hgt⟩ := hsame rfl
      · rw [divideByLong_smaller dividend.canonical h hzero (by omega)]
        exact iff_of_true (by omega) (.inl (by omega))
      · have hequal : dividend.toInt = divisor.toInt := by omega
        refine iff_of_true (divideByLong_equal h hzero hcmp hequal) (.inr ⟨?_, hkeeps (by omega)⟩)
        rw [hequal]
      · rw [divideByLong_negative h hsign (by omega) (by omega), or_iff_right (by omega), ← habs,
          Int.natAbs_dvd_natAbs]
    · exact absurd hsign' hlongSign
    · rw [hsign, hsign'] at hdiffer
      have hcmp := hdiffer (by decide)
      rw [hsign] at hdividend
      rw [hsign'] at hvalue
      rw [divides_neg_pos (by omega) (by omega),
        divideByLong_smaller dividend.canonical h hzero (by omega)]
  · exact absurd hsign hzero
  · rcases hmem' with hsign' | hsign' | hsign'
    · rw [hsign, hsign'] at hdiffer
      have hcmp := hdiffer (by decide)
      rw [hsign] at hdividend
      rw [hsign'] at hvalue
      rw [divides_pos_neg (by omega) (by omega), habs, divideByLong_positive h hsign (by omega)]
    · exact absurd hsign' hlongSign
    · rw [hsign, hsign'] at hsame
      rw [hsign] at hdividend
      rw [hsign'] at hvalue
      rw [divides_pos_pos (by omega) (by omega), habs]
      obtain ⟨hcmp, hlt⟩ | ⟨hcmp, heq⟩ | ⟨hcmp, hgt⟩ := hsame rfl
      · rw [divideByLong_smaller dividend.canonical h hzero (by omega)]
        exact iff_of_true (by omega) (hkeeps (by omega))
      · exact iff_of_true (divideByLong_equal h hzero hcmp (by omega)) (hkeeps (by omega))
      · rw [divideByLong_positive h hsign (by omega)]
        exact and_iff_right (by omega)

theorem divisionLaw_thousand : (7 : Int64) ≠ 0 ∧
    DivisionLaw (BigIntDivideByLong ⟨1, [3, 232]⟩ 7) 1000 7 :=
  ⟨by decide, (bigIntDivideByLong_iff ⟨⟨1, [3, 232]⟩, by decide, by decide, by decide⟩ 7
    (by decide)).mpr (.inr (.inl ⟨by decide, by decide, fun k _ =>
      (Nat.mod_lt _ (by decide)).trans (by decide)⟩))⟩

/-- A hundred below zero divided by seven is zero, and leaves the hundred. -/
theorem divisionLaw_negative : ¬ ∀ (dividend : CanonicalBigInt) (divisor : Int64), divisor ≠ 0 →
    DivisionLaw (BigIntDivideByLong dividend.toBigInt divisor) dividend.toInt divisor.toInt := by
  intro h
  have hrun : BigIntDivideByLong ⟨-1, [100]⟩ 7 = some (fromLong 0, ⟨-1, [100]⟩) := by decide
  obtain ⟨q, r, hresult, -, -, -, hlt⟩ :=
    h ⟨⟨-1, [100]⟩, by decide, by decide, by decide⟩ 7 (by decide)
  obtain ⟨rfl, rfl⟩ := Prod.mk.inj (Option.some.inj (hrun.symm.trans hresult))
  exact absurd hlt (by decide)

end Snert
