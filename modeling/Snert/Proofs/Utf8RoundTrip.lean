/-
Module: Snert.Proofs.Utf8RoundTrip
Purpose: What `fputwc_utf8` writes is what `fgetwc_utf8` reads. A call that begins with the octet 0xFF
  never ends: the mask comes to have all its bits set, and shifting it keeps them.
Trusted boundary: none
Main exports: utf8_roundTrip_terminates_iff
-/
import Snert.Io.Utf8
import Snert.Lists.OctetBits

namespace Snert

open CModel CModel.Run Lists

/-! ### The leading bits -/

/-- Some number of rounds is enough for a call. -/
def Terminates (fp : File) : Prop :=
  ∃ rounds, (fgetwcUtf8 rounds fp).outcome ≠ .diverge

theorem leadStep_full (rounds : Nat) (st : Int8 × Nat) :
    (Run.loop (leadStep 0xFF) rounds st).outcome = .diverge := by
  induction rounds generalizing st with
  | zero => rfl
  | succ rounds ih =>
      have hfull (c : Octet) : c &&& 0xFF = c := UInt8.toBitVec_inj.mp BitVec.and_allOnes
      have hstep : (leadStep 0xFF st).outcome = .done (.inl (st.1 >>> 1, st.2 + 1)) := by
        rw [leadStep, if_pos (hfull _)]
        rfl
      rw [Run.loop, outcome_bind_of_done hstep]
      exact ih _

theorem leadStep_halts {x : Octet} (h : x ≠ 0xFF) :
    ∃ length, (Run.loop (leadStep x) 8 (-128, 0)).outcome = .done length := by
  have hall : ∀ x : Octet, x ≠ 0xFF →
      ((Run.loop (leadStep x) 8 (-128, 0)).result).isSome = true :=
    forall_octet (by decide +kernel)
  obtain ⟨length, hlength⟩ := Option.isSome_iff_exists.mp (hall x h)
  exact ⟨length, result_eq_some.mp hlength⟩

theorem terminates_iff (fp : File) : Terminates fp ↔ fp.rest.head? ≠ some 0xFF := by
  obtain ⟨rest, eof⟩ := fp
  cases rest with
  | nil => exact ⟨nofun, fun _ => ⟨0, nofun⟩⟩
  | cons x rest =>
      rw [List.head?_cons, ne_eq, Option.some.injEq]
      constructor
      · rintro ⟨rounds, hends⟩ rfl
        exact hends (outcome_bind_of_diverge (leadStep_full rounds _) _)
      · intro hx
        obtain ⟨length, hlength⟩ := leadStep_halts hx
        refine ⟨8, ?_⟩
        rw [fgetwcUtf8, fgetc]
        dsimp only
        rw [outcome_bind_of_done hlength]
        split
        · nofun
        · split
          · nofun
          · split <;> nofun

/-! ### Continuation octets -/

/-- The octet for six bits. -/
def continuationOctet (d : Nat) : Octet :=
  UInt8.ofNat (128 + d)

/-- The octets for the last `6 * k` bits of a number. -/
def continuation : Nat → Nat → List Octet
  | 0, _ => []
  | k + 1, n => continuationOctet (n / 64 ^ k % 64) :: continuation k n

theorem length_continuation (k n : Nat) : (continuation k n).length = k := by
  induction k with
  | zero => rfl
  | succ k ih => rw [continuation, List.length_cons, ih]

theorem continuation_append (k n : Nat) :
    continuation (k + 1) n = continuation k (n / 64) ++ [continuationOctet (n % 64)] := by
  induction k with
  | zero => rw [continuation, continuation, continuation, pow_zero, Nat.div_one, List.nil_append]
  | succ k ih =>
      rw [continuation, ih, continuation, Nat.div_div_eq_div_mul, ← Nat.pow_succ', List.cons_append]

theorem shiftRight_ofNat {n : Nat} (h : n < 2 ^ 31) :
    Int32.ofNat n >>> 6 = Int32.ofNat (n / 64) := by
  have hmsb : (BitVec.ofNat 32 n).msb = false := by
    rw [BitVec.msb_eq_false_iff_two_mul_lt, BitVec.toNat_ofNat]
    omega
  rw [← Int32.toBitVec_inj]
  show (BitVec.ofNat 32 n).sshiftRight' 6 = BitVec.ofNat 32 (n / 64)
  rw [← BitVec.toNat_inj, BitVec.toNat_sshiftRight'_of_msb_false hmsb, BitVec.toNat_ofNat,
    BitVec.toNat_ofNat, show (6 : BitVec 32).toNat = 6 from rfl, Nat.shiftRight_eq_div_pow]
  omega

theorem continuationOctet_eq (n : Nat) :
    (0x80 ||| (Int32.ofNat n &&& 0x3F)).toUInt32.toUInt8 = continuationOctet (n % 64) := by
  have hbits : n &&& 63 = n % 64 := Nat.and_two_pow_sub_one_eq_mod n 6
  have hor : 128 ||| n % 64 = 128 + n % 64 :=
    (Nat.two_pow_add_eq_or_of_lt (i := 7) (Nat.lt_trans (Nat.mod_lt _ (by decide)) (by decide)) 1).symm
  rw [continuationOctet, ← hor, ← hbits, UInt8.ofNat_or, UInt8.ofNat_and,
    Int32.toUInt32_or, Int32.toUInt32_and, UInt32.toUInt8_or, UInt32.toUInt8_and,
    Int32.toUInt32_ofNat', UInt32.toUInt8_ofNat']
  rfl

theorem putContinuation_eq (k : Nat) {n : Nat} (h : n < 2 ^ 31) (mb : List Octet) :
    putContinuation k (Int32.ofNat n) mb =
      (Int32.ofNat (n / 64 ^ k), continuation k n ++ mb) := by
  induction k generalizing n mb with
  | zero => rw [putContinuation, pow_zero, Nat.div_one, continuation, List.nil_append]
  | succ k ih =>
      rw [putContinuation, shiftRight_ofNat h, ih (by omega), continuationOctet_eq,
        continuation_append, Nat.div_div_eq_div_mul, ← Nat.pow_succ', List.append_assoc,
        List.singleton_append]

theorem continuationOctet_bits {d : Nat} (h : d < 64) : continuationOctet d &&& 0xC0 = 0x80 ∧
    (continuationOctet d &&& 0x3F).toUInt32 = UInt32.ofNat d := by
  have hall : ∀ d < 64, continuationOctet d &&& 0xC0 = 0x80 ∧
      (continuationOctet d &&& 0x3F).toUInt32 = UInt32.ofNat d := by decide
  exact hall d h

theorem shiftLeft_or_ofNat (a : Nat) {d : Nat} (h : d < 64) :
    UInt32.ofNat a <<< 6 ||| UInt32.ofNat d = UInt32.ofNat (a * 64 + d) := by
  have hor : a <<< 6 ||| d = a * 64 + d := by
    rw [← Nat.shiftLeft_add_eq_or_of_lt h, Nat.shiftLeft_eq]
  rw [← hor, UInt32.ofNat_or, UInt32.ofNat_shiftLeft _ _ (by decide)]
  rfl

theorem continueSequence_continuation (k n a : Nat) :
    continueSequence (continuation k n) (UInt32.ofNat a) =
      UInt32.ofNat (a * 64 ^ k + n % 64 ^ k) := by
  induction k generalizing a with
  | zero => rw [continuation, continueSequence, pow_zero, Nat.mul_one, Nat.mod_one, Nat.add_zero]
  | succ k ih =>
      have hd : n / 64 ^ k % 64 < 64 := Nat.mod_lt _ (by decide)
      obtain ⟨hmark, hbits⟩ := continuationOctet_bits hd
      rw [continuation, continueSequence, if_neg (not_not.mpr hmark), hbits,
        shiftLeft_or_ofNat a hd, ih, Nat.mod_pow_succ]
      congr 1
      rw [Nat.add_mul, Nat.mul_assoc, ← Nat.pow_succ', Nat.add_assoc, Nat.add_comm (n % 64 ^ k),
        Nat.mul_comm (64 ^ k)]

/-! ### Characters -/

/-- The first octet of a sequence, with the bits `r`. -/
def leadOctet (length r : Nat) : Octet :=
  let lead : Octet := ((-128 : Int32) >>> Int32.ofNat (length - 1)).toUInt32.toUInt8
  (lead.toUInt32.toInt32 ||| (~~~lead.toUInt32.toInt32 &&& Int32.ofNat r)).toUInt32.toUInt8

theorem leadOctet_bits {length r : Nat} (hlength : length ∈ [2, 3, 4, 5, 6])
    (hr : r < 2 ^ (7 - length)) :
    (Run.loop (leadStep (leadOctet length r)) 8 (-128, 0)).outcome = .done length ∧
      (leadOctet length r &&& (0x00FF >>> UInt8.ofNat length)).toUInt32 = UInt32.ofNat r := by
  have hall : ∀ length ∈ [2, 3, 4, 5, 6], ∀ r < 2 ^ (7 - length),
      (Run.loop (leadStep (leadOctet length r)) 8 (-128, 0)).result = some length ∧
        (leadOctet length r &&& (0x00FF >>> UInt8.ofNat length)).toUInt32 = UInt32.ofNat r := by
    decide
  exact (hall length hlength r hr).imp_left result_eq_some.mp

theorem ascii_lead {n : Nat} (h : n < 128) :
    (Run.loop (leadStep (UInt8.ofNat n)) 8 (-128, 0)).outcome = .done 0 := by
  have hall : ∀ n < 128, (Run.loop (leadStep (UInt8.ofNat n)) 8 (-128, 0)).result = some 0 := by
    decide
  exact result_eq_some.mp (hall n h)

theorem ofNat_le_ofNat {n k : Nat} (hn : n < 2 ^ 31) (hk : k < 2 ^ 31) :
    Int32.ofNat n ≤ Int32.ofNat k ↔ n ≤ k := by
  rw [Int32.le_iff_toInt_le, Int32.toInt_ofNat_of_lt hn, Int32.toInt_ofNat_of_lt hk]
  exact Int.ofNat_le

theorem sequenceLength_spec {n : Nat} (h : n < 2 ^ 31) :
    sequenceLength (Int32.ofNat n) ∈ [2, 3, 4, 5, 6] ∧
      (128 ≤ n → n / 64 ^ (sequenceLength (Int32.ofNat n) - 1) <
        2 ^ (7 - sequenceLength (Int32.ofNat n))) := by
  have h2 : Int32.ofNat n ≤ 0x7FF ↔ n ≤ 0x7FF := ofNat_le_ofNat h (by decide)
  have h3 : Int32.ofNat n ≤ 0xFFFF ↔ n ≤ 0xFFFF := ofNat_le_ofNat h (by decide)
  have h4 : Int32.ofNat n ≤ 0x1FFFFF ↔ n ≤ 0x1FFFFF := ofNat_le_ofNat h (by decide)
  have h5 : Int32.ofNat n ≤ 0x3FFFFFF ↔ n ≤ 0x3FFFFFF := ofNat_le_ofNat h (by decide)
  simp only [sequenceLength, h2, h3, h4, h5]
  split_ifs <;> refine ⟨by decide, fun _ => ?_⟩ <;> simp only [Nat.reduceSub, Nat.reducePow] <;>
    omega

theorem fputwcUtf8_eq {n : Nat} (h : n < 2 ^ 31) : (fputwcUtf8 (Int32.ofNat n)).2 =
    if n < 128 then [UInt8.ofNat n]
    else leadOctet (sequenceLength (Int32.ofNat n))
        (n / 64 ^ (sequenceLength (Int32.ofNat n) - 1)) ::
      continuation (sequenceLength (Int32.ofNat n) - 1) n := by
  have hascii : Int32.ofNat n ≤ 0x7F ↔ n < 128 :=
    (ofNat_le_ofNat h (by decide)).trans Nat.lt_succ_iff.symm
  rw [fputwcUtf8]
  by_cases hsmall : n < 128
  · rw [if_pos (hascii.mpr hsmall), if_pos hsmall]
    dsimp only
    rw [Int32.toUInt32_ofNat', UInt32.toUInt8_ofNat']
  · rw [if_neg (mt hascii.mp hsmall), if_neg hsmall]
    dsimp only
    rw [putContinuation_eq _ h, List.append_nil]
    rfl

theorem fgetwcUtf8_fputwcUtf8 {n : Nat} (h : n < 2 ^ 31) (rest : List Octet) (eof : Bool) :
    (fgetwcUtf8 8 ⟨(fputwcUtf8 (Int32.ofNat n)).2 ++ rest, eof⟩).outcome =
      .done (UInt32.ofNat n, ⟨rest, eof⟩) := by
  rw [fputwcUtf8_eq h]
  by_cases hsmall : n < 128
  · rw [if_pos hsmall, List.singleton_append, fgetwcUtf8, fgetc]
    dsimp only
    rw [outcome_bind_of_done (ascii_lead hsmall), if_pos rfl, UInt8.toUInt32_ofNat' (Nat.lt_trans hsmall (by decide))]
    rfl
  · obtain ⟨hlength, hroom⟩ := sequenceLength_spec h
    obtain ⟨hlead, hbits⟩ := leadOctet_bits hlength (hroom (Nat.not_lt.mp hsmall))
    rw [if_neg hsmall]
    generalize sequenceLength (Int32.ofNat n) = length at *
    rw [List.cons_append, fgetwcUtf8, fgetc]
    dsimp only
    have hcount := length_continuation (length - 1) n
    have hread : freadOctets (length - 1) ⟨continuation (length - 1) n ++ rest, eof⟩ =
        (continuation (length - 1) n, ⟨rest, eof⟩) := by
      rw [freadOctets, List.take_left' hcount, List.drop_left' hcount, List.length_append, hcount,
        decide_eq_false (Nat.not_lt.mpr (Nat.le_add_right _ _)), Bool.or_false]
    have hzero : length ≠ 0 := by rintro rfl; exact absurd hlength (by decide)
    have hvalid : ¬ (length = 1 ∨ length = 7 ∨ length = 8) := by
      rintro (rfl | rfl | rfl) <;> exact absurd hlength (by decide)
    rw [outcome_bind_of_done hlead, if_neg hzero, if_neg hvalid, hread]
    dsimp only
    rw [if_neg (not_not.mpr hcount), hbits, continueSequence_continuation,
      Nat.div_add_mod' n (64 ^ (length - 1))]
    rfl

theorem fgetwcsUtf8_fputwcsUtf8 {wcs : List Int32} (h : ∀ wc ∈ wcs, 0 < wc) (eof : Bool) :
    (fgetwcsUtf8 8 (wcs.length + 1) ⟨fputwcsUtf8 wcs, eof⟩).outcome =
      .done (wcs.map Int32.toUInt32 ++ [WEOF]) := by
  induction wcs with
  | nil => rfl
  | cons wc wcs ih =>
      have hpos := Int32.lt_iff_toInt_lt.mp (h wc List.mem_cons_self)
      obtain ⟨n, hn⟩ := Int.eq_ofNat_of_zero_le (Int.le_of_lt hpos)
      have hlt : n < 2 ^ 31 := by
        have hbound := wc.toInt_lt
        omega
      obtain rfl : wc = Int32.ofNat n := by
        rw [← Int32.toInt_inj, hn, Int32.toInt_ofNat_of_lt hlt]
      have hrest := ih fun wc' hwc' => h wc' (List.mem_cons_of_mem _ hwc')
      rw [List.length_cons, fputwcsUtf8, List.flatMap_cons, ← fputwcsUtf8, fgetwcsUtf8,
        outcome_bind_of_done (fgetwcUtf8_fputwcUtf8 hlt _ _)]
      dsimp only
      rw [outcome_bind_of_done hrest, List.map_cons, Int32.toUInt32_ofNat']
      rfl

/-- Every sequence of characters is read as it was written, with the end of the file behind it, and
a call ends, if and only if the stream of the call does not go on with the octet 0xFF. -/
theorem utf8_roundTrip_terminates_iff (wcs : List Int32) (fp : File) :
    (((∀ wc ∈ wcs, 0 < wc) →
      (fgetwcsUtf8 8 (wcs.length + 1) ⟨fputwcsUtf8 wcs, false⟩).outcome =
        .done (wcs.map Int32.toUInt32 ++ [WEOF])) ∧ Terminates fp) ↔
      fp.rest.head? ≠ some 0xFF := by
  rw [and_iff_right fun h => fgetwcsUtf8_fputwcsUtf8 h false]
  exact terminates_iff fp

/-- The octet 0xFF. -/
theorem utf8_full_octet : ¬ ∀ fp : File, Terminates fp := by
  intro h
  obtain ⟨rounds, hends⟩ := h ⟨[0xFF], false⟩
  exact hends (outcome_bind_of_diverge (leadStep_full rounds _) _)

end Snert
