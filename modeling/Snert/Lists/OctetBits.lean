/-
Module: Snert.Lists.OctetBits
Purpose: Octet strings as strings of bits, the most significant bit of an octet first. Two octet strings
  have a prefix of bits in common exactly if they agree under the mask of that prefix.
Trusted boundary: none
Main exports: octetBits, bits, prefixMask, prefixMask_agree_iff
-/
import Mathlib.Data.List.Basic

namespace Lists

/-! ### The bits of an octet -/

/-- The bits of an octet, from the most significant on. -/
def octetBits (c : UInt8) : List Bool :=
  (List.range 8).map fun i => c.toNat.testBit (7 - i)

@[simp] theorem length_octetBits (c : UInt8) : (octetBits c).length = 8 := by
  simp [octetBits]

/-- The octet with given bits. -/
def ofBits (l : List Bool) : UInt8 :=
  l.foldl (fun c b => 2 * c + if b then 1 else 0) 0

theorem forall_octet {P : UInt8 → Prop} (h : ∀ n : Fin 256, P (UInt8.ofNat n)) (c : UInt8) : P c := by
  have hc := h ⟨c.toNat, c.toNat_lt⟩
  rwa [UInt8.ofNat_toNat] at hc

theorem ofBits_octetBits (c : UInt8) : ofBits (octetBits c) = c :=
  forall_octet (P := fun c => ofBits (octetBits c) = c) (by decide +kernel) c

theorem octetBits_inj {c d : UInt8} : octetBits c = octetBits d ↔ c = d :=
  ⟨fun h => by rw [← ofBits_octetBits c, h, ofBits_octetBits], congrArg octetBits⟩

/-! ### The bits of an octet string -/

/-- The bits of an octet string. -/
def bits (octets : List UInt8) : List Bool :=
  octets.flatMap octetBits

theorem bits_append (octets octets' : List UInt8) :
    bits (octets ++ octets') = bits octets ++ bits octets' :=
  List.flatMap_append

@[simp] theorem length_bits (octets : List UInt8) : (bits octets).length = 8 * octets.length := by
  induction octets with
  | nil => rfl
  | cons c octets ih =>
      rw [bits, List.flatMap_cons, List.length_append, length_octetBits, List.length_cons]
      change 8 + (bits octets).length = _
      rw [ih]
      omega

theorem bits_inj {octets octets' : List UInt8} : bits octets = bits octets' ↔ octets = octets' := by
  refine ⟨fun h => ?_, congrArg bits⟩
  induction octets generalizing octets' with
  | nil =>
      have hlen := congrArg List.length h
      rw [length_bits, length_bits, List.length_nil] at hlen
      exact (List.eq_nil_of_length_eq_zero (by omega)).symm
  | cons c octets ih =>
      cases octets' with
      | nil =>
          have hlen := congrArg List.length h
          rw [length_bits, length_bits, List.length_nil, List.length_cons] at hlen
          omega
      | cons d octets' =>
          have happend : octetBits c ++ bits octets = octetBits d ++ bits octets' := h
          obtain ⟨hhead, htail⟩ := List.append_inj happend (by simp)
          rw [octetBits_inj.mp hhead, ih htail]

theorem take_drop_bits (octets : List UInt8) (k : Nat) :
    (bits octets).take (8 * k) = bits (octets.take k) ∧
      (bits octets).drop (8 * k) = bits (octets.drop k) := by
  by_cases hk : k ≤ octets.length
  · have hlen : (bits (octets.take k)).length = 8 * k := by
      rw [length_bits, List.length_take, Nat.min_eq_left hk]
    have hsplit : bits octets = bits (octets.take k) ++ bits (octets.drop k) := by
      rw [← bits_append, List.take_append_drop]
    rw [hsplit]
    exact ⟨List.take_left' hlen, List.drop_left' hlen⟩
  · rw [List.take_of_length_le (by rw [length_bits]; omega), List.take_of_length_le (by omega),
      List.drop_of_length_le (by rw [length_bits]; omega), List.drop_of_length_le (by omega)]
    exact ⟨rfl, rfl⟩
/-- A common prefix has common prefixes. -/
theorem take_eq_of_le {octets octets' : List UInt8} {n n' : Nat} (hle : n ≤ n')
    (h : (bits octets).take n' = (bits octets').take n') :
    (bits octets).take n = (bits octets').take n := by
  have htake := congrArg (List.take n) h
  rwa [List.take_take, List.take_take, Nat.min_eq_left hle] at htake

theorem take_eq_or_iff {octets octets' : List UInt8} (n n' : Nat) :
    ((bits octets).take n = (bits octets').take n ∨ (bits octets).take n' = (bits octets').take n') ↔
      (bits octets).take (min n n') = (bits octets').take (min n n') := by
  constructor
  · rintro (h | h)
    · exact take_eq_of_le (Nat.min_le_left n n') h
    · exact take_eq_of_le (Nat.min_le_right n n') h
  · intro h
    rcases Nat.le_total n n' with hle | hle
    · exact .inl (by rwa [Nat.min_eq_left hle] at h)
    · exact .inr (by rwa [Nat.min_eq_right hle] at h)

/-! ### Masks -/

/-- The octet at an index of the mask for the first `n` bits of an octet string. -/
def prefixMask (n i : Nat) : UInt8 :=
  if i < n / 8 then 0xff
  else if i = n / 8 ∧ n % 8 ≠ 0 then 0xff <<< UInt8.ofNat (8 - n % 8)
  else 0

theorem prefixMask_succ (n i : Nat) : prefixMask n (i + 1) = prefixMask (n - 8) i := by
  unfold prefixMask
  by_cases hn : 8 ≤ n
  · have hdiv : n / 8 = (n - 8) / 8 + 1 := by omega
    have hmod : n % 8 = (n - 8) % 8 := by omega
    rw [hdiv, hmod]
    simp only [Nat.add_lt_add_iff_right, Nat.add_right_cancel_iff]
  · have hdiv : n / 8 = 0 := by omega
    have hsub : n - 8 = 0 := by omega
    rw [hdiv, hsub]
    simp

theorem testBit_prefixMask {n i : Nat} (hn : n < 8) (hi : i < 8) :
    (prefixMask n 0).toNat.testBit (7 - i) = decide (i < n) := by
  have hall : ∀ n i : Fin 8, (prefixMask n 0).toNat.testBit (7 - i) = decide (i < n) := by
    decide +kernel
  exact hall ⟨n, hn⟩ ⟨i, hi⟩

theorem and_prefixMask_eq_iff (c d : UInt8) (n : Nat) :
    c &&& prefixMask n 0 = d &&& prefixMask n 0 ↔ (octetBits c).take n = (octetBits d).take n := by
  by_cases hn : n < 8
  · have htake : (List.range 8).take n = List.range n := by
      rw [List.take_range, Nat.min_eq_left (Nat.le_of_lt hn)]
    rw [← octetBits_inj, octetBits, octetBits, octetBits, octetBits, ← List.map_take, ← List.map_take,
      htake, List.map_inj_left, List.map_inj_left]
    constructor
    · intro h i hi
      have hi := List.mem_range.mp hi
      have hbit := h i (List.mem_range.mpr (by omega))
      rw [UInt8.toNat_and, UInt8.toNat_and, Nat.testBit_and, Nat.testBit_and,
        testBit_prefixMask hn (by omega), decide_eq_true hi, Bool.and_true, Bool.and_true] at hbit
      exact hbit
    · intro h i hi
      have hi := List.mem_range.mp hi
      rw [UInt8.toNat_and, UInt8.toNat_and, Nat.testBit_and, Nat.testBit_and,
        testBit_prefixMask hn hi]
      by_cases hlt : i < n
      · rw [h i (List.mem_range.mpr hlt)]
      · rw [decide_eq_false hlt, Bool.and_false, Bool.and_false]
  · have hmask : prefixMask n 0 = 0xff := if_pos (by omega)
    have hfull : ∀ c : UInt8, c &&& 0xff = c := forall_octet (by decide +kernel)
    rw [hmask, hfull, hfull, List.take_of_length_le (by rw [length_octetBits]; omega),
      List.take_of_length_le (by rw [length_octetBits]; omega), octetBits_inj]

/-- Octet strings agree under the mask of a prefix exactly if they have it in common. -/
theorem prefixMask_agree_iff (octets : List UInt8) : ∀ (octets' : List UInt8) (n : Nat),
    octets.length = octets'.length →
      ((∀ i, i < octets.length →
          octets.getD i 0 &&& prefixMask n i = octets'.getD i 0 &&& prefixMask n i) ↔
        (bits octets).take n = (bits octets').take n) := by
  induction octets with
  | nil =>
      intro octets' n hlength
      rw [List.length_nil] at hlength
      rw [List.eq_nil_of_length_eq_zero hlength.symm]
      simp
  | cons c octets ih =>
      intro octets' n hlength
      match octets' with
      | [] => cases hlength
      | d :: octets' =>
          have hbits : ∀ c octets, bits (c :: octets) = octetBits c ++ bits octets := fun _ _ => rfl
          rw [hbits, hbits, List.take_append, List.take_append, length_octetBits, length_octetBits]
          have hrest := ih octets' (n - 8) (Nat.succ.inj hlength)
          have happend : (octetBits c).take n ++ (bits octets).take (n - 8) =
                (octetBits d).take n ++ (bits octets').take (n - 8) ↔
              (octetBits c).take n = (octetBits d).take n ∧
                (bits octets).take (n - 8) = (bits octets').take (n - 8) :=
            ⟨fun h => List.append_inj h (by simp), fun ⟨hfirst, hrest⟩ => by rw [hfirst, hrest]⟩
          rw [happend, ← hrest, ← and_prefixMask_eq_iff]
          constructor
          · refine fun h => ⟨h 0 (Nat.zero_lt_succ _), fun i hi => ?_⟩
            have hnext := h (i + 1) (Nat.succ_lt_succ hi)
            rwa [prefixMask_succ] at hnext
          · rintro ⟨hfirst, hrest⟩ i hi
            cases i with
            | zero => exact hfirst
            | succ i =>
                rw [prefixMask_succ]
                exact hrest i (Nat.lt_of_succ_lt_succ hi)

end Lists
