/-
Module: Snert.Lists.Netmask
Purpose: The bits of an octet string are the binary digits of its number. Two octet strings have
  numbers that agree under a netmask exactly if they have the bits of the netmask in common.
Trusted boundary: none
Main exports: number_foldl, bits_eq_map_testBit, number_inj, netmask
-/
import Mathlib.Data.List.Induction
import Snert.Lists.OctetBits
import Snert.Lists.OctetNumber

namespace Lists

/-! ### Octets added up -/

/-- A number may be built from its octets one at a time. -/
theorem number_foldl (octets : List UInt8) :
    octets.foldl (fun n octet => n * 256 + octet.toNat) 0 = number octets := by
  induction octets using List.reverseRecOn with
  | nil => rfl
  | append_singleton octets octet ih =>
      rw [List.foldl_append, ih, number_concat]
      rfl

/-! ### Binary digits -/

theorem pow_length (octets : List UInt8) : 256 ^ octets.length = 2 ^ (8 * octets.length) := by
  rw [Nat.pow_mul]

/-- The bits of an octet string are the binary digits of its number. -/
theorem bits_eq_map_testBit (octets : List UInt8) :
    bits octets = (List.range (8 * octets.length)).map
      fun i => (number octets).testBit (8 * octets.length - 1 - i) := by
  induction octets with
  | nil => rfl
  | cons c octets ih =>
      have hlt : number octets < 2 ^ (8 * octets.length) := pow_length octets ▸ number_lt octets
      have hnumber : number (c :: octets) = 2 ^ (8 * octets.length) * c.toNat + number octets := by
        rw [number_cons, pow_length, Nat.mul_comm]
      have hlength : 8 * (c :: octets).length = 8 + 8 * octets.length := by
        rw [List.length_cons]
        omega
      change octetBits c ++ bits octets = _
      rw [hlength, List.range_add, List.map_append, List.map_map, hnumber]
      refine congrArg₂ (· ++ ·) (List.map_congr_left fun i hi => ?_) ?_
      · have hi := List.mem_range.mp hi
        rw [Nat.testBit_two_pow_mul_add _ hlt, if_neg (by omega)]
        exact congrArg _ (by omega)
      · rw [ih]
        refine List.map_congr_left fun i hi => ?_
        have hi := List.mem_range.mp hi
        rw [Function.comp_apply, Nat.testBit_two_pow_mul_add _ hlt, if_pos (by omega)]
        exact congrArg _ (by omega)

/-- Octet strings of one length have different numbers. -/
theorem number_inj {octets octets' : List UInt8} (hlength : octets.length = octets'.length) :
    number octets = number octets' ↔ octets = octets' := by
  refine ⟨fun h => bits_inj.mp ?_, congrArg number⟩
  rw [bits_eq_map_testBit, bits_eq_map_testBit, h, hlength]

/-! ### Netmasks -/

/-- The mask of `n` leading ones in a word of `width` bits. -/
def netmask (width n : Nat) : Nat :=
  (2 ^ n - 1) * 2 ^ (width - n)

theorem testBit_netmask {width n : Nat} (hn : n ≤ width) {i : Nat} (hi : i < width) :
    (netmask width n).testBit (width - 1 - i) = decide (i < n) := by
  rw [netmask, Nat.testBit_mul_two_pow, Nat.testBit_two_pow_sub_one]
  by_cases hin : i < n
  · rw [decide_eq_true (by omega), decide_eq_true (by omega), decide_eq_true hin]
    rfl
  · rw [decide_eq_false (by omega), Bool.false_and, decide_eq_false hin]

theorem and_netmask_eq_iff {octets network : List UInt8} {n : Nat}
    (hlength : octets.length = network.length) (hn : n ≤ 8 * octets.length) :
    number octets &&& netmask (8 * octets.length) n =
        number network &&& netmask (8 * octets.length) n ↔
      (bits octets).take n = (bits network).take n := by
  have htake : (List.range (8 * octets.length)).take n = List.range n := by
    rw [List.take_range, Nat.min_eq_left hn]
  rw [bits_eq_map_testBit octets, bits_eq_map_testBit network, ← hlength, ← List.map_take,
    ← List.map_take, htake, List.map_inj_left]
  constructor
  · intro h i hi
    have hi := List.mem_range.mp hi
    have hbit := congrArg (Nat.testBit · (8 * octets.length - 1 - i)) h
    rwa [Nat.testBit_and, Nat.testBit_and, testBit_netmask hn (by omega), decide_eq_true hi,
      Bool.and_true, Bool.and_true] at hbit
  · intro h
    refine Nat.eq_of_testBit_eq fun j => ?_
    rw [Nat.testBit_and, Nat.testBit_and]
    by_cases hj : j < 8 * octets.length
    · obtain ⟨i, hi, rfl⟩ : ∃ i, i < 8 * octets.length ∧ 8 * octets.length - 1 - i = j :=
        ⟨8 * octets.length - 1 - j, by omega, by omega⟩
      rw [testBit_netmask hn hi]
      by_cases hin : i < n
      · rw [h i (List.mem_range.mpr hin)]
      · rw [decide_eq_false hin, Bool.and_false, Bool.and_false]
    · have hpow : 256 ^ octets.length ≤ 2 ^ j := by
        rw [pow_length]
        exact Nat.pow_le_pow_right (by decide) (by omega)
      rw [Nat.testBit_lt_two_pow ((number_lt octets).trans_le hpow),
        Nat.testBit_lt_two_pow ((number_lt network).trans_le (hlength ▸ hpow))]

/-! ### Whole octets -/

theorem take_bits_octets_iff (octets octets' : List UInt8) (k : Nat) :
    (bits octets).take (8 * k) = (bits octets').take (8 * k) ↔ octets.take k = octets'.take k := by
  rw [(take_drop_bits octets k).1, (take_drop_bits octets' k).1, bits_inj]

end Lists
