/-
Module: Snert.Proofs.ReservedRanges
Purpose: The ranges that network.h and the comments of isReservedIPv4 and isReservedIPv6 document
  for each flag, and when the tests answer by them. The test of an IPv4 address does for every mask.
  The test of an IPv6 address tells the ranges by the count of leading zero octets, and misses parts
  of ::/96 and 0000::/8 and takes IPv4-compatible addresses for IPv4-mapped ones.
Trusted boundary: none
Main exports: reservedIPv6_documented_iff
-/
import Mathlib.Tactic.MkIffOfInductiveProp
import Snert.Lists.Netmask
import Snert.Net.Reserved

namespace Snert

open CModel Lists

/-! ### The documented ranges -/

/-- A range documented for a flag: the addresses that share the first bits of a network. -/
structure CidrRange where
  flag : Nat
  network : List Octet
  length : Nat
deriving DecidableEq

/-- An address lies in a range. -/
def CidrRange.Contains (range : CidrRange) (ip : List Octet) : Prop :=
  (bits ip).take range.length = (bits range.network).take range.length

instance (range : CidrRange) (ip : List Octet) : Decidable (range.Contains ip) := by
  unfold CidrRange.Contains
  infer_instance

/-- The IPv4 ranges, in the order of the lines of isReservedIPv4. -/
def documentedIPv4 : List CidrRange :=
  [⟨IS_IP_BROADCAST, [255, 255, 255, 255], 32⟩,
   ⟨IS_IP_LOCALHOST, [127, 0, 0, 1], 32⟩,
   ⟨IS_IP_THIS_HOST, [0, 0, 0, 0], 32⟩,
   ⟨IS_IP_PROTOCOL, [192, 0, 0, 0], 24⟩,
   ⟨IS_IP_TEST_NET_1, [192, 0, 2, 0], 24⟩,
   ⟨IS_IP_6TO4_ANYCAST, [192, 88, 99, 0], 24⟩,
   ⟨IS_IP_TEST_NET_2, [198, 51, 100, 0], 24⟩,
   ⟨IS_IP_TEST_NET_3, [203, 0, 113, 0], 24⟩,
   ⟨IS_IP_LINK_LOCAL, [169, 254, 0, 0], 16⟩,
   ⟨IS_IP_PRIVATE_C, [192, 168, 0, 0], 16⟩,
   ⟨IS_IP_BENCHMARK, [198, 18, 0, 0], 15⟩,
   ⟨IS_IP_PRIVATE_B, [172, 16, 0, 0], 12⟩,
   ⟨IS_IP_SHARED, [100, 64, 0, 0], 10⟩,
   ⟨IS_IP_LOOPBACK, [127, 0, 0, 0], 8⟩,
   ⟨IS_IP_PRIVATE_A, [10, 0, 0, 0], 8⟩,
   ⟨IS_IP_THIS_NET, [0, 0, 0, 0], 8⟩,
   ⟨IS_IP_MULTICAST, [224, 0, 0, 0], 4⟩,
   ⟨IS_IP_CLASS_E, [240, 0, 0, 0], 4⟩]

/-- An IPv6 network of its first octets, zeros, and its last octets. -/
def ipv6Network (first last : List Octet) : List Octet :=
  first ++ List.replicate (16 - first.length - last.length) 0 ++ last

/-- ::/96, the IPv4-compatible addresses. -/
def v4Compatible : CidrRange :=
  ⟨IS_IP_V4_COMPATIBLE, ipv6Network [] [], 96⟩

/-- ::ffff:0:0/96, the IPv4-mapped addresses. -/
def v4Mapped : CidrRange :=
  ⟨IS_IP_V4_MAPPED, ipv6Network [] [0xff, 0xff, 0, 0, 0, 0], 96⟩

/-- The IPv6 ranges. 2001:db8::/32 is documented for the test networks together. -/
def documentedIPv6 : List CidrRange :=
  [⟨IS_IP_THIS_HOST, ipv6Network [] [], 128⟩,
   ⟨IS_IP_LOCALHOST, ipv6Network [] [1], 128⟩,
   v4Compatible,
   v4Mapped,
   ⟨IS_IP_V6_RESERVED, ipv6Network [] [], 8⟩,
   ⟨IS_IP_TEST_NET, ipv6Network [0x20, 0x01, 0x0d, 0xb8] [], 32⟩,
   ⟨IS_IP_LINK_LOCAL, ipv6Network [0xfe, 0x80] [], 10⟩,
   ⟨IS_IP_MULTICAST, ipv6Network [0xff] [], 8⟩]

/-- An IPv4 address lies in a range documented for a flag of the mask. 127.0.0.1 is no loopback
address. -/
def DocumentedIPv4 (ipv4 : List Octet) (mask : Nat) : Prop :=
  ∃ range ∈ documentedIPv4, isIpFlag mask range.flag ∧ range.Contains ipv4 ∧
    ¬ (range.flag = IS_IP_LOOPBACK ∧ ipv4 = [127, 0, 0, 1])

/-- An address lies in a range documented for a flag of the mask. The IPv4 ranges are about the
last four octets of IPv4-compatible and IPv4-mapped addresses. -/
def Documented (ipv6 : Buffer 16) (mask : Nat) : Prop :=
  (∃ range ∈ documentedIPv6, isIpFlag mask range.flag ∧ range.Contains ipv6.octets) ∨
    ((v4Compatible.Contains ipv6.octets ∨ v4Mapped.Contains ipv6.octets) ∧
      DocumentedIPv4 (ipv6.octets.drop 12) mask)

instance (ipv4 : List Octet) (mask : Nat) : Decidable (DocumentedIPv4 ipv4 mask) := by
  unfold DocumentedIPv4
  infer_instance

instance (ipv6 : Buffer 16) (mask : Nat) : Decidable (Documented ipv6 mask) := by
  unfold Documented
  infer_instance

/-! ### IPv4 -/

theorem netLong_eq {ip : List Octet} (hlength : ip.length = 4) : netLong ip = number ip := by
  rw [netLong, number_foldl, List.take_of_length_le hlength.le]

/-- The line of isReservedIPv4 for a range. -/
def rangeLine (mask ip : Nat) (range : CidrRange) : Bool :=
  inRange mask range.flag ip (netmask 32 range.length) (number range.network)

theorem isReservedIPv4_eq (ipv4 : List Octet) (mask : Nat) :
    isReservedIPv4 ipv4 mask = documentedIPv4.any fun range =>
      rangeLine mask (netLong ipv4) range &&
        !(range.flag = IS_IP_LOOPBACK && netLong ipv4 = 0x7f000001) := by
  have hother : ∀ (flag : Nat) (line loopback : Bool), flag ≠ IS_IP_LOOPBACK →
      (line && !(decide (flag = IS_IP_LOOPBACK) && loopback)) = line := by
    intro flag line loopback hflag
    rw [decide_eq_false hflag, Bool.false_and, Bool.not_false, Bool.and_true]
  unfold isReservedIPv4 documentedIPv4
  simp only [Bool.or_assoc, List.any_cons, List.any_nil, Bool.or_false]
  simp (disch := decide) only [hother, decide_true, Bool.true_and, decide_not]
  rfl

theorem documentedIPv4_spare : ∀ range ∈ documentedIPv4,
    range.network.length = 4 ∧ range.length ≤ 32 ∧
      number range.network &&& netmask 32 range.length = number range.network := by
  decide

theorem rangeLine_iff {ipv4 : List Octet} (hlength : ipv4.length = 4) (mask : Nat)
    {range : CidrRange} (hrange : range ∈ documentedIPv4) :
    rangeLine mask (netLong ipv4) range ↔ isIpFlag mask range.flag ∧ range.Contains ipv4 := by
  obtain ⟨hnetwork, hwidth, hspare⟩ := documentedIPv4_spare range hrange
  have hiff := and_netmask_eq_iff (hlength.trans hnetwork.symm) (n := range.length)
    (by rw [hlength]; exact hwidth)
  rw [hlength] at hiff
  change number ipv4 &&& netmask 32 _ = number _ &&& netmask 32 _ ↔ _ at hiff
  rw [hspare] at hiff
  rw [rangeLine, inRange, netLong_eq hlength, Bool.and_eq_true, decide_eq_true_eq]
  exact and_congr_right fun _ => hiff

theorem number_localhost {ipv4 : List Octet} (hlength : ipv4.length = 4) :
    number ipv4 = 0x7f000001 ↔ ipv4 = [127, 0, 0, 1] :=
  @number_inj ipv4 [127, 0, 0, 1] hlength

theorem isReservedIPv4_iff {ipv4 : List Octet} (hlength : ipv4.length = 4) (mask : Nat) :
    isReservedIPv4 ipv4 mask ↔ DocumentedIPv4 ipv4 mask := by
  rw [isReservedIPv4_eq, List.any_eq_true]
  refine exists_congr fun range => and_congr_right fun hrange => ?_
  rw [Bool.and_eq_true, rangeLine_iff hlength mask hrange, Bool.not_eq_true', Bool.and_eq_false_iff,
    decide_eq_false_iff_not, decide_eq_false_iff_not, netLong_eq hlength, number_localhost hlength,
    not_and_or, and_assoc]

/-! ### Leading zeros -/

/-- The number of leading zero octets, by which isReservedIPv6 goes. -/
def leadingZeros (ipv6 : Buffer 16) : Nat :=
  (ipv6.octets.takeWhile (· = 0)).length

theorem le_length_takeWhile_iff {octets : List Octet} {k : Nat} (hk : k ≤ octets.length) :
    k ≤ (octets.takeWhile (· = 0)).length ↔ octets.take k = List.replicate k 0 := by
  induction octets generalizing k with
  | nil =>
      rw [Nat.le_zero.mp hk]
      simp
  | cons c octets ih =>
      cases k with
      | zero => simp
      | succ k =>
          rw [List.take_succ_cons, List.replicate_succ, List.cons.injEq]
          by_cases hc : c = 0
          · rw [List.takeWhile_cons_of_pos (by simpa using hc), List.length_cons,
              Nat.succ_le_succ_iff, ih (Nat.le_of_succ_le_succ hk)]
            exact (and_iff_right hc).symm
          · rw [List.takeWhile_cons_of_neg (by simpa using hc)]
            exact iff_of_false (Nat.not_succ_le_zero k) fun h => hc h.1

theorem le_leadingZeros_iff (ipv6 : Buffer 16) {k : Nat} (hk : k ≤ 16) :
    k ≤ leadingZeros ipv6 ↔ ipv6.octets.take k = List.replicate k 0 :=
  le_length_takeWhile_iff (hk.trans_eq ipv6.length_octets.symm)

theorem leadingZeros_le (ipv6 : Buffer 16) : leadingZeros ipv6 ≤ 16 := by
  have hle := (List.takeWhile_sublist (· = (0 : Octet)) (l := ipv6.octets)).length_le
  rwa [ipv6.length_octets] at hle

theorem contains_zeros_iff (ipv6 : Buffer 16) (flag : Nat) {k : Nat} (hk : k ≤ 16) :
    (CidrRange.mk flag (ipv6Network [] []) (8 * k)).Contains ipv6.octets ↔
      k ≤ leadingZeros ipv6 := by
  rw [le_leadingZeros_iff ipv6 hk, CidrRange.Contains]
  refine (take_bits_octets_iff ipv6.octets _ k).trans ?_
  have htake : (ipv6Network [] []).take k = List.replicate k 0 := by
    change (List.replicate 16 (0 : Octet) ++ []).take k = _
    rw [List.append_nil, List.take_replicate, Nat.min_eq_left hk]
  rw [htake]

/-! ### The ranges of isReservedIPv6 -/

theorem take_succ_octets (ipv6 : Buffer 16) {k : Nat} (hk : k < 16) :
    ipv6.octets.take (k + 1) = ipv6.octets.take k ++ [ipv6.get k] := by
  have hlt : k < ipv6.octets.length := hk.trans_eq ipv6.length_octets.symm
  rw [List.take_add_one, Buffer.get, List.getD_eq_getElem?_getD, List.getElem?_eq_getElem hlt]
  rfl

theorem leadingZeros_eq_iff (ipv6 : Buffer 16) {k : Nat} (hk : k < 16) {c : Octet} (hc : c ≠ 0) :
    leadingZeros ipv6 = k ∧ ipv6.get k = c ↔
      ipv6.octets.take (k + 1) = List.replicate k 0 ++ [c] := by
  rw [take_succ_octets ipv6 hk, List.append_singleton_inj, ← le_leadingZeros_iff ipv6 hk.le]
  refine and_congr_left fun hget => ⟨Nat.le_of_eq ∘ Eq.symm, fun hle => ?_⟩
  refine Nat.le_antisymm (Nat.le_of_not_lt fun hlt => hc ?_) hle
  have hzeros := (le_leadingZeros_iff ipv6 hk).mp hlt
  rw [take_succ_octets ipv6 hk, List.replicate_succ', List.append_singleton_inj] at hzeros
  rw [← hget, hzeros.2]

theorem localhost_iff (ipv6 : Buffer 16) :
    (CidrRange.mk IS_IP_LOCALHOST (ipv6Network [] [1]) 128).Contains ipv6.octets ↔
      leadingZeros ipv6 = 15 ∧ ipv6.get 15 = 1 :=
  (take_bits_octets_iff ipv6.octets (ipv6Network [] [1]) 16).trans
    (leadingZeros_eq_iff ipv6 (by decide) (by decide)).symm

theorem v4Mapped_iff (ipv6 : Buffer 16) :
    v4Mapped.Contains ipv6.octets ↔
      leadingZeros ipv6 = 10 ∧ ipv6.get 10 = 0xff ∧ ipv6.get 11 = 0xff := by
  have htake : v4Mapped.network.take 12 = (List.replicate 10 (0 : Octet) ++ [0xff]) ++ [0xff] := rfl
  refine (take_bits_octets_iff ipv6.octets v4Mapped.network 12).trans ?_
  rw [htake, take_succ_octets ipv6 (by decide), List.append_singleton_inj,
    ← leadingZeros_eq_iff ipv6 (by decide) (by decide), and_assoc]

theorem testNet_iff (ipv6 : Buffer 16) :
    (CidrRange.mk IS_IP_TEST_NET (ipv6Network [0x20, 0x01, 0x0d, 0xb8] []) 32).Contains
        ipv6.octets ↔ netLong ipv6.octets = 0x20010db8 := by
  have hlength : (ipv6.octets.take 4).length = 4 := by
    rw [List.length_take, ipv6.length_octets]
    rfl
  refine (take_bits_octets_iff ipv6.octets (ipv6Network [0x20, 0x01, 0x0d, 0xb8] []) 4).trans ?_
  rw [netLong, number_foldl]
  exact (@number_inj _ [0x20, 0x01, 0x0d, 0xb8] hlength).symm

theorem multicast_iff (ipv6 : Buffer 16) :
    (CidrRange.mk IS_IP_MULTICAST (ipv6Network [0xff] []) 8).Contains ipv6.octets ↔
      ipv6.get 0 = 0xff := by
  refine (take_bits_octets_iff ipv6.octets (ipv6Network [0xff] []) 1).trans ?_
  rw [take_succ_octets ipv6 (by decide)]
  exact List.singleton_inj

theorem linkLocal_iff (ipv6 : Buffer 16) :
    (CidrRange.mk IS_IP_LINK_LOCAL (ipv6Network [0xfe, 0x80] []) 10).Contains ipv6.octets ↔
      ipv6.get 0 = 0xfe ∧ ipv6.get 1 &&& 0xc0 = 0x80 := by
  have hsplit : ∀ octets : List Octet,
      (bits octets).take (8 + 2) = bits (octets.take 1) ++ (bits (octets.drop 1)).take 2 := by
    intro octets
    rw [List.take_add, (take_drop_bits octets 1).1, (take_drop_bits octets 1).2]
  have hfirst : ∀ (c : Octet) (octets : List Octet),
      (bits (c :: octets)).take 2 = (octetBits c).take 2 := fun c octets =>
    List.take_append_of_le_length (by rw [length_octetBits]; decide)
  have hlength : 1 < ipv6.octets.length := by
    rw [ipv6.length_octets]
    decide
  have hdrop : ipv6.octets.drop 1 = ipv6.get 1 :: ipv6.octets.drop 2 := by
    rw [List.drop_eq_getElem_cons hlength, Buffer.get, List.getD_eq_getElem?_getD,
      List.getElem?_eq_getElem hlength]
    rfl
  refine Iff.trans ?_ (and_congr_right fun _ => (and_prefixMask_eq_iff (ipv6.get 1) 0x80 2).symm)
  rw [CidrRange.Contains, hsplit, hsplit, hdrop, take_succ_octets ipv6 (by decide), hfirst]
  refine ⟨fun h => ?_, fun h => congrArg₂ (bits [·] ++ ·) h.1 h.2⟩
  obtain ⟨hone, htwo⟩ := List.append_inj h (by rw [length_bits, length_bits]; rfl)
  exact ⟨List.singleton_inj.mp (bits_inj.mp hone), htwo⟩

theorem isReservedIPv6_iff (ipv6 : Buffer 16) (mask : Nat) :
    isReservedIPv6 ipv6 mask ↔
      (isIpFlag mask IS_IP_THIS_HOST ∧ leadingZeros ipv6 = 16) ∨
      (isIpFlag mask IS_IP_THIS_NET ∧ 13 ≤ leadingZeros ipv6) ∨
      (isIpFlag mask IS_IP_LOCALHOST ∧ leadingZeros ipv6 = 15 ∧ ipv6.get 15 = 1) ∨
      ((leadingZeros ipv6 = 12 ∨ v4Mapped.Contains ipv6.octets) ∧
        ((isIpFlag mask IS_IP_V4_COMPATIBLE ∧ leadingZeros ipv6 = 12) ∨
          isIpFlag mask IS_IP_V4_MAPPED ∨ DocumentedIPv4 (ipv6.octets.drop 12) mask)) ∨
      (¬ (leadingZeros ipv6 = 12 ∨ v4Mapped.Contains ipv6.octets) ∧
        ((isIpFlag mask IS_IP_V6_RESERVED ∧ 2 ≤ leadingZeros ipv6) ∨
          isIpFlag mask IS_IP_V6 ∨
          (isIpFlag mask IS_IP_TEST_NET ∧ netLong ipv6.octets = 0x20010db8) ∨
          (isIpFlag mask IS_IP_LINK_LOCAL ∧ ipv6.get 0 = 0xfe ∧ ipv6.get 1 &&& 0xc0 = 0x80) ∨
          (isIpFlag mask IS_IP_MULTICAST ∧ ipv6.get 0 = 0xff))) := by
  have hlength : (ipv6.octets.drop 12).length = 4 := by
    rw [List.length_drop, ipv6.length_octets]
  rw [← isReservedIPv4_iff hlength, v4Mapped_iff, isReservedIPv6]
  have hite : ∀ (P : Prop) [Decidable P] (b : Bool), (if P then true else b) = true ↔ P ∨ b := by
    intro P _ b
    rw [Bool.if_true_left, Bool.or_eq_true, decide_eq_true_eq]
  have hfamily : ∀ (P : Prop) [Decidable P] (b c : Bool),
      (if P then b else c) = true ↔ (P ∧ b) ∨ (¬ P ∧ c) := by
    intro P _ b c
    by_cases hP : P <;> simp [hP]
  refine (hite _ _).trans (or_congr_right ((hite _ _).trans (or_congr_right
    ((hite _ _).trans (or_congr_right ((hfamily _ _ _).trans (or_congr ?_ ?_)))))))
  · exact and_congr_right fun _ => (hite _ _).trans (or_congr_right (hite _ _))
  · refine and_congr_right fun _ => (hite _ _).trans (or_congr_right ((hite _ _).trans
      (or_congr_right ((hite _ _).trans (or_congr_right ((hite _ _).trans (or_congr_right
        ((hite _ _).trans (or_iff_left Bool.false_ne_true)))))))))

theorem documented_iff (ipv6 : Buffer 16) (mask : Nat) :
    Documented ipv6 mask ↔
      ((isIpFlag mask IS_IP_THIS_HOST ∧ 16 ≤ leadingZeros ipv6) ∨
        (isIpFlag mask IS_IP_LOCALHOST ∧ leadingZeros ipv6 = 15 ∧ ipv6.get 15 = 1) ∨
        (isIpFlag mask IS_IP_V4_COMPATIBLE ∧ 12 ≤ leadingZeros ipv6) ∨
        (isIpFlag mask IS_IP_V4_MAPPED ∧ v4Mapped.Contains ipv6.octets) ∨
        (isIpFlag mask IS_IP_V6_RESERVED ∧ 1 ≤ leadingZeros ipv6) ∨
        (isIpFlag mask IS_IP_TEST_NET ∧ netLong ipv6.octets = 0x20010db8) ∨
        (isIpFlag mask IS_IP_LINK_LOCAL ∧ ipv6.get 0 = 0xfe ∧ ipv6.get 1 &&& 0xc0 = 0x80) ∨
        (isIpFlag mask IS_IP_MULTICAST ∧ ipv6.get 0 = 0xff)) ∨
      ((12 ≤ leadingZeros ipv6 ∨ v4Mapped.Contains ipv6.octets) ∧
        DocumentedIPv4 (ipv6.octets.drop 12) mask) := by
  have hhost := contains_zeros_iff ipv6 IS_IP_THIS_HOST (k := 16) (by decide)
  have hcompatible := contains_zeros_iff ipv6 IS_IP_V4_COMPATIBLE (k := 12) (by decide)
  have hreserved := contains_zeros_iff ipv6 IS_IP_V6_RESERVED (k := 1) (by decide)
  rw [← hhost, ← hcompatible, ← hreserved, ← localhost_iff, ← testNet_iff, ← linkLocal_iff,
    ← multicast_iff, Documented, documentedIPv6]
  simp only [List.exists_mem_cons_iff, List.not_mem_nil, false_and, exists_false, or_false]
  rfl

/-! ### IPv4 addresses with a zero octet in front -/

theorem documentedIPv4_zero : ∀ range ∈ documentedIPv4,
    (octetBits 0).take range.length = (bits range.network).take (min 8 range.length) →
      range = ⟨IS_IP_THIS_HOST, [0, 0, 0, 0], 32⟩ ∨ range = ⟨IS_IP_THIS_NET, [0, 0, 0, 0], 8⟩ := by
  decide

theorem documentedIPv4_zero_iff {rest : List Octet} (hlength : rest.length = 3) (mask : Nat) :
    DocumentedIPv4 (0 :: rest) mask ↔
      isIpFlag mask IS_IP_THIS_NET ∨
        (isIpFlag mask IS_IP_THIS_HOST ∧ 0 :: rest = [0, 0, 0, 0]) := by
  have hhost : ∀ flag, (CidrRange.mk flag [0, 0, 0, 0] 32).Contains (0 :: rest) ↔
      0 :: rest = [0, 0, 0, 0] := by
    intro flag
    refine (take_bits_octets_iff (0 :: rest) [0, 0, 0, 0] 4).trans ?_
    rw [List.take_of_length_le (by rw [List.length_cons, hlength])]
    rfl
  have hnet : ∀ flag, (CidrRange.mk flag [0, 0, 0, 0] 8).Contains (0 :: rest) := fun _ =>
    (take_bits_octets_iff (0 :: rest) [0, 0, 0, 0] 1).mpr rfl
  constructor
  · rintro ⟨range, hrange, hflag, hcontains, -⟩
    have htake := congrArg (List.take 8) hcontains
    rw [List.take_take, List.take_take] at htake
    have hzero : (bits (0 :: rest)).take (min 8 range.length) =
        (octetBits 0).take range.length := by
      change (octetBits 0 ++ bits rest).take _ = _
      rw [List.take_append_of_le_length (by rw [length_octetBits]; exact Nat.min_le_left _ _),
        List.take_eq_take_min, length_octetBits, List.take_eq_take_min (i := range.length),
        length_octetBits]
      exact congrArg (List.take · _) (by omega)
    rcases documentedIPv4_zero range hrange (hzero.symm.trans htake) with rfl | rfl
    · exact .inr ⟨hflag, (hhost _).mp hcontains⟩
    · exact .inl hflag
  · rintro (hflag | ⟨hflag, hzeros⟩)
    · refine ⟨⟨IS_IP_THIS_NET, [0, 0, 0, 0], 8⟩, by decide, hflag, hnet _, ?_⟩
      exact fun h => absurd h.1 (by decide)
    · refine ⟨⟨IS_IP_THIS_HOST, [0, 0, 0, 0], 32⟩, by decide, hflag,
        (hhost _).mpr hzeros, fun h => absurd h.1 (by decide)⟩

theorem documentedIPv4_drop_iff (ipv6 : Buffer 16) (mask : Nat) (h : 13 ≤ leadingZeros ipv6) :
    DocumentedIPv4 (ipv6.octets.drop 12) mask ↔
      isIpFlag mask IS_IP_THIS_NET ∨
        (isIpFlag mask IS_IP_THIS_HOST ∧ 16 ≤ leadingZeros ipv6) := by
  have hzeros := (le_leadingZeros_iff ipv6 (by decide)).mp h
  have hsplit : ipv6.octets = List.replicate 12 0 ++ 0 :: ipv6.octets.drop 13 := by
    have happend := List.take_append_drop 13 ipv6.octets
    rw [hzeros] at happend
    exact happend.symm
  have hdrop : ipv6.octets.drop 12 = 0 :: ipv6.octets.drop 13 := by
    rw [hsplit]
    rfl
  have hlength : (ipv6.octets.drop 13).length = 3 := by
    rw [List.length_drop, ipv6.length_octets]
  rw [hdrop, documentedIPv4_zero_iff hlength, le_leadingZeros_iff ipv6 (by decide),
    List.take_of_length_le ipv6.length_octets.le]
  refine or_congr_right (and_congr_right fun _ => ?_)
  conv_rhs => rw [hsplit]
  exact (List.append_right_inj (List.replicate 12 (0 : Octet))).symm

/-! ### Unions of masks -/

theorem isIpFlag_or (mask mask' flag : Nat) :
    isIpFlag (mask ||| mask') flag ↔ isIpFlag mask flag ∨ isIpFlag mask' flag := by
  rw [isIpFlag, isIpFlag, isIpFlag, decide_eq_true_eq, decide_eq_true_eq, decide_eq_true_eq,
    Nat.and_or_distrib_right, ne_eq, Nat.or_eq_zero_iff, not_and_or]

theorem documentedIPv4_or (ipv4 : List Octet) (mask mask' : Nat) :
    DocumentedIPv4 ipv4 (mask ||| mask') ↔
      DocumentedIPv4 ipv4 mask ∨ DocumentedIPv4 ipv4 mask' := by
  simp only [DocumentedIPv4, isIpFlag_or, or_and_right, and_or_left, exists_or]

theorem isReservedIPv6_or (ipv6 : Buffer 16) (mask mask' : Nat) :
    isReservedIPv6 ipv6 (mask ||| mask') =
      (isReservedIPv6 ipv6 mask || isReservedIPv6 ipv6 mask') := by
  -- Each line of the test splits, and with them their disjunction.
  have hor : ∀ {A A₁ A₂ B B₁ B₂ : Prop}, (A ↔ A₁ ∨ A₂) → (B ↔ B₁ ∨ B₂) →
      (A ∨ B ↔ (A₁ ∨ B₁) ∨ (A₂ ∨ B₂)) := by
    rintro A A₁ A₂ B B₁ B₂ hA hB
    rw [hA, hB, or_or_or_comm]
  have hline : ∀ (flag : Nat) (P : Prop), isIpFlag (mask ||| mask') flag ∧ P ↔
      (isIpFlag mask flag ∧ P) ∨ (isIpFlag mask' flag ∧ P) := by
    intro flag P
    rw [isIpFlag_or, or_and_right]
  rw [Bool.eq_iff_iff, Bool.or_eq_true, isReservedIPv6_iff, isReservedIPv6_iff, isReservedIPv6_iff]
  refine hor (hline _ _) (hor (hline _ _) (hor (hline _ _) (hor ?_ ?_)))
  · rw [← and_or_left]
    exact and_congr_right fun _ =>
      hor (hline _ _) (hor (isIpFlag_or _ _ _) (documentedIPv4_or _ _ _))
  · rw [← and_or_left]
    exact and_congr_right fun _ => hor (hline _ _) (hor (isIpFlag_or _ _ _)
      (hor (hline _ _) (hor (hline _ _) (hline _ _))))

/-! ### Agreement with the documentation -/

/-- Where the count of leading zeros tells the documented ranges. Each item is about one kind of
address; other addresses are told right under every mask. -/
@[mk_iff]
structure RangesTold (ipv6 : Buffer 16) (mask : Nat) : Prop where
  /-- 0000::/8 is tested from the second zero octet on. -/
  oneZero : leadingZeros ipv6 = 1 → ¬ isIpFlag mask IS_IP_V6_RESERVED
  /-- IPv4-mapped addresses lie in 0000::/8, and are not tested for it. -/
  mapped : v4Mapped.Contains ipv6.octets → isIpFlag mask IS_IP_V6_RESERVED →
    isIpFlag mask IS_IP_V4_MAPPED ∨ DocumentedIPv4 (ipv6.octets.drop 12) mask
  /-- Nor are IPv4-compatible addresses, which are tested for ::ffff:0:0/96. -/
  compatible : leadingZeros ipv6 = 12 → isIpFlag mask IS_IP_V4_COMPATIBLE ∨
    DocumentedIPv4 (ipv6.octets.drop 12) mask ∨
      (isIpFlag mask IS_IP_V6_RESERVED ↔ isIpFlag mask IS_IP_V4_MAPPED)
  /-- ::/96 is tested for exactly twelve zero octets, not for more. -/
  moreZeros : 13 ≤ leadingZeros ipv6 → isIpFlag mask IS_IP_V4_COMPATIBLE →
    isIpFlag mask IS_IP_THIS_NET ∨ isIpFlag mask IS_IP_V6_RESERVED ∨
      (isIpFlag mask IS_IP_THIS_HOST ∧ leadingZeros ipv6 = 16) ∨
      (isIpFlag mask IS_IP_LOCALHOST ∧ leadingZeros ipv6 = 15 ∧ ipv6.get 15 = 1)

theorem get_zero_of_leadingZeros {ipv6 : Buffer 16} (h : 1 ≤ leadingZeros ipv6) :
    ipv6.get 0 = 0 := by
  have hzeros := (le_leadingZeros_iff ipv6 (by decide)).mp h
  rw [take_succ_octets ipv6 (by decide)] at hzeros
  exact List.singleton_inj.mp hzeros

theorem get_zero_of_netLong {ipv6 : Buffer 16} (h : netLong ipv6.octets = 0x20010db8) :
    ipv6.get 0 = 0x20 := by
  have htake := take_eq_of_le (n := 8 * 1) (by decide) ((testNet_iff ipv6).mpr h)
  have htake := (take_bits_octets_iff _ _ 1).mp htake
  rw [take_succ_octets ipv6 (by decide)] at htake
  exact List.singleton_inj.mp htake

section

variable {ipv6 : Buffer 16} {mask : Nat} (hmask : isIpFlag mask IS_IP_V6 = false)
include hmask

theorem told_noZero (hzero : leadingZeros ipv6 = 0) :
    (isReservedIPv6 ipv6 mask = true ↔ Documented ipv6 mask) ↔ RangesTold ipv6 mask := by
  have hmapped : ¬ v4Mapped.Contains ipv6.octets := fun h => by
    rw [v4Mapped_iff, hzero] at h
    cases h.1
  rw [isReservedIPv6_iff, documented_iff, rangesTold_iff, hmask]
  simp [hzero, hmapped]

theorem told_zero (hzero : 1 ≤ leadingZeros ipv6) :
    (isReservedIPv6 ipv6 mask ↔
      (isIpFlag mask IS_IP_THIS_HOST ∧ leadingZeros ipv6 = 16) ∨
      (isIpFlag mask IS_IP_THIS_NET ∧ 13 ≤ leadingZeros ipv6) ∨
      (isIpFlag mask IS_IP_LOCALHOST ∧ leadingZeros ipv6 = 15 ∧ ipv6.get 15 = 1) ∨
      ((leadingZeros ipv6 = 12 ∨ v4Mapped.Contains ipv6.octets) ∧
        ((isIpFlag mask IS_IP_V4_COMPATIBLE ∧ leadingZeros ipv6 = 12) ∨
          isIpFlag mask IS_IP_V4_MAPPED ∨ DocumentedIPv4 (ipv6.octets.drop 12) mask)) ∨
      (¬ (leadingZeros ipv6 = 12 ∨ v4Mapped.Contains ipv6.octets) ∧
        isIpFlag mask IS_IP_V6_RESERVED ∧ 2 ≤ leadingZeros ipv6)) ∧
    (Documented ipv6 mask ↔
      ((isIpFlag mask IS_IP_THIS_HOST ∧ 16 ≤ leadingZeros ipv6) ∨
        (isIpFlag mask IS_IP_LOCALHOST ∧ leadingZeros ipv6 = 15 ∧ ipv6.get 15 = 1) ∨
        (isIpFlag mask IS_IP_V4_COMPATIBLE ∧ 12 ≤ leadingZeros ipv6) ∨
        (isIpFlag mask IS_IP_V4_MAPPED ∧ v4Mapped.Contains ipv6.octets) ∨
        isIpFlag mask IS_IP_V6_RESERVED) ∨
      ((12 ≤ leadingZeros ipv6 ∨ v4Mapped.Contains ipv6.octets) ∧
        DocumentedIPv4 (ipv6.octets.drop 12) mask)) := by
  have hget := get_zero_of_leadingZeros hzero
  have hnet : netLong ipv6.octets ≠ 0x20010db8 := fun h => by
    rw [get_zero_of_netLong h] at hget
    cases hget
  have hlocal : ¬ (ipv6.get 0 = 0xfe ∧ ipv6.get 1 &&& 0xc0 = 0x80) := fun h => by
    rw [h.1] at hget
    cases hget
  have hmulticast : ipv6.get 0 ≠ 0xff := fun h => by
    rw [h] at hget
    cases hget
  rw [isReservedIPv6_iff, documented_iff, eq_false hlocal, eq_false hmulticast, eq_false hnet,
    hmask]
  simp only [hzero, and_false, and_true, or_false, Bool.false_eq_true, and_self]

theorem told_mapped (hmapped : v4Mapped.Contains ipv6.octets) :
    (isReservedIPv6 ipv6 mask = true ↔ Documented ipv6 mask) ↔ RangesTold ipv6 mask := by
  have hten : leadingZeros ipv6 = 10 := ((v4Mapped_iff ipv6).mp hmapped).1
  have hcore : ∀ {M R D : Prop}, ((M ∨ D) ↔ (M ∨ R) ∨ D) ↔ (R → M ∨ D) := by tauto
  obtain ⟨hcode, hdocumented⟩ := @told_zero ipv6 mask hmask (by omega)
  rw [hcode, hdocumented, rangesTold_iff]
  simp [hten, hmapped, hcore]

theorem told_compatible (htwelve : leadingZeros ipv6 = 12) :
    (isReservedIPv6 ipv6 mask = true ↔ Documented ipv6 mask) ↔ RangesTold ipv6 mask := by
  have hmapped : ¬ v4Mapped.Contains ipv6.octets := fun h => by
    rw [v4Mapped_iff, htwelve] at h
    cases h.1
  have hcore : ∀ {c m r : Bool} {D : Prop}, (c = true ∨ m = true ∨ D ↔ (c = true ∨ r = true) ∨ D) ↔
      (c = true ∨ D ∨ r = m) := by
    intro c m r D
    cases m <;> cases r <;> simp
  obtain ⟨hcode, hdocumented⟩ := @told_zero ipv6 mask hmask (by omega)
  rw [hcode, hdocumented, rangesTold_iff]
  simp [htwelve, hmapped, hcore]

theorem told_moreZeros (hmore : 13 ≤ leadingZeros ipv6) :
    (isReservedIPv6 ipv6 mask = true ↔ Documented ipv6 mask) ↔ RangesTold ipv6 mask := by
  have hmapped : ¬ v4Mapped.Contains ipv6.octets := fun h => by
    rw [v4Mapped_iff] at h
    omega
  have hle := leadingZeros_le ipv6
  have hcounts : 12 ≤ leadingZeros ipv6 ∧ 2 ≤ leadingZeros ipv6 ∧ leadingZeros ipv6 ≠ 12 ∧
      leadingZeros ipv6 ≠ 1 := by omega
  have hall : 16 ≤ leadingZeros ipv6 ↔ leadingZeros ipv6 = 16 := by omega
  have hcore : ∀ {H N L C R : Prop}, (H ∨ N ∨ L ∨ R ↔ (H ∨ L ∨ C ∨ R) ∨ N ∨ H) ↔
      (C → N ∨ R ∨ H ∨ L) := by grind
  obtain ⟨hcode, hdocumented⟩ := @told_zero ipv6 mask hmask (by omega)
  rw [hcode, hdocumented, rangesTold_iff, documentedIPv4_drop_iff ipv6 mask hmore, hall]
  simp [hmore, hcounts, hmapped, hcore]

theorem told_fewZeros (hzero : 1 ≤ leadingZeros ipv6) (hfew : leadingZeros ipv6 < 12)
    (hmapped : ¬ v4Mapped.Contains ipv6.octets) :
    (isReservedIPv6 ipv6 mask = true ↔ Documented ipv6 mask) ↔ RangesTold ipv6 mask := by
  have hcounts : ¬ 12 ≤ leadingZeros ipv6 ∧ ¬ 13 ≤ leadingZeros ipv6 ∧ ¬ 16 ≤ leadingZeros ipv6 ∧
      leadingZeros ipv6 ≠ 12 ∧ leadingZeros ipv6 ≠ 15 ∧ leadingZeros ipv6 ≠ 16 := by omega
  have hone : 2 ≤ leadingZeros ipv6 ↔ leadingZeros ipv6 ≠ 1 := by omega
  obtain ⟨hcode, hdocumented⟩ := told_zero hmask hzero
  rw [hcode, hdocumented, rangesTold_iff, hone]
  by_cases h : leadingZeros ipv6 = 1 <;> simp [h, hcounts, hmapped]

end

/-- The test of an IPv6 address answers by the documented ranges exactly if the count of leading
zeros tells them; and the test for a union of masks is the disjunction of the tests. -/
theorem reservedIPv6_documented_iff (ipv6 : Buffer 16) (mask : Nat)
    (hmask : isIpFlag mask IS_IP_V6 = false) :
    ((isReservedIPv6 ipv6 mask = true ↔ Documented ipv6 mask) ↔ RangesTold ipv6 mask) ∧
      ∀ mask', isReservedIPv6 ipv6 (mask ||| mask') =
        (isReservedIPv6 ipv6 mask || isReservedIPv6 ipv6 mask') := by
  refine ⟨?_, isReservedIPv6_or ipv6 mask⟩
  rcases Nat.eq_zero_or_pos (leadingZeros ipv6) with hzero | hzero
  · exact told_noZero hmask hzero
  · by_cases hmapped : v4Mapped.Contains ipv6.octets
    · exact told_mapped hmask hmapped
    · rcases Nat.lt_trichotomy (leadingZeros ipv6) 12 with hfew | htwelve | hmore
      · exact told_fewZeros hmask hzero hfew hmapped
      · exact told_compatible hmask htwelve
      · exact told_moreZeros hmask hmore

/-- The address ::1 under the masks of this host and of the local host. -/
theorem reservedIPv6_localhost :
    isIpFlag IS_IP_LOCALHOST IS_IP_V6 = false ∧
      ((isReservedIPv6 (Buffer.mk (ipv6Network [] [1]) rfl) IS_IP_LOCALHOST = true ↔
          Documented (Buffer.mk (ipv6Network [] [1]) rfl) IS_IP_LOCALHOST) ↔
        RangesTold (Buffer.mk (ipv6Network [] [1]) rfl) IS_IP_LOCALHOST) ∧
      isReservedIPv6 (Buffer.mk (ipv6Network [] [1]) rfl) (IS_IP_LOCALHOST ||| IS_IP_THIS_HOST) =
        (isReservedIPv6 (Buffer.mk (ipv6Network [] [1]) rfl) IS_IP_LOCALHOST ||
          isReservedIPv6 (Buffer.mk (ipv6Network [] [1]) rfl) IS_IP_THIS_HOST) :=
  ⟨by decide, (reservedIPv6_documented_iff _ _ (by decide)).1,
    (reservedIPv6_documented_iff _ _ (by decide)).2 _⟩

/-- An address with one zero octet in front lies in 0000::/8, and is not found there. -/
theorem isReservedIPv6_oneZero :
    ¬ (isReservedIPv6 (Buffer.mk (ipv6Network [0x00, 0xff] []) rfl) IS_IP_V6_RESERVED = true ↔
      Documented (Buffer.mk (ipv6Network [0x00, 0xff] []) rfl) IS_IP_V6_RESERVED) := by
  decide

end Snert
