/-
Module: Snert.Proofs.NetworkText
Purpose: `networkContainsIP` against the networks that are written. The address before the slash and
  the other address are read as they stand, and so is a prefix of decimal digits. But nothing else is
  asked of a prefix: what does not begin with a number is the prefix zero, what follows a number is
  left out, and a prefix that is too long for IPv4 becomes one of IPv6, which reaches into the zeros
  before an IPv4 address.
Trusted boundary: none
Main exports: networkContainsIP_iff
-/
import Snert.Proofs.ParseIPv6Slash

namespace Snert

open CModel CModel.Run Lists

/-- The parser accepts the whole text, as an address. -/
def Accepts (text : List Octet) (ipv6 value : Ipv6) : Prop :=
  text ≠ [] ∧ (parseIPv6 text ipv6).Yields (text.length, value)

/-- The network that is written as an address and a prefix contains another address. The prefix is a
decimal number, of at most 128 bits when the address is written with a colon, and of at most 32 bits
of an IPv4 address otherwise. An IPv4 address is held behind twelve zero octets. -/
def InNetwork (addr len : List Octet) (network ip : Ipv6) : Prop :=
  IsDecimal len ∧
    if ch ':' ∈ addr then
      digitsValue 10 len ≤ IPV6_BIT_LENGTH ∧
        (bits ip.octets).take (digitsValue 10 len) =
          (bits network.octets).take (digitsValue 10 len)
    else
      digitsValue 10 len ≤ IPV4_BIT_LENGTH ∧ ip.octets.take 12 = List.replicate 12 0 ∧
        (bits (ip.octets.drop 12)).take (digitsValue 10 len) =
          (bits (network.octets.drop 12)).take (digitsValue 10 len)

/-- The prefix is a decimal number, and not too long for an address written without a colon. -/
def PlainPrefix (addr len : List Octet) : Prop :=
  IsDecimal len ∧ (ch ':' ∈ addr ∨ digitsValue 10 len ≤ IPV4_BIT_LENGTH)

/-- The number of bits that a prefix is taken for. -/
def prefixRead (addr len : List Octet) : Nat :=
  familyCidr (addr ++ ch '/' :: len) (sizeT (strtol len 10).1)

/-- The addresses have the bits in common that a prefix is taken for. -/
def SharesPrefixRead (addr len : List Octet) (network ip : Ipv6) : Prop :=
  prefixRead addr len ≤ IPV6_BIT_LENGTH ∧
    (bits ip.octets).take (prefixRead addr len) = (bits network.octets).take (prefixRead addr len)

instance (addr len : List Octet) : Decidable (PlainPrefix addr len) :=
  inferInstanceAs (Decidable (_ ∧ _))

instance (addr len : List Octet) (network ip : Ipv6) :
    Decidable (SharesPrefixRead addr len network ip) :=
  inferInstanceAs (Decidable (_ ∧ _))

/-! ### The test of text -/

variable {addr len address : List Octet} {buffer buffer' network ip : Ipv6}

theorem dropWhile_slash (h : ch '/' ∉ addr) :
    (addr ++ ch '/' :: len).dropWhile (· ≠ ch '/') = ch '/' :: len := by
  rw [List.dropWhile_append_of_pos, List.dropWhile_cons_of_neg (by simp)]
  intro c hc
  simp only [ne_eq, decide_not, Bool.not_eq_eq_eq_not, Bool.not_true, decide_eq_false_iff_not]
  rintro rfl
  exact h hc

theorem networkContainsIP_ends (hnet : Accepts addr buffer network)
    (hip : Accepts address buffer' ip) :
    (networkContainsIP (addr ++ ch '/' :: len) address buffer buffer').Ends fun found =>
      found = true ↔ SharesPrefixRead addr len network ip := by
  have hnetLength := List.length_pos_of_ne_nil hnet.1
  have hipLength := List.length_pos_of_ne_nil hip.1
  have hread : (parseIPv6 (addr ++ ch '/' :: len) buffer).Yields (addr.length, network) := by
    rw [parseIPv6_slash]
    exact hnet.2
  unfold networkContainsIP
  rw [dropWhile_slash (slash_not_mem_of_accepted hnet.2.outcome)]
  dsimp only
  rw [hread.bind_ends_iff, if_neg (by omega), hip.2.bind_ends_iff, if_neg (by omega), ends_pure]
  exact networkContainsIPv6_iff network ip _

/-! ### Plain prefixes -/

theorem prefixRead_of_plain (h : PlainPrefix addr len) : prefixRead addr len =
    if ch ':' ∈ addr then min (digitsValue 10 len) (2 ^ 63 - 1) else 96 + digitsValue 10 len := by
  have hcolon : ch ':' ∈ addr ++ ch '/' :: len ↔ ch ':' ∈ addr := by
    rw [List.mem_append, or_iff_left]
    intro hmem
    rcases List.mem_cons.mp hmem with hc | hc
    · exact absurd hc (by decide)
    · exact h.1.not_mem (by decide) hc
  unfold prefixRead familyCidr
  rw [strtol_decimal h.1]
  dsimp only
  rw [sizeT_clampLong]
  by_cases hmem : ch ':' ∈ addr
  · rw [if_pos hmem, if_neg fun hc => hc.2 (hcolon.mpr hmem)]
  · have hshort : digitsValue 10 len ≤ 32 := h.2.resolve_left hmem
    rw [if_neg hmem, Nat.min_eq_left (by omega),
      if_pos ⟨hshort, fun hc => hmem (hcolon.mp hc)⟩]
    rfl

theorem take_ipv4_iff (hnet : network.octets.take 12 = List.replicate 12 0) (n : Nat) :
    (bits ip.octets).take (96 + n) = (bits network.octets).take (96 + n) ↔
      ip.octets.take 12 = List.replicate 12 0 ∧
        (bits (ip.octets.drop 12)).take n = (bits (network.octets.drop 12)).take n := by
  obtain ⟨htake, hdrop⟩ := take_drop_bits ip.octets 12
  obtain ⟨htake', hdrop'⟩ := take_drop_bits network.octets 12
  have hlen : ((bits ip.octets).take (8 * 12)).length =
      ((bits network.octets).take (8 * 12)).length := by
    rw [List.length_take, List.length_take, length_bits, length_bits, ip.length_octets,
      network.length_octets]
  have hsplit : (bits ip.octets).take (8 * 12 + n) = (bits network.octets).take (8 * 12 + n) ↔
      (bits ip.octets).take (8 * 12) = (bits network.octets).take (8 * 12) ∧
        ((bits ip.octets).drop (8 * 12)).take n = ((bits network.octets).drop (8 * 12)).take n := by
    rw [List.take_add, List.take_add]
    exact ⟨fun h => List.append_inj h hlen, fun h => by rw [h.1, h.2]⟩
  rw [htake, hdrop, htake', hdrop', bits_inj, hnet] at hsplit
  exact hsplit

theorem sharesPrefixRead_of_plain (h : PlainPrefix addr len)
    (hnet : ch ':' ∉ addr → network.octets.take 12 = List.replicate 12 0) :
    SharesPrefixRead addr len network ip ↔ InNetwork addr len network ip := by
  unfold SharesPrefixRead InNetwork
  rw [prefixRead_of_plain h, and_iff_right h.1]
  by_cases hmem : ch ':' ∈ addr
  · rw [if_pos hmem, if_pos hmem]
    by_cases hshort : digitsValue 10 len ≤ 128
    · rw [Nat.min_eq_left (by omega)]
    · refine iff_of_false (fun hc => ?_) fun hc => hshort hc.1
      have hle : min (digitsValue 10 len) (2 ^ 63 - 1) ≤ 128 := hc.1
      omega
  · have hshort : digitsValue 10 len ≤ 32 := h.2.resolve_left hmem
    have hlong : 96 + digitsValue 10 len ≤ IPV6_BIT_LENGTH := Nat.add_le_add_left hshort 96
    rw [if_neg hmem, if_neg hmem, and_iff_right hlong, and_iff_right (show _ ≤ 32 from hshort),
      take_ipv4_iff (hnet hmem)]

theorem not_inNetwork_of_not_plain (h : ¬ PlainPrefix addr len) : ¬ InNetwork addr len network ip := by
  rintro ⟨hdecimal, hin⟩
  refine h ⟨hdecimal, ?_⟩
  by_cases hmem : ch ':' ∈ addr
  · exact .inl hmem
  · rw [if_neg hmem] at hin
    exact .inr hin.1

/-! ### The whole function -/

/-- The text of a network, and an address, both accepted: the answer is right exactly if the prefix is
plain, or the addresses do not share the bits that it is taken for. -/
theorem networkContainsIP_iff (addr len address : List Octet) (buffer buffer' network ip : Ipv6)
    (hnet : Accepts addr buffer network) (hip : Accepts address buffer' ip) :
    (networkContainsIP (addr ++ ch '/' :: len) address buffer buffer').Ends
        (fun found => found = true ↔ InNetwork addr len network ip) ↔
      (PlainPrefix addr len ∨ ¬ SharesPrefixRead addr len network ip) := by
  have hends : (networkContainsIP (addr ++ ch '/' :: len) address buffer buffer').Ends _ :=
    networkContainsIP_ends hnet hip
  have hfamily (hmem : ch ':' ∉ addr) : network.octets.take 12 = List.replicate 12 0 :=
    parseIPv6_no_colon hmem hnet.2.outcome (List.length_pos_of_ne_nil hnet.1).ne'
  obtain ⟨hin, found, hdone, hfound⟩ := hends
  have hyields : (networkContainsIP (addr ++ ch '/' :: len) address buffer buffer').Yields found :=
    ⟨hin, found, hdone, rfl⟩
  rw [hyields.ends_iff, hfound]
  by_cases hplain : PlainPrefix addr len
  · exact iff_of_true (sharesPrefixRead_of_plain hplain hfamily) (.inl hplain)
  · rw [iff_false_right (not_inNetwork_of_not_plain hplain), or_iff_right hplain]

theorem accepts_loopback : Accepts (ascii "127.0.0.1") (Buffer.replicate 16 0)
    ⟨List.replicate 12 0 ++ [127, 0, 0, 1], by decide⟩ :=
  ⟨by decide, yields_of_result (by decide) (by decide)⟩

theorem accepts_private : Accepts (ascii "10.0.0.1") (Buffer.replicate 16 0)
    ⟨List.replicate 12 0 ++ [10, 0, 0, 1], by decide⟩ :=
  ⟨by decide, yields_of_result (by decide) (by decide)⟩

theorem networkContainsIP_private :
    (networkContainsIP (ascii "127.0.0.1/8") (ascii "10.0.0.1") (Buffer.replicate 16 0)
        (Buffer.replicate 16 0)).Ends (fun found => found = true ↔ InNetwork (ascii "127.0.0.1")
          (ascii "8") ⟨List.replicate 12 0 ++ [127, 0, 0, 1], by decide⟩
            ⟨List.replicate 12 0 ++ [10, 0, 0, 1], by decide⟩) :=
  (networkContainsIP_iff (ascii "127.0.0.1") (ascii "8") (ascii "10.0.0.1") _ _ _ _ accepts_loopback
    accepts_private).mpr (.inl (by decide))

/-- The prefix 40 is longer than an IPv4 address, but the octets before it are all zero. -/
theorem networkContainsIP_long_prefix : ¬ ∀ (addr len address : List Octet)
    (buffer buffer' network ip : Ipv6), Accepts addr buffer network → Accepts address buffer' ip →
      (networkContainsIP (addr ++ ch '/' :: len) address buffer buffer').Ends fun found =>
        found = true ↔ InNetwork addr len network ip := by
  intro h
  obtain ⟨-, found, hdone, hfound⟩ := h _ (ascii "40") _ _ _ _ _ accepts_loopback accepts_private
  have htrue : (networkContainsIP (ascii "127.0.0.1" ++ ch '/' :: ascii "40") (ascii "10.0.0.1")
      (Buffer.replicate 16 0) (Buffer.replicate 16 0)).result = some true := by decide
  rw [result_eq_some, hdone] at htrue
  obtain rfl := Outcome.done.inj htrue
  have hin := (hfound.mp rfl).2
  rw [if_neg (by decide)] at hin
  exact absurd hin.1 (by decide)

end Snert
