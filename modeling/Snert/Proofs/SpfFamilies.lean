/-
Module: Snert.Proofs.SpfFamilies
Purpose: The mechanisms `a` and `mx` against the families of addresses. A suffix "/n4//n6" is read as it
  is written, and a prefix of a network is compared bit by bit. But each address of an answer is
  compared with both prefixes, whatever its family: the IPv6 prefix reaches IPv4 addresses through the
  zero bits before them, and the IPv4 prefix is one of IPv6 addresses.
Trusted boundary: none
Main exports: spfTerm_families_iff
-/
import Snert.Mail.SpfCheck
import Snert.Proofs.ParseIPv6Slash

namespace Snert

open CModel Lists

/-! ### Suffixes -/

/-- A suffix "/n4", "//n6" or "/n4//n6", or none. -/
structure CidrSuffix where
  four : Option (List Octet)
  six : Option (List Octet)
  four_decimal : ∀ digits ∈ four, IsDecimal digits
  six_decimal : ∀ digits ∈ six, IsDecimal digits

namespace CidrSuffix

/-- The part of the suffix for IPv6. -/
def octets6 (suffix : CidrSuffix) : List Octet :=
  suffix.six.elim [] fun digits => ch '/' :: ch '/' :: digits

def octets (suffix : CidrSuffix) : List Octet :=
  suffix.four.elim [] (ch '/' :: ·) ++ suffix.octets6

/-- The prefix of IPv4 addresses. -/
def n4 (suffix : CidrSuffix) : Nat :=
  suffix.four.elim IPV4_BIT_LENGTH (digitsValue 10)

/-- The prefix of IPv6 addresses. -/
def n6 (suffix : CidrSuffix) : Nat :=
  suffix.six.elim IPV6_BIT_LENGTH (digitsValue 10)

end CidrSuffix

theorem strtol_octets6 {digits : List Octet} (h : IsDecimal digits) (suffix : CidrSuffix) :
    strtol (digits ++ suffix.octets6) 10 = (clampLong (digitsValue 10 digits), suffix.octets6) := by
  unfold CidrSuffix.octets6
  cases suffix.six with
  | none =>
      rw [Option.elim_none, List.append_nil]
      exact strtol_decimal h
  | some digits6 =>
      rw [Option.elim_some, strtol_append_delimiter delimiter_slash, strtol_decimal h]
      rfl

theorem spfGetCidr6_suffix (suffix : CidrSuffix) :
    spfGetCidr6 suffix.octets6 = (min suffix.n6 (2 ^ 63 - 1), []) := by
  unfold CidrSuffix.octets6 CidrSuffix.n6
  cases hsix : suffix.six with
  | none => rfl
  | some digits =>
      unfold spfGetCidr6
      rw [Option.elim_some, if_pos ⟨rfl, rfl⟩]
      dsimp only [List.tail_cons]
      rw [strtol_decimal (suffix.six_decimal digits hsix), sizeT_clampLong]
      rfl

theorem spfGetCidr4_suffix (suffix : CidrSuffix) :
    spfGetCidr4 suffix.octets = (96 + min suffix.n4 (2 ^ 63 - 1), suffix.octets6) := by
  unfold CidrSuffix.octets CidrSuffix.n4
  cases hfour : suffix.four with
  | none =>
      have hnone : ¬ (peek suffix.octets6 = ch '/' ∧ peek suffix.octets6.tail ≠ ch '/') := by
        unfold CidrSuffix.octets6
        cases suffix.six with
        | none => exact fun h => absurd h.1 (by decide)
        | some digits => exact fun h => h.2 rfl
      rw [Option.elim_none, List.nil_append, spfGetCidr4, if_neg hnone]
      rfl
  | some digits =>
      have hdecimal := suffix.four_decimal digits hfour
      have hslash : peek (digits ++ suffix.octets6) ≠ ch '/' := by
        cases digits with
        | nil => exact absurd rfl hdecimal.1
        | cons c digits => exact fun hc => hdecimal.not_mem delimiter_slash (hc ▸ List.mem_cons_self)
      rw [Option.elim_some, List.cons_append, spfGetCidr4, if_pos ⟨rfl, hslash⟩]
      dsimp only [List.tail_cons]
      rw [strtol_octets6 hdecimal, sizeT_clampLong, Option.elim_some]
      have hsum : sizeT ((IPV6_BIT_LENGTH : Int) - IPV4_BIT_LENGTH +
          ((min (digitsValue 10 digits) (2 ^ 63 - 1) : Nat) : Int)) =
            96 + min (digitsValue 10 digits) (2 ^ 63 - 1) := by
        change sizeT ((128 : Int) - 32 + _) = _
        rw [sizeT_of_nonneg (by omega) (by omega)]
        omega
      rw [hsum]

theorem spfGetDualCIDR_suffix {head : List Octet} (hhead : ch '/' ∉ head) (suffix : CidrSuffix) :
    spfGetDualCIDR (head ++ suffix.octets) =
      if suffix.n4 ≤ IPV4_BIT_LENGTH ∧ suffix.n6 ≤ IPV6_BIT_LENGTH then
        some ⟨96 + suffix.n4, suffix.n6, (head ++ suffix.octets).length⟩
      else none := by
  have hspan : strcspn (head ++ suffix.octets) [ch '/'] = head.length := by
    have hfirst : suffix.octets.takeWhile (· ∉ [ch '/']) = [] := by
      unfold CidrSuffix.octets CidrSuffix.octets6
      cases suffix.four with
      | some digits => exact List.takeWhile_cons_of_neg (by decide)
      | none =>
          cases suffix.six with
          | some digits => exact List.takeWhile_cons_of_neg (by decide)
          | none => rfl
    rw [strcspn, List.takeWhile_append_of_pos fun c hc => ?_, hfirst, List.append_nil]
    simp only [List.mem_singleton, decide_eq_true_eq]
    exact fun heq => hhead (heq ▸ hc)
  unfold spfGetDualCIDR
  rw [hspan, List.drop_left]
  dsimp only
  rw [spfGetCidr4_suffix]
  dsimp only
  rw [spfGetCidr6_suffix, if_neg (fun h => h rfl)]
  dsimp only
  by_cases hshort : suffix.n4 ≤ IPV4_BIT_LENGTH ∧ suffix.n6 ≤ IPV6_BIT_LENGTH
  · have h4 : suffix.n4 ≤ 32 := hshort.1
    have h6 : suffix.n6 ≤ 128 := hshort.2
    have hread : ¬ (128 < 96 + min suffix.n4 (2 ^ 63 - 1) ∨ 128 < min suffix.n6 (2 ^ 63 - 1)) := by
      omega
    rw [if_pos hshort, if_neg hread, Nat.min_eq_left (by omega), Nat.min_eq_left (by omega)]
  · have hread : 128 < 96 + min suffix.n4 (2 ^ 63 - 1) ∨ 128 < min suffix.n6 (2 ^ 63 - 1) := by
      have hlong : ¬ (suffix.n4 ≤ 32 ∧ suffix.n6 ≤ 128) := hshort
      omega
    rw [if_neg hshort, if_pos hread]

/-! ### Families of addresses -/

/-- An address of one of the families. -/
inductive Address where
  | ipv4 (octets : Buffer 4)
  | ipv6 (octets : Buffer 16)
deriving DecidableEq, Repr

namespace Address

/-- An address as it is held: an IPv4 address has 96 zero bits before it. -/
def held : Address → Ipv6
  | .ipv4 octets => ⟨List.replicate 12 0 ++ octets.octets, by simp [octets.length_octets]⟩
  | .ipv6 octets => octets

/-- The addresses are of one family, and have the bits of the prefix of that family in common. -/
def Matches (n4 n6 : Nat) : Address → Address → Prop
  | .ipv4 octets, .ipv4 octets' => (bits octets.octets).take n4 = (bits octets'.octets).take n4
  | .ipv6 octets, .ipv6 octets' => (bits octets.octets).take n6 = (bits octets'.octets).take n6
  | _, _ => False

/-- The addresses have a prefix in common that is not one of theirs: two IPv4 addresses as much as an
IPv6 prefix reaches of them, which is shorter than their own; two IPv6 addresses what an IPv4 prefix
comes to behind the zero bits, which is shorter than their own; and addresses of two families the
shorter of both as they are held. -/
def Strays (n4 n6 : Nat) : Address → Address → Prop
  | .ipv4 octets, .ipv4 octets' =>
      n6 < 96 + n4 ∧ (bits octets.octets).take (n6 - 96) = (bits octets'.octets).take (n6 - 96)
  | .ipv6 octets, .ipv6 octets' =>
      96 + n4 < n6 ∧ (bits octets.octets).take (96 + n4) = (bits octets'.octets).take (96 + n4)
  | client, address =>
      (bits client.held.octets).take (min (96 + n4) n6) =
        (bits address.held.octets).take (min (96 + n4) n6)

instance (n4 n6 : Nat) : ∀ client address, Decidable (Matches n4 n6 client address)
  | .ipv4 _, .ipv4 _ => inferInstanceAs (Decidable (_ = _))
  | .ipv6 _, .ipv6 _ => inferInstanceAs (Decidable (_ = _))
  | .ipv4 _, .ipv6 _ => .isFalse id
  | .ipv6 _, .ipv4 _ => .isFalse id

instance (n4 n6 : Nat) : ∀ client address, Decidable (Strays n4 n6 client address)
  | .ipv4 _, .ipv4 _ => inferInstanceAs (Decidable (_ ∧ _))
  | .ipv6 _, .ipv6 _ => inferInstanceAs (Decidable (_ ∧ _))
  | .ipv4 _, .ipv6 _ => inferInstanceAs (Decidable (_ = _))
  | .ipv6 _, .ipv4 _ => inferInstanceAs (Decidable (_ = _))

theorem take_held_ipv4 (octets octets' : Buffer 4) (n : Nat) :
    (bits (held (.ipv4 octets)).octets).take n = (bits (held (.ipv4 octets')).octets).take n ↔
      (bits octets.octets).take (n - 96) = (bits octets'.octets).take (n - 96) := by
  change (bits (_ ++ octets.octets)).take n = (bits (_ ++ octets'.octets)).take n ↔ _
  rw [bits_append, bits_append, List.take_append, List.take_append, length_bits,
    List.length_replicate, List.append_cancel_left_eq]

theorem matches_or_strays_iff (client address : Address) (n4 n6 : Nat) :
    ((bits client.held.octets).take (96 + n4) = (bits address.held.octets).take (96 + n4) ∨
        (bits client.held.octets).take n6 = (bits address.held.octets).take n6) ↔
      client.Matches n4 n6 address ∨ client.Strays n4 n6 address := by
  cases client with
  | ipv4 octets =>
      cases address with
      | ipv4 octets' =>
          rw [take_held_ipv4, take_held_ipv4, Nat.add_sub_cancel_left]
          constructor
          · rintro (h | h)
            · exact .inl h
            · by_cases hlt : n6 < 96 + n4
              · exact .inr ⟨hlt, h⟩
              · exact .inl (take_eq_of_le (by omega) h)
          · exact Or.imp_right And.right
      | ipv6 octets' =>
          rw [take_eq_or_iff]
          exact (or_iff_right id).symm
  | ipv6 octets =>
      cases address with
      | ipv4 octets' =>
          rw [take_eq_or_iff]
          exact (or_iff_right id).symm
      | ipv6 octets' =>
          constructor
          · rintro (h | h)
            · by_cases hlt : 96 + n4 < n6
              · exact .inr ⟨hlt, h⟩
              · exact .inl (take_eq_of_le (Nat.le_of_not_lt hlt) h)
            · exact .inl h
          · exact fun h => h.symm.imp_left And.right

end Address

/-! ### Records -/

/-- The address of an A or AAAA record. -/
def PdqRr.address (rr : PdqRr) : Option Address :=
  if rr.isQuery then none
  else if rr.type = PDQ_TYPE_A then
    some (.ipv4 ⟨rr.ip.octets.drop IPV6_OFFSET_IPV4, by
      rw [List.length_drop, rr.ip.length_octets]
      rfl⟩)
  else if rr.type = PDQ_TYPE_AAAA then some (.ipv6 rr.ip)
  else none

/-- The IPv4 addresses of a list are held behind 96 zero bits. -/
def HoldsAddresses (list : List PdqRr) : Prop :=
  ∀ rr ∈ list, ∀ address ∈ rr.address, rr.ip = address.held

/-- Some address of a list matches that of the client. -/
def SomeMatches (client : Address) (list : List PdqRr) (n4 n6 : Nat) : Prop :=
  ∃ rr ∈ list, ∃ address ∈ rr.address, client.Matches n4 n6 address

/-- Some address of a list strays. -/
def SomeStrays (client : Address) (list : List PdqRr) (n4 n6 : Nat) : Prop :=
  ∃ rr ∈ list, ∃ address ∈ rr.address, client.Strays n4 n6 address

instance (client : Address) (list : List PdqRr) (n4 n6 : Nat) :
    Decidable (SomeMatches client list n4 n6) :=
  decidable_of_iff (list.any fun rr => rr.address.any fun address => client.Matches n4 n6 address)
    (by simp [SomeMatches, Option.any_eq_true])

theorem isSome_address_iff (rr : PdqRr) :
    (!rr.isQuery && (rr.type = PDQ_TYPE_A || rr.type = PDQ_TYPE_AAAA)) = rr.address.isSome := by
  unfold PdqRr.address
  cases rr.isQuery with
  | true => rfl
  | false =>
      rw [Bool.not_false, Bool.true_and, if_neg Bool.false_ne_true]
      by_cases ha : rr.type = PDQ_TYPE_A
      · rw [if_pos ha, decide_eq_true ha, Bool.true_or]
        rfl
      · rw [if_neg ha, decide_eq_false ha, Bool.false_or]
        by_cases haaaa : rr.type = PDQ_TYPE_AAAA
        · rw [if_pos haaaa, decide_eq_true haaaa]
          rfl
        · rw [if_neg haaaa, decide_eq_false haaaa]
          rfl

theorem spfMatchIp_iff {list : List PdqRr} (h : HoldsAddresses list) (client : Address) {cidr : Nat}
    (hcidr : cidr ≤ IPV6_BIT_LENGTH) :
    spfMatchIp client.held list cidr ↔ ∃ rr ∈ list, ∃ address ∈ rr.address,
      (bits client.held.octets).take cidr = (bits address.held.octets).take cidr := by
  unfold spfMatchIp
  rw [List.any_eq_true]
  refine exists_congr fun rr => and_congr_right fun hmem => ?_
  rw [isSome_address_iff, Bool.and_eq_true, Option.isSome_iff_exists, networkContainsIPv6_iff,
    and_iff_right hcidr]
  constructor
  · rintro ⟨⟨address, haddress⟩, hbits⟩
    rw [h rr hmem address haddress] at hbits
    exact ⟨address, haddress, hbits⟩
  · rintro ⟨address, haddress, hbits⟩
    rw [h rr hmem address haddress]
    exact ⟨⟨address, haddress⟩, hbits⟩

theorem spfMatchDual_iff {list : List PdqRr} (h : HoldsAddresses list) (client : Address)
    {n4 n6 length : Nat} (h4 : n4 ≤ IPV4_BIT_LENGTH) (h6 : n6 ≤ IPV6_BIT_LENGTH) :
    spfMatchDual client.held list ⟨96 + n4, n6, length⟩ ↔
      SomeMatches client list n4 n6 ∨ SomeStrays client list n4 n6 := by
  rw [spfMatchDual, Bool.or_eq_true, spfMatchIp_iff h client (Nat.add_le_add_left h4 96),
    spfMatchIp_iff h client h6, SomeMatches, SomeStrays, ← exists_or, ← exists_or]
  refine exists_congr fun rr => ?_
  rw [← and_or_left, ← and_or_left, ← exists_or, ← exists_or]
  refine and_congr_right fun _ => exists_congr fun address => ?_
  rw [← and_or_left, ← and_or_left, Address.matches_or_strays_iff]

/-! ### The mechanisms -/

section

variable {list : List PdqRr} {suffix : CidrSuffix} {head target : List Octet}
  {get : List Octet → Option (List PdqRr)} {mechanismCount : Nat}

theorem spfAddressTerm_done_iff (unanswered : SpfTerm) (client : Address) (tempErrorDns : Bool)
    (hhead : ch '/' ∉ head) (haccepted : (spfGetDualCIDR (head ++ suffix.octets)).isSome)
    (hheld : HoldsAddresses list) (hcount : mechanismCount < MAX_DNS_MECHANISMS)
    (hanswer : get target = some list) (hrcode : answerRcode list = PDQ_RCODE_OK) :
    (spfAddressTerm unanswered client.held tempErrorDns mechanismCount (some target)
        (head ++ suffix.octets) get).1 = .done ↔
      SomeMatches client list suffix.n4 suffix.n6 ∨ SomeStrays client list suffix.n4 suffix.n6 := by
  rw [spfGetDualCIDR_suffix hhead] at haccepted
  by_cases hshort : suffix.n4 ≤ IPV4_BIT_LENGTH ∧ suffix.n6 ≤ IPV6_BIT_LENGTH
  · unfold spfAddressTerm
    dsimp only
    rw [if_neg (Nat.not_le.mpr hcount), spfGetDualCIDR_suffix hhead, if_pos hshort]
    dsimp only
    rw [hanswer]
    dsimp only
    rw [if_neg (not_not.mpr hrcode), ← spfMatchDual_iff hheld client hshort.1 hshort.2]
    split
    · rename_i hmatch
      exact iff_of_true rfl hmatch
    · rename_i hmatch
      exact iff_of_false nofun hmatch
  · rw [if_neg hshort] at haccepted
    cases haccepted

/-- The mechanisms `a` and `mx`, when the DNS has answered with some records: a term matches exactly
if an address of the client's family has the prefix of that family in common with it, if and only if
no address strays or one matches as well. -/
theorem spfTerm_families_iff (client : Address) (list : List PdqRr) (head : List Octet)
    (suffix : CidrSuffix) (tempErrorDns : Bool) (errno mechanismCount : Nat) (target : List Octet)
    (get : List Octet → Option (List PdqRr)) (hhead : ch '/' ∉ head) (haccepted : (spfGetDualCIDR (head ++ suffix.octets)).isSome)
    (hheld : HoldsAddresses list) (hcount : mechanismCount < MAX_DNS_MECHANISMS)
    (hanswer : get target = some list) (hrcode : answerRcode list = PDQ_RCODE_OK) :
    (((spfTermA client.held tempErrorDns mechanismCount (some target) (head ++ suffix.octets) get).1 =
          .done ↔ SomeMatches client list suffix.n4 suffix.n6) ↔
        (SomeStrays client list suffix.n4 suffix.n6 →
          SomeMatches client list suffix.n4 suffix.n6)) ∧
      (((spfTermMx errno client.held tempErrorDns mechanismCount (some target)
            (head ++ suffix.octets) get).1 = .done ↔
          SomeMatches client list suffix.n4 suffix.n6) ↔
        (SomeStrays client list suffix.n4 suffix.n6 →
          SomeMatches client list suffix.n4 suffix.n6)) := by
  have hterm (unanswered : SpfTerm) := spfAddressTerm_done_iff unanswered client tempErrorDns hhead
    haccepted hheld hcount hanswer hrcode
  constructor
  · rw [spfTermA, hterm]
    tauto
  · rw [spfTermMx, hterm]
    tauto

theorem recordA_layout : kindOfRecord .answer PDQ_TYPE_A = some .address := rfl

/-- An A record. -/
def recordA (octets : Buffer 4) : PdqRr where
  rrSection := .answer
  name := PdqName.empty
  rrClass := PDQ_CLASS_IN
  type := PDQ_TYPE_A
  ttl := 0
  data := .address IPV6_OFFSET_IPV4 (Address.ipv4 octets).held 0 (Buffer.replicate 40 0)
  layout := recordA_layout

/-- The client 192.0.2.7 and the term `a/24`, with the address 192.0.2.1. -/
theorem spfTerm_families_prefix :
    ((spfTermA (Address.ipv4 ⟨[192, 0, 2, 7], rfl⟩).held true 0 (some (ascii "a.example"))
          (ascii "a/24") fun _ => some [recordA ⟨[192, 0, 2, 1], rfl⟩]).1 = .done ↔
        SomeMatches (.ipv4 ⟨[192, 0, 2, 7], rfl⟩) [recordA ⟨[192, 0, 2, 1], rfl⟩] 24 128) ∧
      ((spfTermMx 0 (Address.ipv4 ⟨[192, 0, 2, 7], rfl⟩).held true 0 (some (ascii "a.example"))
          (ascii "a/24") fun _ => some [recordA ⟨[192, 0, 2, 1], rfl⟩]).1 = .done ↔
        SomeMatches (.ipv4 ⟨[192, 0, 2, 7], rfl⟩) [recordA ⟨[192, 0, 2, 1], rfl⟩] 24 128) := by
  have hmatches : SomeMatches (.ipv4 ⟨[192, 0, 2, 7], rfl⟩) [recordA ⟨[192, 0, 2, 1], rfl⟩] 24 128 := by
    decide
  have hboth := spfTerm_families_iff (.ipv4 ⟨[192, 0, 2, 7], rfl⟩) [recordA ⟨[192, 0, 2, 1], rfl⟩]
    (ascii "a") ⟨some (ascii "24"), none, by decide, by decide⟩ true 0 0 (ascii "a.example")
    (fun _ => some [recordA ⟨[192, 0, 2, 1], rfl⟩]) (by decide) (by decide)
    (by simp [HoldsAddresses]; decide) (by decide) rfl (by decide)
  exact ⟨hboth.1.mpr fun _ => hmatches, hboth.2.mpr fun _ => hmatches⟩

/-- The term `a//64` matches any IPv4 client, whatever the IPv4 address. -/
theorem spfTerm_not_families :
    ¬ ((spfTermA (Address.ipv4 ⟨[192, 0, 2, 7], rfl⟩).held true 0 (some (ascii "a.example"))
          (ascii "a//64") fun _ => some [recordA ⟨[10, 0, 0, 1], rfl⟩]).1 = .done ↔
        SomeMatches (.ipv4 ⟨[192, 0, 2, 7], rfl⟩) [recordA ⟨[10, 0, 0, 1], rfl⟩] 32 64) := by
  decide

end

end Snert
