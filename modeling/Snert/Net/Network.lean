/-
Module: Snert.Net.Network
Purpose: The two tests of net/network.c for an address in a network: of octets against octets, and of
  text against text. The NULL guard is left out; a `cidr` is an `unsigned long`, that is, a natural
  number below 2^64.
Trusted boundary: human-reviewed spec
Main exports: cidrMask, networkContainsIPv6, networkContainsIP
-/
import Snert.Net.ParseIPv6

namespace Snert

open CModel

abbrev IPV4_BIT_LENGTH : Nat := 32
abbrev IPV6_BIT_LENGTH : Nat := 128

/-- The mask of `networkContainsIPv6`, at an octet. -/
def cidrMask (cidr i : Nat) : Octet :=
  if i < cidr / 8 then 0xff
  else if i = cidr / 8 ∧ cidr % 8 ≠ 0 then 0xff <<< UInt8.ofNat (8 - cidr % 8)
  else 0

/-- `networkContainsIPv6 (net, cidr, ipv6)`, which `networkContainsIp` is a name for. -/
def networkContainsIPv6 (net : Ipv6) (cidr : Nat) (ipv6 : Ipv6) : Bool :=
  if IPV6_BIT_LENGTH < cidr then false
  else (List.range 16).all fun i => ipv6.get i &&& cidrMask cidr i = net.get i &&& cidrMask cidr i

/-- Detect difference between IPv4 and IPv6 CIDR. -/
def familyCidr (netCidr : List Octet) (cidr : Nat) : Nat :=
  if cidr ≤ IPV4_BIT_LENGTH ∧ ch ':' ∉ netCidr then IPV6_BIT_LENGTH - IPV4_BIT_LENGTH + cidr
  else cidr

/-- `networkContainsIP (net_cidr, address)`. The arrays `network` and `ip` are not initialised. -/
def networkContainsIP (netCidr address : List Octet) (network ip : Ipv6) : Run Bool :=
  match netCidr.dropWhile (· ≠ ch '/') with
  | [] => pure false
  | _ :: slash => do
      let cidr := sizeT (strtol slash 10).1
      let parsed ← parseIPv6 netCidr network
      if parsed.1 = 0 then pure false
      else do
        let other ← parseIPv6 address ip
        if other.1 = 0 then pure false
        else pure (networkContainsIPv6 parsed.2 (familyCidr netCidr cidr) other.2)

end Snert
