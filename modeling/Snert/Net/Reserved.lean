/-
Module: Snert.Net.Reserved
Purpose: `isReservedIPv4` and `isReservedIPv6` of net/isReservedIPv4.c and net/isReservedIPv6.c: does
  an address belong to one of the special ranges that a mask selects. The NULL guards are left out;
  the address is never NULL here.
Trusted boundary: human-reviewed spec
Main exports: isReservedIPv4, isReservedIPv6
-/
import Snert.CModel.Buffer

namespace Snert

open CModel

/-! ### The flags of `is_ip_t` -/

abbrev IS_IP_BENCHMARK : Nat := 0x00000001
abbrev IS_IP_LINK_LOCAL : Nat := 0x00000002
abbrev IS_IP_LOCALHOST : Nat := 0x00000004
abbrev IS_IP_LOOPBACK : Nat := 0x00000008
abbrev IS_IP_MULTICAST : Nat := 0x00000010
abbrev IS_IP_PRIVATE_A : Nat := 0x00000020
abbrev IS_IP_PRIVATE_B : Nat := 0x00000040
abbrev IS_IP_PRIVATE_C : Nat := 0x00000080
abbrev IS_IP_CLASS_E : Nat := 0x00000100
abbrev IS_IP_PROTOCOL : Nat := 0x00000200
abbrev IS_IP_TEST_NET_1 : Nat := 0x00000400
abbrev IS_IP_THIS_HOST : Nat := 0x00000800
abbrev IS_IP_THIS_NET : Nat := 0x00001000
abbrev IS_IP_V4_COMPATIBLE : Nat := 0x00002000
abbrev IS_IP_V4_MAPPED : Nat := 0x00004000
abbrev IS_IP_V6 : Nat := 0x00008000
abbrev IS_IP_V6_RESERVED : Nat := 0x00010000
abbrev IS_IP_BROADCAST : Nat := 0x00020000
abbrev IS_IP_6TO4_ANYCAST : Nat := 0x00040000
abbrev IS_IP_TEST_NET_2 : Nat := 0x00080000
abbrev IS_IP_TEST_NET_3 : Nat := 0x00100000
abbrev IS_IP_SHARED : Nat := 0x00200000
abbrev IS_IP_TEST_NET : Nat :=
  IS_IP_BENCHMARK ||| IS_IP_TEST_NET_1 ||| IS_IP_TEST_NET_2 ||| IS_IP_TEST_NET_3

/-- `mask & flag`. -/
def isIpFlag (mask flag : Nat) : Bool :=
  mask &&& flag ≠ 0

/-- `NET_GET_LONG` of four octets of an address. -/
def netLong (ip : List Octet) : Nat :=
  (ip.take 4).foldl (fun n octet => n * 256 + octet.toNat) 0

/-- One line of the table: the flag is set, and the address has the prefix. -/
def inRange (mask flag ip netmask network : Nat) : Bool :=
  isIpFlag mask flag && ip &&& netmask = network

/-- `isReservedIPv4 (ipv4, mask)`. -/
def isReservedIPv4 (ipv4 : List Octet) (mask : Nat) : Bool :=
  let ip := netLong ipv4
  inRange mask IS_IP_BROADCAST ip 0xffffffff 0xffffffff
    || inRange mask IS_IP_LOCALHOST ip 0xffffffff 0x7f000001
    || inRange mask IS_IP_THIS_HOST ip 0xffffffff 0x00000000
    || inRange mask IS_IP_PROTOCOL ip 0xffffff00 0xc0000000
    || inRange mask IS_IP_TEST_NET_1 ip 0xffffff00 0xc0000200
    || inRange mask IS_IP_6TO4_ANYCAST ip 0xffffff00 0xc0586300
    || inRange mask IS_IP_TEST_NET_2 ip 0xffffff00 0xc6336400
    || inRange mask IS_IP_TEST_NET_3 ip 0xffffff00 0xcb007100
    || inRange mask IS_IP_LINK_LOCAL ip 0xffff0000 0xa9fe0000
    || inRange mask IS_IP_PRIVATE_C ip 0xffff0000 0xc0a80000
    || inRange mask IS_IP_BENCHMARK ip 0xfffe0000 0xc6120000
    || inRange mask IS_IP_PRIVATE_B ip 0xfff00000 0xac100000
    || inRange mask IS_IP_SHARED ip 0xffc00000 0x64400000
    || (inRange mask IS_IP_LOOPBACK ip 0xff000000 0x7f000000 && ip ≠ 0x7f000001)
    || inRange mask IS_IP_PRIVATE_A ip 0xff000000 0x0a000000
    || inRange mask IS_IP_THIS_NET ip 0xff000000 0x00000000
    || inRange mask IS_IP_MULTICAST ip 0xf0000000 0xe0000000
    || inRange mask IS_IP_CLASS_E ip 0xf0000000 0xf0000000

/-- `isReservedIPv6 (ipv6, mask)`. -/
def isReservedIPv6 (ipv6 : Buffer 16) (mask : Nat) : Bool :=
  -- Count leading zero octets.
  let zeros := (ipv6.octets.takeWhile (· = 0)).length
  if isIpFlag mask IS_IP_THIS_HOST ∧ zeros = 16 then true
  else if isIpFlag mask IS_IP_THIS_NET ∧ 13 ≤ zeros then true
  else if isIpFlag mask IS_IP_LOCALHOST ∧ zeros = 15 ∧ ipv6.get 15 = 1 then true
  else if zeros = 12 ∨ (zeros = 10 ∧ ipv6.get 10 = 0xff ∧ ipv6.get 11 = 0xff) then
    if isIpFlag mask IS_IP_V4_COMPATIBLE ∧ zeros = 12 then true
    else if isIpFlag mask IS_IP_V4_MAPPED then true
    else isReservedIPv4 (ipv6.octets.drop 12) mask
  else if isIpFlag mask IS_IP_V6_RESERVED ∧ 2 ≤ zeros then true
  else if isIpFlag mask IS_IP_V6 then true
  else if isIpFlag mask IS_IP_TEST_NET ∧ netLong ipv6.octets = 0x20010db8 then true
  else if isIpFlag mask IS_IP_LINK_LOCAL ∧ ipv6.get 0 = 0xfe ∧ ipv6.get 1 &&& 0xc0 = 0x80 then true
  else if isIpFlag mask IS_IP_MULTICAST ∧ ipv6.get 0 = 0xff then true
  else false

end Snert
