/-
Module: Snert.Net.DnsList
Purpose: `dnsListIsNameListed` of net/dnsList.c: does a reply list a name in one of the lists that
  were asked. The arrays of a `DnsList` are one list of its suffixes here, each with its mask or its
  IP codes; the code takes any reply, whatever was asked. The counter of hits and the log are left
  out.
Trusted boundary: human-reviewed spec
Main exports: IS_IP_LOCAL, DnsSuffix, PdqRr.ipv4, DnsSuffix.lists
-/
import Snert.Pdq.List

namespace Snert

open CModel

abbrev IS_IP_LOCAL : Nat :=
  IS_IP_THIS_HOST ||| IS_IP_LOCALHOST ||| IS_IP_LOOPBACK

/-- One of the lists of a `DnsList`. -/
structure DnsSuffix where
  suffix : List Octet
  mask : Nat
  /-- The binary IP addresses in front of the NULL address, if there is an array of them. -/
  ipcodes : Option (List (Buffer 16))
  /-- The suffix is rooted. -/
  rooted : suffix.getLast? = some (ch '.')
deriving DecidableEq

/-- The octets at `rr->address.ip.value + rr->address.ip.offset`. -/
def PdqRr.ipv4 (rr : PdqRr) : List Octet :=
  match rr.data with
  | .address offset ip _ _ => (ip.octets.drop offset).take 4
  | _ => []

/-- The last of the four 32-bit numbers of an IP code, as octets. -/
def codeIpv4 (code : Buffer 16) : List Octet :=
  code.octets.drop 12

/-- Does an address that the reply gives list a name? -/
def DnsSuffix.lists (s : DnsSuffix) (ipv4 : List Octet) : Bool :=
  match s.ipcodes with
  | some codes =>
      -- Only the IPv4 portion of the codes is looked at, and a zero there ends the array.
      (codes.takeWhile fun code => codeIpv4 code ≠ [0, 0, 0, 0]).any (codeIpv4 · = ipv4)
  | none =>
      netLong ipv4 &&& s.mask ≠ 0 && isReservedIPv4 ipv4 (IS_IP_LOCAL ||| IS_IP_THIS_NET)

/-- The loop over the suffixes for a record. -/
def scanSuffixes (rr : PdqRr) : List DnsSuffix → Option DnsSuffix
  | [] => none
  | s :: suffixes =>
      -- `strstr`
      if ¬ s.suffix <:+: rr.name.string then scanSuffixes rr suffixes
      -- Ignore 127.0.1.255 responses.
      else if netLong rr.ipv4 = 0x7F0001FF then none
      else if s.lists rr.ipv4 then some s
      else scanSuffixes rr suffixes

/-- `pdqListFindQuery (rr)`, for a record and those behind it. -/
def pdqListFindQuery (rr : PdqRr) (list : List PdqRr) : List PdqRr :=
  -- Skip the current query.
  (if rr.isQuery then list else rr :: list).dropWhile fun rr => !rr.isQuery

/-- `dnsListIsNameListed (dns_list, name, list)`: the list that `name` is found in. -/
def dnsListIsNameListed (suffixes : List DnsSuffix) (name : List Octet) :
    List PdqRr → Option DnsSuffix
  | [] => none
  | rr :: list =>
      -- Ignore failed query sections.
      if _h : rr.isQuery ∧ rr.rcode ≠ PDQ_RCODE_OK then
        dnsListIsNameListed suffixes name (pdqListFindQuery rr list)
      else if rr.rrSection ≠ .answer ∨ rr.type ≠ PDQ_TYPE_A then
        dnsListIsNameListed suffixes name list
      else if textInsensitiveStartsWith rr.name.string name < 0 then
        dnsListIsNameListed suffixes name list
      else
        match scanSuffixes rr suffixes with
        | some s => some s
        | none => dnsListIsNameListed suffixes name list
termination_by list => list.length
decreasing_by
  · rw [pdqListFindQuery, if_pos _h.1, List.length_cons]
    have hle := (List.dropWhile_suffix (l := list) fun rr : PdqRr => !rr.isQuery).length_le
    omega
  all_goals simp

end Snert
