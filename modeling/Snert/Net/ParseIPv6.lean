/-
Module: Snert.Net.ParseIPv6
Purpose: `parseIPv6` of net/parseIPv6.c: the text of an IPv4 or IPv6 address, optionally an
  address literal in brackets, is read into a 16-octet address. The NULL guards are left out; the
  arguments are never NULL here.
Trusted boundary: human-reviewed spec
Main exports: IPV6_BYTE_SIZE, GroupScan, groupStep, shiftTail
-/
import Snert.CModel.Buffer
import Snert.CModel.CString

namespace Snert

open CModel

/-- Octets of an IPv6 address. -/
abbrev IPV6_BYTE_SIZE : Nat := 16

/-- Where an IPv4 address sits in an IPv6 address. -/
abbrev IPV6_OFFSET_IPV4 : Nat := 12

/-- Octets of a full-size IPv6 string, NUL included. -/
abbrev IPV6_STRING_SIZE : Nat := 40

/-- The tag in front of an IPv6 address literal. -/
def IPV6_TAG : List Octet := ascii "IPv6:"

/-- A 16-octet address buffer. -/
abbrev Ipv6 := Buffer 16

/-- The variables of the group loop. `offset` and `mark` are indices into `ipv6`; `ip` and `stop`
    point into the string. -/
structure GroupScan where
  ipv6 : Ipv6
  groups : Nat
  compressed : Bool
  offset : Nat
  mark : Nat
  ip : List Octet
  stop : List Octet
deriving DecidableEq, Repr

/-- Store one group, high octet first. -/
def GroupScan.store (s : GroupScan) (word : Int) : Run GroupScan := do
  let ipv6 ← s.ipv6.write s.offset [UInt8.ofNat (word.toNat / 256)]
  let ipv6 ← ipv6.write (s.offset + 1) [UInt8.ofNat (word.toNat % 256)]
  pure { s with ipv6 := ipv6, offset := s.offset + 2, groups := s.groups + 1 }

/-- Store a group that was read, unless the number stopped on a dot and may begin a dotted quad. -/
def GroupScan.storeGroup (s : GroupScan) (word : Int) (stop : List Octet) : Run GroupScan :=
  if stop.length < s.ip.length ∧ peek stop ≠ ch '.' then s.store word else pure s

/-- Go on to the next group when a colon follows; a second colon compresses zeros. The result
    `.error` is the early `return 0`, with what the buffer then holds; `.ok` is the end of the
    loop. -/
def GroupScan.next (s : GroupScan) (stop : List Octet) : GroupScan ⊕ Except Ipv6 GroupScan :=
  if peek stop ≠ ch ':' then .inr (.ok { s with stop := stop })
  else if peek stop.tail = ch ':' then
    if s.compressed then .inr (.error s.ipv6)
    else .inl { s with compressed := true, mark := s.offset, ip := stop.tail, stop := stop }
  else .inl { s with ip := stop.tail, stop := stop }

/-- One round of the group loop. -/
def groupStep (s : GroupScan) : Run (GroupScan ⊕ Except Ipv6 GroupScan) :=
  if s.groups < 8 then
    let word := (strtol s.ip 16).1
    let stop := (strtol s.ip 16).2
    if word < 0 ∨ 0xffff < word then pure (.inr (.error s.ipv6))
    else do
      let s ← s.storeGroup word stop
      pure (s.next stop)
  else pure (.inr (.ok s))

/-- What is left of the buffer for a dotted quad: four octets when the scan stopped on a dot. -/
def GroupScan.quadSize (s : GroupScan) : Int :=
  if peek s.stop = ch '.' then 4 else 0

/-- Shift the tail of the address to the right end of the buffer, and fill in the compressed
    zeros. -/
def shiftTail (s : GroupScan) : Run Ipv6 := do
  let zeros : Int := IPV6_BYTE_SIZE - s.quadSize - s.offset
  let ipv6 ← s.ipv6.move (zeros + s.mark) s.mark (sizeT (s.offset - s.mark))
  ipv6.fill s.mark 0 (sizeT zeros)

/-- One number of a dotted quad. -/
def quadNumber (ip : List Octet) : Option (Octet × List Octet) :=
  let (a, ip) := strtol ip 10
  if a < 0 ∨ 255 < a then none else some (UInt8.ofNat a.toNat, ip)

/-- The next number of a dotted quad, behind a dot. -/
def quadNext (ip : List Octet) : Option (Octet × List Octet) :=
  if peek ip ≠ ch '.' then none else quadNumber ip.tail

/-- Four numbers separated by dots, and the string after them. -/
def dottedQuad (ip : List Octet) : Option (List Octet × List Octet) := do
  let (a, ip) ← quadNumber ip
  let (b, ip) ← quadNext ip
  let (c, ip) ← quadNext ip
  let (d, ip) ← quadNext ip
  some ([a, b, c, d], ip)

/-- The address without the opening bracket and the tag of an address literal. -/
def addressText (ip : List Octet) : List Octet :=
  let ip := if peek ip = ch '[' then ip.tail else ip
  if strncasecmp ip IPV6_TAG 5 = 0 then ip.drop 5 else ip

/-- Length of the string parsed, when the parse stopped at `ip`; a closing bracket counts. -/
def parsedLength (start ip : List Octet) : Nat :=
  start.length - ip.length + if peek ip = ch ']' then 1 else 0

/-- What follows the group loop. -/
def finishAddress (start : List Octet) (s : GroupScan) : Run (Nat × Ipv6) := do
  let ipv6 ← shiftTail s
  if peek s.stop = ch '.' then
    -- IPv6v4-full, IPv6v4-comp
    if s.compressed ∧ 4 < s.groups then pure (0, ipv6)
    else if ¬ s.compressed ∧ 6 < s.groups then pure (0, ipv6)
    else
      match dottedQuad s.ip with
      | none => pure (0, ipv6)
      | some (quad, ip) => do
          let ipv6 ← ipv6.write IPV6_OFFSET_IPV4 quad
          pure (parsedLength start ip, ipv6)
  else if ¬ s.compressed ∧ s.groups = 8 then pure (parsedLength start s.stop, ipv6)
  else if s.compressed ∧ s.groups ≤ 7 then pure (parsedLength start s.stop, ipv6)
  else pure (0, ipv6)

/-- The state in which the group loop starts. -/
def GroupScan.initial (ip : List Octet) (ipv6 : Ipv6) : GroupScan :=
  { ipv6 := ipv6, groups := 0, compressed := false, offset := 0, mark := 0, ip := ip, stop := ip }

/-- `parseIPv6 (ip, ipv6)`: the length of the address parsed, or zero, and the buffer. Every round of
    the loop skips a colon, so the length of the string bounds the rounds. -/
def parseIPv6 (ip : List Octet) (ipv6 : Ipv6) : Run (Nat × Ipv6) := do
  let text := addressText ip
  match ← Run.loop groupStep (text.length + 1) (GroupScan.initial text ipv6) with
  | .error ipv6 => pure (0, ipv6)
  | .ok s => finishAddress ip s

end Snert
