/-
Module: Snert.Pdq.QueryFill
Purpose: `pdq_query_fill` of net/pdq.c octet by octet, over the packet of a query as it was before:
  the labels are written in place, and the length of each is stored when its end is known. The length
  of the packet is worked out beforehand from the length of the name.
Trusted boundary: human-reviewed spec
Main exports: UdpPacket, UdpPacket.cleared, UdpPacket.packet, LabelScan
-/
import Snert.CModel.CString
import Snert.Pdq.Query

namespace Snert

open CModel

/-- The size of `data` in `struct udp_packet`. -/
abbrev UDP_DATA_SIZE : Nat := UDP_PACKET_SIZE - HEADER_SIZE

/-- `struct udp_packet`. The fields of the header are shown in host order. -/
structure UdpPacket where
  length : Nat
  header : Header
  data : Buffer UDP_DATA_SIZE

/-- The packet of a new query: `pdq_query_create` clears it. -/
def UdpPacket.cleared : UdpPacket :=
  { length := 0
    header := { id := 0, bits := 0, qdcount := 0, ancount := 0, nscount := 0, arcount := 0 }
    data := Buffer.replicate UDP_DATA_SIZE 0 }

/-- Two octets in network order. -/
def netShort (n : UInt16) : List Octet :=
  [UInt8.ofNat (n.toNat / 256), UInt8.ofNat n.toNat]

/-- The header in network order, as it is sent. -/
def Header.octets (header : Header) : List Octet :=
  netShort header.id ++ netShort header.bits ++ netShort header.qdcount ++
    netShort header.ancount ++ netShort header.nscount ++ netShort header.arcount

/-- The packet as a routine that is given its header sees it. -/
def UdpPacket.packet (q : UdpPacket) : Packet :=
  { length := q.length
    header := q.header
    octet := fun i => (q.header.octets ++ q.data.octets).getD i 0 }

/-- The variables of the loop: `label` and `t` are indices into `data`. -/
structure LabelScan where
  data : Buffer UDP_DATA_SIZE
  label : Nat
  t : Nat

/-- Store the length of the label that ends in front of `t`, unless it exceeds 63 octets. -/
def closeLabel (q : LabelScan) : Run (Option LabelScan) :=
  if LABEL_LENGTH < q.t - q.label - 1 then pure none
  else do
    let data ← q.data.write q.label [UInt8.ofNat (q.t - q.label - 1)]
    pure (some { q with data := data, label := q.t })

/-- The loop over the name, and the length of its last label. -/
def fillLoop : List Octet → LabelScan → Run (Option LabelScan)
  | [], q => closeLabel q
  | c :: s, q =>
      if c = ch '.' then do
        match ← closeLabel q with
        | none => pure none
        | some q => fillLoop s { q with t := q.t + 1 }
      else do
        let data ← q.data.write q.t [c]
        fillLoop s { q with data := data, t := q.t + 1 }

/-- Store the length of the root label, if the name does not end in one. -/
def storeRoot (needRoot : Bool) (q : LabelScan) : Run LabelScan :=
  if needRoot then do
    let data ← q.data.write q.label [0]
    pure { q with data := data, label := q.label + 1 }
  else pure q

/-- Complete the question. Only the low octets of the type and the class are stored, the high ones
    are taken to be zero. -/
def completeQuestion (rrClass type : Nat) (q : LabelScan) : Run (Buffer UDP_DATA_SIZE) := do
  let data ← q.data.write q.label [0]
  let data ← data.write (q.label + 1 : Nat) [UInt8.ofNat type]
  let data ← data.write (q.label + 2 : Nat) [0]
  data.write (q.label + 3 : Nat) [UInt8.ofNat rrClass]

/-- `needRoot`: the name does not end in a dot. -/
def needRoot (name : List Octet) : Bool :=
  decide (0 < name.length ∧ name.getLast? ≠ some (ch '.'))

/-- `name + (*name == '.')`, where the loop begins. -/
def loopName (name : List Octet) : List Octet :=
  if peek name = ch '.' then name.tail else name

/-- `pdq_query_fill (pdq, query, class, type, name, use_recursion)` with a random `id`, none for the
    return code -1. A query that could not be filled is freed. -/
def pdqQueryFillInto (q : UdpPacket) (id : UInt16) (rrClass type : Nat) (name : CString)
    (useRecursion : Bool) : Run (Option UdpPacket) :=
  let length := name.octets.length
  if DOMAIN_SIZE ≤ length then pure none
  else do
    let needRoot := needRoot name.octets
    let bits := if useRecursion then PDQ_BITS_RD else q.header.bits
    match ← fillLoop (loopName name.octets) { data := q.data, label := 0, t := 1 } with
    | none => pure none
    | some scan => do
        let scan ← storeRoot needRoot scan
        let data ← completeQuestion rrClass type scan
        pure (some
          { length := HEADER_SIZE + 1 + length + needRoot.toNat + 2 * NET_SHORT_BYTE_SIZE
            header :=
              { id := id, bits := bits, qdcount := 1, ancount := 0, nscount := 0, arcount := 0 }
            data := data })

end Snert
