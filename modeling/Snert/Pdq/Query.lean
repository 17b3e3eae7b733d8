/-
Module: Snert.Pdq.Query
Purpose: The queries of net/pdq.c: `pdqQuery` posts one, and `pdqPoll` matches the datagrams received
  with the pending ones, or sends them again when none came. The network is outside: what is received
  and when, the random ids and what a TCP connection yields are inputs. Memory can always be
  allocated. A query carries a serial number that the code does not have, and an answer the query
  that it was matched with, so that it can be told which query a record is for.
Trusted boundary: human-reviewed spec
Main exports: PdqQuery, Pdq, Answer, pdqQueryFill
-/
import Snert.Pdq.Reply

namespace Snert

open CModel

abbrev PDQ_BITS_TC : UInt16 := 0x0200
abbrev PDQ_BITS_RD : UInt16 := 0x0100
abbrev LABEL_LENGTH : Nat := 63
abbrev AF_INET : Nat := 2
abbrev AF_INET6 : Nat := 10

/-! ### Socket addresses -/

/-- A socket address: `addr` has 4 or 16 octets. -/
structure SocketAddress where
  family : Nat
  port : UInt16
  addr : List Octet
deriving DecidableEq, Repr

/-- An IPv4 address in the place of one mapped to IPv6. -/
def SocketAddress.unmapped (a : SocketAddress) : SocketAddress :=
  if a.family = AF_INET6 ∧ a.addr.take 12 = List.replicate 10 0 ++ [0xff, 0xff] then
    { family := AF_INET, port := a.port, addr := a.addr.drop 12 }
  else a

/-- `socketAddressEqual (a, b)`. -/
def socketAddressEqual (a b : SocketAddress) : Bool :=
  let a := a.unmapped
  let b := b.unmapped
  if a.family ≠ b.family then false
  else if a.family = AF_INET ∨ a.family = AF_INET6 then a.port = b.port && a.addr = b.addr
  else true

/-! ### Queries -/

/-- A query: `nextNs` is -1 when the query is for the name server at `address` only. -/
structure PdqQuery where
  serial : Nat
  packet : Packet
  address : SocketAddress
  created : Nat
  nextNs : Int

/-- The name servers and the flag that all queries share. -/
structure PdqSettings where
  servers : List SocketAddress
  ignoreTcp : Bool

/-- The queries of one user, the last one posted first. `posted` counts them. -/
structure Pdq where
  posted : Nat
  roundRobin : Bool
  timeout : Nat
  pending : List PdqQuery

/-- Records returned for a query. There are none when the reply could not be decoded. -/
structure Answer where
  query : PdqQuery
  rcode : Nat
  records : List PdqRr

/-- The labels of a question, from the rest of a name and the label that it is in. -/
def fillLabels : List Octet → List Octet → Option (List Octet)
  | label, [] =>
      if LABEL_LENGTH < label.length then none else some (UInt8.ofNat label.length :: label)
  | label, c :: s =>
      if c = ch '.' then
        if LABEL_LENGTH < label.length then none
        else (fillLabels [] s).map (UInt8.ofNat label.length :: label ++ ·)
      else fillLabels (label ++ [c]) s

/-- `pdq_query_fill (pdq, query, class, type, name, 1)`. A name in the question does not refer to the
    header, so the octets of the header are left zero. -/
def pdqQueryFill (id : UInt16) (rrClass type : Nat) (name : List Octet) : Option Packet :=
  if DOMAIN_SIZE ≤ name.length then none
  else
    let needRoot := if name ≠ [] ∧ name.getLast? ≠ some (ch '.') then 1 else 0
    let labels := if name.head? = some (ch '.') then name.tail else name
    (fillLabels [] labels).map fun labels =>
      let question := labels ++ List.replicate needRoot 0 ++
        [0, UInt8.ofNat type, 0, UInt8.ofNat rrClass]
      { length := HEADER_SIZE + 1 + name.length + needRoot + 2 * NET_SHORT_BYTE_SIZE
        header :=
          { id := id, bits := PDQ_BITS_RD, qdcount := 1, ancount := 0, nscount := 0, arcount := 0 }
        octet := fun i => if i < HEADER_SIZE then 0 else question.getD (i - HEADER_SIZE) 0 }

/-- `pdq_query_send (pdq, query)`: which server is next, if they take turns. -/
def pdqQuerySend (settings : PdqSettings) (pdq : Pdq) (query : PdqQuery) : PdqQuery :=
  if query.nextNs = -1 then query
  else if pdq.roundRobin then
    if settings.servers.length ≤ query.nextNs then { query with nextNs := 1 }
    else { query with nextNs := query.nextNs + 1 }
  else query

/-- `pdqQuery (pdq, class, type, name, ns)` at time `now` with a random `id`, unless the name is
    refused. A name to be looked up backwards has been reversed, and the address of `ns` parsed. -/
def pdqQuery (settings : PdqSettings) (pdq : Pdq) (now : Nat) (id : UInt16) (rrClass type : Nat)
    (name : List Octet) (ns : Option SocketAddress) : Option Pdq :=
  if name = [] then none
  else (pdqQueryFill id rrClass type name).map fun packet =>
    let query : PdqQuery :=
      { serial := pdq.posted
        packet := packet
        address := ns.getD { family := 0, port := 0, addr := [] }
        created := now
        nextNs := if ns.isSome then -1 else 0 }
    { pdq with posted := pdq.posted + 1, pending := pdqQuerySend settings pdq query :: pdq.pending }

/-! ### Replies -/

/-- What a TCP connection yields when all of it works: the new id of the query, and the reply. -/
structure TcpReply where
  id : UInt16
  packet : Packet

/-- A datagram received, and what a TCP connection to its source would yield now. -/
structure Datagram where
  packet : Packet
  source : SocketAddress
  tcp : Option TcpReply

/-- `htons`, where the host is little-endian. -/
def htons (n : Nat) : Nat :=
  n % 256 * 256 + n / 256 % 256

/-- `pdq_query_tcp (pdq, query, address, list)`: the return code, the list, and the query, which is
    given the new id, and its length in network order. -/
def pdqQueryTcp (query : PdqQuery) (tcp : Option TcpReply) :
    Run (Nat × Option (List PdqRr) × PdqQuery) :=
  match tcp with
  | none => pure (PDQ_RCODE_ERRNO, none, query)
  | some tcp =>
      let query :=
        { query with
          packet :=
            { query.packet with
              length := htons query.packet.length
              header := { query.packet.header with id := tcp.id } } }
      if tcp.packet.header.bits &&& PDQ_BITS_TC ≠ 0 ∨ tcp.packet.length ≤ 512 then
        pure (PDQ_RCODE_ERRNO, none, query)
      else do
        let parsed ← pdqReplyParse tcp.packet
        pure (parsed.1, parsed.2, query)

/-- `pdq_check_reply_address (address)`. -/
def pdqCheckReplyAddress (settings : PdqSettings) (address : SocketAddress) : Bool :=
  settings.servers.any fun server => socketAddressEqual server address

/-- Did the reply come from a server that the query was sent to? -/
def fromServer (settings : PdqSettings) (query : PdqQuery) (address : SocketAddress) : Bool :=
  if query.nextNs = -1 then socketAddressEqual query.address address
  else pdqCheckReplyAddress settings address

/-- Does a query stay pending when a reply to it has this return code? -/
def staysPending (settings : PdqSettings) (query : PdqQuery) (rcode : Nat) : Bool :=
  (rcode = PDQ_RCODE_SERVFAIL || rcode = PDQ_RCODE_REFUSED) &&
    (1 < settings.servers.length && query.nextNs ≠ -1)

/-- Is the reply to be read from a TCP connection? -/
def needsTcp (settings : PdqSettings) (reply : Datagram) : Bool :=
  !(settings.ignoreTcp || reply.packet.header.bits &&& PDQ_BITS_TC = 0)

/-- The reply of a datagram to a query: parsed, or asked for again over TCP. -/
def readReply (settings : PdqSettings) (query : PdqQuery) (reply : Datagram) :
    Run (Nat × Option (List PdqRr) × PdqQuery) :=
  if needsTcp settings reply then pdqQueryTcp query reply.tcp
  else do
    let parsed ← pdqReplyParse reply.packet
    pure (parsed.1, parsed.2, query)

/-- `pdq_query_reply (pdq, packet, address, list)`: the queries then pending, and the answer, if the
    datagram replies to one of them. -/
def pdqQueryReply (settings : PdqSettings) (pdq : Pdq) (reply : Datagram) :
    Run (Pdq × Option Answer) :=
  let other := fun query : PdqQuery => decide (query.packet.header.id ≠ reply.packet.header.id)
  match pdq.pending.dropWhile other with
  -- Not one of our requests or already processed.
  | [] => pure (pdq, none)
  | query :: behind =>
      if !fromServer settings query reply.source then pure (pdq, none)
      else do
        let (rcode, list, query) ← readReply settings query reply
        let queries := if staysPending settings query rcode then query :: behind else behind
        pure
          ({ pdq with pending := pdq.pending.takeWhile other ++ queries },
            some { query := query, rcode := rcode, records := list.getD [] })

/-! ### Polling -/

/-- The replies to look at, the last one received first. Those that were refused are dropped. -/
def collectReplies (received : List Datagram) : List Datagram :=
  received.foldl
    (fun replies reply =>
      if reply.packet.header.rcode = PDQ_RCODE_REFUSED then replies else reply :: replies) []

/-- The loop over the replies. -/
def parseReplies (settings : PdqSettings) : List Datagram → Pdq → Run (Pdq × List Answer)
  | [], pdq => pure (pdq, [])
  | reply :: replies, pdq => do
      let (pdq, answer) ← pdqQueryReply settings pdq reply
      let (pdq, answers) ← parseReplies settings replies pdq
      pure (pdq, answer.toList ++ answers)

theorem RrHead.query_layout (head : RrHead) : kindOfRecord .query head.type = some .query := rfl

/-- The record that reports a query timed out. -/
def timedOutRecord (head : RrHead) : PdqRr :=
  { rrSection := .query, name := head.name, rrClass := head.rrClass, type := head.type, ttl := 0
    data := .query 0 PDQ_RCODE_TIMEDOUT 1 0 0 0
    layout := head.query_layout }

/-- `pdq_query_send_all (pdq)` at time `now`, for the queries given: those that stay pending, and the
    records of those that timed out. -/
def pdqQuerySendAll (settings : PdqSettings) (pdq : Pdq) (now : Nat) :
    List PdqQuery → Run (List PdqQuery × List Answer)
  | [] => pure ([], [])
  | query :: queries =>
      if now < query.created + pdq.timeout then do
        let (queries, answers) ← pdqQuerySendAll settings pdq now queries
        pure (pdqQuerySend settings pdq query :: queries, answers)
      else do
        let head ← pdqFillRr query.packet HEADER_SIZE
        let (queries, answers) ← pdqQuerySendAll settings pdq now queries
        let answer : Answer :=
          { query := query, rcode := PDQ_RCODE_TIMEDOUT, records := [timedOutRecord head] }
        pure (queries, answer :: answers)

/-- What `pdqPoll` waits for: datagrams, or until `now` for none. -/
inductive PollEvent where
  | received (datagrams : List Datagram)
  | timedOut (now : Nat)

/-- `pdqPoll (pdq, ms)`: the queries then pending, and the records returned, query by query. -/
def pdqPoll (settings : PdqSettings) (pdq : Pdq) : PollEvent → Run (Pdq × List Answer)
  | .received datagrams => parseReplies settings (collectReplies datagrams) pdq
  | .timedOut now => do
      let (queries, answers) ← pdqQuerySendAll settings pdq now pdq.pending
      pure ({ pdq with pending := queries }, answers)

end Snert
