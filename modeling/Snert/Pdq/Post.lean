/-
Module: Snert.Pdq.Post
Purpose: `pdqQuery` of net/pdq.c with every way in which it can fail: a name or a name server that is
  refused, a failing allocation, and packets that cannot be sent. The pending queries are a list, and
  the query linked to them last begins it. What the arrays on the stack hold at first is an input, as
  are the results of `malloc` and `sendto`.
Trusted boundary: human-reviewed spec
Main exports: PostCalls, reverseIpArpa, pdqParseNs, questionName
-/
import Snert.Net.Reserved
import Snert.Net.Reverse
import Snert.Pdq.Query

namespace Snert

open CModel

abbrev DNS_PORT : UInt16 := 53

/-- What one call of `pdqQuery` gets from the system: the time, a random id, whether its two
    allocations succeed, whether `sendto` number `n` sends the whole packet, and what an array for an
    IPv6 address holds before it is filled. -/
structure PostCalls where
  now : Nat
  id : UInt16
  queryMemory : Bool
  bufferMemory : Bool
  sent : Nat → Bool
  stack : Ipv6

/-! ### The question -/

/-- `reverseIp (source, buffer, DOMAIN_SIZE, 1)`: the string left in the buffer. -/
def reverseIpArpa (source : List Octet) (ipv6 : Ipv6) : Run (List Octet) := do
  let address := if strncasecmp source IPV6_TAG 5 = 0 then source.drop 5 else source
  let suffix := if ch ':' ∈ address then ascii ".ip6.arpa." else ascii ".in-addr.arpa."
  let reversed ← reverseIp source DOMAIN_SIZE ipv6
  let buffer := (Buffer.replicate DOMAIN_SIZE 0).splice 0 reversed.1
  let rooted ← textCopy buffer reversed.2 (sizeT (DOMAIN_SIZE - reversed.2)) suffix
  pure rooted.1.cstring

/-- The name of the question. If a PTR request is not already rooted in .arpa, the address is
    reversed, in a buffer that may not be had. -/
def questionName (calls : PostCalls) (type : Nat) (name : List Octet) : Run (Option (List Octet)) :=
  if type = PDQ_TYPE_PTR ∧ ¬ ascii ".arpa" <:+: name then
    if calls.bufferMemory then do
      let name ← reverseIpArpa name calls.stack
      pure (some name)
    else pure none
  else pure (some name)

/-- `pdq_parse_ns (ns, server)`, none for the return code -1. -/
def pdqParseNs (ns : List Octet) (ipv6 : Ipv6) : Run (Option SocketAddress) := do
  let parsed ← parseIPv6 ns ipv6
  if parsed.1 = 0 then pure none
  else if isReservedIPv6 parsed.2 IS_IP_V6 then
    pure (some { family := AF_INET6, port := DNS_PORT, addr := parsed.2.octets })
  else pure (some { family := AF_INET, port := DNS_PORT, addr := parsed.2.octets.drop 12 })

/-- The address of a query and its `next_ns`. Without a name server the address stays cleared. -/
def questionServer (calls : PostCalls) : Option (List Octet) → Run (Option (SocketAddress × Int))
  | none => pure (some ({ family := 0, port := 0, addr := [] }, 0))
  | some ns => do
      let server ← pdqParseNs ns calls.stack
      pure (server.map fun server => (server, -1))

/-! ### Sending -/

/-- `pdq_query_send (pdq, query)`: the return code, and the query. -/
def pdqQuerySendTo (settings : PdqSettings) (pdq : Pdq) (query : PdqQuery) (sent : Nat → Bool) :
    Int × PdqQuery :=
  let rc : Int :=
    if query.nextNs = -1 ∨ pdq.roundRobin then if sent 0 then 0 else -1
    else
      let errorCount := (List.range settings.servers.length).countP fun i => !sent i
      if errorCount = settings.servers.length then -1 else 0
  (rc, pdqQuerySend settings pdq query)

/-! ### `pdqQuery` -/

/-- The part of `pdqQuery` before the query is linked: none if the return code is -1 and the query,
    if there is one, has been freed. -/
def pdqQueryCreate (calls : PostCalls) (serial rrClass type : Nat) (name : Option (List Octet))
    (ns : Option (List Octet)) : Run (Option PdqQuery) :=
  match name with
  | none => pure none
  | some name =>
      if name = [] ∨ calls.queryMemory = false then pure none
      else do
        match ← questionName calls type name with
        | none => pure none
        | some name =>
            match pdqQueryFill calls.id rrClass type name with
            | none => pure none
            | some packet => do
                let server ← questionServer calls ns
                pure (server.map fun server =>
                  { serial := serial, packet := packet, address := server.1, created := calls.now
                    nextNs := server.2 })

/-- `pdqQuery (pdq, class, type, name, ns)`: the return code, and the queries then pending. A `name`
    or an `ns` that is NULL is none. -/
def pdqQueryPost (settings : PdqSettings) (pdq : Pdq) (calls : PostCalls) (rrClass type : Nat)
    (name ns : Option (List Octet)) : Run (Int × Pdq) := do
  match ← pdqQueryCreate calls pdq.posted rrClass type name ns with
  | none => pure (-1, pdq)
  | some query =>
      -- The query is linked first, and stays so whatever comes of sending it.
      let sent := pdqQuerySendTo settings pdq query calls.sent
      pure (sent.1, { pdq with posted := pdq.posted + 1, pending := sent.2 :: pdq.pending })

end Snert
