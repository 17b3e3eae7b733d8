/-
Module: Snert.Mail.SpfCheck
Purpose: The mechanisms `a` and `mx` of `spfCheck` in mail/spf.c, and the CIDR suffixes of their terms.
  What `spfMacro` and the DNS give is passed to them. `spfGetDualCIDR` has both of its pointers, as it
  is called; its numbers are `unsigned long`, that is, natural numbers below 2^64.
Trusted boundary: human-reviewed spec
Main exports: spfGetDualCIDR, SpfResult, SpfError, SpfTerm
-/
import Snert.Mail.SpfMacro

namespace Snert

open CModel

abbrev MAX_DNS_MECHANISMS : Nat := 10

/-! ### CIDR suffixes -/

/-- What `spfGetDualCIDR` passes back, and returns. -/
structure SpfDualCidr where
  cidr4 : Nat
  cidr6 : Nat
  length : Nat
deriving DecidableEq, Repr

/-- `cidr4`, and where the parser then stands. -/
def spfGetCidr4 (stop : List Octet) : Nat × List Octet :=
  if peek stop = ch '/' ∧ peek stop.tail ≠ ch '/' then
    let number := strtol stop.tail 10
    -- The IPv4 addresses are mapped to IPv6 addresses.
    (sizeT (IPV6_BIT_LENGTH - IPV4_BIT_LENGTH + sizeT number.1), number.2)
  else (IPV6_BIT_LENGTH, stop)

/-- `cidr6`, and where the parser then stands. -/
def spfGetCidr6 (stop : List Octet) : Nat × List Octet :=
  if peek stop = ch '/' ∧ peek stop.tail = ch '/' then
    let number := strtol stop.tail.tail 10
    (sizeT number.1, number.2)
  else (IPV6_BIT_LENGTH, stop)

/-- `spfGetDualCIDR (s, cidr_4, cidr_6)`, with `none` for -1. -/
def spfGetDualCIDR (s : List Octet) : Option SpfDualCidr :=
  let four := spfGetCidr4 (s.drop (strcspn s [ch '/']))
  let six := spfGetCidr6 four.2
  if six.2 ≠ [] then none
  else if IPV6_BIT_LENGTH < four.1 ∨ IPV6_BIT_LENGTH < six.1 then none
  else some ⟨four.1, six.1, s.length⟩

/-! ### Results -/

inductive SpfResult where
  | pass
  | fail
  | none
  | neutral
  | softFail
  | tempError
  | permError
deriving DecidableEq, Repr

/-- The errors that a check comes to. -/
inductive SpfError where
  | ipLiteral
  | invalidSyntax
  | dnsLimit
  | internal
  | ipParse
  | tooMany
  | rcode (rcode : Nat)
deriving DecidableEq, Repr

/-- The text that is returned for an error. -/
def SpfError.text : SpfError → String
  | .ipLiteral => "IP address literal"
  | .invalidSyntax => "invalid syntax"
  | .dnsLimit => "too many DNS lookups"
  | .internal => "internal error"
  | .ipParse => "IPv4 or IPv6 parse error"
  | .tooMany => "more than one SPF record"
  | .rcode code => pdqRcodeName code

/-- How `spfCheck` goes on behind a term. -/
inductive SpfTerm where
  /-- The term matches: its qualifier is the result. -/
  | done
  /-- The next term follows, with `ctx->temp_error` set or left alone. -/
  | next (tempError : Bool)
  /-- An error is the result. -/
  | error (qualifier : SpfResult) (err : SpfError)
deriving DecidableEq, Repr

/-! ### The mechanisms `a` and `mx` -/

/-- The return code that an answer begins with. -/
def answerRcode (list : List PdqRr) : Nat :=
  match list.head? with
  | some rr => if rr.isQuery then rr.rcode else PDQ_RCODE_OK
  | none => PDQ_RCODE_OK

/-- What comes of an answer with an error. -/
def spfRcodeTerm (tempErrorDns : Bool) (rcode : Nat) : SpfTerm :=
  if rcode = PDQ_RCODE_UNDEFINED then .next false
  else if ¬ tempErrorDns then .next true
  else .error .tempError (.rcode rcode)

/-- The two calls of `spfMatchIp`. -/
def spfMatchDual (ipv6 : Ipv6) (list : List PdqRr) (cidr : SpfDualCidr) : Bool :=
  spfMatchIp ipv6 list cidr.cidr4 || spfMatchIp ipv6 list cidr.cidr6

/-- What a term with addresses comes to, and `ctx->mechanism_count`. The option `spfTempErrorDns` is
    `tempErrorDns`, the result of `spfMacro` is `target`, `get` asks the DNS, and `unanswered` is what
    comes of a NULL from there. -/
def spfAddressTerm (unanswered : SpfTerm) (ipv6 : Ipv6) (tempErrorDns : Bool) (mechanismCount : Nat)
    (target : Option (List Octet)) (term : List Octet) (get : List Octet → Option (List PdqRr)) :
    SpfTerm × Nat :=
  match target with
  | none => (.error .permError .invalidSyntax, mechanismCount)
  | some target =>
      if MAX_DNS_MECHANISMS ≤ mechanismCount then
        (.error .permError .dnsLimit, mechanismCount + 1)
      else
        match spfGetDualCIDR term with
        | none => (.error .permError .invalidSyntax, mechanismCount + 1)
        | some cidr =>
            match get target with
            | none => (unanswered, mechanismCount + 1)
            | some list =>
                if answerRcode list ≠ PDQ_RCODE_OK then
                  (spfRcodeTerm tempErrorDns (answerRcode list), mechanismCount + 1)
                else if spfMatchDual ipv6 list cidr then (.done, mechanismCount + 1)
                else (.next false, mechanismCount + 1)

/-- The mechanism `a`, where `pdqGet5A` is asked. -/
def spfTermA : Ipv6 → Bool → Nat → Option (List Octet) → List Octet →
    (List Octet → Option (List PdqRr)) → SpfTerm × Nat :=
  spfAddressTerm (.error .tempError .internal)

/-- The mechanism `mx`, where `pdqGetMX` is asked. -/
def spfTermMx (errno : Nat) : Ipv6 → Bool → Nat → Option (List Octet) → List Octet →
    (List Octet → Option (List PdqRr)) → SpfTerm × Nat :=
  spfAddressTerm (if errno = 0 then .next false else .error .tempError .internal)

end Snert
