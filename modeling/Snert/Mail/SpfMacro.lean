/-
Module: Snert.Mail.SpfMacro
Purpose: `spfMacro` of mail/spf.c: a macro string of an SPF record is expanded for a client. The
  stores into the arrays `buffer`, `delims` and `dots` are followed. The arrays `macro` and
  `workspace` are given by the strings they hold, which `TextCopy` cuts to fit; what a function
  called does to other objects is not followed, but a call that leaves one of its own objects ends
  the run. The answers of the DNS are part of the context. `EXP_MACRO` is not defined; the strings
  of the context are never NULL here, and the log is left out.
Trusted boundary: human-reviewed spec
Main exports: SpfContext, SpfScan, rightHandParts, spfMatchIp
-/
import Snert.Net.Network
import Snert.Net.Reverse
import Snert.Pdq.Record

namespace Snert

open CModel

abbrev MAX_PTR_MACRO : Nat := 10

/-! ### The context -/

/-- A record of the answer to a PTR lookup: is it a query record, the host that it names, and what
    `pdqFetch5A` then gives for that host. -/
structure PtrAnswer where
  isQuery : Bool
  host : PdqName
  addresses : List PdqRr

/-- The `spfContext` of a client. The mail address is given by the three strings of its path that a
    macro can name. -/
structure SpfContext where
  ip : CString
  helo : CString
  localLeft : CString
  domain : CString
  address : CString
  ipv6 : Ipv6
  ptrCount : Nat
  /-- What `pdqFetch` gives for the lookup made with a given `ptr_count`; NULL is `none`. -/
  pointers : Nat → Option (List PtrAnswer)
  /-- What the array `ipv6` of `reverseSegments` holds when it is called with a given number of
      octets of the format left. -/
  scratch : Nat → Ipv6

/-- Does the client have an IPv6 address? -/
def SpfContext.isIpv6 (ctx : SpfContext) : Bool :=
  ch ':' ∈ ctx.ip.octets

/-! ### Addresses of a host -/

/-- `spfMatchIp (ipv6, list, cidr)`. -/
def spfMatchIp (ipv6 : Ipv6) (list : List PdqRr) (cidr : Nat) : Bool :=
  list.any fun rr =>
    !rr.isQuery && (rr.type = PDQ_TYPE_A || rr.type = PDQ_TYPE_AAAA) &&
      networkContainsIPv6 rr.ip cidr ipv6

/-! ### Values of macros -/

/-- The result of `right_hand_parts (s, delims, n)`. -/
def rightHandOffset (s delims : List Octet) : Nat → Nat → Nat
  | 0, offset => offset
  | n + 1, offset =>
      if 0 < offset then
        rightHandOffset s delims n (strlrcspn s delims (strlrspn s delims offset))
      else offset

/-- `right_hand_parts (s, delims, n)`. -/
def rightHandParts (s delims : List Octet) (n : Nat) : List Octet :=
  s.drop (rightHandOffset s delims n s.length)

/-- The text in the array `macro` behind `TextCopy`. -/
def macroCopy (value : List Octet) : List Octet :=
  value.take (DOMAIN_SIZE - 1)

/-- The loop of `%{p}` over an answer: the host of the last record that was looked at. -/
def ptrHost (ipv6 : Ipv6) (value : List Octet) : List PtrAnswer → List Octet
  | [] => value
  | rr :: list =>
      if rr.isQuery then ptrHost ipv6 value list
      else if spfMatchIp ipv6 rr.addresses IPV6_BIT_LENGTH then rr.host.string
      else ptrHost ipv6 rr.host.string list

/-- The string "unknown". -/
def unknown : List Octet := ascii "unknown"

/-- The value of `%{p}`: the root dot is removed from the host of an answer. -/
def ptrValue (ctx : SpfContext) (ptrCount : Nat) : List Octet :=
  match ctx.pointers ptrCount with
  | none => macroCopy unknown
  | some list =>
      let host := ptrHost ctx.ipv6 unknown list
      if host.length < DOMAIN_SIZE ∧ host.getLast? = some (ch '.') then host.dropLast
      else macroCopy host

/-- `formatIP` into the array `macro`. -/
def ipValue (ctx : SpfContext) : Run (List Octet) := do
  let ip := if ctx.isIpv6 then ctx.ipv6.octets else ctx.ipv6.octets.drop IPV6_OFFSET_IPV4
  let put ← (formatIP ip 0 (Buffer.replicate DOMAIN_SIZE 0)).unfollowed
  pure put.1.cstring

/-- The switch on the letter of a macro: the text in the array `macro`, or `none` for the early
    `return NULL`. -/
def macroValue (ctx : SpfContext) (domain : CString) (ptrCount : Nat) (letter : Octet) :
    Run (Option (List Octet)) :=
  if letter = ch 'd' then pure (some (macroCopy domain.octets))
  else if letter = ch 'h' then pure (some (macroCopy ctx.helo.octets))
  else if letter = ch 'i' then do
    let value ← ipValue ctx
    pure (some value)
  else if letter = ch 'l' then pure (some (macroCopy ctx.localLeft.octets))
  else if letter = ch 'o' then pure (some (macroCopy ctx.domain.octets))
  else if letter = ch 's' then pure (some (macroCopy ctx.address.octets))
  else if letter = ch 'v' then
    pure (some (macroCopy (if ctx.isIpv6 then ascii "ip6" else ascii "in-addr")))
  else if letter = ch 'p' then
    pure (if MAX_PTR_MACRO ≤ ptrCount then none else some (ptrValue ctx ptrCount))
  else pure none

/-- `ctx->ptr_count` behind the switch. -/
def countPtr (letter : Octet) (ptrCount : Nat) : Nat :=
  if letter = ch 'p' then ptrCount + 1 else ptrCount

/-! ### Delimiters -/

/-- The octets of the scanset `[.-+,/_=]`. Its hyphen stands for itself, since a dot is behind a
    plus sign in ASCII. -/
def delimScanset : List Octet := ascii ".-+,/_="

/-- What the scanset matches at the start of a format. -/
def delimSpan (fmt : List Octet) : List Octet :=
  fmt.takeWhile (· ∈ delimScanset)

/-- `sscanf` and what follows it: `delims`, `span` and the format behind. -/
def scanDelims (delims : Buffer 8) (fmt : List Octet) : Run (Buffer 8 × Nat × List Octet) :=
  let set := delimSpan fmt
  if set ≠ [] then do
    -- The conversion puts a NUL of its own.
    let delims ← delims.write 0 (set ++ [0])
    let delims ← delims.write set.length [0]
    pure (delims, set.length, fmt.drop set.length)
  else do
    let delims ← delims.write 0 [ch '.']
    let delims ← delims.write 1 [0]
    pure (delims, 1, fmt)

/-- Create replacement set. -/
def fillDots (dots : Buffer 8) (span : Nat) : Run (Buffer 8) := do
  let dots ← dots.fill 0 (ch '.') span
  dots.write span [0]

/-! ### The loop over the format -/

/-- The variables of the loop. -/
structure SpfScan where
  fmt : List Octet
  buffer : Buffer 256
  offset : Nat
  ptrCount : Nat

/-- What a round comes to: the next round, the early `return NULL` with the `ptr_count` it leaves, or
    the end of the loop. -/
abbrev SpfRound := SpfScan ⊕ Except Nat SpfScan

/-- The early `return NULL`. -/
def SpfScan.refuse (s : SpfScan) : Run SpfRound :=
  pure (.inr (.error s.ptrCount))

/-- `buffer[offset++] = c`, with `fmt` behind it. -/
def SpfScan.putOctet (s : SpfScan) (c : Octet) (fmt : List Octet) : Run SpfRound := do
  let buffer ← s.buffer.write s.offset [c]
  pure (.inl { s with fmt := fmt, buffer := buffer, offset := s.offset + 1 })

/-- `offset += TextCopy (buffer+offset, sizeof (buffer)-offset, value)`, with `fmt` behind it. -/
def SpfScan.putText (s : SpfScan) (value fmt : List Octet) : Run SpfRound := do
  let copied ← textCopy s.buffer s.offset (DOMAIN_SIZE - s.offset) value
  pure (.inl { s with fmt := fmt, buffer := copied.1, offset := s.offset + copied.2 })

/-- The value of a macro when it is to be reversed. -/
def reverseValue (ctx : SpfContext) (reverse : Bool) (value delims fmt : List Octet) :
    Run (List Octet) :=
  if reverse then do
    let reversed ← (reverseSegments value delims DOMAIN_SIZE (ctx.scratch fmt.length)).unfollowed
    pure reversed.1
  else pure value

/-- A `long` passed for an `int`. -/
def intOfLong (x : Int) : Int :=
  (x + 2 ^ 31) % 2 ^ 32 - 2 ^ 31

/-- `right_hand_parts` when a number of parts is given. -/
def cutValue (rhp : Int) (value delims : List Octet) : List Octet :=
  if 0 < rhp then rightHandParts value delims (intOfLong rhp).toNat else value

/-- The end of a macro: the value is reversed, cut and transliterated, and put. -/
def spfTransform (ctx : SpfContext) (s : SpfScan) (value : List Octet) (rhp : Int)
    (reverse : Bool) (delims dots fmt : List Octet) : Run SpfRound :=
  match fmt with
  | [] => s.refuse
  | c :: rest =>
      -- We had better be at the end of the macro.
      if c ≠ ch '\x7d' then s.refuse
      else do
        let value ← reverseValue ctx reverse value delims fmt
        s.putText (textTransliterate (cutValue rhp value delims) delims dots) rest

/-- The delimiters of a macro, and what follows them. -/
def spfDelims (ctx : SpfContext) (s : SpfScan) (value : List Octet) (rhp : Int) (reverse : Bool)
    (fmt : List Octet) : Run SpfRound := do
  let delims ← scanDelims (Buffer.replicate 8 0) fmt
  let dots ← fillDots (Buffer.replicate 8 0) delims.2.1
  spfTransform ctx s value rhp reverse delims.1.cstring dots.cstring delims.2.2

/-- Set reverse flag: the flag, and the format behind it. -/
def reverseFlag (fmt : List Octet) : Bool × List Octet :=
  if peek fmt = ch 'r' then (true, fmt.tail) else (false, fmt)

/-- What follows the letter of a macro that has the value `value`. -/
def spfTail (ctx : SpfContext) (s : SpfScan) (value fmt : List Octet) : Run SpfRound :=
  -- Get number of right-hand-parts.
  let number := strtol fmt 10
  if number.1 < 0 then s.refuse
  else
    let flag := reverseFlag number.2
    spfDelims ctx s value number.1 flag.1 flag.2

/-- A macro from its letter on. -/
def spfLetter (ctx : SpfContext) (domain : CString) (s : SpfScan) : List Octet → Run SpfRound
  | [] => s.refuse
  | letter :: fmt => do
      let counted := { s with ptrCount := countPtr letter s.ptrCount }
      match ← macroValue ctx domain s.ptrCount letter with
      | none => counted.refuse
      | some value => spfTail ctx counted value fmt

/-- The format behind a percent character. -/
def spfPercent (ctx : SpfContext) (domain : CString) (s : SpfScan) : List Octet → Run SpfRound
  | [] => s.refuse
  | c :: fmt =>
      if c = ch '%' then s.putOctet c fmt
      else if c = ch '_' then s.putOctet (ch ' ') fmt
      else if c = ch '-' then s.putText (ascii "%20") fmt
      else if c = ch '\x7b' then spfLetter ctx domain s fmt
      else s.refuse

/-- One round of the loop. -/
def spfStep (ctx : SpfContext) (domain : CString) (s : SpfScan) : Run SpfRound :=
  match s.fmt with
  | [] => pure (.inr (.ok s))
  | c :: fmt =>
      if c = ch '/' ∨ ¬ s.offset < DOMAIN_SIZE then pure (.inr (.ok s))
      else if c ≠ ch '%' then s.putOctet c fmt
      else spfPercent ctx domain s fmt

/-! ### `spfMacro` -/

/-- Where the format begins: behind a colon, or with the domain when nothing is there. -/
def spfFormat (fmt : List Octet) : List Octet :=
  let fmt := if peek fmt = ch ':' then fmt.tail else fmt
  if fmt = [] ∨ peek fmt = ch '/' then ascii "%\x7bd\x7d" else fmt

/-- What follows the loop: the NUL, and the string returned. -/
def SpfScan.terminate (s : SpfScan) : Run (Option (List Octet) × Nat) := do
  let buffer ← s.buffer.write (s.offset - if DOMAIN_SIZE ≤ s.offset then 1 else 0) [0]
  pure (some buffer.cstring, s.ptrCount)

/-- `spfMacro (ctx, domain, fmt)`: the string returned, or `none` for NULL, and `ctx->ptr_count`. The
    array `buffer` is not initialised. Every round reads an octet of the format, so its length
    bounds the rounds. -/
def spfMacro (ctx : SpfContext) (domain fmt : CString) (buffer : Buffer 256) :
    Run (Option (List Octet) × Nat) := do
  let fmt := spfFormat fmt.octets
  match ← Run.loop (spfStep ctx domain) (fmt.length + 1) ⟨fmt, buffer, 0, ctx.ptrCount⟩ with
  | .error ptrCount => pure (none, ptrCount)
  | .ok s => s.terminate

end Snert
