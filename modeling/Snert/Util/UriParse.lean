/-
Module: Snert.Util.UriParse
Purpose: `uriParse2` of util/uri.c with `uriGetSchemePort`, `spanScheme` and `spanURI`. A URI is
  parsed in one block of memory, which holds anything at first: the copies of the string are
  modelled as two pieces of it, the decoded copy and the one that is cut into parts, with offsets
  into each. The NULL guard and the log are left out, allocation does not fail, and a length is an
  `int`.
Trusted boundary: human-reviewed spec
Main exports: spanScheme, spanURI, schemeTable, uriGetSchemePort
-/
import Snert.CModel.Buffer
import Snert.Mail.Tlds
import Snert.Net.SpanHost
import Snert.Util.TextClass
import Snert.Util.UriEncode
import Snert.Util.UriMime

namespace Snert

open CModel

/-! ### Spans -/

/-- `spanScheme (scheme)`. -/
def spanScheme (scheme : List Octet) : Nat :=
  if ¬ isalnum (peek scheme) then 0
  else 1 + (scheme.tail.takeWhile fun c => isalnum c || c ∈ ascii "+-.").length

/-- The loop of `spanURI`: what is left of the string. -/
def spanURIRest : List Octet → List Octet
  | [] => []
  | c :: uri =>
      if c = ch '%' then
        match uri with
        | x :: y :: uri' =>
            match hexValue x, hexValue y with
            | some a, some b =>
                if isCharURI (UInt8.ofNat (a * 16 + b)) then spanURIRest uri'
                else c :: x :: y :: uri'
            | _, _ => c :: x :: y :: uri'
        | uri => c :: uri
      else if isCharURI c then spanURIRest uri
      else c :: uri

/-- `spanURI (uri)`. -/
def spanURI (uri : List Octet) : Nat :=
  uri.length - (spanURIRest uri).length

/-! ### Schemes -/

/-- `struct mapping`. -/
structure SchemeMapping where
  name : List Octet
  length : Nat
  value : Int

/-- `schemeTable`. -/
def schemeTable : List SchemeMapping :=
  [⟨ascii "ip", 2, 0⟩, ⟨ascii "cid", 3, 0⟩, ⟨ascii "mid", 3, 0⟩, ⟨ascii "data", 4, 0⟩,
    ⟨ascii "file", 4, 0⟩, ⟨ascii "about", 5, 0⟩, ⟨ascii "javascript", 10, 0⟩, ⟨ascii "ftp", 3, 21⟩,
    ⟨ascii "gopher", 6, 70⟩, ⟨ascii "http", 4, 80⟩, ⟨ascii "https", 5, 443⟩, ⟨ascii "imap", 4, 143⟩,
    ⟨ascii "ldap", 4, 389⟩, ⟨ascii "mailto", 6, 25⟩, ⟨ascii "smtp", 4, 25⟩, ⟨ascii "email", 5, 25⟩,
    ⟨ascii "mail", 4, 25⟩, ⟨ascii "from", 4, 25⟩, ⟨ascii "nntp", 4, 119⟩,
    -- The length of this name is that of the next one.
    ⟨ascii "pop", 4, 110⟩, ⟨ascii "pop3", 4, 110⟩, ⟨ascii "telnet", 6, 23⟩, ⟨ascii "rtsp", 4, 554⟩]

/-- `TextMatch (hay, pin, -1, 1)`. -/
def textMatchCaseless (hay pin : List Octet) : Bool :=
  (textFindOffset hay pin (-1) true).any (0 ≤ ·)

/-- `uriGetSchemePort (uri)`, which depends on these fields of it. -/
def uriGetSchemePort (port scheme host : Option (List Octet)) : Int :=
  match port, scheme, host with
  | some port, _, _ =>
      -- Make sure the port is a positive number.
      let value := (strtol port 10).1
      if value ≤ 0 then -1 else toInt32 value
  | none, none, none => -1
  | none, none, some host =>
      if textMatchCaseless host (ascii "www.*") then 80
      else if textMatchCaseless host (ascii "pop.*") then 110
      else if textMatchCaseless host (ascii "imap.*") then 143
      else if textMatchCaseless host (ascii "smtp.*") then 25
      else -1
  | none, some scheme, _ =>
      match schemeTable.find? fun t => strcasecmp scheme t.name = 0 with
      | some t => t.value
      | none => -1

/-! ### Memory -/

/-- The C string at an offset of a piece of memory. -/
def memText (mem : List Octet) (offset : Nat) : List Octet :=
  (mem.drop offset).takeWhile (· ≠ 0)

/-- `strchr` in that string, which gives the offset of the octet. -/
def memChr (mem : List Octet) (offset : Nat) (c : Octet) : Option Nat :=
  let s := memText mem offset
  if c ∈ s then some (offset + s.idxOf c) else none

/-- `uriDecodeSelf` of that string. -/
def memDecode (mem : List Octet) (offset : Nat) : List Octet :=
  let s := uriDecodeSelf (memText mem offset) ++ [0]
  mem.take offset ++ s ++ mem.drop (offset + s.length)

/-- Put a NUL at an offset, if there is one. -/
def memCut (mem : List Octet) (mark : Option Nat) : List Octet :=
  match mark with
  | some mark => mem.set mark 0
  | none => mem

/-- Move what is before an offset one octet to the left, out of the memory at its start, and put a
    NUL into the octet that becomes free. -/
def memShift (mem : List Octet) (offset : Nat) : List Octet :=
  (mem.take offset).tail ++ 0 :: mem.drop offset

/-! ### URIs -/

/-- `URI`, with its strings. -/
structure Uri where
  uri : List Octet
  uriDecoded : List Octet
  scheme : Option (List Octet)
  schemeInfo : Option (List Octet)
  userInfo : Option (List Octet)
  host : Option (List Octet)
  port : Option (List Octet)
  path : Option (List Octet)
  query : Option (List Octet)
  fragment : Option (List Octet)
deriving DecidableEq, Repr

/-- A host is in the memory that is parsed, or the literal `localhost`. -/
inductive UriHost where
  | place (offset : Nat)
  | localhost
deriving DecidableEq, Repr

/-- A URI as it is parsed. `decoded` is the memory of the second copy, with the offsets `uriDecoded`
    and `schemeInfo`. `mem` is that of the third copy from one octet before `value` on, with the
    other offsets. The scheme is before it and is not changed, or it is a literal. -/
structure UriScan where
  decoded : List Octet
  mem : List Octet
  uriDecoded : Nat
  schemeInfo : Option Nat
  scheme : Option (List Octet)
  userInfo : Option Nat
  host : Option UriHost
  port : Option Nat
  path : Option Nat
  query : Option Nat
  fragment : Option Nat
deriving DecidableEq, Repr

namespace UriScan

/-- The host. -/
def hostText (self : UriScan) : Option (List Octet) :=
  self.host.map fun
    | .place offset => memText self.mem offset
    | .localhost => ascii "localhost"

/-- What `uriGetSchemePort` gives now. -/
def schemePort (self : UriScan) : Int :=
  uriGetSchemePort (self.port.map (memText self.mem)) self.scheme self.hostText

/-- The URI with the strings at the offsets. -/
def finish (self : UriScan) (uri : List Octet) : Uri where
  uri := uri
  uriDecoded := memText self.decoded self.uriDecoded
  scheme := self.scheme
  schemeInfo := self.schemeInfo.map (memText self.decoded)
  userInfo := self.userInfo.map (memText self.mem)
  host := self.hostText
  port := self.port.map (memText self.mem)
  path := self.path.map (memText self.mem)
  query := self.query.map (memText self.mem)
  fragment := self.fragment.map (memText self.mem)

/-- Is the scheme `file`? -/
def isFile (self : UriScan) : Bool :=
  self.scheme.any fun scheme => strcasecmp scheme (ascii "file") = 0

end UriScan

/-- The loop that looks for a known scheme at the end of the first `span` octets. -/
def uriKnownScheme (decoded : List Octet) (span : Nat) : Nat :=
  match schemeTable.find? fun t =>
      t.length ≤ span && strncasecmp (decoded.drop (span - t.length)) t.name t.length = 0 with
  | some t => t.length
  | none => span

/-- What is done up to `value`. The memory of the third copy is `third`, and `length` octets are
    parsed. -/
def uriScheme (decoded third : List Octet) (length : Nat) : UriScan :=
  let text := memText decoded 0
  let span := spanScheme text
  let scan (value uriDecoded : Nat) (scheme : Option (List Octet)) (schemeInfo : Option Nat) :
      UriScan :=
    ⟨decoded, 0 :: third.drop value, uriDecoded, schemeInfo, scheme, none, none, none,
      none, none, none⟩
  if 0 < span ∧ peek (text.drop span) = ch ':' ∧ spanIPv6 text = 0 then
    -- A scheme that does not look like the first word of an IPv6 address.
    scan (span + 1) 0 (some (text.take span)) (some (span + 1))
  else
    let span := strcspn text [ch ':']
    if 0 < span ∧ 3 < (length : Int) - span ∧ peek (decoded.drop (span + 1)) = ch '/' ∧
        peek (decoded.drop (span + 2)) = ch '/' then
      -- An invalid or unknown scheme, which a known one may be the end of.
      let start := span - uriKnownScheme text span
      scan (span + 1) start (some ((text.take span).drop start)) (some (span + 1))
    else scan 0 0 none none

/-- The trimming of a URI that has been encoded completely, so that its scheme is not in `u`. -/
def uriTrim (self : UriScan) (u : List Octet) : UriScan :=
  if self.scheme.any fun scheme => ¬ scheme <:+: u then
    { self with
      decoded := self.decoded.set
        (self.uriDecoded + spanURI (memText self.decoded self.uriDecoded)) 0
      mem := self.mem.set (1 + spanURI (memText self.mem 1)) 0 }
  else self

/-- The fragment is cut off, and then the query. -/
def uriCut (self : UriScan) : UriScan :=
  let fragment := memChr self.mem 1 (ch '#')
  let mem := memCut self.mem fragment
  let query := memChr mem 1 (ch '?')
  let mem := memCut mem query
  { self with mem := mem, fragment := fragment.map (· + 1), query := query.map (· + 1) }

/-- Remove square brackets from a host that is an address literal. -/
def uriBrackets (self : UriScan) (host span : Nat) : UriScan :=
  if peek (self.mem.drop host) = ch '[' ∧ peek (self.mem.drop (host + span - 1)) = ch ']' then
    { self with mem := self.mem.set (host + span - 1) 0, host := some (.place (host + 1)) }
  else { self with host := some (.place host) }

/-- Check for a colon and a port behind the host, that is `span` octets behind its start. -/
def uriHostPort (self : UriScan) (host span : Nat) : Run (Option UriScan) := do
  let c ← Run.load ⟨host + span, 1, self.mem.length⟩ (peek (self.mem.drop (host + span)))
  if c = ch ':' then
    let self := { self with mem := self.mem.set (host + span) 0, port := some (host + span + 1) }
    if self.schemePort = -1 then pure none
    else pure (some (uriBrackets self host span))
  else pure (some (uriBrackets self host span))

/-- The authority before the host: the user information, and the start of the host. -/
def uriUserInfo (self : UriScan) (host : Nat) : UriScan × Nat :=
  match memChr self.mem host (ch '@') with
  | some mark => ({ self with mem := self.mem.set mark 0, userInfo := some host }, mark + 1)
  | none => (self, host)

/-- The authority and the path are shifted apart, to make room for a NUL. -/
def uriPath (self : UriScan) (host span : Nat) : UriScan × Nat :=
  match memChr self.mem (host + span) (ch '/') with
  | some path => ({ self with mem := memShift self.mem path, path := some path }, host - 1)
  | none => (self, host)

/-- An authority that starts at `value`. `none` is the jump to `error1`. -/
def uriAuthority (self : UriScan) (value : Nat) : Run (Option UriScan) :=
  let self := { self with mem := memDecode self.mem value }
  let span := spanHost (memText self.mem value) 0
  if 0 < span then
    let (self, host) := uriPath self value span
    let (self, host) := uriUserInfo self host
    uriHostPort self host span
  else if self.isFile then
    pure (some { self with host := some .localhost, path := some value })
  else pure (some self)

/-- The start of a valid local-part, the end of the string if there is none. The octets are scanned
    forward. -/
def uriLocalPart : List Octet → List Octet
  | [] => []
  | c :: s => if spanLocalPart (c :: s) = (c :: s).length then c :: s else uriLocalPart s

/-- A mail address, whose `@` is at `mark`. -/
def uriMailbox (self : UriScan) (mark length : Nat) : Option UriScan :=
  let mem := self.mem.set mark 0
  let localPart := uriLocalPart (memText mem 1)
  let userInfo := mark - localPart.length
  let span := spanDomain (memText mem (mark + 1)) 1
  if localPart = [] ∨ span ≤ 0 then none
  else
    let mem := mem.set (mark + 1 + span) 0
    -- Plus-signs in a local-part are not blanks.
    let plus := localPart.map fun c => if c = ch ' ' then ch '+' else c
    let mem := mem.take userInfo ++ plus ++ mem.drop mark
    let text := (plus ++ [ch '@'] ++ memText mem (mark + 1)).take length ++ [0]
    some { self with
      mem := mem
      decoded := self.decoded.take self.uriDecoded ++ text ++
        self.decoded.drop (self.uriDecoded + text.length)
      scheme := some (ascii "mailto")
      schemeInfo := some self.uriDecoded
      userInfo := some userInfo
      host := some (.place (mark + 1)) }

/-- An address or a domain without a scheme. -/
def uriImplicit (nthTld : Nat → List (List Octet)) (self : UriScan) (minDots : Int) : UriScan :=
  let value := memText self.mem 1
  if 0 < spanIP value then
    let span := spanIP value
    let mem := if peek (value.drop (span - 1)) = ch ']' then self.mem.set span 0 else self.mem
    { self with
      mem := mem
      scheme := some (ascii "ip")
      host := some (.place (if peek value = ch '[' then 2 else 1)) }
  else if 0 < spanDomain value minDots then
    let span := spanDomain value minDots
    let slash := peek (value.drop span) = ch '/'
    let self := if slash then
        { self with mem := memShift self.mem (1 + span), path := some (1 + span) }
      else self
    let host := if slash then 0 else 1
    if 0 < indexValidTLD nthTld (memText self.mem host) then
      { self with scheme := some (ascii "http"), host := some (.place host) }
    else self
  else self

/-- The parts behind the scheme, with the query and the fragment cut off. -/
def uriParts (nthTld : Nat → List (List Octet)) (self : UriScan) (length : Nat) (minDots : Int) :
    Run (Option UriScan) :=
  let value := memText self.mem 1
  if peek value = ch '/' ∧ (peek value.tail = ch '/' ∨ 0 < self.schemePort) then
    uriAuthority self (if peek value.tail = ch '/' then 3 else 2)
  else if peek value = ch '/' then
    pure (some { self with path := some 1, host := if self.isFile then some .localhost else none })
  else
    match memChr self.mem 1 (ch '@') with
    | some mark =>
        if (self.scheme = none ∨ self.schemePort = 25) ∧ 1 < mark then
          pure (uriMailbox self mark length)
        else if self.scheme = none then
          pure (some (uriImplicit nthTld { self with host := some (.place mark) } minDots))
        else if self.schemePort = 25 then pure (some { self with host := some (.place mark) })
        else pure (some self)
    | none =>
        if self.scheme = none then pure (some (uriImplicit nthTld self minDots))
        else pure (some self)

/-- Is the URI one to return? A scheme that can be empty has the port 0; others need a host. -/
def UriScan.complete (self : UriScan) : Bool :=
  self.scheme.isSome &&
    (self.schemePort = 0 || (0 < self.schemePort && self.host.isSome))

/-- The length of the octets to parse: a negative length is that of the string, and one trailing dot
    is left out. -/
def uriLength (u : List Octet) (length : Int) : Run Nat :=
  let length := if length < 0 then u.length else length.toNat
  if length = 0 then pure 0
  else do
    let c ← Run.load ⟨(length : Int) - 1, 1, u.length + 1⟩ (peek (u.drop (length - 1)))
    pure (if c = ch '.' then length - 1 else length)

/-- `uriParse2 (u, length, implicit_domain_min_dots)`. `nthTld` is the array `nth_tld`, and memory
    that is allocated for `n` octets holds `fresh n`. -/
def uriParse2 (nthTld : Nat → List (List Octet)) (fresh : (n : Nat) → Buffer n) (u : List Octet)
    (length : Int) (minDots : Int) : Run (Option Uri) := do
  let length ← uriLength u length
  if length = 0 then pure none
  else
    let text := u.take length
    let decoded := memDecode ((fresh (length + 1)).splice 0 (text ++ [0])).octets 0
    let third := ((fresh (length + 1)).splice 0 (memText decoded 0 ++ [0])).octets
    let self := uriCut (uriTrim (uriScheme decoded third length) u)
    let parsed ← uriParts nthTld self length minDots
    pure (parsed.bind fun self => if self.complete then some (self.finish text) else none)

/-- `IMPLICIT_DOMAIN_MIN_DOTS`. -/
abbrev IMPLICIT_DOMAIN_MIN_DOTS : Int := 1

/-- `uriParse (u, length)`. -/
def uriParse (nthTld : Nat → List (List Octet)) (fresh : (n : Nat) → Buffer n) (u : List Octet)
    (length : Int) : Run (Option Uri) :=
  uriParse2 nthTld fresh u length IMPLICIT_DOMAIN_MIN_DOTS

end Snert
