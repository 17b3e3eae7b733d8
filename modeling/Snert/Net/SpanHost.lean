/-
Module: Snert.Net.SpanHost
Purpose: The scanners of address literals `spanIPv4` and `spanIPv6`, which read numbers with
  `strtol` and count the separators, and the grammar that the comment above `spanIPv6` quotes,
  stated on its own, to be compared with them; `spanDomain` and `spanHost` of net/spanHost.c with
  `spanIP` of net/spanIP.c, and `spanLocalPart` and `spanSourceRoute` of net/spanLocalPart.c: the
  lengths of hosts and of the parts of a mail address. `RFC_1035_STRICT` is not defined. The NULL
  guards are left out, and a length is an `int` that the string is short enough for.
Trusted boundary: human-reviewed spec
Main exports: spanIPv4, spanIPv6, IPv4Literal, IPv6Addr
-/
import Snert.CModel.CString
import Snert.Util.Text

namespace Snert

open CModel

/-! ### `spanIPv4` -/

/-- The loop of `spanIPv4`: the dots counted, and where it stops. `none` is its `return 0`. Every
    round goes on behind a number, so the length of the string bounds the rounds. -/
def spanNumbers : Nat → List Octet → Nat → Option (Nat × List Octet)
  | 0, ip, dots => some (dots, ip)
  | rounds + 1, ip, dots =>
      if peek ip = 0 then some (dots, ip)
      else
        let octet := (strtol ip 10).1
        let stop := (strtol ip 10).2
        if ¬ stop.length < ip.length then some (dots, ip)
        else if octet < 0 ∨ 255 < octet then none
        else if peek stop = ch '.' then spanNumbers rounds stop.tail (dots + 1)
        else spanNumbers rounds stop dots

/-- `spanIPv4 (ip)`: the length of the address, or zero. -/
def spanIPv4 (ip : List Octet) : Nat :=
  match spanNumbers (ip.length + 1) ip 0 with
  | none => 0
  | some (dots, stop) => if dots ≠ 3 then 0 else ip.length - stop.length

/-! ### `spanIPv6` -/

/-- Where the loop of `spanIPv6` ends: at `ip` it has read a group that stops at `stop`. -/
structure SpanGroups where
  groups : Nat
  compressed : Bool
  ip : List Octet
  stop : List Octet
deriving DecidableEq, Repr

/-- The loop of `spanIPv6`. `none` is a `return 0` in it. -/
def spanGroups : Nat → List Octet → Nat → Bool → Option SpanGroups
  | 0, ip, groups, compressed => some ⟨groups, compressed, ip, ip⟩
  | rounds + 1, ip, groups, compressed =>
      let word := (strtol ip 16).1
      let stop := (strtol ip 16).2
      if word < 0 ∨ 0xffff < word then none
      else
        let groups := if stop.length < ip.length ∧ peek stop ≠ ch '.' then groups + 1 else groups
        if peek stop ≠ ch ':' then some ⟨groups, compressed, ip, stop⟩
        else if peek stop.tail = ch ':' then
          if compressed then none else spanGroups rounds stop.tail groups true
        else spanGroups rounds stop.tail groups compressed

/-- What follows the loop of `spanIPv6`: the counts decide. -/
def spanEnd (start : List Octet) (s : SpanGroups) : Nat :=
  if peek s.stop = ch '.' then
    -- IPv6v4-full, IPv6v4-comp
    if s.compressed ∧ 4 < s.groups then 0
    else if ¬ s.compressed ∧ 6 < s.groups then 0
    else if spanIPv4 s.ip ≤ 0 then 0
    else start.length - s.ip.length + spanIPv4 s.ip
  else if ¬ s.compressed ∧ s.groups = 8 then start.length - s.stop.length
  else if s.compressed ∧ s.groups ≤ 6 then start.length - s.stop.length
  else 0

/-- `spanIPv6 (ip)`: the length of the address, or zero. -/
def spanIPv6 (ip : List Octet) : Nat :=
  match spanGroups (ip.length + 1) ip 0 false with
  | none => 0
  | some s => spanEnd ip s

/-! ### The grammar -/

/-- `Snum = 1*3DIGIT`, a decimal integer in the range 0 through 255. -/
def Snum (text : List Octet) : Prop :=
  1 ≤ text.length ∧ text.length ≤ 3 ∧ (∀ c ∈ text, isDigit 10 c) ∧ digitsValue 10 text ≤ 255

/-- `IPv4-address-literal = Snum 3("." Snum)`. -/
def IPv4Literal (text : List Octet) : Prop :=
  ∃ a b c d, Snum a ∧ Snum b ∧ Snum c ∧ Snum d ∧
    text = a ++ ch '.' :: (b ++ ch '.' :: (c ++ ch '.' :: d))

/-- `IPv6-hex = 1*4HEXDIG`. -/
def IPv6Hex (text : List Octet) : Prop :=
  1 ≤ text.length ∧ text.length ≤ 4 ∧ ∀ c ∈ text, isxdigit c

/-- Texts with colons between them. -/
def colonText (parts : List (List Octet)) : List Octet :=
  [ch ':'].intercalate parts

/-- `IPv6-full = IPv6-hex 7(":" IPv6-hex)`. -/
def IPv6Full (text : List Octet) : Prop :=
  ∃ groups, groups.length = 8 ∧ (∀ g ∈ groups, IPv6Hex g) ∧ text = colonText groups

/-- `IPv6-comp = [IPv6-hex *5(":" IPv6-hex)] "::" [IPv6-hex *5(":" IPv6-hex)]`, no more than six groups
    being present. -/
def IPv6Comp (text : List Octet) : Prop :=
  ∃ front back, front.length + back.length ≤ 6 ∧ (∀ g ∈ front ++ back, IPv6Hex g) ∧
    text = colonText front ++ [ch ':', ch ':'] ++ colonText back

/-- `IPv6v4-full = IPv6-hex 5(":" IPv6-hex) ":" IPv4-address-literal`. -/
def IPv6v4Full (text : List Octet) : Prop :=
  ∃ groups quad, groups.length = 6 ∧ (∀ g ∈ groups, IPv6Hex g) ∧ IPv4Literal quad ∧
    text = colonText (groups ++ [quad])

/-- `IPv6v4-comp = [IPv6-hex *3(":" IPv6-hex)] "::" [IPv6-hex *3(":" IPv6-hex) ":"]
    IPv4-address-literal`, no more than four groups being present. -/
def IPv6v4Comp (text : List Octet) : Prop :=
  ∃ front back quad, front.length + back.length ≤ 4 ∧ (∀ g ∈ front ++ back, IPv6Hex g) ∧
    IPv4Literal quad ∧ text = colonText front ++ [ch ':', ch ':'] ++ colonText (back ++ [quad])

/-- `IPv6-addr = IPv6-full / IPv6-comp / IPv6v4-full / IPv6v4-comp`. -/
def IPv6Addr (text : List Octet) : Prop :=
  IPv6Full text ∨ IPv6Comp text ∨ IPv6v4Full text ∨ IPv6v4Comp text

/-! ### Hosts and the parts of an address -/

/-! ### Domains -/

/-- A letter. -/
def isalpha (c : Octet) : Bool :=
  (65 ≤ c && c ≤ 90) || (97 ≤ c && c ≤ 122)

/-- The loop of `spanDomain`, and the test of the top level domain behind it. `none` is the early
    `return 0`; otherwise what is left of the string, and the dots counted. -/
def spanLabels : List Octet → Nat → Bool → Option (List Octet × Nat)
  | [], dots, labelIsAlpha => if 0 < dots ∧ ¬ labelIsAlpha then none else some ([], dots)
  | c :: domain, dots, labelIsAlpha =>
      if c = ch '.' then
        -- Double dots are illegal.
        if peek domain = ch '.' then none
        -- Count only internal dots, not the trailing root dot.
        else if domain ≠ [] then spanLabels domain (dots + 1) true
        else spanLabels domain dots labelIsAlpha
      else if c = ch '-' then spanLabels domain dots labelIsAlpha
      else if c ≠ ch '_' ∧ ¬ isalnum c ∧ c < 128 then some (c :: domain, dots)
      else spanLabels domain dots (labelIsAlpha && isalpha c)

/-- `spanDomain (domain, minDots)`. -/
def spanDomain (domain : List Octet) (minDots : Int) : Nat :=
  match spanLabels domain 0 true with
  | none => 0
  | some (stop, dots) => if dots < minDots then 0 else domain.length - stop.length

/-! ### Hosts -/

/-- `spanIP (ip)`. An address behind the tag `IPv6:` is measured without the tag. -/
def spanIP (ip : List Octet) : Nat :=
  if 0 < textInsensitiveStartsWith ip (ascii "IPv6:") then spanIPv6 (ip.drop 5)
  else
    let span := spanIPv6 ip.tail
    if peek ip = ch '[' ∧ span ≠ 0 ∧ peek (ip.tail.drop span) = ch ']' then span + 2
    else if 0 < spanIPv6 ip then spanIPv6 ip
    else spanIPv4 ip

/-- `spanHost (host, minDots)`. -/
def spanHost (host : List Octet) (minDots : Int) : Nat :=
  if 0 < spanIP host then spanIP host else spanDomain host minDots

/-! ### Local parts -/

/-- The octets that end a quoted string: its last quote, and those that may not stand in it. -/
def quotedStops : List Octet :=
  [ch '"', ch '\t', ch '\r', ch '\n', ch '#']

/-- The loop over a quoted string, from behind its first quote: what is left of the string. -/
def spanQuoted : List Octet → List Octet
  | [] => []
  | [c] => if c ∈ quotedStops then [c] else []
  | c :: d :: s =>
      if c ∈ quotedStops then c :: d :: s
      else if c = ch '\\' then spanQuoted s
      else spanQuoted (d :: s)

/-- The octets of a dot-string that are neither letters nor digits. -/
def dotStringSet : List Octet :=
  ascii "!#$%&'*+-/=?^_\x60\x7b|\x7d~."

/-- The loop over a dot-string: what is left of the string. -/
def spanDotString : List Octet → List Octet
  | [] => []
  | [c] => if isalnum c ∨ c ∈ dotStringSet then [] else [c]
  | c :: d :: s =>
      if isalnum c then spanDotString (d :: s)
      else if c = ch '\\' then spanDotString s
      else if c ∈ dotStringSet then spanDotString (d :: s)
      else c :: d :: s

/-- `spanLocalPart (s)`. -/
def spanLocalPart (s : List Octet) : Nat :=
  if peek s = ch '"' then
    let t := spanQuoted s.tail
    s.length - (if peek t = ch '"' then t.tail else t).length
  else s.length - (spanDotString s).length

/-! ### Source routes -/

/-- The loop of `spanSourceRoute`, with `none` for its `return 0`; otherwise what is left of the string.
    Every round skips an octet at least. -/
def spanRoutes : Nat → List Octet → Option (List Octet)
  | 0, _ => none
  | rounds + 1, s =>
      if peek s ≠ ch '@' then some s
      else
        let length := spanDomain s.tail 1 + 1
        if length = 1 then none
        else spanRoutes rounds (s.drop (if peek (s.drop length) = ch ',' then length + 1 else length))

/-- `spanSourceRoute (s)`. -/
def spanSourceRoute (s : List Octet) : Nat :=
  match spanRoutes (s.length + 1) s with
  | none => 0
  | some stop => s.length - stop.length

end Snert
