/-
Module: Snert.Net.Reverse
Purpose: `reverseSegmentOrder`, `reverseByNibble`, `reverseSegments` and `reverseIp` of net/reverse.c,
  the last two as they are called without the `arpa` suffix. The buffer that they fill is given by its size, and the
  result by the string left in it and the length returned. A size of zero and NULL do not occur here.
Trusted boundary: human-reviewed spec
Main exports: reverseSegmentOrder, reverseByNibble, reverseSegments, reverseIp
-/
import Snert.Net.FormatIP
import Snert.Net.ParseIPv6
import Snert.Util.Text

namespace Snert

open CModel

/-! ### Segments between delimiters -/

/-- The last loop of `reverseSegmentOrder`: each segment is reversed where it stands. An empty
    segment ends the loop. -/
def reverseEachSegment (delims buffer : List Octet) : List Octet :=
  let span := strcspn buffer delims
  if span = 0 then buffer
  else
    match _h : buffer.drop span with
    | [] => buffer.reverse
    | delim :: rest => (buffer.take span).reverse ++ delim :: reverseEachSegment delims rest
termination_by buffer.length
decreasing_by
  have hlen := congrArg List.length _h
  rw [List.length_drop, List.length_cons] at hlen
  omega

/-- `reverseSegmentOrder (string, delims, buffer, size)`. A string that does not fit is only
    copied. -/
def reverseSegmentOrder (string delims : List Octet) (size : Nat) : List Octet × Nat :=
  if size ≤ string.length then (string.take (size - 1), string.length)
  else
    -- Remove the trailing delimiter if present.
    let kept := if string.getLast?.any (· ∈ delims) then string.dropLast else string
    (reverseEachSegment delims kept.reverse, kept.length)

/-! ### Nibbles -/

/-- What `reverseByNibble` has put: the octets it counts, and those of a last piece that was cut
    off. -/
structure NibbleText where
  text : List Octet
  behind : List Octet
deriving DecidableEq, Repr

/-- The loop over the nibbles of a word, the lowest first. -/
def putNibbles (size : Nat) : Nat → Nat → NibbleText → NibbleText
  | 0, _, put => put
  | rounds + 1, word, put =>
      let nibble := hexWord false (word % 16) ++ [ch '.']
      let room := size - put.text.length
      if room ≤ nibble.length then { put with behind := nibble.take (room - 1) }
      else putNibbles size rounds (word / 16) { text := put.text ++ nibble, behind := [] }

/-- `reverseByNibble (group, buffer, size)`: the groups behind the first are put before it. -/
def reverseByNibble (group : List Octet) (size : Nat) : NibbleText :=
  let word := ((strtol group 16).1 % 2 ^ 16).toNat
  match _h : (strtol group 16).2 with
  | [] => putNibbles size 4 word ⟨[], []⟩
  | c :: rest =>
      if c = ch ':' then putNibbles size 4 word (reverseByNibble rest size)
      else putNibbles size 4 word ⟨[], []⟩
termination_by group.length
decreasing_by
  have hlen := (strtol_suffix group 16).length_le
  rw [_h, List.length_cons] at hlen
  omega

/-- Remove the trailing dot from the last nibble. -/
def NibbleText.dropDot (put : NibbleText) : List Octet × Nat :=
  if put.text.getLast? = some (ch '.') then (put.text.dropLast, put.text.length - 1)
  else (put.text ++ put.behind, put.text.length)

/-! ### `reverseSegments` -/

/-- Expand a compact IPv6 address. The array `ipv6` of `reverseSegments` is not initialised, which
    shows when the address cannot be parsed. -/
def expandCompact (source : List Octet) (ipv6 : Ipv6) : Run (List Octet) :=
  if [ch ':', ch ':'] <:+: source then do
    -- Convert to a binary IP address, and back to a full IPv6 address string.
    let parsed ← parseIPv6 source ipv6
    let put ← formatIP parsed.2.octets 0 (Buffer.replicate IPV6_STRING_SIZE 0)
    pure put.1.cstring
  else pure source

/-- `reverseSegments (source, delims, buffer, size, 0)`. -/
def reverseSegments (source delims : List Octet) (size : Nat) (ipv6 : Ipv6) :
    Run (List Octet × Nat) :=
  let source := if strncasecmp source IPV6_TAG 5 = 0 then source.drop 5 else source
  if ch ':' ∉ source then pure (reverseSegmentOrder source delims size)
  else do
    let source ← expandCompact source ipv6
    pure (reverseByNibble source size).dropDot

/-- `reverseIp (source, buffer, size, 0)`. -/
def reverseIp (source : List Octet) (size : Nat) (ipv6 : Ipv6) : Run (List Octet × Nat) :=
  reverseSegments source (ascii ".") size ipv6

end Snert
