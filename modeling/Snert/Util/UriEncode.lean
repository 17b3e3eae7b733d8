/-
Module: Snert.Util.UriEncode
Purpose: `uriEncode2` and `uriEncode` of util/uriFormat.c, and `uriDecodeSelf` and `uriDecode` of
  util/uri.c. Decoding in place never writes ahead of what it reads, so a function of the octets
  says what it leaves.
Trusted boundary: human-reviewed spec
Main exports: uriReserved, uriUnreserved, uriEncodeOctet, uriEncode2
-/
import Snert.Util.Cgi

namespace Snert

open CModel

/-- `uri_reserved`. -/
def uriReserved : List Octet :=
  ascii "%:/?#[]@!$&'()*+,;=|"

/-- `uri_unreserved`. -/
def uriUnreserved : List Octet :=
  ascii "-_.~"

/-- `hex_digit`. -/
def hexDigit : List Octet :=
  ascii "0123456789ABCDEF"

/-- One octet of `uriEncode2`, with `URI_ENC_IGNORE_RESERVED` set in the flags or not. The octets of
    a string are no NUL. -/
def uriEncodeOctet (ignoreReserved : Bool) (c : Octet) : List Octet :=
  if isalnum c ∨ c ∈ uriUnreserved ∨ (ignoreReserved ∧ c ∈ uriReserved) then [c]
  else [ch '%', hexDigit.getD (c.toNat / 16) 0, hexDigit.getD (c.toNat % 16) 0]

/-- `uriEncode2 (string, flags)`. -/
def uriEncode2 (string : List Octet) (ignoreReserved : Bool) : List Octet :=
  string.flatMap (uriEncodeOctet ignoreReserved)

/-- `uriEncode (string)`. -/
def uriEncode (string : List Octet) : List Octet :=
  uriEncode2 string false

/-- What `uriDecodeSelf (s)` leaves before the NUL that it puts. -/
def uriDecodeSelf : List Octet → List Octet
  | [] => []
  | c :: s =>
      if c = ch '+' then ch ' ' :: uriDecodeSelf s
      else if c = ch '%' then
        match s with
        | a :: b :: s' =>
            match hexValue a, hexValue b with
            | some x, some y => UInt8.ofNat (x * 16 + y) :: uriDecodeSelf s'
            | _, _ => c :: uriDecodeSelf (a :: b :: s')
        | s => c :: uriDecodeSelf s
      else c :: uriDecodeSelf s

/-- `uriDecode (s)`: the string that a copy of `s` is decoded to. -/
def uriDecode (s : List Octet) : List Octet :=
  (uriDecodeSelf s).takeWhile (· ≠ 0)

end Snert
