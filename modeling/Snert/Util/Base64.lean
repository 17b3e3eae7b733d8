/-
Module: Snert.Util.Base64
Purpose: The decoder of util/b64.c, which takes one character at a time. The states of the encoder and
  the array of the encoder's quantum are left out.
Trusted boundary: human-reviewed spec
Main exports: B64, b64Reset, B64Result, b64Decode
-/
import Snert.CModel.CString

namespace Snert

open CModel

/-- An octet or, as `none`, the value `EOF` of a character. -/
abbrev Ch := Option Octet

/-- The states of the decoder. -/
inductive B64State where
  | start
  | decodeA
  | decodeB
  | decodeC
  | decodeD
  | decodePad3
  | decodePad2
  | decodePad1
  | eof
deriving DecidableEq, Repr

/-- The decoder: the last value taken, and the state. -/
structure B64 where
  hold : Nat
  state : B64State
deriving DecidableEq, Repr

/-- What `b64Decode` returns. -/
inductive B64Result where
  | octet (c : Octet)
  | eof
  | next
  | error
deriving DecidableEq, Repr

/-- `b64Reset (b64)`. -/
def b64Reset (b64 : B64) : B64 :=
  { b64 with state := .start }

/-- The table `encodeSet`. -/
def encodeSet : List Octet :=
  ascii "ABCDEFGHIJKLMNOPQRSTUVWXYZabcdefghijklmnopqrstuvwxyz0123456789+/"

/-- The table `decodeSet` that `b64Init` makes; `BASE64_NEXT` is `none`. The NUL that ends
    `encodeSet` is entered as well. -/
def decodeSet (x : Octet) : Option Nat :=
  if x = 0 then some 64 else encodeSet.idxOf? x

/-- The value of a character: that of the padding character is 64. -/
def b64Value (x : Ch) : Option Nat :=
  match x with
  | none => some 64
  | some x => if x = ch '=' then some 64 else decodeSet x

/-- The switch of `b64Decode`, on a value. -/
def b64Step (b64 : B64) (value : Nat) : B64 × B64Result :=
  match b64.state with
  | .start | .decodeA =>
      if value = 64 then ({ b64 with state := .decodePad3 }, .next)
      else (⟨value, .decodeB⟩, .next)
  | .decodeB =>
      if value = 64 then (b64, .error)
      else (⟨value, .decodeC⟩, .octet (UInt8.ofNat (b64.hold * 4 ||| value / 16)))
  | .decodeC =>
      if value = 64 then ({ b64 with state := .decodePad1 }, .next)
      else (⟨value, .decodeD⟩, .octet (UInt8.ofNat (b64.hold * 16 ||| value / 4)))
  | .decodeD =>
      if value = 64 then ({ b64 with state := .eof }, .eof)
      else ({ b64 with state := .decodeA }, .octet (UInt8.ofNat (b64.hold * 64 ||| value)))
  | .decodePad3 =>
      if value = 64 then ({ b64 with state := .decodePad2 }, .next) else (b64, .error)
  | .decodePad2 =>
      if value = 64 then ({ b64 with state := .decodePad1 }, .next) else (b64, .error)
  | .decodePad1 =>
      if value = 64 then ({ b64 with state := .eof }, .eof) else (b64, .error)
  | .eof => (b64, .eof)

/-- `b64Decode (b64, x)`. Characters that have no value are ignored. -/
def b64Decode (b64 : B64) (x : Ch) : B64 × B64Result :=
  match b64Value x with
  | none => (b64, .next)
  | some value => b64Step b64 value

end Snert
