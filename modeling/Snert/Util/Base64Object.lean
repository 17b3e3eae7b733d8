/-
Module: Snert.Util.Base64Object
Purpose: The Base64 object of util/Base64.c, which encodes and decodes whole buffers and allocates
  its output, and the decoder of util/b64.c on buffers. Memory that is allocated holds anything;
  allocation does not fail. The tables of the object are those of util/b64.c, and so is the switch
  of its decoder. The input of the decoder is an array of `char`, which is signed, and its elements
  go to `b64Decode` as they are. The null pointers are left out, and so is the update of
  `*out_length`: the length is handed on as it stands when the call is left.
Trusted boundary: human-reviewed spec
Main exports: Base64, Base64Create, Base64Reset, Base64SetPadding
-/
import Snert.Util.Base64Encode

namespace Snert

open CModel

/-- The object. No padding character is one of the alphabet. -/
structure Base64 where
  hold : Nat
  state : B64CoderState
  pad : Octet
  pad_notMem : pad ∉ encodeSet
deriving DecidableEq, Repr

/-- `Base64Create ()`. -/
def Base64Create : Base64 :=
  ⟨0, .decoding .start, padCharacter, by decide⟩

/-- `Base64Reset (self)`. -/
def Base64Reset (self : Base64) : Base64 :=
  { self with state := .decoding .start }

theorem decodeSet_of_mem {c : Octet} (h : c ∈ encodeSet) : (decodeSet c).any (· < 64) = true := by
  revert c
  decide +kernel

/-- `Base64SetPadding (self, pad)`, for an octet: the object, unless the character is refused. -/
def Base64SetPadding (self : Base64) (pad : Octet) : Option Base64 :=
  if h : (decodeSet pad).any (· < 64) then none
  else if pad ∈ ascii "\"%&'()*+,-./:;<=>?_" then
    some { self with pad := pad, pad_notMem := fun hmem => h (decodeSet_of_mem hmem) }
  else none

/-- The value of a character. -/
def Base64.value (self : Base64) (x : Ch) : Option Nat :=
  match x with
  | none => some 64
  | some x => if x = self.pad then some 64 else decodeSet x

/-- `Base64Decode (self, x)`. A negative `x` is `none`. -/
def Base64Decode (self : Base64) (x : Ch) : Base64 × B64Result :=
  match self.value x with
  | none => (self, .next)
  | some value =>
      match self.state with
      | .decoding state =>
          let r := b64Step ⟨self.hold, state⟩ value
          ({ self with hold := r.1.hold, state := .decoding r.1.state }, r.2)
      | .encoding _ => (self, .error)

/-- An octet as a `char`, which is signed: those above 127 are negative. -/
def signedChar (c : Octet) : Ch :=
  if c < 128 then some c else none

/-- How `Base64DecodeBuffer` ends. -/
inductive Base64Return where
  | ok
  | next
  | eof
  | error
deriving DecidableEq, Repr

variable {n : Nat}

/-- The loop of `Base64DecodeBuffer`. Yields the object, the octets, their number, and whether it was
    left at `BASE64_EOF`. -/
def Base64DecodeInput (self : Base64) (octets : Buffer n) (tlength : Nat) :
    List Octet → Run (Base64 × Buffer n × Nat × Bool)
  | [] => pure (self, octets, tlength, false)
  | c :: s =>
      match Base64Decode self (signedChar c) with
      | (self, .eof) => pure (self, octets, tlength, true)
      | (self, .next) | (self, .error) => Base64DecodeInput self octets tlength s
      | (self, .octet octet) => do
          let octets ← octets.write tlength [octet]
          Base64DecodeInput self octets (tlength + 1) s

/-- The number of octets that `Base64DecodeBuffer` allocates. -/
def Base64DecodeSize (slength : Nat) : Nat :=
  slength - slength / 4 + 1

/-- `Base64DecodeBuffer (self, s, slength, &t, &tlength)`: the object, the octets and their number,
    and what is returned. The memory allocated holds `octets`. -/
def Base64DecodeBuffer (self : Base64) (s : List Octet)
    (octets : Buffer (Base64DecodeSize s.length)) :
    Run (Base64 × Buffer (Base64DecodeSize s.length) × Nat × Base64Return) :=
  if s.length < 4 then pure (self, octets, 0, .error)
  else do
    let r ← Base64DecodeInput self octets 0 s
    -- At `BASE64_EOF` the octets are left without a NUL.
    if r.2.2.2 then pure (r.1, r.2.1, r.2.2.1, .eof)
    else do
      let octets ← r.2.1.write r.2.2.1 [0]
      pure (r.1, octets, r.2.2.1, if r.1.state = .decoding .decodeA then .ok else .next)

/-- One octet of the loop of `Base64EncodeBuffer`: the bits of a `char` are those of its octet. Yields
    the object, the characters and their number. -/
def Base64EncodeOctet (self : Base64) (x : Octet) (octets : Buffer n) (length : Nat) :
    Run (Base64 × Buffer n × Nat) :=
  match self.state with
  | .decoding .start | .encoding .encodeA => do
      let octets ← octets.write length [encodeChar (x.toNat >>> 2 &&& 0x3f)]
      pure ({ self with hold := x.toNat <<< 4 &&& 0x30, state := .encoding .encodeB }, octets,
        length + 1)
  | .encoding .encodeB => do
      let octets ← octets.write length [encodeChar (self.hold ||| (x.toNat >>> 4 &&& 0xf))]
      pure ({ self with hold := x.toNat <<< 2 &&& 0x3c, state := .encoding .encodeC }, octets,
        length + 1)
  | .encoding .encodeC => do
      let octets ← octets.write length
        [encodeChar (self.hold ||| (x.toNat >>> 6 &&& 0x3)), encodeChar (x.toNat &&& 0x3f)]
      pure ({ self with state := .encoding .encodeA }, octets, length + 2)
  | .decoding _ => pure (self, octets, length)

/-- The loop of `Base64EncodeBuffer`. -/
def Base64EncodeInput (self : Base64) (octets : Buffer n) (length : Nat) :
    List Octet → Run (Base64 × Buffer n × Nat)
  | [] => pure (self, octets, length)
  | x :: s => do
      let r ← Base64EncodeOctet self x octets length
      Base64EncodeInput r.1 r.2.1 r.2.2 s

/-- The characters that end the encoding; `marked` when there was no input at all. -/
def Base64Closing (self : Base64) (marked : Bool) : List Octet :=
  match self.state with
  | .decoding .start | .encoding .encodeA => if marked then List.replicate 4 self.pad else []
  | .encoding .encodeB => [encodeChar self.hold, self.pad, self.pad]
  | .encoding .encodeC => [encodeChar self.hold, self.pad]
  | .decoding _ => []

/-- The end of the encoding. -/
def Base64EncodeEof (self : Base64) (octets : Buffer n) (length : Nat) (marked : Bool) :
    Run (Base64 × Buffer n × Nat) := do
  let octets ← octets.write length (Base64Closing self marked)
  pure ({ self with state := .encoding .encodeA }, octets,
    length + (Base64Closing self marked).length)

/-- The number of octets that `Base64EncodeBuffer` allocates. -/
def Base64EncodeSize (slength : Nat) : Nat :=
  (slength + 3) / 3 * 4 + 1

/-- The end of `Base64EncodeBuffer`. -/
def Base64EncodeReturn (r : Base64 × Buffer n × Nat) :
    Run (Base64 × Buffer n × Nat × Base64Return) := do
  let octets ← r.2.1.write r.2.2 [0]
  pure (r.1, octets, r.2.2,
    if r.1.state = .decoding .start ∨ r.1.state = .encoding .encodeA then .ok else .next)

/-- `Base64EncodeBuffer (self, s, slength, &t, &tlength, eof)`: the object, the characters and their
    number, and what is returned. An `s` that is `NULL` is `none`. The memory allocated holds
    `octets`. -/
def Base64EncodeBuffer (self : Base64) (s : Option (List Octet)) (eof : Bool)
    (octets : Buffer (Base64EncodeSize (s.getD []).length)) :
    Run (Base64 × Buffer (Base64EncodeSize (s.getD []).length) × Nat × Base64Return) := do
  let r ← Base64EncodeInput self octets 0 (s.getD [])
  if eof || s.isNone then do
    let r ← Base64EncodeEof r.1 r.2.1 r.2.2 s.isNone
    Base64EncodeReturn r
  else Base64EncodeReturn r

/-- Pass chunks to `Base64EncodeBuffer` one after the other, with `eof` on the `last` one. Yields the
    outputs, joined. Memory allocated for `n` octets holds `fresh n`. -/
def Base64EncodeChunks (self : Base64) (fresh : (n : Nat) → Buffer n) (last : List Octet) :
    List (List Octet) → Run (List Octet)
  | [] => do
      let r ← Base64EncodeBuffer self (some last) true (fresh _)
      pure (r.2.1.octets.take r.2.2.1)
  | s :: chunks => do
      let r ← Base64EncodeBuffer self (some s) false (fresh _)
      let rest ← Base64EncodeChunks r.1 fresh last chunks
      pure (r.2.1.octets.take r.2.2.1 ++ rest)

/-! ### The decoder of b64.c on buffers -/

/-- The loop of `b64DecodeBuffer`, with `out_size` counted down already. Yields the state, the
    output, `olen`, and whether the loop was left at `BASE64_ERROR`. -/
def b64DecodeInput (b64 : B64) (output : Buffer n) (outSize olen : Nat) :
    List Octet → Run (B64 × Buffer n × Nat × Bool)
  | [] => pure (b64, output, olen, false)
  | c :: input =>
      if outSize ≤ olen then pure (b64, output, olen, false)
      else
        match b64Decode b64 (signedChar c) with
        | (b64, .next) => b64DecodeInput b64 output outSize olen input
        | (b64, .error) => pure (b64, output, olen, true)
        | (b64, .eof) => pure (b64, output, olen, false)
        | (b64, .octet octet) => do
            let output ← output.write olen [octet]
            b64DecodeInput b64 output outSize (olen + 1) input

/-- `b64DecodeBuffer (b64, input, in_length, output, out_size, &out_length)`: the state, the output,
    how many octets it holds, and what is returned. -/
def b64DecodeBuffer (b64 : B64) (input : List Octet) (output : Buffer n) (outSize outLength : Nat) :
    Run (B64 × Buffer n × Nat × B64Return) :=
  if outSize = 0 then pure (b64, output, outLength, .error)
  else do
    let r ← b64DecodeInput b64 output (outSize - 1) outLength input
    -- At `BASE64_ERROR` the octets are left without a NUL.
    if r.2.2.2 then pure (r.1, r.2.1, r.2.2.1, .error)
    else do
      let output ← r.2.1.write r.2.2.1 [0]
      pure (r.1, output, r.2.2.1,
        if r.1.state = .decodeA ∨ r.1.state = .eof then .ok else .next)

/-- Pass the chunks of a string to `b64DecodeBuffer` one after the other, with the whole object as
    output and the length carried over, up to a call that returns `BASE64_ERROR`. Yields the state,
    the output, and how many octets it holds. -/
def b64DecodeChunks (b64 : B64) (output : Buffer n) (outLength : Nat) :
    List (List Octet) → Run (B64 × Buffer n × Nat)
  | [] => pure (b64, output, outLength)
  | input :: chunks => do
      let r ← b64DecodeBuffer b64 input output n outLength
      if r.2.2.2 = .error then pure (r.1, r.2.1, r.2.2.1)
      else b64DecodeChunks r.1 r.2.1 r.2.2.1 chunks

/-- Pass characters to `b64Decode` one by one until it returns `BASE64_EOF` or `BASE64_ERROR`: the
    state, the octets, and whether the end was an error. -/
def b64DecodeCharacters (b64 : B64) : List Ch → B64 × List Octet × Bool
  | [] => (b64, [], false)
  | x :: input =>
      match b64Decode b64 x with
      | (b64, .next) => b64DecodeCharacters b64 input
      | (b64, .error) => (b64, [], true)
      | (b64, .eof) => (b64, [], false)
      | (b64, .octet octet) =>
          let r := b64DecodeCharacters b64 input
          (r.1, octet :: r.2.1, r.2.2)

/-- Pass the values 0 to 255 of octets to `b64Decode`: the state and the octets in the end. -/
def b64DecodeAll (b64 : B64) (input : List Octet) : B64 × List Octet :=
  let r := b64DecodeCharacters b64 (input.map some)
  (r.1, r.2.1)

end Snert
