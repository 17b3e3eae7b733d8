/-
Module: Snert.Util.Base64Encode
Purpose: The encoders of util/b64.c: one that takes an octet at a time and gives back quanta, and one
  that takes buffers and resumes a partial quantum in its output. Output is an object whose accesses
  are followed. NULL pointers are left out.
Trusted boundary: human-reviewed spec
Main exports: B64Coder, b64EncodeQuantum, b64Encode, b64EncodeOctets
-/
import Snert.CModel.Buffer
import Snert.Util.Base64

namespace Snert

open CModel

/-- The states of the encoder. -/
inductive B64EncodeState where
  | encodeA
  | encodeB
  | encodeC
deriving DecidableEq, Repr

/-- All the states of a coder: those of the decoder, `BASE64_START` among them, and those of the
    encoder. -/
inductive B64CoderState where
  | decoding (state : B64State)
  | encoding (state : B64EncodeState)
deriving DecidableEq, Repr

/-- What an encoder keeps of `B64`. The array `_quantum` is passed next to it. -/
structure B64Coder where
  hold : Nat
  state : B64CoderState
deriving DecidableEq, Repr

/-- `BASE64_PAD_CHARACTER`. -/
abbrev padCharacter : Octet := ch '='

/-- `b64Reset (b64)`: also ends the array `_quantum` by a NUL. -/
def b64ResetCoder (b64 : B64Coder) (quantum : Buffer 5) : Run (B64Coder × Buffer 5) := do
  let quantum ← quantum.write 4 [0]
  pure ({ b64 with state := .decoding .start }, quantum)

/-- `encodeSet[i]`. -/
def encodeChar (i : Nat) : Octet :=
  (encodeSet ++ [0]).getD i 0

variable {n : Nat}

/-- `_b64Encode (b64, in, quantum)`, the quantum being at index `start` of an object. Yields the state,
    the object, and whether the quantum is returned: if not, that is `NULL`. -/
def b64EncodeQuantum (b64 : B64Coder) (x : Int) (quantum : Buffer n) (start : Nat) :
    Run (B64Coder × Buffer n × Bool) :=
  match b64.state with
  | .decoding .start | .encoding .encodeA =>
      if x < -1 then do
        let quantum ← quantum.write start
          [padCharacter, padCharacter, padCharacter, padCharacter]
        pure (b64, quantum, true)
      else if x < 0 then do
        let quantum ← quantum.write start [0]
        pure (b64, quantum, true)
      else do
        let quantum ← quantum.write start [encodeChar (x.toNat >>> 2 &&& 0x3f)]
        pure (⟨x.toNat <<< 4 &&& 0x30, .encoding .encodeB⟩, quantum, false)
  | .encoding .encodeB =>
      if x < 0 then do
        let quantum ← quantum.write (start + 1 : Nat)
          [encodeChar b64.hold, padCharacter, padCharacter]
        pure (b64, quantum, true)
      else do
        let quantum ← quantum.write (start + 1 : Nat)
          [encodeChar (b64.hold ||| (x.toNat >>> 4 &&& 0xf))]
        pure (⟨x.toNat <<< 2 &&& 0x3c, .encoding .encodeC⟩, quantum, false)
  | .encoding .encodeC =>
      if x < 0 then do
        let quantum ← quantum.write (start + 2 : Nat) [encodeChar b64.hold, padCharacter]
        pure (b64, quantum, true)
      else do
        let quantum ← quantum.write (start + 2 : Nat)
          [encodeChar (b64.hold ||| (x.toNat >>> 6 &&& 0x3)), encodeChar (x.toNat &&& 0x3f)]
        pure ({ b64 with state := .encoding .encodeA }, quantum, true)
  | .decoding _ => pure (b64, quantum, false)

/-- `b64Encode (b64, in)`: the state, the array `_quantum`, and the string that is returned unless that
    is `NULL`. -/
def b64Encode (b64 : B64Coder) (quantum : Buffer 5) (x : Int) :
    Run (B64Coder × Buffer 5 × Option (List Octet)) := do
  let r ← b64EncodeQuantum b64 x quantum 0
  pure (r.1, r.2.1, if r.2.2 then some r.2.1.cstring else none)

/-- Pass octets to `b64Encode` one by one, then -1. Yields the quanta returned, joined. -/
def b64EncodeOctets (b64 : B64Coder) (quantum : Buffer 5) : List Octet → Run (List Octet)
  | [] => do
      let r ← b64Encode b64 quantum (-1)
      pure (r.2.2.getD [])
  | x :: input => do
      let r ← b64Encode b64 quantum x.toNat
      let rest ← b64EncodeOctets r.1 r.2.1 input
      pure (r.2.2.getD [] ++ rest)

/-- `b64EncodeGetOutputSize (input_length)`. -/
def b64EncodeGetOutputSize (inputLength : Nat) : Nat :=
  (inputLength + 3) / 3 * 4 + 1

/-- What the functions on buffers return. -/
inductive B64Return where
  | ok
  | next
  | error
deriving DecidableEq, Repr

/-- The loop of `b64EncodeBuffer` over its input. Yields the state, the output, and `olen`. -/
def b64EncodeInput (b64 : B64Coder) (output : Buffer n) (olen : Nat) :
    List Octet → Run (B64Coder × Buffer n × Nat)
  | [] => pure (b64, output, olen)
  | x :: input => do
      let r ← b64EncodeQuantum b64 x.toNat output olen
      b64EncodeInput r.1 r.2.1 (if r.2.2 then olen + 4 else olen) input

/-- The characters of a partial quantum that are in the output. -/
def b64PartialLength (b64 : B64Coder) : Nat :=
  match b64.state with
  | .encoding .encodeC => 2
  | .encoding .encodeB => 1
  | _ => 0

/-- The state between two quanta. -/
def b64IsFull (b64 : B64Coder) : Bool :=
  b64.state = .decoding .start || b64.state = .encoding .encodeA

/-- `b64EncodeBuffer (b64, input, in_size, output, out_size, &out_length)`: the state, the output, its
    new length, and what is returned. -/
def b64EncodeBuffer (b64 : B64Coder) (input : List Octet) (output : Buffer n)
    (outSize outLength : Nat) : Run (B64Coder × Buffer n × Nat × B64Return) :=
  if outSize = 0 then pure (b64, output, outLength, .error)
  else do
    -- The length is rolled back to the start of the last quantum, and added again at the end.
    let r ← b64EncodeInput b64 output (outLength - outLength % 4) input
    let olen := r.2.2 + b64PartialLength r.1
    let output ← r.2.1.write olen [0]
    pure (r.1, output, olen, if b64IsFull r.1 then .ok else .next)

/-- The end of `b64EncodeFinish`. -/
def b64FinishAt (b64 : B64Coder) (output : Buffer n) (olen : Nat) :
    Run (B64Coder × Buffer n × Nat × B64Return) := do
  let output ← output.write olen [0]
  pure ({ b64 with state := .encoding .encodeA }, output, olen, .ok)

/-- `b64EncodeFinish (b64, output, out_size, &out_length, mark_end)`. -/
def b64EncodeFinish (b64 : B64Coder) (output : Buffer n) (outSize outLength : Nat)
    (markEnd : Bool) : Run (B64Coder × Buffer n × Nat × B64Return) :=
  if outSize = 0 then pure (b64, output, outLength, .error)
  else
    match b64.state with
    | .decoding .start | .encoding .encodeA =>
        if outSize < outLength + 5 then pure (b64, output, outLength, .error)
        else if markEnd then do
          let output ← output.write outLength
            [padCharacter, padCharacter, padCharacter, padCharacter]
          b64FinishAt b64 output (outLength + 4)
        else b64FinishAt b64 output outLength
    | .encoding .encodeB =>
        if outSize < outLength + 3 then pure (b64, output, outLength, .error)
        else do
          let output ← output.write outLength [encodeChar b64.hold, padCharacter, padCharacter]
          b64FinishAt b64 output (outLength + 3)
    | .encoding .encodeC =>
        if outSize < outLength + 3 then pure (b64, output, outLength, .error)
        else do
          let output ← output.write outLength [encodeChar b64.hold, padCharacter]
          b64FinishAt b64 output (outLength + 2)
    | .decoding _ => b64FinishAt b64 output outLength

/-- Pass the chunks of a string to `b64EncodeBuffer` one after the other, with the whole object as
    output and the length carried over, then end by `b64EncodeFinish` without end mark. -/
def b64EncodeChunks (b64 : B64Coder) (output : Buffer n) (outLength : Nat) :
    List (List Octet) → Run (B64Coder × Buffer n × Nat × B64Return)
  | [] => b64EncodeFinish b64 output n outLength false
  | input :: chunks => do
      let r ← b64EncodeBuffer b64 input output n outLength
      b64EncodeChunks r.1 r.2.1 r.2.2.1 chunks

/-- Pass octets to `b64Decode` one by one: all that it returns. -/
def b64DecodeOctets (b64 : B64) : List Octet → List B64Result
  | [] => []
  | x :: input => (b64Decode b64 (some x)).2 :: b64DecodeOctets (b64Decode b64 (some x)).1 input

/-- What the caller of `b64Decode` takes up to `BASE64_EOF`: everything but `BASE64_NEXT`. -/
def b64Decoded (b64 : B64) (input : List Octet) : List B64Result :=
  ((b64DecodeOctets b64 input).filter (· ≠ .next)).takeWhile (· ≠ .eof)

end Snert
