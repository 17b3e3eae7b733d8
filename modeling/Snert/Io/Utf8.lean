/-
Module: Snert.Io.Utf8
Purpose: The reading and writing of characters in UTF-8 of io/utf8.c. A `wchar_t` is a signed and a
  `wint_t` an unsigned number of 32 bits. The buffer `mb` is the list of its octets, of which there
  are as many as the sequence has. The guard against NULL and writes that fail are left out.
Trusted boundary: human-reviewed spec
Main exports: WEOF, WERROR, leadStep, fgetwcUtf8
-/
import Snert.CModel.File
import Snert.CModel.Run

namespace Snert

open CModel

/-- End of file. -/
abbrev WEOF : UInt32 := 0xFFFFFFFF

/-- `(wint_t) -2`. -/
abbrev WERROR : UInt32 := 0xFFFFFFFE

/-! ### Reading -/

/-- One round of the loop over the leading bits of `x`, with its variables `mask` and `length`. -/
def leadStep (x : Octet) (st : Int8 × Nat) : Run ((Int8 × Nat) ⊕ Nat) :=
  if st.1.toUInt8 &&& x = st.1.toUInt8 then pure (.inl (st.1 >>> 1, st.2 + 1))
  else pure (.inr st.2)

/-- `fread (mb+1, 1, count, fp)`: what is read. -/
def freadOctets (count : Nat) (fp : File) : List Octet × File :=
  (fp.rest.take count, ⟨fp.rest.drop count, fp.eof || fp.rest.length < count⟩)

/-- The loop over the continuation octets. -/
def continueSequence : List Octet → UInt32 → UInt32
  | [], wc => wc
  | c :: mb, wc =>
      -- Not a 10xxxxxx continuation byte.
      if c &&& 0xC0 ≠ 0x80 then 0xFFFFFFFB
      else continueSequence mb (wc <<< 6 ||| (c &&& 0x3F).toUInt32)

/-- `fgetwc_utf8 (fp)`, within a number of rounds of the loop over the leading bits. -/
def fgetwcUtf8 (rounds : Nat) (fp : File) : Run (UInt32 × File) :=
  match fgetc fp with
  | (none, fp) => pure (WEOF, fp)
  | (some x, fp) => do
      let length ← Run.loop (leadStep x) rounds (-128, 0)
      -- 0xxxxxxx : ASCII
      if length = 0 then pure (x.toUInt32, fp)
      -- In the middle of a sequence; 0xFE and 0xFF are invalid.
      else if length = 1 ∨ length = 7 ∨ length = 8 then pure (WERROR, fp)
      else
        let (mb, fp) := freadOctets (length - 1) fp
        if mb.length ≠ length - 1 then pure (0xFFFFFFFC, fp)
        else pure (continueSequence mb (x &&& (0x00FF >>> UInt8.ofNat length)).toUInt32, fp)

/-- The values of calls of `fgetwc_utf8`, one after the other. -/
def fgetwcsUtf8 (rounds : Nat) : Nat → File → Run (List UInt32)
  | 0, _ => pure []
  | calls + 1, fp => do
      let (wc, fp) ← fgetwcUtf8 rounds fp
      let wcs ← fgetwcsUtf8 rounds calls fp
      pure (wc :: wcs)

/-! ### Writing -/

/-- The loop that fills `mb` from its end: what is left of `wc`, and the octets. -/
def putContinuation : Nat → Int32 → List Octet → Int32 × List Octet
  | 0, wc, mb => (wc, mb)
  | i + 1, wc, mb => putContinuation i (wc >>> 6) ((0x80 ||| (wc &&& 0x3F)).toUInt32.toUInt8 :: mb)

/-- The number of octets of a character that is not ASCII. All that follow have at most 31 bits. -/
def sequenceLength (wc : Int32) : Nat :=
  if wc ≤ 0x7FF then 2
  else if wc ≤ 0xFFFF then 3
  else if wc ≤ 0x1FFFFF then 4
  else if wc ≤ 0x3FFFFFF then 5
  else 6

/-- `fputwc_utf8 (wc, fp)`: the value, and the octets that are written. -/
def fputwcUtf8 (wc : Int32) : Int × List Octet :=
  if wc ≤ 0x7F then (wc.toUInt32.toUInt8.toNat, [wc.toUInt32.toUInt8])
  else
    let length := sequenceLength wc
    let (wc, mb) := putContinuation (length - 1) wc []
    let lead : Octet := ((-128 : Int32) >>> Int32.ofNat (length - 1)).toUInt32.toUInt8
    (0, (lead.toUInt32.toInt32 ||| (~~~lead.toUInt32.toInt32 &&& wc)).toUInt32.toUInt8 :: mb)

/-- The octets of characters that are written one after the other. -/
def fputwcsUtf8 (wcs : List Int32) : List Octet :=
  wcs.flatMap fun wc => (fputwcUtf8 wc).2

end Snert
