/-
Module: Snert.Util.TextJoin
Purpose: `TextJoin` of util/TextJoin.c on the buffer of util/Buf.c. The octets of a buffer are
  followed as far as its length. What memory there is, is an argument; `realloc` of zero octets
  frees and gives NULL, and freeing twice is a crash. A `size_t` has 64 bits.
Trusted boundary: `BufCreate` does not fail, and no string is NULL.
Main exports: TextBuf, textJoin
-/
import Snert.CModel.Buffer
import Snert.Util.CgiRead

namespace Snert

open CModel

/-- `Buf`: its `size`, the size of the object at `bytes` unless it is freed, and the octets. -/
structure TextBuf where
  size : Nat
  object : Option Nat
  octets : List Octet

/-- A store into `bytes`. -/
def TextBuf.store (a : TextBuf) (first count : Nat) : Run Unit :=
  Run.store ⟨first, count, a.object.getD 0⟩ ()

/-- `BufSetSize (a, length)`: whether it succeeds. -/
def bufSetSize (memory : Nat → Bool) (a : TextBuf) (length : Nat) : Bool × TextBuf :=
  if a.size < length then
    let capacity := (length / BUF_GROWTH + 1) * BUF_GROWTH % 2 ^ 64
    if capacity = 0 then (false, { a with object := none })
    else if memory capacity then (true, { a with size := capacity, object := some capacity })
    else (false, a)
  else (true, a)

/-- `BufAddString (a, s)`. -/
def bufAddString (memory : Nat → Bool) (a : TextBuf) (s : List Octet) : Run TextBuf :=
  if s = [] then pure a
  else
    -- Make sure we have enough room for the data and a null byte.
    let (ok, a) := bufSetSize memory a ((a.octets.length + s.length + 1) % 2 ^ 64)
    if ok = false then pure a
    else do
      a.store a.octets.length s.length
      let a := { a with octets := a.octets ++ s }
      a.store a.octets.length 1
      pure a

/-- `BufSetLength (a, len)`: what is behind the octets is not followed. -/
def bufSetLength (memory : Nat → Bool) (a : TextBuf) (len : Nat) : Run TextBuf :=
  let (ok, a) := bufSetSize memory a ((len + 1) % 2 ^ 64)
  if ok = false then pure a
  else do
    a.store len 1
    pure { a with octets := a.octets.take len }

/-- `BufToString (a)`. -/
def bufToString (memory : Nat → Bool) (a : TextBuf) : Run (Option (List Octet)) :=
  if memory (a.octets.length + 1) then
    Run.load ⟨0, a.octets.length, a.object.getD 0⟩ (some a.octets)
  else pure none

/-- `BufDestroy (a)`. -/
def bufDestroy (a : TextBuf) : Run Unit :=
  match a.object with
  | none => Run.overrun ⟨0, 1, 0⟩
  | some _ => pure ()

/-- The loop over the strings. -/
def joinLoop (memory : Nat → Bool) (delim : List Octet) :
    List (List Octet) → TextBuf → Run TextBuf
  | [], collector => pure collector
  | s :: strings, collector => do
      let collector ← bufAddString memory collector s
      let collector ← bufAddString memory collector delim
      joinLoop memory delim strings collector

/-- `TextJoin (delim, strings)`. -/
def textJoin (memory : Nat → Bool) (delim : List Octet) (strings : List (List Octet)) :
    Run (Option (List Octet)) := do
  let collector ← joinLoop memory delim strings ⟨100, some 100, []⟩
  let collector ← bufSetLength memory collector
    (sizeT ((collector.octets.length : Int) - delim.length))
  let s ← bufToString memory collector
  bufDestroy collector
  pure s

end Snert
