/-
Module: Snert.Util.BigInt
Purpose: The arithmetic and the conversions of util/BigInt.c. A number is given by its sign and the
  `length` octets of `value` that are in use; the capacity, and what `malloc` cannot give, are left
  out. A pointer that goes down through an array is what is still before it, in reverse order.
  `none` is an access outside of an array. A length is an `int` in places, so that numbers are
  shorter than 2^31 octets. A `long` has 64 bits, and the negative of the smallest one is itself. An
  `int` does not overflow, and a `char` is signed.
Trusted boundary: human-reviewed spec
Main exports: BigInt, BigIntAdd, BigIntSubtract, BigIntMultiply
-/
import Snert.CModel.Buffer
import Snert.CModel.CString
import Snert.CModel.Run

namespace Snert

open CModel

/-- `struct bigint`. -/
structure BigInt where
  sign : Int
  value : List Octet
deriving DecidableEq, Repr

namespace BigInt

/-- `number->length`. -/
def length (number : BigInt) : Nat :=
  number.value.length

/-- `BigIntCreate (length)`. -/
def create (length : Nat) : BigInt :=
  ⟨0, List.replicate length 0⟩

/-- `leftJustify (number)`. -/
def leftJustify (number : BigInt) : BigInt :=
  match number.value.dropWhile (· = 0) with
  | [] => number
  | value => { number with value := value }

/-- `BigIntFromBigInt (orig)`. -/
def fromBigInt (orig : BigInt) : BigInt :=
  ⟨orig.sign, orig.value⟩

/-- The loop of `BigIntFromUnsignedLong`: `i` octets are still to be filled. -/
def unsignedLongOctets : Nat → UInt64 → List Octet → List Octet
  | 0, _, filled => filled
  | i + 1, value, filled => unsignedLongOctets i (value >>> 8) ((value &&& 0xff).toUInt8 :: filled)

/-- `BigIntFromUnsignedLong (value)`. -/
def fromUnsignedLong (value : UInt64) : BigInt :=
  leftJustify ⟨if 0 < value then 1 else 0, unsignedLongOctets 8 value []⟩

/-- `BigIntFromLong (value)`. -/
def fromLong (value : Int64) : BigInt :=
  if value < 0 then { fromUnsignedLong (-value).toUInt64 with sign := -1 }
  else if 0 < value then { fromUnsignedLong value.toUInt64 with sign := 1 }
  else { fromUnsignedLong value.toUInt64 with sign := 0 }

/-- `BigIntNegate (number)`. -/
def negate (number : BigInt) : BigInt :=
  ⟨-number.sign, number.value⟩

/-- The loop of `BigIntCompareAbs` over values of the same length. -/
def compareOctets : List Octet → List Octet → Int
  | a :: as, b :: bs => if a < b then -1 else if b < a then 1 else compareOctets as bs
  | _, _ => 0

/-- `BigIntCompareAbs (a, b)`. -/
def compareAbs (a b : BigInt) : Int :=
  if a.length < b.length then -1
  else if b.length < a.length then 1
  else compareOctets a.value b.value

/-- `BigIntCompare (a, b)`. -/
def compare (a b : BigInt) : Int :=
  if a.sign ≠ b.sign then a.sign - b.sign else compareAbs a b

/-! ### Sum and difference -/

/-- Add common part of both numbers. What is still before `x`, `sum`, and what is behind `z`. -/
def addCommon : List Octet → List Octet → Nat → List Octet → Option (List Octet × Nat × List Octet)
  | x, [], sum, z => some (x, sum, z)
  | [], _ :: _, _, _ => none
  | a :: x, b :: y, sum, z =>
      let sum := a.toNat + b.toNat + (sum >>> 8)
      addCommon x y sum (UInt8.ofNat sum :: z)

/-- Add carry to remainder of longer number. -/
def addCarry : List Octet → Bool → List Octet → List Octet × Bool × List Octet
  | a :: x, true, z => addCarry x (a + 1 = 0) ((a + 1) :: z)
  | x, carry, z => (x, carry, z)

/-- `add (xx, yy)`. -/
def add (xx yy : BigInt) : Option BigInt := do
  -- Swap if x is shorter.
  let (xx, yy) := if xx.length < yy.length then (yy, xx) else (xx, yy)
  let (x, sum, z) ← addCommon xx.value.reverse yy.value.reverse 0 []
  let (x, carry, z) := addCarry x (sum >>> 8 ≠ 0) z
  -- Copy remainder of longer number.
  let z := x.reverse ++ z
  -- Carry into extra space? The octet before `z` is one that `calloc` has cleared.
  let z := if carry then 1 :: z else 0 :: z
  pure (leftJustify ⟨0, z⟩)

/-- Subtract common parts of both numbers. -/
def subtractCommon : List Octet → List Octet → Int → List Octet →
    Option (List Octet × Int × List Octet)
  | x, [], diff, z => some (x, diff, z)
  | [], _ :: _, _, _ => none
  | a :: x, b :: y, diff, z =>
      let diff := (a.toNat : Int) - b.toNat + (diff >>> (8 : Nat))
      subtractCommon x y diff (UInt8.ofNat (diff % 256).toNat :: z)

/-- Subtract borrow from remainder of longer number. -/
def subtractBorrow : List Octet → Bool → List Octet → List Octet × Bool × List Octet
  | a :: x, true, z => subtractBorrow x (a - 1 = 255) ((a - 1) :: z)
  | x, borrow, z => (x, borrow, z)

/-- `subtract (xx, yy)`. -/
def subtract (xx yy : BigInt) : Option BigInt := do
  let (x, diff, z) ← subtractCommon xx.value.reverse yy.value.reverse 0 []
  let (x, _, z) := subtractBorrow x (diff >>> (8 : Nat) ≠ 0) z
  -- Copy remainder of longer number.
  let z := x.reverse ++ z
  pure (leftJustify ⟨0, 0 :: z⟩)

end BigInt

open BigInt

/-- `BigIntAdd (xx, yy)`. -/
def BigIntAdd (xx yy : BigInt) : Option BigInt :=
  if xx.sign = 0 then some (fromBigInt yy)
  else if yy.sign = 0 then some (fromBigInt xx)
  else if xx.sign = yy.sign then
    (add xx yy).map fun sum => { sum with sign := xx.sign }
  else
    let cmp := compareAbs xx yy
    (if 0 ≤ cmp then subtract xx yy else subtract yy xx).map fun sum =>
      { sum with sign := cmp * xx.sign }

/-- `BigIntSubtract (xx, yy)`. -/
def BigIntSubtract (xx yy : BigInt) : Option BigInt :=
  if xx.sign = 0 then some (negate yy)
  else if yy.sign = 0 then some (fromBigInt xx)
  else if xx.sign ≠ yy.sign then
    (add xx yy).map fun diff => { diff with sign := xx.sign }
  else
    let cmp := compareAbs xx yy
    (if 0 ≤ cmp then subtract xx yy else subtract yy xx).map fun diff =>
      { diff with sign := cmp * xx.sign }

/-! ### Product -/

namespace BigInt

/-- The inner loop of `BigIntMultiply`, for the octet `a` at index `ix`, over the first octets of
    `y` downwards. -/
def multiplyOctet (a : Octet) (ix : Nat) (y : List Octet) :
    Nat → List Octet → Nat → Option (List Octet × Nat)
  | 0, p, carry => some (p, carry)
  | iy + 1, p, carry => do
      let ip := iy + ix + 1
      let acc := a.toNat * (← y[iy]?).toNat + (← p[ip]?).toNat + carry
      multiplyOctet a ix y iy (p.set ip (UInt8.ofNat acc)) (acc >>> 8)

/-- The outer loop of `BigIntMultiply`, over the first octets of `x` downwards. -/
def multiplyOctets (x y : List Octet) : Nat → List Octet → Option (List Octet)
  | 0, p => some p
  | ix + 1, p => do
      let (p, carry) ← multiplyOctet (← x[ix]?) ix y y.length p 0
      if ix < p.length then multiplyOctets x y ix (p.set ix (UInt8.ofNat carry)) else none

end BigInt

/-- `BigIntMultiply (xx, yy)`. -/
def BigIntMultiply (xx yy : BigInt) : Option BigInt :=
  if xx.sign = 0 ∨ yy.sign = 0 then some (create 0)
  else do
    let p ← multiplyOctets xx.value yy.value xx.length (create (xx.length + yy.length)).value
    pure { leftJustify ⟨0, p⟩ with sign := xx.sign * yy.sign }

/-! ### Quotient and remainder -/

namespace BigInt

/-- The loop of `BigIntDivideByLong`: the octets of the quotient, and the remainder. -/
def divideOctets (divisor : UInt64) : List Octet → UInt64 → List Octet × UInt64
  | [], remainder => ([], remainder)
  | c :: value, remainder =>
      let remainder := remainder <<< 8 ||| c.toUInt64
      if divisor ≤ remainder then
        let (quotient, last) := divideOctets divisor value (remainder % divisor)
        ((remainder / divisor).toUInt8 :: quotient, last)
      else
        let (quotient, last) := divideOctets divisor value remainder
        (0 :: quotient, last)

end BigInt

/-- `BigIntDivideByLong (dividend, divisor)`: the quotient and the remainder. -/
def BigIntDivideByLong (dividend : BigInt) (divisor : Int64) : Option (BigInt × BigInt) :=
  -- Divide by zero error.
  if divisor = 0 then none
  else if dividend.sign = 0 then some (fromBigInt dividend, fromLong 0)
  else
    let i := compare dividend (fromLong divisor)
    if i < 0 then some (fromLong 0, fromBigInt dividend)
    else if i = 0 then some (fromLong 1, fromLong 0)
    else
      let divisorSign : Int := if divisor < 0 then -1 else 1
      let divisor := if divisor < 0 then -divisor else divisor
      let (quotient, remainder) := divideOctets divisor.toUInt64 dividend.value 0
      some ({ leftJustify ⟨0, quotient⟩ with sign := dividend.sign.tdiv divisorSign },
        fromLong remainder.toInt64)

/-! ### Conversions -/

namespace BigInt

/-! ### From octets -/

/-- Find first non-sign (0xff) byte. -/
def firstNonSign (value : List Octet) : Nat :=
  (value.takeWhile (· = 0xff)).length

/-- The second loop, with `j` from `i` on: the octet that it looks at is always that at `i`. -/
def secondScan (value : List Octet) (i : Nat) : Nat :=
  i + ((value.drop i).takeWhile fun _ => value[i]? = some 0).length

/-- The loop that adds one, over the octets from the last one on. -/
def addOne : List Octet → List Octet
  | [] => []
  | c :: value => if c + 1 = 0 then (c + 1) :: value else (c + 1) :: addOne value

/-- `changeRepresentation (number)`. -/
def changeRepresentation (number : BigInt) : BigInt :=
  let i := firstNonSign number.value
  let extra := if number.length ≤ secondScan number.value i then 1 else 0
  -- One's complement of non-sign bytes, behind the extra byte that `calloc` has cleared.
  let replace := List.replicate extra 0 ++ (number.value.drop i).map (~~~ ·)
  ⟨-1, (addOne replace.reverse).reverse⟩

end BigInt

open BigInt

/-- `BigIntFromBytes (value, length)`. -/
def BigIntFromBytes : List Octet → Option BigInt
  | [] => none
  | c :: value =>
      let number := c :: value
      if 0x80 ≤ c then some (changeRepresentation ⟨0, number⟩)
      else
        let i := (number.takeWhile (· = 0)).length
        some (leftJustify ⟨if i < number.length then 1 else 0, number⟩)

/-- `BigIntAbs (number)`. -/
def BigIntAbs (number : BigInt) : BigInt :=
  { fromBigInt number with sign := if number.sign ≠ 0 then 1 else 0 }

/-! ### To a string -/

/-- `digits`, with its NUL. -/
def digitTable : Buffer 37 :=
  ⟨ascii "0123456789abcdefghijklmnopqrstuvwxyz" ++ [0], by decide +kernel⟩

/-- Room for the digits of one octet. -/
def digitsPerByte (radix : Int) : Nat :=
  if 16 ≤ radix then 2
  else if 7 ≤ radix then 3
  else if 4 ≤ radix then 4
  else if 3 ≤ radix then 6
  else 8

/-- `number->value`. -/
def BigInt.buffer (number : BigInt) : Buffer number.length :=
  ⟨number.value, rfl⟩

/-- The variables of the first loop of `BigIntToString`, and the string. -/
structure DigitCursor (n : Nat) where
  t : Nat
  tmp : BigInt
  string : Buffer n

/-- One round of the first loop: the lowest digit of `tmp` is put. -/
def digitStep {n : Nat} (radix : Int) (st : DigitCursor n) : Run (DigitCursor n ⊕ DigitCursor n) :=
  if st.tmp.sign = 0 then pure (.inr st)
  else
    match BigIntDivideByLong st.tmp (Int64.ofInt radix) with
    -- `result` is NULL.
    | none => Run.overrun ⟨0, 2, 0⟩
    | some (quotient, remainder) => do
        let value ← remainder.buffer.read 0
        let digit ← digitTable.read (value.toNat : Int)
        let string ← st.string.write st.t [digit]
        pure (.inl ⟨st.t + 1, quotient, string⟩)

/-- The variables of the loop that reverses the string, and the string. -/
structure ReverseCursor (n : Nat) where
  s : Nat
  t : Int
  string : Buffer n

/-- One round of the loop that reverses the string. -/
def reverseStep {n : Nat} (st : ReverseCursor n) : Run (ReverseCursor n ⊕ ReverseCursor n) :=
  if st.s < st.t then do
    let ch ← st.string.read st.s
    let last ← st.string.read st.t
    let string ← st.string.write st.s [last]
    let string ← string.write st.t [ch]
    pure (.inl ⟨st.s + 1, st.t - 1, string⟩)
  else pure (.inr st)

/-- An allocated string. -/
structure Allocated where
  extent : Nat
  string : Buffer extent

/-- The minus, if there is one, behind the digits: `t` and the string. -/
def putMinus {n : Nat} (sign : Int) (st : DigitCursor n) : Run (Nat × Buffer n) :=
  if sign < 0 then do
    let string ← st.string.write st.t [ch '-']
    pure (st.t + 1, string)
  else pure (st.t, st.string)

/-- `BigIntToString (number, radix)`, or `none` for NULL. What `malloc` leaves in the memory is
    `string`. A digit takes at least one bit. -/
def BigIntToString (number : BigInt) (radix : Int)
    (string : Buffer (digitsPerByte radix * number.length + 2)) : Run (Option Allocated) :=
  if number.sign = 0 then pure (some ⟨2, ⟨ascii "0" ++ [0], by decide⟩⟩)
  else if radix < 2 ∨ 36 < radix then pure none
  else do
    let st ← Run.loop (digitStep radix) (8 * number.length + 1) ⟨0, BigIntAbs number, string⟩
    let (t, string) ← putMinus number.sign st
    let string ← string.write t [0]
    let st ← Run.loop reverseStep (t + 1) ⟨0, t - 1, string⟩
    pure (some ⟨_, st.string⟩)

end Snert
