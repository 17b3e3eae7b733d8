/-
Module: Snert.Util.Vector
Purpose: The vectors of type/Vector.c, whose ranges are moved by reversals in place. A `long` has 64
  bits and wraps. `_base` is an object of `_size + 1` pointers, a NULL pointer being `none`;
  `malloc` finds memory if it is asked for less than 2^63 octets and the caller of the function here
  says so. Destroying an item does not touch the vector. `self` is not NULL; `errno` is left out.
Trusted boundary: human-reviewed spec
Main exports: PointerVector, VectorCreate, VectorReverseRange, VectorMoveRange
-/
import Snert.CModel.Run

namespace Snert

open CModel

/-- `struct vector`. `freeEntry` says whether `_free_entry` is set. -/
structure PointerVector (α : Type) where
  size : Nat
  length : Int64
  base : List (Option α)
  freeEntry : Bool
deriving DecidableEq, Repr

variable {α : Type}

/-- `base[i]`. -/
def baseRead (base : List (Option α)) (i : Int) : Run (Option α) :=
  Run.load ⟨i, 1, base.length⟩ base[i.toNat]?.join

/-- `base[i] = item`. -/
def baseWrite (base : List (Option α)) (i : Int) (item : Option α) : Run (List (Option α)) :=
  Run.store ⟨i, 1, base.length⟩ (base.set i.toNat item)

/-- `VectorCreate (capacity)`, or `none` for NULL. -/
def VectorCreate (α : Type) (capacity : Int64) (memory : Bool) : Option (PointerVector α) :=
  let capacity := if capacity < 1 then 1 else capacity.toInt.toNat
  if memory ∧ 8 * (capacity + 1) < 2 ^ 63 then
    some ⟨capacity, 0, List.replicate (capacity + 1) none, true⟩
  else none

/-! ### Reversal and movement -/

/-- The variables of the loop of `VectorReverseRange`, and the items. -/
structure RangeCursor (α : Type) where
  xp : Nat
  yp : Int
  base : List (Option α)

/-- One round of the loop of `VectorReverseRange`. -/
def rangeStep (st : RangeCursor α) : Run (RangeCursor α ⊕ List (Option α)) :=
  if st.xp < st.yp then do
    let temp ← baseRead st.base st.xp
    let last ← baseRead st.base st.yp
    let base ← baseWrite st.base st.xp last
    let base ← baseWrite base st.yp temp
    pure (.inl ⟨st.xp + 1, st.yp - 1, base⟩)
  else pure (.inr st.base)

/-- `VectorReverseRange (self, x, y)`. -/
def VectorReverseRange (self : PointerVector α) (x y : Int64) : Run (Int × PointerVector α) :=
  if x < 0 ∨ self.length ≤ x then pure (-1, self)
  else if y < 0 ∨ self.length ≤ y then pure (-1, self)
  else if y < x then pure (-1, self)
  else do
    let base ← Run.loop rangeStep (y.toInt.toNat + 1) ⟨x.toInt.toNat, y.toInt, self.base⟩
    pure (0, { self with base := base })

/-- `VectorMoveRange (self, start, finish, to)`, with `target` for `to`. What the reversals return
    is not looked at. -/
def VectorMoveRange (self : PointerVector α) (start finish target : Int64) :
    Run (Int × PointerVector α) :=
  if finish < start then pure (-1, self)
  else if target < start then do
    let out ← VectorReverseRange self target (start - 1)
    let out ← VectorReverseRange out.2 start finish
    let out ← VectorReverseRange out.2 target finish
    pure (0, out.2)
  else if finish < target ∧ target ≤ self.length then do
    let out ← VectorReverseRange self start finish
    let out ← VectorReverseRange out.2 (finish + 1) (target - 1)
    let out ← VectorReverseRange out.2 start (target - 1)
    pure (0, out.2)
  else pure (0, self)

/-! ### Removal -/

/-- How an item is destroyed: by the function of the object, or by `_free_entry`. -/
inductive DestroyCall (α : Type) where
  | destroy (obj : α)
  | freeEntry (obj : α)
deriving DecidableEq, Repr

/-- The calls for one item. -/
def destroyItem (freeEntry : Bool) : Option α → List (DestroyCall α)
  | none => []
  | some obj => [if freeEntry then .freeEntry obj else .destroy obj]

/-- The loop of `VectorRemoveSome` from `i` on, with as many rounds as there are items up to `j`. -/
def destroyItems (self : PointerVector α) : Nat → Int → Run (List (DestroyCall α))
  | 0, _ => pure []
  | rounds + 1, i => do
      let obj ← baseRead self.base i
      let calls ← destroyItems self rounds (i + 1)
      pure (destroyItem self.freeEntry obj ++ calls)

/-- What `VectorRemoveSome` returns, the vector, and the calls that it makes. -/
structure Removal (α : Type) where
  result : Int
  vector : PointerVector α
  destroyed : List (DestroyCall α)
deriving DecidableEq, Repr

/-- `VectorRemoveSome (self, index, length)`. -/
def VectorRemoveSome (self : PointerVector α) (index length : Int64) : Run (Removal α) :=
  if self.length < index + length then pure ⟨-1, self, []⟩
  else do
    let destroyed ← destroyItems self ((index + length).toInt - index.toInt).toNat index.toInt
    -- Move vacant slots to end of array.
    let out ← VectorMoveRange self index (index + length - 1) self.length
    let newLength := if out.1 = 0 then out.2.length - length else out.2.length
    -- Maintain NULL terminated array of pointers.
    let base ← baseWrite out.2.base newLength.toInt none
    pure ⟨0, { out.2 with length := newLength, base := base }, destroyed⟩

/-! ### Insertion -/

/-- `VECTOR_GROWTH`. -/
def vectorGrowth : Nat := 100

/-- What `realloc` puts behind the pointers that are there. -/
def GrownItems (α : Type) : Type :=
  { items : List (Option α) // items.length = vectorGrowth }

/-- Room for one more item, or `none` when `realloc` gives no memory. -/
def vectorRoom (self : PointerVector α) (memory : Option (GrownItems α)) :
    Option (PointerVector α) :=
  if self.length.toInt < self.size then some self
  else if 2 ^ 63 ≤ 8 * (self.size + vectorGrowth + 1) then none
  else memory.map fun fresh =>
    { self with size := self.size + vectorGrowth, base := self.base ++ fresh.1 }

/-- `VectorAdd (self, data)`. -/
def VectorAdd (self : PointerVector α) (data : Option α) (memory : Option (GrownItems α)) :
    Run (Int × PointerVector α) :=
  match data, vectorRoom self memory with
  | none, _ => pure (-1, self)
  | _, none => pure (-1, self)
  | some data, some self => do
      let base ← baseWrite self.base self.length.toInt (some data)
      -- Maintain the NULL pointer sentinel at end of pointer array.
      let base ← baseWrite base (self.length + 1).toInt none
      pure (0, { self with length := self.length + 1, base := base })

/-- `VectorInsert (self, before, data)`. -/
def VectorInsert (self : PointerVector α) (before : Int64) (data : Option α)
    (memory : Option (GrownItems α)) : Run (Int × PointerVector α) := do
  let out ← VectorAdd self data memory
  if out.1 ≠ 0 then pure (-1, out.2)
  else VectorMoveRange out.2 self.length self.length before

end Snert
