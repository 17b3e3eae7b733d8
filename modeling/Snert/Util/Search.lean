/-
Module: Snert.Util.Search
Purpose: The searches of util/search.c for a pattern with a number of mismatches: the quick search
  of Sunday, the one of Horspool, and the one of Smith, which takes the shifts of both. A search is
  a `Run`: what it reads of the pattern, of the shift tables and of the text are accesses to objects
  of their own.
Trusted boundary: human-reviewed spec
Main exports: Pattern, qsRow, sundayInit, sundayScan
-/
import Snert.CModel.Run

namespace Snert

open CModel

/-- `Pattern`, with the shift tables `qs` by number of mismatches and by octet. -/
structure Pattern where
  pattern : List Octet
  length : Nat
  qs : List (Octet → Nat)
  max_err : Nat

/-- A row of the shift tables, after the octets of the pattern at indices below `count`. -/
def qsRow (pattern : List Octet) (k : Nat) : Nat → Octet → Nat
  | 0 => fun _ => pattern.length + 1 - k
  | i + 1 => Function.update (qsRow pattern k i) (pattern.getD i 0) (pattern.length - i - k)

/-- `sunday_init (pp, pattern, max_err)`, with memory for the tables: a row is 256 counts, which
    keeps the number of rows far below the limits of `int`. -/
def sundayInit (pattern : List Octet) (max_err : Nat) : Option Pattern :=
  if pattern.length < max_err then none
  else some {
    pattern := pattern
    length := pattern.length
    qs := (List.range (max_err + 1)).map fun k => qsRow pattern k (pattern.length - k)
    max_err := max_err }

namespace Pattern

variable (pp : Pattern) (str : List Octet)

/-- `pp->pattern[i]`. -/
def octetAt (i : Nat) : Run Octet :=
  Run.load ⟨i, 1, pp.pattern.length + 1⟩ (pp.pattern.getD i 0)

/-- `pp->qs[err][c]`, an access to a row. -/
def shiftAt (err : Nat) (c : Octet) : Run Nat :=
  Run.load ⟨err, 1, pp.qs.length⟩ (pp.qs.getD err (fun _ => 0) c)

end Pattern

/-- `str[i]`, of a text and its NUL. -/
def strAt (str : List Octet) (i : Int) : Run Octet :=
  Run.load ⟨i, 1, str.length + 1⟩ (str.getD i.toNat 0)

/-- The loop over the pattern, with `count` of its octets still to be compared. Yields `err` and
    `delta`. -/
def sundayScan (pp : Pattern) (str : List Octet) (offset : Nat) :
    Nat → Nat → Nat → Run (Nat × Nat)
  | 0, err, delta => pure (err, delta)
  | count + 1, err, delta => do
      if ¬ err ≤ pp.max_err then return (err, delta)
      let i := pp.length - (count + 1)
      let t ← strAt str (offset + i : Nat)
      let p ← pp.octetAt i
      if t ≠ p then
        let c ← strAt str ((offset + pp.length : Nat) - err)
        let shift ← pp.shiftAt err c
        sundayScan pp str offset count (err + 1) (min delta shift)
      else sundayScan pp str offset count err delta

/-- One round of the loop over the offsets. -/
def sundayRound (pp : Pattern) (str : List Octet) (len offset : Nat) : Run (Nat ⊕ Int) := do
  if ¬ offset + pp.length ≤ len then return .inr (-1)
  let (err, delta) ← sundayScan pp str offset pp.length 0 (pp.length + 1 - pp.max_err)
  if err ≤ pp.max_err then return .inr offset
  return .inl (offset + delta)

/-- `sunday_search (pp, str, len)`. Each round moves on, so one for each octet and the NUL is
    enough. -/
def sundaySearch (pp : Pattern) (str : List Octet) (len : Nat) : Run Int :=
  Run.loop (sundayRound pp str len) (len + 2) 0

/-! ### The searches of Horspool and Smith -/

/-- `Pattern`, with the shift tables `bm` as well. -/
structure BmPattern extends Pattern where
  bm : List (Octet → Nat)

/-- A row of the shift tables `bm`, after the octets of the pattern at indices below `count`. -/
def bmRow (pattern : List Octet) (k : Nat) : Nat → Octet → Nat
  | 0 =>
      Function.update (fun _ => pattern.length) (pattern.getD (pattern.length - 1 - k) 0)
        (pattern.length - k)
  | i + 1 =>
      Function.update (bmRow pattern k i) (pattern.getD i 0) (pattern.length - 1 - k - i)

/-- The tables of `horspool_init`. -/
def bmTables (pattern : List Octet) (max_err : Nat) : List (Octet → Nat) :=
  (List.range (max_err + 1)).map fun k => bmRow pattern k (pattern.length - 1 - k)

/-- `horspool_init (pp, pattern, max_err)`, with memory for the tables. -/
def horspoolInit (pattern : List Octet) (max_err : Nat) : Option BmPattern :=
  if pattern.length ≤ max_err then none
  else some {
    pattern := pattern
    length := pattern.length
    qs := []
    max_err := max_err
    bm := bmTables pattern max_err }

/-- `smith_init (pp, pattern, max_err)`. -/
def smithInit (pattern : List Octet) (max_err : Nat) : Option BmPattern := do
  let horspool ← horspoolInit pattern max_err
  let sunday ← sundayInit pattern max_err
  return { sunday with bm := horspool.bm }

/-- `pp->bm[err][c]`, an access to a row. -/
def BmPattern.bmAt (pp : BmPattern) (err : Nat) (c : Octet) : Run Nat :=
  Run.load ⟨err, 1, pp.bm.length⟩ (pp.bm.getD err (fun _ => 0) c)

/-- The loop of `horspool_search` over the pattern, from its end, with `count` of its octets still
    to be compared. Yields `err` and `delta`. -/
def horspoolScan (pp : BmPattern) (str : List Octet) (offset : Nat) :
    Nat → Nat → Nat → Run (Nat × Nat)
  | 0, err, delta => pure (err, delta)
  | i + 1, err, delta => do
      if ¬ err ≤ pp.max_err then return (err, delta)
      let t ← strAt str (offset + i : Nat)
      let p ← pp.octetAt i
      if t ≠ p then
        let m := pp.length - 1
        let last ← strAt str (offset + m : Nat)
        let shift ← pp.bmAt err last
        let before ← strAt str ((offset + m : Nat) - 1)
        let shift' ← pp.bmAt err before
        horspoolScan pp str offset i (err + 1) (min (min delta shift) shift')
      else horspoolScan pp str offset i err delta

/-- One round of the loop over the offsets. -/
def horspoolRound (pp : BmPattern) (str : List Octet) (len offset : Nat) : Run (Nat ⊕ Int) := do
  if ¬ offset + pp.length ≤ len then return .inr (-1)
  let (err, delta) ← horspoolScan pp str offset pp.length 0 (pp.length - pp.max_err)
  if err ≤ pp.max_err then return .inr offset
  return .inl (offset + delta)

/-- `horspool_search (pp, str, len)`. Each round moves on, so one for each octet and the NUL is
    enough. -/
def horspoolSearch (pp : BmPattern) (str : List Octet) (len : Nat) : Run Int :=
  Run.loop (horspoolRound pp str len) (len + 2) 0

/-- The loop of `smith_search` over the pattern, with `count` of its octets still to be compared.
    Yields `err` and `delta`. The `int` of the shift holds the length of any pattern below 2^31. -/
def smithScan (pp : BmPattern) (str : List Octet) (offset : Nat) :
    Nat → Nat → Nat → Run (Nat × Nat)
  | 0, err, delta => pure (err, delta)
  | count + 1, err, delta => do
      if ¬ err ≤ pp.max_err then return (err, delta)
      let i := pp.length - (count + 1)
      let t ← strAt str (offset + i : Nat)
      let p ← pp.octetAt i
      if t ≠ p then
        let last ← strAt str ((offset + pp.length : Nat) - 1 - err)
        let bm ← pp.bmAt err last
        let behind ← strAt str ((offset + pp.length : Nat) - err)
        let qs ← pp.shiftAt err behind
        smithScan pp str offset count (err + 1) (min delta (max bm qs))
      else smithScan pp str offset count err delta

/-- One round of the loop over the offsets. -/
def smithRound (pp : BmPattern) (str : List Octet) (len offset : Nat) : Run (Nat ⊕ Int) := do
  if ¬ offset + pp.length ≤ len then return .inr (-1)
  let (err, delta) ← smithScan pp str offset pp.length 0 (pp.length + 1 - pp.max_err)
  if err ≤ pp.max_err then return .inr offset
  return .inl (offset + delta)

/-- `smith_search (pp, str, len)`. Each round moves on, so one for each octet and the NUL is
    enough. -/
def smithSearch (pp : BmPattern) (str : List Octet) (len : Nat) : Run Int :=
  Run.loop (smithRound pp str len) (len + 2) 0

end Snert
