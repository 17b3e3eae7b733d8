/-
Module: Snert.Mcc.Active
Purpose: The connection rates and the table of active hosts of type/mcc.c. An `unsigned long` has 64
  bits and wraps. A string is its octets up to the NUL; `TextCopy` keeps what fits in front of one.
  Notes are strings. The lock, the log and the guard against NULL are left out.
Trusted boundary: human-reviewed spec
Main exports: MccInterval, mccGetRate, mccUpdateRate, MccActiveHost
-/
import Snert.Net.ParseIPv6

namespace Snert

open CModel

/-! ### Rates -/

/-- Ticks per window. -/
abbrev MCC_INTERVALS : Nat := 10

/-- Seconds per tick, of a window of 60 seconds. -/
abbrev MCC_TICK : Nat := 60 / MCC_INTERVALS

/-- `mcc_interval`. -/
structure MccInterval where
  ticks : UInt64
  count : UInt64
deriving DecidableEq, Repr

/-- The array of intervals. -/
abbrev MccIntervals : Type :=
  Fin MCC_INTERVALS → MccInterval

/-- The intervals that `memset` leaves. -/
def zeroedIntervals : MccIntervals :=
  fun _ => ⟨0, 0⟩

/-- What the loop of `mccGetRate` adds for an interval. -/
def intervalCount (ticks : UInt64) (interval : MccInterval) : UInt64 :=
  if ticks - UInt64.ofNat MCC_INTERVALS ≤ interval.ticks ∧ interval.ticks ≤ ticks then interval.count else 0

/-- `mccGetRate (intervals, ticks)`. -/
def mccGetRate (intervals : MccIntervals) (ticks : UInt64) : UInt64 :=
  (List.finRange MCC_INTERVALS).foldl (fun count i => count + intervalCount ticks (intervals i)) 0

/-- `&intervals[ticks % MCC_INTERVALS]`. -/
def currentInterval (ticks : UInt64) : Fin MCC_INTERVALS :=
  ⟨ticks.toNat % MCC_INTERVALS, Nat.mod_lt _ (by decide)⟩

/-- The update of the current interval. -/
def MccInterval.update (interval : MccInterval) (ticks : UInt64) : MccInterval :=
  let interval := if interval.ticks ≠ ticks then ⟨ticks, 0⟩ else interval
  { interval with count := interval.count + 1 }

/-- `mccUpdateRate (intervals, ticks)`: the intervals and the rate. -/
def mccUpdateRate (intervals : MccIntervals) (ticks : UInt64) : MccIntervals × UInt64 :=
  let i := currentInterval ticks
  let intervals := Function.update intervals i ((intervals i).update ticks)
  (intervals, mccGetRate intervals ticks)

/-! ### Active hosts -/

abbrev MCC_HASH_TABLE_SIZE : Nat := 512

abbrev MCC_MAX_LINEAR_PROBE : Nat := 16

/-- `mcc_active_host`. The field `ip` has `IPV6_STRING_SIZE` octets. -/
structure MccActiveHost where
  touched : Int64
  max_ppm : UInt64
  ip : List Octet
  intervals : MccIntervals
  notes : List (List Octet)

/-- `cache.active`. -/
abbrev MccActive : Type :=
  Fin MCC_HASH_TABLE_SIZE → MccActiveHost

/-- The table in static storage. -/
def zeroedActive : MccActive :=
  fun _ => ⟨0, 0, [], zeroedIntervals, []⟩

/-- `djb_hash_index (buffer, size, MCC_HASH_TABLE_SIZE)`, of the octets of a string. The size of the
    table is a power of two, and the mask of its indices gives a remainder. -/
def activeHashIndex (ip : List Octet) : Nat :=
  (ip.foldl (fun (hash : UInt64) c => ((hash <<< 5) + hash) ^^^ c.toUInt64) 5381).toNat %
    MCC_HASH_TABLE_SIZE

/-- The entry that is probed at the distance `i`. -/
def probedEntry (ip : List Octet) (i : Nat) : Fin MCC_HASH_TABLE_SIZE :=
  ⟨(activeHashIndex ip + i) % MCC_HASH_TABLE_SIZE, Nat.mod_lt _ (by decide)⟩

/-- The loop of `mccFindActive` over the entries at the distances `i` and up: the entry that is
    found, or else the one to overwrite. -/
def probeActive (active : MccActive) (ip : List Octet) :
    List Nat → Fin MCC_HASH_TABLE_SIZE → Fin MCC_HASH_TABLE_SIZE ⊕ Fin MCC_HASH_TABLE_SIZE
  | [], oldest => .inr oldest
  | i :: distances, oldest =>
      let entry := probedEntry ip i
      let oldest := if (active entry).touched = 0 then entry else oldest
      if ip = (active entry).ip then .inl entry else probeActive active ip distances oldest

/-- `mccFindActive (ip)`: the entry, and the table. -/
def mccFindActive (active : MccActive) (ip : List Octet) :
    Fin MCC_HASH_TABLE_SIZE × MccActive :=
  match probeActive active ip (List.range MCC_MAX_LINEAR_PROBE) (probedEntry ip 0) with
  | .inl entry => (entry, active)
  -- If we didn't find the entry within the linear probe distance, then overwrite the oldest.
  | .inr entry =>
      (entry, Function.update active entry { active entry with
        max_ppm := 0, ip := ip.take (IPV6_STRING_SIZE - 1), intervals := zeroedIntervals,
        notes := [] })

/-- The update of an entry. -/
def MccActiveHost.touch (entry : MccActiveHost) (touched : UInt32) : MccActiveHost :=
  let (intervals, rate) := mccUpdateRate entry.intervals (touched / UInt32.ofNat MCC_TICK).toUInt64
  { entry with
    touched := touched.toUInt64.toInt64
    intervals := intervals
    max_ppm := if entry.max_ppm < rate then rate else entry.max_ppm }

/-- `mccUpdateActive (ip, &touched)`. -/
def mccUpdateActive (active : MccActive) (ip : List Octet) (touched : UInt32) : MccActive :=
  let (entry, active) := mccFindActive active ip
  Function.update active entry ((active entry).touch touched)

end Snert
