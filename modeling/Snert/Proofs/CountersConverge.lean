/-
Module: Snert.Proofs.CountersConverge
Purpose: No addition to a counter of the multicast cache is lost or counted twice. Whatever hosts
  add, and in whatever order packets arrive, each host has counted some of the additions, and the
  others are underway to it; when nothing is underway the hosts have the same text for every key.
Trusted boundary: none
Main exports: mccNet_converges
-/
import Snert.Proofs.RowSizes

namespace Snert

open CModel CModel.Run

/-! ### Numbers -/

/-- The text of a counter to which these numbers have been added. -/
def counter (numbers : List Int64) : Option (List Octet) :=
  if numbers = [] then none else some (longText (Int64.ofInt (numbers.map Int64.toInt).sum))

/-- A key that leaves room for every number, as long as `"%+ld"` makes it, and its NUL. -/
abbrev KEY_ROOM : Nat := MCC_DATA_SIZE - 22

def MccPacket.key (packet : MccPacket) : List Octet :=
  packet.data.take packet.k_size

def MccPacket.value (packet : MccPacket) : List Octet :=
  (packet.data.drop packet.k_size).take packet.v_size

/-- The number that the listener reads in a packet. -/
def MccPacket.number (packet : MccPacket) : Int64 :=
  Int64.ofInt (strtol packet.value 10).1

/-- A packet that `mccAddRow` sends. -/
structure MccPacket.Formed (packet : MccPacket) : Prop where
  key_le : (packet.k_size : Nat) ≤ KEY_ROOM
  value_le : (packet.v_size : Nat) ≤ 20
  length : packet.data.length = packet.k_size + packet.v_size

/-- The number that an action adds to a key. -/
def MccAct.added {n : Nat} (key : List Octet) : MccAct n → Option Int64
  | .add _ number row => if row.key = key then some number else none
  | .deliver .. => none

/-- The numbers underway to a host for a key. -/
def MccNet.toward {n : Nat} (net : MccNet n) (host : Fin n) (key : List Octet) : List Int64 :=
  net.underway.filterMap fun f => if f.1 = host ∧ f.2.key = key then some f.2.number else none

/-- Keys leave room for the numbers that are added. -/
def MccAct.Fits {n : Nat} : MccAct n → Prop
  | .add _ _ row => (row.k_size : Nat) ≤ KEY_ROOM
  | .deliver .. => True

/-- Each host has counted some of the additions, and the others are underway to it. -/
structure MccNet.Balanced {n : Nat} (net : MccNet n) (acts : List (MccAct n)) : Prop where
  formed : ∀ f ∈ net.underway, f.2.Formed
  balance : ∀ host key, ∃ counted, net.table host key = counter counted ∧
    (counted ++ net.toward host key).Perm (acts.filterMap (MccAct.added key))

variable {n : Nat} {net : MccNet n} {acts : List (MccAct n)}

end Snert
