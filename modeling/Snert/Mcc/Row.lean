/-
Module: Snert.Mcc.Row
Purpose: The rows of type/mcc.c: how keys and values are formatted into `data`, whose size each is
  noted in nine bits. A run keeps track of the writes into `data`. What the database answers is an
  argument, and so is what an array held before. And the hosts that add to their counters and send
  each other what they add, with the packets that are underway.
Trusted boundary: `vsnprintf` as the C standard has it, for texts of fewer than 2^31 octets. The
  digest, the times, the other bits of the sizes, the log and the sending of a row are left out.
Main exports: MccRow, mccSetKey, mccSetValue, mccPutKeyValue, mccAddRowLocal, mccAddRow, MccNet.run
-/
import Mathlib.Data.List.FinRange
import Mathlib.Logic.Function.Basic
import Snert.CModel.Buffer
import Snert.CModel.Numeral

namespace Snert

open CModel

abbrev MCC_DATA_SIZE : Nat := 488

/-- `mcc_row`: the sizes in nine bits, and the data. -/
structure MccRow where
  k_size : Fin 512
  v_size : Fin 512
  data : Buffer MCC_DATA_SIZE

inductive MccReturn where
  | ok
  | error
  | notFound
deriving DecidableEq, Repr

/-- What the database has for a key. -/
inductive MccFound where
  | failed
  | done
  | row (value : List Octet)

/-- `MCC_MASK_SIZE`. -/
def maskSize (length : Nat) : Fin 512 :=
  Fin.ofNat 512 length

/-- `MCC_GET_V_SPACE`: an `int` that is passed on as a `size_t`. -/
def MccRow.valueSpace (row : MccRow) : Nat :=
  sizeT ((MCC_DATA_SIZE : Int) - row.k_size)

def MccRow.key (row : MccRow) : List Octet :=
  row.data.octets.take row.k_size

def MccRow.value (row : MccRow) : List Octet :=
  (row.data.octets.drop row.k_size).take row.v_size

/-- What `vsnprintf` writes of a text into so much room. -/
def rowText (room : Nat) (text : List Octet) : List Octet :=
  if room = 0 then [] else text.take (room - 1) ++ [0]

/-- `mccSetKey (row, fmt, ...)`, with the text that is formatted. -/
def mccSetKey (row : MccRow) (text : List Octet) : Run (Nat × MccRow) := do
  let data ← row.data.write 0 (rowText MCC_DATA_SIZE text)
  pure (text.length, { row with data := data, k_size := maskSize text.length })

/-- `mccSetValue (row, fmt, ...)`. -/
def mccSetValue (row : MccRow) (text : List Octet) : Run (Nat × MccRow) := do
  let data ← row.data.write row.k_size.val (rowText row.valueSpace text)
  pure (text.length, { row with data := data, v_size := maskSize text.length })

/-- `mccPutKeyValue (mcc, key, value, ttl)`: its `row` is formatted as by the functions above. -/
def mccPutKeyValue (stored : MccReturn) (row : MccRow) (key value : CString) :
    Run (MccReturn × MccRow) := do
  let (_, row) ← mccSetKey row key.octets
  let (_, row) ← mccSetValue row value.octets
  pure (stored, row)

/-- `mccGetRow (mcc, row)`: the key is that of the row. -/
def mccGetRow (found : MccFound) (row : MccRow) : Run (MccReturn × MccRow) :=
  match found with
  | .failed => pure (.error, row)
  | .done => pure (.notFound, row)
  | .row value => do
      let _ ← Run.store ⟨0, row.k_size, MCC_DATA_SIZE⟩ ()
      let v_size := maskSize value.length
      let data ← row.data.write row.k_size.val (value.take v_size)
      pure (.ok, { row with data := data, v_size := v_size })

/-- `"%ld"`. -/
def longText (number : Int64) : List Octet :=
  (if number < 0 then [ch '-'] else []) ++ numeral 10 number.toInt.natAbs

/-- `mccAddRowLocal (mcc, add, row)`. -/
def mccAddRowLocal (stored : MccReturn) (found : MccFound) (add : Int64) (row : MccRow) :
    Run (MccReturn × MccRow) := do
  let put (number : Int64) (row : MccRow) : Run (MccReturn × MccRow) := do
    let (_, row) ← mccSetValue row (longText number)
    pure (stored, row)
  match ← mccGetRow found row with
  | (.ok, row) =>
      -- Room enough for a terminating NUL byte?
      if MCC_DATA_SIZE - 1 ≤ row.k_size.val + row.v_size.val then pure (.error, row)
      else
        let data ← row.data.write (row.k_size.val + row.v_size.val : Nat) [0]
        -- Get the current value.
        put (Int64.ofInt (strtol row.value 10).1 + add) { row with data := data }
  | (.notFound, row) => put add row
  | (.error, row) => pure (.error, row)

/-- A call with what the database answers. `mccPutKeyValue` has a row of its own. -/
inductive MccCall where
  | setKey (text : List Octet)
  | setValue (text : List Octet)
  | putKeyValue (stored : MccReturn) (row : MccRow) (key value : CString)
  | addRowLocal (stored : MccReturn) (found : MccFound) (add : Int64)

/-! ### Hosts -/

/-- `"%+ld"`. -/
def signedText (number : Int64) : List Octet :=
  ch (if number < 0 then '-' else '+') :: numeral 10 number.toInt.natAbs

/-- What is sent of a row, `MCC_PACKET_LENGTH` octets without the digest and the times. -/
structure MccPacket where
  k_size : Fin 512
  v_size : Fin 512
  data : List Octet

def MccRow.packet (row : MccRow) : MccPacket :=
  ⟨row.k_size, row.v_size, row.data.octets.take (row.k_size + row.v_size)⟩

/-- The values that the database of a host has for keys. -/
abbrev MccTable : Type := List Octet → Option (List Octet)

def MccTable.found (table : MccTable) (key : List Octet) : MccFound :=
  (table key).elim .done .row

/-- `mccAddRowLocal (mcc, add, row)`, with a database that does not fail and no row that expires. -/
def mccAddTable (table : MccTable) (add : Int64) (row : MccRow) : Run MccTable := do
  let (rc, row) ← mccAddRowLocal .ok (table.found row.key) add row
  pure (if rc = .ok then Function.update table row.key (some row.value) else table)

/-- `mccAddRow (mcc, add, row)`: the packet that is sent, and the table. -/
def mccAddRow (table : MccTable) (add : Int64) (row : MccRow) : Run (MccPacket × MccTable) := do
  let (_, row) ← mccSetValue row (signedText add)
  let table ← mccAddTable table add row
  pure (row.packet, table)

/-- `mcc_listener_thread`, for a packet with `MCC_CMD_ADD` that is read into a row. -/
def mccListenAdd (table : MccTable) (before : Buffer MCC_DATA_SIZE) (packet : MccPacket) :
    Run MccTable := do
  let data ← before.write 0 packet.data
  if MCC_DATA_SIZE - 1 ≤ packet.k_size.val + packet.v_size.val then pure table
  else do
    let data ← data.write (packet.k_size.val + packet.v_size.val : Nat) [0]
    let row : MccRow := ⟨packet.k_size, packet.v_size, data⟩
    mccAddTable table (Int64.ofInt (strtol row.value 10).1) row

/-- Hosts with their tables, and the packets underway to them. -/
structure MccNet (n : Nat) where
  table : Fin n → MccTable
  underway : List (Fin n × MccPacket)

/-- A host adds to a row, or some packet arrives, in an array that holds what came before. -/
inductive MccAct (n : Nat) where
  | add (host : Fin n) (number : Int64) (row : MccRow)
  | deliver (i : Nat) (before : Buffer MCC_DATA_SIZE)

/-- One call or one packet. `mccSend` sends to every other host: the loopback is disabled. -/
def MccNet.step {n : Nat} (net : MccNet n) : MccAct n → Run (MccNet n)
  | .add host number row => do
      let (packet, table) ← mccAddRow (net.table host) number row
      pure { table := Function.update net.table host table
             underway := net.underway ++
               ((List.finRange n).filter (· ≠ host)).map fun other => (other, packet) }
  | .deliver i before =>
      match net.underway[i]? with
      | none => pure net
      | some (host, packet) => do
          let table ← mccListenAdd (net.table host) before packet
          pure { table := Function.update net.table host table
                 underway := net.underway.eraseIdx i }

/-- A run of the hosts. -/
def MccNet.run {n : Nat} : MccNet n → List (MccAct n) → Run (MccNet n)
  | net, [] => pure net
  | net, act :: acts => do
      let net ← net.step act
      net.run acts

/-- Empty tables, and nothing underway. -/
def MccNet.start (n : Nat) : MccNet n :=
  ⟨fun _ _ => none, []⟩

end Snert
