/-
Module: Snert.Util.StringHash
Purpose: The hash table of type/hash2.c, from strings to values. A collision chain is a list of its
  items, and a link to an item is its position in the chain, or the end of the chain. The calls that
  free a value are recorded; allocations that fail and the guards against NULL are left out.
Trusted boundary: human-reviewed spec
Main exports: djbHashIndex, HashItem, StringHash, hashCreateSize
-/
import Snert.CModel.CString

namespace Snert

open CModel

/-- `djb_hash_index (key, klen, table_size)`. -/
def djbHashIndex (key : List Octet) (klen table_size : Nat) : Nat :=
  (((key.takeWhile (· ≠ 0)).take klen).foldl
    (fun (hash : UInt64) c => ((hash <<< 5) + hash) ^^^ c.toUInt64) 5381).toNat % table_size

/-- `struct hash_item`. -/
structure HashItem (V : Type) where
  key : List Octet
  value : V
deriving DecidableEq, Repr

/-- `Hash`, with the values that were given to `_free_value`. -/
structure StringHash (V : Type) where
  base : Nat → List (HashItem V)
  size : Nat
  length : Nat
  freed : List V

variable {V : Type}

/-- `hash_create_size (prime_size)`. -/
def hashCreateSize (V : Type) (prime_size : Nat) : StringHash V where
  base := fun _ => []
  size := prime_size
  length := 0
  freed := []

/-- The loop of `hash_fetch`. Yields the position of the link at which it stops. -/
def chainPosition (key : List Octet) (klen : Nat) : List (HashItem V) → Nat
  | [] => 0
  | curr :: next => if strncmp key curr.key klen = 0 then 0 else chainPosition key klen next + 1

/-- `hash_fetch (self, key, klen)`: the chain, and the position of the link in it. -/
def hashFetch (self : StringHash V) (key : List Octet) (klen : Nat) : Run (Nat × Nat) := do
  let hash := djbHashIndex key klen self.size
  let chain ← Run.load ⟨hash, 1, self.size⟩ (self.base hash)
  return (hash, chainPosition key klen chain)

/-- `hash_getk (self, key, klen)`. The link is never NULL, but it may be a link to NULL. -/
def hashGetk (self : StringHash V) (key : List Octet) (klen : Nat) : Run (Option V) := do
  let (hash, item) ← hashFetch self key klen
  match (self.base hash)[item]? with
  | some curr => return some curr.value
  | none => Run.overrun ⟨0, 1, 0⟩

/-- `hash_removek (self, key, klen)`. -/
def hashRemovek (self : StringHash V) (key : List Octet) (klen : Nat) :
    Run (Int × StringHash V) := do
  let (hash, prev) ← hashFetch self key klen
  match (self.base hash)[prev]? with
  | none => return (-1, self)
  | some curr =>
      return (0, { self with
        base := Function.update self.base hash ((self.base hash).eraseIdx prev)
        length := self.length - 1
        freed := self.freed ++ [curr.value] })

/-- `hash_putk (self, key, klen, value)`. -/
def hashPutk [DecidableEq V] (self : StringHash V) (key : List Octet) (klen : Nat) (value : V) :
    Run (Int × StringHash V) := do
  let (hash, prev) ← hashFetch self key klen
  match (self.base hash)[prev]? with
  | none =>
      return (0, { self with
        base := Function.update self.base hash
          (self.base hash ++ [{ key := (key.takeWhile (· ≠ 0)).take klen, value := value }])
        length := self.length + 1 })
  | some curr =>
      return (0, { self with
        base := Function.update self.base hash
          ((self.base hash).set prev { curr with value := value })
        freed := if value ≠ curr.value then self.freed ++ [curr.value] else self.freed })

/-! ### Calls -/

/-- A call with a key and its length. -/
inductive StringHashCall (V : Type) where
  | put (key : List Octet) (value : V)
  | get (key : List Octet)
  | remove (key : List Octet)
deriving DecidableEq, Repr

/-- What a call returns. -/
inductive StringHashAnswer (V : Type) where
  | code (result : Int)
  | value (value : Option V)
deriving DecidableEq, Repr

/-- The key of a call. -/
def StringHashCall.key : StringHashCall V → List Octet
  | .put key _ => key
  | .get key => key
  | .remove key => key

/-- The call, made on a table. -/
def StringHash.call [DecidableEq V] (self : StringHash V) :
    StringHashCall V → Run (StringHashAnswer V × StringHash V)
  | .put key value => do
      let (result, self) ← hashPutk self key key.length value
      return (.code result, self)
  | .get key => do
      let value ← hashGetk self key key.length
      return (.value value, self)
  | .remove key => do
      let (result, self) ← hashRemovek self key key.length
      return (.code result, self)

end Snert
