/-
Module: Snert.Pdq.List
Purpose: The record lists of net/pdq.c: looking a name up, and pruning a list of replies down to the
  hosts that can be used. Each function returns the list it leaves; for those that only look at the
  records it takes out, there is also the loop over the heap that changes a list in place.
Trusted boundary: human-reviewed spec
Main exports: PdqFound, pdqListFindName, pdqListPruneDup, pdqListPrune5A
-/
import Snert.CModel.LinkedList
import Snert.Net.Reserved
import Snert.Pdq.Record
import Snert.Util.Text

namespace Snert

open CModel

abbrev MAX_CNAME_DEPTH : Nat := 10

/-! ### `pdqListFindName` -/

/-- What a lookup returns: NULL, one of the two markers, or a record. -/
inductive PdqFound where
  | null
  | tooDeep
  | circular
  | record (rr : PdqRr)
deriving DecidableEq, Repr

/-- `PDQ_RR_IS_VALID (rr)`. -/
def PdqFound.isValid : PdqFound → Bool
  | .record _ => true
  | _ => false

/-- Is the record one of the type asked for? -/
def PdqRr.hasType (rr : PdqRr) (type : Nat) : Bool :=
  rr.type = type || type = PDQ_TYPE_ANY ||
    (type = PDQ_TYPE_5A && (rr.type = PDQ_TYPE_A || rr.type = PDQ_TYPE_AAAA))

/-- Is the record of a class asked for? -/
def PdqRr.hasClass (rr : PdqRr) (rrClass : Nat) : Bool :=
  rr.rrClass = rrClass || rrClass = PDQ_CLASS_ANY

/-- Is the record an alias for another name? -/
def PdqRr.isAlias (rr : PdqRr) : Bool :=
  rr.type = PDQ_TYPE_CNAME || rr.type = PDQ_TYPE_DNAME

/-- Is it the name of the record, with or without a trailing root label? -/
def PdqRr.hasName (rr : PdqRr) (name : List Octet) : Bool :=
  let length := textInsensitiveStartsWith rr.name.string name
  let rest := rr.name.string.drop length.toNat
  0 < length && (rest = [] || rest = [ch '.'])

/-- The loop of `pdqListFindName`. An alias changes the name that is looked for in the records behind
    it. -/
def findNameLoop (rrClass type : Nat) : List PdqRr → List Octet → List (List Octet) → PdqFound
  | [], _, _ => .null
  | rr :: list, name, cnames =>
      if rr.isQuery then findNameLoop rrClass type list name cnames
      else if rr.hasName name then
        if rr.hasClass rrClass = false then findNameLoop rrClass type list name cnames
        else if rr.hasType type then .record rr
        else if rr.isAlias then
          if MAX_CNAME_DEPTH ≤ cnames.length then .tooDeep
          -- Have we seen this host name before?
          else if (cnames ++ [name]).any (strcasecmp rr.host.string · = 0) then .circular
          else findNameLoop rrClass type list rr.host.string (cnames ++ [name])
        else findNameLoop rrClass type list name cnames
      else findNameLoop rrClass type list name cnames

/-- `pdqListFindName (list, class, type, name)`. -/
def pdqListFindName (list : List PdqRr) (rrClass type : Nat) (name : List Octet) : PdqFound :=
  findNameLoop rrClass type list name []

/-! ### Pruning -/

/-- The outer loop of `pdqListPruneDup`: every record in turn takes the records equal to it out of
    the rest. Every round takes a record off, so the length of the list bounds the rounds. -/
def pruneDupLoop : Nat → List PdqRr → List PdqRr
  | _, [] => []
  | 0, list => list
  | rounds + 1, r1 :: list => r1 :: pruneDupLoop rounds (list.filter fun r2 => !pdqEqual r1 r2)

/-- `pdqListPruneDup (list)`. -/
def pdqListPruneDup (list : List PdqRr) : List PdqRr :=
  pruneDupLoop list.length list

/-- An A or AAAA record that `pdqListPrune5A` takes out. -/
def PdqRr.isReserved (rr : PdqRr) (mask : Nat) : Bool :=
  !rr.isQuery && (rr.type = PDQ_TYPE_A || rr.type = PDQ_TYPE_AAAA) && isReservedIPv6 rr.ip mask

/-- `pdqListPrune5A (list, is_ip_mask, must_have_ip)`. The last argument has no part in it. -/
def pdqListPrune5A (list : List PdqRr) (mask : Nat) : List PdqRr :=
  list.filter fun rr => !rr.isReserved mask

/-- `pdqListPruneQuery (list)`: drop the first record and what follows it, up to the next query
    record. -/
def pdqListPruneQuery (list : List PdqRr) : List PdqRr :=
  list.tail.dropWhile fun rr => !rr.isQuery

/-- Is it a record that is no use without the address of its host? -/
def PdqRr.needsHost (rr : PdqRr) : Bool :=
  !rr.isQuery && (rr.type = PDQ_TYPE_MX || rr.type = PDQ_TYPE_NS || rr.type = PDQ_TYPE_SOA)

/-- The lookup that decides if a record stays. -/
def pdqListFindHost (list : List PdqRr) (rr : PdqRr) : PdqFound :=
  pdqListFindName list rr.rrClass PDQ_TYPE_5A rr.host.string

/-- The loop of `pdqListPruneMatch`, with the records kept so far and those still to come; together
    they are the list that names are looked up in. Every round takes a record off. -/
def pruneMatchLoop : Nat → List PdqRr → List PdqRr → List PdqRr
  | _, kept, [] => kept
  | 0, kept, list => kept ++ list
  | rounds + 1, kept, rr :: list =>
      if rr.isQuery then
        -- Discard failed queries we can't use.
        if rr.rcode ≠ PDQ_RCODE_OK then pruneMatchLoop rounds kept (pdqListPruneQuery (rr :: list))
        else pruneMatchLoop rounds (kept ++ [rr]) list
      -- Discard records we can't use (CNAME, DNAME).
      else if rr.isAlias then pruneMatchLoop rounds kept list
      -- Discard MX records without matching A/AAAA records.
      else if rr.needsHost ∧ (pdqListFindHost (kept ++ rr :: list) rr).isValid = false then
        pruneMatchLoop rounds kept list
      else pruneMatchLoop rounds (kept ++ [rr]) list

/-- `pdqListPruneMatch (list)`. -/
def pdqListPruneMatch (list : List PdqRr) : List PdqRr :=
  pruneMatchLoop list.length [] list

/-- `pdqListPrune (list, is_ip_mask)`. -/
def pdqListPrune (list : List PdqRr) (mask : Nat) : List PdqRr :=
  pdqListPruneMatch (pdqListPrune5A (pdqListPruneDup list) mask)

/-! ### In place -/

/-- Records on the heap. No loop over a list has more rounds than there are records. -/
abbrev PdqHeap : Type := Heap (Node PdqRr)

/-- The outer loop of `pdqListPruneDup`. -/
def pruneDupInPlace : Nat → PdqHeap → Ptr → Ptr → Run PdqHeap
  | _, m, _, none => pure m
  | 0, _, _, some _ => ⟨[], .diverge⟩
  | rounds + 1, m, list, some p => do
      let r1 ← m.load (some p)
      let (m, _) ← Heap.unlinkLoop (pdqEqual r1.item) true m.cells.length m list (some p) r1.next
      let r1 ← m.load (some p)
      pruneDupInPlace rounds m list r1.next

/-- `pdqListPruneDup (list)`. -/
def pdqListPruneDupInPlace (m : PdqHeap) (list : Ptr) : Run (PdqHeap × Ptr) := do
  let m ← pruneDupInPlace m.cells.length m list list
  pure (m, list)

/-- `pdqListPrune5A (list, is_ip_mask, must_have_ip)`. -/
def pdqListPrune5AInPlace (m : PdqHeap) (list : Ptr) (mask : Nat) : Run (PdqHeap × Ptr) :=
  Heap.unlinkLoop (PdqRr.isReserved · mask) true m.cells.length m list none list

/-- `pdqListPruneSection (list, section)`, where `prev` stays at `&list`. -/
def pdqListPruneSectionInPlace (m : PdqHeap) (list : Ptr) (rrSection : PdqSection) :
    Run (PdqHeap × Ptr) :=
  Heap.unlinkLoop (fun rr => rr.rrSection = rrSection) false m.cells.length m list none list

end Snert
