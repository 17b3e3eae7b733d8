/-
Module: Snert.Mail.Smdb
Purpose: The lookups of mail/smdb.c under a single key, by mail address and by domain. The keys are
  carved out of one block, whose accesses are followed; the map is what `fetch` gives for a key. Left
  out are the log, guards against NULL, a failing `malloc`, the reduction of IP addresses, and the
  access code that is looked up for a value. The caller passes a `keyp` that is not NULL.
Trusted boundary: human-reviewed spec
Main exports: FetchResult, KvmData, reduceDomain, reduceMail
-/
import Snert.Mail.ParsePath
import Snert.Util.Text

namespace Snert

open CModel

/-- What a map gives for a key: `SMDB_OK` with a value, `SMDB_NOT_FOUND` or `SMDB_ERROR`. -/
inductive FetchResult where
  | ok (value : List Octet)
  | notFound
  | error
deriving DecidableEq, Repr

/-- `kvm_data` of a key: where it begins in the block, and its size. -/
structure KvmData where
  data : Nat
  size : Int
deriving DecidableEq, Repr

/-- `strcspn (block + i, set)`, which reads up to the octet it stops at. -/
def scanTo {n : Nat} (block : Buffer n) (i : Nat) (set : List Octet) : Run Nat :=
  let text := block.octets.drop i
  let span := (text.takeWhile fun c => c ≠ 0 ∧ c ∉ set).length
  if span < text.length then Run.load ⟨i, span + 1, n⟩ span else Run.overrun ⟨i, span + 1, n⟩

/-! ### Reductions -/

section

variable {n : Nat}

/-- `reduceDomain (prefix, key)`: reduce a domain one label at a time from left to right. -/
def reduceDomain (tagLen : Nat) (block : Buffer n) (key : KvmData) :
    Run (Bool × Buffer n × KvmData) :=
  if (tagLen : Int) < key.size then do
    let base := key.data + tagLen
    let first ← block.read base
    let span ← scanTo block base (if first = ch '[' then [ch ']'] else [ch '.'])
    -- Include delimiter as well.
    let stop ← block.read ((base + span : Nat) : Int)
    let span := if stop ≠ 0 then span + 1 else span
    -- Now are we at the end of string?
    let stop ← block.read ((base + span : Nat) : Int)
    let eos := if stop = 0 then 1 else 0
    -- Move the tag up and erase the null byte if we're at the end of the string.
    let data := base + span + eos - tagLen
    let block ← block.move data key.data tagLen
    pure ((tagLen : Int) < key.size - span, block, ⟨data, key.size - span⟩)
  else pure (false, block, key)

/-- `reduceMail (prefix, key)`. -/
def reduceMail (tagLen : Nat) (block : Buffer n) (key : KvmData) :
    Run (Bool × Buffer n × KvmData) := do
  let last ← block.read (key.data + key.size - 1)
  if last = ch '@' then pure (false, block, key)
  else
    let base := key.data + tagLen
    let span ← scanTo block base [ch '@']
    let stop ← block.read ((base + span : Nat) : Int)
    if stop = ch '@' then do
      let span := span + 1
      let data := base + span - tagLen
      let block ← block.move data key.data tagLen
      pure (true, block, ⟨data, key.size - span⟩)
    else do
      let (more, block, key) ← reduceDomain tagLen block key
      if more then pure (true, block, key)
      else
        let size ← scanTo block key.data []
        pure ((tagLen : Int) < size, block, { key with size := size })

/-- The functions that `singleKey` is given here. -/
inductive ReduceKey where
  | domain
  | mail
deriving DecidableEq, Repr

/-- The call of the function. -/
def ReduceKey.call (reduceKey : ReduceKey) (tagLen : Nat) (block : Buffer n) (key : KvmData) :
    Run (Bool × Buffer n × KvmData) :=
  match reduceKey with
  | .domain => reduceDomain tagLen block key
  | .mail => reduceMail tagLen block key

/-! ### The block -/

/-- `TextLower (block + i, length)`. -/
def lowerText (block : Buffer n) (i length : Nat) : Run (Buffer n) :=
  let text := stringAt block i
  if text.length < length ∧ n ≤ i + text.length then
    Run.overrun ⟨i, text.length + 1, n⟩
  else
    block.write i ((text.take length).map tolower)

/-- The loop over a mail address: `span` and `plus_sign` behind it. -/
def scanLocal : List Octet → Nat → Nat → Nat × Nat
  | [], span, plusSign => (span, plusSign)
  | c :: key, span, plusSign =>
      if c = ch '@' then (span, plusSign)
      else scanLocal key (span + 1) (if c = ch '+' then span else plusSign)

/-- Join the tag and key into a new string, and put the account behind a mail address. -/
def joinKey (reduceKey : ReduceKey) (block : Buffer n) (tag1 key1 : List Octet) :
    Run (Buffer n × KvmData) := do
  let strLen := tag1.length + key1.length
  let (block, _) ← textCopy block 0 (tag1.length + 1) tag1
  let (block, _) ← textCopy block (tag1.length : Nat) (key1.length + 1) key1
  let block ← lowerText block 0 strLen
  match reduceKey with
  | .domain => pure (block, ⟨0, strLen⟩)
  | .mail =>
      let (span, plusSign) := scanLocal key1 0 0
      let unqualified := 0 < key1.length ∧ span = key1.length
      let span := if 0 < plusSign then plusSign else span
      if unqualified then do
        -- Convert unqualified address.
        let block ← block.write ((tag1.length + span : Nat) : Int) [ch '@']
        let block ← block.write ((tag1.length + span + 1 : Nat) : Int) [0]
        pure (block, ⟨0, tag1.length + span + 1⟩)
      else do
        let block ← block.write ((strLen + span + 1 : Nat) : Int) [ch '@']
        let block ← block.write ((strLen + span + 2 : Nat) : Int) [0]
        let block ← block.write ((strLen + 1 : Nat) : Int) (key1.take span)
        let block ← lowerText block (strLen + 1) span
        pure (block, ⟨0, strLen⟩)

end

/-! ### The lookup -/

/-- What `singleKey` returns and passes back, and the keys that it has fetched, in order. -/
structure SingleKey where
  rc : FetchResult
  key : Option (List Octet)
  value : Option (List Octet)
  fetched : List (List Octet)
deriving DecidableEq, Repr

/-- A round of the loop of `singleKey`. -/
def singleKeyStep {n : Nat} (fetch : List Octet → FetchResult) (reduceKey : ReduceKey)
    (tag1 : List Octet) (s : Buffer n × KvmData × List (List Octet)) :
    Run (Buffer n × KvmData × List (List Octet) ⊕ SingleKey) := do
  let (block, k, fetched) := s
  let block ← block.write (k.data + k.size) [0]
  let octets ← Run.load ⟨k.data, k.size.toNat, n⟩ ((block.octets.drop k.data).take k.size.toNat)
  let fetched := fetched ++ [octets]
  match fetch octets with
  | .error =>
      pure (.inr ⟨.error, some (tag1 ++ ascii "invalid"), some (ascii "TEMPFAIL"), fetched⟩)
  | .ok value => pure (.inr ⟨.ok value, some (stringAt block k.data), some value, fetched⟩)
  | .notFound => do
      let (more, block, k) ← reduceKey.call tag1.length block k
      if more then pure (.inl (block, k, fetched))
      else pure (.inr ⟨.notFound, none, none, fetched⟩)

/-- The octets that are allocated. -/
def blockOctets (tag1 key1 : List Octet) : Nat :=
  (tag1.length + key1.length) + (tag1.length + key1.length) + 2

/-- `singleKey (sm, keyp, valuep, tag1, key1, reduceKey)`, with what is in the memory that `malloc`
    hands out. No round leaves the key where it was. -/
def singleKey (fetch : List Octet → FetchResult) (reduceKey : ReduceKey) (tag1 key1 : CString)
    (memory : Buffer (blockOctets tag1.octets key1.octets)) : Run SingleKey := do
  let (block, k) ← joinKey reduceKey memory tag1.octets key1.octets
  Run.loop (singleKeyStep fetch reduceKey tag1.octets)
    (blockOctets tag1.octets key1.octets + 1) (block, k, [])

/-- `smdbAccessDomain (sm, tag, key, keyp, valuep)`, up to the access code. -/
def smdbAccessDomain (fetch : List Octet → FetchResult) (tag key : CString)
    (memory : Buffer (blockOctets tag.octets key.octets)) : Run SingleKey :=
  singleKey fetch .domain tag key memory

/-- `smdbAccessMail (sm, tag, key, keyp, valuep)`, up to the access code. -/
def smdbAccessMail (fetch : List Octet → FetchResult) (tag key : CString)
    (memory : Buffer (blockOctets tag.octets key.octets)) : Run SingleKey :=
  singleKey fetch .mail tag key memory

end Snert
