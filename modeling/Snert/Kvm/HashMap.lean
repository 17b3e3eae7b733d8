/-
Module: Snert.Kvm.HashMap
Purpose: The hash map of type/kvm.c, with the hash function that is compiled in. An entry is a key
  and a value; what `memcmp` and the sizes compare are octet strings. Memory is found, and in the
  functions of the second part it may be refused. What the call-back of a walk gets besides the
  entry is its own data; it answers one of the three values that kvm.h documents and does not write
  to the entry. The lock, the cursor and the guards against NULL are left out.
Trusted boundary: human-reviewed spec
Main exports: KvmResult, hashIndex, KvmHash, KvmHashTable
-/
import Snert.CModel.CString

namespace Snert

open CModel

/-- `kvm_result`, and `KVM_EOF`. -/
inductive KvmResult where
  | ok
  | error
  | notFound
  | eof
deriving DecidableEq, Repr

/-- The size of the table is a power of 2. -/
abbrev TABLE_SIZE : Nat := 8 * 1024

/-- `hash_index (buffer, size)`: D.J. Bernstein's hash, version 2. -/
def hashIndex (buffer : List Octet) : Fin TABLE_SIZE :=
  Fin.ofNat TABLE_SIZE <|
    (buffer.foldl (fun (hash : UInt64) c => ((hash <<< 5) + hash) ^^^ c.toUInt64) 5381).toNat

/-- `kvm_hash`: an entry of a chain. -/
structure KvmHash where
  key : List Octet
  value : List Octet
deriving DecidableEq, Repr

/-! ### One chain -/

/-- The loop of `kvm_fetch_hash`. -/
def chainFetch (key : List Octet) : List KvmHash → Option (List Octet)
  | [] => none
  | entry :: next => if key = entry.key then some entry.value else chainFetch key next

/-- The loop of `kvm_put_hash`, and the new entry at the place where it has stopped. -/
def chainPut (key value : List Octet) : List KvmHash → List KvmHash
  | [] => [⟨key, value⟩]
  | entry :: next =>
      if key = entry.key then ⟨key, value⟩ :: next else entry :: chainPut key value next

/-- The loop of `kvm_remove_hash`. -/
def chainRemove (key : List Octet) : List KvmHash → Option (List KvmHash)
  | [] => none
  | entry :: next =>
      if key = entry.key then some next else (chainRemove key next).map (entry :: ·)

theorem mem_keys_chainPut {key key' value : List Octet} {chain : List KvmHash} :
    key' ∈ (chainPut key value chain).map KvmHash.key ↔
      key' = key ∨ key' ∈ chain.map KvmHash.key := by
  induction chain with
  | nil => simp [chainPut]
  | cons entry next ih =>
      rw [chainPut]
      split
      · rename_i heq
        simp [heq]
      · rw [List.map_cons, List.mem_cons, ih, List.map_cons, List.mem_cons]
        tauto

theorem nodup_chainPut {key : List Octet} (value : List Octet) {chain : List KvmHash}
    (h : (chain.map KvmHash.key).Nodup) : ((chainPut key value chain).map KvmHash.key).Nodup := by
  induction chain with
  | nil => exact List.nodup_singleton _
  | cons entry next ih =>
      rw [List.map_cons, List.nodup_cons] at h
      rw [chainPut]
      split
      · rename_i heq
        rw [List.map_cons, List.nodup_cons, heq]
        exact h
      · rename_i hne
        rw [List.map_cons, List.nodup_cons, mem_keys_chainPut]
        exact ⟨not_or.mpr ⟨Ne.symm hne, h.1⟩, ih h.2⟩

theorem chainRemove_sublist {key : List Octet} {chain rest : List KvmHash}
    (h : chainRemove key chain = some rest) : rest.Sublist chain := by
  induction chain generalizing rest with
  | nil => exact nomatch h
  | cons entry next ih =>
      rw [chainRemove] at h
      split at h
      · cases h
        exact List.sublist_cons_self _ _
      · obtain ⟨rest', hrest, rfl⟩ := Option.map_eq_some_iff.mp h
        exact (ih hrest).cons_cons _

/-! ### The table -/

/-- `kvm_hash_table`: a chain for each index, that holds a key at most once. -/
structure KvmHashTable where
  table : Fin TABLE_SIZE → List KvmHash
  nodup : ∀ hash, ((table hash).map KvmHash.key).Nodup

namespace KvmHashTable

/-- A table without entries. -/
def empty : KvmHashTable :=
  ⟨fun _ => [], fun _ => List.nodup_nil⟩

/-- The table with another chain. -/
def withChain (map : KvmHashTable) (hash : Fin TABLE_SIZE) (chain : List KvmHash)
    (h : (chain.map KvmHash.key).Nodup) : KvmHashTable where
  table := fun i => if i = hash then chain else map.table i
  nodup := fun i => by
    by_cases hi : i = hash
    · rwa [if_pos hi]
    · rw [if_neg hi]
      exact map.nodup i

end KvmHashTable

/-- `kvm_fetch_hash (self, key, value)`: the value, or `none` for `KVM_NOT_FOUND`. -/
def kvmFetchHash (self : KvmHashTable) (key : List Octet) : Option (List Octet) :=
  chainFetch key (self.table (hashIndex key))

/-- `kvm_get_hash (self, key, value)`: the value that is given is a copy. -/
def kvmGetHash (self : KvmHashTable) (key : List Octet) : KvmResult × Option (List Octet) :=
  match kvmFetchHash self key with
  | none => (.notFound, none)
  | some v => (.ok, some v)

/-- `kvm_put_hash (self, key, value)`. -/
def kvmPutHash (self : KvmHashTable) (key value : List Octet) : KvmResult × KvmHashTable :=
  (.ok, self.withChain (hashIndex key) (chainPut key value (self.table (hashIndex key)))
    (nodup_chainPut value (self.nodup _)))

/-- `kvm_remove_hash (self, key)`. -/
def kvmRemoveHash (self : KvmHashTable) (key : List Octet) : KvmResult × KvmHashTable :=
  match h : chainRemove key (self.table (hashIndex key)) with
  | none => (.notFound, self)
  | some chain => (.ok, self.withChain (hashIndex key) chain
      ((self.nodup _).sublist ((chainRemove_sublist h).map KvmHash.key)))

/-! ### Calls -/

/-- A call of one of the three methods. -/
inductive KvmCall where
  | put (key value : List Octet)
  | get (key : List Octet)
  | remove (key : List Octet)
deriving DecidableEq, Repr

/-- What a call returns: the code, and the value if it gives one. -/
abbrev KvmAnswer : Type :=
  KvmResult × Option (List Octet)

/-- The call, made on the map itself. -/
def KvmHashTable.call (map : KvmHashTable) : KvmCall → KvmAnswer × KvmHashTable
  | .put key value => (((kvmPutHash map key value).1, none), (kvmPutHash map key value).2)
  | .get key => (kvmGetHash map key, map)
  | .remove key => (((kvmRemoveHash map key).1, none), (kvmRemoveHash map key).2)

/-- The calls of a session, made on the map itself one after the other. -/
def KvmHashTable.session (map : KvmHashTable) : List KvmCall → List KvmAnswer × KvmHashTable
  | [] => ([], map)
  | call :: calls =>
      let (answer, map) := map.call call
      let (answers, map) := session map calls
      (answer :: answers, map)

/-! ### Refused memory, walks and truncation -/

/-! ### Memory -/

/-- `kvm_get_hash (self, key, value)`, where `allocated` says whether there is memory for the
    copy. -/
def kvmGetHashMem (allocated : Bool) (self : KvmHashTable) (key : List Octet) :
    KvmResult × Option (List Octet) :=
  match kvmFetchHash self key with
  | none => (.notFound, none)
  | some v => if allocated then (.ok, some v) else (.error, none)

/-- `kvm_put_hash (self, key, value)`, where `allocated` says whether there is memory for the
    new entry. -/
def kvmPutHashMem (allocated : Bool) (self : KvmHashTable) (key value : List Octet) :
    KvmResult × KvmHashTable :=
  if allocated then
    kvmPutHash self key value
  else
    -- The loop has unlinked and freed the current entry by then.
    (.error, (kvmRemoveHash self key).2)

/-! ### Walk -/

/-- What the call-back of a walk returns. -/
inductive WalkAnswer where
  /-- 0. -/
  | stop
  /-- 1. -/
  | keep
  /-- -1. -/
  | delete
deriving DecidableEq, Repr

/-- A call-back: what it answers for an entry, and its data behind that. -/
abbrev WalkFunc (σ : Type) : Type :=
  σ → KvmHash → WalkAnswer × σ

/-- An entry, and what has been answered for it. -/
abbrev Visit : Type :=
  KvmHash × WalkAnswer

section

variable {σ : Type}

/-- What the walk over one chain comes to: the entries the call-back has been asked about, the
    chain that is left, the data, and whether the call-back has stopped the walk. -/
structure ChainWalk (σ : Type) where
  visits : List Visit
  chain : List KvmHash
  data : σ
  stopped : Bool

/-- The inner loop of `kvm_walk_hash`. -/
def chainWalk (func : WalkFunc σ) (data : σ) : List KvmHash → ChainWalk σ
  | [] => ⟨[], [], data, false⟩
  | entry :: next =>
      match func data entry with
      | (.stop, data) => ⟨[(entry, .stop)], entry :: next, data, true⟩
      | (.keep, data) =>
          let walk := chainWalk func data next
          ⟨(entry, .keep) :: walk.visits, entry :: walk.chain, walk.data, walk.stopped⟩
      | (.delete, data) =>
          let walk := chainWalk func data next
          ⟨(entry, .delete) :: walk.visits, walk.chain, walk.data, walk.stopped⟩

theorem chainWalk_sublist (func : WalkFunc σ) (data : σ) (chain : List KvmHash) :
    (chainWalk func data chain).chain.Sublist chain := by
  induction chain generalizing data with
  | nil => exact List.Sublist.slnil
  | cons entry next ih =>
      rw [chainWalk]
      split
      · exact List.Sublist.refl _
      · exact (ih _).cons_cons _
      · exact (ih _).cons _

/-- What a walk over the table comes to. -/
structure TableWalk (σ : Type) where
  visits : List Visit
  map : KvmHashTable
  data : σ

/-- The outer loop of `kvm_walk_hash`, over the indices that are left. -/
def walkChains (func : WalkFunc σ) (data : σ) (self : KvmHashTable) :
    List (Fin TABLE_SIZE) → TableWalk σ
  | [] => ⟨[], self, data⟩
  | hash :: hashes =>
      let walk := chainWalk func data (self.table hash)
      let self := self.withChain hash walk.chain
        ((self.nodup hash).sublist ((chainWalk_sublist func data _).map KvmHash.key))
      if walk.stopped then
        ⟨walk.visits, self, walk.data⟩
      else
        let rest := walkChains func walk.data self hashes
        ⟨walk.visits ++ rest.visits, rest.map, rest.data⟩

/-- `kvm_walk_hash (self, func, data)`: it returns `KVM_OK` in any case. -/
def kvmWalkHash (self : KvmHashTable) (func : WalkFunc σ) (data : σ) : KvmResult × TableWalk σ :=
  (.ok, walkChains func data self (List.finRange TABLE_SIZE))

end

/-- `kvm_truncate_hash (self)`: every chain is freed. -/
def kvmTruncateHash (_self : KvmHashTable) : KvmResult × KvmHashTable :=
  (.ok, .empty)

/-! ### Calls -/

/-- A call of one of the five methods, with the memory it gets. -/
inductive HashCall (σ : Type) where
  | put (key value : List Octet) (allocated : Bool)
  | get (key : List Octet) (allocated : Bool)
  | remove (key : List Octet)
  | walk (func : WalkFunc σ) (data : σ)
  | truncate

/-- What a call gives back. -/
inductive HashAnswer (σ : Type) where
  | code (rc : KvmResult)
  | value (rc : KvmResult) (value : Option (List Octet))
  | walked (rc : KvmResult) (visits : List Visit) (data : σ)

/-- A call, and the map behind it. -/
def KvmHashTable.hashCall {σ : Type} (map : KvmHashTable) :
    HashCall σ → HashAnswer σ × KvmHashTable
  | .put key value allocated =>
      (.code (kvmPutHashMem allocated map key value).1,
        (kvmPutHashMem allocated map key value).2)
  | .get key allocated =>
      (.value (kvmGetHashMem allocated map key).1 (kvmGetHashMem allocated map key).2, map)
  | .remove key => (.code (kvmRemoveHash map key).1, (kvmRemoveHash map key).2)
  | .walk func data =>
      (.walked (kvmWalkHash map func data).1 (kvmWalkHash map func data).2.visits
          (kvmWalkHash map func data).2.data,
        (kvmWalkHash map func data).2.map)
  | .truncate => (.code (kvmTruncateHash map).1, (kvmTruncateHash map).2)

end Snert
