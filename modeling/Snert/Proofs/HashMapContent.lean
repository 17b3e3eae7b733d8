/-
Module: Snert.Proofs.HashMapContent
Purpose: What a hash map is for: a value for some of the keys. The three methods do to the table
  what their names say of that, whatever keys share a chain.
Trusted boundary: none
Main exports: chainFetch_remove, call_refines
-/
import Snert.Kvm.HashMap
import Mathlib.Logic.Function.Basic

namespace Snert

open CModel

/-- A value for some of the keys. -/
abbrev Content : Type :=
  List Octet → Option (List Octet)

/-- What a call answers and leaves. -/
def KvmCall.effect (content : Content) : KvmCall → KvmAnswer × Content
  | .put key value => ((.ok, none), Function.update content key (some value))
  | .get key =>
      (match content key with
        | none => (.notFound, none)
        | some value => (.ok, some value), content)
  | .remove key =>
      ((if content key = none then .notFound else .ok, none), Function.update content key none)

/-- The value that a table gives for a key. -/
def KvmHashTable.content (map : KvmHashTable) : Content :=
  kvmFetchHash map

/-! ### One chain -/

theorem chainFetch_eq_none_iff {key : List Octet} {chain : List KvmHash} :
    chainFetch key chain = none ↔ key ∉ chain.map KvmHash.key := by
  induction chain with
  | nil => simp [chainFetch]
  | cons entry next ih =>
      rw [chainFetch, List.map_cons, List.mem_cons, not_or]
      split
      · rename_i heq
        simp [heq]
      · rename_i hne
        rw [ih, and_iff_right hne]

theorem chainFetch_put (key value key' : List Octet) (chain : List KvmHash) :
    chainFetch key' (chainPut key value chain) =
      if key' = key then some value else chainFetch key' chain := by
  induction chain with
  | nil => simp [chainPut, chainFetch]
  | cons entry next ih =>
      rw [chainPut]
      by_cases heq : key = entry.key
      · rw [if_pos heq, chainFetch, chainFetch]
        by_cases hkey : key' = key
        · rw [if_pos hkey, if_pos hkey]
        · rw [if_neg hkey, if_neg hkey, if_neg (heq ▸ hkey)]
      · rw [if_neg heq, chainFetch, chainFetch, ih]
        by_cases hkey : key' = entry.key
        · rw [if_pos hkey, if_pos hkey, if_neg (hkey ▸ Ne.symm heq)]
        · rw [if_neg hkey, if_neg hkey]

theorem chainRemove_eq_none_iff {key : List Octet} {chain : List KvmHash} :
    chainRemove key chain = none ↔ chainFetch key chain = none := by
  induction chain with
  | nil => simp [chainRemove, chainFetch]
  | cons entry next ih =>
      rw [chainRemove, chainFetch]
      split
      · simp
      · rw [Option.map_eq_none_iff, ih]

/-- Since a chain holds a key at most once, nothing of it is left. -/
theorem chainFetch_remove {key : List Octet} {chain rest : List KvmHash}
    (hnodup : (chain.map KvmHash.key).Nodup) (h : chainRemove key chain = some rest)
    (key' : List Octet) :
    chainFetch key' rest = if key' = key then none else chainFetch key' chain := by
  induction chain generalizing rest with
  | nil => exact nomatch h
  | cons entry next ih =>
      rw [List.map_cons, List.nodup_cons] at hnodup
      rw [chainRemove] at h
      by_cases heq : key = entry.key
      · rw [if_pos heq] at h
        cases h
        by_cases hkey : key' = key
        · rw [if_pos hkey, chainFetch_eq_none_iff, hkey, heq]
          exact hnodup.1
        · rw [if_neg hkey, chainFetch, if_neg (heq ▸ hkey)]
      · rw [if_neg heq] at h
        obtain ⟨rest', hrest, rfl⟩ := Option.map_eq_some_iff.mp h
        rw [chainFetch, chainFetch, ih hnodup.2 hrest]
        by_cases hkey : key' = entry.key
        · rw [if_pos hkey, if_pos hkey, if_neg (hkey ▸ Ne.symm heq)]
        · rw [if_neg hkey, if_neg hkey]

/-! ### The table -/

theorem content_withChain {map : KvmHashTable} {key : List Octet} {chain : List KvmHash}
    (h : (chain.map KvmHash.key).Nodup) {value : Option (List Octet)}
    (hchain : ∀ key', chainFetch key' chain =
      if key' = key then value else chainFetch key' (map.table (hashIndex key))) :
    (map.withChain (hashIndex key) chain h).content = Function.update map.content key value := by
  funext key'
  rw [KvmHashTable.content, kvmFetchHash, KvmHashTable.withChain]
  dsimp only
  by_cases hkey : key' = key
  · rw [hkey, if_pos rfl, hchain, if_pos rfl, Function.update_self]
  · rw [Function.update_of_ne hkey]
    by_cases hindex : hashIndex key' = hashIndex key
    · rw [if_pos hindex, hchain, if_neg hkey, ← hindex]
      rfl
    · rw [if_neg hindex]
      rfl

/-- Every call does to the content what it is for. -/
theorem call_refines (map : KvmHashTable) (call : KvmCall) :
    (map.call call).1 = (call.effect map.content).1 ∧
      (map.call call).2.content = (call.effect map.content).2 := by
  cases call with
  | put key value =>
      exact ⟨rfl, content_withChain (nodup_chainPut value (map.nodup _)) fun key' =>
        chainFetch_put key value key' _⟩
  | get key => exact ⟨rfl, rfl⟩
  | remove key =>
      rw [KvmHashTable.call, KvmCall.effect, kvmRemoveHash]
      split
      · rename_i hnone
        have hfetch : map.content key = none := chainRemove_eq_none_iff.mp hnone
        rw [if_pos hfetch]
        exact ⟨rfl, (Function.update_eq_self_iff.mpr hfetch.symm).symm⟩
      · rename_i chain hsome
        have hfetch : map.content key ≠ none := fun hnone => by
          rw [chainRemove_eq_none_iff.mpr hnone] at hsome
          cases hsome
        rw [if_neg hfetch]
        have hnodup := (map.nodup (hashIndex key)).sublist
          ((chainRemove_sublist hsome).map KvmHash.key)
        exact ⟨rfl, content_withChain hnodup (chainFetch_remove (map.nodup _) hsome)⟩

end Snert
