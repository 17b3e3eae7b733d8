/-
Module: Snert.Proofs.StringHashFiniteMap
Purpose: When the string hash table is a finite map. Its lookup stops at the first key of the chain
  that starts with the one it looks for, so it finds the right link as long as no longer key stands
  in front of it; and the value of a key that is not there is read through NULL.
Trusted boundary: none
Main exports: stringHash_finiteMap
-/
import Mathlib.Data.Finmap
import Mathlib.Data.List.TakeWhile
import Snert.Util.StringHash

namespace Snert

open CModel Run

variable {V : Type}

/-! ### A finite map -/

/-- What a call of a finite map returns. -/
def StringHashCall.answer (map : Finmap fun _ : List Octet => V) :
    StringHashCall V → StringHashAnswer V
  | .put _ _ => .code 0
  | .get key => .value (map.lookup key)
  | .remove key => .code (if key ∈ map then 0 else -1)

/-- The finite map after a call. -/
def StringHashCall.update (map : Finmap fun _ : List Octet => V) :
    StringHashCall V → Finmap fun _ : List Octet => V
  | .put key value => map.insert key value
  | .get _ => map
  | .remove key => map.erase key

/-- The table answers the calls of a session as a finite map does, and counts its keys. -/
def IsFiniteMap [DecidableEq V] (self : StringHash V) (map : Finmap fun _ : List Octet => V) :
    List (StringHashCall V) → Prop
  | [] => True
  | call :: calls =>
      ∃ self', (self.call call).Yields (call.answer map, self') ∧
        self'.length = (call.update map).keys.card ∧ IsFiniteMap self' (call.update map) calls

/-! ### The condition -/

/-- The chain that a key belongs to. -/
def StringHash.chain (self : StringHash V) (key : List Octet) : List (HashItem V) :=
  self.base (djbHashIndex key key.length self.size)

/-- In the chain of a key, no key in front of it, or none at all if it is not there, starts with
it. -/
def StringHash.Unshadowed (self : StringHash V) (key : List Octet) : Prop :=
  ∀ item ∈ (self.chain key).takeWhile (·.key ≠ key), ¬ key <+: item.key

/-- A call finds its key, or finds that it is not there; a value that is asked for is there. -/
def StringHash.LooksWell (self : StringHash V) (call : StringHashCall V) : Prop :=
  self.Unshadowed call.key ∧
    match call with
    | .get key => ∃ item ∈ self.chain key, item.key = key
    | _ => True

/-- All calls of a session look well, in the table as it is before them. -/
def AllLookWell [DecidableEq V] (self : StringHash V) : List (StringHashCall V) → Prop
  | [] => True
  | call :: calls =>
      self.LooksWell call ∧ ∀ answer self', (self.call call).Yields (answer, self') →
        AllLookWell self' calls

/-! ### The lookup -/

variable {self : StringHash V} {key : List Octet} {value : V}
  {map : Finmap fun _ : List Octet => V}

theorem chainPosition_of_unshadowed (hkey : 0 ∉ key) {chain : List (HashItem V)}
    (h : ∀ item ∈ chain.takeWhile (·.key ≠ key), ¬ key <+: item.key) :
    chainPosition key key.length chain = (chain.takeWhile (·.key ≠ key)).length := by
  induction chain with
  | nil => rfl
  | cons item next ih =>
      rw [chainPosition, List.takeWhile_cons]
      by_cases hitem : item.key = key
      · have hzero : strncmp key item.key key.length = 0 :=
          (strncmp_length_eq_zero_iff hkey).mpr (hitem ▸ List.prefix_refl _)
        rw [if_pos hzero, if_neg (by simpa using hitem)]
        rfl
      · rw [List.takeWhile_cons, if_pos (by simpa using hitem)] at h
        have hzero : strncmp key item.key key.length ≠ 0 :=
          mt (strncmp_length_eq_zero_iff hkey).mp (h item List.mem_cons_self)
        rw [if_neg hzero, if_pos (by simpa using hitem), List.length_cons,
          ih fun i hi => h i (List.mem_cons_of_mem _ hi)]

theorem chain_cases (key : List Octet) (chain : List (HashItem V)) :
    (key ∉ chain.map HashItem.key ∧ chain.takeWhile (·.key ≠ key) = chain) ∨
      ∃ before value after, chain = before ++ ⟨key, value⟩ :: after ∧
        chain.takeWhile (·.key ≠ key) = before := by
  induction chain with
  | nil => exact .inl ⟨List.not_mem_nil, rfl⟩
  | cons item next ih =>
      rw [List.takeWhile_cons]
      by_cases hitem : item.key = key
      · rw [if_neg (by simpa using hitem)]
        exact .inr ⟨[], item.value, next, by rw [← hitem]; rfl, rfl⟩
      · rw [if_pos (by simpa using hitem)]
        rcases ih with ⟨hnot, hall⟩ | ⟨before, value, after, rfl, hbefore⟩
        · refine .inl ⟨?_, by rw [hall]⟩
          rw [List.map_cons, List.mem_cons, not_or]
          exact ⟨Ne.symm hitem, hnot⟩
        · exact .inr ⟨item :: before, value, after, rfl, by rw [hbefore]⟩

theorem hashFetch_yields (hsize : 0 < self.size) (hkey : 0 ∉ key) (h : self.Unshadowed key) :
    (hashFetch self key key.length).Yields (djbHashIndex key key.length self.size,
      ((self.chain key).takeWhile (·.key ≠ key)).length) := by
  have hin : Access.InBounds ⟨djbHashIndex key key.length self.size, 1, self.size⟩ :=
    Access.inBounds_iff_le.mpr (Nat.mod_lt _ hsize)
  rw [← chainPosition_of_unshadowed hkey h]
  exact (yields_load hin _).bind (yields_pure _)

/-! ### What the table holds -/

/-- The table holds the entries of a finite map, each in the chain of its key. -/
structure HoldsMap (table : StringHash V) (map : Finmap fun _ : List Octet => V) : Prop where
  size : 0 < table.size
  nodup : ∀ i, ((table.base i).map HashItem.key).Nodup
  placed : ∀ i, ∀ item ∈ table.base i, djbHashIndex item.key item.key.length table.size = i
  entries : ∀ key value, map.lookup key = some value ↔ ⟨key, value⟩ ∈ table.chain key
  length : table.length = map.keys.card

theorem holds_create {prime_size : Nat} (hsize : 0 < prime_size) :
    HoldsMap (hashCreateSize V prime_size) ∅ where
  size := hsize
  nodup := fun _ => List.nodup_nil
  placed := fun _ _ hitem => nomatch hitem
  entries := fun key value => by
    rw [Finmap.lookup_empty]
    exact iff_of_false nofun List.not_mem_nil
  length := rfl

theorem HoldsMap.mem_iff (h : HoldsMap self map) :
    key ∈ map ↔ key ∈ (self.chain key).map HashItem.key := by
  rw [Finmap.mem_iff, List.mem_map]
  constructor
  · rintro ⟨value, hvalue⟩
    exact ⟨_, (h.entries key value).mp hvalue, rfl⟩
  · rintro ⟨item, hitem, rfl⟩
    exact ⟨item.value, (h.entries item.key item.value).mpr hitem⟩

theorem HoldsMap.withChain (h : HoldsMap self map) {map' : Finmap fun _ : List Octet => V}
    {chain : List (HashItem V)} {length : Nat} {freed : List V}
    (hnodup : (chain.map HashItem.key).Nodup)
    (hothers : ∀ item ∈ chain, item.key = key ∨ item ∈ self.chain key)
    (hself : ∀ value, map'.lookup key = some value ↔ ⟨key, value⟩ ∈ chain)
    (hkept : ∀ other, other ≠ key → map'.lookup other = map.lookup other)
    (hchain : ∀ item : HashItem V, item.key ≠ key → (item ∈ chain ↔ item ∈ self.chain key))
    (hlength : length = map'.keys.card) :
    HoldsMap { self with
      base := Function.update self.base (djbHashIndex key key.length self.size) chain
      length := length
      freed := freed } map' where
  size := h.size
  nodup := fun i => by
    dsimp only
    by_cases hi : i = djbHashIndex key key.length self.size
    · rwa [hi, Function.update_self]
    · rw [Function.update_of_ne hi]
      exact h.nodup i
  placed := fun i item hitem => by
    dsimp only at hitem ⊢
    by_cases hi : i = djbHashIndex key key.length self.size
    · rw [hi, Function.update_self] at hitem
      rcases hothers item hitem with hkey | hold
      · rw [hi, hkey]
      · exact (h.placed _ item hold).trans hi.symm
    · rw [Function.update_of_ne hi] at hitem
      exact h.placed i item hitem
  entries := fun other value => by
    unfold StringHash.chain
    dsimp only
    by_cases hother : other = key
    · rw [hother, Function.update_self]
      exact hself value
    · rw [hkept other hother, h.entries other value]
      by_cases hi : djbHashIndex other other.length self.size =
          djbHashIndex key key.length self.size
      · rw [hi, Function.update_self, hchain _ hother, StringHash.chain, StringHash.chain, hi]
      · rw [Function.update_of_ne hi]
        rfl
  length := hlength

/-! ### The calls -/

theorem keys_insert (map : Finmap fun _ : List Octet => V) (key : List Octet) (value : V) :
    (map.insert key value).keys = insert key map.keys := by
  ext other
  rw [Finmap.mem_keys, Finmap.mem_insert, Finset.mem_insert, Finmap.mem_keys]

theorem HoldsMap.lookup_eq (h : HoldsMap self map) {before after : List (HashItem V)}
    (hchain : self.chain key = before ++ ⟨key, value⟩ :: after) : map.lookup key = some value :=
  (h.entries key value).mpr (hchain ▸ List.mem_append_right _ List.mem_cons_self)

theorem HoldsMap.key_notMem (h : HoldsMap self map) {before after : List (HashItem V)}
    (hchain : self.chain key = before ++ ⟨key, value⟩ :: after) {item : HashItem V}
    (hitem : item ∈ before ∨ item ∈ after) : item.key ≠ key := by
  have hnodup := h.nodup (djbHashIndex key key.length self.size)
  rw [← StringHash.chain, hchain, List.map_append, List.map_cons, List.nodup_middle,
    List.nodup_cons, List.mem_append, not_or] at hnodup
  intro hkey
  exact hitem.elim (fun hin => hnodup.1.1 (List.mem_map.mpr ⟨item, hin, hkey⟩))
    fun hin => hnodup.1.2 (List.mem_map.mpr ⟨item, hin, hkey⟩)

theorem item_behind (before after : List (HashItem V)) (item : HashItem V) :
    (before ++ item :: after)[before.length]? = some item := by
  rw [List.getElem?_append_right (Nat.le_refl _), Nat.sub_self]
  rfl

theorem hashRemovek_present (h : HoldsMap self map) (hkey : 0 ∉ key) (hclear : self.Unshadowed key)
    {before after : List (HashItem V)} {old : V}
    (hchain : self.chain key = before ++ ⟨key, old⟩ :: after)
    (hbefore : (self.chain key).takeWhile (·.key ≠ key) = before) :
    (hashRemovek self key key.length).Yields (0, { self with
      base := Function.update self.base (djbHashIndex key key.length self.size) (before ++ after)
      length := self.length - 1
      freed := self.freed ++ [old] }) := by
  have hfetch := hashFetch_yields h.size hkey hclear
  have hbase : self.base (djbHashIndex key key.length self.size) =
      before ++ ⟨key, old⟩ :: after := hchain
  have herase : (before ++ (⟨key, old⟩ : HashItem V) :: after).eraseIdx before.length =
      before ++ after := by
    rw [List.eraseIdx_append_of_length_le (Nat.le_refl _), Nat.sub_self]
    rfl
  rw [hbefore] at hfetch
  refine hfetch.bind ?_
  dsimp only
  rw [hbase, item_behind]
  dsimp only
  rw [herase]
  exact yields_pure _

theorem hashRemovek_absent (h : HoldsMap self map) (hkey : 0 ∉ key) (hclear : self.Unshadowed key)
    (hall : (self.chain key).takeWhile (·.key ≠ key) = self.chain key) :
    (hashRemovek self key key.length).Yields (-1, self) := by
  have hfetch := hashFetch_yields h.size hkey hclear
  have hend : (self.base (djbHashIndex key key.length self.size))[(self.chain key).length]? =
      none := List.getElem?_eq_none (Nat.le_refl _)
  rw [hall] at hfetch
  refine hfetch.bind ?_
  dsimp only
  rw [hend]
  exact yields_pure _

theorem hashGetk_yields (h : HoldsMap self map) (hkey : 0 ∉ key) (hclear : self.Unshadowed key)
    (hpresent : ∃ item ∈ self.chain key, item.key = key) :
    (hashGetk self key key.length).Yields (map.lookup key) := by
  have hfetch := hashFetch_yields h.size hkey hclear
  rcases chain_cases key (self.chain key) with ⟨hnot, -⟩ | ⟨before, value, after, hchain, hbefore⟩
  · exact absurd (List.mem_map.mpr hpresent) hnot
  · have hbase : self.base (djbHashIndex key key.length self.size) =
        before ++ ⟨key, value⟩ :: after := hchain
    rw [hbefore] at hfetch
    rw [h.lookup_eq hchain]
    refine hfetch.bind ?_
    dsimp only
    rw [hbase, item_behind]
    exact yields_pure _

theorem hashRemovek_holds (h : HoldsMap self map) (hkey : 0 ∉ key) (hclear : self.Unshadowed key) :
    ∃ self', (hashRemovek self key key.length).Yields (if key ∈ map then 0 else -1, self') ∧
      HoldsMap self' (map.erase key) := by
  have hkept (other : List Octet) (hother : other ≠ key) :
      (map.erase key).lookup other = map.lookup other := Finmap.lookup_erase_ne hother
  rcases chain_cases key (self.chain key) with ⟨hnot, hall⟩ | ⟨before, old, after, hchain, hbefore⟩
  · have hmem : key ∉ map := mt h.mem_iff.mp hnot
    have hsame : map.erase key = map := Finmap.ext_lookup fun other => by
      by_cases hother : other = key
      · rw [hother, Finmap.lookup_erase, Finmap.lookup_eq_none.mpr hmem]
      · exact hkept other hother
    rw [if_neg hmem, hsame]
    exact ⟨self, hashRemovek_absent h hkey hclear hall, h⟩
  · have hmem : key ∈ map := Finmap.mem_iff.mpr ⟨old, h.lookup_eq hchain⟩
    have hout {item : HashItem V} (hin : item ∈ before ∨ item ∈ after) := h.key_notMem hchain hin
    have hnodup := h.nodup (djbHashIndex key key.length self.size)
    rw [← StringHash.chain, hchain, List.map_append, List.map_cons, List.nodup_middle,
      List.nodup_cons, ← List.map_append] at hnodup
    rw [if_pos hmem]
    refine ⟨_, hashRemovek_present h hkey hclear hchain hbefore, ?_⟩
    refine h.withChain hnodup.2 (fun item hitem => .inr ?_) (fun other => ?_) hkept
      (fun item hitem => ?_) ?_
    · rw [hchain, List.mem_append, List.mem_cons]
      exact (List.mem_append.mp hitem).imp_right .inr
    · rw [Finmap.lookup_erase, List.mem_append]
      exact iff_of_false nofun fun hin => hout hin rfl
    · have hne : item ≠ ⟨key, old⟩ := fun heq => hitem (heq ▸ rfl)
      rw [hchain, List.mem_append, List.mem_append, List.mem_cons, or_iff_right hne]
    · rw [Finmap.keys_erase, Finset.card_erase_of_mem (Finmap.mem_keys.mpr hmem), h.length]

variable [DecidableEq V]

theorem hashPutk_absent (h : HoldsMap self map) (hkey : 0 ∉ key) (hclear : self.Unshadowed key)
    (hall : (self.chain key).takeWhile (·.key ≠ key) = self.chain key) (value : V) :
    (hashPutk self key key.length value).Yields (0, { self with
      base := Function.update self.base (djbHashIndex key key.length self.size)
        (self.chain key ++ [⟨key, value⟩])
      length := self.length + 1 }) := by
  have hfetch := hashFetch_yields h.size hkey hclear
  have hcopy : (key.takeWhile (· ≠ 0)).take key.length = key := by
    have hwhole : key.takeWhile (· ≠ 0) = key := List.takeWhile_eq_self_iff.mpr fun c hc => by
      simpa using fun hzero : c = 0 => hkey (hzero ▸ hc)
    rw [hwhole, List.take_length]
  have hend : (self.base (djbHashIndex key key.length self.size))[(self.chain key).length]? =
      none := List.getElem?_eq_none (Nat.le_refl _)
  rw [hall] at hfetch
  refine hfetch.bind ?_
  dsimp only
  rw [hend, hcopy]
  exact yields_pure _

theorem hashPutk_present (h : HoldsMap self map) (hkey : 0 ∉ key) (hclear : self.Unshadowed key)
    {before after : List (HashItem V)} {old : V}
    (hchain : self.chain key = before ++ ⟨key, old⟩ :: after)
    (hbefore : (self.chain key).takeWhile (·.key ≠ key) = before) (value : V) :
    (hashPutk self key key.length value).Yields (0, { self with
      base := Function.update self.base (djbHashIndex key key.length self.size)
        (before ++ ⟨key, value⟩ :: after)
      freed := if value ≠ old then self.freed ++ [old] else self.freed }) := by
  have hfetch := hashFetch_yields h.size hkey hclear
  have hbase : self.base (djbHashIndex key key.length self.size) =
      before ++ ⟨key, old⟩ :: after := hchain
  have hset : (before ++ (⟨key, old⟩ : HashItem V) :: after).set before.length ⟨key, value⟩ =
      before ++ ⟨key, value⟩ :: after := by
    rw [List.set_append_right _ _ (Nat.le_refl _), Nat.sub_self]
    rfl
  rw [hbefore] at hfetch
  refine hfetch.bind ?_
  dsimp only
  rw [hbase, item_behind]
  dsimp only
  rw [hset]
  exact yields_pure _

theorem hashPutk_holds (h : HoldsMap self map) (hkey : 0 ∉ key) (hclear : self.Unshadowed key)
    (value : V) : ∃ self', (hashPutk self key key.length value).Yields (0, self') ∧
      HoldsMap self' (map.insert key value) := by
  have hnodup := h.nodup (djbHashIndex key key.length self.size)
  have hkept (other : List Octet) (hother : other ≠ key) :
      (map.insert key value).lookup other = map.lookup other :=
    Finmap.lookup_insert_of_ne map hother
  rw [← StringHash.chain] at hnodup
  rcases chain_cases key (self.chain key) with ⟨hnot, hall⟩ | ⟨before, old, after, hchain, hbefore⟩
  · refine ⟨_, hashPutk_absent h hkey hclear hall value, ?_⟩
    refine h.withChain ?_ (fun item hitem => ?_) (fun other => ?_) hkept (fun item hitem => ?_) ?_
    · rw [List.map_append, List.nodup_append_comm]
      exact List.nodup_cons.mpr ⟨hnot, hnodup⟩
    · exact (List.mem_append.mp hitem).symm.imp_left fun hnew => by
        rw [List.mem_singleton.mp hnew]
    · rw [Finmap.lookup_insert, List.mem_append, List.mem_singleton, HashItem.mk.injEq]
      have hout : (⟨key, other⟩ : HashItem V) ∉ self.chain key := fun hin =>
        hnot (List.mem_map_of_mem hin)
      rw [or_iff_right hout, Option.some_inj, eq_comm]
      exact (and_iff_right rfl).symm
    · rw [List.mem_append, List.mem_singleton, or_iff_left]
      rintro rfl
      exact hitem rfl
    · rw [keys_insert, Finset.card_insert_of_notMem, h.length]
      rwa [Finmap.mem_keys, h.mem_iff]
  · refine ⟨_, hashPutk_present h hkey hclear hchain hbefore value, ?_⟩
    refine h.withChain ?_ (fun item hitem => ?_) (fun other => ?_) hkept (fun item hitem => ?_) ?_
    · rw [hchain, List.map_append, List.map_cons] at hnodup
      rwa [List.map_append, List.map_cons]
    · rw [hchain, List.mem_append, List.mem_cons]
      rcases List.mem_append.mp hitem with hin | hin
      · exact .inr (.inl hin)
      · exact (List.mem_cons.mp hin).imp (fun hnew => by rw [hnew]) fun hin => .inr (.inr hin)
    · have hout {item : HashItem V} (hin : item ∈ before ∨ item ∈ after) :=
        h.key_notMem hchain hin
      rw [Finmap.lookup_insert, Option.some_inj, List.mem_append, List.mem_cons,
        HashItem.mk.injEq]
      constructor
      · rintro rfl
        exact .inr (.inl ⟨rfl, rfl⟩)
      · rintro (hin | ⟨-, rfl⟩ | hin)
        · exact absurd rfl (hout (.inl hin))
        · rfl
        · exact absurd rfl (hout (.inr hin))
    · have hne {value : V} : item ≠ ⟨key, value⟩ := fun heq => hitem (heq ▸ rfl)
      rw [hchain, List.mem_append, List.mem_append, List.mem_cons, List.mem_cons,
        or_iff_right hne, or_iff_right hne]
    · rw [keys_insert, Finset.card_insert_of_mem, h.length]
      rw [Finmap.mem_keys, Finmap.mem_iff]
      exact ⟨old, h.lookup_eq hchain⟩

theorem call_holds (h : HoldsMap self map) {call : StringHashCall V} (hkey : 0 ∉ call.key)
    (hlooks : self.LooksWell call) :
    ∃ self', (self.call call).Yields (call.answer map, self') ∧ HoldsMap self' (call.update map) := by
  cases call with
  | put key value =>
      obtain ⟨self', hput, hholds⟩ := hashPutk_holds h hkey hlooks.1 value
      exact ⟨self', hput.bind (yields_pure _), hholds⟩
  | get key => exact ⟨self, (hashGetk_yields h hkey hlooks.1 hlooks.2).bind (yields_pure _), h⟩
  | remove key =>
      obtain ⟨self', hremove, hholds⟩ := hashRemovek_holds h hkey hlooks.1
      exact ⟨self', hremove.bind (yields_pure _), hholds⟩

/-! ### Sessions -/

theorem isFiniteMap_of_holds (h : HoldsMap self map) {calls : List (StringHashCall V)}
    (hkeys : ∀ call ∈ calls, 0 ∉ call.key) (hlook : AllLookWell self calls) :
    IsFiniteMap self map calls := by
  induction calls generalizing self map with
  | nil => trivial
  | cons call calls ih =>
      obtain ⟨hkey, hkeys⟩ := List.forall_mem_cons.mp hkeys
      obtain ⟨self', hcall, hholds⟩ := call_holds h hkey hlook.1
      exact ⟨self', hcall, hholds.length, ih hholds hkeys (hlook.2 _ self' hcall)⟩

/-- In every session whose calls look well, a new table answers as a finite map does, and counts the
keys that it holds. -/
theorem stringHash_finiteMap (prime_size : Nat) (hsize : 0 < prime_size)
    (calls : List (StringHashCall V)) (hkeys : ∀ call ∈ calls, 0 ∉ call.key)
    (hlook : AllLookWell (hashCreateSize V prime_size) calls) :
    IsFiniteMap (hashCreateSize V prime_size) ∅ calls :=
  isFiniteMap_of_holds (holds_create hsize) hkeys hlook

/-- A key is put into a new table. -/
theorem stringHash_put : 0 < 1021 ∧
    (∀ call ∈ [StringHashCall.put (ascii "a") 1], 0 ∉ call.key) ∧
      AllLookWell (hashCreateSize Nat 1021) [.put (ascii "a") 1] ∧
      IsFiniteMap (hashCreateSize Nat 1021) ∅ [.put (ascii "a") 1] := by
  have hkeys : ∀ call ∈ [StringHashCall.put (ascii "a") 1], 0 ∉ call.key := by decide
  have hclear : (hashCreateSize Nat 1021).Unshadowed (ascii "a") := fun _ hitem => nomatch hitem
  have hlook : AllLookWell (hashCreateSize Nat 1021) [.put (ascii "a") 1] :=
    ⟨⟨hclear, trivial⟩, fun _ _ _ => trivial⟩
  exact ⟨by decide, hkeys, hlook, stringHash_finiteMap 1021 (by decide) _ hkeys hlook⟩

/-- The value of a key that is not there is read through NULL; and `a` is taken for `aom`, which
lies in the same chain. -/
theorem stringHash_confuses :
    ¬ IsFiniteMap (hashCreateSize Nat 1021) ∅ [.get (ascii "a")] ∧
      ¬ IsFiniteMap (hashCreateSize Nat 1021) ∅
        [.put (ascii "aom") 1, .put (ascii "a") 2, .get (ascii "aom")] := by
  refine ⟨?_, ?_⟩
  · rintro ⟨self', hget, -⟩
    exact absurd hget.1 (by decide)
  · rintro ⟨self₁, hput₁, -, self₂, hput₂, -, self₃, hget, -⟩
    have hrun : (do
        let r₁ ← (hashCreateSize Nat 1021).call (.put (ascii "aom") 1)
        let r₂ ← r₁.2.call (.put (ascii "a") 2)
        let r₃ ← r₂.2.call (.get (ascii "aom"))
        return r₃.1).Yields _ := hput₁.bind (hput₂.bind (hget.bind (yields_pure _)))
    have hlookup : (((∅ : Finmap fun _ : List Octet => Nat).insert (ascii "aom") 1).insert
        (ascii "a") 2).lookup (ascii "aom") = some 1 := by
      rw [Finmap.lookup_insert_of_ne _ (by decide), Finmap.lookup_insert]
    have hanswer := Yields.outcome hrun
    dsimp only [StringHashCall.answer, StringHashCall.update] at hanswer
    rw [hlookup] at hanswer
    exact absurd hanswer (by decide)

end Snert
