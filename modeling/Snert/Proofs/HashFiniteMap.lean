/-
Module: Snert.Proofs.HashFiniteMap
Purpose: The hash map is a finite map, as long as it is not asked to replace a value that it has
  no memory for. Every entry lies in the chain of its key, so that the chains together hold a key
  at most once; a walk asks about the entries of one chain after the other.
Trusted boundary: none
Main exports: kvmHash_finiteMap_iff
-/
import Snert.Kvm.HashMap
import Snert.Proofs.HashMapContent
import Mathlib.Data.List.Nodup

namespace Snert

open CModel

variable {σ : Type}

/-! ### What the calls are for -/

/-- The call-back has been asked about these entries, has given these answers, has the data
`data'` behind them, and was not asked again after it had stopped the walk. -/
def Asked (func : WalkFunc σ) : σ → List Visit → σ → Prop
  | data, [], data' => data' = data
  | data, (entry, answer) :: visits, data' =>
      (func data entry).1 = answer ∧ (answer = .stop → visits = []) ∧
        Asked func (func data entry).2 visits data'

/-- An entry with that key has been answered with -1. -/
def Deletes (visits : List Visit) (key : List Octet) : Prop :=
  ∃ visit ∈ visits, visit.1.key = key ∧ visit.2 = .delete

/-- What a walk does. -/
structure Walked (content : Content) (func : WalkFunc σ) (data : σ) (visits : List Visit)
    (data' : σ) (content' : Content) : Prop where
  asked : Asked func data visits data'
  /-- It visits what is there. -/
  held : ∀ visit ∈ visits, content visit.1.key = some visit.1.value
  /-- No entry is visited twice. -/
  once : (visits.map (·.1.key)).Nodup
  /-- Unless the call-back stops the walk, no entry is left out. -/
  all : (∀ visit ∈ visits, visit.2 ≠ .stop) →
    ∀ key value, content key = some value → ⟨key, value⟩ ∈ visits.map Prod.fst
  /-- What is answered with -1 is deleted. -/
  deleted : ∀ key, Deletes visits key → content' key = none
  /-- The rest is left. -/
  kept : ∀ key, ¬ Deletes visits key → content' key = content key

/-- What a call of a finite map gives back and leaves. A copy that there is no memory for is not
given, and a value that there is no memory for is not put. -/
def HashCall.Meets (content : Content) : HashCall σ → HashAnswer σ → Content → Prop
  | .put key value allocated, answer, content' =>
      answer = .code (if allocated then .ok else .error) ∧
        content' = if allocated then Function.update content key (some value) else content
  | .get key allocated, answer, content' =>
      answer = (match content key with
        | none => .value .notFound none
        | some value => if allocated then .value .ok (some value) else .value .error none) ∧
        content' = content
  | .remove key, answer, content' =>
      answer = .code (if content key = none then .notFound else .ok) ∧
        content' = Function.update content key none
  | .walk func data, answer, content' =>
      ∃ visits data', answer = .walked .ok visits data' ∧
        Walked content func data visits data' content'
  | .truncate, answer, content' => answer = .code .ok ∧ content' = fun _ => none

/-- A put of a key that the map holds, which gets no memory. -/
def HashCall.Loses (content : Content) : HashCall σ → Prop
  | .put key _ allocated => allocated = false ∧ content key ≠ none
  | _ => False

/-- The calls of a session give back and leave what those of a finite map do. -/
def KvmHashTable.FiniteMap (map : KvmHashTable) : List (HashCall σ) → Prop
  | [] => True
  | call :: calls =>
      call.Meets map.content (map.hashCall call).1 (map.hashCall call).2.content ∧
        FiniteMap (map.hashCall call).2 calls

/-- No call of the session is a put of a held key that gets no memory. -/
def KvmHashTable.KeepsHeld (map : KvmHashTable) : List (HashCall σ) → Prop
  | [] => True
  | call :: calls => ¬ call.Loses map.content ∧ KeepsHeld (map.hashCall call).2 calls

/-! ### The entries of a table -/

/-- Every entry lies in the chain that its key belongs to. -/
def KvmHashTable.Placed (map : KvmHashTable) : Prop :=
  ∀ hash, ∀ entry ∈ map.table hash, hashIndex entry.key = hash

/-- The entries, one chain after the other. -/
def KvmHashTable.entries (map : KvmHashTable) : List KvmHash :=
  (List.finRange TABLE_SIZE).flatMap map.table

theorem chainFetch_eq_some_iff {chain : List KvmHash} (hnodup : (chain.map KvmHash.key).Nodup)
    {key value : List Octet} : chainFetch key chain = some value ↔ ⟨key, value⟩ ∈ chain := by
  induction chain with
  | nil => simp [chainFetch]
  | cons entry next ih =>
      rw [List.map_cons, List.nodup_cons] at hnodup
      rw [chainFetch, List.mem_cons]
      by_cases heq : key = entry.key
      · have hnot : (⟨key, value⟩ : KvmHash) ∉ next := fun hmem =>
          hnodup.1 (heq ▸ List.mem_map_of_mem hmem)
        rw [if_pos heq, or_iff_left hnot, Option.some_inj]
        constructor
        · rintro rfl
          rw [heq]
        · intro h
          rw [← h]
      · have hne : (⟨key, value⟩ : KvmHash) ≠ entry := fun h => heq (by rw [← h])
        rw [if_neg heq, ih hnodup.2, or_iff_right hne]

theorem KvmHashTable.Placed.content_eq_some_iff {map : KvmHashTable} (hplaced : map.Placed)
    {key value : List Octet} : map.content key = some value ↔ ⟨key, value⟩ ∈ map.entries := by
  rw [KvmHashTable.content, kvmFetchHash, chainFetch_eq_some_iff (map.nodup _),
    KvmHashTable.entries, List.mem_flatMap]
  constructor
  · exact fun h => ⟨_, List.mem_finRange _, h⟩
  · rintro ⟨hash, -, h⟩
    rwa [hplaced hash _ h]

theorem KvmHashTable.Placed.nodup_entries {map : KvmHashTable} (hplaced : map.Placed) :
    (map.entries.map KvmHash.key).Nodup := by
  rw [KvmHashTable.entries, List.map_flatMap, List.nodup_flatMap]
  refine ⟨fun hash _ => map.nodup hash, (List.nodup_finRange _).imp ?_⟩
  intro hash hash' hne key hkey hkey'
  obtain ⟨entry, hentry, rfl⟩ := List.mem_map.mp hkey
  obtain ⟨entry', hentry', heq⟩ := List.mem_map.mp hkey'
  rw [← hplaced hash _ hentry, ← hplaced hash' _ hentry', heq] at hne
  exact hne rfl

theorem placed_empty : KvmHashTable.empty.Placed :=
  fun _ _ hentry => nomatch hentry

theorem KvmHashTable.Placed.withChain {map : KvmHashTable} (hplaced : map.Placed)
    {hash : Fin TABLE_SIZE} {chain : List KvmHash} (h : (chain.map KvmHash.key).Nodup)
    (hchain : ∀ entry ∈ chain, hashIndex entry.key = hash) : (map.withChain hash chain h).Placed := by
  intro i entry hentry
  rw [KvmHashTable.withChain] at hentry
  dsimp only at hentry
  by_cases hi : i = hash
  · rw [if_pos hi] at hentry
    rw [hchain entry hentry, hi]
  · rw [if_neg hi] at hentry
    exact hplaced i entry hentry

theorem withChain_table_of_ne {map : KvmHashTable} {hash i : Fin TABLE_SIZE}
    {chain : List KvmHash} (h : (chain.map KvmHash.key).Nodup) (hi : i ≠ hash) :
    (map.withChain hash chain h).table i = map.table i :=
  if_neg hi

/-! ### The walk over one chain -/

theorem deletes_cons {visit : Visit} {visits : List Visit} {key : List Octet} :
    Deletes (visit :: visits) key ↔
      (visit.1.key = key ∧ visit.2 = .delete) ∨ Deletes visits key := by
  rw [Deletes, Deletes, List.exists_mem_cons_iff]

theorem deletes_append {visits visits' : List Visit} {key : List Octet} :
    Deletes (visits ++ visits') key ↔ Deletes visits key ∨ Deletes visits' key := by
  induction visits with
  | nil => simp [Deletes]
  | cons visit visits ih => rw [List.cons_append, deletes_cons, ih, deletes_cons, or_assoc]

theorem Deletes.mem_keys {visits : List Visit} {key : List Octet} (h : Deletes visits key) :
    key ∈ (visits.map Prod.fst).map KvmHash.key := by
  obtain ⟨visit, hvisit, rfl, -⟩ := h
  exact List.mem_map_of_mem (List.mem_map_of_mem hvisit)

theorem Asked.append {func : WalkFunc σ} {data data' data'' : σ} {visits visits' : List Visit}
    (h : Asked func data visits data') (hgo : ∀ visit ∈ visits, visit.2 ≠ .stop)
    (h' : Asked func data' visits' data'') : Asked func data (visits ++ visits') data'' := by
  induction visits generalizing data with
  | nil =>
      cases h
      exact h'
  | cons visit visits ih =>
      obtain ⟨hanswer, -, hrest⟩ := h
      rw [List.forall_mem_cons] at hgo
      exact ⟨hanswer, fun hstop => absurd hstop hgo.1, ih hrest hgo.2⟩

/-- What the walk over one chain comes to. -/
structure ChainWalked (func : WalkFunc σ) (data : σ) (chain : List KvmHash) (walk : ChainWalk σ) :
    Prop where
  asked : Asked func data walk.visits walk.data
  stopped : walk.stopped = true ↔ ∃ visit ∈ walk.visits, visit.2 = .stop
  visited : walk.visits.map Prod.fst <+: chain
  all : walk.stopped = false → walk.visits.map Prod.fst = chain
  deleted : ∀ key, Deletes walk.visits key → chainFetch key walk.chain = none
  kept : ∀ key, ¬ Deletes walk.visits key → chainFetch key walk.chain = chainFetch key chain

theorem chainWalk_spec (func : WalkFunc σ) (data : σ) {chain : List KvmHash}
    (hnodup : (chain.map KvmHash.key).Nodup) :
    ChainWalked func data chain (chainWalk func data chain) := by
  induction chain generalizing data with
  | nil =>
      exact ⟨rfl, by simp [chainWalk], List.prefix_rfl, fun _ => rfl, fun _ _ => rfl, fun _ _ => rfl⟩
  | cons entry next ih =>
      rw [List.map_cons, List.nodup_cons] at hnodup
      rw [chainWalk]
      split
      next data' hfunc =>
        refine ⟨⟨by rw [hfunc], fun _ => rfl, by rw [hfunc]; rfl⟩, by simp, ?_, by simp, ?_, ?_⟩
        · exact ⟨next, rfl⟩
        · rintro key ⟨visit, hvisit, -, hdelete⟩
          rw [List.mem_singleton] at hvisit
          rw [hvisit] at hdelete
          cases hdelete
        · exact fun _ _ => rfl
      next data' hfunc =>
        have hrest := ih data' hnodup.2
        refine ⟨⟨by rw [hfunc], by simp, by rw [hfunc]; exact hrest.asked⟩, ?_, ?_, ?_, ?_, ?_⟩
        · rw [hrest.stopped, List.exists_mem_cons_iff]
          exact ⟨.inr, fun h => h.resolve_left (by simp)⟩
        · exact List.cons_prefix_cons.mpr ⟨rfl, hrest.visited⟩
        · exact fun h => congrArg (entry :: ·) (hrest.all h)
        · intro key hdeletes
          have hdeletes := (deletes_cons.mp hdeletes).resolve_left (by simp)
          have hne : key ≠ entry.key := by
            rintro rfl
            exact hnodup.1 ((hrest.visited.sublist.map KvmHash.key).subset hdeletes.mem_keys)
          rw [chainFetch, if_neg hne, hrest.deleted key hdeletes]
        · intro key hkept
          rw [chainFetch, chainFetch, hrest.kept key fun h => hkept (deletes_cons.mpr (.inr h))]
      next data' hfunc =>
        have hrest := ih data' hnodup.2
        refine ⟨⟨by rw [hfunc], by simp, by rw [hfunc]; exact hrest.asked⟩, ?_, ?_, ?_, ?_, ?_⟩
        · rw [hrest.stopped, List.exists_mem_cons_iff]
          exact ⟨.inr, fun h => h.resolve_left (by simp)⟩
        · exact List.cons_prefix_cons.mpr ⟨rfl, hrest.visited⟩
        · exact fun h => congrArg (entry :: ·) (hrest.all h)
        · intro key hdeletes
          rcases deletes_cons.mp hdeletes with ⟨rfl, -⟩ | hdeletes
          · rw [chainFetch_eq_none_iff]
            exact fun hmem => hnodup.1
              (((chainWalk_sublist func data' next).map KvmHash.key).subset hmem)
          · exact hrest.deleted key hdeletes
        · intro key hkept
          rw [deletes_cons, not_or] at hkept
          have hne : key ≠ entry.key := fun h => hkept.1 ⟨h.symm, rfl⟩
          rw [hrest.kept key hkept.2, chainFetch, if_neg hne]

/-! ### The walk over the table -/

/-- What the walk over some of the chains comes to. -/
structure ChainsWalked (func : WalkFunc σ) (data : σ) (map : KvmHashTable)
    (hashes : List (Fin TABLE_SIZE)) (walk : TableWalk σ) : Prop where
  placed : walk.map.Placed
  asked : Asked func data walk.visits walk.data
  visited : walk.visits.map Prod.fst <+: hashes.flatMap map.table
  all : (∀ visit ∈ walk.visits, visit.2 ≠ .stop) →
    walk.visits.map Prod.fst = hashes.flatMap map.table
  deleted : ∀ key, Deletes walk.visits key → walk.map.content key = none
  kept : ∀ key, ¬ Deletes walk.visits key → walk.map.content key = map.content key

theorem withChain_walked {func : WalkFunc σ} {data : σ} {map : KvmHashTable}
    (hplaced : map.Placed) {hash : Fin TABLE_SIZE} {walk : ChainWalk σ}
    (hwalk : ChainWalked func data (map.table hash) walk)
    (h : (walk.chain.map KvmHash.key).Nodup) (hsub : walk.chain.Sublist (map.table hash)) :
    (map.withChain hash walk.chain h).Placed ∧
      (∀ key, Deletes walk.visits key → (map.withChain hash walk.chain h).content key = none) ∧
      ∀ key, ¬ Deletes walk.visits key →
        (map.withChain hash walk.chain h).content key = map.content key := by
  refine ⟨hplaced.withChain h fun entry hentry => hplaced hash entry (hsub.subset hentry), ?_, ?_⟩
  · intro key hdeletes
    obtain ⟨entry, hentry, hkey⟩ := List.mem_map.mp hdeletes.mem_keys
    have hindex : hashIndex key = hash :=
      hkey ▸ hplaced hash entry (hwalk.visited.sublist.subset hentry)
    rw [KvmHashTable.content, kvmFetchHash, KvmHashTable.withChain]
    dsimp only
    rw [if_pos hindex, hwalk.deleted key hdeletes]
  · intro key hkept
    rw [KvmHashTable.content, kvmFetchHash, KvmHashTable.withChain]
    dsimp only
    by_cases hindex : hashIndex key = hash
    · rw [if_pos hindex, hwalk.kept key hkept, ← hindex]
      rfl
    · rw [if_neg hindex]
      rfl

theorem walkChains_spec (func : WalkFunc σ) (data : σ) {map : KvmHashTable}
    (hplaced : map.Placed) {hashes : List (Fin TABLE_SIZE)} (hnodup : hashes.Nodup) :
    ChainsWalked func data map hashes (walkChains func data map hashes) := by
  induction hashes generalizing data map with
  | nil =>
      exact ⟨hplaced, rfl, List.prefix_rfl, fun _ => rfl, (fun _ h => nomatch h.mem_keys),
        fun _ _ => rfl⟩
  | cons hash hashes ih =>
      rw [List.nodup_cons] at hnodup
      have hwalk := chainWalk_spec func data (map.nodup hash)
      have hsub := chainWalk_sublist func data (map.table hash)
      have hchain := (map.nodup hash).sublist (hsub.map KvmHash.key)
      obtain ⟨hmap, hdeleted, hkept⟩ := withChain_walked hplaced hwalk hchain hsub
      rw [walkChains]
      dsimp only
      split
      next hstopped =>
        obtain ⟨visit, hvisit, hstop⟩ := hwalk.stopped.mp hstopped
        exact ⟨hmap, hwalk.asked, hwalk.visited.trans (List.prefix_append _ _),
          fun hgo => absurd hstop (hgo visit hvisit), hdeleted, hkept⟩
      next hstopped =>
        have hgo : ∀ visit ∈ (chainWalk func data (map.table hash)).visits, visit.2 ≠ .stop :=
          fun visit hvisit hstop => hstopped (hwalk.stopped.mpr ⟨visit, hvisit, hstop⟩)
        have hrest := ih (chainWalk func data (map.table hash)).data hmap hnodup.2
        have htables : hashes.flatMap
            (map.withChain hash (chainWalk func data (map.table hash)).chain hchain).table =
            hashes.flatMap map.table :=
          List.flatMap_congr fun i hi =>
            withChain_table_of_ne hchain fun heq => hnodup.1 (heq ▸ hi)
        have hvisited := hrest.visited
        have hall := hrest.all
        rw [htables] at hvisited hall
        have hfront := hwalk.all (Bool.eq_false_iff.mpr hstopped)
        refine ⟨hrest.placed, hwalk.asked.append hgo hrest.asked, ?_, ?_, ?_, ?_⟩
        · rw [List.map_append, hfront, List.flatMap_cons]
          exact (List.prefix_append_right_inj _).mpr hvisited
        · intro hgo
          rw [List.map_append, hfront, List.flatMap_cons,
            hall fun visit hvisit => hgo visit (List.mem_append_right _ hvisit)]
        · intro key hdeletes
          by_cases hlater : Deletes (walkChains func (chainWalk func data (map.table hash)).data
              (map.withChain hash (chainWalk func data (map.table hash)).chain hchain)
              hashes).visits key
          · exact hrest.deleted key hlater
          · rw [hrest.kept key hlater]
            exact hdeleted key ((deletes_append.mp hdeletes).resolve_right hlater)
        · intro key hnot
          rw [deletes_append, not_or] at hnot
          rw [hrest.kept key hnot.2, hkept key hnot.1]

theorem kvmWalkHash_spec (func : WalkFunc σ) (data : σ) {map : KvmHashTable}
    (hplaced : map.Placed) :
    ChainsWalked func data map (List.finRange TABLE_SIZE) (kvmWalkHash map func data).2 := by
  have hwalk : ∀ hashes : List (Fin TABLE_SIZE), hashes.Nodup → ChainsWalked func data map hashes
      (KvmResult.ok, walkChains func data map hashes).2 := fun _ hnodup =>
    walkChains_spec func data hplaced hnodup
  rw [kvmWalkHash]
  exact hwalk _ (List.nodup_finRange TABLE_SIZE)

theorem kvmWalkHash_code (func : WalkFunc σ) (data : σ) (map : KvmHashTable) :
    (kvmWalkHash map func data).1 = .ok := by
  rw [kvmWalkHash]

theorem kvmWalkHash_walked (func : WalkFunc σ) (data : σ) {map : KvmHashTable}
    (hplaced : map.Placed) :
    Walked map.content func data (kvmWalkHash map func data).2.visits
      (kvmWalkHash map func data).2.data (kvmWalkHash map func data).2.map.content := by
  have hwalk := kvmWalkHash_spec func data hplaced
  generalize (kvmWalkHash map func data).2 = walk at hwalk ⊢
  have hvisited := hwalk.visited
  have hall := hwalk.all
  rw [← KvmHashTable.entries] at hvisited hall
  refine ⟨hwalk.asked, ?_, ?_, ?_, hwalk.deleted, hwalk.kept⟩
  · intro visit hvisit
    exact hplaced.content_eq_some_iff.mpr
      (hvisited.sublist.subset (List.mem_map_of_mem hvisit))
  · have hnodup := hplaced.nodup_entries.sublist (hvisited.sublist.map KvmHash.key)
    rwa [List.map_map] at hnodup
  · intro hgo key value hheld
    rw [hall hgo]
    exact hplaced.content_eq_some_iff.mp hheld

/-! ### The calls -/

theorem chainRemove_nodup {key : List Octet} {chain rest : List KvmHash}
    (h : chainRemove key chain = some rest) (hnodup : (chain.map KvmHash.key).Nodup) :
    (rest.map KvmHash.key).Nodup :=
  hnodup.sublist ((chainRemove_sublist h).map KvmHash.key)

theorem KvmHashTable.Placed.remove {map : KvmHashTable} (hplaced : map.Placed)
    (key : List Octet) : (kvmRemoveHash map key).2.Placed := by
  rw [kvmRemoveHash]
  split
  · exact hplaced
  next chain hchain =>
    exact hplaced.withChain (chainRemove_nodup hchain (map.nodup _)) fun entry hentry =>
      hplaced _ entry ((chainRemove_sublist hchain).subset hentry)

theorem mem_chainPut {key value : List Octet} {chain : List KvmHash} {entry : KvmHash}
    (h : entry ∈ chainPut key value chain) : entry.key = key ∨ entry ∈ chain := by
  induction chain with
  | nil => exact .inl (by rw [List.mem_singleton.mp h])
  | cons first next ih =>
      rw [chainPut] at h
      split at h
      · rcases List.mem_cons.mp h with rfl | h
        · exact .inl rfl
        · exact .inr (List.mem_cons_of_mem _ h)
      · rcases List.mem_cons.mp h with rfl | h
        · exact .inr List.mem_cons_self
        · exact (ih h).imp id (List.mem_cons_of_mem _)

theorem KvmHashTable.Placed.put {map : KvmHashTable} (hplaced : map.Placed)
    (key value : List Octet) : (kvmPutHash map key value).2.Placed :=
  hplaced.withChain (nodup_chainPut value (map.nodup _)) fun entry hentry =>
    (mem_chainPut hentry).elim (fun h => by rw [h]) (hplaced _ entry)

theorem KvmHashTable.Placed.hashCall {map : KvmHashTable} (hplaced : map.Placed)
    (call : HashCall σ) : (map.hashCall call).2.Placed := by
  cases call with
  | put key value allocated =>
      cases allocated with
      | false => exact hplaced.remove key
      | true => exact hplaced.put key value
  | get key allocated => exact hplaced
  | remove key => exact hplaced.remove key
  | walk func data =>
      have hwalk := (kvmWalkHash_spec func data hplaced).placed
      rw [KvmHashTable.hashCall]
      -- The table is too large to be unfolded.
      generalize kvmWalkHash map func data = walk at hwalk ⊢
      exact hwalk
  | truncate => exact placed_empty

theorem kvmRemoveHash_content (map : KvmHashTable) (key : List Octet) :
    (kvmRemoveHash map key).2.content = Function.update map.content key none :=
  (call_refines map (.remove key)).2

theorem hashCall_meets_iff {map : KvmHashTable} (hplaced : map.Placed) (call : HashCall σ) :
    call.Meets map.content (map.hashCall call).1 (map.hashCall call).2.content ↔
      ¬ call.Loses map.content := by
  cases call with
  | put key value allocated =>
      cases allocated with
      | false =>
          have hcontent : (map.hashCall (σ := σ) (.put key value false)).2.content =
            Function.update map.content key none := kvmRemoveHash_content map key
          rw [HashCall.Loses, not_and, not_not]
          constructor
          · rintro ⟨-, heq⟩ -
            rw [hcontent, if_neg Bool.false_ne_true] at heq
            rw [← congrFun heq key, Function.update_self]
          · intro hnone
            refine ⟨rfl, ?_⟩
            rw [hcontent]
            exact Function.update_eq_self_iff.mpr (hnone rfl).symm
      | true =>
          exact iff_of_true ⟨rfl, (call_refines map (.put key value)).2⟩ fun h => nomatch h.1
  | get key allocated =>
      refine iff_of_true ⟨?_, rfl⟩ not_false
      rw [KvmHashTable.hashCall, kvmGetHashMem, KvmHashTable.content]
      cases kvmFetchHash map key with
      | none => rfl
      | some value => cases allocated <;> rfl
  | remove key =>
      refine iff_of_true ⟨?_, kvmRemoveHash_content map key⟩ not_false
      have hanswer := congrArg Prod.fst (call_refines map (.remove key)).1
      exact congrArg HashAnswer.code hanswer
  | walk func data =>
      refine iff_of_true ?_ not_false
      have hcode := kvmWalkHash_code func data map
      have hwalk := kvmWalkHash_walked func data hplaced
      rw [KvmHashTable.hashCall, HashCall.Meets]
      generalize kvmWalkHash map func data = walk at hcode hwalk ⊢
      exact ⟨_, _, congrArg (HashAnswer.walked · _ _) hcode, hwalk⟩
  | truncate => exact iff_of_true ⟨rfl, rfl⟩ not_false

theorem finiteMap_iff {map : KvmHashTable} (hplaced : map.Placed) (calls : List (HashCall σ)) :
    map.FiniteMap calls ↔ map.KeepsHeld calls := by
  induction calls generalizing map with
  | nil => exact Iff.rfl
  | cons call calls ih =>
      rw [KvmHashTable.FiniteMap, KvmHashTable.KeepsHeld, hashCall_meets_iff hplaced,
        ih (hplaced.hashCall call)]

/-- A map that starts empty is a finite map throughout the session if and only if no put of a key
that it holds at the time is refused the memory. -/
theorem kvmHash_finiteMap_iff (calls : List (HashCall σ)) :
    KvmHashTable.empty.FiniteMap calls ↔ KvmHashTable.empty.KeepsHeld calls :=
  finiteMap_iff placed_empty calls

/-- The value that cannot be replaced is lost. -/
theorem finiteMap_refusedPut :
    ¬ KvmHashTable.empty.FiniteMap (σ := Unit)
      [.put (ascii "key") (ascii "old") true, .put (ascii "key") (ascii "new") false] := by
  intro h
  have hcontent := congrFun h.2.1.2 (ascii "key")
  have hlost : (((KvmHashTable.empty.hashCall (σ := Unit)
      (.put (ascii "key") (ascii "old") true)).2.hashCall (σ := Unit)
      (.put (ascii "key") (ascii "new") false)).2.content (ascii "key")) = none := by
    decide
  have hheld : ((KvmHashTable.empty.hashCall (σ := Unit)
      (.put (ascii "key") (ascii "old") true)).2.content (ascii "key")) = some (ascii "old") := by
    decide
  rw [hlost] at hcontent
  exact nomatch hcontent.trans hheld

end Snert
