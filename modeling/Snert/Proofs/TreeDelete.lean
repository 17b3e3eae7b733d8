/-
Module: Snert.Proofs.TreeDelete
Purpose: What `tree_delete` takes out of a tree. A node with one child is cut off with all that is
  below it; a node with two is given the datum of its successor, and the successor is deleted by
  looking for the old datum below it, which goes through NULL unless the two are equal; and a datum
  that is not there is looked for through NULL as well.
Trusted boundary: none
Main exports: treeDelete_exact_iff
-/
import Snert.Proofs.TreeLinked

namespace Snert

open CModel Run Lists BinaryTree

variable {α : Type} {m m' : Heap (TreeNode α)} {parent : Ptr} {x y : Nat × α}
  {l r s t : BinaryTree (Nat × α)} {p q rounds : Nat} {cmp : α → α → Int} {data : α}

/-! ### Looking for a node -/

theorem treeFind_yields (h : Linked m parent t) (hrounds : t.numNodes < rounds) :
    (treeFind cmp data rounds (rootOf t) m).Yields
      (rootOf (foundBy (fun x => cmp data x.2) t)) := by
  induction t generalizing parent rounds with
  | nil =>
      obtain ⟨rounds, rfl⟩ := Nat.exists_eq_add_one.mpr hrounds
      exact yields_pure _
  | node x l r ihl ihr =>
      obtain ⟨rounds, rfl⟩ := Nat.exists_eq_add_one.mpr (Nat.zero_lt_of_lt hrounds)
      obtain ⟨hget, hl, hr⟩ := h
      rw [numNodes] at hrounds
      rw [treeFind, loop, rootOf, treeFindRound, Run.bind_assoc]
      refine (Heap.yields_load hget).bind ?_
      rw [foundBy]
      dsimp only
      by_cases hzero : cmp data x.2 = 0
      · rw [if_pos hzero, if_neg (by omega), if_neg (by omega)]
        exact yields_pure _
      · rw [if_neg hzero]
        by_cases hlt : cmp data x.2 < 0
        · rw [if_pos hlt, if_pos hlt]
          exact ihl hl (by omega)
        · rw [if_neg hlt, if_neg hlt, if_pos (by omega)]
          exact ihr hr (by omega)

theorem treeSuccessorLoop_yields (h : Linked m parent t) (hnode : t ≠ nil)
    (hrounds : t.numNodes ≤ rounds) :
    (Run.loop (treeSuccessorRound m) rounds (rootOf t)).Yields (rootOf (leftmost t)) := by
  induction t generalizing parent rounds with
  | nil => exact absurd rfl hnode
  | node x l r ihl _ =>
      rw [numNodes] at hrounds
      obtain ⟨rounds, rfl⟩ := Nat.exists_eq_add_one.mpr (Nat.zero_lt_of_lt hrounds)
      obtain ⟨hget, hl, -⟩ := h
      rw [loop, rootOf, treeSuccessorRound, Run.bind_assoc]
      refine (Heap.yields_load hget).bind ?_
      dsimp only
      cases l with
      | nil => exact yields_pure _
      | node y l' r' => exact ihl hl (by simp) (by omega)

theorem treeSuccessor_yields (h : Linked m parent (node x l r)) (hnode : r ≠ nil)
    (hrounds : r.numNodes ≤ rounds) :
    (treeSuccessor rounds (some x.1) m).Yields (rootOf (leftmost r)) := by
  obtain ⟨hget, -, hr⟩ := h
  rw [treeSuccessor]
  refine (Heap.yields_load hget).bind ?_
  have hright : rootOf r ≠ none := by
    cases r with
    | nil => exact absurd rfl hnode
    | node y l' r' => nofun
  rw [if_neg hright]
  exact treeSuccessorLoop_yields hr hnode hrounds

/-! ### Cutting off a node -/

/-- A parent without the link to a child. -/
def unlinked (p : Nat) (c : TreeNode α) : TreeNode α :=
  if some p = c.left then { c with left := none } else { c with right := none }

/-- Memory after a node was cut off from its parent and freed. -/
structure CutOff (m m' : Heap (TreeNode α)) (p q : Nat) (c : TreeNode α) : Prop where
  parent : m'.get q = some (unlinked p c)
  frame : ∀ i, i ≠ p → i ≠ q → m'.get i = m.get i

theorem treeRemoveNode_ends {c d : TreeNode α} (hget : m.get p = some c)
    (hparent : c.parent = some q) (hd : m.get q = some d) (hne : p ≠ q) :
    (treeRemoveNode (rounds + 1) (some p) none m).Ends fun (answer, m') =>
      answer = some c.data ∧ CutOff m m' p q d := by
  have hrelink : (treeRelink c.parent (some p) none m).Yields
      (m.set q (some (unlinked p d))) := by
    rw [hparent, treeRelink]
    refine (Heap.yields_load hd).bind ?_
    unfold unlinked
    by_cases hleft : some p = d.left
    · rw [if_pos hleft, if_pos hleft]
      exact Heap.yields_modify hd _
    · rw [if_neg hleft, if_neg hleft]
      exact Heap.yields_modify hd _
  have hget' : (m.set q (some (unlinked p d))).get p = some c :=
    (Heap.get_set_ne hne _).trans hget
  have hbare : ((m.set q (some (unlinked p d))).set p
      (some { c with left := none, right := none })).get p =
        some { c with left := none, right := none } :=
    Heap.get_set_self (Heap.lt_of_get hget') _
  have hfree : (treeFree (rounds + 1) (some p) ((m.set q (some (unlinked p d))).set p
      (some { c with left := none, right := none }))).Yields
        (((m.set q (some (unlinked p d))).set p
          (some { c with left := none, right := none })).set p none) := by
    rw [treeFree]
    refine (Heap.yields_load hbare).bind ?_
    rw [treeFree]
    refine (yields_pure _).bind ((Heap.yields_load hbare).bind ?_)
    rw [treeFree]
    exact (yields_pure _).bind (Heap.yields_free hbare)
  rw [treeRemoveNode, (Heap.yields_load hget).bind_ends_iff, hrelink.bind_ends_iff, treeAdopt,
    (yields_pure _).bind_ends_iff, (Heap.yields_modify hget' _).bind_ends_iff,
    (Heap.yields_load hbare).bind_ends_iff, hfree.bind_ends_iff, ends_pure]
  refine ⟨rfl, ?_, fun i hip hiq => ?_⟩
  · rw [Heap.get_set_ne hne.symm, Heap.get_set_ne hne.symm,
      Heap.get_set_self (Heap.lt_of_get hd)]
  · rw [Heap.get_set_ne hip, Heap.get_set_ne hip, Heap.get_set_ne hiq]

theorem rootOf_prune (h : rootOf t ≠ some p) : rootOf (prune Prod.fst p t) = rootOf t := by
  cases t with
  | nil => rfl
  | node x l r =>
      rw [prune, if_neg fun heq => h (congrArg some heq)]
      rfl

theorem prune_of_root (h : rootOf t = some p) : prune Prod.fst p t = nil := by
  cases t with
  | nil => rfl
  | node x l r => rw [prune, if_pos (Option.some.inj h)]

theorem linked_prune (h : Linked m parent t) (hnodup : (addresses t).Nodup)
    (hmem : p ∈ addresses t) (hroot : rootOf t ≠ some p) :
    ∃ c q d, m.get p = some c ∧ c.parent = some q ∧ m.get q = some d ∧ p ≠ q ∧ q ∈ addresses t ∧
      ∀ m', CutOff m m' p q d → Linked m' parent (prune Prod.fst p t) := by
  induction t generalizing parent with
  | nil => cases hmem
  | node x l r ihl ihr =>
      obtain ⟨hget, hl, hr⟩ := h
      obtain ⟨hleft, hright, hnodupl, hnodupr, hboth⟩ := nodup_keys_node.mp hnodup
      have hxp : x.1 ≠ p := fun heq => hroot (congrArg some heq)
      have hkeep {m' : Heap (TreeNode α)} {q : Nat} {d : TreeNode α} {part : BinaryTree (Nat × α)}
          (hcut : CutOff m m' p q d) (hpart : Linked m (some x.1) part) (hp : p ∉ addresses part)
          (hq : q ∉ addresses part) : Linked m' (some x.1) part :=
        linked_congr hpart fun i hi =>
          hcut.frame i (ne_of_mem_of_not_mem hi hp) (ne_of_mem_of_not_mem hi hq)
      rcases mem_addresses_node.mp hmem with hmem | heq | hmem
      · have hpr : p ∉ addresses r := hboth p hmem
        have htree : prune Prod.fst p (node x l r) = node x (prune Prod.fst p l) r := by
          rw [prune, if_neg hxp, prune_of_notMem hpr]
        rw [htree]
        by_cases hrootl : rootOf l = some p
        · obtain ⟨-, c, hc, hparent⟩ := get_root hl hrootl
          refine ⟨c, x.1, _, hc, hparent, hget, hxp.symm, mem_addresses_node.mpr (.inr (.inl rfl)),
            fun m' hcut => ?_⟩
          rw [prune_of_root hrootl]
          refine ⟨hcut.parent.trans ?_, trivial, hkeep hcut hr hpr hright⟩
          rw [unlinked, if_pos hrootl.symm]
          rfl
        · obtain ⟨c, q, d, hc, hparent, hd, hne, hq, hcut⟩ := ihl hl hnodupl hmem hrootl
          refine ⟨c, q, d, hc, hparent, hd, hne, mem_addresses_node.mpr (.inl hq),
            fun m' hcutoff => ?_⟩
          refine ⟨?_, hcut m' hcutoff, hkeep hcutoff hr hpr (hboth q hq)⟩
          rw [hcutoff.frame x.1 hxp (ne_of_mem_of_not_mem hq hleft).symm, rootOf_prune hrootl]
          exact hget
      · exact absurd heq.symm hxp
      · have hpl : p ∉ addresses l := fun hin => hboth p hin hmem
        have htree : prune Prod.fst p (node x l r) = node x l (prune Prod.fst p r) := by
          rw [prune, if_neg hxp, prune_of_notMem hpl]
        rw [htree]
        by_cases hrootr : rootOf r = some p
        · obtain ⟨-, c, hc, hparent⟩ := get_root hr hrootr
          refine ⟨c, x.1, _, hc, hparent, hget, hxp.symm, mem_addresses_node.mpr (.inr (.inl rfl)),
            fun m' hcut => ?_⟩
          have hnot : some p ≠ rootOf l := fun heq => hpl (get_root hl heq.symm).1
          rw [prune_of_root hrootr]
          refine ⟨hcut.parent.trans ?_, hkeep hcut hl hpl hleft, trivial⟩
          rw [unlinked, if_neg hnot]
          rfl
        · obtain ⟨c, q, d, hc, hparent, hd, hne, hq, hcut⟩ := ihr hr hnodupr hmem hrootr
          refine ⟨c, q, d, hc, hparent, hd, hne, mem_addresses_node.mpr (.inr (.inr hq)),
            fun m' hcutoff => ?_⟩
          refine ⟨?_, hkeep hcutoff hl hpl fun hin => hboth q hin hq, hcut m' hcutoff⟩
          rw [hcutoff.frame x.1 hxp (ne_of_mem_of_not_mem hq hright).symm, rootOf_prune hrootr]
          exact hget

/-! ### What is deleted -/

theorem treeDelete_found (h : Linked m parent t) (hrounds : t.numNodes < rounds) :
    ∃ rounds' parent', Linked m parent' (foundBy (fun x => cmp data x.2) t) ∧
      (foundBy (fun x => cmp data x.2) t).numNodes ≤ rounds' ∧
      ∀ Q, (treeDelete cmp data rounds (rootOf t) m).Ends Q ↔
        (treeDelete cmp data (rounds' + 1) (rootOf (foundBy (fun x => cmp data x.2) t)) m).Ends
          Q := by
  induction t generalizing parent rounds with
  | nil =>
      obtain ⟨rounds, rfl⟩ := Nat.exists_eq_add_one.mpr hrounds
      exact ⟨rounds, none, trivial, Nat.zero_le _, fun _ => Iff.rfl⟩
  | node x l r ihl ihr =>
      rw [numNodes] at hrounds
      obtain ⟨rounds, rfl⟩ := Nat.exists_eq_add_one.mpr (Nat.zero_lt_of_lt hrounds)
      rw [foundBy]
      by_cases hlt : cmp data x.2 < 0
      · obtain ⟨rounds', parent', hfound, hsize, hiff⟩ :=
          @ihl _ rounds h.2.1 (by omega)
        rw [if_pos hlt]
        refine ⟨rounds', parent', hfound, hsize, fun Q => ?_⟩
        rw [← hiff, rootOf, treeDelete, (Heap.yields_load h.1).bind_ends_iff]
        dsimp only
        rw [if_neg (by simp), if_pos hlt]
      · rw [if_neg hlt]
        by_cases hgt : 0 < cmp data x.2
        · obtain ⟨rounds', parent', hfound, hsize, hiff⟩ :=
            @ihr _ rounds h.2.2 (by omega)
          rw [if_pos hgt]
          refine ⟨rounds', parent', hfound, hsize, fun Q => ?_⟩
          rw [← hiff, rootOf, treeDelete, (Heap.yields_load h.1).bind_ends_iff]
          dsimp only
          rw [if_neg (by simp), if_neg hlt, if_pos hgt]
        · rw [if_neg hgt]
          refine ⟨rounds, parent, h, ?_, fun _ => Iff.rfl⟩
          rw [numNodes]
          omega

theorem not_ends_treeDelete_null {Q : Option α × Heap (TreeNode α) → Prop} :
    ¬ (treeDelete cmp data rounds none m).Ends Q := by
  cases rounds with
  | zero => exact fun h => nomatch h.2.choose_spec.1
  | succ rounds =>
      intro h
      rw [treeDelete, ends_bind] at h
      exact Heap.not_ends_load_null h

theorem treeDelete_one (h : Linked m parent (node x l r)) (hfound : cmp data x.2 = 0)
    (hchild : l = nil ∨ r = nil) (Q : Option α × Heap (TreeNode α) → Prop) :
    (treeDelete cmp data (rounds + 1) (some x.1) m).Ends Q ↔
      (treeRemoveNode (rounds + 1) (some x.1) none m).Ends Q := by
  rw [treeDelete, (Heap.yields_load h.1).bind_ends_iff]
  dsimp only
  rw [if_neg nofun, if_neg (by omega), if_neg (by omega)]
  rcases hchild with rfl | rfl
  · rw [if_neg fun hboth => hboth.1 rfl, rootOf]
    by_cases hright : rootOf r ≠ none
    · rw [if_pos hright]
    · rw [if_neg hright, if_neg fun hne => hne rfl]
  · rw [if_neg fun hboth => hboth.2 rfl, if_neg fun hne => hne rfl]
    by_cases hleft : rootOf l ≠ none
    · rw [if_pos hleft]
      rfl
    · rw [if_neg hleft]

theorem treeDelete_two {y : Nat × α} {s : BinaryTree (Nat × α)}
    (h : Linked m parent (node x l r)) (hfound : cmp data x.2 = 0) (hl : l ≠ nil)
    (hsuccessor : leftmost r = node y nil s) (hy : ∃ q cell, m.get y.1 = some cell ∧
      cell = { data := y.2, left := none, right := rootOf s, parent := q })
    (hsize : r.numNodes ≤ rounds + 1) (Q : Option α × Heap (TreeNode α) → Prop) :
    (treeDelete cmp data (rounds + 1) (some x.1) m).Ends Q ↔
      (treeDelete cmp data rounds (some y.1) (m.set x.1 (some
        { data := y.2, left := rootOf l, right := rootOf r, parent := parent }))).Ends
          fun answer => Q (some x.2, answer.2) := by
  obtain ⟨q, cell, hcell, rfl⟩ := hy
  have hr : r ≠ nil := by
    rintro rfl
    cases hsuccessor
  have hroot {t : BinaryTree (Nat × α)} (ht : t ≠ nil) : rootOf t ≠ none := by
    cases t with
    | nil => exact absurd rfl ht
    | node z l' r' => rintro ⟨⟩
  have hyields := treeSuccessor_yields h hr hsize
  rw [hsuccessor, rootOf] at hyields
  rw [treeDelete, (Heap.yields_load h.1).bind_ends_iff]
  dsimp only
  rw [if_neg (by simp), if_neg (by omega), if_neg (by omega), if_pos ⟨hroot hl, hroot hr⟩,
    hyields.bind_ends_iff, (Heap.yields_load hcell).bind_ends_iff,
    (Heap.yields_modify h.1 _).bind_ends_iff, ends_bind]
  simp only [ends_pure]

/-! ### The sequence of a tree -/

/-- The tree at a pointer is linked both ways, and has these data, in order. -/
def Sequence (m : Heap (TreeNode α)) (root : Ptr) (list : List α) : Prop :=
  ∃ t, rootOf t = root ∧ Linked m none t ∧ (addresses t).Nodup ∧ (inorder t).map Prod.snd = list

theorem Sequence.unique {root : Ptr} {list list' : List α} (h : Sequence m root list)
    (h' : Sequence m root list') : list = list' := by
  obtain ⟨t, hroot, hlinked, -, rfl⟩ := h
  obtain ⟨t', hroot', hlinked', -, rfl⟩ := h'
  rw [linked_unique hlinked hlinked' (hroot.trans hroot'.symm)]

theorem sequence_prune (hnodup : (addresses t).Nodup) (hbelow : Below (node x l r) t)
    (hroot : rootOf t ≠ some x.1) (h : Linked m none (prune Prod.fst x.1 t)) :
    ∃ before after, inorder t = before ++ inorder (node x l r) ++ after ∧
      Sequence m (rootOf t) ((before ++ after).map Prod.snd) := by
  obtain ⟨before, after, hwhole, hcut⟩ := inorder_prune hnodup hbelow
  refine ⟨before, after, hwhole, _, rootOf_prune hroot, h, ?_, by rw [hcut]⟩
  unfold addresses at hnodup ⊢
  rw [hwhole, List.append_assoc] at hnodup
  rw [hcut]
  exact hnodup.sublist (((List.sublist_append_right _ _).append_left before).map _)

/-- The datum of a node is replaced. -/
def relabel (p : Nat) (b : α) (x : Nat × α) : Nat × α :=
  (x.1, if x.1 = p then b else x.2)

theorem rootOf_relabel (p : Nat) (b : α) (t : BinaryTree (Nat × α)) :
    rootOf (t.map (relabel p b)) = rootOf t := by
  cases t <;> rfl

theorem addresses_relabel (p : Nat) (b : α) (t : BinaryTree (Nat × α)) :
    addresses (t.map (relabel p b)) = addresses t := by
  unfold addresses
  rw [inorder_map, List.map_map]
  rfl

theorem map_relabel_of_notMem {b : α} {list : List (Nat × α)} (h : p ∉ list.map Prod.fst) :
    list.map (relabel p b) = list := by
  refine (List.map_congr_left fun x hx => ?_).trans (List.map_id _)
  have hne : x.1 ≠ p := fun heq => h (heq ▸ List.mem_map_of_mem hx)
  rw [relabel, if_neg hne]
  rfl

theorem linked_relabel (h : Linked m parent t) {c : TreeNode α} (hget : m.get p = some c) (b : α) :
    Linked (m.set p (some { c with data := b })) parent (t.map (relabel p b)) := by
  induction t generalizing parent with
  | nil => trivial
  | node x l r ihl ihr =>
      obtain ⟨hcell, hl, hr⟩ := h
      refine ⟨?_, ihl hl, ihr hr⟩
      rw [rootOf_relabel, rootOf_relabel]
      by_cases hx : x.1 = p
      · subst hx
        obtain rfl := Option.some.inj (hget.symm.trans hcell)
        refine (Heap.get_set_self (Heap.lt_of_get hget) _).trans ?_
        rw [relabel, if_pos rfl]
      · refine (Heap.get_set_ne hx _).trans (hcell.trans ?_)
        rw [relabel, if_neg hx]

theorem linked_below (h : Linked m parent t) (hbelow : Below s t) : ∃ q, Linked m q s := by
  induction t generalizing parent with
  | nil => exact ⟨none, hbelow ▸ trivial⟩
  | node x l r ihl ihr =>
      rcases hbelow with rfl | hbelow | hbelow
      · exact ⟨parent, h⟩
      · exact ihl h.2.1 hbelow
      · exact ihr h.2.2 hbelow

/-! ### Deletion, case by case -/

theorem mem_addresses_below (hbelow : Below s t) (hp : p ∈ addresses s) : p ∈ addresses t := by
  cases s with
  | nil => cases hp
  | node z l' r' =>
      obtain ⟨b, hb, rfl⟩ := List.mem_map.mp hp
      exact List.mem_map_of_mem (mem_of_below hb hbelow)

theorem mem_addresses_root : x.1 ∈ addresses (node x l r) :=
  mem_addresses_node.mpr (.inr (.inl rfl))

theorem treeDelete_cut (h : Linked m none t) (hnodup : (addresses t).Nodup)
    (hrounds : t.numNodes < rounds) (hfound : foundBy (fun x => cmp data x.2) t = node x l r)
    (hchild : l = nil ∨ r = nil) (hroot : rootOf t ≠ some x.1) :
    (treeDelete cmp data rounds (rootOf t) m).Ends fun (answer, m') => answer = some x.2 ∧
      ∃ before after, inorder t = before ++ inorder (node x l r) ++ after ∧
        Sequence m' (rootOf t) ((before ++ after).map Prod.snd) := by
  obtain ⟨rounds', parent', hlinked, -, hiff⟩ := @treeDelete_found _ _ _ _ _ cmp data h
    hrounds
  have hbelow := below_foundBy (fun x => cmp data x.2) t
  have hzero := probe_of_foundBy hfound
  rw [hfound] at hlinked hiff hbelow
  have hmem : x.1 ∈ addresses t := mem_addresses_below hbelow mem_addresses_root
  obtain ⟨c, q, d, hc, hparent, hd, hne, -, hcut⟩ := linked_prune h hnodup hmem hroot
  obtain rfl := Option.some.inj (hc.symm.trans hlinked.1)
  rw [hiff, rootOf, treeDelete_one hlinked hzero hchild]
  refine (treeRemoveNode_ends hc hparent hd hne).mono ?_
  rintro ⟨answer, m'⟩ ⟨hanswer, hcutoff⟩
  exact ⟨hanswer, sequence_prune hnodup hbelow hroot (hcut m' hcutoff)⟩

theorem rootOf_ne_of_below (hnodup : (addresses t).Nodup) (hbelow : Below (node x l r) t)
    (hp : p ∈ addresses l ∨ p ∈ addresses r) : rootOf t ≠ some p := by
  cases t with
  | nil => nofun
  | node z l' r' =>
      intro hroot
      obtain rfl : z.1 = p := Option.some.inj hroot
      obtain ⟨hleft, hright, -⟩ := nodup_keys_node.mp hnodup
      have hin {part : BinaryTree (Nat × α)} (hpart : Below (node x l r) part) :
          z.1 ∈ addresses part := by
        obtain ⟨b, hb, hbz⟩ : ∃ b ∈ inorder (node x l r), b.1 = z.1 :=
          List.mem_map.mp (mem_addresses_node.mpr (hp.imp_right .inr))
        exact hbz ▸ List.mem_map_of_mem (mem_of_below hb hpart)
      rcases hbelow with heq | hbelow | hbelow
      · obtain ⟨rfl, rfl, rfl⟩ := BinaryTree.node.inj heq
        exact hp.elim hleft hright
      · exact hleft (hin hbelow)
      · exact hright (hin hbelow)

theorem sequence_successor (hnodup : (addresses t).Nodup) (hbelow : Below (node x l r) t)
    (hsuccessor : leftmost r = node y nil s) (hroot : rootOf t ≠ some y.1)
    (h : Linked m none (prune Prod.fst y.1 (t.map (relabel x.1 y.2)))) :
    ∃ before after,
      (inorder t).map Prod.snd =
        before ++ x.2 :: y.2 :: ((inorder s).map Prod.snd ++ after) ∧
      Sequence m (rootOf t) (before ++ y.2 :: after) := by
  -- Where the two nodes stand in the sequence.
  obtain ⟨rest, hright⟩ : ∃ rest, inorder r = y :: inorder s ++ rest := by
    cases r with
    | nil => exact nomatch hsuccessor
    | node z l' r' =>
        obtain ⟨c, s', hleftmost, rest, hrest⟩ := leftmost_node z l' r'
        obtain ⟨rfl, -, rfl⟩ := BinaryTree.node.inj (hsuccessor.symm.trans hleftmost)
        exact ⟨rest, hrest⟩
  obtain ⟨before, after, hwhole, -⟩ := inorder_prune hnodup hbelow
  have hsequence : inorder t =
      before ++ inorder l ++ x :: (y :: (inorder s ++ (rest ++ after))) := by
    rw [hwhole, inorder, hright]
    simp only [List.append_assoc, List.cons_append]
  have hkeys := hnodup
  unfold addresses at hkeys
  rw [hsequence, List.map_append, List.map_cons, List.nodup_middle, List.nodup_cons,
    ← List.map_append] at hkeys
  obtain ⟨hfirst, hrest⟩ := hkeys
  rw [List.map_append, List.mem_append, not_or] at hfirst
  have hrelabelled : inorder (t.map (relabel x.1 y.2)) =
      before ++ inorder l ++ [(x.1, y.2)] ++ y :: (inorder s ++ (rest ++ after)) := by
    rw [inorder_map, hsequence, List.map_append, List.map_cons, map_relabel_of_notMem hfirst.1,
      map_relabel_of_notMem hfirst.2, relabel, if_pos rfl, List.append_assoc _ [_] _,
      List.singleton_append]
  have hy : relabel x.1 y.2 y = y := by
    have hne : y.1 ≠ x.1 := fun heq => hfirst.2 (heq ▸ List.mem_cons_self)
    rw [relabel, if_neg hne]
  have hpart : Below (node y nil (s.map (relabel x.1 y.2))) (t.map (relabel x.1 y.2)) := by
    have hleftmost : Below (node y nil s) (node x l r) :=
      .inr (.inr (hsuccessor ▸ below_leftmost r))
    have hmapped := (hleftmost.trans hbelow).map (relabel x.1 y.2)
    rwa [BinaryTree.map, hy] at hmapped
  obtain ⟨before', after', hwhole', hpruned⟩ := sequence_prune
    (by rwa [addresses_relabel]) hpart (by rwa [rootOf_relabel]) h
  have hs : x.1 ∉ (inorder s).map Prod.fst := fun hin => hfirst.2 (by
    rw [List.map_cons, List.map_append]
    exact List.mem_cons_of_mem _ (List.mem_append_left _ hin))
  rw [inorder, inorder_map _ s, map_relabel_of_notMem hs, inorder, List.nil_append,
    List.append_assoc, List.cons_append] at hwhole'
  have hdistinct : (inorder (t.map (relabel x.1 y.2))).Nodup := by
    refine List.Nodup.of_map Prod.fst ?_
    rwa [← addresses, addresses_relabel]
  have heq := hwhole'.symm.trans hrelabelled
  rw [hwhole', List.nodup_middle, List.nodup_cons, List.mem_append, not_or] at hdistinct
  obtain ⟨hfront, -, hback⟩ :=
    (List.append_cons_inj_of_notMem hdistinct.1.1 hdistinct.1.2).mp heq
  obtain rfl := List.append_cancel_left hback
  refine ⟨(before ++ inorder l).map Prod.snd, (rest ++ after).map Prod.snd, ?_, ?_⟩
  · rw [hsequence]
    simp only [List.map_append, List.map_cons]
  · rw [rootOf_relabel, hfront] at hpruned
    simpa only [List.map_append, List.map_cons, List.map_nil, List.append_assoc,
      List.singleton_append] using hpruned

theorem treeDelete_at_successor (h : Linked m none t) (hnodup : (addresses t).Nodup)
    (hrounds : t.numNodes < rounds) (hfound : foundBy (fun x => cmp data x.2) t = node x l r)
    (hl : l ≠ nil) (hsuccessor : leftmost r = node y nil s) :
    ∃ rounds' q c, m.get x.1 = some c ∧
      Linked (m.set x.1 (some { c with data := y.2 })) q (node y nil s) ∧
      ∀ Q, (treeDelete cmp data rounds (rootOf t) m).Ends Q ↔
        (treeDelete cmp data (rounds' + 1) (some y.1)
          (m.set x.1 (some { c with data := y.2 }))).Ends fun answer => Q (some x.2, answer.2) := by
  obtain ⟨rounds', parent', hlinked, hsize, hiff⟩ := @treeDelete_found _ _ _ _ _ cmp data h
    hrounds
  have hbelow := below_foundBy (fun x => cmp data x.2) t
  have hzero := probe_of_foundBy hfound
  rw [hfound] at hlinked hiff hbelow hsize
  rw [numNodes] at hsize
  obtain ⟨rounds', rfl⟩ := Nat.exists_eq_add_one.mpr (Nat.zero_lt_of_lt hsize)
  have hpart : Below (node y nil s) r := hsuccessor ▸ below_leftmost r
  obtain ⟨q, hy⟩ := linked_below hlinked.2.2 hpart
  obtain ⟨-, hxr, -⟩ := nodup_keys_node.mp (nodup_keys_below hnodup hbelow)
  have hxs : x.1 ∉ addresses (node y nil s) := fun hin => hxr (mem_addresses_below hpart hin)
  refine ⟨rounds', q, _, hlinked.1, linked_set hy hxs _, fun Q => ?_⟩
  rw [hiff, rootOf]
  exact treeDelete_two hlinked hzero hl hsuccessor ⟨q, _, hy.1, rfl⟩ (by omega) Q

theorem treeDelete_successor (h : Linked m none t) (hnodup : (addresses t).Nodup)
    (hrounds : t.numNodes < rounds) (hfound : foundBy (fun x => cmp data x.2) t = node x l r)
    (hl : l ≠ nil) (hsuccessor : leftmost r = node y nil s) (hequal : cmp data y.2 = 0) :
    (treeDelete cmp data rounds (rootOf t) m).Ends fun (answer, m') => answer = some x.2 ∧
      ∃ before after,
        (inorder t).map Prod.snd =
          before ++ x.2 :: y.2 :: ((inorder s).map Prod.snd ++ after) ∧
        Sequence m' (rootOf t) (before ++ y.2 :: after) := by
  obtain ⟨rounds', q, c, hget, hy, hiff⟩ :=
    treeDelete_at_successor h hnodup hrounds hfound hl hsuccessor
  have hbelow : Below (node x l r) t := hfound ▸ below_foundBy (fun x => cmp data x.2) t
  have hyr : y.1 ∈ addresses r :=
    mem_addresses_below (hsuccessor ▸ below_leftmost r) mem_addresses_root
  have hyt : y.1 ∈ addresses t :=
    mem_addresses_below hbelow (mem_addresses_node.mpr (.inr (.inr hyr)))
  have hroot := rootOf_ne_of_below hnodup hbelow (.inr hyr)
  obtain ⟨d, p, e, hd, hparent, he, hne, -, hcut⟩ := linked_prune (linked_relabel h hget y.2)
    (by rwa [addresses_relabel]) (by rwa [addresses_relabel]) (by rwa [rootOf_relabel])
  rw [hiff, treeDelete_one hy hequal (.inl rfl)]
  refine (treeRemoveNode_ends hd hparent he hne).mono ?_
  rintro ⟨answer, m'⟩ ⟨-, hcutoff⟩
  exact ⟨rfl, sequence_successor hnodup hbelow hsuccessor hroot (hcut m' hcutoff)⟩

theorem not_ends_treeDelete_greater (h : Linked m none t) (hnodup : (addresses t).Nodup)
    (hrounds : t.numNodes < rounds) (hfound : foundBy (fun x => cmp data x.2) t = node x l r)
    (hl : l ≠ nil) (hsuccessor : leftmost r = node y nil s) (hless : cmp data y.2 < 0)
    {Q : Option α × Heap (TreeNode α) → Prop} :
    ¬ (treeDelete cmp data rounds (rootOf t) m).Ends Q := by
  obtain ⟨rounds', q, c, -, hy, hiff⟩ :=
    treeDelete_at_successor h hnodup hrounds hfound hl hsuccessor
  rw [hiff, treeDelete, (Heap.yields_load hy.1).bind_ends_iff]
  dsimp only
  rw [if_neg nofun, if_pos hless]
  exact not_ends_treeDelete_null

end Snert
