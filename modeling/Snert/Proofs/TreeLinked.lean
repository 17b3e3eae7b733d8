/-
Module: Snert.Proofs.TreeLinked
Purpose: What the nodes of type/tree.c on the heap say: a tree whose elements are data with the
  addresses of their nodes, each node linked to its children and back. `tree_insert` puts its datum
  into that tree, so what it builds is linked and in order.
Trusted boundary: none
Main exports: treeInsert_ends, Built, treeBuild_ends
-/
import Snert.Lists.SearchTree
import Snert.Util.Tree

namespace Snert

open CModel Run Lists BinaryTree

variable {α : Type}

/-! ### Linked nodes -/

/-- The pointer to the first node of a tree. -/
def rootOf : BinaryTree (Nat × α) → Ptr
  | nil => none
  | node x _ _ => some x.1

/-- The addresses of the nodes of a tree, in order. -/
def addresses (t : BinaryTree (Nat × α)) : List Nat :=
  (inorder t).map Prod.fst

/-- The nodes of a tree are on the heap, with their data, and each of them points to its children
and its parent. -/
def Linked (m : Heap (TreeNode α)) : Ptr → BinaryTree (Nat × α) → Prop
  | _, nil => True
  | parent, node x l r =>
      m.get x.1 = some { data := x.2, left := rootOf l, right := rootOf r, parent := parent } ∧
        Linked m (some x.1) l ∧ Linked m (some x.1) r

variable {m m' : Heap (TreeNode α)} {parent : Ptr} {x : Nat × α} {l r t t' : BinaryTree (Nat × α)}
  {p q : Nat}

theorem mem_addresses_node :
    p ∈ addresses (node x l r) ↔ p ∈ addresses l ∨ p = x.1 ∨ p ∈ addresses r := by
  unfold addresses
  rw [inorder, List.map_append, List.map_cons, List.mem_append, List.mem_cons]

theorem linked_congr (h : Linked m parent t) (hsame : ∀ p ∈ addresses t, m'.get p = m.get p) :
    Linked m' parent t := by
  induction t generalizing parent with
  | nil => trivial
  | node x l r ihl ihr =>
      obtain ⟨hget, hl, hr⟩ := h
      refine ⟨?_, ihl hl fun p hp => ?_, ihr hr fun p hp => ?_⟩
      · rw [hsame _ (mem_addresses_node.mpr (.inr (.inl rfl))), hget]
      · exact hsame p (mem_addresses_node.mpr (.inl hp))
      · exact hsame p (mem_addresses_node.mpr (.inr (.inr hp)))

theorem linked_set (h : Linked m parent t) (hp : p ∉ addresses t) (cell : Option (TreeNode α)) :
    Linked (m.set p cell) parent t :=
  linked_congr h fun _ hq => Heap.get_set_ne (ne_of_mem_of_not_mem hq hp) cell

theorem lt_of_mem_addresses (h : Linked m parent t) (hp : p ∈ addresses t) :
    p < m.cells.length := by
  induction t generalizing parent with
  | nil => cases hp
  | node x l r ihl ihr =>
      obtain ⟨hget, hl, hr⟩ := h
      rcases mem_addresses_node.mp hp with hp | rfl | hp
      · exact ihl hl hp
      · exact Heap.lt_of_get hget
      · exact ihr hr hp

theorem linked_unique {parent' : Ptr} (h : Linked m parent t) (h' : Linked m parent' t')
    (hroot : rootOf t = rootOf t') : t = t' := by
  induction t generalizing t' parent parent' with
  | nil =>
      cases t' with
      | nil => rfl
      | node y l' r' => cases hroot
  | node x l r ihl ihr =>
      cases t' with
      | nil => cases hroot
      | node y l' r' =>
          obtain ⟨hget, hl, hr⟩ := h
          obtain ⟨hget', hl', hr'⟩ := h'
          have haddress : x.1 = y.1 := Option.some.inj hroot
          rw [haddress, hget'] at hget
          obtain ⟨hdata, hleft, hright, -⟩ := TreeNode.mk.inj (Option.some.inj hget)
          rw [ihl hl hl' hleft.symm, ihr hr hr' hright.symm, Prod.ext haddress hdata.symm]

theorem linked_adopt (h : Linked m parent t) (hnodup : (addresses t).Nodup)
    (hroot : rootOf t = some p) {cell : TreeNode α} (hget : m.get p = some cell) (parent' : Ptr) :
    Linked (m.set p (some { cell with parent := parent' })) parent' t := by
  cases t with
  | nil => cases hroot
  | node x l r =>
      obtain rfl : x.1 = p := Option.some.inj hroot
      obtain ⟨hcell, hl, hr⟩ := h
      obtain rfl := Option.some.inj (hget.symm.trans hcell)
      obtain ⟨hleft, hright, -⟩ := nodup_keys_node.mp hnodup
      exact ⟨Heap.get_set_self (Heap.lt_of_get hget) _, linked_set hl hleft _,
        linked_set hr hright _⟩

theorem get_root (h : Linked m parent t) (hroot : rootOf t = some p) :
    p ∈ addresses t ∧ ∃ cell, m.get p = some cell ∧ cell.parent = parent := by
  cases t with
  | nil => cases hroot
  | node x l r =>
      obtain rfl : x.1 = p := Option.some.inj hroot
      exact ⟨mem_addresses_node.mpr (.inr (.inl rfl)), _, h.1, rfl⟩

/-! ### Insertion -/

theorem treeAttach_ends {cell : TreeNode α} (hget : m.get p = some cell) (h : Linked m parent t)
    (hnodup : (addresses t).Nodup) (hroot : rootOf t ≠ none) (hp : p ∉ addresses t)
    (f : TreeNode α → TreeNode α) :
    (do
      let m ← m.modify (some p) f
      let m ← m.modify (rootOf t) fun c => { c with parent := some p }
      return ((some p : Ptr), m)).Ends fun (root, m') =>
        root = some p ∧ m'.get p = some (f cell) ∧ Linked m' (some p) t ∧
          m'.cells.length = m.cells.length ∧
          ∀ q, q ∉ addresses t → q ≠ p → m'.get q = m.get q := by
  obtain ⟨y, hy⟩ := Option.ne_none_iff_exists'.mp hroot
  obtain ⟨hmem, child, hchild, -⟩ := get_root h hy
  have hne : y ≠ p := ne_of_mem_of_not_mem hmem hp
  have hset := linked_set h hp (some (f cell))
  have hchild' : (m.set p (some (f cell))).get y = some child :=
    (Heap.get_set_ne hne _).trans hchild
  rw [(Heap.yields_modify hget f).bind_ends_iff, hy,
    (Heap.yields_modify hchild' _).bind_ends_iff, ends_pure]
  refine ⟨rfl, ?_, linked_adopt hset hnodup hy hchild' _, ?_, fun q hq hqp => ?_⟩
  · rw [Heap.get_set_ne hne.symm, Heap.get_set_self (Heap.lt_of_get hget)]
  · rw [Heap.length_set, Heap.length_set]
  · rw [Heap.get_set_ne (ne_of_mem_of_not_mem hmem hq).symm, Heap.get_set_ne hqp]

/-- The memory after a datum was inserted into a tree. -/
structure Inserted (cmp : α → α → Int) (data : α) (m : Heap (TreeNode α)) (parent : Ptr)
    (t : BinaryTree (Nat × α)) (answer : Ptr × Heap (TreeNode α)) : Prop where
  root : answer.1 = rootOf (insertBy (fun x => cmp data x.2) (m.cells.length, data) t)
  linked : Linked answer.2 ((rootOf t).bind fun _ => parent)
    (insertBy (fun x => cmp data x.2) (m.cells.length, data) t)
  length : answer.2.cells.length = m.cells.length + 1
  frame : ∀ p < m.cells.length, p ∉ addresses t → answer.2.get p = m.get p

theorem rootOf_insertBy (probe : Nat × α → Int) (x : Nat × α) (t : BinaryTree (Nat × α)) :
    rootOf (insertBy probe x t) ≠ none := by
  cases t with
  | nil => simp [insertBy, rootOf]
  | node y l r =>
      rw [insertBy]
      split_ifs <;> simp [rootOf]

theorem mem_addresses_insertBy {probe : Nat × α → Int} :
    p ∈ addresses (insertBy probe x t) ↔ p = x.1 ∨ p ∈ addresses t := by
  unfold addresses
  rw [((inorder_insertBy probe x t).map Prod.fst).mem_iff, List.map_cons, List.mem_cons]

theorem nodup_addresses_insertBy {probe : Nat × α → Int} (hx : x.1 ∉ addresses t)
    (h : (addresses t).Nodup) : (addresses (insertBy probe x t)).Nodup := by
  unfold addresses
  rw [((inorder_insertBy probe x t).map Prod.fst).nodup_iff, List.map_cons, List.nodup_cons]
  exact ⟨hx, h⟩

/-- The memory after a datum was inserted below a node, and the node linked to what was made of its
child. -/
structure InsertedBelow (cmp : α → α → Int) (data : α) (m : Heap (TreeNode α)) (p : Nat)
    (cell : TreeNode α) (t : BinaryTree (Nat × α)) (answer : Ptr × Heap (TreeNode α)) : Prop where
  root : answer.1 = some p
  cell : answer.2.get p = some cell
  linked : Linked answer.2 (some p)
    (insertBy (fun x => cmp data x.2) (m.cells.length, data) t)
  length : answer.2.cells.length = m.cells.length + 1
  frame : ∀ q < m.cells.length, q ≠ p → q ∉ addresses t → answer.2.get q = m.get q

theorem treeInsert_below {cmp : α → α → Int} {data : α} {rounds : Nat} {cell : TreeNode α}
    (hget : m.get p = some cell) (h : Linked m parent t) (hnodup : (addresses t).Nodup)
    (hp : p ∉ addresses t)
    (hchild : (treeInsert cmp data rounds (rootOf t) m).Ends (Inserted cmp data m parent t))
    (f : Ptr → TreeNode α → TreeNode α) :
    (do
      let (child, m) ← treeInsert cmp data rounds (rootOf t) m
      let m ← m.modify (some p) (f child)
      let m ← m.modify child fun c => { c with parent := some p }
      return ((some p : Ptr), m)).Ends
        (InsertedBelow cmp data m p
          (f (rootOf (insertBy (fun x => cmp data x.2) (m.cells.length, data) t)) cell) t) := by
  rw [ends_bind]
  refine hchild.mono ?_
  rintro ⟨child, m1⟩ ⟨hroot, hlinked, hlength, hframe⟩
  dsimp only at hroot hlinked hlength hframe
  have hplt := Heap.lt_of_get hget
  have hnew : m.cells.length ∉ addresses t := fun hmem =>
    absurd (lt_of_mem_addresses h hmem) (Nat.lt_irrefl _)
  have hout : ∀ q < m.cells.length, q ∉ addresses t →
      q ∉ addresses (insertBy (fun x => cmp data x.2) (m.cells.length, data) t) :=
    fun q hq hnot hmem => (mem_addresses_insertBy.mp hmem).elim (Nat.ne_of_lt hq) hnot
  rw [hroot]
  refine (treeAttach_ends ((hframe p hplt hp).trans hget) hlinked
    (nodup_addresses_insertBy hnew hnodup) (rootOf_insertBy _ _ _) (hout p hplt hp) _).mono ?_
  rintro ⟨root, m2⟩ ⟨hroot', hcell, hlinked', hlength', hframe'⟩
  refine ⟨hroot', hcell, hlinked', hlength'.trans hlength, fun q hq hqp hnot => ?_⟩
  exact (hframe' q (hout q hq hnot) hqp).trans (hframe q hq hnot)

/-- `tree_insert` puts its datum, in a new node, to the bottom of the tree. -/
theorem treeInsert_ends (cmp : α → α → Int) (data : α) {rounds : Nat} (h : Linked m parent t)
    (hnodup : (addresses t).Nodup) (hrounds : t.numNodes ≤ rounds) :
    (treeInsert cmp data rounds (rootOf t) m).Ends (Inserted cmp data m parent t) := by
  induction t generalizing parent rounds with
  | nil =>
      have hinserted : Inserted cmp data m parent nil (treeNode data m) :=
        { root := rfl
          linked := ⟨Heap.get_alloc_self, trivial, trivial⟩
          length := List.length_append
          frame := fun _ hp _ => Heap.get_alloc_of_lt hp }
      rw [rootOf, treeInsert]
      exact ends_pure.mpr hinserted
  | node x l r ihl ihr =>
      rw [numNodes] at hrounds
      obtain ⟨rounds, rfl⟩ : ∃ k, rounds = k + 1 := ⟨rounds - 1, by omega⟩
      obtain ⟨hget, hl, hr⟩ := h
      obtain ⟨hleft, hright, hnodupl, hnodupr, hboth⟩ := nodup_keys_node.mp hnodup
      rw [rootOf, treeInsert, (Heap.yields_load hget).bind_ends_iff]
      dsimp only
      by_cases hlt : cmp data x.2 < 0
      · have htree : insertBy (fun x => cmp data x.2) (m.cells.length, data) (node x l r) =
            node x (insertBy (fun x => cmp data x.2) (m.cells.length, data) l) r := if_pos hlt
        rw [if_pos hlt]
        refine (treeInsert_below hget hl hnodupl hleft (ihl hl hnodupl (by omega))
          fun left c => { c with left := left }).mono fun answer hanswer => ?_
        have hother : Linked answer.2 (some x.1) r := linked_congr hr fun p hp =>
          hanswer.frame p (lt_of_mem_addresses hr hp) (ne_of_mem_of_not_mem hp hright)
            fun hmem => hboth p hmem hp
        refine ⟨htree ▸ hanswer.root, htree ▸ ⟨hanswer.cell, hanswer.linked, hother⟩,
          hanswer.length, fun p hp hout => ?_⟩
        exact hanswer.frame p hp (fun heq => hout (mem_addresses_node.mpr (.inr (.inl heq))))
          fun hmem => hout (mem_addresses_node.mpr (.inl hmem))
      · have htree : insertBy (fun x => cmp data x.2) (m.cells.length, data) (node x l r) =
            node x l (insertBy (fun x => cmp data x.2) (m.cells.length, data) r) := if_neg hlt
        rw [if_neg hlt]
        refine (treeInsert_below hget hr hnodupr hright (ihr hr hnodupr (by omega))
          fun right c => { c with right := right }).mono fun answer hanswer => ?_
        have hother : Linked answer.2 (some x.1) l := linked_congr hl fun p hp =>
          hanswer.frame p (lt_of_mem_addresses hl hp) (ne_of_mem_of_not_mem hp hleft)
            fun hmem => hboth p hp hmem
        refine ⟨htree ▸ hanswer.root, htree ▸ ⟨hanswer.cell, hother, hanswer.linked⟩,
          hanswer.length, fun p hp hout => ?_⟩
        exact hanswer.frame p hp (fun heq => hout (mem_addresses_node.mpr (.inr (.inl heq))))
          fun hmem => hout (mem_addresses_node.mpr (.inr (.inr hmem)))

/-! ### Trees that are built -/

/-- The memory of a tree in order: its nodes are linked and each of them is there once. -/
structure IsSearchTree (cmp : α → α → Int) (m : Heap (TreeNode α)) (t : BinaryTree (Nat × α)) :
    Prop where
  linked : Linked m none t
  nodup : (addresses t).Nodup
  ordered : Ordered (fun x y => cmp x.2 y.2) t
  size : t.numNodes ≤ m.cells.length

theorem IsSearchTree.insert {cmp : α → α → Int} (h : IsSearchTree cmp m t) (data : α) :
    (treeAdd cmp (rootOf t, m) data).Ends fun (root, m') =>
      root = rootOf (insertBy (fun x => cmp data x.2) (m.cells.length, data) t) ∧
        IsSearchTree cmp m' (insertBy (fun x => cmp data x.2) (m.cells.length, data) t) := by
  refine (treeInsert_ends cmp data h.linked h.nodup (Nat.le_succ_of_le h.size)).mono ?_
  rintro ⟨root, m'⟩ ⟨hroot, hlinked, hlength, -⟩
  have hnew : m.cells.length ∉ addresses t := fun hmem =>
    absurd (lt_of_mem_addresses h.linked hmem) (Nat.lt_irrefl _)
  have hsize := (inorder_insertBy (fun x => cmp data x.2) (m.cells.length, data) t).length_eq
  rw [length_inorder, List.length_cons, length_inorder] at hsize
  refine ⟨hroot, ?_, nodup_addresses_insertBy hnew h.nodup,
    ordered_insertBy (a := (m.cells.length, data)) h.ordered, ?_⟩
  · cases t with
    | nil => exact hlinked
    | node x l r => exact hlinked
  · dsimp only at hlength
    have hle := h.size
    omega

theorem treeBuild_from (cmp : α → α → Int) (inserted : List α) (h : IsSearchTree cmp m t) :
    (inserted.foldlM (treeAdd cmp) (rootOf t, m)).Ends fun (root, m') =>
      ∃ t', root = rootOf t' ∧ IsSearchTree cmp m' t' ∧
        ((inorder t').map Prod.snd).Perm (inserted ++ (inorder t).map Prod.snd) := by
  induction inserted generalizing m t with
  | nil => exact ends_pure.mpr ⟨t, rfl, h, List.Perm.refl _⟩
  | cons data inserted ih =>
      rw [List.foldlM_cons, ends_bind]
      refine (h.insert data).mono ?_
      rintro ⟨root, m1⟩ ⟨rfl, h1⟩
      refine (ih h1).mono ?_
      rintro ⟨root', m'⟩ ⟨t', hroot, h', hperm⟩
      refine ⟨t', hroot, h', hperm.trans ?_⟩
      have hput := (inorder_insertBy (fun x => cmp data x.2) (m.cells.length, data) t).map Prod.snd
      exact (hput.append_left inserted).trans List.perm_middle

/-- What `tree_insert` builds is a tree in order, of the data that were inserted. -/
theorem treeBuild_ends (cmp : α → α → Int) (inserted : List α) :
    (treeBuild cmp inserted).Ends fun (root, m) => ∃ t, root = rootOf t ∧ IsSearchTree cmp m t ∧
      ((inorder t).map Prod.snd).Perm inserted := by
  have hempty : IsSearchTree cmp (⟨[]⟩ : Heap (TreeNode α)) nil :=
    ⟨trivial, List.nodup_nil, trivial, Nat.le_refl _⟩
  refine (treeBuild_from cmp inserted hempty).mono ?_
  rintro ⟨root, m⟩ ⟨t, hroot, h, hperm⟩
  exact ⟨t, hroot, h, hperm.trans (List.Perm.of_eq (List.append_nil _))⟩

end Snert
