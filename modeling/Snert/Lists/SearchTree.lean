/-
Module: Snert.Lists.SearchTree
Purpose: Binary search trees that keep equal elements, the later ones to the right. An element that
  is inserted or looked for is given by a probe: what comparing it with each element of the tree
  yields.
Trusted boundary: none
Main exports: inorder, TotalCompare, Ordered, insertBy
-/
import Mathlib.Data.List.Nodup
import Mathlib.Data.List.Perm.Basic
import Mathlib.Data.Tree.Basic

namespace Lists

open BinaryTree

variable {α β : Type*}

/-! ### Sequences -/

/-- The elements of a tree, in order. -/
def inorder : BinaryTree α → List α
  | nil => []
  | node a l r => inorder l ++ a :: inorder r

theorem length_inorder : ∀ t : BinaryTree α, (inorder t).length = t.numNodes
  | nil => rfl
  | node a l r => by
      rw [inorder, List.length_append, List.length_cons, length_inorder l, length_inorder r,
        numNodes, Nat.add_assoc]

theorem inorder_map (f : α → β) : ∀ t : BinaryTree α, inorder (t.map f) = (inorder t).map f
  | nil => rfl
  | node a l r => by
      rw [BinaryTree.map, inorder, inorder, inorder_map f l, inorder_map f r, List.map_append,
        List.map_cons]

theorem mem_inorder_node {a b : α} {l r : BinaryTree α} :
    b ∈ inorder (node a l r) ↔ b ∈ inorder l ∨ b = a ∨ b ∈ inorder r := by
  rw [inorder, List.mem_append, List.mem_cons]

/-! ### Insertion -/

/-- An element is put in at the bottom, to the left of the elements that it is less than and to the
right of all others. -/
def insertBy (probe : α → Int) (a : α) : BinaryTree α → BinaryTree α
  | nil => node a nil nil
  | node b l r =>
      if probe b < 0 then node b (insertBy probe a l) r else node b l (insertBy probe a r)

theorem inorder_insertBy (probe : α → Int) (a : α) :
    ∀ t : BinaryTree α, (inorder (insertBy probe a t)).Perm (a :: inorder t)
  | nil => List.Perm.refl _
  | node b l r => by
      rw [insertBy]
      split_ifs
      · exact ((inorder_insertBy probe a l).append_right _).trans (List.Perm.refl _)
      · have hright := ((inorder_insertBy probe a r).cons b).trans (List.Perm.swap a b _)
        exact (hright.append_left _).trans List.perm_middle

theorem mem_inorder_insertBy {probe : α → Int} {a b : α} {t : BinaryTree α} :
    b ∈ inorder (insertBy probe a t) ↔ b = a ∨ b ∈ inorder t := by
  rw [(inorder_insertBy probe a t).mem_iff, List.mem_cons]

/-! ### Order -/

/-- A comparison that gives a total order, up to elements that are equal to each other. -/
structure TotalCompare (cmp : α → α → Int) : Prop where
  swap : ∀ a b, cmp a b < 0 ↔ 0 < cmp b a
  trans : ∀ a b c, cmp a b ≤ 0 → cmp b c ≤ 0 → cmp a c ≤ 0

theorem TotalCompare.le_iff {cmp : α → α → Int} (h : TotalCompare cmp) (a b : α) :
    cmp a b ≤ 0 ↔ 0 ≤ cmp b a := by
  rw [← Int.not_lt, ← h.swap b a, Int.not_lt]

theorem TotalCompare.lt_of_lt_of_le {cmp : α → α → Int} (h : TotalCompare cmp) {a b c : α}
    (hab : cmp a b < 0) (hbc : cmp b c ≤ 0) : cmp a c < 0 := by
  by_contra hnot
  have hca := (h.le_iff c a).mpr (Int.not_lt.mp hnot)
  have hba := h.trans b c a hbc hca
  have hgt := (h.swap a b).mp hab
  omega

theorem TotalCompare.lt_of_le_of_lt {cmp : α → α → Int} (h : TotalCompare cmp) {a b c : α}
    (hab : cmp a b ≤ 0) (hbc : cmp b c < 0) : cmp a c < 0 := by
  by_contra hnot
  have hca := (h.le_iff c a).mpr (Int.not_lt.mp hnot)
  have hcb := h.trans c a b hca hab
  have hgt := (h.swap b c).mp hbc
  omega

/-- The elements to the left of an element are less than it, and none of those to the right is. -/
def Ordered (cmp : α → α → Int) : BinaryTree α → Prop
  | nil => True
  | node b l r =>
      (∀ a ∈ inorder l, cmp a b < 0) ∧ (∀ a ∈ inorder r, 0 ≤ cmp a b) ∧
        Ordered cmp l ∧ Ordered cmp r

theorem ordered_insertBy {cmp : α → α → Int} {a : α} :
    ∀ {t : BinaryTree α}, Ordered cmp t → Ordered cmp (insertBy (cmp a) a t)
  | nil, _ => ⟨nofun, nofun, trivial, trivial⟩
  | node b l r, ⟨hleft, hright, hl, hr⟩ => by
      rw [insertBy]
      split_ifs with hlt
      · refine ⟨fun c hc => ?_, hright, ordered_insertBy hl, hr⟩
        rcases mem_inorder_insertBy.mp hc with rfl | hc
        · exact hlt
        · exact hleft c hc
      · refine ⟨hleft, fun c hc => ?_, hl, ordered_insertBy hr⟩
        rcases mem_inorder_insertBy.mp hc with rfl | hc
        · exact Int.not_lt.mp hlt
        · exact hright c hc

/-! ### Parts of a tree -/

/-- A tree is another one, or a part of it. -/
def Below (part : BinaryTree α) : BinaryTree α → Prop
  | nil => part = nil
  | node a l r => part = node a l r ∨ Below part l ∨ Below part r

theorem Below.refl : ∀ t : BinaryTree α, Below t t
  | nil => rfl
  | node _ _ _ => .inl rfl

theorem Below.trans {s r t : BinaryTree α} (h : Below s r) (h' : Below r t) : Below s t := by
  induction t with
  | nil =>
      obtain rfl : r = nil := h'
      exact h
  | node a l' r' ihl ihr =>
      rcases h' with rfl | h' | h'
      · exact h
      · exact .inr (.inl (ihl h'))
      · exact .inr (.inr (ihr h'))

theorem Below.numNodes_le {s t : BinaryTree α} (h : Below s t) : s.numNodes ≤ t.numNodes := by
  induction t with
  | nil =>
      obtain rfl : s = nil := h
      exact Nat.le_refl _
  | node a l r ihl ihr =>
      rw [numNodes]
      rcases h with rfl | h | h
      · exact Nat.le_refl _
      · exact Nat.le_trans (ihl h) (by omega)
      · exact Nat.le_trans (ihr h) (by omega)

theorem Below.map {s t : BinaryTree α} (h : Below s t) (f : α → β) :
    Below (s.map f) (t.map f) := by
  induction t with
  | nil => exact congrArg (BinaryTree.map f) h
  | node a l' r' ihl ihr =>
      rcases h with rfl | h | h
      · exact .inl rfl
      · exact .inr (.inl (ihl h))
      · exact .inr (.inr (ihr h))

theorem ordered_below {cmp : α → α → Int} {s t : BinaryTree α} (h : Ordered cmp t)
    (hbelow : Below s t) : Ordered cmp s := by
  induction t with
  | nil =>
      obtain rfl : s = nil := hbelow
      exact h
  | node a l r ihl ihr =>
      rcases hbelow with rfl | hbelow | hbelow
      · exact h
      · exact ihl h.2.2.1 hbelow
      · exact ihr h.2.2.2 hbelow

/-- What is looked for, with what is below it. -/
def foundBy (probe : α → Int) : BinaryTree α → BinaryTree α
  | nil => nil
  | node b l r =>
      if probe b < 0 then foundBy probe l
      else if 0 < probe b then foundBy probe r
      else node b l r

theorem below_foundBy (probe : α → Int) : ∀ t : BinaryTree α, Below (foundBy probe t) t
  | nil => rfl
  | node b l r => by
      rw [foundBy]
      split_ifs
      · exact .inr (.inl (below_foundBy probe l))
      · exact .inr (.inr (below_foundBy probe r))
      · exact .inl rfl

theorem probe_of_foundBy {probe : α → Int} {a : α} {l r : BinaryTree α} :
    ∀ {t : BinaryTree α}, foundBy probe t = node a l r → probe a = 0
  | nil, h => nomatch h
  | node b l' r', h => by
      rw [foundBy] at h
      split_ifs at h with hlt hgt
      · exact probe_of_foundBy h
      · exact probe_of_foundBy h
      · obtain ⟨rfl, -, -⟩ := BinaryTree.node.inj h
        omega

/-- The first element of a tree, with what is below it. -/
def leftmost : BinaryTree α → BinaryTree α
  | nil => nil
  | node b nil r => node b nil r
  | node _ (node c l' r') _ => leftmost (node c l' r')

theorem below_leftmost : ∀ t : BinaryTree α, Below (leftmost t) t
  | nil => rfl
  | node _ nil _ => .inl rfl
  | node _ (node c l' r') _ => .inr (.inl (below_leftmost (node c l' r')))

theorem leftmost_node (b : α) (l r : BinaryTree α) :
    ∃ c r', leftmost (node b l r) = node c nil r' ∧
      ∃ rest, inorder (node b l r) = c :: inorder r' ++ rest := by
  induction l generalizing b r with
  | nil => exact ⟨b, r, rfl, [], (List.append_nil _).symm⟩
  | node d l' r' ihl _ =>
      obtain ⟨c, s, hleftmost, rest, hrest⟩ := ihl d r'
      refine ⟨c, s, hleftmost, rest ++ b :: inorder r, ?_⟩
      rw [inorder, hrest, List.append_assoc]

/-! ### Cutting off a part -/

theorem mem_of_below {a b : α} {l r : BinaryTree α} (hb : b ∈ inorder (node a l r)) :
    ∀ {t : BinaryTree α}, Below (node a l r) t → b ∈ inorder t
  | nil, h => nomatch h
  | node _ _ _, .inl h => h ▸ hb
  | node _ _ _, .inr (.inl h) => mem_inorder_node.mpr (.inl (mem_of_below hb h))
  | node _ _ _, .inr (.inr h) => mem_inorder_node.mpr (.inr (.inr (mem_of_below hb h)))

variable {key : α → β}

theorem nodup_keys_node {a : α} {l r : BinaryTree α} :
    ((inorder (node a l r)).map key).Nodup ↔
      key a ∉ (inorder l).map key ∧ key a ∉ (inorder r).map key ∧
        ((inorder l).map key).Nodup ∧ ((inorder r).map key).Nodup ∧
        (∀ k ∈ (inorder l).map key, k ∉ (inorder r).map key) := by
  rw [inorder, List.map_append, List.map_cons, List.nodup_middle, List.nodup_cons,
    List.mem_append, not_or, List.nodup_append', and_assoc]
  rfl

theorem nodup_keys_below {s t : BinaryTree α} (h : ((inorder t).map key).Nodup)
    (hbelow : Below s t) : ((inorder s).map key).Nodup := by
  induction t with
  | nil =>
      obtain rfl : s = nil := hbelow
      exact h
  | node a l r ihl ihr =>
      obtain ⟨-, -, hl, hr, -⟩ := nodup_keys_node.mp h
      rcases hbelow with rfl | hbelow | hbelow
      · exact h
      · exact ihl hl hbelow
      · exact ihr hr hbelow

variable [DecidableEq β] {k : β}

/-- The tree without an element and what is below it. An element is known by its key. -/
def prune (key : α → β) (k : β) : BinaryTree α → BinaryTree α
  | nil => nil
  | node a l r => if key a = k then nil else node a (prune key k l) (prune key k r)

theorem prune_of_notMem : ∀ {t : BinaryTree α}, k ∉ (inorder t).map key → prune key k t = t
  | nil, _ => rfl
  | node a l r, h => by
      rw [inorder, List.map_append, List.map_cons, List.mem_append, List.mem_cons, not_or,
        not_or] at h
      rw [prune, if_neg (Ne.symm h.2.1), prune_of_notMem h.1, prune_of_notMem h.2.2]

theorem inorder_prune {a : α} {l r : BinaryTree α} :
    ∀ {t : BinaryTree α}, ((inorder t).map key).Nodup → Below (node a l r) t →
      ∃ before after, inorder t = before ++ inorder (node a l r) ++ after ∧
        inorder (prune key (key a) t) = before ++ after
  | nil, _, h => nomatch h
  | node b l' r', hnodup, h => by
      obtain ⟨hleft, hright, hl, hr, hboth⟩ := nodup_keys_node.mp hnodup
      have hmem {t : BinaryTree α} (ht : Below (node a l r) t) : key a ∈ (inorder t).map key :=
        List.mem_map_of_mem (mem_of_below (mem_inorder_node.mpr (.inr (.inl rfl))) ht)
      rcases h with h | h | h
      · obtain ⟨rfl, rfl, rfl⟩ := BinaryTree.node.inj h
        refine ⟨[], [], (List.append_nil _).symm, ?_⟩
        rw [prune, if_pos rfl]
        rfl
      · have hne : key b ≠ key a := fun heq => hleft (heq ▸ hmem h)
        obtain ⟨before, after, hwhole, hcut⟩ := inorder_prune hl h
        refine ⟨before, after ++ b :: inorder r', ?_, ?_⟩
        · rw [inorder, hwhole, List.append_assoc]
        · rw [prune, if_neg hne, prune_of_notMem (hboth _ (hmem h)), inorder, hcut,
            List.append_assoc]
      · have hne : key b ≠ key a := fun heq => hright (heq ▸ hmem h)
        have hnot : key a ∉ (inorder l').map key := fun hin => hboth _ hin (hmem h)
        obtain ⟨before, after, hwhole, hcut⟩ := inorder_prune hr h
        refine ⟨inorder l' ++ b :: before, after, ?_, ?_⟩
        · rw [inorder, hwhole]
          simp only [List.append_assoc, List.cons_append]
        · rw [prune, if_neg hne, prune_of_notMem hnot, inorder, hcut, List.append_assoc,
            List.cons_append]

end Lists
