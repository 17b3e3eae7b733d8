/-
Module: Snert.Proofs.TreeDeleteExact
Purpose: When `tree_delete` takes exactly one equal datum out of a tree that `tree_insert` has
  built: when the node that `tree_find` finds has no children, or has two and its successor is an
  equal datum with nothing below it.
Trusted boundary: none
Main exports: treeDelete_exact_iff
-/
import Snert.Proofs.TreeDelete

namespace Snert

open CModel Run Lists BinaryTree

variable {α : Type} {m m' : Heap (TreeNode α)} {root : Ptr} {x y : Nat × α}
  {l r s t : BinaryTree (Nat × α)} {rounds : Nat} {cmp : α → α → Int} {data : α}

/-- A deletion is exact: one equal datum is taken out of the sequence of the tree and returned, or
there is none, the answer is NULL and nothing is changed. The tree is linked both ways
afterwards. -/
def DeleteExact (cmp : α → α → Int) (data : α) (m : Heap (TreeNode α)) (root : Ptr) : Prop :=
  (treeDelete cmp data (m.cells.length + 1) root m).Ends fun (answer, m') =>
    ∃ list, Sequence m root list ∧
      ((∃ before d after, list = before ++ d :: after ∧ cmp data d = 0 ∧ answer = some d ∧
          Sequence m' root (before ++ after)) ∨
        (∀ d ∈ list, cmp data d ≠ 0) ∧ answer = none ∧ m' = m)

/-- The node that is found, if there is one, has a parent or two children. -/
def HasParentOrTwo (cmp : α → α → Int) (data : α) (m : Heap (TreeNode α)) (root : Ptr) : Prop :=
  ∀ p c, (treeFind cmp data (m.cells.length + 1) root m).Yields (some p) → m.get p = some c →
    c.parent = none → c.left ≠ none ∧ c.right ≠ none

/-- A node is found, and it has no children, or it has two and its successor is an equal datum with
nothing to its right. -/
def DeletesWell (cmp : α → α → Int) (data : α) (m : Heap (TreeNode α)) (root : Ptr) : Prop :=
  ∃ p c, (treeFind cmp data (m.cells.length + 1) root m).Yields (some p) ∧ m.get p = some c ∧
    (c.left = none ∧ c.right = none ∨
      c.left ≠ none ∧ c.right ≠ none ∧
        ∃ q d, (treeSuccessor (m.cells.length + 1) (some p) m).Yields (some q) ∧
          m.get q = some d ∧ cmp data d.data = 0 ∧ d.right = none)

/-! ### The answer -/

/-- A datum is taken out of a sequence, and a number of others with it. -/
structure TakenOut (list list' : List α) (d : α) (lost : Nat) : Prop where
  length : list'.length + 1 + lost = list.length
  exact : lost = 0 → ∃ before after, list = before ++ d :: after ∧ list' = before ++ after

theorem deleteExact_iff_of_takenOut {list : List α} {d : α} {lost : Nat}
    (hlist : Sequence m root list) (hequal : cmp data d = 0)
    (h : (treeDelete cmp data (m.cells.length + 1) root m).Ends fun (answer, m') =>
      answer = some d ∧ ∃ list', Sequence m' root list' ∧ TakenOut list list' d lost) :
    DeleteExact cmp data m root ↔ lost = 0 := by
  refine h.ends_iff ?_
  rintro ⟨answer, m'⟩ ⟨rfl, list', hlist', htaken⟩
  constructor
  · rintro ⟨list₁, hlist₁, ⟨before, e, after, rfl, -, -, hafter⟩ | ⟨-, hnone, -⟩⟩
    · obtain rfl := hlist₁.unique hlist
      obtain rfl := hafter.unique hlist'
      have hlength := htaken.length
      rw [List.length_append, List.length_append, List.length_cons] at hlength
      omega
    · cases hnone
  · intro hlost
    obtain ⟨before, after, rfl, rfl⟩ := htaken.exact hlost
    exact ⟨_, hlist, .inl ⟨before, d, after, rfl, hequal, rfl, hlist'⟩⟩

/-! ### Case by case -/

theorem equal_of_found (hfound : foundBy (fun x => cmp data x.2) t = node x l r) :
    cmp data x.2 = 0 := by
  have hzero := probe_of_foundBy hfound
  exact hzero

theorem IsSearchTree.sequence (h : IsSearchTree cmp m t) :
    Sequence m (rootOf t) ((inorder t).map Prod.snd) :=
  ⟨t, rfl, h.linked, h.nodup, rfl⟩

theorem deleteExact_one (h : IsSearchTree cmp m t)
    (hfound : foundBy (fun x => cmp data x.2) t = node x l r) (hchild : l = nil ∨ r = nil)
    (hroot : rootOf t ≠ some x.1) :
    DeleteExact cmp data m (rootOf t) ↔ l = nil ∧ r = nil := by
  have hlost : l.numNodes + r.numNodes = 0 ↔ l = nil ∧ r = nil := by
    cases l <;> cases r <;> simp
  rw [← hlost]
  refine deleteExact_iff_of_takenOut h.sequence (equal_of_found hfound) ?_
  refine (treeDelete_cut h.linked h.nodup (Nat.lt_succ_of_le h.size) hfound hchild hroot).mono ?_
  rintro ⟨answer, m'⟩ ⟨rfl, before, after, hwhole, hsequence⟩
  refine ⟨rfl, _, hsequence, ?_, fun hnone => ?_⟩
  · rw [hwhole]
    simp only [List.length_map, List.length_append, length_inorder, numNodes]
    omega
  · obtain ⟨rfl, rfl⟩ := hlost.mp hnone
    refine ⟨before.map Prod.snd, after.map Prod.snd, ?_, List.map_append⟩
    rw [hwhole]
    simp [inorder]

theorem deleteExact_two (h : IsSearchTree cmp m t)
    (hfound : foundBy (fun x => cmp data x.2) t = node x l r) (hl : l ≠ nil)
    (hsuccessor : leftmost r = node y nil s) (hequal : cmp data y.2 = 0) :
    DeleteExact cmp data m (rootOf t) ↔ s = nil := by
  have hlost : s.numNodes = 0 ↔ s = nil := by
    cases s <;> simp
  rw [← hlost]
  refine deleteExact_iff_of_takenOut h.sequence (equal_of_found hfound) ?_
  refine (treeDelete_successor h.linked h.nodup (Nat.lt_succ_of_le h.size) hfound hl hsuccessor
    hequal).mono ?_
  rintro ⟨answer, m'⟩ ⟨rfl, before, after, hwhole, hsequence⟩
  refine ⟨rfl, _, hsequence, ?_, fun hnone => ?_⟩
  · rw [hwhole]
    simp only [List.length_append, List.length_cons, List.length_map, length_inorder]
    omega
  · obtain rfl := hlost.mp hnone
    exact ⟨before, y.2 :: after, hwhole, rfl⟩

theorem successor_le (hcmp : TotalCompare cmp) (h : IsSearchTree cmp m t)
    (hfound : foundBy (fun x => cmp data x.2) t = node x l r)
    (hsuccessor : leftmost r = node y nil s) : cmp data y.2 ≤ 0 := by
  have hbelow : Below (node x l r) t := hfound ▸ below_foundBy (fun x => cmp data x.2) t
  obtain ⟨-, hright, -⟩ := ordered_below h.ordered hbelow
  have hmem : y ∈ inorder r := mem_of_below (mem_inorder_node.mpr (.inr (.inl rfl)))
    (hsuccessor ▸ below_leftmost r)
  have hzero := equal_of_found hfound
  exact hcmp.trans _ _ _ (Int.le_of_eq hzero) ((hcmp.le_iff _ _).mpr (hright y hmem))

/-! ### The condition -/

theorem rootOf_eq_none {part : BinaryTree (Nat × α)} : rootOf part = none ↔ part = nil := by
  cases part with
  | nil => exact iff_of_true rfl rfl
  | node z l' r' => exact iff_of_false nofun nofun

theorem deletesWell_iff (h : IsSearchTree cmp m t)
    (hfound : foundBy (fun x => cmp data x.2) t = node x l r) :
    DeletesWell cmp data m (rootOf t) ↔ l = nil ∧ r = nil ∨
      l ≠ nil ∧ ∃ y, leftmost r = node y nil nil ∧ cmp data y.2 = 0 := by
  have hbelow : Below (node x l r) t := hfound ▸ below_foundBy (fun x => cmp data x.2) t
  obtain ⟨parent, hlinked⟩ := linked_below h.linked hbelow
  have hfind := @treeFind_yields _ _ _ _ _ cmp data h.linked (Nat.lt_succ_of_le h.size)
  rw [hfound, rootOf] at hfind
  have hsize : r.numNodes ≤ m.cells.length + 1 := by
    have hle := Nat.le_trans hbelow.numNodes_le h.size
    rw [numNodes] at hle
    omega
  constructor
  · rintro ⟨p, c, hp, hc, hcase⟩
    obtain rfl : x.1 = p := Option.some.inj (hfind.ends_iff.mp hp)
    obtain rfl := Option.some.inj (hc.symm.trans hlinked.1)
    refine hcase.imp (fun hnone => ⟨rootOf_eq_none.mp hnone.1, rootOf_eq_none.mp hnone.2⟩) ?_
    rintro ⟨hleft, hright, q, d, hq, hd, hequal, hbehind⟩
    have hr : r ≠ nil := mt rootOf_eq_none.mpr hright
    have hsuccessor := treeSuccessor_yields hlinked hr hsize
    obtain ⟨parent', hleftmost⟩ := linked_below hlinked.2.2 (below_leftmost r)
    cases r with
    | nil => exact absurd rfl hr
    | node z l' r' =>
        obtain ⟨y, s, hy, -⟩ := leftmost_node z l' r'
        rw [hy] at hsuccessor hleftmost
        obtain rfl : y.1 = q := Option.some.inj (hsuccessor.ends_iff.mp hq)
        obtain rfl := Option.some.inj (hd.symm.trans hleftmost.1)
        obtain rfl := rootOf_eq_none.mp hbehind
        exact ⟨mt rootOf_eq_none.mpr hleft, y, hy, hequal⟩
  · intro hcase
    refine ⟨x.1, _, hfind, hlinked.1, ?_⟩
    refine hcase.imp (fun hnone => ⟨rootOf_eq_none.mpr hnone.1, rootOf_eq_none.mpr hnone.2⟩) ?_
    rintro ⟨hl, y, hy, hequal⟩
    have hr : r ≠ nil := by
      rintro rfl
      cases hy
    have hsuccessor := treeSuccessor_yields hlinked hr hsize
    obtain ⟨parent', hleftmost⟩ := linked_below hlinked.2.2 (below_leftmost r)
    rw [hy] at hsuccessor hleftmost
    exact ⟨mt rootOf_eq_none.mp hl, mt rootOf_eq_none.mp hr, y.1, _, hsuccessor, hleftmost.1,
      hequal, rfl⟩

/-- `tree_delete` on a tree that `tree_insert` has built, where the node that is found is not a root
with a missing child, takes out exactly one equal datum if and only if that node has no children, or
two and its successor is an equal datum with nothing to its right. -/
theorem treeDelete_exact_iff (cmp : α → α → Int) (hcmp : TotalCompare cmp) (inserted : List α)
    (data : α) {root : Ptr} {m : Heap (TreeNode α)}
    (hbuilt : (treeBuild cmp inserted).Yields (root, m))
    (hdomain : HasParentOrTwo cmp data m root) :
    DeleteExact cmp data m root ↔ DeletesWell cmp data m root := by
  obtain ⟨t, rfl, h, -⟩ := hbuilt.ends_iff.mp (treeBuild_ends cmp inserted)
  have hrounds := Nat.lt_succ_of_le h.size
  have hfind := @treeFind_yields _ _ _ _ _ cmp data h.linked hrounds
  cases hfound : foundBy (fun x => cmp data x.2) t with
  | nil =>
      refine iff_of_false (fun hexact => ?_) ?_
      · obtain ⟨rounds', parent', -, -, hiff⟩ := @treeDelete_found _ _ _ _ _ cmp data
          h.linked hrounds
        rw [hfound] at hiff
        exact not_ends_treeDelete_null ((hiff _).mp hexact)
      · rintro ⟨p, c, hp, -⟩
        rw [hfound] at hfind
        exact nomatch (hfind.ends_iff.mp hp : rootOf nil = some p)
  | node x l r =>
      rw [deletesWell_iff h hfound]
      have hbelow : Below (node x l r) t := hfound ▸ below_foundBy (fun x => cmp data x.2) t
      obtain ⟨parent, hlinked⟩ := linked_below h.linked hbelow
      by_cases hchild : l = nil ∨ r = nil
      · have hroot : rootOf t ≠ some x.1 := by
          intro heq
          obtain ⟨-, c, hc, hparent⟩ := get_root h.linked heq
          rw [hfound] at hfind
          obtain ⟨hleft, hright⟩ := hdomain x.1 c hfind hc hparent
          obtain rfl := Option.some.inj (hc.symm.trans hlinked.1)
          exact hchild.elim (mt rootOf_eq_none.mpr hleft) (mt rootOf_eq_none.mpr hright)
        rw [deleteExact_one h hfound hchild hroot]
        refine ⟨.inl, fun hcase => hcase.resolve_right ?_⟩
        rintro ⟨hl, y, hy, -⟩
        obtain rfl := hchild.resolve_left hl
        exact nomatch hy
      · obtain ⟨hl, hr⟩ := not_or.mp hchild
        cases r with
        | nil => exact absurd rfl hr
        | node z l' r' =>
            obtain ⟨y, s, hy, -⟩ := leftmost_node z l' r'
            rcases Int.lt_or_eq_of_le (successor_le hcmp h hfound hy) with hless | hequal
            · refine iff_of_false
                (not_ends_treeDelete_greater h.linked h.nodup hrounds hfound hl hy hless) ?_
              rintro (⟨rfl, -⟩ | ⟨-, y', hy', hequal⟩)
              · exact hl rfl
              · obtain ⟨rfl, -, -⟩ := BinaryTree.node.inj (hy.symm.trans hy')
                exact absurd hequal (Int.ne_of_lt hless)
            · rw [deleteExact_two h hfound hl hy hequal]
              constructor
              · rintro rfl
                exact .inr ⟨hl, y, hy, hequal⟩
              · rintro (⟨rfl, -⟩ | ⟨-, y', hy', -⟩)
                · exact absurd rfl hl
                · exact (BinaryTree.node.inj (hy.symm.trans hy')).2.2

/-! ### Trees of numbers -/

theorem totalCompare_sub : TotalCompare fun a b : Int => a - b :=
  { swap := fun a b => by omega
    trans := fun a b c => by omega }

/-- The tree of 2, 1 and 3, inserted in this order. -/
def tree213 : Heap (TreeNode Int) :=
  { cells := [
      some { data := 2, left := some 1, right := some 2, parent := none },
      some { data := 1, left := none, right := none, parent := some 0 },
      some { data := 3, left := none, right := none, parent := some 0 }] }

theorem treeBuild_tree213 : (treeBuild (fun a b : Int => a - b) [2, 1, 3]).Yields
    (some 0, tree213) :=
  yields_of_result (by decide) (by decide)

theorem hasParentOrTwo_of_yields {p : Nat} {c : TreeNode α}
    (hfind : (treeFind cmp data (m.cells.length + 1) root m).Yields (some p))
    (hget : m.get p = some c) (h : c.parent = none → c.left ≠ none ∧ c.right ≠ none) :
    HasParentOrTwo cmp data m root := by
  intro q d hq hd hparent
  obtain rfl : p = q := Option.some.inj (hfind.ends_iff.mp hq)
  obtain rfl := Option.some.inj (hget.symm.trans hd)
  exact h hparent

/-- The deletion of the leaf 1. -/
theorem treeDelete_leaf : TotalCompare (fun a b : Int => a - b) ∧
    (treeBuild (fun a b : Int => a - b) [2, 1, 3]).Yields (some 0, tree213) ∧
      HasParentOrTwo (fun a b : Int => a - b) 1 tree213 (some 0) ∧
      (DeleteExact (fun a b : Int => a - b) 1 tree213 (some 0) ↔
        DeletesWell (fun a b : Int => a - b) 1 tree213 (some 0)) := by
  have hdomain : HasParentOrTwo (fun a b : Int => a - b) 1 tree213 (some 0) :=
    hasParentOrTwo_of_yields (p := 1)
      (yields_of_result (by decide) (by decide)) rfl nofun
  exact ⟨totalCompare_sub, treeBuild_tree213, hdomain,
    treeDelete_exact_iff _ totalCompare_sub [2, 1, 3] 1 treeBuild_tree213 hdomain⟩

/-- The deletion of the root 2, which has two children, and of 4, which is not there, read through
NULL. -/
theorem treeDelete_inexact :
    (treeBuild (fun a b : Int => a - b) [2, 1, 3]).Yields (some 0, tree213) ∧
      HasParentOrTwo (fun a b : Int => a - b) 2 tree213 (some 0) ∧
      ¬ DeleteExact (fun a b : Int => a - b) 2 tree213 (some 0) ∧
      ¬ DeleteExact (fun a b : Int => a - b) 4 tree213 (some 0) := by
  have hfind : (treeFind (fun a b : Int => a - b) 2 (tree213.cells.length + 1) (some 0)
      tree213).Yields (some 0) := yields_of_result (by decide) (by decide)
  refine ⟨treeBuild_tree213, hasParentOrTwo_of_yields hfind rfl fun _ => ⟨nofun, nofun⟩,
    fun h => ?_, fun h => ?_⟩
  · exact absurd h.1 (by decide)
  · exact absurd h.1 (by decide)

end Snert
