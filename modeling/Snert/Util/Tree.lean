/-
Module: Snert.Util.Tree
Purpose: The binary trees of type/tree.c, on a heap of nodes that point to their children and to
  their parent. What recurses or loops through the tree is given a number of rounds. `calloc` always
  gives a node, and the call-backs for freeing and walking are left out.
Trusted boundary: human-reviewed spec
Main exports: TreeNode, treeNode, treeInsert, treeFind
-/
import Snert.CModel.Heap

namespace Snert

open CModel

/-- `struct tree`. -/
structure TreeNode (α : Type) where
  data : α
  left : Ptr
  right : Ptr
  parent : Ptr
deriving DecidableEq, Repr

variable {α : Type}

/-- `tree_node (data)`. -/
def treeNode (data : α) (m : Heap (TreeNode α)) : Ptr × Heap (TreeNode α) :=
  let (m, node) := m.alloc { data := data, left := none, right := none, parent := none }
  (some node, m)

/-- `tree_insert (node, cmp, data)`. -/
def treeInsert (cmp : α → α → Int) (data : α) :
    Nat → Ptr → Heap (TreeNode α) → Run (Ptr × Heap (TreeNode α))
  | _, none, m => pure (treeNode data m)
  | 0, some _, _ => ⟨[], .diverge⟩
  | rounds + 1, some node, m => do
      let c ← m.load (some node)
      if cmp data c.data < 0 then
        let (left, m) ← treeInsert cmp data rounds c.left m
        let m ← m.modify (some node) fun c => { c with left := left }
        let m ← m.modify left fun c => { c with parent := some node }
        return (some node, m)
      else
        let (right, m) ← treeInsert cmp data rounds c.right m
        let m ← m.modify (some node) fun c => { c with right := right }
        let m ← m.modify right fun c => { c with parent := some node }
        return (some node, m)

/-- One round of the loop of `tree_find`. -/
def treeFindRound (cmp : α → α → Int) (data : α) (m : Heap (TreeNode α)) (node : Ptr) :
    Run (Ptr ⊕ Ptr) :=
  match node with
  | none => return .inr none
  | some p => do
      let c ← m.load (some p)
      let diff := cmp data c.data
      if diff = 0 then return .inr (some p)
      else if diff < 0 then return .inl c.left
      else return .inl c.right

/-- `tree_find (node, cmp, data)`. -/
def treeFind (cmp : α → α → Int) (data : α) (rounds : Nat) (node : Ptr) (m : Heap (TreeNode α)) :
    Run Ptr :=
  Run.loop (treeFindRound cmp data m) rounds node

/-- One round of the loop of `tree_successor`. -/
def treeSuccessorRound (m : Heap (TreeNode α)) (node : Ptr) : Run (Ptr ⊕ Ptr) := do
  let c ← m.load node
  if c.left ≠ none then return .inl c.left
  else return .inr node

/-- `tree_successor (node)`. -/
def treeSuccessor (rounds : Nat) (node : Ptr) (m : Heap (TreeNode α)) : Run Ptr :=
  match node with
  | none => return none
  | some p => do
      let c ← m.load (some p)
      if c.right = none then return none
      else Run.loop (treeSuccessorRound m) rounds c.right

/-- `tree_free (node, NULL)`. -/
def treeFree : Nat → Ptr → Heap (TreeNode α) → Run (Heap (TreeNode α))
  | _, none, m => pure m
  | 0, some _, _ => ⟨[], .diverge⟩
  | rounds + 1, some node, m => do
      let c ← m.load (some node)
      let m ← treeFree rounds c.right m
      let c ← m.load (some node)
      let m ← treeFree rounds c.left m
      m.free (some node)

/-- The link to a node in its parent is given to another child. -/
def treeRelink (parent node child : Ptr) (m : Heap (TreeNode α)) : Run (Heap (TreeNode α)) :=
  match parent with
  | none => return m
  | some p => do
      let c ← m.load (some p)
      if node = c.left then m.modify (some p) fun c => { c with left := child }
      else m.modify (some p) fun c => { c with right := child }

/-- The child is given the parent of a node. -/
def treeAdopt (node child : Ptr) (m : Heap (TreeNode α)) : Run (Heap (TreeNode α)) :=
  match child with
  | none => return m
  | some q => do
      let c ← m.load node
      m.modify (some q) fun d => { d with parent := c.parent }

/-- `tree_remove_node (node, child)`. -/
def treeRemoveNode (rounds : Nat) (node child : Ptr) (m : Heap (TreeNode α)) :
    Run (Option α × Heap (TreeNode α)) := do
  let c ← m.load node
  let m ← treeRelink c.parent node child m
  let m ← treeAdopt node child m
  let m ← m.modify node fun c => { c with left := none, right := none }
  let c ← m.load node
  let m ← treeFree rounds node m
  return (some c.data, m)

/-- `tree_delete (node, cmp, data)`. The node is compared with before it is tested for NULL. -/
def treeDelete (cmp : α → α → Int) (data : α) :
    Nat → Ptr → Heap (TreeNode α) → Run (Option α × Heap (TreeNode α))
  | 0, _, _ => ⟨[], .diverge⟩
  | rounds + 1, node, m => do
      let c ← m.load node
      let diff := cmp data c.data
      if node = none then return (none, m)
      else if diff < 0 then treeDelete cmp data rounds c.left m
      else if 0 < diff then treeDelete cmp data rounds c.right m
      else if c.left ≠ none ∧ c.right ≠ none then
        let successor ← treeSuccessor (rounds + 1) node m
        let s ← m.load successor
        let m ← m.modify node fun c => { c with data := s.data }
        let (_, m) ← treeDelete cmp data rounds successor m
        return (some c.data, m)
      else if c.right ≠ none then treeRemoveNode (rounds + 1) node c.left m
      else if c.left ≠ none then treeRemoveNode (rounds + 1) node c.right m
      else treeRemoveNode (rounds + 1) node none m

/-- `root = tree_insert (root, cmp, data)`. No path is longer than the number of nodes. -/
def treeAdd (cmp : α → α → Int) (tree : Ptr × Heap (TreeNode α)) (data : α) :
    Run (Ptr × Heap (TreeNode α)) :=
  treeInsert cmp data (tree.2.cells.length + 1) tree.1 tree.2

/-- A tree that is built by inserting one datum after the other. -/
def treeBuild (cmp : α → α → Int) (inserted : List α) : Run (Ptr × Heap (TreeNode α)) :=
  inserted.foldlM (treeAdd cmp) (none, ⟨[]⟩)

end Snert
