/-
Module: Snert.CModel.ListStore
Purpose: Linked lists in memory. A pointer to a list is its number, and a pointer into it is an index.
  A list is an object with as many elements as it has records, and a list that has been freed has
  none left: reading it, extending it or freeing it again is out of bounds.
Trusted boundary: human-reviewed spec
Main exports: ListStore, ListStore.get, ListStore.Live, ListStore.alloc
-/
import Mathlib.Data.List.GetD
import Snert.CModel.Run

namespace CModel

/-- The lists that have been made, in order. -/
structure ListStore (α : Type) where
  lists : List (List α)

namespace ListStore

variable {α : Type}

/-- The elements of a list. -/
def get (m : ListStore α) (p : Nat) : List α :=
  m.lists.getD p []

/-- The list is there: it has been made and not been freed. -/
def Live (m : ListStore α) (p : Nat) : Prop :=
  m.get p ≠ []

/-- A new list, and the pointer to it. A list without elements is NULL, so it is never made. -/
def alloc (m : ListStore α) (list : List α) : ListStore α × Nat :=
  ({ lists := m.lists ++ [list] }, m.lists.length)

/-- Read the element at an index. -/
def read (m : ListStore α) (p i : Nat) : Run α :=
  match (m.get p)[i]? with
  | some a => Run.load ⟨i, 1, (m.get p).length⟩ a
  | none => Run.overrun ⟨i, 1, (m.get p).length⟩

/-- Read all elements from an index on. -/
def readFrom (m : ListStore α) (p i : Nat) : Run (List α) :=
  Run.load ⟨i, (m.get p).length - i, (m.get p).length⟩ ((m.get p).drop i)

/-- Link elements to the end of a list. -/
def extend (m : ListStore α) (p : Nat) (list : List α) : Run (ListStore α) :=
  Run.store ⟨0, 1, (m.get p).length⟩ { lists := m.lists.set p (m.get p ++ list) }

/-- Free a list. -/
def free (m : ListStore α) (p : Nat) : Run (ListStore α) :=
  Run.store ⟨0, 1, (m.get p).length⟩ { lists := m.lists.set p [] }

/-! ### What the operations do to the lists -/

section

variable {m : ListStore α} {p q i : Nat} {list : List α}

theorem Live.lt_length (h : m.Live p) : p < m.lists.length := by
  refine Nat.lt_of_not_le fun hle => h ?_
  rw [get, List.getD_eq_default _ _ hle]

theorem Live.length_pos (h : m.Live p) : 0 < (m.get p).length :=
  List.length_pos_iff.mpr h

theorem get_alloc (h : p < m.lists.length) : (m.alloc list).1.get p = m.get p := by
  simp [get, alloc, List.getD_eq_getElem?_getD, List.getElem?_append_left h]

@[simp] theorem get_alloc_new : (m.alloc list).1.get (m.alloc list).2 = list := by
  simp [get, alloc, List.getD_eq_getElem?_getD]

theorem get_set (h : q ≠ p) : get { lists := m.lists.set p list } q = m.get q := by
  simp [get, List.getD_eq_getElem?_getD, List.getElem?_set_ne (Ne.symm h)]

theorem get_set_self (h : p < m.lists.length) : get { lists := m.lists.set p list } p = list := by
  simp [get, List.getD_eq_getElem?_getD, List.getElem?_set_self h]

/-! ### Rules -/

theorem safe_read {Q : α → Prop} :
    (m.read p i).Safe Q ↔ ∃ a, (m.get p)[i]? = some a ∧ Q a := by
  unfold read
  cases h : (m.get p)[i]? with
  | some a =>
      have hlt := (List.getElem?_eq_some_iff.mp h).1
      simp [Run.safe_load, Access.InBounds]
      omega
  | none =>
      have hle := List.getElem?_eq_none_iff.mp h
      simp [Run.Safe, Run.InBounds, Run.overrun, Access.InBounds]
      omega

theorem safe_readFrom {Q : List α → Prop} (h : i ≤ (m.get p).length) :
    (m.readFrom p i).Safe Q ↔ Q ((m.get p).drop i) := by
  have hin : Access.InBounds ⟨i, (m.get p).length - i, (m.get p).length⟩ :=
    Access.inBounds_iff_le.mpr (by omega)
  rw [readFrom, Run.safe_load]
  exact and_iff_right hin

theorem inBounds_head : Access.InBounds ⟨0, 1, (m.get p).length⟩ ↔ m.Live p := by
  unfold Access.InBounds Live
  rw [← List.length_pos_iff]
  dsimp only
  omega

theorem safe_extend {Q : ListStore α → Prop} :
    (m.extend p list).Safe Q ↔
      m.Live p ∧ Q { lists := m.lists.set p (m.get p ++ list) } := by
  rw [extend, Run.safe_store, inBounds_head]

theorem safe_free {Q : ListStore α → Prop} :
    (m.free p).Safe Q ↔ m.Live p ∧ Q { lists := m.lists.set p [] } := by
  rw [free, Run.safe_store, inBounds_head]

/-! ### What is kept -/

/-- Lists may have been made and extended, but none was freed of those that there were. -/
structure Keeps (m m' : ListStore α) : Prop where
  length_le : m.lists.length ≤ m'.lists.length
  grows : ∀ p, m.get p <+: m'.get p

theorem Keeps.refl (m : ListStore α) : Keeps m m :=
  { length_le := Nat.le_refl _
    grows := fun _ => List.prefix_refl _ }

theorem Keeps.trans {m m' m'' : ListStore α} (h : Keeps m m') (h' : Keeps m' m'') :
    Keeps m m'' :=
  { length_le := Nat.le_trans h.length_le h'.length_le
    grows := fun p => (h.grows p).trans (h'.grows p) }

theorem Keeps.live {m' : ListStore α} (h : Keeps m m') (hp : m.Live p) : m'.Live p := by
  intro hnil
  have hgrows := h.grows p
  rw [hnil, List.prefix_nil] at hgrows
  exact hp hgrows

theorem Keeps.lt {m' : ListStore α} (h : Keeps m m') (hi : i < (m.get p).length) :
    i < (m'.get p).length :=
  Nat.lt_of_lt_of_le hi (h.grows p).length_le

theorem keeps_alloc (m : ListStore α) (list : List α) : Keeps m (m.alloc list).1 :=
  { length_le := by simp [alloc]
    grows := fun p => by
      by_cases hp : p < m.lists.length
      · rw [get_alloc hp]
      · rw [get, List.getD_eq_default _ _ (Nat.le_of_not_lt hp)]
        exact List.nil_prefix }

theorem keeps_extend (m : ListStore α) (p : Nat) (list : List α) :
    Keeps m { lists := m.lists.set p (m.get p ++ list) } :=
  { length_le := Nat.le_of_eq List.length_set.symm
    grows := fun q => by
      by_cases hq : q = p
      · subst hq
        by_cases hlt : q < m.lists.length
        · rw [get_set_self hlt]
          exact List.prefix_append _ _
        · rw [get, List.getD_eq_default _ _ (Nat.le_of_not_lt hlt)]
          exact List.nil_prefix
      · rw [get_set hq] }

theorem Keeps.free {m' : ListStore α} (h : Keeps m m') (hp : m.lists.length ≤ p) :
    Keeps m { lists := m'.lists.set p [] } :=
  { length_le := by
      rw [List.length_set]
      exact h.length_le
    grows := fun q => by
      by_cases hq : q = p
      · rw [get, hq, List.getD_eq_default _ _ hp]
        exact List.nil_prefix
      · rw [get_set hq]
        exact h.grows q }

end

end ListStore

end CModel
