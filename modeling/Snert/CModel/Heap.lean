/-
Module: Snert.CModel.Heap
Purpose: Records on the heap that point to each other. A pointer is NULL or the number of a record,
  in the order in which they were allocated. A record that has been freed is there no more: reading
  it, writing it or freeing it again is out of bounds, as it is through NULL.
Trusted boundary: human-reviewed spec
Main exports: Heap, Ptr, Heap.get, Heap.set
-/
import Snert.CModel.Run

namespace CModel

/-- A pointer, or NULL. -/
abbrev Ptr : Type := Option Nat

/-- The records that have been allocated, in order. One that has been freed is `none`. -/
structure Heap (α : Type) where
  cells : List (Option α)
deriving DecidableEq, Repr

namespace Heap

variable {α : Type}

/-- The record at a pointer. -/
def get (m : Heap α) (p : Nat) : Option α :=
  m.cells[p]?.join

/-- Memory with another record at a pointer, or with none there. -/
def set (m : Heap α) (p : Nat) (cell : Option α) : Heap α :=
  { cells := m.cells.set p cell }

/-- A new record, and the pointer to it. -/
def alloc (m : Heap α) (cell : α) : Heap α × Nat :=
  ({ cells := m.cells ++ [some cell] }, m.cells.length)

/-- The access to a record, which is one object. -/
def access (m : Heap α) (p : Ptr) : Access :=
  ⟨0, 1, if (p.bind m.get).isSome then 1 else 0⟩

/-- Read a record. -/
def load (m : Heap α) (p : Ptr) : Run α :=
  match p.bind m.get with
  | some cell => Run.load (m.access p) cell
  | none => Run.overrun (m.access p)

/-- Write a record. -/
def store (m : Heap α) (p : Ptr) (cell : α) : Run (Heap α) :=
  Run.store (m.access p) (m.set (p.getD 0) (some cell))

/-- Write to fields of a record. -/
def modify (m : Heap α) (p : Ptr) (f : α → α) : Run (Heap α) := do
  let cell ← m.load p
  m.store p (f cell)

/-- Free a record; `free (NULL)` does nothing. -/
def free (m : Heap α) (p : Ptr) : Run (Heap α) :=
  match p with
  | some q => Run.store (m.access p) (m.set q none)
  | none => pure m

variable {m : Heap α} {p q : Nat} {cell : α}

theorem lt_of_get (h : m.get p = some cell) : p < m.cells.length := by
  by_contra hnot
  rw [get, List.getElem?_eq_none (Nat.le_of_not_lt hnot)] at h
  cases h

@[simp] theorem length_set (cell : Option α) : (m.set p cell).cells.length = m.cells.length :=
  List.length_set

theorem get_set_self (hp : p < m.cells.length) (cell : Option α) : (m.set p cell).get p = cell := by
  rw [get, set, List.getElem?_set_self hp]
  rfl

theorem get_set_ne (h : q ≠ p) (cell : Option α) : (m.set p cell).get q = m.get q := by
  rw [get, set, List.getElem?_set_ne h.symm]
  rfl

theorem get_alloc_self : (m.alloc cell).1.get (m.alloc cell).2 = some cell := by
  rw [get, alloc, List.getElem?_append_right (Nat.le_refl _), Nat.sub_self]
  rfl

theorem get_alloc_of_lt (h : q < m.cells.length) : (m.alloc cell).1.get q = m.get q := by
  rw [get, alloc, List.getElem?_append_left h]
  rfl

/-! ### Rules -/

theorem inBounds_access {p : Ptr} : (m.access p).InBounds ↔ (p.bind m.get).isSome := by
  unfold access Access.InBounds
  split_ifs with h <;> simp [h]

theorem yields_load (h : m.get p = some cell) : (m.load (some p)).Yields cell := by
  have hin : (m.access (some p)).InBounds :=
    inBounds_access.mpr (Option.isSome_iff_exists.mpr ⟨_, h⟩)
  unfold load
  rw [Option.bind_some, h]
  exact Run.yields_load hin cell

theorem not_ends_load_null {Q : α → Prop} : ¬ (m.load none).Ends Q :=
  Run.not_ends_overrun

theorem yields_store (h : m.get p = some cell) (new : α) :
    (m.store (some p) new).Yields (m.set p (some new)) :=
  Run.ends_store.mpr ⟨inBounds_access.mpr (Option.isSome_iff_exists.mpr ⟨_, h⟩), rfl⟩

theorem yields_modify (h : m.get p = some cell) (f : α → α) :
    (m.modify (some p) f).Yields (m.set p (some (f cell))) :=
  (yields_load h).bind (yields_store h _)

theorem yields_free (h : m.get p = some cell) : (m.free (some p)).Yields (m.set p none) :=
  Run.ends_store.mpr ⟨inBounds_access.mpr (Option.isSome_iff_exists.mpr ⟨_, h⟩), rfl⟩

end Heap

end CModel
