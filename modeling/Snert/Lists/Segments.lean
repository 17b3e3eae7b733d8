/-
Module: Snert.Lists.Segments
Purpose: Lists that are cut into segments at separators. A list is determined by its segments and
  its separators, turning it round turns both round, and putting one separator in the place of all
  of them joins the segments by it. A list is also taken apart from the front: a function gives the
  first part and what is left behind it, and is asked again until it has nothing to give. Where it
  always leaves less, the number of rounds that is allowed does not matter.
Trusted boundary: none
Main exports: segments_induction, splitOnP_reverse, eq_of_segments, map_separators, Takes, parts
-/
import Mathlib.Data.List.TakeWhile

namespace Lists

variable {α : Type} {p : α → Bool}

theorem first_segment (p : α → Bool) (l : List α) : (∀ x ∈ l, p x = false) ∨
    ∃ seg sep rest, l = seg ++ sep :: rest ∧ (∀ x ∈ seg, p x = false) ∧ p sep = true := by
  have hseg : ∀ x ∈ l.takeWhile fun x => !p x, p x = false := fun x hx => by
    simpa using List.mem_takeWhile_imp hx
  have hsplit : (l.takeWhile fun x => !p x) ++ (l.dropWhile fun x => !p x) = l :=
    List.takeWhile_append_dropWhile
  cases hrest : l.dropWhile fun x => !p x with
  | nil =>
      rw [hrest, List.append_nil] at hsplit
      exact .inl (hsplit ▸ hseg)
  | cons sep rest =>
      have hsep := List.head?_dropWhile_not (fun x => !p x) l
      rw [hrest] at hsep hsplit
      exact .inr ⟨_, sep, rest, hsplit.symm, hseg, by simpa using hsep⟩

theorem last_segment (p : α → Bool) (l : List α) : (∀ x ∈ l, p x = false) ∨
    ∃ front sep seg, l = front ++ sep :: seg ∧ (∀ x ∈ seg, p x = false) ∧ p sep = true := by
  rcases first_segment p l.reverse with hl | ⟨seg, sep, front, hl, hseg, hsep⟩
  · exact .inl fun x hx => hl x (List.mem_reverse.mpr hx)
  · refine .inr ⟨front.reverse, sep, seg.reverse, ?_, fun x hx => hseg x (List.mem_reverse.mp hx),
      hsep⟩
    rw [← List.reverse_reverse l, hl, List.reverse_append, List.reverse_cons, List.append_assoc,
      List.singleton_append]

/-- Induction over the segments of a list, the first one first. -/
theorem segments_induction {motive : List α → Prop} (p : α → Bool)
    (single : ∀ seg, (∀ x ∈ seg, p x = false) → motive seg)
    (more : ∀ seg sep rest, (∀ x ∈ seg, p x = false) → p sep = true → motive rest →
      motive (seg ++ sep :: rest)) (l : List α) : motive l := by
  induction hlength : l.length using Nat.strongRecOn generalizing l with
  | _ k ih =>
      rcases first_segment p l with hl | ⟨seg, sep, rest, rfl, hseg, hsep⟩
      · exact single l hl
      · refine more seg sep rest hseg hsep (ih rest.length ?_ rest rfl)
        rw [← hlength, List.length_append, List.length_cons]
        omega

/-- Turned round, a list has its segments turned round, in reverse order. -/
theorem splitOnP_reverse (l : List α) :
    l.reverse.splitOnP p = ((l.splitOnP p).map List.reverse).reverse := by
  induction l using segments_induction p with
  | single l hl =>
      rw [List.splitOnP_eq_singleton hl, List.splitOnP_eq_singleton fun x hx =>
        hl x (List.mem_reverse.mp hx)]
      rfl
  | more first sep rest hfirst hsep ih =>
      have hturned : (first ++ sep :: rest).reverse = rest.reverse ++ sep :: first.reverse := by
        simp
      rw [hturned, List.splitOnP_append_cons _ _ hsep, ih,
        List.splitOnP_eq_singleton fun x hx => hfirst x (List.mem_reverse.mp hx),
        List.splitOnP_append_cons_of_forall_mem hfirst sep hsep, List.map_cons, List.reverse_cons]

/-- Lists with the same segments and the same separators are the same. -/
theorem eq_of_segments {l l' : List α} (hsegments : l.splitOnP p = l'.splitOnP p)
    (hseparators : l.filter p = l'.filter p) : l = l' := by
  rw [← List.splitOnP_spec (p := p) l, ← List.splitOnP_spec (p := p) l', hsegments, hseparators]

/-- One separator in the place of all joins the segments. -/
theorem map_separators {f : α → α} {d : α} (hkeep : ∀ x, p x = false → f x = x)
    (hput : ∀ x, p x = true → f x = d) (l : List α) :
    l.map f = [d].intercalate (l.splitOnP p) := by
  have hsegment {seg : List α} (hseg : ∀ x ∈ seg, p x = false) : seg.map f = seg :=
    (List.map_congr_left fun x hx => hkeep x (hseg x hx)).trans (List.map_id' seg)
  induction l using segments_induction p with
  | single l hl =>
      rw [List.splitOnP_eq_singleton hl, List.intercalate_singleton, hsegment hl]
  | more first sep rest hfirst hsep ih =>
      rw [List.map_append, List.map_cons, hsegment hfirst, hput sep hsep, ih,
        List.splitOnP_append_cons_of_forall_mem hfirst sep hsep,
        List.intercalate_cons_of_ne_nil (List.splitOnP_ne_nil p rest), List.append_assoc,
        List.singleton_append]

theorem head_splitOnP (l : List α) :
    (l.splitOnP p).head? = some [] ↔ l.head?.all p = true := by
  induction l using segments_induction p with
  | single l hl =>
      rw [List.splitOnP_eq_singleton hl]
      cases l with
      | nil => simp
      | cons x l => simp [hl x]
  | more first sep rest hfirst hsep ih =>
      rw [List.splitOnP_append_cons_of_forall_mem hfirst sep hsep]
      cases first with
      | nil => simp [hsep]
      | cons x first => simp [hfirst x]

/-! ### Parts taken from the front -/

section

variable {α β : Type}

/-- What takes a list apart: the first part and what is left, if there is a part and anything is
    left. -/
abbrev Takes (α β : Type) := List α → Option (β × Option (List α))

/-- The parts of a list, in at most the given number of rounds. -/
def parts (takes : Takes α β) : Nat → List α → List β
  | 0, _ => []
  | rounds + 1, l =>
      match takes l with
      | none => []
      | some (part, none) => [part]
      | some (part, some rest) => part :: parts takes rounds rest

/-- What is left is shorter than the list. -/
def Takes.Shortens (takes : Takes α β) : Prop :=
  ∀ l part rest, takes l = some (part, some rest) → rest.length < l.length

variable {takes : Takes α β} {l : List α}

theorem parts_of_le (h : takes.Shortens) {rounds rounds' : Nat} (hr : l.length < rounds)
    (hle : rounds ≤ rounds') : parts takes rounds' l = parts takes rounds l := by
  induction rounds generalizing l rounds' with
  | zero => omega
  | succ rounds ih =>
      obtain ⟨rounds', rfl⟩ : ∃ k, rounds' = k + 1 := ⟨rounds' - 1, by omega⟩
      rw [parts, parts]
      cases htakes : takes l with
      | none => rfl
      | some taken =>
          rcases taken with ⟨part, _ | rest⟩
          · rfl
          · have hlt := h l part rest htakes
            dsimp only
            rw [ih (by omega) (Nat.le_of_succ_le_succ hle)]

theorem parts_eq (h : takes.Shortens) (l : List α) : parts takes (l.length + 1) l =
    match takes l with
    | none => []
    | some (part, none) => [part]
    | some (part, some rest) => part :: parts takes (rest.length + 1) rest := by
  rw [parts]
  cases htakes : takes l with
  | none => rfl
  | some taken =>
      rcases taken with ⟨part, _ | rest⟩
      · rfl
      · have hlt := h l part rest htakes
        dsimp only
        rw [parts_of_le h (Nat.lt_succ_self rest.length) (show rest.length + 1 ≤ l.length by omega)]

theorem parts_induction (h : takes.Shortens) {P : List α → Prop}
    (step : ∀ l, (∀ part rest, takes l = some (part, some rest) → P rest) → P l) (l : List α) : P l := by
  induction hn : l.length using Nat.strongRecOn generalizing l with
  | ind n ih =>
      refine step l fun part rest htakes => ih rest.length ?_ rest rfl
      have hlt := h l part rest htakes
      omega

end

end Lists
