/-
Module: Snert.Lists.SortRuns
Purpose: Sorting the runs of a list. Some elements are ranked; each maximal run of adjacent ranked
  elements is put in ascending order of rank, stably, and everything else stays where it is.
  `insertRun` does so one element at a time on a list kept in reverse order: an element comes behind
  the ranked elements at the front that have a larger rank.
Trusted boundary: human-reviewed spec
Main exports: sortRuns, insertRun, foldl_insertRun, perm_sortRuns
-/
import Mathlib.Data.List.DropRight
import Mathlib.Data.List.Sort
import Mathlib.Data.List.SplitBy

namespace Lists

variable {α β : Type} (ranked : α → Bool) (rank : α → Nat)

/-- Each maximal run of adjacent ranked elements is sorted by rank. -/
def sortRuns (l : List α) : List α :=
  (l.splitBy fun x y => ranked x && ranked y).flatMap fun run =>
    run.insertionSort fun x y => rank x ≤ rank y

/-- Insert an element in a list in reverse order. -/
def insertRun (x : α) : List α → List α
  | [] => [x]
  | q :: l =>
      if ranked q && ranked x && decide (rank x < rank q) then q :: insertRun x l else x :: q :: l

/-- Insert an element in a list in order, behind all that do not have a larger rank. -/
def insertBehind (x : α) : List α → List α
  | [] => [x]
  | b :: l => if rank b ≤ rank x then b :: insertBehind x l else x :: b :: l

/-! ### Sorting with one more element at the end -/

section

variable {rank}

theorem orderedInsert_insertBehind (a x : α) (l : List α) :
    (insertBehind rank x l).orderedInsert (fun x y => rank x ≤ rank y) a =
      insertBehind rank x (l.orderedInsert (fun x y => rank x ≤ rank y) a) := by
  induction l with
  | nil =>
      simp only [insertBehind, List.orderedInsert]
  | cons b l ih =>
      by_cases hbx : rank b ≤ rank x
      · by_cases hab : rank a ≤ rank b
        · have hax := Nat.le_trans hab hbx
          simp [insertBehind, List.orderedInsert, hbx, hab, hax]
        · simp [insertBehind, List.orderedInsert, hbx, hab, ih]
      · by_cases hab : rank a ≤ rank b
        · by_cases hax : rank a ≤ rank x
          · simp [insertBehind, List.orderedInsert, hbx, hab, hax]
          · simp [insertBehind, List.orderedInsert, hbx, hab, hax]
        · have hax : ¬ rank a ≤ rank x := by omega
          simp [insertBehind, List.orderedInsert, hbx, hab, hax]

theorem insertionSort_append_singleton (l : List α) (x : α) :
    (l ++ [x]).insertionSort (fun x y => rank x ≤ rank y) =
      insertBehind rank x (l.insertionSort fun x y => rank x ≤ rank y) := by
  induction l with
  | nil => rfl
  | cons a l ih =>
      rw [List.cons_append, List.insertionSort_cons, ih, orderedInsert_insertBehind,
        List.insertionSort_cons]

theorem pairwise_insertionSort_rank (l : List α) :
    (l.insertionSort fun x y => rank x ≤ rank y).Pairwise fun x y => rank x ≤ rank y := by
  have : Std.Total fun x y : α => rank x ≤ rank y := ⟨fun x y => Nat.le_total _ _⟩
  have : IsTrans α fun x y => rank x ≤ rank y := ⟨fun _ _ _ => Nat.le_trans⟩
  exact List.pairwise_insertionSort _ l

theorem insertBehind_of_forall_le {x : α} {l : List α} (h : ∀ b ∈ l, rank b ≤ rank x) :
    insertBehind rank x l = l ++ [x] := by
  induction l with
  | nil => rfl
  | cons b l ih =>
      rw [insertBehind, if_pos (h b List.mem_cons_self),
        ih fun c hc => h c (List.mem_cons_of_mem b hc), List.cons_append]

theorem insertBehind_append_of_lt {x c : α} (l : List α) (h : rank x < rank c) :
    insertBehind rank x (l ++ [c]) = insertBehind rank x l ++ [c] := by
  induction l with
  | nil => exact if_neg (Nat.not_le.mpr h)
  | cons b l ih =>
      rw [List.cons_append, insertBehind, insertBehind]
      split
      · rw [ih, List.cons_append]
      · rfl

variable {ranked}

theorem insertRun_reverse_append {x : α} {run rest : List α} (hx : ranked x)
    (hrun : ∀ b ∈ run, ranked b) (hsorted : run.Pairwise fun x y => rank x ≤ rank y)
    (hrest : ∀ b ∈ rest.head?, ranked b = false) :
    insertRun ranked rank x (run.reverse ++ rest) =
      (insertBehind rank x run).reverse ++ rest := by
  induction run using List.reverseRecOn with
  | nil =>
      cases rest with
      | nil => rfl
      | cons b rest =>
          have hb : ranked b = false := hrest b rfl
          simp [insertRun, insertBehind, hb]
  | append_singleton run c ih =>
      have hc : ranked c := hrun c (by simp)
      rw [List.pairwise_append] at hsorted
      rw [List.reverse_append, List.reverse_singleton, List.singleton_append, List.cons_append,
        insertRun]
      by_cases hlt : rank x < rank c
      · rw [if_pos (by simp [hc, hx, hlt]), insertBehind_append_of_lt run hlt,
          ih (fun b hb => hrun b (by simp [hb])) hsorted.1]
        simp
      · rw [if_neg (by simp [hlt]), insertBehind_of_forall_le]
        · simp
        · intro b hb
          rcases List.mem_append.mp hb with hb | hb
          · exact Nat.le_trans (hsorted.2.2 b hb c (by simp)) (Nat.not_lt.mp hlt)
          · rw [List.mem_singleton.mp hb]
            exact Nat.not_lt.mp hlt

end

/-! ### Runs -/

section

variable {ranked}

theorem sortRuns_append_of_not_ranked {x : α} (l : List α) (hx : ranked x = false) :
    sortRuns ranked rank (l ++ [x]) = sortRuns ranked rank l ++ [x] := by
  have hsplit := List.splitBy_append (r := fun x y => ranked x && ranked y) (l := l) (m := [x])
    (by simp [hx])
  unfold sortRuns
  rw [hsplit, List.flatMap_append]
  rfl

theorem sortRuns_append_run {front run : List α} (hfront : ∀ b ∈ front.getLast?, ranked b = false)
    (hrun : ∀ b ∈ run, ranked b) : sortRuns ranked rank (front ++ run) =
      sortRuns ranked rank front ++ run.insertionSort fun x y => rank x ≤ rank y := by
  rcases List.eq_nil_or_concat' run with rfl | ⟨_, _, hne⟩
  · simp
  have hsplit := List.splitBy_append (r := fun x y => ranked x && ranked y) (l := front) (m := run)
    (fun b hb y _ => by simp [hfront b hb])
  have hchain : run.IsChain fun x y => (ranked x && ranked y) = true :=
    List.Pairwise.isChain (List.pairwise_of_forall_mem_list fun b hb c hc => by
      simp [hrun b hb, hrun c hc])
  unfold sortRuns
  rw [hsplit, List.splitBy_of_isChain (by simp [hne]) hchain, List.flatMap_append]
  simp

theorem getLast_sortRuns {l : List α} (h : ∀ b ∈ l.getLast?, ranked b = false) :
    ∀ b ∈ (sortRuns ranked rank l).getLast?, ranked b = false := by
  rcases List.eq_nil_or_concat' l with rfl | ⟨l, a, rfl⟩
  · simp [sortRuns]
  · have ha : ranked a = false := h a (by simp)
    rw [sortRuns_append_of_not_ranked rank l ha]
    simp [ha]

end

/-- Elements inserted one at a time end up sorted in their runs, in reverse order. -/
theorem foldl_insertRun (l : List α) :
    l.foldl (fun list x => insertRun ranked rank x list) [] = (sortRuns ranked rank l).reverse := by
  induction l using List.reverseRecOn with
  | nil => rfl
  | append_singleton l x ih =>
      rw [List.foldl_append, List.foldl_cons, List.foldl_nil, ih]
      cases hx : ranked x with
      | false =>
          rw [sortRuns_append_of_not_ranked rank l hx, List.reverse_append, List.reverse_singleton]
          cases (sortRuns ranked rank l).reverse with
          | nil => rfl
          | cons q list => simp [insertRun, hx]
      | true =>
          -- The ranked elements at the end of the list are the run that `x` belongs to.
          have hsplit : l.rdropWhile ranked ++ l.rtakeWhile ranked = l :=
            List.rdropWhile_append_rtakeWhile
          have hfront : ∀ b ∈ (l.rdropWhile ranked).getLast?, ranked b = false := by
            intro b hb
            have hne := List.ne_nil_of_mem (List.mem_of_mem_getLast? hb)
            rw [← List.getLast_of_mem_getLast? hb]
            exact Bool.eq_false_of_not_eq_true (List.rdropWhile_last_not _ _ hne)
          have hrun : ∀ b ∈ l.rtakeWhile ranked, ranked b := fun b hb => List.mem_rtakeWhile_imp hb
          have hrun' : ∀ b ∈ l.rtakeWhile ranked ++ [x], ranked b := by
            intro b hb
            rcases List.mem_append.mp hb with hb | hb
            · exact hrun b hb
            · rw [List.mem_singleton.mp hb, hx]
          rw [← hsplit, List.append_assoc, sortRuns_append_run rank hfront hrun',
            sortRuns_append_run rank hfront hrun, insertionSort_append_singleton,
            List.reverse_append, List.reverse_append]
          apply insertRun_reverse_append hx
          · intro b hb
            exact hrun b ((List.mem_insertionSort _).mp hb)
          · exact pairwise_insertionSort_rank _
          · rw [List.head?_reverse]
            exact getLast_sortRuns rank hfront

/-! ### What sorting runs keeps -/

theorem perm_insertRun (x : α) (l : List α) : (insertRun ranked rank x l).Perm (x :: l) := by
  induction l with
  | nil => exact .refl _
  | cons q l ih =>
      unfold insertRun
      split
      · exact (ih.cons q).trans (.swap x q l)
      · exact .refl _

theorem perm_sortRuns (l : List α) : (sortRuns ranked rank l).Perm l := by
  have hfold : ∀ acc : List α,
      (l.foldl (fun list x => insertRun ranked rank x list) acc).Perm (l.reverse ++ acc) := by
    induction l with
    | nil => exact fun acc => .refl _
    | cons x l ih =>
        intro acc
        rw [List.foldl_cons, List.reverse_cons, List.append_assoc]
        exact (ih _).trans ((perm_insertRun ranked rank x acc).append_left _)
  have hsort := hfold []
  rw [foldl_insertRun, List.append_nil] at hsort
  exact (List.reverse_perm _).symm.trans (hsort.trans (List.reverse_perm _))

theorem insertRun_map (f : β → α) (x : β) (l : List β) :
    insertRun ranked rank (f x) (l.map f) =
      (insertRun (fun y => ranked (f y)) (fun y => rank (f y)) x l).map f := by
  induction l with
  | nil => rfl
  | cons q l ih =>
      rw [List.map_cons, insertRun, insertRun]
      split
      · rw [ih, List.map_cons]
      · rfl

theorem sortRuns_map (f : β → α) (l : List β) : sortRuns ranked rank (l.map f) =
    (sortRuns (fun y => ranked (f y)) (fun y => rank (f y)) l).map f := by
  have hfold : ∀ acc : List β,
      (l.map f).foldl (fun list x => insertRun ranked rank x list) (acc.map f) =
        (l.foldl (fun list x =>
          insertRun (fun y => ranked (f y)) (fun y => rank (f y)) x list) acc).map f := by
    induction l with
    | nil => exact fun acc => rfl
    | cons x l ih =>
        intro acc
        rw [List.map_cons, List.foldl_cons, List.foldl_cons, insertRun_map, ih]
  have hsort := hfold []
  rw [List.map_nil, foldl_insertRun, foldl_insertRun, List.map_reverse] at hsort
  exact List.reverse_injective hsort

end Lists
