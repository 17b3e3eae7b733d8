/-
Module: Snert.Proofs.ListsInPlace
Purpose: The loops of net/pdq.c that take records out of a list on the heap: what they leave is the
  list that the functions on lists of records return, each record they take out is freed once, and
  no other memory changes. Where `prev` never advances, the records before the last one that is
  taken out are neither freed nor left in the list.
Trusted boundary: none
Main exports: pdqListPruneInPlace_refines, pdqListKeepTypeInPlace_refines, pdqListPruneSection_loses
-/
import Snert.Proofs.PruneMatch
import Snert.Pdq.RootGet

namespace Snert

open CModel CModel.Run CModel.Heap

variable {m : PdqHeap} {list rr : Ptr} {cells rest : List (Nat × PdqRr)}

/-! ### Filters -/

theorem map_filter_snd (drop : PdqRr → Bool) (cells : List (Nat × PdqRr)) :
    (cells.filter fun c => !drop c.2).map Prod.snd =
      (cells.map Prod.snd).filter fun rr => !drop rr := by
  rw [List.filter_map]
  rfl

/-- A loop over a whole list. -/
theorem unlinkAll_ends (drop : PdqRr → Bool) (h : m.Linked list cells) :
    (unlinkLoop drop true m.cells.length m list none list).Ends fun (m', list') => ∃ kept,
      kept.map Prod.snd = (cells.map Prod.snd).filter (fun rr => !drop rr) ∧
        Thinned m m' list' cells kept :=
  (unlinkLoop_ends drop [] h h h.length_le).mono fun _ hthin =>
    ⟨_, map_filter_snd drop cells, hthin⟩

/-- Records of other types than those of the mask are taken out and freed. -/
theorem pdqListKeepTypeInPlace_refines (l : LinkedList PdqRr) (mask : Nat) :
    (pdqListKeepTypeInPlace l.memory l.head mask).Ends fun (m', list') => ∃ kept,
      kept.map Prod.snd = pdqListKeepType l.items mask ∧
        Thinned l.memory m' list' l.cells kept := by
  have hkeep := unlinkAll_ends (fun rr => !pdqKeepType mask rr.type) l.linked
  simp only [Bool.not_not] at hkeep
  exact hkeep

/-! ### Duplicates -/

theorem pruneDupLoop_rounds {rounds : Nat} {list : List PdqRr} (h : list.length ≤ rounds) :
    pruneDupLoop rounds list = pdqListPruneDup list := by
  have hloop := pruneDupLoop_eq rounds [] list h
  rw [pruneDup_eq]
  simpa using hloop

theorem pruneDupInPlace_ends (kept : List (Nat × PdqRr)) {rounds : Nat}
    (h : m.Linked list (kept ++ rest)) (hrr : m.Linked rr rest) (hrounds : rest.length ≤ rounds) :
    (pruneDupInPlace rounds m list rr).Ends fun m' => ∃ rest',
      rest'.map Prod.snd = pruneDupLoop rounds (rest.map Prod.snd) ∧
        Thinned m m' list (kept ++ rest) (kept ++ rest') := by
  induction rounds generalizing m rr kept rest with
  | zero =>
      obtain rfl : rest = [] := List.length_eq_zero_iff.mp (Nat.le_zero.mp hrounds)
      obtain rfl : rr = none := hrr
      exact ends_pure.mpr ⟨[], rfl, Thinned.refl h⟩
  | succ rounds ih =>
      cases rest with
      | nil =>
          obtain rfl : rr = none := hrr
          exact ends_pure.mpr ⟨[], rfl, Thinned.refl h⟩
      | cons c rest =>
          obtain ⟨p, r1⟩ := c
          obtain ⟨rfl, next, hget, hrest⟩ := hrr
          rw [List.append_cons] at h
          have hinner := unlinkLoop_ends (pdqEqual r1) _ h hrest (Linked.length_le hrest)
          rw [last_append_singleton] at hinner
          rw [pruneDupInPlace, (yields_load hget).bind_ends_iff, ends_bind]
          refine hinner.mono fun (m₁, head₁) hthin => ?_
          -- The link of `r1` leads to the first record behind it that stays; `list` is the same.
          obtain ⟨mid, hfront, hrest₁⟩ := linked_append.mp hthin.linked
          obtain ⟨_, -, rfl, _, hget₁, rfl⟩ := segment_append.mp hfront
          have hhead : head₁ = list := by
            rw [hthin.linked.eq_first, h.eq_first]
            cases kept <;> rfl
          subst hhead
          have hlength : (rest.filter fun c => !pdqEqual r1 c.2).length ≤ rounds :=
            Nat.le_trans (List.length_filter_le ..) (Nat.le_of_succ_le_succ hrounds)
          rw [(yields_load hget₁).bind_ends_iff]
          refine (ih _ hthin.linked hrest₁ hlength).mono fun m₂ ⟨rest', hitems, hthin'⟩ => ?_
          refine ⟨(p, r1) :: rest', ?_, ?_⟩
          · rw [List.map_cons, hitems, map_filter_snd (pdqEqual r1)]
            rfl
          · simpa only [List.append_assoc, List.singleton_append] using hthin.trans hthin'

/-- The first two steps of `pdqListPrune`: repeated records are taken out, and then reserved
addresses. -/
theorem pdqListPruneInPlace_refines (l : LinkedList PdqRr) (mask : Nat) :
    (pdqListPruneDupInPlace l.memory l.head >>= fun r => pdqListPrune5AInPlace r.1 r.2 mask).Ends
      fun (m', list') => ∃ kept,
        kept.map Prod.snd = pdqListPrune5A (pdqListPruneDup l.items) mask ∧
          Thinned l.memory m' list' l.cells kept := by
  have hlength := l.linked.length_le
  have hdup := pruneDupInPlace_ends [] l.linked l.linked hlength
  rw [pruneDupLoop_rounds (by simpa using hlength)] at hdup
  rw [pdqListPruneDupInPlace, bind_assoc, ends_bind]
  refine hdup.mono fun m₁ ⟨unique, hunique, hthin⟩ => ?_
  have hrest := unlinkAll_ends (PdqRr.isReserved · mask) hthin.linked
  rw [LinkedList.items, ← hunique, pure_bind]
  exact hrest.mono fun _ ⟨kept, hkept, hthin'⟩ => ⟨kept, hkept, hthin.trans hthin'⟩

/-! ### Sections -/

/-- Only what is behind the last record of the section is left in the list. The records of the
section are freed, and the others are where they were. -/
theorem pdqListPruneSection_loses (l : LinkedList PdqRr) (rrSection : PdqSection) :
    (pdqListPruneSectionInPlace l.memory l.head rrSection).Ends fun (m', list') =>
      m'.Linked list' (l.cells.rtakeWhile fun c => !decide (c.2.rrSection = rrSection)) ∧
      ∀ c ∈ l.cells, m'.get c.1 =
        if c.2.rrSection = rrSection then none else l.memory.get c.1 := by
  obtain ⟨m, list, cells, h⟩ := l
  let drop (rr : PdqRr) : Bool := rr.rrSection = rrSection
  refine (unlinkLoop_head_ends drop h h.length_le).mono fun (m', list') ⟨hmem, hhead⟩ => ?_
  have hdropped : ∀ c ∈ cells,
      c.1 ∈ (cells.filter fun c => drop c.2).map Prod.fst ↔ c.2.rrSection = rrSection := by
    intro c hc
    obtain ⟨next, hget⟩ := Segment.get_of_mem h hc
    refine ⟨fun hfreed => ?_, fun hsection => ?_⟩
    · obtain ⟨d, hd, heq⟩ := List.mem_map.mp hfreed
      rw [List.mem_filter] at hd
      obtain ⟨next', hget'⟩ := Segment.get_of_mem h hd.1
      have hitem : d.2 = c.2 := by simp_all
      simpa [drop, hitem] using hd.2
    · exact List.mem_map.mpr ⟨c, List.mem_filter.mpr ⟨hc, by simpa [drop] using hsection⟩, rfl⟩
  refine ⟨?_, fun c hc => by simp only [hmem, hdropped c hc]⟩
  have hparts := h
  rw [← List.rdropWhile_append_rtakeWhile (p := fun c => !drop c.2) (l := cells)] at hparts
  obtain ⟨mid, -, hbehind⟩ := linked_append.mp hparts
  have hlist : list' = mid := by
    rw [hhead, hbehind.eq_first]
    split_ifs with hany
    · rfl
    · rw [List.rtakeWhile_eq_self_iff.mpr (by simpa using hany)]
      exact h.eq_first
  subst hlist
  refine Segment.congr hbehind fun q hq => ?_
  obtain ⟨c, hc, rfl⟩ := List.mem_map.mp hq
  have hstays : ¬ c.2.rrSection = rrSection := by simpa [drop] using List.mem_rtakeWhile_imp hc
  have hcell := (List.rtakeWhile_suffix _ _).subset hc
  simp only [hmem, hdropped c hcell, if_neg hstays]

end Snert
