/-
Module: Snert.Proofs.SearchJumps
Purpose: For which patterns `horspool_search` and `smith_search` are right in every text: those of
  two octets or more that are searched for without mismatches. Without mismatches a shift past an
  occurrence would put an octet of the pattern on another one. With them, the octets that a window
  asks its tables for may be the mismatches that the occurrence is allowed, and the shift is no
  bound.
Trusted boundary: none
Main exports: searchesAgree_iff
-/
import Mathlib.Order.Interval.Finset.Nat
import Snert.Proofs.SearchAgree

namespace Snert

open CModel Run Lists

variable {pattern str : List Octet} {max_err offset : Nat}

/-! ### Searches without mismatches -/

theorem getElem?_of_occursAt (hoccurs : OccursAt pattern str 0 offset) {i : Nat}
    (hi : i < pattern.length) : pattern[i]? = str[offset + i]? := by
  by_contra hne
  have hmem : i ∈ mismatchesBelow pattern str offset pattern.length :=
    Finset.mem_filter.mpr ⟨Finset.mem_range.mpr hi, hne⟩
  have hpos := Finset.card_pos.mpr ⟨i, hmem⟩
  exact absurd hoccurs.2 (Nat.not_le.mpr hpos)

theorem bmRow_le (k n : Nat) (c : Octet) : bmRow pattern k n c ≤ pattern.length := by
  induction n with
  | zero =>
      rw [bmRow, Function.update_apply]
      split_ifs <;> omega
  | succ n ih =>
      rw [bmRow, Function.update_apply]
      split_ifs <;> omega

theorem getElem?_eq_some_of_occursAt {shift i : Nat} (hi : i < pattern.length)
    (hoccurs : OccursAt pattern str 0 (offset + shift)) :
    pattern[i]? = some (str.getD (offset + shift + i) 0) := by
  have hsame := getElem?_of_occursAt hoccurs hi
  rw [List.getD_eq_getElem?_getD, ← hsame, List.getElem?_eq_getElem hi]
  rfl

theorem not_occursAt_of_lt_bmEntry {shift : Nat} (hshift : 0 < shift)
    (hlt : shift < bmEntry pattern 0 (str.getD (offset + (pattern.length - 1)) 0)) :
    ¬ OccursAt pattern str 0 (offset + shift) := by
  intro hoccurs
  have hlength : shift < pattern.length := hlt.trans_le (bmRow_le _ _ _)
  have hsome := getElem?_eq_some_of_occursAt
    (by omega : pattern.length - 1 - shift < pattern.length) hoccurs
  have hplace : offset + shift + (pattern.length - 1 - shift) = offset + (pattern.length - 1) := by
    omega
  rw [hplace] at hsome
  have hentry := (bmRow_spec (by omega : 0 < pattern.length) _ (Nat.le_refl _)).2 _ (by omega) hsome
  rw [bmEntry] at hlt
  omega

theorem not_occursAt_of_lt_qsEntry {shift : Nat} (hshift : 0 < shift)
    (hlength : shift ≤ pattern.length)
    (hlt : shift < qsEntry pattern 0 (str.getD (offset + pattern.length) 0)) :
    ¬ OccursAt pattern str 0 (offset + shift) := by
  intro hoccurs
  have hsome := getElem?_eq_some_of_occursAt
    (by omega : pattern.length - shift < pattern.length) hoccurs
  have hplace : offset + shift + (pattern.length - shift) = offset + pattern.length := by omega
  rw [hplace] at hsome
  have hentry := (qsRow_spec pattern (Nat.zero_le _) _ (Nat.le_refl _)).2 _ (by omega) hsome
  rw [qsEntry] at hlt
  omega

theorem horspool_not_jumpsOver :
    ¬ JumpsOver (horspoolShift pattern str 0 · 1) (OccursAt pattern str 0) := by
  rintro ⟨offset, first, -, hoccurs, -, hbefore, hlt⟩
  obtain ⟨shift, rfl⟩ := Nat.exists_eq_add_of_le hbefore.le
  have hshift : 0 < shift := by omega
  obtain ⟨hmin, -⟩ := Nat.lt_min.mp (Nat.add_lt_add_iff_left.mp hlt)
  exact not_occursAt_of_lt_bmEntry hshift (Nat.lt_min.mp hmin).2 hoccurs

theorem smith_not_jumpsOver :
    ¬ JumpsOver (smithShift pattern str 0 · 1) (OccursAt pattern str 0) := by
  rintro ⟨offset, first, -, hoccurs, -, hbefore, hlt⟩
  obtain ⟨shift, rfl⟩ := Nat.exists_eq_add_of_le hbefore.le
  have hshift : 0 < shift := by omega
  obtain ⟨hlength, hmax⟩ := Nat.lt_min.mp (Nat.add_lt_add_iff_left.mp hlt)
  rcases lt_max_iff.mp hmax with hbm | hqs
  · have hpos : 0 < pattern.length := hshift.trans (hbm.trans_le (bmRow_le _ _ _))
    rw [Nat.sub_zero, Nat.add_sub_assoc hpos] at hbm
    exact not_occursAt_of_lt_bmEntry hshift hbm hoccurs
  · exact not_occursAt_of_lt_qsEntry hshift (Nat.le_of_lt_succ hlength) hqs hoccurs

/-! ### Searches with mismatches -/

/-- An octet that is neither NUL nor one of two. -/
def otherOctet (a b : Octet) : Octet :=
  if 1 ≠ a ∧ 1 ≠ b then 1 else if 2 ≠ a ∧ 2 ≠ b then 2 else 3

theorem otherOctet_spec (a b : Octet) :
    otherOctet a b ≠ 0 ∧ otherOctet a b ≠ a ∧ otherOctet a b ≠ b := by
  unfold otherOctet
  split_ifs with hone htwo
  · exact ⟨by decide, hone⟩
  · exact ⟨by decide, htwo⟩
  · refine ⟨by decide, ?_, ?_⟩
    · rintro rfl
      grind
    · rintro rfl
      grind

/-- The octets of the pattern that are mismatches in the occurrence of `jumpText`. -/
def Changed (pattern : List Octet) (max_err i : Nat) : Prop :=
  pattern.length - 1 ≤ i + max_err ∧ i + 1 < pattern.length

instance (i : Nat) : Decidable (Changed pattern max_err i) :=
  inferInstanceAs (Decidable (_ ∧ _))

/-- A text in which the pattern lies at offset 1, but for the `max_err` octets of it in front of its
last one. The window in front has these mismatches as well, and one in its first octet. -/
def jumpText (pattern : List Octet) (max_err : Nat) : List Octet :=
  otherOctet (pattern.getD 0 0) 0 :: (List.range pattern.length).map fun i =>
    if Changed pattern max_err i then otherOctet (pattern.getD i 0) (pattern.getD (i + 1) 0)
    else pattern.getD i 0

theorem length_jumpText : (jumpText pattern max_err).length = pattern.length + 1 := by
  rw [jumpText, List.length_cons, List.length_map, List.length_range]

theorem jumpText_getD_succ {i : Nat} (hi : i < pattern.length) :
    (jumpText pattern max_err).getD (i + 1) 0 =
      if Changed pattern max_err i then otherOctet (pattern.getD i 0) (pattern.getD (i + 1) 0)
      else pattern.getD i 0 := by
  rw [jumpText, List.getD_cons_succ, List.getD_eq_getElem?_getD, List.getElem?_map,
    List.getElem?_range hi]
  rfl

theorem jumpText_getD_ne {i : Nat} (hi : Changed pattern max_err i) :
    (jumpText pattern max_err).getD (i + 1) 0 ≠ pattern.getD i 0 ∧
      (jumpText pattern max_err).getD (i + 1) 0 ≠ pattern.getD (i + 1) 0 := by
  have hlt : i < pattern.length := by
    have hbehind := hi.2
    omega
  rw [jumpText_getD_succ hlt, if_pos hi]
  exact (otherOctet_spec _ _).2

theorem zero_not_mem_jumpText (hpattern : (0 : Octet) ∉ pattern) :
    (0 : Octet) ∉ jumpText pattern max_err := by
  rw [jumpText, List.mem_cons, List.mem_map]
  rintro (hzero | ⟨i, hi, hzero⟩)
  · exact (otherOctet_spec _ _).1 hzero.symm
  · split_ifs at hzero
    · exact (otherOctet_spec _ _).1 hzero
    · have hlt := List.mem_range.mp hi
      rw [List.getD_eq_getElem?_getD, List.getElem?_eq_getElem hlt] at hzero
      exact hpattern (hzero ▸ List.getElem_mem hlt)

theorem jumpText_occursAt (hmax : max_err < pattern.length) :
    OccursAt pattern (jumpText pattern max_err) max_err 1 := by
  refine ⟨by rw [length_jumpText, Nat.add_comm], ?_⟩
  have hsubset : mismatchesBelow pattern (jumpText pattern max_err) 1 pattern.length ⊆
      Finset.Ico (pattern.length - 1 - max_err) (pattern.length - 1) := by
    intro i hi
    obtain ⟨hi, hne⟩ := Finset.mem_filter.mp hi
    have hlt := Finset.mem_range.mp hi
    have hwindow : 1 + pattern.length ≤ (jumpText pattern max_err).length := by
      rw [length_jumpText, Nat.add_comm]
    replace hne := (getElem?_ne_iff hlt hwindow).mp hne
    have hchanged : Changed pattern max_err i := by
      by_contra hsame
      rw [Nat.add_comm, jumpText_getD_succ hlt, if_neg hsame] at hne
      exact hne rfl
    obtain ⟨hlow, hhigh⟩ := hchanged
    exact Finset.mem_Ico.mpr ⟨by omega, by omega⟩
  have hcard := Finset.card_le_card hsubset
  rw [Nat.card_Ico] at hcard
  exact hcard.trans (by omega)

theorem jumpText_not_occursAt (hmax : max_err < pattern.length) :
    ¬ OccursAt pattern (jumpText pattern max_err) max_err 0 := by
  rintro ⟨hwindow, hfew⟩
  have hsubset : insert 0 (Finset.Ico (pattern.length - max_err) pattern.length) ⊆
      mismatchesBelow pattern (jumpText pattern max_err) 0 pattern.length := by
    intro i hi
    rcases Finset.mem_insert.mp hi with rfl | hi
    · have hfirst := (otherOctet_spec (pattern.getD 0 0) 0).2.1
      exact Finset.mem_filter.mpr ⟨Finset.mem_range.mpr (by omega),
        (getElem?_ne_iff (by omega) hwindow).mpr hfirst⟩
    · obtain ⟨hlow, hhigh⟩ := Finset.mem_Ico.mp hi
      obtain ⟨before, rfl⟩ : ∃ before, i = before + 1 := ⟨i - 1, by omega⟩
      have hchanged : Changed pattern max_err before := ⟨by omega, hhigh⟩
      refine Finset.mem_filter.mpr ⟨Finset.mem_range.mpr hhigh,
        (getElem?_ne_iff hhigh hwindow).mpr ?_⟩
      rw [Nat.zero_add]
      exact (jumpText_getD_ne hchanged).2
  have hcard := Finset.card_le_card hsubset
  have hout : 0 ∉ Finset.Ico (pattern.length - max_err) pattern.length := by
    rw [Finset.mem_Ico]
    omega
  rw [Finset.card_insert_of_notMem hout, Nat.card_Ico] at hcard
  exact absurd (hcard.trans hfew) (by omega)

theorem one_lt_bmRow {k n : Nat} (hk : k + 1 < pattern.length) (hn : n ≤ pattern.length - 1 - k)
    {c : Octet} (hc : c ≠ pattern.getD (pattern.length - 1 - k - 1) 0) :
    1 < bmRow pattern k n c := by
  induction n with
  | zero =>
      rw [bmRow, Function.update_apply]
      split_ifs <;> omega
  | succ n ih =>
      rw [bmRow, Function.update_apply]
      split_ifs with hlast
      · have hne : n ≠ pattern.length - 1 - k - 1 := fun h => hc (h ▸ hlast)
        omega
      · exact ih (by omega)

theorem one_lt_qsRow {k n : Nat} (hk : k < pattern.length) (hn : n ≤ pattern.length - k)
    {c : Octet} (hc : c ≠ pattern.getD (pattern.length - k - 1) 0) : 1 < qsRow pattern k n c := by
  induction n with
  | zero =>
      have hrow : 1 < pattern.length + 1 - k := by omega
      exact hrow
  | succ n ih =>
      rw [qsRow, Function.update_apply]
      split_ifs with hlast
      · have hne : n ≠ pattern.length - k - 1 := fun h => hc (h ▸ hlast)
        omega
      · exact ih (by omega)

theorem one_lt_smithShift (hmax : max_err < pattern.length) (herror : 0 < max_err) :
    ∀ err ≤ max_err + 1, 1 < smithShift pattern (jumpText pattern max_err) max_err 0 err
  | 0, _ => by
      rw [smithShift]
      omega
  | err + 1, herr => by
      refine Nat.lt_min.mpr ⟨one_lt_smithShift hmax herror err (by omega), lt_max_iff.mpr ?_⟩
      rcases Nat.lt_or_eq_of_le (Nat.le_of_lt_succ herr) with hlt | rfl
      · have hchanged : Changed pattern max_err (pattern.length - 1 - err - 1) :=
          ⟨by omega, by omega⟩
        have hplace : 0 + pattern.length - 1 - err = pattern.length - 1 - err - 1 + 1 := by omega
        refine .inl (one_lt_bmRow (by omega) (Nat.le_refl _) ?_)
        rw [hplace]
        exact (jumpText_getD_ne hchanged).1
      · have hchanged : Changed pattern err (pattern.length - err - 1) := ⟨by omega, by omega⟩
        have hplace : 0 + pattern.length - err = pattern.length - err - 1 + 1 := by omega
        refine .inr (one_lt_qsRow hmax (Nat.le_refl _) ?_)
        rw [hplace]
        exact (jumpText_getD_ne hchanged).1

theorem smith_jumpsOver (hmax : max_err < pattern.length) (herror : 0 < max_err) :
    JumpsOver (smithShift pattern (jumpText pattern max_err) max_err · (max_err + 1))
      (OccursAt pattern (jumpText pattern max_err) max_err) := by
  refine ⟨0, 1, Tried.start, jumpText_occursAt hmax, fun before hbefore => ?_, Nat.one_pos, ?_⟩
  · rw [Nat.lt_one_iff.mp hbefore]
    exact jumpText_not_occursAt hmax
  · rw [Nat.zero_add]
    exact one_lt_smithShift hmax herror _ (Nat.le_refl _)

/-! ### When the searches agree -/

/-- In one text, both searches find what the naive search finds if and only if `horspool_search`
does not read in front of the text and none of them shifts past the first occurrence. In every text
they do if and only if no mismatches are allowed and the pattern has more than one octet. -/
theorem searchesAgree_iff (pattern : List Octet) (max_err : Nat)
    (hpattern : (0 : Octet) ∉ pattern) (hmax : max_err < pattern.length) :
    (∀ str, SearchesAgree pattern str max_err ↔
      ¬ ReadsInFront pattern str ∧
        ¬ JumpsOver (horspoolShift pattern str max_err · (max_err + 1))
          (OccursAt pattern str max_err) ∧
        ¬ JumpsOver (smithShift pattern str max_err · (max_err + 1))
          (OccursAt pattern str max_err)) ∧
    ((∀ str, (0 : Octet) ∉ str → SearchesAgree pattern str max_err) ↔
      max_err = 0 ∧ 2 ≤ pattern.length) := by
  refine ⟨fun _ => searchesAgree_iff_jumpsOver hmax, fun hagree => ?_, ?_⟩
  · have herror : max_err = 0 := by
      by_contra hne
      have hjumps := hagree (jumpText pattern max_err) (zero_not_mem_jumpText hpattern)
      exact ((searchesAgree_iff_jumpsOver hmax).mp hjumps).2.2
        (smith_jumpsOver hmax (Nat.pos_of_ne_zero hne))
    refine ⟨herror, Nat.lt_of_not_le fun hone => ?_⟩
    have hother := otherOctet_spec (pattern.getD 0 0) 0
    have hstr := hagree [otherOctet (pattern.getD 0 0) 0] (by simpa using hother.1.symm)
    refine ((searchesAgree_iff_jumpsOver hmax).mp hstr).1
      ⟨by omega, List.cons_ne_nil _ _, fun hhead => hother.2.1 ?_⟩
    cases pattern with
    | nil => exact absurd hmax (Nat.not_lt_zero _)
    | cons c rest => exact Option.some.inj hhead
  · rintro ⟨rfl, htwo⟩ str -
    refine (searchesAgree_iff_jumpsOver hmax).mpr
      ⟨fun hreads => ?_, horspool_not_jumpsOver, smith_not_jumpsOver⟩
    have hone := hreads.1
    omega

/-- Searches for `ab` without mismatches. -/
theorem searchesAgree_ab : (0 : Octet) ∉ [(97 : Octet), 98] ∧ 0 < [(97 : Octet), 98].length ∧
    ((∀ str, (0 : Octet) ∉ str → SearchesAgree [97, 98] str 0) ↔
      0 = 0 ∧ 2 ≤ [(97 : Octet), 98].length) :=
  ⟨by decide, by decide, (searchesAgree_iff [97, 98] 0 (by decide) (by decide)).2⟩

/-- `horspool_search` misses `abcd` in `xaxxd` where two mismatches are allowed, `smith_search`
misses `abc` in `zaxc` where one is, and `horspool_search` for `a` in `b` reads in front of the
text. -/
theorem searches_disagree :
    ¬ SearchesAgree [97, 98, 99, 100] [120, 97, 120, 120, 100] 2 ∧
      ¬ SearchesAgree [97, 98, 99] [122, 97, 120, 99] 1 ∧ ¬ SearchesAgree [97] [98] 0 := by
  refine ⟨?_, ?_, ?_⟩
  · rintro ⟨⟨pp, hinit, hends⟩, -⟩
    obtain rfl := Option.some.inj hinit
    exact absurd (Yields.outcome hends) (by decide)
  · rintro ⟨-, pp, hinit, hends⟩
    obtain rfl := Option.some.inj hinit
    exact absurd (Yields.outcome hends) (by decide)
  · rintro ⟨⟨pp, hinit, hends⟩, -⟩
    obtain rfl := Option.some.inj hinit
    exact absurd hends.1 (by decide)

end Snert
