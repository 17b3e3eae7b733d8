/-
Module: Snert.Proofs.SearchAgree
Purpose: When `horspool_search` and `smith_search` find what the naive search finds. A window that
  has too many mismatches asks all rows of its tables, so the shift from a window is the least of
  their entries. Each search is one by shifts, right where it does not jump over the first
  occurrence, and a pattern of one octet makes `horspool_search` read in front of the text.
Trusted boundary: none
Main exports: searchesAgree_iff
-/
import Snert.Lists.SkipSearch
import Snert.Proofs.SundayExact

namespace Snert

open CModel Run Lists

variable {pattern str : List Octet} {max_err offset err delta : Nat}

/-! ### The shift tables -/

/-- An entry of the finished tables `bm`. -/
def bmEntry (pattern : List Octet) (k : Nat) (c : Octet) : Nat :=
  bmRow pattern k (pattern.length - 1 - k) c

/-- An entry of the finished tables `qs`. -/
def qsEntry (pattern : List Octet) (k : Nat) (c : Octet) : Nat :=
  qsRow pattern k (pattern.length - k) c

theorem bmRow_spec {k : Nat} (hk : k < pattern.length) (c : Octet) {n : Nat}
    (hn : n ≤ pattern.length - 1 - k) :
    0 < bmRow pattern k n c ∧
      ∀ i < n, pattern[i]? = some c → bmRow pattern k n c ≤ pattern.length - 1 - k - i := by
  induction n with
  | zero =>
      refine ⟨?_, fun i hi => absurd hi (Nat.not_lt_zero i)⟩
      rw [bmRow, Function.update_apply]
      split_ifs <;> omega
  | succ n ih =>
      exact entry_update (by omega) (by omega) (fun i hi => by omega) (ih (by omega))

theorem bmEntry_pos {k : Nat} (hk : k < pattern.length) (c : Octet) : 0 < bmEntry pattern k c :=
  (bmRow_spec hk c (Nat.le_refl _)).1

/-! ### The shift from a window -/

/-- The shift of `horspool_search` from a window, after `err` mismatches: each of them asks a row
for the last two octets of the window. -/
def horspoolShift (pattern str : List Octet) (max_err offset : Nat) : Nat → Nat
  | 0 => pattern.length - max_err
  | err + 1 =>
      min (min (horspoolShift pattern str max_err offset err)
          (bmEntry pattern err (str.getD (offset + (pattern.length - 1)) 0)))
        (bmEntry pattern err (str.getD (offset + (pattern.length - 1) - 1) 0))

/-- The shift of `smith_search` from a window, after `err` mismatches: each of them asks a row of
each table, and takes the larger entry. -/
def smithShift (pattern str : List Octet) (max_err offset : Nat) : Nat → Nat
  | 0 => pattern.length + 1 - max_err
  | err + 1 =>
      min (smithShift pattern str max_err offset err)
        (max (bmEntry pattern err (str.getD (offset + pattern.length - 1 - err) 0))
          (qsEntry pattern err (str.getD (offset + pattern.length - err) 0)))

theorem horspoolShift_pos (hmax : max_err < pattern.length) (str : List Octet) (offset : Nat) :
    ∀ err ≤ max_err + 1, 0 < horspoolShift pattern str max_err offset err
  | 0, _ => Nat.sub_pos_of_lt hmax
  | err + 1, herr => by
      have hlt : err < pattern.length := by omega
      have hbefore := horspoolShift_pos hmax str offset err (by omega)
      exact Nat.lt_min.mpr ⟨Nat.lt_min.mpr ⟨hbefore, bmEntry_pos hlt _⟩, bmEntry_pos hlt _⟩

theorem smithShift_pos (hmax : max_err < pattern.length) (str : List Octet) (offset : Nat) :
    ∀ err ≤ max_err + 1, 0 < smithShift pattern str max_err offset err
  | 0, _ => by
      rw [smithShift]
      omega
  | err + 1, herr => by
      have hlt : err < pattern.length := by omega
      have hbefore := smithShift_pos hmax str offset err (by omega)
      exact Nat.lt_min.mpr ⟨hbefore, lt_max_of_lt_left (bmEntry_pos hlt _)⟩

/-! ### The tables in memory -/

theorem octetAt_load (pp : Pattern) {i : Nat} (hi : i ≤ pp.pattern.length) :
    (pp.octetAt i).Yields (pp.pattern.getD i 0) :=
  yields_load (Access.inBounds_iff_le.mpr (Nat.succ_le_succ hi)) _

theorem bmAt_yields {pp : BmPattern} (hbm : pp.bm = bmTables pattern max_err) {e : Nat}
    (he : e ≤ max_err) (c : Octet) : (pp.bmAt e c).Yields (bmEntry pattern e c) := by
  have hlength : pp.bm.length = max_err + 1 := by
    rw [hbm, bmTables, List.length_map, List.length_range]
  have hrow : pp.bm.getD e (fun _ => 0) c = bmEntry pattern e c := by
    rw [List.getD_eq_getElem?_getD, List.getElem?_eq_getElem (by omega)]
    simp [hbm, bmTables, bmEntry]
  rw [BmPattern.bmAt, hrow]
  exact yields_load (Access.inBounds_iff_le.mpr (by omega)) _

/-- The pattern of `horspool_init`. -/
def horspoolPattern (pattern : List Octet) (max_err : Nat) : BmPattern where
  pattern := pattern
  length := pattern.length
  qs := []
  max_err := max_err
  bm := bmTables pattern max_err

/-- The pattern of `smith_init`. -/
def smithPattern (pattern : List Octet) (max_err : Nat) : BmPattern where
  toPattern := sundayPattern pattern max_err
  bm := bmTables pattern max_err

theorem horspoolInit_eq (hmax : max_err < pattern.length) :
    horspoolInit pattern max_err = some (horspoolPattern pattern max_err) :=
  if_neg (Nat.not_le.mpr hmax)

theorem smithInit_eq (hmax : max_err < pattern.length) :
    smithInit pattern max_err = some (smithPattern pattern max_err) := by
  rw [smithInit, horspoolInit_eq hmax, sundayInit_eq hmax.le]
  rfl

/-! ### The window -/

/-- What a loop over the pattern leaves: as many mismatches as there are, or one more than are
allowed and the shift that they have asked for. -/
structure ShiftScanned (pattern str : List Octet) (max_err offset : Nat) (shift : Nat → Nat)
    (answer : Nat × Nat) : Prop where
  found : answer.1 ≤ max_err ↔ mismatches pattern str offset ≤ max_err
  shifted : ¬ answer.1 ≤ max_err → answer.2 = shift (max_err + 1)

theorem horspoolScan_succ (i : Nat) :
    horspoolScan (horspoolPattern pattern max_err) str offset (i + 1) err delta =
      (if ¬ err ≤ max_err then pure (err, delta)
      else do
        let t ← strAt str (offset + i : Nat)
        let p ← (horspoolPattern pattern max_err).octetAt i
        if t ≠ p then
          let last ← strAt str (offset + (pattern.length - 1) : Nat)
          let shift ← (horspoolPattern pattern max_err).bmAt err last
          let before ← strAt str ((offset + (pattern.length - 1) : Nat) - 1)
          let shift' ← (horspoolPattern pattern max_err).bmAt err before
          horspoolScan (horspoolPattern pattern max_err) str offset i (err + 1)
            (min (min delta shift) shift')
        else horspoolScan (horspoolPattern pattern max_err) str offset i err delta) := rfl

theorem horspoolScan_ends (hwindow : offset + pattern.length ≤ str.length)
    (hfront : mismatches pattern str offset = 0 ∨ 1 < offset + pattern.length) {i : Nat}
    (hi : i ≤ pattern.length) (herr : err ≤ max_err + 1)
    (hmismatches : err + (mismatchesBelow pattern str offset i).card =
      mismatches pattern str offset) :
    (horspoolScan (horspoolPattern pattern max_err) str offset i err
      (horspoolShift pattern str max_err offset err)).Ends
        (ShiftScanned pattern str max_err offset (horspoolShift pattern str max_err offset)) := by
  induction i generalizing err with
  | zero =>
      rw [mismatchesBelow_zero, Finset.card_empty, Nat.add_zero] at hmismatches
      refine ends_pure.mpr ⟨by rw [hmismatches], fun hmany => ?_⟩
      have hall : err = max_err + 1 := by
        dsimp only at hmany
        omega
      rw [hall]
  | succ i ih =>
      rw [card_mismatchesBelow_succ] at hmismatches
      rw [horspoolScan_succ]
      by_cases hle : err ≤ max_err
      · have hword := @getElem?_ne_iff pattern _ _ i (by omega) hwindow
        rw [if_neg (not_not.mpr hle), (strAt_yields (by omega)).bind_ends_iff,
          (octetAt_load _ (Nat.le_of_succ_le hi)).bind_ends_iff]
        change (if str.getD (offset + i) 0 ≠ pattern.getD i 0 then _ else _ : Run _).Ends _
        by_cases hne : str.getD (offset + i) 0 ≠ pattern.getD i 0
        · rw [if_pos (hword.mpr hne)] at hmismatches
          have htwo : 1 < offset + pattern.length := hfront.resolve_left (by omega)
          have hlast : ((offset + (pattern.length - 1) : Nat) : Int) - 1 =
              (offset + (pattern.length - 1) - 1 : Nat) := by omega
          rw [if_pos hne, (strAt_yields (by omega)).bind_ends_iff,
            (bmAt_yields rfl hle _).bind_ends_iff, hlast, (strAt_yields (by omega)).bind_ends_iff,
            (bmAt_yields rfl hle _).bind_ends_iff]
          exact ih (Nat.le_of_succ_le hi) (by omega) (by omega)
        · rw [if_neg (mt hword.mp hne)] at hmismatches
          rw [if_neg hne]
          exact ih (Nat.le_of_succ_le hi) herr (by omega)
      · rw [if_pos hle]
        have hall : err = max_err + 1 := by omega
        exact ends_pure.mpr ⟨iff_of_false hle (by omega), fun _ => by rw [hall]⟩

theorem smithScan_succ (count : Nat) :
    smithScan (smithPattern pattern max_err) str offset (count + 1) err delta =
      (if ¬ err ≤ max_err then pure (err, delta)
      else do
        let t ← strAt str (offset + (pattern.length - (count + 1)) : Nat)
        let p ← (sundayPattern pattern max_err).octetAt (pattern.length - (count + 1))
        if t ≠ p then
          let last ← strAt str ((offset + pattern.length : Nat) - 1 - err)
          let bm ← (smithPattern pattern max_err).bmAt err last
          let behind ← strAt str ((offset + pattern.length : Nat) - err)
          let qs ← (sundayPattern pattern max_err).shiftAt err behind
          smithScan (smithPattern pattern max_err) str offset count (err + 1)
            (min delta (max bm qs))
        else smithScan (smithPattern pattern max_err) str offset count err delta) := rfl

theorem smithScan_ends (hmax : max_err < pattern.length)
    (hwindow : offset + pattern.length ≤ str.length) {count : Nat} (hcount : count ≤ pattern.length)
    (herr : err ≤ max_err + 1)
    (hmismatches : (mismatchesBelow pattern str offset (pattern.length - count)).card = err) :
    (smithScan (smithPattern pattern max_err) str offset count err
      (smithShift pattern str max_err offset err)).Ends
        (ShiftScanned pattern str max_err offset (smithShift pattern str max_err offset)) := by
  induction count generalizing err with
  | zero =>
      refine ends_pure.mpr ⟨?_, fun hmany => ?_⟩
      · rw [mismatches, ← hmismatches, Nat.sub_zero]
      · have hall : err = max_err + 1 := by
          dsimp only at hmany
          omega
        rw [hall]
  | succ count ih =>
      have hi : pattern.length - (count + 1) < pattern.length := by omega
      have hnext : pattern.length - (count + 1) + 1 = pattern.length - count := by omega
      have hcard := @card_mismatchesBelow_succ Octet _ pattern str offset
        (pattern.length - (count + 1))
      rw [hnext, hmismatches] at hcard
      rw [smithScan_succ]
      by_cases hle : err ≤ max_err
      · have hword := getElem?_ne_iff hi hwindow
        have hlast : ((offset + pattern.length : Nat) : Int) - 1 - (err : Nat) =
            (offset + pattern.length - 1 - err : Nat) := by omega
        have hbehind : ((offset + pattern.length : Nat) : Int) - (err : Nat) =
            (offset + pattern.length - err : Nat) := by omega
        rw [if_neg (not_not.mpr hle), (strAt_yields (by omega)).bind_ends_iff,
          (octetAt_yields hi.le).bind_ends_iff]
        by_cases hne : str.getD (offset + (pattern.length - (count + 1))) 0 ≠
            pattern.getD (pattern.length - (count + 1)) 0
        · rw [if_pos (hword.mpr hne)] at hcard
          rw [if_pos hne, hlast, (strAt_yields (by omega)).bind_ends_iff,
            (bmAt_yields rfl hle _).bind_ends_iff, hbehind,
            (strAt_yields (by omega)).bind_ends_iff, (shiftAt_yields hle _).bind_ends_iff]
          exact ih (by omega) (by omega) hcard
        · rw [if_neg (mt hword.mp hne)] at hcard
          rw [if_neg hne]
          exact ih (by omega) herr hcard
      · rw [if_pos hle]
        have hmore := @card_mismatchesBelow_le Octet _ pattern str offset _
          (Nat.sub_le pattern.length (count + 1))
        have hall : err = max_err + 1 := by omega
        exact ends_pure.mpr ⟨iff_of_false hle (by omega), fun _ => by rw [hall]⟩

/-! ### The searches -/

theorem searchRound_ends {shift : Nat → Nat → Nat} (hpos : ∀ offset, 0 < shift offset (max_err + 1))
    {scan : Run (Nat × Nat)} (hscan : offset + pattern.length ≤ str.length →
      scan.Ends (ShiftScanned pattern str max_err offset (shift offset)))
    (htried : Tried (shift · (max_err + 1)) (OccursAt pattern str max_err) offset) :
    (do
      if ¬ offset + pattern.length ≤ str.length then return .inr (-1)
      let (err, delta) ← scan
      if err ≤ max_err then return .inr (offset : Int)
      return .inl (offset + delta) : Run (Nat ⊕ Int)).Ends
        (Round (Tried (shift · (max_err + 1)) (OccursAt pattern str max_err))
          (fun offset => str.length + 1 - offset)
          (StopsAt (shift · (max_err + 1)) (OccursAt pattern str max_err)) offset) := by
  by_cases hwindow : offset + pattern.length ≤ str.length
  · refine (if_neg (not_not.mpr hwindow)).symm ▸ ends_bind.mpr ((hscan hwindow).mono ?_)
    rintro ⟨err, delta⟩ hscanned
    change (if err ≤ max_err then pure (.inr (offset : Int)) else pure (.inl (offset + delta)) :
      Run (Nat ⊕ Int)).Ends _
    by_cases hfound : err ≤ max_err
    · rw [if_pos hfound]
      exact ends_pure.mpr (.inl ⟨offset, rfl, htried, hwindow, hscanned.found.mp hfound⟩)
    · rw [if_neg hfound]
      obtain rfl : delta = shift offset (max_err + 1) := hscanned.shifted hfound
      have hnot : ¬ OccursAt pattern str max_err offset := fun hoccurs =>
        hfound (hscanned.found.mpr hoccurs.2)
      have hgrows := hpos offset
      refine ends_pure.mpr ⟨htried.next hnot, ?_⟩
      dsimp only
      omega
  · refine (if_pos hwindow).symm ▸ ends_pure.mpr (.inr ⟨rfl, fun other hother => ?_⟩)
    rcases Nat.lt_or_ge other offset with hlt | hge
    · exact htried.not_occurs hpos hother hlt
    · exact not_occursAt_of_lt (by omega)

/-- A pattern of one octet and a text that starts with another one. -/
def ReadsInFront (pattern str : List Octet) : Prop :=
  pattern.length = 1 ∧ str ≠ [] ∧ str.head? ≠ pattern.head?

theorem mismatches_eq_zero_of_length (hone : pattern.length = 1)
    (hhead : str.head? = pattern.head?) : mismatches pattern str 0 = 0 := by
  rw [List.head?_eq_getElem?, List.head?_eq_getElem?] at hhead
  rw [mismatches, hone, card_mismatchesBelow_succ, mismatchesBelow_zero, Finset.card_empty,
    if_neg (not_not.mpr hhead.symm)]

theorem horspoolSearch_stopsAt (hmax : max_err < pattern.length)
    (hreads : ¬ ReadsInFront pattern str) :
    (horspoolSearch (horspoolPattern pattern max_err) str str.length).Ends
      (StopsAt (horspoolShift pattern str max_err · (max_err + 1))
        (OccursAt pattern str max_err)) := by
  refine loop_ends (I := Tried (horspoolShift pattern str max_err · (max_err + 1))
    (OccursAt pattern str max_err)) (fun offset => str.length + 1 - offset)
    (fun offset htried => ?_) Tried.start (by omega)
  refine searchRound_ends
    (fun offset => horspoolShift_pos hmax str offset _ (Nat.le_refl _)) (fun hwindow => ?_) htried
  refine horspoolScan_ends hwindow ?_ (Nat.le_refl _) (Nat.zero_le _) (Nat.zero_add _)
  by_cases htwo : 1 < offset + pattern.length
  · exact .inr htwo
  · obtain rfl : offset = 0 := by omega
    have hone : pattern.length = 1 := by omega
    have hsome : str ≠ [] := by
      rintro rfl
      exact absurd hwindow (by simp [hone])
    exact .inl (mismatches_eq_zero_of_length hone (not_not.mp fun hhead =>
      hreads ⟨hone, hsome, hhead⟩))

theorem not_ends_of_readsInFront (hreads : ReadsInFront pattern str) {Q : Int → Prop} :
    ¬ (horspoolSearch (horspoolPattern pattern max_err) str str.length).Ends Q := by
  obtain ⟨hone, hsome, hhead⟩ := hreads
  have hlength : 0 < str.length := List.length_pos_iff.mpr hsome
  have hwindow : 0 + pattern.length ≤ str.length := by omega
  have hword := getElem?_ne_iff (by omega : 0 < pattern.length) hwindow
  rw [List.head?_eq_getElem?, List.head?_eq_getElem?] at hhead
  intro hends
  rw [horspoolSearch, loop, ends_bind, horspoolRound] at hends
  replace hends := ends_bind.mp ((if_neg (not_not.mpr hwindow)).symm ▸ hends)
  change (horspoolScan (horspoolPattern pattern max_err) str 0 pattern.length 0 _).Ends _ at hends
  rw [hone, horspoolScan_succ, if_neg (not_not.mpr (Nat.zero_le _)),
    (strAt_yields (by omega)).bind_ends_iff,
    (octetAt_load _ (Nat.zero_le _)).bind_ends_iff] at hends
  change (if str.getD (0 + 0) 0 ≠ pattern.getD 0 0 then _ else _ : Run (Nat × Nat)).Ends _ at hends
  rw [if_pos (hword.mp hhead.symm), (strAt_yields (by omega)).bind_ends_iff,
    (bmAt_yields rfl (Nat.zero_le _) _).bind_ends_iff, hone, ends_bind] at hends
  have hfront := (inBounds_load _ _).mp hends.1
  have hleft : (0 : Int) ≤ ((0 + (1 - 1) : Nat) : Int) - 1 := hfront.1
  omega

theorem smithSearch_stopsAt (hmax : max_err < pattern.length) (str : List Octet) :
    (smithSearch (smithPattern pattern max_err) str str.length).Ends
      (StopsAt (smithShift pattern str max_err · (max_err + 1))
        (OccursAt pattern str max_err)) := by
  refine loop_ends (I := Tried (smithShift pattern str max_err · (max_err + 1))
    (OccursAt pattern str max_err)) (fun offset => str.length + 1 - offset)
    (fun offset htried => ?_) Tried.start (by omega)
  refine searchRound_ends
    (fun offset => smithShift_pos hmax str offset _ (Nat.le_refl _)) (fun hwindow => ?_) htried
  have hnone : (mismatchesBelow pattern str offset (pattern.length - pattern.length)).card = 0 := by
    rw [Nat.sub_self]
    rfl
  exact smithScan_ends hmax hwindow (Nat.le_refl _) (Nat.zero_le _) hnone

/-! ### Agreement with the naive search -/

/-- Both searches return what the naive search does, and read nothing outside the pattern, the
tables, and the text with its NUL. -/
def SearchesAgree (pattern str : List Octet) (max_err : Nat) : Prop :=
  (∃ pp, horspoolInit pattern max_err = some pp ∧
      (horspoolSearch pp str str.length).Ends (· = naiveSearch pattern str max_err)) ∧
    ∃ pp, smithInit pattern max_err = some pp ∧
      (smithSearch pp str str.length).Ends (· = naiveSearch pattern str max_err)

theorem horspoolSearch_agrees_iff (hmax : max_err < pattern.length) :
    (horspoolSearch (horspoolPattern pattern max_err) str str.length).Ends
        (· = naiveSearch pattern str max_err) ↔
      ¬ ReadsInFront pattern str ∧
        ¬ JumpsOver (horspoolShift pattern str max_err · (max_err + 1))
          (OccursAt pattern str max_err) := by
  by_cases hreads : ReadsInFront pattern str
  · exact iff_of_false (not_ends_of_readsInFront hreads) fun h => h.1 hreads
  · rw [(horspoolSearch_stopsAt hmax hreads).ends_iff fun _ hstops =>
      hstops.eq_naiveSearch_iff fun offset => horspoolShift_pos hmax str offset _ (Nat.le_refl _)]
    exact ⟨fun h => ⟨hreads, h⟩, And.right⟩

theorem smithSearch_agrees_iff (hmax : max_err < pattern.length) :
    (smithSearch (smithPattern pattern max_err) str str.length).Ends
        (· = naiveSearch pattern str max_err) ↔
      ¬ JumpsOver (smithShift pattern str max_err · (max_err + 1))
        (OccursAt pattern str max_err) :=
  (smithSearch_stopsAt hmax str).ends_iff fun _ hstops =>
    hstops.eq_naiveSearch_iff fun offset => smithShift_pos hmax str offset _ (Nat.le_refl _)

theorem searchesAgree_iff_jumpsOver (hmax : max_err < pattern.length) :
    SearchesAgree pattern str max_err ↔
      ¬ ReadsInFront pattern str ∧
        ¬ JumpsOver (horspoolShift pattern str max_err · (max_err + 1))
          (OccursAt pattern str max_err) ∧
        ¬ JumpsOver (smithShift pattern str max_err · (max_err + 1))
          (OccursAt pattern str max_err) := by
  rw [SearchesAgree, horspoolInit_eq hmax, smithInit_eq hmax]
  simp only [Option.some.injEq, exists_eq_left']
  rw [horspoolSearch_agrees_iff hmax, smithSearch_agrees_iff hmax, and_assoc]

end Snert
