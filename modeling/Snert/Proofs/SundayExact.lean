/-
Module: Snert.Proofs.SundayExact
Purpose: `sunday_search` finds the first offset at which pattern and text differ in at most
  `max_err` positions, and reads no further than the NUL of the text. Every table bounds the shift
  by what one of the last characters of the window allows; when a window has too many mismatches all
  of them have been asked.
Trusted boundary: none
Main exports: sundaySearch_firstAt
-/
import Snert.Lists.Mismatches
import Snert.Util.Search

namespace Snert

open CModel Run Lists

/-! ### The shift tables -/

theorem entry_update {pattern : List Octet} {row : Octet → Nat} {n shift : Nat}
    (hn : n < pattern.length) (hshift : 0 < shift) {allowed : Nat → Nat}
    (hallowed : ∀ i ≤ n, shift ≤ allowed i) {c : Octet}
    (h : 0 < row c ∧ ∀ i < n, pattern[i]? = some c → row c ≤ allowed i) :
    0 < Function.update row (pattern.getD n 0) shift c ∧ ∀ i < n + 1, pattern[i]? = some c →
      Function.update row (pattern.getD n 0) shift c ≤ allowed i := by
  obtain ⟨hpos, hle⟩ := h
  have hget : pattern[n]? = some (pattern.getD n 0) := by
    rw [List.getElem?_eq_getElem hn, List.getD_eq_getElem?_getD, List.getElem?_eq_getElem hn]
    rfl
  by_cases hc : c = pattern.getD n 0
  · rw [hc, Function.update_self]
    exact ⟨hshift, fun i hi _ => hallowed i (Nat.le_of_lt_succ hi)⟩
  · rw [Function.update_of_ne hc]
    refine ⟨hpos, fun i hi hic => ?_⟩
    rcases Nat.lt_or_eq_of_le (Nat.le_of_lt_succ hi) with hlt | rfl
    · exact hle i hlt hic
    · rw [hget] at hic
      exact absurd (Option.some.inj hic).symm hc

theorem qsRow_spec (pattern : List Octet) {k : Nat} (hk : k ≤ pattern.length) (c : Octet) {n : Nat}
    (hn : n ≤ pattern.length - k) :
    0 < qsRow pattern k n c ∧
      ∀ i < n, pattern[i]? = some c → qsRow pattern k n c ≤ pattern.length - i - k := by
  induction n with
  | zero =>
      have hpos : 0 < pattern.length + 1 - k := by omega
      exact ⟨hpos, fun i hi => absurd hi (Nat.not_lt_zero i)⟩
  | succ n ih =>
      exact entry_update (by omega) (by omega) (fun i hi => by omega) (ih (by omega))

/-! ### The window -/

/-- The shift `delta` is allowed by the first `err` of the octets from behind the window backwards,
and it is a shift. -/
structure Shifts (pattern str : List Octet) (max_err offset err delta : Nat) : Prop where
  pos : 0 < delta
  short : delta ≤ pattern.length + 1 - max_err
  meets : ∀ e < err, ∀ shift, 0 < shift → shift < delta →
    pattern[pattern.length - e - shift]? ≠ str[offset + pattern.length - e]?

section

variable {pattern str : List Octet} {max_err offset err delta : Nat}

theorem Shifts.step (hmax : max_err ≤ pattern.length) (herr : err ≤ max_err)
    (h : Shifts pattern str max_err offset err delta) :
    Shifts pattern str max_err offset (err + 1) (min delta
      (qsRow pattern err (pattern.length - err)
        (str.getD (offset + pattern.length - err) 0))) := by
  obtain ⟨hpos, hrow⟩ := qsRow_spec pattern (herr.trans hmax)
    (str.getD (offset + pattern.length - err) 0) (Nat.le_refl (pattern.length - err))
  refine ⟨Nat.lt_min.mpr ⟨h.pos, hpos⟩, (Nat.min_le_left _ _).trans h.short, ?_⟩
  intro e he shift hshift hlt
  have hshort := h.short
  obtain ⟨hdelta, hentry⟩ := Nat.lt_min.mp hlt
  rcases Nat.lt_or_eq_of_le (Nat.le_of_lt_succ he) with he | rfl
  · exact h.meets e he shift hshift hdelta
  · have hindex : pattern.length - e - shift < pattern.length := by omega
    intro hmeets
    -- The octet that the pattern would have there is the one that was looked up.
    have hsome : pattern[pattern.length - e - shift]? =
        some (str.getD (offset + pattern.length - e) 0) := by
      rw [List.getElem?_eq_getElem hindex] at hmeets
      rw [List.getD_eq_getElem?_getD, ← hmeets, List.getElem?_eq_getElem hindex]
      rfl
    have hle := hrow _ (by omega) hsome
    omega

theorem Shifts.not_occursAt (hmax : max_err ≤ pattern.length)
    (h : Shifts pattern str max_err offset (max_err + 1) delta) {shift : Nat} (hpos : 0 < shift)
    (hshift : shift < delta) : ¬ OccursAt pattern str max_err (offset + shift) := by
  have hshort := h.short
  exact not_occursAt_of_shift hpos (by omega) fun e he =>
    h.meets e (Nat.lt_succ_of_le he) shift hpos hshift

/-! ### One window -/

/-- What the loop over the pattern leaves: the number of mismatches, or one more than are allowed,
and a shift. -/
structure WindowScanned (pattern str : List Octet) (max_err offset : Nat) (answer : Nat × Nat) :
    Prop where
  found : answer.1 ≤ max_err ↔ mismatches pattern str offset ≤ max_err
  shifts : ¬ answer.1 ≤ max_err →
    Shifts pattern str max_err offset (max_err + 1) answer.2

/-- The pattern of `sunday_init`. -/
def sundayPattern (pattern : List Octet) (max_err : Nat) : Pattern where
  pattern := pattern
  length := pattern.length
  qs := (List.range (max_err + 1)).map fun k => qsRow pattern k (pattern.length - k)
  max_err := max_err

theorem sundayInit_eq (hmax : max_err ≤ pattern.length) :
    sundayInit pattern max_err = some (sundayPattern pattern max_err) :=
  if_neg (Nat.not_lt.mpr hmax)

theorem strAt_yields {i : Nat} (hi : i ≤ str.length) : (strAt str i).Yields (str.getD i 0) :=
  yields_load (Access.inBounds_iff_le.mpr (Nat.succ_le_succ hi)) _

theorem octetAt_yields {i : Nat} (hi : i ≤ pattern.length) :
    ((sundayPattern pattern max_err).octetAt i).Yields (pattern.getD i 0) :=
  yields_load (Access.inBounds_iff_le.mpr (Nat.succ_le_succ hi)) _

theorem shiftAt_yields {e : Nat} (he : e ≤ max_err) (c : Octet) :
    ((sundayPattern pattern max_err).shiftAt e c).Yields
      (qsRow pattern e (pattern.length - e) c) := by
  have hlength : (sundayPattern pattern max_err).qs.length = max_err + 1 := by
    rw [sundayPattern, List.length_map, List.length_range]
  have hrow : (sundayPattern pattern max_err).qs.getD e (fun _ => 0) =
      qsRow pattern e (pattern.length - e) := by
    rw [List.getD_eq_getElem?_getD, List.getElem?_eq_getElem (by omega)]
    simp [sundayPattern]
  rw [← hrow]
  exact yields_load (Access.inBounds_iff_le.mpr (by omega)) _

theorem sundayScan_succ (count : Nat) :
    sundayScan (sundayPattern pattern max_err) str offset (count + 1) err delta =
      (if ¬ err ≤ max_err then pure (err, delta)
      else do
        let t ← strAt str (offset + (pattern.length - (count + 1)) : Nat)
        let p ← (sundayPattern pattern max_err).octetAt (pattern.length - (count + 1))
        if t ≠ p then
          let c ← strAt str ((offset + pattern.length : Nat) - err)
          let shift ← (sundayPattern pattern max_err).shiftAt err c
          sundayScan (sundayPattern pattern max_err) str offset count (err + 1) (min delta shift)
        else sundayScan (sundayPattern pattern max_err) str offset count err delta) := rfl

theorem getElem?_ne_iff {i : Nat} (hi : i < pattern.length)
    (hwindow : offset + pattern.length ≤ str.length) :
    pattern[i]? ≠ str[offset + i]? ↔ str.getD (offset + i) 0 ≠ pattern.getD i 0 := by
  rw [List.getD_eq_getElem?_getD, List.getD_eq_getElem?_getD, List.getElem?_eq_getElem hi,
    List.getElem?_eq_getElem (by omega), ne_eq, ne_eq, Option.some_inj, eq_comm]
  rfl

theorem sundayScan_ends (hmax : max_err ≤ pattern.length)
    (hwindow : offset + pattern.length ≤ str.length) {count : Nat} (hcount : count ≤ pattern.length)
    (herr : err ≤ max_err + 1)
    (hmismatches : (mismatchesBelow pattern str offset (pattern.length - count)).card = err)
    (hshifts : Shifts pattern str max_err offset err delta) :
    (sundayScan (sundayPattern pattern max_err) str offset count err delta).Ends
      (WindowScanned pattern str max_err offset) := by
  induction count generalizing err delta with
  | zero =>
      refine ends_pure.mpr ⟨?_, fun hmany => ?_⟩
      · rw [mismatches, ← hmismatches, Nat.sub_zero]
      · have hall : err = max_err + 1 := by
          dsimp only at hmany
          omega
        exact hall ▸ hshifts
  | succ count ih =>
      have hi : pattern.length - (count + 1) < pattern.length := by omega
      have hnext : pattern.length - (count + 1) + 1 = pattern.length - count := by omega
      have hcard := @card_mismatchesBelow_succ Octet _ pattern str offset
        (pattern.length - (count + 1))
      rw [hnext, hmismatches] at hcard
      rw [sundayScan_succ]
      by_cases hle : err ≤ max_err
      · have hlast : ((offset + pattern.length : Nat) : Int) - (err : Nat) =
            (offset + pattern.length - err : Nat) := by omega
        have hwords := getElem?_ne_iff hi hwindow
        rw [if_neg (not_not.mpr hle), (strAt_yields (by omega)).bind_ends_iff,
          (octetAt_yields hi.le).bind_ends_iff]
        by_cases hne : str.getD (offset + (pattern.length - (count + 1))) 0 ≠
            pattern.getD (pattern.length - (count + 1)) 0
        · rw [if_pos (hwords.mpr hne)] at hcard
          rw [if_pos hne, hlast, (strAt_yields (by omega)).bind_ends_iff,
            (shiftAt_yields hle _).bind_ends_iff]
          exact ih (by omega) (by omega) hcard (hshifts.step hmax hle)
        · rw [if_neg (mt hwords.mp hne)] at hcard
          rw [if_neg hne]
          exact ih (by omega) herr hcard hshifts
      · rw [if_pos hle]
        have hmore := @card_mismatchesBelow_le Octet _ pattern str offset _
          (Nat.sub_le pattern.length (count + 1))
        have hall : err = max_err + 1 := by omega
        exact ends_pure.mpr ⟨iff_of_false hle (by omega), fun _ => hall ▸ hshifts⟩

/-! ### The search -/

/-- No occurrence lies before an offset. -/
def NoneBefore (pattern str : List Octet) (max_err offset : Nat) : Prop :=
  ∀ before < offset, ¬ OccursAt pattern str max_err before

theorem sundayRound_ends (hmax : max_err ≤ pattern.length)
    (hnone : NoneBefore pattern str max_err offset) :
    (sundayRound (sundayPattern pattern max_err) str str.length offset).Ends
      (Round (NoneBefore pattern str max_err) (fun offset => str.length + 1 - offset)
        (FirstAt pattern str max_err) offset) := by
  rw [sundayRound]
  by_cases hwindow : offset + pattern.length ≤ str.length
  · have hfirst : Shifts pattern str max_err offset 0 (pattern.length + 1 - max_err) :=
      ⟨by omega, Nat.le_refl _, fun e he => absurd he (Nat.not_lt_zero e)⟩
    have hscan := sundayScan_ends hmax hwindow (Nat.le_refl pattern.length) (Nat.zero_le _)
      (by rw [Nat.sub_self]; rfl) hfirst
    refine (if_neg (not_not.mpr hwindow)).symm ▸ ends_bind.mpr (hscan.mono ?_)
    rintro ⟨err, delta⟩ hscanned
    change (if err ≤ max_err then pure (.inr (offset : Int)) else pure (.inl (offset + delta)) :
      Run (Nat ⊕ Int)).Ends _
    by_cases hfound : err ≤ max_err
    · rw [if_pos hfound]
      exact ends_pure.mpr (.inl ⟨offset, rfl, ⟨hwindow, hscanned.found.mp hfound⟩, hnone⟩)
    · rw [if_neg hfound]
      have hshifts := hscanned.shifts hfound
      refine ends_pure.mpr ⟨fun before hbefore => ?_, ?_⟩
      · rcases Nat.lt_trichotomy before offset with hlt | rfl | hgt
        · exact hnone before hlt
        · exact fun hoccurs => hfound (hscanned.found.mpr hoccurs.2)
        · obtain ⟨shift, rfl⟩ := Nat.exists_eq_add_of_lt hgt
          exact hshifts.not_occursAt hmax (Nat.succ_pos shift) (by omega)
      · have hpos := hshifts.pos
        dsimp only at hpos ⊢
        omega
  · refine (if_pos hwindow).symm ▸ ends_pure.mpr (.inr ⟨rfl, fun before => ?_⟩)
    rcases Nat.lt_or_ge before offset with hlt | hge
    · exact hnone before hlt
    · exact not_occursAt_of_lt (by omega)

/-- `sunday_search` after `sunday_init` finds the first offset at which text and pattern differ in
at most `max_err` positions, or none if there is none, and reads nothing outside the pattern, the
tables, and the text with its NUL. -/
theorem sundaySearch_firstAt (pattern str : List Octet) (max_err : Nat)
    (hmax : max_err ≤ pattern.length) :
    ∃ pp, sundayInit pattern max_err = some pp ∧
      (sundaySearch pp str str.length).Ends (FirstAt pattern str max_err) :=
  ⟨_, sundayInit_eq hmax, loop_ends _ (fun _ => sundayRound_ends hmax)
    (fun before hbefore => absurd hbefore (Nat.not_lt_zero before)) (by omega)⟩

/-- The pattern `cab` in the text `bbbab`, with one mismatch. -/
theorem sundaySearch_cab : 1 ≤ ([99, 97, 98] : List Octet).length ∧
    ∃ pp, sundayInit [99, 97, 98] 1 = some pp ∧
      (sundaySearch pp [98, 98, 98, 97, 98] [98, 98, 98, 97, 98].length).Ends
        (FirstAt [(99 : Octet), 97, 98] [98, 98, 98, 97, 98] 1) :=
  ⟨by decide, sundaySearch_firstAt [99, 97, 98] [98, 98, 98, 97, 98] 1 (by decide)⟩

end

end Snert
