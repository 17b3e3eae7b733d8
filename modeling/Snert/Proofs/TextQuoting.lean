/-
Module: Snert.Proofs.TextQuoting
Purpose: When `TextFindQuote` stays within its buffer and writes a pattern that `TextFind` takes for
  nothing but the string. A quoted character takes two octets but one of `size`, and a space, which
  is not quoted, takes any white space.
Trusted boundary: none
Main exports: textFindQuote_literal_iff
-/
import Snert.Proofs.TextFindClass
import Snert.Util.Text

namespace Snert

open CModel CModel.Run Lists

/-- The string with a backslash in front of each special character. -/
def quoted (string : List Octet) : List Octet :=
  string.flatMap fun c => if isFindSpecial c then [ch '\\', c] else [c]

/-- `TextFindQuote` writes within its buffer. If that is large enough, `TextFind` finds what was written
in the string itself and in no other. -/
def QuotesLiterally (string : CString) (size : Nat) (buffer : Buffer size) : Prop :=
  (textFindQuote string size buffer).Ends fun out =>
    (quoted string.octets).length ≤ size → ∀ text : CString,
      (∃ r, textFindOffset text.octets (out.2.octets.take out.1) (-1) false = some r ∧ 0 ≤ r) ↔
        text = string

/-- How many octets the quoted string takes. -/
def quotedLength (string : CString) : Nat :=
  string.octets.length + string.octets.countP isFindSpecial

/-- The quoted string fits and the string has no space, or the string is at least as long as the buffer
and what is in front of the last octet of that has no special character. The largest `long` bounds what
`TextFind` compares. -/
def QuoteHolds (string : CString) (size : Nat) : Prop :=
  if quotedLength string ≤ size then
    ch ' ' ∉ string.octets ∧ string.octets.length < 2 ^ 63 - 1
  else size ≤ string.octets.length ∧ ∀ c ∈ string.octets.take (size - 1), ¬ isFindSpecial c

/-! ### What is written -/

/-- What the loop writes for `size`. -/
def quotedWithin : List Octet → Nat → List Octet
  | [], _ => []
  | _ :: _, 0 => []
  | c :: string, size + 1 =>
      if isFindSpecial c then
        if size = 0 then [ch '\\'] else ch '\\' :: c :: quotedWithin string size
      else c :: quotedWithin string size

theorem quoted_cons (c : Octet) (string : List Octet) :
    quoted (c :: string) = (if isFindSpecial c then [ch '\\', c] else [c]) ++ quoted string :=
  rfl

theorem length_quoted (string : List Octet) :
    (quoted string).length = string.length + string.countP isFindSpecial := by
  induction string with
  | nil => rfl
  | cons c string ih =>
      rw [quoted_cons, List.length_append, ih, List.length_cons, List.countP_cons]
      by_cases hc : isFindSpecial c = true
      · rw [if_pos hc, if_pos hc]
        simp only [List.length_cons, List.length_nil]
        omega
      · rw [if_neg hc, if_neg hc]
        simp only [List.length_cons, List.length_nil]
        omega

theorem quotedWithin_of_lt {string : List Octet} {size : Nat} (h : string.length < size) :
    quotedWithin string size = quoted string := by
  induction string generalizing size with
  | nil => cases size <;> rfl
  | cons c string ih =>
      cases size with
      | zero => omega
      | succ size =>
          rw [List.length_cons] at h
          rw [quotedWithin, quoted_cons, ih (by omega)]
          by_cases hc : isFindSpecial c = true
          · rw [if_pos hc, if_pos hc, if_neg (by omega)]
            rfl
          · rw [if_neg hc, if_neg hc]
            rfl

theorem length_quotedWithin {string : List Octet} {size : Nat} (h : size < string.length) :
    (quotedWithin string (size + 1)).length = (quoted (string.take size)).length + 1 := by
  induction string generalizing size with
  | nil => exact absurd h (Nat.not_lt_zero _)
  | cons c string ih =>
      rw [quotedWithin]
      cases size with
      | zero =>
          rw [if_pos rfl]
          by_cases hc : isFindSpecial c = true
          · rw [if_pos hc]
            rfl
          · rw [if_neg hc]
            cases string <;> rfl
      | succ size =>
          rw [List.length_cons] at h
          have hrest := @ih size (by omega)
          rw [List.take_succ_cons, quoted_cons, List.length_append]
          by_cases hc : isFindSpecial c = true
          · rw [if_pos hc, if_pos hc, if_neg (by omega)]
            simp only [List.length_cons, List.length_nil, hrest]
            omega
          · rw [if_neg hc, if_neg hc]
            simp only [List.length_cons, List.length_nil, hrest]
            omega

theorem quotedWithin_plain {string : List Octet} (h : ∀ c ∈ string, ¬ isFindSpecial c) :
    quotedWithin string string.length = quoted string := by
  induction string with
  | nil => rfl
  | cons c string ih =>
      obtain ⟨hc, hrest⟩ := List.forall_mem_cons.mp h
      rw [List.length_cons, quotedWithin, quoted_cons, if_neg hc, if_neg hc, ih hrest]
      rfl

theorem write_octet_ends_iff {n i : Nat} (b : Buffer n) (c : Octet) {f : Buffer n → Run α}
    {Q : α → Prop} :
    (b.write (i : Int) [c] >>= f).Ends Q ↔ i + 1 ≤ n ∧ (f (b.splice i [c])).Ends Q := by
  rw [ends_bind, Buffer.ends_write, List.length_singleton, Int.toNat_natCast]
  refine and_congr_left' ⟨fun h => by omega, fun h => by omega⟩

theorem textFindQuoteFrom_ends_iff {n : Nat} (string : List Octet) (size i : Nat) (b : Buffer n)
    (hi : i ≤ n) {Q : Nat × Buffer n → Prop} :
    (textFindQuoteFrom string size i b).Ends Q ↔
      i + (quotedWithin string size).length ≤ n ∧
        Q (i + (quotedWithin string size).length, b.splice i (quotedWithin string size)) := by
  induction string generalizing size i b with
  | nil => cases size <;> simp [textFindQuoteFrom, quotedWithin, hi]
  | cons c string ih =>
      cases size with
      | zero => simp [textFindQuoteFrom, quotedWithin, hi]
      | succ size =>
          rw [textFindQuoteFrom, quotedWithin]
          by_cases hc : isFindSpecial c = true
          · rw [if_pos hc, if_pos hc, write_octet_ends_iff]
            by_cases hsize : size = 0
            · rw [if_pos hsize, if_pos hsize, ends_pure]
              rfl
            · rw [if_neg hsize, if_neg hsize, write_octet_ends_iff]
              have hlength : i + (ch '\\' :: c :: quotedWithin string size).length =
                  i + 2 + (quotedWithin string size).length := by
                simp only [List.length_cons]
                omega
              by_cases hroom : i + 2 ≤ n
              · rw [ih size (i + 2) _ hroom, hlength]
                refine Iff.trans ⟨fun h => h.2.2, fun h => ⟨by omega, hroom, h⟩⟩ ?_
                refine and_congr_right fun hfits => ?_
                have hfirst : (b.splice i [ch '\\']).splice (i + 1) [c] =
                    b.splice i [ch '\\', c] :=
                  b.splice_splice [ch '\\'] [c] hroom
                rw [hfirst]
                have hrest : (b.splice i [ch '\\', c]).splice (i + 2) (quotedWithin string size) =
                    b.splice i (ch '\\' :: c :: quotedWithin string size) :=
                  b.splice_splice [ch '\\', c] (quotedWithin string size) hfits
                rw [hrest]
              · exact iff_of_false (fun h => hroom h.2.1) fun h => hroom (by omega)
          · rw [if_neg hc, if_neg hc, write_octet_ends_iff]
            have hlength : i + (c :: quotedWithin string size).length =
                i + 1 + (quotedWithin string size).length := by
              rw [List.length_cons]
              omega
            by_cases hroom : i + 1 ≤ n
            · rw [ih size (i + 1) _ hroom, hlength]
              refine (and_iff_right hroom).trans (and_congr_right fun hfits => ?_)
              have hrest : (b.splice i [c]).splice (i + 1) (quotedWithin string size) =
                  b.splice i (c :: quotedWithin string size) :=
                b.splice_splice [c] (quotedWithin string size) hfits
              rw [hrest]
            · exact iff_of_false (fun h => hroom h.1) fun h => hroom (by omega)

/-! ### What the pattern takes -/

/-- How `TextFind` reads a character of the quoted string. -/
def quotedElement (c : Octet) (h : c ≠ 0) : PinElement :=
  if hspecial : isFindSpecial c then .escaped c h
  else if hspace : c = ch ' ' then .space
  else .literal c ⟨h, by
    simp only [isFindSpecial, Bool.or_eq_true, decide_eq_true_eq, not_or] at hspecial
    simp [ascii, hspace, hspecial]⟩

theorem quotedElement_takes {c : Octet} (h : c ≠ 0) (lists : BracketClass → Octet → Prop)
    (d : Octet) : (quotedElement c h).Takes lists d ↔ d = c ∨ (c = ch ' ' ∧ isspace d) := by
  unfold quotedElement
  by_cases hspecial : isFindSpecial c = true
  · have hspace : c ≠ ch ' ' := by
      rintro rfl
      exact absurd hspecial (by decide)
    rw [dif_pos hspecial]
    exact (or_iff_left fun h => hspace h.1).symm
  · rw [dif_neg hspecial]
    by_cases hspace : c = ch ' '
    · rw [dif_pos hspace]
      refine ⟨fun h => .inr ⟨hspace, h⟩, fun h => h.elim (fun hd => ?_) And.right⟩
      rw [hd, hspace]
      exact (by decide : isspace (ch ' ') = true)
    · rw [dif_neg hspace]
      exact (or_iff_left fun h => hspace h.1).symm

theorem quotedElement_text {c : Octet} (h : c ≠ 0) :
    (quotedElement c h).text = if isFindSpecial c then [ch '\\', c] else [c] := by
  unfold quotedElement
  by_cases hspecial : isFindSpecial c = true
  · rw [dif_pos hspecial, if_pos hspecial]
    rfl
  · rw [dif_neg hspecial, if_neg hspecial]
    by_cases hspace : c = ch ' '
    · rw [dif_pos hspace, hspace]
      rfl
    · rw [dif_neg hspace]
      rfl

theorem quoted_pattern {string : List Octet} (hnul : 0 ∉ string) : ∃ pattern : Pin,
    patternText pattern = quoted string ∧ ∀ text, FitsPieces (pieces pattern) text ↔
      List.Forall₂ (fun c d => d = c ∨ (c = ch ' ' ∧ isspace d)) string text := by
  induction string with
  | nil => exact ⟨[], rfl, fun text => by simp [pieces, readPieces]⟩
  | cons c string ih =>
      have hc : c ≠ 0 := fun h => hnul (h ▸ List.mem_cons_self)
      obtain ⟨pattern, htext, hfits⟩ := ih fun h => hnul (List.mem_cons_of_mem _ h)
      refine ⟨some (quotedElement c hc) :: pattern, ?_, fun text => ?_⟩
      · rw [quoted_cons, ← htext, ← quotedElement_text hc]
        rfl
      · have htakes := quotedElement_takes hc BracketClass.Scans
        have hpieces : pieces (some (quotedElement c hc) :: pattern) =
            some ((quotedElement c hc).Takes BracketClass.Scans) :: pieces pattern := rfl
        rw [hpieces]
        cases text with
        | nil => simp
        | cons d text => rw [fits_one_cons, List.forall₂_cons, htakes, hfits]

theorem quoted_found_iff (string text : CString) :
    (∃ r, textFindOffset text.octets (quoted string.octets) (-1) false = some r ∧ 0 ≤ r) ↔
      List.Forall₂ (fun c d => d = c ∨ (c = ch ' ' ∧ isspace d)) string.octets
        (text.octets.take (2 ^ 63 - 1)) := by
  obtain ⟨pattern, htext, hfits⟩ := quoted_pattern string.noNul
  rw [← htext, textFindOffset_fits, hfits]
  rfl

theorem forall₂_self (string : List Octet) :
    List.Forall₂ (fun c d => d = c ∨ (c = ch ' ' ∧ isspace d)) string string :=
  List.forall₂_same.mpr fun _ _ => .inl rfl

theorem forall₂_spaceless {string text : List Octet} (hspace : ch ' ' ∉ string) :
    List.Forall₂ (fun c d => d = c ∨ (c = ch ' ' ∧ isspace d)) string text ↔ text = string := by
  refine ⟨fun h => ?_, fun h => h ▸ forall₂_self _⟩
  induction h with
  | nil => rfl
  | cons hhead _ ih =>
      rw [List.mem_cons, not_or] at hspace
      rw [hhead.resolve_right fun h => hspace.1 h.1.symm, ih hspace.2]

/-- A horizontal tab for each space. -/
def tabbed (string : List Octet) : List Octet :=
  string.map fun c => if c = ch ' ' then ch '\t' else c

theorem tabbed_takes (string : List Octet) :
    List.Forall₂ (fun c d => d = c ∨ (c = ch ' ' ∧ isspace d)) string (tabbed string) := by
  induction string with
  | nil => exact .nil
  | cons c string ih =>
      refine .cons ?_ ih
      dsimp only
      by_cases hspace : c = ch ' '
      · rw [if_pos hspace]
        exact .inr ⟨hspace, by decide⟩
      · rw [if_neg hspace]
        exact .inl rfl

theorem not_mem_tabbed {string : List Octet} {d : Octet} (hd : d ≠ ch '\t')
    (h : d = ch ' ' ∨ d ∉ string) : d ∉ tabbed string := by
  intro hmem
  obtain ⟨c, hc, rfl⟩ := List.mem_map.mp hmem
  by_cases hspace : c = ch ' '
  · rw [if_pos hspace] at hd
    exact hd rfl
  · rw [if_neg hspace] at h
    exact h.elim hspace fun hnot => hnot hc

theorem quoted_literal_iff (string : CString) :
    (∀ text : CString,
      (∃ r, textFindOffset text.octets (quoted string.octets) (-1) false = some r ∧ 0 ≤ r) ↔
        text = string) ↔
      ch ' ' ∉ string.octets ∧ string.octets.length < 2 ^ 63 - 1 := by
  simp only [quoted_found_iff]
  constructor
  · intro hlaw
    have hlt : string.octets.length < 2 ^ 63 - 1 := by
      by_contra hlong
      have hself := ((hlaw string).mpr rfl).length_eq
      rw [List.length_take] at hself
      -- One more octet is behind what `TextFind` compares.
      have hmore : (0 : Octet) ∉ string.octets ++ [1] := by
        simp [string.noNul]
      have htake : (string.octets ++ [1]).take (2 ^ 63 - 1) = string.octets :=
        List.take_left' (by omega)
      have hlonger := (hlaw ⟨string.octets ++ [1], hmore⟩).mp (by
        rw [htake]
        exact forall₂_self _)
      have hlength := congrArg (fun text : CString => text.octets.length) hlonger
      simp at hlength
    refine ⟨fun hspace => ?_, hlt⟩
    have hnul : (0 : Octet) ∉ tabbed string.octets := not_mem_tabbed (by decide) (.inr string.noNul)
    have htake : (tabbed string.octets).take (2 ^ 63 - 1) = tabbed string.octets :=
      List.take_of_length_le (by rw [tabbed, List.length_map]; omega)
    have htabbed := (hlaw ⟨tabbed string.octets, hnul⟩).mp (by
      rw [htake]
      exact tabbed_takes _)
    rw [← htabbed] at hspace
    exact not_mem_tabbed (by decide) (.inl rfl) hspace
  · rintro ⟨hspace, hlt⟩ text
    rw [forall₂_spaceless hspace]
    refine ⟨fun htake => ?_, ?_⟩
    · have hlength := congrArg List.length htake
      rw [List.length_take] at hlength
      rw [List.take_of_length_le (by omega)] at htake
      exact (CString.mk.injEq ..).mpr htake
    · rintro rfl
      exact List.take_of_length_le (by omega)

/-- `TextFindQuote` quotes literally within its buffer exactly when the quoted string fits and has no
space, or is cut before its first special character takes two octets. -/
theorem textFindQuote_literal_iff (string : CString) (size : Nat) (buffer : Buffer size) :
    QuotesLiterally string size buffer ↔ QuoteHolds string size := by
  unfold QuotesLiterally QuoteHolds textFindQuote
  rw [textFindQuoteFrom_ends_iff _ _ _ _ (Nat.zero_le _), length_quoted]
  simp only [Nat.zero_add]
  rw [← quotedLength]
  by_cases hfits : quotedLength string ≤ size
  · rw [if_pos hfits]
    have hwithin : quotedWithin string.octets size = quoted string.octets := by
      rw [quotedLength] at hfits
      by_cases hlt : string.octets.length < size
      · exact quotedWithin_of_lt hlt
      · have hcount : string.octets.countP isFindSpecial = 0 := by omega
        have hsize : size = string.octets.length := by omega
        rw [hsize]
        exact quotedWithin_plain (List.countP_eq_zero.mp hcount)
    have hlength : (quoted string.octets).length ≤ size := by
      rw [length_quoted]
      exact hfits
    have htake : (buffer.splice 0 (quoted string.octets)).octets.take
        (quoted string.octets).length = quoted string.octets := by
      rw [Buffer.octets_splice _ (by omega), List.take_zero, List.nil_append, List.take_left]
    rw [hwithin, htake, ← quoted_literal_iff]
    exact ⟨fun h => h.2 hfits, fun h => ⟨hlength, fun _ => h⟩⟩
  · rw [if_neg hfits]
    rw [and_iff_left fun h => absurd h hfits]
    rw [quotedLength] at hfits
    by_cases hlt : string.octets.length < size
    · rw [quotedWithin_of_lt hlt, length_quoted]
      exact iff_of_false hfits fun h => by omega
    · rw [and_iff_right (by omega)]
      cases size with
      | zero => cases string.octets <;> simp [quotedWithin]
      | succ size =>
          rw [length_quotedWithin (by omega), length_quoted, Nat.add_sub_cancel, List.length_take,
            ← List.countP_eq_zero]
          exact ⟨fun h => by omega, fun h => by omega⟩

/-- Two asterisks, which take four octets. -/
def asterisks : CString :=
  ⟨ascii "**", by decide⟩

theorem textFindQuote_overrun : ¬ QuotesLiterally asterisks 3 (Buffer.replicate 3 0) := by
  have hcrash : (textFindQuote asterisks 3 (Buffer.replicate 3 0)).outcome = .crash := by
    decide
  rintro ⟨-, out, hdone, -⟩
  rw [hcrash] at hdone
  exact nomatch hdone

end Snert
