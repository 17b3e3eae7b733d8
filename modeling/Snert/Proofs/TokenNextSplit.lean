/-
Module: Snert.Proofs.TokenNextSplit
Purpose: `TextSplit` against the tokens that are meant. `TokenNext` reads the text of a token twice, and
  begins the second time with what was open where the first time ended. A token that a delimiter ends
  leaves nothing open. But the text of the last one can: a quote without its partner, a backslash at
  the very end, or an octet 0xff outside quotes, behind which no delimiter counts.
Trusted boundary: none
Main exports: textSplit_tokens_iff
-/
import Snert.Proofs.TokenReading

namespace Snert

open CModel Lists

/-! ### What is copied -/

/-- How often 0xff stands bare in a text. -/
def bareCount : Reading → List Octet → Nat
  | _, [] => 0
  | r, c :: text => (if r.isBare c ∧ c = 0xff then 1 else 0) + bareCount (r.next c) text

/-- A bare 0xff stands before the first bare delimiter of a text, or is that delimiter. -/
def HoldsBack (delims : List Octet) (r : Reading) (text : List Octet) : Prop :=
  bareCount r (readTo delims r text).1 ≠ 0 ∨ (readTo delims r text).2.head? = some 0xff

instance (delims : List Octet) (r : Reading) (text : List Octet) :
    Decidable (HoldsBack delims r text) :=
  inferInstanceAs (Decidable (_ ∨ _))

/-- The part of a text up to the first bare delimiter, unless a bare 0xff holds it back. -/
def countedPart (delims : List Octet) (r : Reading) (text : List Octet) : List Octet × List Octet :=
  if HoldsBack delims r text then (text, []) else readTo delims r text

/-- What is copied of a text that has been looked over: it is read once more, from what is open behind
it, unless a bare 0xff stands in it. -/
def copiedPart (delims text : List Octet) : List Octet × List Octet :=
  if bareCount .plain text = 0 then countedPart delims (Reading.plain.after text) text else (text, [])

/-- The token at the start of a text stands for the same when it is read from what is open behind the
text as when it is read afresh, and in either case nothing but delimiters is left behind it. -/
def ReadsAlike (delims text : List Octet) : Prop :=
  unquote (Reading.plain.after text) (copiedPart delims text).1 =
      unquote .plain (readTo delims .plain text).1 ∧
    (∀ c ∈ (copiedPart delims text).2, c ∈ delims) ∧
    ∀ c ∈ (readTo delims .plain text).2, c ∈ delims

/-- A token starts at the text that is left of a string. -/
inductive TokenStart (delims : List Octet) : List Octet → List Octet → Prop
  | first {string : List Octet} (h : string.dropWhile (· ∈ delims) ≠ []) :
      TokenStart delims string (string.dropWhile (· ∈ delims))
  | next {string text : List Octet}
      (h : TokenStart delims (readTo delims .plain (string.dropWhile (· ∈ delims))).2 text) :
      TokenStart delims string text

/-- The search for the end of the token goes to the end of the string. -/
def RunsToEnd (delims text : List Octet) : Prop :=
  (countedPart delims .plain text).2 = []

/-! ### The two passes -/

variable {delims : List Octet}

/-- Where the variables stand. -/
def TokenScan.reading (s : TokenScan) : Reading :=
  ⟨s.quote, s.escape⟩

/-- The variables behind some text, when `n` octets have been counted. -/
def Reading.counted (r : Reading) (n : Nat) : TokenScan :=
  ⟨r.quote, r.escape, n⟩

theorem toggle_counted (quote c : Octet) (n : Nat) (hc : isQuote c) :
    (TokenScan.mk quote false n).toggle c = ((Reading.mk quote false).next c).counted n := by
  simp only [TokenScan.toggle, Reading.next, hc]
  by_cases hopen : quote = 0
  · simp [Reading.counted, hopen]
  · by_cases hsame : c = quote
    · subst hsame
      simp [Reading.counted, hopen]
    · simp [Reading.counted, hopen, hsame]

theorem isQuote_backslash : isQuote (ch '\\') = false := by
  decide

theorem not_special_eof : isQuote 0xff = false ∧ (0xff : Octet) ≠ ch '\\' := by
  decide

theorem tokenSpan_cons (r : Reading) (n : Nat) (c : Octet) (string : List Octet) :
    tokenSpan delims (c :: string) (r.counted n) =
      if r.isBare c ∧ c ∈ delims ∧ n + (if c = 0xff then 1 else 0) = 0 then (0, r.counted n)
      else
        let rest := tokenSpan delims string
          ((r.next c).counted (n + if r.isBare c ∧ c = 0xff then 1 else 0))
        (rest.1 + 1, rest.2) := by
  rcases r with ⟨quote, escape⟩
  rw [tokenSpan]
  cases escape with
  | true => simp [Reading.counted, Reading.isBare, Reading.next]
  | false =>
      by_cases hquote : isQuote c
      · have htoggle := toggle_counted quote c n hquote
        simp only [Reading.counted, Reading.isBare, hquote] at htoggle ⊢
        simp [htoggle]
      · by_cases hback : c = ch '\\'
        · simp [Reading.counted, Reading.isBare, Reading.next, hback, isQuote_backslash]
        · by_cases hopen : quote = 0
          · by_cases hff : c = 0xff
            · simp [Reading.counted, Reading.isBare, Reading.next, hopen, hff, TokenScan.count,
                TokenScan.endsAt, not_special_eof]
            · by_cases hends : c ∈ delims ∧ n = 0
              · simp [Reading.counted, Reading.isBare, hquote, hback, hopen, hff, TokenScan.count,
                  TokenScan.endsAt, hends]
              · have hnot : ¬ (n = 0 ∧ c ∈ delims) := fun h => hends ⟨h.2, h.1⟩
                simp [Reading.counted, Reading.isBare, Reading.next, hquote, hback, hopen, hff,
                  TokenScan.count, TokenScan.endsAt, hends, hnot]
          · simp [Reading.counted, Reading.isBare, Reading.next, hquote, hback, hopen,
              TokenScan.count, TokenScan.endsAt]

theorem tokenCopy_cons (r : Reading) (n : Nat) (c : Octet) (string : List Octet) :
    tokenCopy delims (c :: string) (r.counted n) =
      if r.isBare c ∧ c ∈ delims ∧ n + (if c = 0xff then 1 else 0) = 0 then ([], string.length + 1)
      else
        let rest := tokenCopy delims string
          ((r.next c).counted (n + if r.isBare c ∧ c = 0xff then 1 else 0))
        (r.value c ++ rest.1, rest.2) := by
  rcases r with ⟨quote, escape⟩
  rw [tokenCopy]
  cases escape with
  | true => simp [Reading.counted, Reading.isBare, Reading.next, Reading.value]
  | false =>
      by_cases hquote : isQuote c
      · have htoggle := toggle_counted quote c n hquote
        by_cases hother : quote ≠ 0 ∧ c ≠ quote
        · have hsame : (Reading.mk quote false).next c = ⟨quote, false⟩ := by
            simp [Reading.next, hquote, hother.1, hother.2]
          simp [Reading.isBare, Reading.value, Reading.counted, hquote, hother.1, hother.2, hsame]
        · simp only [Reading.counted, Reading.isBare, hquote, Reading.value, hother] at htoggle ⊢
          simp [htoggle]
      · by_cases hback : c = ch '\\'
        · simp [Reading.counted, Reading.isBare, Reading.next, Reading.value, hback, isQuote_backslash]
        · by_cases hopen : quote = 0
          · by_cases hff : c = 0xff
            · simp [Reading.counted, Reading.isBare, Reading.next, Reading.value, hopen, hff,
                TokenScan.count, TokenScan.endsAt, not_special_eof]
            · by_cases hends : c ∈ delims ∧ n = 0
              · simp [Reading.counted, Reading.isBare, hquote, hback, hopen, hff, TokenScan.count,
                  TokenScan.endsAt, hends]
              · have hnot : ¬ (n = 0 ∧ c ∈ delims) := fun h => hends ⟨h.2, h.1⟩
                simp [Reading.counted, Reading.isBare, Reading.next, Reading.value, hquote, hback,
                  hopen, hff, TokenScan.count, TokenScan.endsAt, hends, hnot]
          · simp [Reading.counted, Reading.isBare, Reading.next, Reading.value, hquote, hback, hopen,
              TokenScan.count, TokenScan.endsAt]

theorem tokenSpan_counted (r : Reading) (n : Nat) (text : List Octet) :
    tokenSpan delims text (r.counted (n + 1)) =
      (text.length, (r.after text).counted (n + 1 + bareCount r text)) := by
  induction text generalizing r n with
  | nil => rfl
  | cons c text ih =>
      have hcount : n + 1 + (if r.isBare c ∧ c = 0xff then 1 else 0) =
          n + (if r.isBare c ∧ c = 0xff then 1 else 0) + 1 := by omega
      rw [tokenSpan_cons, if_neg (fun h => by omega), hcount]
      dsimp only
      rw [ih, ← hcount, Reading.after_cons, bareCount, ← Nat.add_assoc]
      rfl

theorem tokenCopy_counted (r : Reading) (n : Nat) (text : List Octet) :
    tokenCopy delims text (r.counted (n + 1)) = (unquote r text, 0) := by
  induction text generalizing r n with
  | nil => rfl
  | cons c text ih =>
      have hcount : n + 1 + (if r.isBare c ∧ c = 0xff then 1 else 0) =
          n + (if r.isBare c ∧ c = 0xff then 1 else 0) + 1 := by omega
      rw [tokenCopy_cons, if_neg (fun h => by omega), hcount]
      dsimp only
      rw [ih]
      rfl

theorem countedPart_stops {r : Reading} {c : Octet} (h : r.isBare c ∧ c ∈ delims) (hff : c ≠ 0xff)
    (text : List Octet) : countedPart delims r (c :: text) = ([], c :: text) := by
  have hread : readTo delims r (c :: text) = ([], c :: text) := by rw [readTo, if_pos h]
  have hnot : ¬ HoldsBack delims r (c :: text) := by
    rw [HoldsBack, hread]
    rintro (hcount | hhead)
    · exact hcount rfl
    · exact hff (Option.some.inj hhead)
  rw [countedPart, if_neg hnot, hread]

theorem countedPart_holds {r : Reading} {c : Octet} (h : r.isBare c ∧ c = 0xff)
    (text : List Octet) : countedPart delims r (c :: text) = (c :: text, []) := by
  have hholds : HoldsBack delims r (c :: text) := by
    rw [HoldsBack, readTo]
    by_cases hc : r.isBare c ∧ c ∈ delims
    · rw [if_pos hc]
      exact .inr (congrArg some h.2)
    · rw [if_neg hc, bareCount, if_pos h]
      exact .inl (by omega)
  rw [countedPart, if_pos hholds]

theorem countedPart_goesOn {r : Reading} {c : Octet} (h : ¬ (r.isBare c ∧ c ∈ delims))
    (hff : ¬ (r.isBare c ∧ c = 0xff)) (text : List Octet) : countedPart delims r (c :: text) =
      (c :: (countedPart delims (r.next c) text).1, (countedPart delims (r.next c) text).2) := by
  have hiff : HoldsBack delims r (c :: text) ↔ HoldsBack delims (r.next c) text := by
    rw [HoldsBack, HoldsBack, readTo, if_neg h, bareCount, if_neg hff, Nat.zero_add]
  unfold countedPart
  by_cases hholds : HoldsBack delims (r.next c) text
  · rw [if_pos hholds, if_pos (hiff.mpr hholds)]
  · rw [if_neg hholds, if_neg fun hc => hholds (hiff.mp hc), readTo, if_neg h]

theorem tokenSpan_eq (r : Reading) (text : List Octet) : tokenSpan delims text (r.counted 0) =
    ((countedPart delims r text).1.length, (r.after (countedPart delims r text).1).counted
      (bareCount r (countedPart delims r text).1)) := by
  induction text generalizing r with
  | nil => rfl
  | cons c text ih =>
      rw [tokenSpan_cons]
      by_cases hff : r.isBare c ∧ c = 0xff
      · rw [if_neg (fun h => by simp [hff.2] at h), if_pos hff, countedPart_holds hff]
        dsimp only
        rw [Nat.zero_add, tokenSpan_counted _ 0, Reading.after_cons, bareCount, if_pos hff]
        rfl
      by_cases hc : r.isBare c ∧ c ∈ delims
      · have hne : c ≠ 0xff := fun h => hff ⟨hc.1, h⟩
        rw [if_pos ⟨hc.1, hc.2, by rw [if_neg hne]⟩, countedPart_stops hc hne]
        rfl
      · rw [if_neg (fun h => hc ⟨h.1, h.2.1⟩), if_neg hff, countedPart_goesOn hc hff]
        dsimp only
        rw [Nat.zero_add, ih, Reading.after_cons, bareCount, if_neg hff, Nat.zero_add]
        rfl

theorem tokenCopy_eq (r : Reading) (text : List Octet) : tokenCopy delims text (r.counted 0) =
    (unquote r (countedPart delims r text).1, (countedPart delims r text).2.length) := by
  induction text generalizing r with
  | nil => rfl
  | cons c text ih =>
      rw [tokenCopy_cons]
      by_cases hff : r.isBare c ∧ c = 0xff
      · rw [if_neg (fun h => by simp [hff.2] at h), if_pos hff, countedPart_holds hff]
        dsimp only
        rw [Nat.zero_add, tokenCopy_counted _ 0]
        rfl
      by_cases hc : r.isBare c ∧ c ∈ delims
      · have hne : c ≠ 0xff := fun h => hff ⟨hc.1, h⟩
        rw [if_pos ⟨hc.1, hc.2, by rw [if_neg hne]⟩, countedPart_stops hc hne]
        rfl
      · rw [if_neg (fun h => hc ⟨h.1, h.2.1⟩), if_neg hff, countedPart_goesOn hc hff]
        dsimp only
        rw [Nat.zero_add, ih]
        rfl

/-! ### One token -/

theorem countedPart_append (delims : List Octet) (r : Reading) (text : List Octet) :
    (countedPart delims r text).1 ++ (countedPart delims r text).2 = text := by
  unfold countedPart
  split
  · exact List.append_nil text
  · exact readTo_append delims r text

theorem copiedPart_append (delims text : List Octet) :
    (copiedPart delims text).1 ++ (copiedPart delims text).2 = text := by
  unfold copiedPart
  split
  · exact countedPart_append delims _ text
  · exact List.append_nil text

theorem tokenAt_eq (delims text : List Octet) : tokenAt delims text =
    (unquote (Reading.plain.after (countedPart delims .plain text).1)
        (copiedPart delims (countedPart delims .plain text).1).1,
      behindDelim ((copiedPart delims (countedPart delims .plain text).1).2 ++
        (countedPart delims .plain text).2)) := by
  have hspan : tokenSpan delims text (Reading.counted .plain 0) = _ := tokenSpan_eq .plain text
  have happend := countedPart_append delims .plain text
  generalize hpart : countedPart delims .plain text = part at hspan happend
  have htake : text.take part.1.length = part.1 := by
    rw [← happend, List.take_left]
  have hcopy : tokenCopy delims part.1
      ((Reading.plain.after part.1).counted (bareCount .plain part.1)) =
      (unquote (Reading.plain.after part.1) (copiedPart delims part.1).1,
        (copiedPart delims part.1).2.length) := by
    unfold copiedPart
    by_cases hnone : bareCount .plain part.1 = 0
    · rw [if_pos hnone, hnone, tokenCopy_eq]
    · obtain ⟨n, hn⟩ := Nat.exists_eq_succ_of_ne_zero hnone
      rw [if_neg hnone, hn, tokenCopy_counted]
      rfl
  have hdrop : text.drop (part.1.length - (copiedPart delims part.1).2.length) =
      (copiedPart delims part.1).2 ++ part.2 := by
    have hlen := congrArg List.length (copiedPart_append delims part.1)
    rw [List.length_append] at hlen
    have htext : text = (copiedPart delims part.1).1 ++ ((copiedPart delims part.1).2 ++ part.2) := by
      rw [← List.append_assoc, copiedPart_append, happend]
    rw [htext, show part.1.length - (copiedPart delims part.1).2.length =
      (copiedPart delims part.1).1.length by omega, List.drop_left]
  unfold tokenAt
  rw [show (⟨0, false, 0⟩ : TokenScan) = Reading.plain.counted 0 from rfl, hspan]
  dsimp only
  rw [htake, hcopy]
  dsimp only
  rw [hdrop]
  cases (copiedPart delims part.1).2 ++ part.2 with
  | nil => rfl
  | cons delim rest => rfl

theorem tokenAt_of_delim {text rest : List Octet} {delim : Octet}
    (h : (countedPart delims .plain text).2 = delim :: rest) :
    tokenAt delims text = (unquote .plain (readTo delims .plain text).1, some rest) ∧
      (readTo delims .plain text).2 = delim :: rest := by
  have hnot : ¬ HoldsBack delims .plain text := by
    intro hholds
    rw [countedPart, if_pos hholds] at h
    cases h
  have hpart : countedPart delims .plain text = readTo delims .plain text := by
    rw [countedPart, if_neg hnot]
  rw [hpart] at h
  have hplain := (readTo_rest h).2
  have hcount : bareCount .plain (readTo delims .plain text).1 = 0 := by
    by_contra hne
    exact hnot (.inl hne)
  have hcopied : copiedPart delims (readTo delims .plain text).1 =
      ((readTo delims .plain text).1, []) := by
    have hread := readTo_readTo delims .plain text
    have hheld : ¬ HoldsBack delims .plain (readTo delims .plain text).1 := by
      rw [HoldsBack, hread]
      exact fun hc => hc.elim (fun hne => hne hcount) nofun
    rw [copiedPart, if_pos hcount, hplain, countedPart, if_neg hheld, hread]
  refine ⟨?_, h⟩
  rw [tokenAt_eq, hpart, hcopied, hplain, h]
  rfl

theorem tokenAt_of_end {text : List Octet} (h : RunsToEnd delims text) :
    tokenAt delims text = (unquote (Reading.plain.after text) (copiedPart delims text).1,
      behindDelim (copiedPart delims text).2) := by
  have hpart : (countedPart delims .plain text).1 = text := by
    have happend := countedPart_append delims .plain text
    rwa [show (countedPart delims .plain text).2 = [] from h, List.append_nil] at happend
  rw [tokenAt_eq, hpart, show (countedPart delims .plain text).2 = [] from h, List.append_nil]

/-! ### Where tokens start -/

theorem not_tokenStart {string text : List Octet} (h : string.dropWhile (· ∈ delims) = []) :
    ¬ TokenStart delims string text := by
  intro hstart
  induction hstart with
  | first hne => exact hne h
  | next hrest ih =>
      rw [h] at ih
      exact ih rfl

theorem tokenStart_iff {string text : List Octet} (h : string.dropWhile (· ∈ delims) ≠ []) :
    TokenStart delims string text ↔ text = string.dropWhile (· ∈ delims) ∨
      TokenStart delims (readTo delims .plain (string.dropWhile (· ∈ delims))).2 text := by
  constructor
  · intro hstart
    cases hstart with
    | first => exact .inl rfl
    | next hrest => exact .inr hrest
  · rintro (rfl | hrest)
    · exact .first h
    · exact .next hrest

theorem tokenStart_cons {delim : Octet} (hdelim : delim ∈ delims) {rest text : List Octet} :
    TokenStart delims (delim :: rest) text ↔ TokenStart delims rest text := by
  have hskip : (delim :: rest).dropWhile (· ∈ delims) = rest.dropWhile (· ∈ delims) :=
    List.dropWhile_cons_of_pos (by simpa using hdelim)
  by_cases hnil : rest.dropWhile (· ∈ delims) = []
  · exact iff_of_false (not_tokenStart (hskip.trans hnil)) (not_tokenStart hnil)
  · rw [tokenStart_iff hnil, tokenStart_iff (by rw [hskip]; exact hnil), hskip]

/-! ### The whole string -/

theorem bareCount_append (r : Reading) (text text' : List Octet) :
    bareCount r (text ++ text') = bareCount r text + bareCount (r.after text) text' := by
  induction text generalizing r with
  | nil => exact (Nat.zero_add _).symm
  | cons c text ih =>
      rw [List.cons_append, bareCount, bareCount, ih, Reading.after_cons, Nat.add_assoc]

theorem HoldsBack.bareCount_ne_zero {r : Reading} {text : List Octet} (h : HoldsBack delims r text) :
    bareCount r text ≠ 0 := by
  rw [← readTo_append delims r text, bareCount_append]
  rcases h with hcount | hhead
  · omega
  · obtain ⟨rest, hrest⟩ : ∃ rest, (readTo delims r text).2 = 0xff :: rest := by
      cases hread : (readTo delims r text).2 with
      | nil => rw [hread] at hhead; cases hhead
      | cons delim rest =>
          rw [hread] at hhead
          obtain rfl := Option.some.inj hhead
          exact ⟨rest, rfl⟩
    rw [(readTo_rest hrest).2, hrest, bareCount, if_pos (by decide)]
    omega

theorem textSplit_of_skip {string text : List Octet} {c : Octet} (delims : List Octet)
    (h : string.dropWhile (· ∈ delimSet delims) = c :: text) : textSplit string delims =
      (tokenAt (delimSet delims) (c :: text)).1 ::
        ((tokenAt (delimSet delims) (c :: text)).2.elim [] (textSplit · delims)) := by
  have hnext : tokenNext delims string = some (tokenAt (delimSet delims) (c :: text)) := by
    rw [tokenNext, h]
  rw [textSplit, parts_eq (tokenNext_shortens delims), hnext]
  rcases tokenAt (delimSet delims) (c :: text) with ⟨token, _ | rest⟩
  · rfl
  · rfl

theorem textSplit_eq_nil_iff (string delims : List Octet) :
    textSplit string delims = [] ↔ ∀ c ∈ string, c ∈ delimSet delims := by
  have hnil : string.dropWhile (· ∈ delimSet delims) = [] ↔ ∀ c ∈ string, c ∈ delimSet delims := by
    rw [List.dropWhile_eq_nil_iff]
    simp
  rw [← hnil]
  cases hskip : string.dropWhile (· ∈ delimSet delims) with
  | nil =>
      refine iff_of_true ?_ rfl
      have hnone : tokenNext delims string = none := by rw [tokenNext, hskip]
      rw [textSplit, parts_eq (tokenNext_shortens delims), hnone]
  | cons c text =>
      rw [textSplit_of_skip delims hskip]
      exact iff_of_false (List.cons_ne_nil _ _) (List.cons_ne_nil _ _)

theorem readTo_rest_head {r : Reading} {text : List Octet} :
    ∀ delim ∈ (readTo delims r text).2.head?, delim ∈ delims := by
  intro delim hdelim
  cases hrest : (readTo delims r text).2 with
  | nil => rw [hrest] at hdelim; cases hdelim
  | cons first rest =>
      rw [hrest] at hdelim
      obtain rfl := Option.some.inj hdelim
      exact (readTo_rest hrest).1

theorem copiedPart_rest_head {text : List Octet} :
    ∀ delim ∈ (copiedPart delims text).2.head?, delim ∈ delims := by
  intro delim hdelim
  unfold copiedPart countedPart at hdelim
  split at hdelim
  · split at hdelim
    · cases hdelim
    · exact readTo_rest_head delim hdelim
  · cases hdelim

theorem behindDelim_elim_eq_nil_iff {delims rest : List Octet}
    (hhead : ∀ delim ∈ rest.head?, delim ∈ delimSet delims) :
    (behindDelim rest).elim [] (textSplit · delims) = [] ↔ ∀ c ∈ rest, c ∈ delimSet delims := by
  cases rest with
  | nil => simp [behindDelim]
  | cons delim rest =>
      rw [List.forall_mem_cons, and_iff_right (hhead delim rfl)]
      exact textSplit_eq_nil_iff rest delims

theorem tokens_of_end {string text : List Octet} {c : Octet} {delims : List Octet}
    (hskip : string.dropWhile (· ∈ delimSet delims) = c :: text)
    (h : RunsToEnd (delimSet delims) (c :: text)) :
    textSplit string delims = tokensOf (delimSet delims) string ↔
      ReadsAlike (delimSet delims) (c :: text) := by
  have hc : c ∉ delimSet delims := by
    have hhead := List.head?_dropWhile_not (· ∈ delimSet delims) string
    rw [hskip] at hhead
    simpa using hhead
  rw [textSplit_of_skip delims hskip, tokenAt_of_end h, ← tokensOf_dropWhile, hskip, tokensOf_cons hc,
    List.cons.injEq, ReadsAlike, ← behindDelim_elim_eq_nil_iff copiedPart_rest_head,
    ← tokensOf_eq_nil_iff]
  refine and_congr_right fun _ => ?_
  by_cases hholds : HoldsBack (delimSet delims) .plain (c :: text)
  · have hcopied : copiedPart (delimSet delims) (c :: text) = (c :: text, []) := by
      rw [copiedPart, if_neg hholds.bareCount_ne_zero]
    rw [hcopied]
    exact ⟨fun heq => ⟨rfl, heq.symm⟩, fun heq => heq.2.symm⟩
  · have hrest : (readTo (delimSet delims) .plain (c :: text)).2 = [] := by
      rwa [RunsToEnd, countedPart, if_neg hholds] at h
    have hnone : tokensOf (delimSet delims) [] = [] := rfl
    rw [hrest, hnone]
    exact ⟨fun heq => ⟨heq, rfl⟩, And.left⟩

/-- `TextSplit` gives the tokens that are meant exactly if each text that its search for the end of a
token takes to the end of the string reads alike from what is open at that end. -/
theorem textSplit_tokens_iff (string delims : List Octet) :
    textSplit string delims = tokensOf (delimSet delims) string ↔
      ∀ text, TokenStart (delimSet delims) string text → RunsToEnd (delimSet delims) text →
        ReadsAlike (delimSet delims) text := by
  induction string using parts_induction (firstToken_shortens (delimSet delims)) with
  | step string ih =>
      cases hskip : string.dropWhile (· ∈ delimSet delims) with
      | nil =>
          have hall : ∀ c ∈ string, c ∈ delimSet delims := by
            simpa using List.dropWhile_eq_nil_iff.mp hskip
          rw [(textSplit_eq_nil_iff string delims).mpr hall, (tokensOf_eq_nil_iff _ string).mpr hall]
          exact iff_of_true rfl fun text hstart => absurd hstart (not_tokenStart hskip)
      | cons c text =>
          have hne : string.dropWhile (· ∈ delimSet delims) ≠ [] := by simp [hskip]
          simp only [tokenStart_iff hne, hskip]
          cases hcounted : (countedPart (delimSet delims) .plain (c :: text)).2 with
          | nil =>
              rw [tokens_of_end hskip hcounted]
              constructor
              · rintro halike text' (rfl | hstart) _
                · exact halike
                · refine absurd hstart (not_tokenStart ?_)
                  simpa using halike.2.2
              · exact fun hall => hall _ (.inl rfl) hcounted
          | cons delim rest =>
              obtain ⟨htoken, hrest⟩ := tokenAt_of_delim hcounted
              have hdelim := (readTo_rest hrest).1
              have hc : c ∉ delimSet delims := by
                have hhead := List.head?_dropWhile_not (· ∈ delimSet delims) string
                rw [hskip] at hhead
                simpa using hhead
              have hfirst : firstToken (delimSet delims) string =
                  some (unquote .plain (readTo (delimSet delims) .plain (c :: text)).1, some rest) := by
                rw [firstToken, hskip]
                dsimp only
                rw [hrest, behindDelim]
              have htokens : tokensOf (delimSet delims) (delim :: rest) =
                  tokensOf (delimSet delims) rest := by
                rw [← tokensOf_dropWhile, List.dropWhile_cons_of_pos (by simpa using hdelim),
                  tokensOf_dropWhile]
              rw [textSplit_of_skip delims hskip, htoken, ← tokensOf_dropWhile, hskip, tokensOf_cons hc,
                hrest, htokens, List.cons.injEq, and_iff_right rfl]
              refine (ih _ _ hfirst).trans ?_
              simp only [tokenStart_cons hdelim]
              constructor
              · rintro hall text' (rfl | hstart) hruns
                · rw [RunsToEnd, hcounted] at hruns
                  cases hruns
                · exact hall text' hstart hruns
              · exact fun hall text' hstart => hall text' (.inr hstart)

/-- Behind a quote without its partner, a delimiter ends the token all the same. -/
theorem textSplit_unclosed : ¬ ∀ string delims,
    textSplit string delims = tokensOf (delimSet delims) string := by
  intro h
  exact absurd (h (ascii "a,b'd,e") (ascii ",")) (by decide)

end Snert
