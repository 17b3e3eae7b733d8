/-
Module: Snert.Proofs.TokenRoundTrip
Purpose: `TokenNext` gives back what `TokenQuote` was given. A quoted character is an escape that stands
  for it, and what is not quoted is no delimiter, no quote and no backslash, so that the token goes to
  the end of the string.
Trusted boundary: none
Main exports: tokenNextWith_tokenQuote
-/
import Snert.Proofs.TokenAsis

namespace Snert

open CModel

/-- What `TextBackslash` translates to another character. -/
def escapeLetters : List Octet :=
  ascii "abefnrstv"

/-- A set of characters to quote, for a set of delimiters: it has these, the backslash and both quotes,
and no letter of an escape. -/
structure QuoteSet (delims quotes : List Octet) : Prop where
  delims : ∀ c ∈ delims, c ∈ quotes
  backslash : ch '\\' ∈ quotes
  single : ch '\'' ∈ quotes
  double : ch '"' ∈ quotes
  letters : ∀ c ∈ escapeLetters, c ∉ quotes

section

variable {delims quotes : List Octet}

theorem textBackslash_of_not_letter {c : Octet} (hc : c ∉ escapeLetters) : textBackslash c = c := by
  have hne : ∀ d ∈ escapeLetters, c ≠ d := fun d hd h => hc (h ▸ hd)
  unfold textBackslash
  rw [if_neg (hne _ (by decide)), if_neg (hne _ (by decide)), if_neg (hne _ (by decide)),
    if_neg (hne _ (by decide)), if_neg (hne _ (by decide)), if_neg (hne _ (by decide)),
    if_neg (hne _ (by decide)), if_neg (hne _ (by decide)), if_neg (hne _ (by decide))]

theorem QuoteSet.plain (h : QuoteSet delims quotes) {c : Octet} (hc : c ∉ quotes) :
    isQuote c = false ∧ c ≠ ch '\\' ∧ c ∉ delims := by
  refine ⟨?_, fun heq => hc (heq ▸ h.backslash), fun hmem => hc (h.delims c hmem)⟩
  have hsingle : c ≠ ch '\'' := fun heq => hc (heq ▸ h.single)
  have hdouble : c ≠ ch '"' := fun heq => hc (heq ▸ h.double)
  simp [isQuote, hsingle, hdouble]

theorem QuoteSet.stands (h : QuoteSet delims quotes) {c : Octet} (hc : c ∈ quotes) :
    textBackslash c = c :=
  textBackslash_of_not_letter fun hletter => h.letters c hletter hc

theorem tokenQuote_cons (c : Octet) (string : List Octet) : tokenQuote (c :: string) (some quotes) =
    (if c ∈ quotes then [ch '\\', c] else [c]) ++ tokenQuote string (some quotes) :=
  rfl

theorem spanSwitch_backslash (n : Int) :
    spanSwitch .none ⟨0, false, n⟩ (ch '\\') = .goesOn [] ⟨0, true, n⟩ :=
  rfl

theorem copySwitch_backslash (n : Int) :
    copySwitch .none ⟨0, false, n⟩ (ch '\\') = .goesOn [] ⟨0, true, n⟩ :=
  rfl

theorem switch_plain {c : Octet} (hquote : isQuote c = false) (hbackslash : c ≠ ch '\\')
    (n : Int) :
    spanSwitch .none ⟨0, false, n⟩ c = .looks ⟨0, false, n⟩ ∧
      copySwitch .none ⟨0, false, n⟩ c = .looks ⟨0, false, n⟩ := by
  unfold spanSwitch copySwitch
  have hneg : ¬ (isQuote c = true ∧ ¬ TokenFlags.none.ignoreQuotes = true) := by simp [hquote]
  rw [if_neg Bool.false_ne_true, if_neg hneg, if_neg hbackslash, if_neg Bool.false_ne_true,
    if_neg hneg, if_neg hbackslash]
  exact ⟨rfl, rfl⟩

theorem tokenSpanWith_quoted (h : QuoteSet delims quotes) (string : List Octet) (n : Int) :
    ∃ m : Int, tokenSpanWith .none (0xff, 0xff) delims (tokenQuote string (some quotes))
      ⟨0, false, n⟩ = ((tokenQuote string (some quotes)).length, ⟨0, false, m⟩) := by
  induction string generalizing n with
  | nil => exact ⟨n, rfl⟩
  | cons c string ih =>
      rw [tokenQuote_cons]
      by_cases hc : c ∈ quotes
      · obtain ⟨m, hspan⟩ := ih n
        refine ⟨m, ?_⟩
        rw [if_pos hc, List.cons_append, List.cons_append, List.nil_append, tokenSpanWith,
          spanSwitch_backslash]
        dsimp only
        have hescaped : spanSwitch .none ⟨0, true, n⟩ c = .goesOn [] ⟨0, false, n⟩ := rfl
        rw [tokenSpanWith, hescaped]
        dsimp only
        rw [hspan]
        rfl
      · obtain ⟨hquote, hbackslash, hdelim⟩ := h.plain hc
        obtain ⟨m, hspan⟩ := ih (if c = 0xff then n + 1 else n)
        refine ⟨m, ?_⟩
        rw [if_neg hc, List.singleton_append, tokenSpanWith, (switch_plain hquote hbackslash n).1]
        dsimp only
        rw [count_eof, if_neg (fun hends => hdelim (endsAt_iff.mp hends).2.2), hspan]
        rfl

theorem tokenCopyWith_quoted (h : QuoteSet delims quotes) (string : List Octet) (n : Int) :
    tokenCopyWith .none (0xff, 0xff) delims (tokenQuote string (some quotes)) ⟨0, false, n⟩ =
      (string, 0) := by
  induction string generalizing n with
  | nil => rfl
  | cons c string ih =>
      rw [tokenQuote_cons]
      by_cases hc : c ∈ quotes
      · rw [if_pos hc, List.cons_append, List.cons_append, List.nil_append, tokenCopyWith,
          copySwitch_backslash]
        dsimp only
        have hescaped : copySwitch .none ⟨0, true, n⟩ c = .goesOn [textBackslash c] ⟨0, false, n⟩ :=
          rfl
        rw [tokenCopyWith, hescaped]
        dsimp only
        rw [ih, h.stands hc]
        rfl
      · obtain ⟨hquote, hbackslash, hdelim⟩ := h.plain hc
        rw [if_neg hc, List.singleton_append, tokenCopyWith, (switch_plain hquote hbackslash n).2]
        dsimp only
        rw [count_eof, if_neg (fun hends => hdelim (endsAt_iff.mp hends).2.2), ih]
        rfl

theorem tokenOpening_quoted (h : QuoteSet delims quotes) (hbackslash : ch '\\' ∉ delims)
    (string : List Octet) :
    tokenOpening .none delims (tokenQuote string (some quotes)) = tokenQuote string (some quotes) := by
  have hskip : (tokenQuote string (some quotes)).dropWhile (· ∈ delims) =
      tokenQuote string (some quotes) := by
    cases string with
    | nil => rfl
    | cons c string =>
        rw [tokenQuote_cons]
        by_cases hc : c ∈ quotes
        · rw [if_pos hc]
          exact List.dropWhile_cons_of_neg (by simpa using hbackslash)
        · rw [if_neg hc]
          exact List.dropWhile_cons_of_neg (by simpa using (h.plain hc).2.2)
  unfold tokenOpening
  rw [if_neg (by decide), hskip]
  dsimp only
  cases ((tokenQuote string (some quotes)).takeWhile (· ∈ delims)).getLast? with
  | none => rfl
  | some c => exact if_neg fun hkeep => Bool.false_ne_true hkeep.1

end

/-- The token of a quoted string is the string, and nothing is left. -/
theorem tokenNextWith_tokenQuote (delims : Option (List Octet)) (quotes string : List Octet)
    (h : QuoteSet (tokenDelims delims) quotes) (hbackslash : ch '\\' ∉ tokenDelims delims)
    (hstring : string ≠ []) :
    tokenNextWith .none delims (tokenQuote string (some quotes)) = some (string, none) := by
  have hne : tokenQuote string (some quotes) ≠ [] := by
    cases string with
    | nil => exact absurd rfl hstring
    | cons c string =>
        rw [tokenQuote_cons]
        by_cases hc : c ∈ quotes
        · rw [if_pos hc]
          exact List.cons_ne_nil _ _
        · rw [if_neg hc]
          exact List.cons_ne_nil _ _
  obtain ⟨m, hspan⟩ := tokenSpanWith_quoted h string 0
  have hpair : tokenPair .none (tokenDelims delims) (tokenQuote string (some quotes)) =
      (0xff, 0xff) := rfl
  unfold tokenNextWith
  dsimp only
  rw [tokenOpening_quoted h hbackslash, if_neg (fun hnil => hne hnil.1)]
  unfold tokenAtWith
  dsimp only
  rw [hpair, hspan]
  dsimp only
  rw [List.take_length, tokenCopyWith_quoted h, Nat.sub_zero, List.drop_length]

/-- A text with a delimiter, a quote and a backslash. -/
def plainText : List Octet :=
  ascii "a b\"c\\n"

theorem tokenNextWith_tokenQuote_plain :
    tokenNextWith .none (some (ascii " ")) (tokenQuote plainText (some (ascii " \\'\""))) =
      some (plainText, none) :=
  tokenNextWith_tokenQuote (some (ascii " ")) (ascii " \\'\"") plainText
    ⟨by decide, by decide, by decide, by decide, by decide⟩ (by decide) (by decide)

end Snert
