/-
Module: Snert.Proofs.TokenSplitAgree
Purpose: `TokenSplit` gives the tokens that are meant, whatever the string: its one pass goes on where a
  quote is left open, and its count of the tokens is right. So it agrees with `TextSplit` exactly where
  `TextSplit` gives them too.
Trusted boundary: none
Main exports: textSplit_tokenSplit_iff
-/
import Snert.Proofs.TokenNextSplit
import Snert.Util.TokenSplit

namespace Snert

open CModel Lists

variable {delims : List Octet}

/-! ### One octet -/

/-- Where the variables stand. -/
def Reading.scan (r : Reading) : QuoteScan :=
  ⟨r.quote, r.escape⟩

theorem toggle_scan (quote c : Octet) (hc : isQuote c) :
    (QuoteScan.mk quote false).toggle c = ((Reading.mk quote false).next c).scan := by
  simp only [QuoteScan.toggle, Reading.next, hc]
  by_cases hopen : quote = 0
  · simp [Reading.scan, hopen]
  · by_cases hsame : c = quote
    · subst hsame
      simp [Reading.scan, hopen]
    · simp [Reading.scan, hopen, hsame]

theorem tokenCountLoop_cons (rounds : Nat) (r : Reading) (c : Octet) (string : List Octet) :
    tokenCountLoop delims (rounds + 1) (c :: string) r.scan =
      if r.isBare c ∧ c ∈ delims then
        tokenCountLoop delims rounds ((c :: string).dropWhile (· ∈ delims)) r.scan +
          if (c :: string).dropWhile (· ∈ delims) ≠ [] then 1 else 0
      else tokenCountLoop delims rounds string (r.next c).scan := by
  rcases r with ⟨quote, escape⟩
  rw [tokenCountLoop]
  cases escape with
  | true => simp [Reading.scan, Reading.isBare, Reading.next]
  | false =>
      by_cases hquote : isQuote c
      · have htoggle := toggle_scan quote c hquote
        simp only [Reading.scan, Reading.isBare, hquote] at htoggle ⊢
        simp [htoggle]
      · by_cases hback : c = ch '\\'
        · simp [Reading.scan, Reading.isBare, Reading.next, hback, isQuote_backslash]
        · by_cases hopen : quote = 0
          · simp [Reading.scan, Reading.isBare, Reading.next, hquote, hback, hopen]
          · simp [Reading.scan, Reading.isBare, Reading.next, hquote, hback, hopen]

/-- The variables of `TokenSplitA`, when tokens are ended and one is not. -/
def Reading.splitting (r : Reading) (argv : List (List Octet)) (token : List Octet) : SplitScan :=
  ⟨r.quote, r.escape, argv, token⟩

theorem atQuote_splitting (quote c : Octet) (argv : List (List Octet)) (token : List Octet)
    (hc : isQuote c) : (SplitScan.mk quote false argv token).atQuote c =
      ((Reading.mk quote false).next c).splitting argv (token ++ (Reading.mk quote false).value c) := by
  simp only [SplitScan.atQuote, Reading.next, Reading.value, hc]
  by_cases hopen : quote = 0
  · simp [Reading.splitting, hopen]
  · by_cases hsame : c = quote
    · subst hsame
      simp [Reading.splitting, hopen]
    · simp [Reading.splitting, SplitScan.put, hopen, hsame]

theorem tokenSplitLoop_cons (rounds size : Nat) (r : Reading) (argv : List (List Octet))
    (token : List Octet) (c : Octet) (string : List Octet) (hsize : argv.length + 1 < size) :
    tokenSplitLoop delims size (rounds + 1) (c :: string) (r.splitting argv token) =
      if r.isBare c ∧ c ∈ delims then
        tokenSplitLoop delims size rounds ((c :: string).dropWhile (· ∈ delims))
          (if (c :: string).dropWhile (· ∈ delims) ≠ [] then r.splitting (argv ++ [token]) []
            else r.splitting argv token)
      else tokenSplitLoop delims size rounds string
        ((r.next c).splitting argv (token ++ r.value c)) := by
  rcases r with ⟨quote, escape⟩
  have hroom : ¬ ¬ ((Reading.mk quote escape).splitting argv token).argv.length + 1 < size :=
    not_not.mpr hsize
  rw [tokenSplitLoop, if_neg hroom]
  cases escape with
  | true => simp [Reading.splitting, SplitScan.put, Reading.isBare, Reading.next, Reading.value]
  | false =>
      by_cases hquote : isQuote c
      · have hat := atQuote_splitting quote c argv token hquote
        simp only [Reading.splitting, Reading.isBare, hquote] at hat ⊢
        simp [hat]
      · by_cases hback : c = ch '\\'
        · simp [Reading.splitting, Reading.isBare, Reading.next, Reading.value, hback,
            isQuote_backslash]
        · by_cases hopen : quote = 0
          · simp [Reading.splitting, SplitScan.put, SplitScan.nextToken, Reading.isBare, Reading.next,
              Reading.value, hquote, hback, hopen]
          · simp [Reading.splitting, SplitScan.put, Reading.isBare, Reading.next, Reading.value, hquote,
              hback, hopen]

/-! ### The loops -/

theorem tokensOf_delim {c : Octet} {string : List Octet} :
    tokensOf delims (c :: string) =
      if (c :: string).dropWhile (· ∈ delims) = [] then []
      else unquote .plain (readTo delims .plain ((c :: string).dropWhile (· ∈ delims))).1 ::
        tokensOf delims (readTo delims .plain ((c :: string).dropWhile (· ∈ delims))).2 := by
  rw [← tokensOf_dropWhile]
  have hhead := List.head?_dropWhile_not (· ∈ delims) (c :: string)
  cases hskip : (c :: string).dropWhile (· ∈ delims) with
  | nil => rfl
  | cons d text =>
      rw [hskip] at hhead
      rw [if_neg (List.cons_ne_nil _ _), tokensOf_cons (by simpa using hhead)]

theorem dropWhile_length_lt {c : Octet} (string : List Octet) (hc : c ∈ delims) :
    ((c :: string).dropWhile (· ∈ delims)).length ≤ string.length := by
  rw [List.dropWhile_cons_of_pos (by simpa using hc)]
  exact (List.dropWhile_suffix _).length_le

theorem tokenCountLoop_eq {rounds : Nat} {string : List Octet} (r : Reading)
    (hrounds : string.length < rounds) : tokenCountLoop delims rounds string r.scan =
      (tokensOf delims (readTo delims r string).2).length := by
  induction rounds generalizing string r with
  | zero => omega
  | succ rounds ih =>
      cases string with
      | nil => rfl
      | cons c string =>
          rw [List.length_cons] at hrounds
          rw [tokenCountLoop_cons, readTo]
          by_cases hc : r.isBare c ∧ c ∈ delims
          · obtain rfl := Reading.eq_plain_of_bare hc.1
            have hlen := dropWhile_length_lt string hc.2
            rw [if_pos hc, if_pos hc, ih _ (by omega), tokensOf_delim]
            by_cases hnil : (c :: string).dropWhile (· ∈ delims) = []
            · rw [hnil]
              rfl
            · rw [if_pos hnil, if_neg hnil, List.length_cons]
          · rw [if_neg hc, if_neg hc, ih _ (by omega)]

theorem tokenSplitLoop_eq {rounds size : Nat} {string : List Octet} (r : Reading)
    (argv : List (List Octet)) (token : List Octet) (hrounds : string.length < rounds)
    (hsize : argv.length + 1 + (tokensOf delims (readTo delims r string).2).length < size) :
    (tokenSplitLoop delims size rounds string (r.splitting argv token)).argv ++
        [(tokenSplitLoop delims size rounds string (r.splitting argv token)).token] =
      argv ++ (token ++ unquote r (readTo delims r string).1) ::
        tokensOf delims (readTo delims r string).2 := by
  induction rounds generalizing string r argv token with
  | zero => omega
  | succ rounds ih =>
      cases string with
      | nil =>
          have hnone : tokensOf delims [] = [] := rfl
          simp [tokenSplitLoop, readTo, unquote, hnone, Reading.splitting]
      | cons c string =>
          rw [List.length_cons] at hrounds
          rw [tokenSplitLoop_cons _ _ _ _ _ _ _ (by omega)]
          rw [readTo] at hsize ⊢
          by_cases hc : r.isBare c ∧ c ∈ delims
          · obtain rfl := Reading.eq_plain_of_bare hc.1
            have hlen := dropWhile_length_lt string hc.2
            rw [if_pos hc] at hsize ⊢
            rw [if_pos hc]
            dsimp only at hsize ⊢
            rw [tokensOf_delim] at hsize ⊢
            by_cases hnil : (c :: string).dropWhile (· ∈ delims) = []
            · rw [if_neg (not_not.mpr hnil), if_pos hnil, hnil]
              cases rounds with
              | zero => simp [tokenSplitLoop, unquote, Reading.splitting]
              | succ rounds => simp [tokenSplitLoop, unquote, Reading.splitting]
            · rw [if_neg hnil, List.length_cons] at hsize
              rw [if_pos hnil, if_neg hnil, ih _ _ _ (by omega) (by
                rw [List.length_append, List.length_singleton]
                omega)]
              simp [unquote]
          · rw [if_neg hc] at hsize ⊢
            rw [if_neg hc, ih _ _ _ (by omega) hsize, unquote, List.append_assoc]

/-! ### The whole string -/

theorem tokenCount_eq (string delims : List Octet) :
    tokenCount string delims = (tokensOf delims string).length := by
  unfold tokenCount
  rw [← tokensOf_dropWhile delims string]
  have hhead := List.head?_dropWhile_not (· ∈ delims) string
  cases hskip : string.dropWhile (· ∈ delims) with
  | nil => rfl
  | cons c text =>
      rw [hskip] at hhead
      have hloop : tokenCountLoop delims _ (c :: text) (Reading.scan .plain) = _ :=
        tokenCountLoop_eq .plain (Nat.lt_succ_self (c :: text).length)
      rw [tokensOf_cons (by simpa using hhead), List.length_cons]
      dsimp only
      rw [if_pos (List.cons_ne_nil _ _)]
      exact (congrArg (1 + ·) hloop).trans (Nat.add_comm _ _)

theorem tokenSplitA_eq {string : List Octet} {size : Nat}
    (hsize : (tokensOf delims string).length < size) :
    tokenSplitA string delims size = tokensOf delims string := by
  unfold tokenSplitA
  rw [← tokensOf_dropWhile delims string] at hsize ⊢
  have hhead := List.head?_dropWhile_not (· ∈ delims) string
  cases hskip : string.dropWhile (· ∈ delims) with
  | nil => rfl
  | cons c text =>
      rw [hskip] at hhead hsize
      rw [tokensOf_cons (by simpa using hhead), List.length_cons] at hsize
      rw [tokensOf_cons (by simpa using hhead), if_neg (List.cons_ne_nil _ _)]
      exact tokenSplitLoop_eq .plain [] [] (Nat.lt_succ_self (c :: text).length)
        (by rw [List.length_nil]; omega)

theorem tokenSplit_eq (string delims : List Octet) :
    tokenSplit string delims = some (tokensOf delims string) := by
  have htokens := tokenSplitA_eq (Nat.lt_succ_self (tokensOf delims string).length)
  unfold tokenSplit
  rw [tokenCount_eq]
  dsimp only
  rw [htokens]
  exact if_neg (fun h => h rfl)

/-- The delimiters hold no quote and no backslash. -/
def NoSpecial (delims : List Octet) : Prop :=
  ∀ c ∈ delims, isQuote c = false ∧ c ≠ ch '\\'

instance (delims : List Octet) : Decidable (NoSpecial delims) :=
  inferInstanceAs (Decidable (∀ c ∈ delims, _))

/-- The two agree exactly if each text that `TokenNext` looks over to the end of the string reads alike
from what is open at that end. -/
theorem textSplit_tokenSplit_iff (string delims : List Octet) (h : NoSpecial delims) :
    tokenSplit string delims = some (textSplit string delims) ↔
      ∀ text, TokenStart delims string text → RunsToEnd delims text → ReadsAlike delims text := by
  have hset : delimSet delims = delims := by
    refine if_neg fun hzero => ?_
    exact absurd rfl (h (ch '\\') (by rw [hzero]; decide)).2
  have htokens := textSplit_tokens_iff string delims
  rw [hset] at htokens
  rw [tokenSplit_eq, Option.some.injEq, eq_comm]
  exact htokens

/-- A quote that is closed. -/
theorem textSplit_tokenSplit_closed :
    tokenSplit (ascii "a,'b,c'd") (ascii ",") = some (textSplit (ascii "a,'b,c'd") (ascii ",")) ↔
      ∀ text, TokenStart (ascii ",") (ascii "a,'b,c'd") text → RunsToEnd (ascii ",") text →
        ReadsAlike (ascii ",") text :=
  textSplit_tokenSplit_iff (ascii "a,'b,c'd") (ascii ",") (by decide)

/-- A quote without its partner: two tokens or three. -/
theorem textSplit_tokenSplit_unclosed : ¬ ∀ string delims, NoSpecial delims →
    tokenSplit string delims = some (textSplit string delims) := by
  intro h
  exact absurd (h (ascii "a,b'd,e") (ascii ",") (by decide)) (by decide)

end Snert
