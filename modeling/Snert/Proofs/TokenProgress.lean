/-
Module: Snert.Proofs.TokenProgress
Purpose: When `TextSplit` ends. A call of `TokenNext` leaves less than it was given, unless the text
  begins with an opening bracket that is a delimiter while the bracket that closes it is not. That one
  is no bracket when the end of the token is looked for, but it is kept for the next call, which again
  finds an empty token in front of it.
Trusted boundary: none
Main exports: textSplitWith_ends_iff
-/
import Mathlib.Logic.Relation
import Snert.Util.TokenNext

namespace Snert

open CModel

/-! ### Calls of `TokenNext` -/

/-- The bracket that closes an opening one. -/
def closingDelim (c : Octet) : Octet :=
  (ascii ">)\x7d]").getD (openDelims.idxOf c) 0

/-- An opening bracket that is a delimiter while the one that closes it is not. -/
def IsLone (delims : List Octet) (c : Octet) : Prop :=
  c ∈ openDelims ∧ c ∈ delims ∧ closingDelim c ∉ delims

/-- Brackets are kept, and behind what `TokenNext` skips the string begins with a lone one. -/
def BeginsLone (flags : TokenFlags) (delims : Option (List Octet)) (string : List Octet) : Prop :=
  flags.keepBrackets ∧ ∃ c rest, tokenOpening flags (tokenDelims delims) string = c :: rest ∧
    IsLone (tokenDelims delims) c

/-- A call of `TokenNext` returns a token and passes back what is left. -/
def TokenCall (flags : TokenFlags) (delims : Option (List Octet)) (string stop : List Octet) : Prop :=
  ∃ token, tokenNextWith flags delims string = some (token, some stop)

/-- What is passed back begins with an opening bracket, which the next call consumes. -/
def KeptOnce (flags : TokenFlags) (delims : Option (List Octet)) (stop : List Octet) : Prop :=
  peek stop ∈ openDelims ∧ ∀ left, TokenCall flags delims stop left → left.length < stop.length

/-- `TextSplit` ends, and each of its calls of `TokenNext` that returns a token passes back NULL or a
shorter string, or else keeps an opening bracket once. -/
structure SplitsToEnd (flags : TokenFlags) (delims : Option (List Octet)) (string : List Octet) :
    Prop where
  ends : ∃ calls tokens, textSplitWith flags delims calls (some string) = some tokens
  shortens : ∀ called stop, Relation.ReflTransGen (TokenCall flags delims) string called →
    TokenCall flags delims called stop → stop.length < called.length ∨ KeptOnce flags delims stop

section

variable {flags : TokenFlags} {pair : Octet × Octet} {delims : List Octet} {s : BracketScan}
  {c : Octet}

/-! ### The variables of a scan -/

theorem toggle_bcount (s : BracketScan) (c : Octet) : (s.toggle c).bcount = s.bcount := by
  unfold BracketScan.toggle
  split_ifs <;> rfl

theorem count_bcount (s : BracketScan) (pair : Octet × Octet) (c : Octet) :
    s.bcount ≤ (s.count pair c).bcount ∨
      ((s.count pair c).bcount = s.bcount - 1 ∧ c = pair.2 ∧ (s.count pair c).quote = 0) := by
  unfold BracketScan.count
  by_cases hquote : s.quote ≠ 0
  · rw [if_pos hquote]
    exact .inl le_rfl
  · rw [if_neg hquote]
    by_cases hopen : c = pair.1
    · rw [if_pos hopen]
      exact .inl (by dsimp only; omega)
    · rw [if_neg hopen]
      by_cases hclose : c = pair.2
      · rw [if_pos hclose]
        exact .inr ⟨rfl, hclose, not_not.mp hquote⟩
      · rw [if_neg hclose]
        exact .inl le_rfl

theorem endsAt_iff : s.endsAt delims c = true ↔ s.quote = 0 ∧ s.bcount = 0 ∧ c ∈ delims := by
  simp [BracketScan.endsAt, and_assoc]

theorem endsAt_opening (hpair : pair.1 = c) (h : (s.count pair c).endsAt delims c = true) :
    s.bcount = -1 := by
  rw [endsAt_iff, BracketScan.count] at h
  by_cases hquote : s.quote ≠ 0
  · rw [if_pos hquote] at h
    exact absurd h.1 hquote
  · rw [if_neg hquote, if_pos hpair.symm] at h
    have hcount : s.bcount + 1 = 0 := h.2.1
    omega

theorem spanSwitch_bcount {s' : BracketScan}
    (h : (∃ copied, spanSwitch flags s c = .goesOn copied s') ∨ spanSwitch flags s c = .looks s') :
    s'.bcount = s.bcount := by
  unfold spanSwitch at h
  split_ifs at h <;> obtain ⟨copied, h⟩ | h := h <;> cases h <;> simp only [toggle_bcount]

theorem copySwitch_bcount {s' : BracketScan} (h : copySwitch flags s c = .looks s') :
    s'.bcount = s.bcount := by
  unfold copySwitch at h
  split_ifs at h <;> cases h <;> simp only [toggle_bcount]

/-! ### Where a token ends -/

theorem tokenSpanWith_zero {string : List Octet}
    (h : (tokenSpanWith flags pair delims (c :: string) s).1 = 0) :
    ∃ s' : BracketScan, s'.bcount = s.bcount ∧ (s'.count pair c).endsAt delims c = true := by
  rw [tokenSpanWith] at h
  cases hswitch : spanSwitch flags s c with
  | goesOn copied s' =>
      rw [hswitch] at h
      exact absurd h (Nat.succ_ne_zero _)
  | looks s' =>
      rw [hswitch] at h
      by_cases hends : (s'.count pair c).endsAt delims c = true
      · exact ⟨s', spanSwitch_bcount (.inr hswitch), hends⟩
      · dsimp only at h
        rw [if_neg hends] at h
        exact absurd h (Nat.succ_ne_zero _)

theorem tokenCopyWith_le (flags : TokenFlags) (pair : Octet × Octet) (delims string : List Octet)
    (s : BracketScan) : (tokenCopyWith flags pair delims string s).2 ≤ string.length := by
  induction string generalizing s with
  | nil => exact Nat.le_refl 0
  | cons c string ih =>
      rw [tokenCopyWith, List.length_cons]
      cases copySwitch flags s c with
      | goesOn copied s' => exact Nat.le_succ_of_le (ih s')
      | looks s' =>
          dsimp only
          by_cases hends : (s'.count pair c).endsAt delims c = true
          · rw [if_pos hends]
          · rw [if_neg hends]
            exact Nat.le_succ_of_le (ih _)

theorem tokenCopyWith_all {string : List Octet}
    (h : (tokenCopyWith flags pair delims (c :: string) s).2 = string.length + 1) :
    ∃ s' : BracketScan, s'.bcount = s.bcount ∧ (s'.count pair c).endsAt delims c = true := by
  rw [tokenCopyWith] at h
  cases hswitch : copySwitch flags s c with
  | goesOn copied s' =>
      rw [hswitch] at h
      have hle := tokenCopyWith_le flags pair delims string s'
      dsimp only at h
      omega
  | looks s' =>
      rw [hswitch] at h
      by_cases hends : (s'.count pair c).endsAt delims c = true
      · exact ⟨s', copySwitch_bcount hswitch, hends⟩
      · dsimp only at h
        rw [if_neg hends] at h
        have hle := tokenCopyWith_le flags pair delims string (s'.count pair c)
        dsimp only at h
        omega

theorem tokenSpanWith_bcount (hclose : pair.2 ∈ delims) (string : List Octet) (s : BracketScan)
    (hs : 1 ≤ s.bcount) : 0 ≤ (tokenSpanWith flags pair delims string s).2.bcount := by
  induction string generalizing s with
  | nil => exact Int.le_trans (by decide) hs
  | cons c string ih =>
      rw [tokenSpanWith]
      cases hswitch : spanSwitch flags s c with
      | goesOn copied s' =>
          refine ih s' ?_
          rwa [spanSwitch_bcount (.inl ⟨copied, hswitch⟩)]
      | looks s' =>
          have hs' : 1 ≤ s'.bcount := by
            rwa [spanSwitch_bcount (.inr hswitch)]
          dsimp only
          by_cases hends : (s'.count pair c).endsAt delims c = true
          · rw [if_pos hends]
            exact (endsAt_iff.mp hends).2.1.ge
          · rw [if_neg hends]
            refine ih _ ?_
            obtain hmore | ⟨hless, hc, hquote⟩ := count_bcount s' pair c
            · exact hs'.trans hmore
            · by_contra hzero
              have hbcount : (s'.count pair c).bcount = 0 := by omega
              exact hends (endsAt_iff.mpr ⟨hquote, hbcount, hc ▸ hclose⟩)

/-! ### One call -/

theorem bracketPair_of_mem {rest : List Octet} (hopen : c ∈ openDelims) (hdelim : c ∈ delims)
    (hclose : closingDelim c ∈ delims) : bracketPair delims (c :: rest) = (c, closingDelim c) := by
  unfold bracketPair
  exact if_pos ⟨hopen, hdelim, hclose⟩

theorem bracketPair_of_lone {rest : List Octet} (h : IsLone delims c) :
    bracketPair delims (c :: rest) = (0xff, 0xff) := by
  unfold bracketPair
  exact if_neg fun hpair => h.2.2 hpair.2.2

theorem openDelims_plain (hopen : c ∈ openDelims) :
    isQuote c = false ∧ c ≠ ch '\\' ∧ c ≠ 0xff := by
  revert c
  decide

theorem spanSwitch_opening (hopen : c ∈ openDelims) :
    spanSwitch flags ⟨0, false, 0⟩ c = .looks ⟨0, false, 0⟩ := by
  obtain ⟨hquote, hbackslash, -⟩ := openDelims_plain hopen
  unfold spanSwitch
  rw [if_neg Bool.false_ne_true, hquote, if_neg (fun h => Bool.false_ne_true h.1),
    if_neg hbackslash]

theorem tokenSpanWith_opening (string : List Octet) (hopen : c ∈ openDelims)
    (hclose : closingDelim c ∈ delims) :
    0 ≤ (tokenSpanWith flags (c, closingDelim c) delims (c :: string) ⟨0, false, 0⟩).2.bcount := by
  have hcount : BracketScan.count ⟨0, false, 0⟩ (c, closingDelim c) c = ⟨0, false, 1⟩ := by
    unfold BracketScan.count
    rw [if_neg (by decide), if_pos rfl]
    rfl
  have hends : ¬ BracketScan.endsAt ⟨0, false, 1⟩ delims c = true := fun h =>
    absurd (endsAt_iff.mp h).2.1 (by decide)
  rw [tokenSpanWith, spanSwitch_opening hopen]
  dsimp only
  rw [hcount, if_neg hends]
  exact tokenSpanWith_bcount hclose string _ (by decide)

theorem tokenAtWith_shortens {string token stop : List Octet}
    (h : tokenAtWith flags delims string = (token, some stop))
    (hlone : ∀ c rest, flags.keepBrackets → string = c :: rest → ¬ IsLone delims c) :
    stop.length < string.length := by
  unfold tokenAtWith at h
  dsimp only at h
  generalize hspan : tokenSpanWith flags (tokenPair flags delims string) delims string
    ⟨0, false, 0⟩ = span at h
  generalize hcopy : tokenCopyWith flags (tokenPair flags delims string) delims
    (string.take span.1) span.2 = copy at h
  cases hdrop : string.drop (span.1 - copy.2) with
  | nil =>
      rw [hdrop] at h
      exact absurd (Prod.mk.inj h).2 (by simp)
  | cons c rest =>
      rw [hdrop] at h
      obtain ⟨-, hstop⟩ := Prod.mk.inj h
      replace hstop := Option.some.inj hstop
      have hlength := congrArg List.length hdrop
      rw [List.length_drop, List.length_cons] at hlength
      by_cases hkept : flags.keepBrackets ∧ c ∈ openDelims ∧ c ∈ delims
      · rw [if_pos hkept] at hstop
        rw [← hstop, List.length_cons]
        by_contra hall
        -- Then nothing lies in front of the bracket, and it has a partner.
        have hpos : span.1 - copy.2 = 0 := by omega
        rw [hpos, List.drop_zero] at hdrop
        subst hdrop
        obtain ⟨hkeep, hopen, hdelim⟩ := hkept
        have hclose : closingDelim c ∈ delims := by
          by_contra hclose
          exact hlone c rest hkeep rfl ⟨hopen, hdelim, hclose⟩
        have hpair : tokenPair flags delims (c :: rest) = (c, closingDelim c) := by
          rw [tokenPair, if_pos hkeep, bracketPair_of_mem hopen hdelim hclose]
        rw [hpair] at hspan hcopy
        have hbcount : 0 ≤ span.2.bcount := by
          rw [← hspan]
          exact tokenSpanWith_opening rest hopen hclose
        have hle := tokenCopyWith_le flags (c, closingDelim c) delims ((c :: rest).take span.1) span.2
        rw [hcopy, List.length_take, List.length_cons] at hle
        cases hfirst : span.1 with
        | zero =>
            rw [← hspan] at hfirst
            obtain ⟨s', hs', hends⟩ := tokenSpanWith_zero hfirst
            have hzero : s'.bcount = 0 := hs'
            have hmore := endsAt_opening rfl hends
            omega
        | succ n =>
            rw [hfirst] at hcopy hle hpos
            rw [List.take_succ_cons] at hcopy
            have hall : (tokenCopyWith flags (c, closingDelim c) delims (c :: rest.take n)
                span.2).2 = (rest.take n).length + 1 := by
              rw [hcopy, List.length_take]
              omega
            obtain ⟨s', hs', hends⟩ := tokenCopyWith_all hall
            have hmore := endsAt_opening rfl hends
            omega
      · rw [if_neg hkept] at hstop
        rw [← hstop]
        omega

theorem tokenOpening_length (flags : TokenFlags) (delims string : List Octet) :
    (tokenOpening flags delims string).length ≤ string.length := by
  unfold tokenOpening
  by_cases hempty : flags.keepEmpty = true
  · rw [if_pos hempty]
  · rw [if_neg hempty]
    have hsplit := congrArg List.length
      (List.takeWhile_append_dropWhile (p := (· ∈ delims)) (l := string))
    rw [List.length_append] at hsplit
    dsimp only
    cases hlast : (string.takeWhile (· ∈ delims)).getLast? with
    | none => dsimp only; omega
    | some c =>
        have hpos : 0 < (string.takeWhile (· ∈ delims)).length := by
          rw [List.length_pos_iff]
          rintro hnil
          rw [hnil] at hlast
          cases hlast
        dsimp only
        by_cases hkeep : flags.keepBrackets = true ∧ c ∈ openDelims
        · rw [if_pos hkeep, List.length_cons]
          omega
        · rw [if_neg hkeep]
          omega

end

variable {flags : TokenFlags} {delims : Option (List Octet)}

theorem tokenNextWith_shortens {string stop : List Octet}
    (h : TokenCall flags delims string stop) (hlone : ¬ BeginsLone flags delims string) :
    stop.length < string.length := by
  obtain ⟨token, hnext⟩ := h
  unfold tokenNextWith at hnext
  dsimp only at hnext
  split at hnext
  · cases hnext
  · have hshort := tokenAtWith_shortens (Option.some.inj hnext) fun c rest hkeep hstart hc =>
      hlone ⟨hkeep, c, rest, hstart, hc⟩
    exact hshort.trans_le (tokenOpening_length _ _ _)

/-! ### A lone bracket -/

theorem takeWhile_dropWhile (p : Octet → Bool) (string : List Octet) :
    (string.dropWhile p).takeWhile p = [] := by
  have hhead := List.head?_dropWhile_not p string
  cases hrest : string.dropWhile p with
  | nil => rfl
  | cons c rest =>
      rw [hrest] at hhead
      have hc : p c = false := by simpa using hhead
      rw [List.takeWhile_cons_of_neg (by simp [hc])]

theorem tokenOpening_idem {ds string rest : List Octet} {c : Octet}
    (h : tokenOpening flags ds string = c :: rest) (hc : c ∈ ds) (hopen : c ∈ openDelims)
    (hkeep : flags.keepBrackets = true) : tokenOpening flags ds (c :: rest) = c :: rest := by
  unfold tokenOpening at h ⊢
  by_cases hempty : flags.keepEmpty = true
  · rw [if_pos hempty]
  · rw [if_neg hempty] at h ⊢
    have hnone := takeWhile_dropWhile (· ∈ ds) string
    have hfirst : (c :: rest).takeWhile (· ∈ ds) = c :: rest.takeWhile (· ∈ ds) :=
      List.takeWhile_cons_of_pos (decide_eq_true hc)
    have hskip : (c :: rest).dropWhile (· ∈ ds) = rest.dropWhile (· ∈ ds) :=
      List.dropWhile_cons_of_pos (decide_eq_true hc)
    -- The skipped delimiters end in the bracket.
    have hrest : string.dropWhile (· ∈ ds) = rest := by
      dsimp only at h
      cases hlast : (string.takeWhile (· ∈ ds)).getLast? with
      | none =>
          rw [hlast] at h
          dsimp only at h
          rw [h, hfirst] at hnone
          cases hnone
      | some d =>
          rw [hlast] at h
          dsimp only at h
          by_cases hd : flags.keepBrackets = true ∧ d ∈ openDelims
          · rw [if_pos hd] at h
            exact (List.cons.inj h).2
          · rw [if_neg hd] at h
            rw [h, hfirst] at hnone
            cases hnone
    rw [hrest] at hnone
    have hsame : rest.dropWhile (· ∈ ds) = rest := by
      have hsplit := List.takeWhile_append_dropWhile (p := (· ∈ ds)) (l := rest)
      rwa [hnone, List.nil_append] at hsplit
    rw [hfirst, hskip, hnone, hsame]
    exact if_pos ⟨hkeep, hopen⟩

theorem tokenNextWith_lone {string : List Octet} (h : BeginsLone flags delims string) :
    ∃ rest, tokenNextWith flags delims string = some ([], some rest) ∧
      BeginsLone flags delims rest := by
  obtain ⟨hkeep, c, rest, hstart, hlone⟩ := h
  have hopen : c ∈ openDelims := hlone.1
  have hdelim : c ∈ tokenDelims delims := hlone.2.1
  obtain ⟨-, -, heof⟩ := openDelims_plain hopen
  have hpair : tokenPair flags (tokenDelims delims) (c :: rest) = (0xff, 0xff) := by
    rw [tokenPair, if_pos hkeep, bracketPair_of_lone hlone]
  have hcount : BracketScan.count ⟨0, false, 0⟩ (0xff, 0xff) c = ⟨0, false, 0⟩ := by
    unfold BracketScan.count
    rw [if_neg (by decide), if_neg heof, if_neg heof]
  have hends : BracketScan.endsAt ⟨0, false, 0⟩ (tokenDelims delims) c = true :=
    endsAt_iff.mpr ⟨rfl, rfl, hdelim⟩
  have hspan : tokenSpanWith flags (0xff, 0xff) (tokenDelims delims) (c :: rest) ⟨0, false, 0⟩ =
      (0, ⟨0, false, 0⟩) := by
    rw [tokenSpanWith, spanSwitch_opening hopen]
    dsimp only
    rw [hcount, if_pos hends, if_neg heof]
  refine ⟨c :: rest, ?_, hkeep, c, rest, tokenOpening_idem hstart hdelim hopen hkeep, hlone⟩
  unfold tokenNextWith
  dsimp only
  rw [hstart, if_neg (fun h => List.cons_ne_nil c rest h.1), tokenAtWith, hpair, hspan,
    List.take_zero, tokenCopyWith, Nat.sub_zero, List.drop_zero]
  have hkept : (if flags.keepBrackets = true ∧ c ∈ openDelims ∧ c ∈ tokenDelims delims then
      c :: rest else rest) = c :: rest := if_pos ⟨hkeep, hopen, hdelim⟩
  exact congrArg (fun stop => some ([], some stop)) hkept

theorem textSplitWith_lone (calls : Nat) {string : List Octet}
    (h : BeginsLone flags delims string) :
    textSplitWith flags delims calls (some string) = none := by
  induction calls generalizing string with
  | zero => rfl
  | succ calls ih =>
      obtain ⟨rest, hnext, hrest⟩ := tokenNextWith_lone h
      rw [textSplitWith, Option.bind_some, hnext]
      dsimp only
      rw [ih hrest]
      rfl

/-! ### The run -/

theorem textSplitWith_call {string stop : List Octet} (h : TokenCall flags delims string stop)
    (hends : ∃ calls tokens, textSplitWith flags delims calls (some string) = some tokens) :
    ∃ calls tokens, textSplitWith flags delims calls (some stop) = some tokens := by
  obtain ⟨calls, tokens, hsplit⟩ := hends
  obtain ⟨token, hnext⟩ := h
  cases calls with
  | zero => cases hsplit
  | succ calls =>
      rw [textSplitWith, Option.bind_some, hnext] at hsplit
      obtain ⟨tokens', htokens', -⟩ := Option.map_eq_some_iff.mp hsplit
      exact ⟨calls, tokens', htokens'⟩

theorem textSplitWith_ends {string : List Octet}
    (h : ∀ called, Relation.ReflTransGen (TokenCall flags delims) string called →
      ¬ BeginsLone flags delims called) :
    ∃ calls tokens, textSplitWith flags delims calls (some string) = some tokens := by
  induction hn : string.length using Nat.strongRecOn generalizing string with
  | ind n ih =>
      cases hnext : tokenNextWith flags delims string with
      | none => exact ⟨1, [], by rw [textSplitWith, Option.bind_some, hnext]⟩
      | some found =>
          obtain ⟨token, stop⟩ := found
          cases stop with
          | none => exact ⟨2, [token], by rw [textSplitWith, Option.bind_some, hnext]; rfl⟩
          | some stop =>
              have hcall : TokenCall flags delims string stop := ⟨token, hnext⟩
              have hlt := tokenNextWith_shortens hcall (h string .refl)
              obtain ⟨calls, tokens, hrest⟩ := ih stop.length (hn ▸ hlt)
                (fun called hcalled => h called (.head hcall hcalled)) rfl
              refine ⟨calls + 1, token :: tokens, ?_⟩
              rw [textSplitWith, Option.bind_some, hnext]
              dsimp only
              rw [hrest]
              rfl

/-- `TextSplit` ends, and its calls take up the string, exactly when none of them is given a text that
begins with a lone bracket. -/
theorem textSplitWith_ends_iff (flags : TokenFlags) (delims : Option (List Octet))
    (string : List Octet) :
    SplitsToEnd flags delims string ↔
      ∀ called, Relation.ReflTransGen (TokenCall flags delims) string called →
        ¬ BeginsLone flags delims called := by
  constructor
  · intro h called hcalled hlone
    have hends : ∃ calls tokens, textSplitWith flags delims calls (some called) = some tokens := by
      clear hlone
      induction hcalled with
      | refl => exact h.ends
      | tail _ hcall ih => exact textSplitWith_call hcall ih
    obtain ⟨calls, tokens, hsplit⟩ := hends
    rw [textSplitWith_lone calls hlone] at hsplit
    cases hsplit
  · intro h
    exact ⟨textSplitWith_ends h, fun called stop hcalled hcall =>
      .inl (tokenNextWith_shortens hcall (h called hcalled))⟩

theorem textSplitWith_endless :
    ¬ SplitsToEnd ⟨false, false, false, true, false⟩ (some (ascii "(")) (ascii "(") := by
  have hlone : BeginsLone ⟨false, false, false, true, false⟩ (some (ascii "(")) (ascii "(") :=
    ⟨rfl, ch '(', [], by decide, by decide, by decide, by decide⟩
  intro h
  obtain ⟨calls, tokens, hsplit⟩ := h.ends
  rw [textSplitWith_lone calls hlone] at hsplit
  cases hsplit

end Snert
