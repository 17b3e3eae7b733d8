/-
Module: Snert.Proofs.TokenSplitCursors
Purpose: `TokenSplitA` in the string that it is given. What is written never passes what is read, so that
  the string that is still to be read is the one that was given, and the tokens stand in front of it.
  There are as many as `TokenCount` counted, so that `argv` is not left and `TokenSplit` does not fail.
Trusted boundary: none
Main exports: tokenSplit_exact
-/
import Snert.Proofs.TokenSplitAgree
import Snert.Util.TokenSplit

namespace Snert

open CModel CModel.Run Lists

/-! ### Where the loop stands -/

/-- The octets of tokens, each with the NUL that ends it. -/
def tokenText (tokens : List (List Octet)) : List Octet :=
  tokens.flatMap (· ++ [0])

/-- Where tokens begin that stand one behind the other, and where the next one does. -/
def tokenStarts : Nat → List (List Octet) → List Nat
  | i, [] => [i]
  | i, token :: tokens => i :: tokenStarts (i + token.length + 1) tokens

theorem tokenStarts_length (i : Nat) (tokens : List (List Octet)) :
    (tokenStarts i tokens).length = tokens.length + 1 := by
  induction tokens generalizing i with
  | nil => rfl
  | cons token tokens ih => exact congrArg (· + 1) (ih _)

theorem tokenText_snoc (tokens : List (List Octet)) (token : List Octet) :
    tokenText (tokens ++ [token]) = tokenText tokens ++ token ++ [0] := by
  simp [tokenText]

theorem tokenStarts_snoc (i : Nat) (tokens : List (List Octet)) (token : List Octet) :
    tokenStarts i (tokens ++ [token]) =
      tokenStarts i tokens ++ [i + (tokenText tokens ++ token).length + 1] := by
  induction tokens generalizing i with
  | nil => simp [tokenStarts, tokenText]
  | cons first tokens ih =>
      rw [List.cons_append, tokenStarts, tokenStarts, ih]
      simp [tokenText]
      omega

namespace SplitCursors

variable {n : Nat}

/-- What is open in front of the reader. -/
def reading (st : SplitCursors n) : Reading :=
  ⟨st.quote, st.escape⟩

end SplitCursors

/-- The loop is in front of `rest`: it has ended the tokens `argv`, and `token` is what it has of the
next one. -/
structure SplitAt {n : Nat} (delims : List Octet) (tokens : List (List Octet)) (st : SplitCursors n)
    (rest : List Octet) (argv : List (List Octet)) (token : List Octet) : Prop where
  noNul : 0 ∉ rest
  behind : ∃ tail, st.string.octets.drop st.s = rest ++ 0 :: tail
  cursors : st.t ≤ st.s
  written : st.string.octets.take st.t = tokenText argv ++ token
  pointers : st.argv = tokenStarts 0 argv
  tokens : tokens = argv ++ (token ++ unquote st.reading (readTo delims st.reading rest).1) ::
    tokensOf delims (readTo delims st.reading rest).2

section

variable {n size : Nat} {delims : List Octet} {tokens argv : List (List Octet)}
  {st : SplitCursors n} {rest token : List Octet} {c : Octet}

theorem SplitAt.length (h : SplitAt delims tokens st rest argv token) :
    st.s + rest.length + 1 ≤ n := by
  obtain ⟨tail, htail⟩ := h.behind
  have hlength := congrArg List.length htail
  rw [List.length_drop, st.string.length_octets, List.length_append, List.length_cons] at hlength
  omega

theorem SplitAt.t_eq (h : SplitAt delims tokens st rest argv token) :
    st.t = (tokenText argv ++ token).length := by
  have hlength := h.length
  have hcursors := h.cursors
  rw [← h.written, List.length_take, st.string.length_octets]
  omega

theorem yields_read_of_drop {b : Buffer n} {i : Nat} {tail : List Octet}
    (h : b.octets.drop i = c :: tail) : (b.read (i : Int)).Yields c := by
  have hlength := congrArg List.length h
  rw [List.length_drop, b.length_octets, List.length_cons] at hlength
  have hget : b.get i = c := by
    have hhead := congrArg (List.getD · 0 0) h
    simpa [Buffer.get, List.getD_eq_getElem?_getD] using hhead
  have hread := b.yields_read (show i < n by omega)
  rwa [hget] at hread

theorem take_splice_put (b : Buffer n) {i : Nat} {os : List Octet} (h : i + os.length ≤ n) :
    (b.splice i os).octets.take (i + os.length) = b.octets.take i ++ os := by
  have hn := b.length_octets
  rw [Buffer.octets_splice _ h]
  exact List.take_left' (by rw [List.length_append, List.length_take]; omega)

theorem put_yields (st : SplitCursors n) (ht : st.t < n) (d : Octet) :
    (st.put d).Yields { st with
      s := st.s + 1, t := st.t + 1, string := st.string.splice st.t [d] } := by
  unfold SplitCursors.put
  exact (Buffer.yields_write _ [d] (by rw [List.length_singleton]; omega)).bind (yields_pure _)

theorem atOctet_goesOn (st : SplitCursors n) (ht : st.t < n)
    (hbare : ¬ (st.reading.isBare c ∧ c ∈ delims)) :
    (st.atOctet delims size c).Yields
      { s := st.s + 1, t := st.t + (st.reading.value c).length,
        quote := (st.reading.next c).quote, escape := (st.reading.next c).escape,
        argv := st.argv, string := st.string.splice st.t (st.reading.value c) } := by
  obtain ⟨s, t, quote, escape, argv, string⟩ := st
  unfold SplitCursors.atOctet
  simp only [SplitCursors.reading, Reading.isBare, Reading.value, Reading.next] at hbare ⊢
  cases escape with
  | true =>
      simp only [if_true, List.length_singleton]
      exact put_yields ⟨s, t, quote, false, argv, string⟩ ht _
  | false =>
      simp only [Bool.false_eq_true, if_false]
      by_cases hquote : isQuote c = true
      · simp only [hquote, if_true]
        unfold SplitCursors.atQuote
        by_cases hopen : quote = 0
        · simp [hopen]
        · by_cases hsame : c = quote
          · simp [hopen, hsame]
          · simp only [hopen, hsame, if_false, if_true, ne_eq, not_false_eq_true, and_self]
            exact put_yields ⟨s, t, quote, false, argv, string⟩ ht c
      · simp only [hquote]
        by_cases hbackslash : c = ch '\\'
        · simp [hbackslash]
        · simp only [hbackslash, if_false]
          have hdelim : ¬ (quote = 0 ∧ c ∈ delims) := fun h =>
            hbare (by simp [h.1, h.2, hquote, hbackslash])
          rw [if_neg hdelim]
          exact put_yields ⟨s, t, quote, false, argv, string⟩ ht c

theorem SplitAt.goesOn (h : SplitAt delims tokens st (c :: rest) argv token)
    (hbare : ¬ (st.reading.isBare c ∧ c ∈ delims)) :
    (st.atOctet delims size c).Ends fun st' =>
      SplitAt delims tokens st' rest argv (token ++ st.reading.value c) := by
  have hlength := h.length
  have hcursors := h.cursors
  rw [List.length_cons] at hlength
  have hvalue : (st.reading.value c).length ≤ 1 := by
    unfold Reading.value
    split_ifs <;> simp
  rw [(atOctet_goesOn st (by omega) hbare).ends_iff]
  obtain ⟨tail, htail⟩ := h.behind
  have hreading : SplitCursors.reading
      { s := st.s + 1, t := st.t + (st.reading.value c).length,
        quote := (st.reading.next c).quote, escape := (st.reading.next c).escape,
        argv := st.argv, string := st.string.splice st.t (st.reading.value c) :
          SplitCursors n } = st.reading.next c := rfl
  refine ⟨fun hmem => h.noNul (List.mem_cons_of_mem _ hmem), ⟨tail, ?_⟩, ?_, ?_, h.pointers, ?_⟩
  · dsimp only
    rw [Buffer.drop_splice _ (by omega) (by omega), ← List.drop_drop, htail]
    rfl
  · dsimp only
    omega
  · dsimp only
    rw [take_splice_put _ (by omega), h.written, List.append_assoc]
  · rw [hreading, h.tokens, readTo, if_neg hbare, List.append_assoc]
    rfl

theorem strspn_yields {b : Buffer n} {i : Nat} {string tail : List Octet}
    (h : b.octets.drop i = string ++ 0 :: tail) (hdelims : 0 ∉ delims) :
    (SplitCursors.strspn b delims i).Yields (string.takeWhile (· ∈ delims)).length ∧
      b.octets.drop (i + (string.takeWhile (· ∈ delims)).length) =
        string.dropWhile (· ∈ delims) ++ 0 :: tail := by
  have hlength := congrArg List.length h
  rw [List.length_drop, b.length_octets, List.length_append, List.length_cons] at hlength
  have hle := (List.takeWhile_prefix (l := string) (· ∈ delims)).length_le
  have hspan : (string ++ 0 :: tail).takeWhile (· ∈ delims) = string.takeWhile (· ∈ delims) := by
    rw [List.takeWhile_append, List.takeWhile_cons_of_neg (by simpa using hdelims),
      List.append_nil]
    split_ifs with hall
    · exact ((List.takeWhile_prefix _).eq_of_length hall).symm
    · rfl
  constructor
  · unfold SplitCursors.strspn
    rw [h, hspan]
    exact yields_load (Access.inBounds_iff_le.mpr (by omega)) _
  · have hsplit := List.takeWhile_append_dropWhile (p := (· ∈ delims)) (l := string)
    have hstring : string ++ 0 :: tail = string.takeWhile (· ∈ delims) ++
        (string.dropWhile (· ∈ delims) ++ 0 :: tail) := by
      rw [← List.append_assoc, hsplit]
    rw [← List.drop_drop, h, hstring, List.drop_left]

/-- A delimiter that ends the token, and those behind it. -/
theorem SplitAt.atDelim (h : SplitAt delims tokens st (c :: rest) argv token)
    (hdelims : 0 ∉ delims) (hbare : st.reading.isBare c ∧ c ∈ delims)
    (hsize : st.argv.length < size) :
    (st.atOctet delims size c).Ends fun st' =>
      ∃ rest' argv' token', SplitAt delims tokens st' rest' argv' token' ∧
        rest'.length ≤ rest.length := by
  have hlength := h.length
  have hcursors := h.cursors
  have hshort := dropWhile_length_lt rest hbare.2
  have hrest : (c :: rest).takeWhile (· ∈ delims) ++ (c :: rest).dropWhile (· ∈ delims) = c :: rest :=
    List.takeWhile_append_dropWhile
  have hpos : 0 < ((c :: rest).takeWhile (· ∈ delims)).length := by
    rw [List.takeWhile_cons_of_pos (by simpa using hbare.2)]
    exact Nat.succ_pos _
  obtain ⟨tail, htail⟩ := h.behind
  obtain ⟨hspan, hbehind⟩ := strspn_yields htail hdelims
  have htokens := h.tokens
  rw [readTo, if_pos hbare] at htokens
  dsimp only at htokens
  rw [tokensOf_delim, unquote, List.append_nil] at htokens
  have hplain : st.reading = .plain := Reading.eq_plain_of_bare hbare.1
  have hswitch : st.atOctet delims size c = st.atDelim delims size := by
    have hopen : st.quote = 0 ∧ st.escape = false := Reading.mk.inj hplain
    obtain ⟨hquote, hbackslash⟩ : isQuote c = false ∧ c ≠ ch '\\' := by
      have hc := hbare.1
      rw [hplain] at hc
      simpa [Reading.isBare, Reading.plain] using hc
    unfold SplitCursors.atOctet
    rw [hopen.2, if_neg Bool.false_ne_true, hquote, if_neg Bool.false_ne_true, if_neg hbackslash,
      if_pos ⟨hopen.1, hbare.2⟩]
  have hnul : 0 ∉ (c :: rest).dropWhile (· ∈ delims) := fun hmem =>
    h.noNul ((List.dropWhile_suffix _).subset hmem)
  rw [hswitch]
  unfold SplitCursors.atDelim
  rw [hspan.bind_ends_iff]
  generalize hfront : (c :: rest).takeWhile (· ∈ delims) = front at *
  cases hskip : (c :: rest).dropWhile (· ∈ delims) with
  | nil =>
      rw [hskip] at hbehind htokens
      rw [if_pos rfl] at htokens
      rw [(yields_read_of_drop hbehind).bind_ends_iff, if_neg (fun hne => hne rfl), ends_pure]
      refine ⟨[], argv, token, ⟨List.not_mem_nil, ⟨tail, hbehind⟩, ?_, h.written, h.pointers, ?_⟩,
        Nat.zero_le _⟩
      · dsimp only
        omega
      · rw [htokens]
        simp [readTo, unquote, tokensOf_eq_nil_iff]
  | cons d rest' =>
      rw [hskip] at hbehind htokens hshort hnul
      rw [if_neg (List.cons_ne_nil _ _)] at htokens
      have hd : d ≠ 0 := fun hzero => hnul (hzero ▸ List.mem_cons_self)
      have hwrite := Buffer.yields_write st.string [0] (i := st.t) (by
        rw [List.length_singleton]
        omega)
      have hstore : (Run.store ⟨st.argv.length, 1, size⟩
          ({ st with
            s := st.s + front.length, t := st.t + 1, argv := st.argv ++ [st.t + 1],
            string := st.string.splice st.t [0] } : SplitCursors n)).Yields _ :=
        ends_store.mpr ⟨Access.inBounds_iff_le.mpr hsize, rfl⟩
      rw [(yields_read_of_drop hbehind).bind_ends_iff, if_pos hd, SplitCursors.nextToken,
        hwrite.bind_ends_iff, hstore.ends_iff]
      refine ⟨d :: rest', argv ++ [token], [], ⟨hnul, ⟨tail, ?_⟩, ?_, ?_, ?_, ?_⟩, hshort⟩
      · dsimp only
        rw [Buffer.drop_splice _ (by rw [List.length_singleton]; omega) (by
          rw [List.length_singleton]
          omega)]
        exact hbehind
      · dsimp only
        omega
      · have hput := @take_splice_put n st.string st.t [0] (by
          rw [List.length_singleton]
          omega)
        rw [tokenText_snoc, List.append_nil, ← h.written]
        exact hput
      · rw [tokenStarts_snoc, ← h.t_eq, ← h.pointers, Nat.zero_add]
      · have hreading : SplitCursors.reading
            ({ st with
              s := st.s + front.length, t := st.t + 1, argv := st.argv ++ [st.t + 1],
              string := st.string.splice st.t [0] } : SplitCursors n) = .plain := hplain
        rw [htokens, hreading]
        simp

/-! ### The loop -/

/-- The loop is somewhere in the string. -/
def InSplit {n : Nat} (delims : List Octet) (tokens : List (List Octet)) (st : SplitCursors n) :
    Prop :=
  ∃ rest argv token, SplitAt delims tokens st rest argv token

theorem SplitAt.argv_length (h : SplitAt delims tokens st rest argv token) :
    st.argv.length ≤ tokens.length := by
  rw [h.pointers, h.tokens, tokenStarts_length, List.length_append, List.length_cons]
  omega

theorem SplitAt.c_ne_zero (h : SplitAt delims tokens st (c :: rest) argv token) : c ≠ 0 :=
  fun hzero => h.noNul (hzero ▸ List.mem_cons_self)

theorem splitStep_ends (hdelims : 0 ∉ delims) (hsize : tokens.length < size)
    (h : SplitAt delims tokens st rest argv token) :
    (splitStep delims size st).Ends fun out =>
      match out with
      | .inl st' => ∃ rest' argv' token', SplitAt delims tokens st' rest' argv' token' ∧
          rest'.length < rest.length
      | .inr st' => st' = st ∧ rest = [] := by
  have hargv := h.argv_length
  unfold splitStep
  rw [if_neg (by omega)]
  cases rest with
  | nil =>
      obtain ⟨tail, htail⟩ := h.behind
      rw [(yields_read_of_drop htail).bind_ends_iff, if_pos rfl, ends_pure]
      exact ⟨rfl, rfl⟩
  | cons c rest =>
      obtain ⟨tail, htail⟩ := h.behind
      rw [(yields_read_of_drop htail).bind_ends_iff, if_neg h.c_ne_zero, ends_bind]
      by_cases hbare : st.reading.isBare c ∧ c ∈ delims
      · refine (h.atDelim hdelims hbare (by omega)).mono ?_
        rintro st' ⟨rest', argv', token', hst', hshort⟩
        exact ends_pure.mpr ⟨rest', argv', token', hst', Nat.lt_succ_of_le hshort⟩
      · refine (h.goesOn hbare).mono fun st' hst' => ?_
        exact ends_pure.mpr ⟨rest, argv, _, hst', Nat.lt_succ_self _⟩

theorem splitStep_end {tail : List Octet} (h : st.string.octets.drop st.s = 0 :: tail)
    (hargv : st.argv.length < size) : (splitStep delims size st).Yields (.inr st) := by
  unfold splitStep
  rw [if_neg (by omega)]
  exact (yields_read_of_drop h).bind (by rw [if_pos rfl]; exact yields_pure _)

theorem splitLoop_end (rounds : Nat) {tail : List Octet}
    (h : st.string.octets.drop st.s = 0 :: tail) (hargv : st.argv.length < size) :
    (Run.loop (splitStep delims size) (rounds + 1) st).Yields st := by
  rw [Run.loop]
  exact (splitStep_end h hargv).bind (yields_pure _)

theorem InSplit.cursors (h : InSplit delims tokens st) : st.t ≤ st.s := by
  obtain ⟨rest, argv, token, hst⟩ := h
  exact hst.cursors

theorem InSplit.reaches (hdelims : 0 ∉ delims) (hsize : tokens.length < size)
    {st' : SplitCursors n} (h : InSplit delims tokens st)
    (hreach : Reaches (splitStep delims size) st st') : InSplit delims tokens st' := by
  induction hreach with
  | refl => exact h
  | tail _ hnext ih =>
      obtain ⟨rest, argv, token, hst⟩ := ih
      obtain ⟨-, out, hdone, hout⟩ := splitStep_ends hdelims hsize hst
      rw [Next, hdone] at hnext
      obtain rfl := Outcome.done.inj hnext
      obtain ⟨rest', argv', token', hst', -⟩ := hout
      exact ⟨rest', argv', token', hst'⟩

theorem splitLoop_ends {rounds : Nat} (hdelims : 0 ∉ delims) (hsize : tokens.length < size)
    (h : SplitAt delims tokens st rest argv token) (hrounds : rest.length < rounds) :
    (Run.loop (splitStep delims size) rounds st).Ends fun st' =>
      ∃ argv token, SplitAt delims tokens st' [] argv token := by
  induction rounds generalizing st rest argv token with
  | zero => omega
  | succ rounds ih =>
      rw [Run.loop, ends_bind]
      refine (splitStep_ends hdelims hsize h).mono ?_
      rintro (st' | st') hout
      · obtain ⟨rest', argv', token', hst', hlt⟩ := hout
        exact ih hst' (by omega)
      · obtain ⟨rfl, rfl⟩ := hout
        exact ends_pure.mpr ⟨argv, token, h⟩

end

/-! ### The whole string -/

theorem splitDelims_noNul (delims : Option CString) : 0 ∉ splitDelims delims := by
  cases delims with
  | none => decide
  | some delims => exact delims.noNul

theorem splitStart_at {string : CString} {delims : List Octet} {c : Octet} {rest : List Octet}
    (hskip : string.octets.dropWhile (· ∈ delims) = c :: rest)
    (hbehind : (splitCopy string).octets.drop
      (string.octets.takeWhile (· ∈ delims)).length = c :: rest ++ [0]) :
    SplitAt delims (tokensOf delims string.octets)
      (splitStart (splitCopy string) (string.octets.takeWhile (· ∈ delims)).length c)
      (c :: rest) [] [] := by
  have hc : c ∉ delims := by
    have hhead := List.head?_dropWhile_not (· ∈ delims) string.octets
    rw [hskip] at hhead
    simpa using hhead
  have hnul : 0 ∉ c :: rest := fun hmem =>
    string.noNul ((List.dropWhile_suffix _).subset (hskip ▸ hmem))
  have hzero : c ≠ 0 := fun h => hnul (h ▸ List.mem_cons_self)
  refine ⟨hnul, ⟨[], hbehind⟩, Nat.zero_le _, rfl, if_pos hzero, ?_⟩
  rw [← tokensOf_dropWhile, hskip, tokensOf_cons hc]
  rfl

theorem tokenSplitInPlace_ends (string : CString) (delims : Option CString) {size : Nat}
    (hsize : (tokensOf (splitDelims delims) string.octets).length < size) :
    (tokenSplitInPlace (splitCopy string) delims size).Ends fun out =>
      out.1 = (tokenStarts 0 (tokensOf (splitDelims delims) string.octets)).dropLast ∧
        tokenText (tokensOf (splitDelims delims) string.octets) <+: out.2.octets := by
  have hcopy : (splitCopy string).octets.drop 0 = string.octets ++ 0 :: [] := rfl
  have hdelims := splitDelims_noNul delims
  obtain ⟨hspan, hbehind⟩ := strspn_yields hcopy hdelims
  rw [Nat.zero_add] at hbehind
  have hfirst : (Run.store ⟨0, 1, size⟩ () : Run Unit).Yields () :=
    ends_store.mpr ⟨by simp [Access.InBounds]; omega, rfl⟩
  unfold tokenSplitInPlace
  rw [hfirst.bind_ends_iff, hspan.bind_ends_iff]
  cases hskip : string.octets.dropWhile (· ∈ splitDelims delims) with
  | nil =>
      have hnone : tokensOf (splitDelims delims) string.octets = [] := by
        rw [← tokensOf_dropWhile, hskip]
        rfl
      rw [hskip] at hbehind
      rw [(yields_read_of_drop hbehind).bind_ends_iff]
      generalize hstart : splitStart (splitCopy string)
        (string.octets.takeWhile (· ∈ splitDelims delims)).length 0 = start
      have hend : start.string.octets.drop start.s = 0 :: [] := by
        rw [← hstart]
        exact hbehind
      have hargv : start.argv = [] := by
        rw [← hstart]
        rfl
      have ht : start.t = 0 := by
        rw [← hstart]
        rfl
      have hloop : (Run.loop (splitStep (splitDelims delims) size) (string.octets.length + 1 + 1)
          start).Yields start :=
        splitLoop_end _ hend (by rw [hargv]; exact Nat.zero_lt_of_lt hsize)
      have hwrite := start.string.yields_write [0] (i := start.t) (by simp [ht])
      rw [hloop.bind_ends_iff, hwrite.bind_ends_iff, ends_store, hnone, hargv]
      exact ⟨by simp [Access.InBounds]; omega, rfl, List.nil_prefix⟩
  | cons c rest =>
      rw [hskip] at hbehind
      have hstart := splitStart_at hskip hbehind
      have hrounds : (c :: rest).length < string.octets.length + 1 + 1 := by
        have hle := (List.dropWhile_suffix (l := string.octets)
          (· ∈ splitDelims delims)).length_le
        rw [hskip] at hle
        omega
      rw [(yields_read_of_drop hbehind).bind_ends_iff, ends_bind]
      refine (splitLoop_ends hdelims hsize hstart hrounds).mono ?_
      rintro st ⟨argv, token, hst⟩
      have hlength := hst.length
      have hcursors := hst.cursors
      have htokens : tokensOf (splitDelims delims) string.octets = argv ++ [token] := by
        rw [hst.tokens]
        simp [readTo, unquote, tokensOf_eq_nil_iff]
      rw [htokens, List.length_append, List.length_singleton] at hsize
      have hwrite := st.string.yields_write [0] (i := st.t) (by
        rw [List.length_singleton]
        omega)
      rw [hwrite.bind_ends_iff, ends_store]
      refine ⟨Access.inBounds_iff_le.mpr ?_, ?_, ?_⟩
      · rw [hst.pointers, tokenStarts_length]
        omega
      · rw [htokens, tokenStarts_snoc, List.dropLast_concat]
        exact hst.pointers
      · rw [htokens, tokenText_snoc, ← hst.written, ← take_splice_put _ (by
          rw [List.length_singleton]
          omega)]
        exact List.take_prefix _ _

/-! ### `TokenSplit` -/

/-- The state in which the loop of `TokenSplitA` begins. -/
def splitFirst (string : CString) (delims : Option CString) :
    SplitCursors (string.octets.length + 1) :=
  splitStart (splitCopy string) (string.octets.takeWhile (· ∈ splitDelims delims)).length
    (peek (string.octets.dropWhile (· ∈ splitDelims delims)))

/-- `TokenSplitA` stores as many tokens as `TokenCount` counts, in an `argv` of that length and one,
its writer never passes its reader, and `TokenSplit` fails only without memory. -/
structure SplitsExactly (string : CString) (delims : Option CString) (pad : Int) : Prop where
  stores : (tokenSplitInPlace (splitCopy string) delims
      (tokenCount string.octets (splitDelims delims) + 1)).Ends fun out =>
    out.1.length = tokenCount string.octets (splitDelims delims)
  cursors : ∀ st, Reaches (splitStep (splitDelims delims)
      (tokenCount string.octets (splitDelims delims) + 1)) (splitFirst string delims) st →
    st.t ≤ st.s
  splits : ∀ memory, (tokenSplitPadded string delims pad memory).Ends fun out =>
    (out = none ↔ memory = false) ∧ ∀ args ∈ out,
      args.argc = pad + tokenCount string.octets (splitDelims delims) ∧
        args.argv.length = tokenCount string.octets (splitDelims delims)

theorem tokenSplitInPlace_stores (string : CString) (delims : Option CString) :
    (tokenSplitInPlace (splitCopy string) delims
        (tokenCount string.octets (splitDelims delims) + 1)).Ends fun out =>
      out.1.length = tokenCount string.octets (splitDelims delims) := by
  rw [tokenCount_eq]
  refine (tokenSplitInPlace_ends string delims (Nat.lt_succ_self _)).mono fun out hout => ?_
  rw [hout.1, List.length_dropLast, tokenStarts_length, Nat.add_sub_cancel]

theorem splitFirst_cursors (string : CString) (delims : Option CString) {size : Nat}
    (hsize : (tokensOf (splitDelims delims) string.octets).length < size)
    {st : SplitCursors (string.octets.length + 1)}
    (h : Reaches (splitStep (splitDelims delims) size) (splitFirst string delims) st) :
    st.t ≤ st.s := by
  have hcopy : (splitCopy string).octets.drop 0 = string.octets ++ 0 :: [] := rfl
  obtain ⟨-, hbehind⟩ := strspn_yields hcopy (splitDelims_noNul delims)
  rw [Nat.zero_add] at hbehind
  unfold splitFirst at h
  cases hskip : string.octets.dropWhile (· ∈ splitDelims delims) with
  | nil =>
      rw [hskip] at h hbehind
      obtain rfl | ⟨next, hnext, -⟩ := h.cases_head
      · exact Nat.zero_le _
      · have hstep : (splitStep (splitDelims delims) size (splitStart (splitCopy string) _
            (peek []))).Yields _ :=
          splitStep_end hbehind (Nat.zero_lt_of_lt hsize)
        rw [Next, hstep.outcome] at hnext
        cases hnext
  | cons c rest =>
      rw [hskip] at h hbehind
      have hstart : InSplit (splitDelims delims) (tokensOf (splitDelims delims) string.octets) _ :=
        ⟨c :: rest, [], [], splitStart_at hskip hbehind⟩
      exact (hstart.reaches (splitDelims_noNul delims) hsize h).cursors

/-- `TokenSplit` neither miscounts nor overruns, and fails only without memory. -/
theorem tokenSplit_exact (string : CString) (delims : Option CString) (pad : Int) :
    SplitsExactly string delims pad := by
  refine ⟨tokenSplitInPlace_stores string delims, fun st hst => ?_, fun memory => ?_⟩
  · exact splitFirst_cursors string delims (by rw [tokenCount_eq]; exact Nat.lt_succ_self _) hst
  · unfold tokenSplitPadded
    dsimp only
    cases memory with
    | false => simp
    | true =>
        have hsize : (pad + tokenCount string.octets (splitDelims delims) + 1 - pad).toNat =
            tokenCount string.octets (splitDelims delims) + 1 := by
          omega
        rw [if_neg (by simp), if_neg (by omega), hsize, ends_bind]
        refine (tokenSplitInPlace_stores string delims).mono fun out hout => ?_
        rw [if_neg (by omega), ends_pure]
        refine ⟨by simp, ?_⟩
        rintro args hargs
        obtain rfl := Option.some.inj hargs
        exact ⟨by dsimp only; omega, hout⟩

end Snert
