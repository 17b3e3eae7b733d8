/-
Module: Snert.Util.TokenSplit
Purpose: `TokenSplit` of util/TokenSplit.c, with the functions `TokenCount` and `TokenSplitA` that
  it calls, on strings that are lists of octets, and again in the one object of the string that
  `TokenSplitA` is given. For the first a pointer into the string is the list of its octets from
  there on, the tokens are lists of their own, and `pad` is zero. For the second `s` reads and `t`
  writes the string with its NUL; `argv` is an object of `size` elements, as its caller promises
  (behind the `pad` unused ones), and the pointers `s`, `t` and those in `argv` are indices into the
  string. An `int` does not overflow, the pointers are not NULL, and the allocation does not fail.
Trusted boundary: human-reviewed spec
Main exports: QuoteScan, tokenCount, SplitScan, tokenSplitA
-/
import Snert.CModel.Buffer
import Snert.Util.TextSplit

namespace Snert

open CModel

/-- The variables `quote` and `escape` of `TokenCount` and `TokenSplitA`. -/
structure QuoteScan where
  quote : Octet
  escape : Bool
deriving DecidableEq, Repr

/-- A quote opens a quoted string, or closes it when it is the one that opened it. -/
def QuoteScan.toggle (s : QuoteScan) (c : Octet) : QuoteScan :=
  if s.quote = 0 then { s with quote := c }
  else if c = s.quote then { s with quote := 0 }
  else s

/-! ### `TokenCount` -/

/-- The loop of `TokenCount`: what is added to `count`. -/
def tokenCountLoop (delims : List Octet) : Nat → List Octet → QuoteScan → Nat
  | 0, _, _ => 0
  | _ + 1, [], _ => 0
  | rounds + 1, c :: string, s =>
      if s.escape then tokenCountLoop delims rounds string { s with escape := false }
      else if isQuote c then tokenCountLoop delims rounds string (s.toggle c)
      else if c = ch '\\' then tokenCountLoop delims rounds string { s with escape := true }
      else if s.quote = 0 ∧ c ∈ delims then
        let string := (c :: string).dropWhile (· ∈ delims)
        tokenCountLoop delims rounds string s + if string ≠ [] then 1 else 0
      else tokenCountLoop delims rounds string s

/-- `TokenCount (string, delims)`. Every round reads an octet. -/
def tokenCount (string delims : List Octet) : Nat :=
  let string := string.dropWhile (· ∈ delims)
  (if string ≠ [] then 1 else 0) + tokenCountLoop delims (string.length + 1) string ⟨0, false⟩

/-! ### `TokenSplitA` -/

/-- The variables of the loop of `TokenSplitA`: the tokens of `argv` that are ended, and what has been
    put behind them. -/
structure SplitScan where
  quote : Octet
  escape : Bool
  argv : List (List Octet)
  token : List Octet
deriving DecidableEq, Repr

/-- `*t++ = c`. -/
def SplitScan.put (s : SplitScan) (c : Octet) : SplitScan :=
  { s with token := s.token ++ [c] }

/-- A quote. The other quote within a quoted string is put. -/
def SplitScan.atQuote (s : SplitScan) (c : Octet) : SplitScan :=
  if s.quote = 0 then { s with quote := c }
  else if c = s.quote then { s with quote := 0 }
  else s.put c

/-- `*t++ = '\0'; argv[i++] = t`. -/
def SplitScan.nextToken (s : SplitScan) : SplitScan :=
  { s with argv := s.argv ++ [s.token], token := [] }

/-- The loop of `TokenSplitA`, where `i` is the number of tokens that are ended, and one. -/
def tokenSplitLoop (delims : List Octet) (size : Nat) : Nat → List Octet → SplitScan → SplitScan
  | 0, _, s => s
  | _ + 1, [], s => s
  | rounds + 1, c :: string, s =>
      if ¬ s.argv.length + 1 < size then s
      else if s.escape then
        tokenSplitLoop delims size rounds string { s.put (textBackslash c) with escape := false }
      else if isQuote c then tokenSplitLoop delims size rounds string (s.atQuote c)
      else if c = ch '\\' then tokenSplitLoop delims size rounds string { s with escape := true }
      else if s.quote = 0 ∧ c ∈ delims then
        let string := (c :: string).dropWhile (· ∈ delims)
        -- Is there another argument or did we just skip trailing delimiters.
        tokenSplitLoop delims size rounds string (if string ≠ [] then s.nextToken else s)
      else tokenSplitLoop delims size rounds string (s.put c)

/-- `TokenSplitA (string, delims, argv, size)`: the tokens in `argv`. -/
def tokenSplitA (string delims : List Octet) (size : Nat) : List (List Octet) :=
  -- Skip leading delimiters.
  let string := string.dropWhile (· ∈ delims)
  if string = [] then []
  else
    let s := tokenSplitLoop delims size (string.length + 1) string ⟨0, false, [], []⟩
    s.argv ++ [s.token]

/-! ### `TokenSplit` -/

/-- `TokenSplit (string, delims, &argv, &argc, 0)`: the tokens, or `none` for -1. -/
def tokenSplit (string delims : List Octet) : Option (List (List Octet)) :=
  let argc := tokenCount string delims + 1
  let tokens := tokenSplitA string delims argc
  if tokens.length ≠ argc - 1 then none else some tokens

/-! ### In the string -/

/-- The delimiters of `TokenCount` and `TokenSplitA`. -/
def splitDelims : Option CString → List Octet
  | none => ascii " \t\r\n"
  | some delims => delims.octets

/-- The variables of the loop of `TokenSplitA`, and the string. The elements of `argv` up to `i` have
    been set. -/
structure SplitCursors (n : Nat) where
  s : Nat
  t : Nat
  quote : Octet
  escape : Bool
  argv : List Nat
  string : Buffer n

namespace SplitCursors

variable {n : Nat}

/-- `*t++ = c`, and `s++` of the loop. -/
def put (st : SplitCursors n) (c : Octet) : Run (SplitCursors n) := do
  let string ← st.string.write st.t [c]
  pure { st with s := st.s + 1, t := st.t + 1, string := string }

/-- `strspn (s + i, delims)`: it reads up to the first octet that is no delimiter. -/
def strspn (string : Buffer n) (delims : List Octet) (i : Nat) : Run Nat :=
  let span := ((string.octets.drop i).takeWhile (· ∈ delims)).length
  Run.load ⟨i, span + 1, n⟩ span

/-- `*t++ = '\0'; argv[i++] = t`, with `s` at the octet `s`. -/
def nextToken (st : SplitCursors n) (size s : Nat) : Run (SplitCursors n) := do
  let string ← st.string.write st.t [0]
  Run.store ⟨st.argv.length, 1, size⟩
    { st with s := s, t := st.t + 1, argv := st.argv ++ [st.t + 1], string := string }

/-- A delimiter outside quotes. -/
def atDelim (delims : List Octet) (size : Nat) (st : SplitCursors n) : Run (SplitCursors n) := do
  let span ← strspn st.string delims st.s
  let c ← st.string.read ((st.s + span : Nat) : Int)
  -- Is there another argument or did we just skip trailing delimiters.
  if c ≠ 0 then st.nextToken size (st.s + span)
  else pure { st with s := st.s + span }

/-- A quote. The other quote within a quoted string is put. -/
def atQuote (st : SplitCursors n) (c : Octet) : Run (SplitCursors n) :=
  if st.quote = 0 then pure { st with quote := c, s := st.s + 1 }
  else if c = st.quote then pure { st with quote := 0, s := st.s + 1 }
  else st.put c

/-- The octet at `s`, which is no NUL. -/
def atOctet (delims : List Octet) (size : Nat) (st : SplitCursors n) (c : Octet) :
    Run (SplitCursors n) :=
  if st.escape then ({ st with escape := false } : SplitCursors n).put (textBackslash c)
  else if isQuote c then st.atQuote c
  else if c = ch '\\' then pure { st with escape := true, s := st.s + 1 }
  else if st.quote = 0 ∧ c ∈ delims then st.atDelim delims size
  else st.put c

end SplitCursors

/-- One round of the loop of `TokenSplitA`. -/
def splitStep {n : Nat} (delims : List Octet) (size : Nat) (st : SplitCursors n) :
    Run (SplitCursors n ⊕ SplitCursors n) :=
  if ¬ st.argv.length < size then pure (.inr st)
  else do
    let c ← st.string.read st.s
    if c = 0 then pure (.inr st)
    else do
      let st ← st.atOctet delims size c
      pure (.inl st)

/-- Where the loop begins: behind the leading delimiters. -/
def splitStart {n : Nat} (string : Buffer n) (span : Nat) (c : Octet) : SplitCursors n :=
  ⟨span, 0, 0, false, if c ≠ 0 then [0] else [], string⟩

/-- `TokenSplitA (string, delims, argv, size)` for a positive `size`: the pointers in `argv` before the
    NULL, and the string. There is a round for every octet. -/
def tokenSplitInPlace {n : Nat} (string : Buffer n) (delims : Option CString) (size : Nat) :
    Run (List Nat × Buffer n) := do
  Run.store ⟨0, 1, size⟩ ()
  -- Skip leading delimiters.
  let span ← SplitCursors.strspn string (splitDelims delims) 0
  let c ← string.read span
  let st ← Run.loop (splitStep (splitDelims delims) size) (n + 1) (splitStart string span c)
  let string ← st.string.write st.t [0]
  Run.store ⟨st.argv.length, 1, size⟩ (st.argv, string)

/-- The copy of the string that `TokenSplit` makes. -/
def splitCopy (string : CString) : Buffer (string.octets.length + 1) :=
  ⟨string.octets ++ [0], List.length_append⟩

/-- What `TokenSplit` passes back: `argc`, the pointers behind the unused elements, and the string that
    they point into. -/
structure SplitArgs (n : Nat) where
  argc : Int
  argv : List Nat
  string : Buffer n

/-- `TokenSplit (string, delims, &argv, &argc, pad)`, or `none` for -1. `memory` says whether `malloc`
    finds any. -/
def tokenSplitPadded (string : CString) (delims : Option CString) (pad : Int) (memory : Bool) :
    Run (Option (SplitArgs (string.octets.length + 1))) :=
  let argc : Int := pad + tokenCount string.octets (splitDelims delims) + 1
  if ¬ memory then pure none
  else if argc - pad < 1 then pure none
  else do
    let out ← tokenSplitInPlace (splitCopy string) delims (argc - pad).toNat
    if (out.1.length : Int) ≠ argc - pad - 1 then pure none
    else pure (some ⟨argc - 1, out.1, out.2⟩)

end Snert
