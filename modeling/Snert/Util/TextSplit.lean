/-
Module: Snert.Util.TextSplit
Purpose: `TextSplit` of util/TextSplit.c, and `TokenNext` of util/TokenNext.c that it calls, without
  flags. Quotes are removed and backslashes are interpreted. A pointer into the string is the list of
  its octets from there on. A `char` is signed; the string and `delims` are not NULL, and the
  allocations do not fail.
Trusted boundary: human-reviewed spec
Main exports: textBackslash, TokenScan, tokenSpan, tokenCopy
-/
import Snert.CModel.CString
import Snert.Lists.Segments

namespace Snert

open CModel Lists

/-- `TextBackslash (ch)`. -/
def textBackslash (c : Octet) : Octet :=
  if c = ch 'a' then 0x07
  else if c = ch 'b' then 0x08
  else if c = ch 'e' then 0x1b
  else if c = ch 'f' then 0x0c
  else if c = ch 'n' then 0x0a
  else if c = ch 'r' then 0x0d
  else if c = ch 's' then 0x20
  else if c = ch 't' then 0x09
  else if c = ch 'v' then 0x0b
  else c

/-- The variables `quote`, `escape` and `bcount` of `TokenNext`. Zero stands for no quote. -/
structure TokenScan where
  quote : Octet
  escape : Bool
  bcount : Nat
deriving DecidableEq, Repr

/-- One of the two quotes. -/
def isQuote (c : Octet) : Bool :=
  c = ch '"' || c = ch '\''

/-- A quote opens a quoted string, or closes it when it is the one that opened it. -/
def TokenScan.toggle (s : TokenScan) (c : Octet) : TokenScan :=
  if s.quote = 0 then { s with quote := c }
  else if c = s.quote then { s with quote := 0 }
  else s

/-- Outside quotes, an octet that equals `open_delim` is counted. Without brackets to keep, that is
    `EOF`, as is `close_delim`, which is only looked at where `open_delim` differs. -/
def TokenScan.count (s : TokenScan) (c : Octet) : TokenScan :=
  if s.quote = 0 ∧ c = 0xff then { s with bcount := s.bcount + 1 } else s

/-- An octet that ends a token, when it has been counted. -/
def TokenScan.endsAt (s : TokenScan) (delims : List Octet) (c : Octet) : Bool :=
  s.quote = 0 && s.bcount = 0 && c ∈ delims

/-- Find end of token: the octets before it, and the variables there. -/
def tokenSpan (delims : List Octet) : List Octet → TokenScan → Nat × TokenScan
  | [], s => (0, s)
  | c :: string, s =>
      let goOn (s : TokenScan) : Nat × TokenScan :=
        ((tokenSpan delims string s).1 + 1, (tokenSpan delims string s).2)
      if s.escape then goOn { s with escape := false }
      else if isQuote c then goOn (s.toggle c)
      else if c = ch '\\' then goOn { s with escape := true }
      else if (s.count c).endsAt delims c then (0, s.count c)
      else goOn (s.count c)

/-- Copy token, removing quotes and backslashes: the token, and how many of the octets are then left.
    The variables are still those that the end of the token was found with. -/
def tokenCopy (delims : List Octet) : List Octet → TokenScan → List Octet × Nat
  | [], _ => ([], 0)
  | c :: string, s =>
      let put (c : Octet) (s : TokenScan) : List Octet × Nat :=
        (c :: (tokenCopy delims string s).1, (tokenCopy delims string s).2)
      if s.escape then put (textBackslash c) { s with escape := false }
      else if isQuote c then
        -- The other quote within a quoted string.
        if s.quote ≠ 0 ∧ c ≠ s.quote then put c s
        else tokenCopy delims string (s.toggle c)
      else if c = ch '\\' then tokenCopy delims string { s with escape := true }
      else if (s.count c).endsAt delims c then ([], string.length + 1)
      else put c (s.count c)

/-- The delimiters that `delims` stands for. -/
def delimSet (delims : List Octet) : List Octet :=
  if delims = ascii "\\0" then [] else delims

/-- What follows the search for the start of a token. -/
def tokenAt (delims string : List Octet) : List Octet × Option (List Octet) :=
  let span := tokenSpan delims string ⟨0, false, 0⟩
  let copy := tokenCopy delims (string.take span.1) span.2
  match string.drop (span.1 - copy.2) with
  -- Token found and end of string reached.
  | [] => (copy.1, none)
  -- Consume delimiter.
  | _ :: stop => (copy.1, some stop)

/-- `TokenNext (string, &stop, delims, 0)`: the token, and `stop`, with `none` for a NULL of either. -/
def tokenNext (delims string : List Octet) : Option (List Octet × Option (List Octet)) :=
  match string.dropWhile (· ∈ delimSet delims) with
  | [] => none
  | c :: rest => some (tokenAt (delimSet delims) (c :: rest))

/-- `TextSplit (string, delims, 0)`. -/
def textSplit (string delims : List Octet) : List (List Octet) :=
  parts (tokenNext delims) (string.length + 1) string

theorem tokenNext_shortens (delims : List Octet) : Takes.Shortens (tokenNext delims) := by
  intro string token stop h
  unfold tokenNext at h
  have hle := (List.dropWhile_suffix (l := string) (· ∈ delimSet delims)).length_le
  split at h
  · cases h
  · rename_i c rest hskip
    rw [hskip] at hle
    have htoken := Option.some.inj h
    unfold tokenAt at htoken
    dsimp only at htoken
    split at htoken
    · cases htoken
    · rename_i hdrop
      simp only [Prod.mk.injEq, Option.some.injEq] at htoken
      obtain ⟨-, rfl⟩ := htoken
      have hlen := congrArg List.length hdrop
      simp only [List.length_drop, List.length_cons] at hlen hle
      omega

example : textSplit (ascii "v=spf1  a \"-all x\" +b\\s'c d'") (ascii " ") =
    [ascii "v=spf1", ascii "a", ascii "-all x", ascii "+b c d"] := by decide

end Snert
