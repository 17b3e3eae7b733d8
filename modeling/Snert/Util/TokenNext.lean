/-
Module: Snert.Util.TokenNext
Purpose: `TokenNext` of util/TokenNext.c with all of its flags, `TextSplit` with flags, and `TokenQuote`
  of util/TokenQuote.c. A pointer into the string is the list of its octets from there on; a NULL
  string is `none`. A `char` is signed, `bcount` does not overflow, and the allocations do not fail.
Trusted boundary: human-reviewed spec
Main exports: TokenFlags, tokenDelims, tokenOpening, TokenSwitch
-/
import Snert.Util.UriFormat

namespace Snert

open CModel

/-- The flags of `TokenNext`. -/
structure TokenFlags where
  keepEmpty : Bool
  keepQuotes : Bool
  keepBackslash : Bool
  keepBrackets : Bool
  ignoreQuotes : Bool
deriving DecidableEq, Repr

/-- No flag is set. -/
def TokenFlags.none : TokenFlags :=
  ⟨false, false, false, false, false⟩

/-- `TOKEN_KEEP_ASIS`. -/
def TokenFlags.keepAsis : TokenFlags :=
  ⟨false, false, true, false, true⟩

/-- `open_delims`. -/
def openDelims : List Octet :=
  ascii "<(\x7b["

/-- The delimiters that `delims` stands for. Default is C white space. -/
def tokenDelims : Option (List Octet) → List Octet
  | .none => ascii " \t\r\n\x0c"
  | some delims => delimSet delims

/-- Find start of next token: an opening bracket that was just passed is kept. -/
def tokenOpening (flags : TokenFlags) (delims string : List Octet) : List Octet :=
  if flags.keepEmpty then string
  else
    let rest := string.dropWhile (· ∈ delims)
    match (string.takeWhile (· ∈ delims)).getLast? with
    | .none => rest
    | some c => if flags.keepBrackets ∧ c ∈ openDelims then c :: rest else rest

/-- What becomes of an octet: `goesOn` is `continue`, with the octets that were copied, and `looks` goes
    on to look whether a delimiter ends the token here. -/
inductive TokenSwitch where
  | goesOn (copied : List Octet) (s : BracketScan)
  | looks (s : BracketScan)
deriving DecidableEq, Repr

/-- The escape and the switch of the loop that finds the end of the token. -/
def spanSwitch (flags : TokenFlags) (s : BracketScan) (c : Octet) : TokenSwitch :=
  if s.escape then .goesOn [] { s with escape := false }
  else if isQuote c ∧ ¬ flags.ignoreQuotes then
    if flags.keepQuotes then .looks (s.toggle c) else .goesOn [] (s.toggle c)
  else if c = ch '\\' then .goesOn [] { s with escape := true }
  else .looks s

/-- Find end of token: its length, with the bracket that closes it, and the variables there. -/
def tokenSpanWith (flags : TokenFlags) (pair : Octet × Octet) (delims : List Octet) :
    List Octet → BracketScan → Nat × BracketScan
  | [], s => (0, s)
  | c :: string, s =>
      let goOn (s : BracketScan) : Nat × BracketScan :=
        ((tokenSpanWith flags pair delims string s).1 + 1,
          (tokenSpanWith flags pair delims string s).2)
      match spanSwitch flags s c with
      | .goesOn _ s => goOn s
      | .looks s =>
          if (s.count pair c).endsAt delims c then (if c = pair.2 then 1 else 0, s.count pair c)
          else goOn (s.count pair c)

/-- The escape and the switch of the loop that copies the token. -/
def copySwitch (flags : TokenFlags) (s : BracketScan) (c : Octet) : TokenSwitch :=
  if s.escape then .goesOn [textBackslash c] { s with escape := false }
  else if isQuote c ∧ ¬ flags.ignoreQuotes then
    -- The other quote within a quoted string.
    if s.quote ≠ 0 ∧ c ≠ s.quote then .looks s
    else if flags.keepQuotes then .looks (s.toggle c)
    else .goesOn [] (s.toggle c)
  else if c = ch '\\' then
    .goesOn (if flags.keepBackslash then [c] else []) { s with escape := true }
  else .looks s

/-- Copy token, removing quotes and backslashes: the token, and how many of the octets are then left.
    The variables are still those that the end of the token was found with. -/
def tokenCopyWith (flags : TokenFlags) (pair : Octet × Octet) (delims : List Octet) :
    List Octet → BracketScan → List Octet × Nat
  | [], _ => ([], 0)
  | c :: string, s =>
      let put (copied : List Octet) (s : BracketScan) : List Octet × Nat :=
        (copied ++ (tokenCopyWith flags pair delims string s).1,
          (tokenCopyWith flags pair delims string s).2)
      match copySwitch flags s c with
      | .goesOn copied s => put copied s
      | .looks s =>
          if (s.count pair c).endsAt delims c then
            (if c = pair.2 then [c] else [], string.length + 1)
          else put [c] (s.count pair c)

/-- `open_delim` and `close_delim`. Without brackets to keep they are `EOF`. -/
def tokenPair (flags : TokenFlags) (delims string : List Octet) : Octet × Octet :=
  if flags.keepBrackets then bracketPair delims string else (0xff, 0xff)

/-- What follows the search for the start of a token. -/
def tokenAtWith (flags : TokenFlags) (delims string : List Octet) :
    List Octet × Option (List Octet) :=
  let pair := tokenPair flags delims string
  let span := tokenSpanWith flags pair delims string ⟨0, false, 0⟩
  let copy := tokenCopyWith flags pair delims (string.take span.1) span.2
  match string.drop (span.1 - copy.2) with
  -- Token found and end of string reached.
  | [] => (copy.1, .none)
  -- Consume delimiter, provided it is not an open delimiter to keep for the next token.
  | c :: stop =>
      (copy.1, some (if flags.keepBrackets ∧ c ∈ openDelims ∧ c ∈ delims then c :: stop else stop))

/-- `TokenNext (string, &stop, delims, flags)`: the token, and `stop`, with `none` for a NULL of
    either. -/
def tokenNextWith (flags : TokenFlags) (delims : Option (List Octet)) (string : List Octet) :
    Option (List Octet × Option (List Octet)) :=
  let start := tokenOpening flags (tokenDelims delims) string
  if start = [] ∧ ¬ flags.keepEmpty then .none
  else some (tokenAtWith flags (tokenDelims delims) start)

/-- `TextSplit (string, delims, flags)`, if it ends within the given number of calls of `TokenNext`. -/
def textSplitWith (flags : TokenFlags) (delims : Option (List Octet)) :
    Nat → Option (List Octet) → Option (List (List Octet))
  | 0, _ => .none
  | calls + 1, string =>
      match string.bind (tokenNextWith flags delims) with
      | .none => some []
      | some (token, stop) => (textSplitWith flags delims calls stop).map (token :: ·)

/-- `TokenQuote (string, delims)`. -/
def tokenQuote (string : List Octet) (delims : Option (List Octet)) : List Octet :=
  string.flatMap fun c => if c ∈ delims.getD (ascii "'\"") then [ch '\\', c] else [c]

example : textSplitWith ⟨true, false, false, true, false⟩ (some (ascii "<>\x7b\x7d")) 9
    (some (ascii "<>a\x7bb<c>d\x7d<e>")) =
      some [ascii "<>", ascii "a", ascii "\x7bb<c>d\x7d", ascii "<e>", []] := by decide +kernel

end Snert
