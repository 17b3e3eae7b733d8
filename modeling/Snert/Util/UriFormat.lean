/-
Module: Snert.Util.UriFormat
Purpose: `uriFormat` of util/uriFormat.c, which expands a template, and `TokenNext` of
  util/TokenNext.c with `TOKEN_KEEP_BRACKETS` and `TOKEN_KEEP_EMPTY`, which takes the template apart.
  The table of variables is a function. The strings are not NULL, and the allocations do not fail.
Trusted boundary: human-reviewed spec
Main exports: BracketScan, bracketTokenNext, bracketSplit, Delims
-/
import Snert.Util.TextSplit
import Snert.Util.UriEncode

namespace Snert

open CModel Lists

/-! ### Tokens with brackets -/

/-- The variables `quote`, `escape` and `bcount` of `TokenNext` where brackets are kept. -/
structure BracketScan where
  quote : Octet
  escape : Bool
  bcount : Int
deriving DecidableEq, Repr

/-- `open_delim` and `close_delim`: the bracket that a string starts with and the one that closes it,
    if both are among the delimiters. `EOF` is the octet that a `char` of -1 has. -/
def bracketPair (delims string : List Octet) : Octet × Octet :=
  let openDelims := ascii "<(\x7b["
  let closeDelims := ascii ">)\x7d]"
  let openDelim := peek string
  let closeDelim := closeDelims.getD (openDelims.idxOf openDelim) 0
  if openDelim ∈ openDelims ∧ openDelim ∈ delims ∧ closeDelim ∈ delims then (openDelim, closeDelim)
  else (0xff, 0xff)

/-- A quote opens a quoted string, or closes it when it is the one that opened it. -/
def BracketScan.toggle (s : BracketScan) (c : Octet) : BracketScan :=
  if s.quote = 0 then { s with quote := c }
  else if c = s.quote then { s with quote := 0 }
  else s

/-- Outside quotes the brackets are counted. -/
def BracketScan.count (s : BracketScan) (pair : Octet × Octet) (c : Octet) : BracketScan :=
  if s.quote ≠ 0 then s
  else if c = pair.1 then { s with bcount := s.bcount + 1 }
  else if c = pair.2 then { s with bcount := s.bcount - 1 }
  else s

/-- An octet that ends a token, when it has been counted. -/
def BracketScan.endsAt (s : BracketScan) (delims : List Octet) (c : Octet) : Bool :=
  s.quote = 0 && s.bcount = 0 && c ∈ delims

/-- Find end of token: its length, with the bracket that closes it, and the variables there. -/
def bracketSpan (pair : Octet × Octet) (delims : List Octet) :
    List Octet → BracketScan → Nat × BracketScan
  | [], s => (0, s)
  | c :: string, s =>
      let goOn (s : BracketScan) : Nat × BracketScan :=
        ((bracketSpan pair delims string s).1 + 1, (bracketSpan pair delims string s).2)
      if s.escape then goOn { s with escape := false }
      else if isQuote c then goOn (s.toggle c)
      else if c = ch '\\' then goOn { s with escape := true }
      else if (s.count pair c).endsAt delims c then
        (if c = pair.2 then 1 else 0, s.count pair c)
      else goOn (s.count pair c)

/-- Copy token, removing quotes and backslashes: the token, and how many of the octets are then left.
    The variables are still those that the end of the token was found with. -/
def bracketCopy (pair : Octet × Octet) (delims : List Octet) :
    List Octet → BracketScan → List Octet × Nat
  | [], _ => ([], 0)
  | c :: string, s =>
      let put (c : Octet) (s : BracketScan) : List Octet × Nat :=
        (c :: (bracketCopy pair delims string s).1, (bracketCopy pair delims string s).2)
      if s.escape then put (textBackslash c) { s with escape := false }
      else if isQuote c then
        -- The other quote within a quoted string.
        if s.quote ≠ 0 ∧ c ≠ s.quote then put c s
        else bracketCopy pair delims string (s.toggle c)
      else if c = ch '\\' then bracketCopy pair delims string { s with escape := true }
      else if (s.count pair c).endsAt delims c then
        (if c = pair.2 then [c] else [], string.length + 1)
      else put c (s.count pair c)

/-- `TokenNext (string, &stop, delims, TOKEN_KEEP_BRACKETS|TOKEN_KEEP_EMPTY)`: the token, and `stop`,
    with `none` for NULL. There always is a token. -/
def bracketTokenNext (delims string : List Octet) :
    Option (List Octet × Option (List Octet)) :=
  let pair := bracketPair (delimSet delims) string
  let span := bracketSpan pair (delimSet delims) string ⟨0, false, 0⟩
  let copy := bracketCopy pair (delimSet delims) (string.take span.1) span.2
  match string.drop (span.1 - copy.2) with
  -- Token found and end of string reached.
  | [] => some (copy.1, none)
  -- Consume delimiter, provided it is not an open delimiter to keep for the next token.
  | c :: stop =>
      some (copy.1, some (if c ∈ ascii "<(\x7b[" ∧ c ∈ delimSet delims then c :: stop else stop))

/-- Punctuation: what is printed and neither a letter nor a digit. -/
def ispunct (c : Octet) : Bool :=
  33 ≤ c && c ≤ 126 && !isalnum c

/-- `Delims`: an operator, what stands before its first value and before the next, whether the names
    are written, and whether reserved characters are kept. -/
structure Delims where
  op : Octet
  first : List Octet
  next : List Octet
  bothKeyValue : Bool
  ignoreReserved : Bool
deriving DecidableEq, Repr

/-- The table `delims`, without its last entry. -/
def uriDelims : List Delims :=
  [⟨ch '+', [], [ch ','], false, true⟩,
   ⟨ch '.', [ch '.'], [ch '.'], false, false⟩,
   ⟨ch '/', [ch '/'], [ch '/'], false, false⟩,
   ⟨ch ';', [ch ';'], [ch ';'], true, false⟩,
   ⟨ch '?', [ch '?'], [ch '&'], true, false⟩,
   ⟨ch '&', [ch '&'], [ch '&'], true, false⟩,
   ⟨ch '#', [ch '#'], [ch ','], false, true⟩]

/-- Find operator's delimiter set: the last entry of the table stands for any other operator. -/
def findDelims (op : Octet) : Delims :=
  (uriDelims.find? (·.op = op)).getD ⟨0, [], [ch ','], false, false⟩

/-- One variable: what is added for it, and `sep` behind it. -/
def uriFormatKey (vars : List Octet → Option (List Octet)) (op : Octet) (delim : Delims)
    (sep key : List Octet) : List Octet × List Octet :=
  let value := vars key
  let named :=
    if delim.bothKeyValue then
      sep ++ uriEncode key ++
        (if op ≠ ch ';' ∨ (value ≠ none ∧ value ≠ some []) then [ch '='] else [])
    else []
  match value with
  | none => (named, sep)
  | some value =>
      (named ++ (if delim.bothKeyValue then [] else sep) ++ uriEncode2 value delim.ignoreReserved,
        delim.next)

/-- The loop over the variables. -/
def uriFormatKeys (vars : List Octet → Option (List Octet)) (op : Octet) (delim : Delims) :
    List Octet → List (List Octet) → List Octet
  | _, [] => []
  | sep, key :: keys =>
      let formatted := uriFormatKey vars op delim sep key
      formatted.1 ++ uriFormatKeys vars op delim formatted.2 keys

/-- A literal, or what stands between braces. -/
def uriFormatElement (vars : List Octet → Option (List Octet)) (el : List Octet) : List Octet :=
  if peek el ≠ ch '\x7b' then el
  else
    let op := if ispunct (peek el.tail) then peek el.tail else 0
    let el := if ispunct (peek el.tail) then el.tail.tail else el.tail
    let keys := el.takeWhile (· ≠ ch '\x7d')
    uriFormatKeys vars op (findDelims op) (findDelims op).first (textSplit keys (ascii ","))

end Snert
