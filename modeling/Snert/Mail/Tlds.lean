/-
Module: Snert.Mail.Tlds
Purpose: The look-ups of mail/tlds.c. The tables are given: how they are loaded from files is left out,
  as are the NULL guards and `errno`. A length is an `int`, so that names are shorter than 2^31.
Trusted boundary: human-reviewed spec
Main exports: indexValidNthTLD, indexValidTLD
-/
import Snert.Util.Text

namespace Snert

open CModel

abbrev MAX_TLD_LEVELS : Nat := 3

/-- The loop of `indexValidNthTLD` over the levels. From the offset 0 the scan would begin before the
    string, and gives 0. -/
def tldOffset (domain : List Octet) : Nat → Nat → Nat
  | 0, lastdot => lastdot
  | level + 1, lastdot => tldOffset domain level (strlrcspn domain [ch '.'] (lastdot - 1))

/-- `indexValidNthTLD (domain, level)`. `nthTld` is the array `nth_tld`. -/
def indexValidNthTLD (nthTld : Nat → List (List Octet)) (domain : List Octet) (level : Nat) : Int :=
  if domain = [] ∨ level < 1 ∨ MAX_TLD_LEVELS < level then -1
  else
    let rootdot := if domain.getLast? = some (ch '.') then 1 else 0
    let length := domain.length - rootdot
    let lastdot := tldOffset domain level length
    let length := length - lastdot
    if (nthTld level).any fun tld => strncasecmp (domain.drop lastdot) tld length = 0 &&
        (peek (tld.drop length) = 0 || peek (tld.drop length) = ch '.') then lastdot
    else -1

/-- The loop of `indexValidTLD`, from a level on downwards. -/
def tldSearch (nthTld : Nat → List (List Octet)) (domain : List Octet) : Nat → Int
  | 0 => -1
  | level + 1 =>
      let offset := indexValidNthTLD nthTld domain (level + 1)
      if 0 ≤ offset then offset else tldSearch nthTld domain level

/-- `indexValidTLD (domain)`. -/
def indexValidTLD (nthTld : Nat → List (List Octet)) (domain : List Octet) : Int :=
  if domain = [] then -1 else tldSearch nthTld domain MAX_TLD_LEVELS

end Snert
