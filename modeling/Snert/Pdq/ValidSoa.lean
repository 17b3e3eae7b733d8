/-
Module: Snert.Pdq.ValidSoa
Purpose: `pdqListHasValidSOA` of net/pdq.c. The records of the list are passed back as the function
  leaves them, since it writes into the owner of an SOA record. The name is a string of its own; that
  of a CNAME target begins inside the record. The log is left out.
Trusted boundary: human-reviewed spec
Main exports: PdqValidSoa, soaTail, checkSoa, validSoaLoop
-/
import Snert.Mail.Tlds
import Snert.Net.ParseIPv6
import Snert.Pdq.Record

namespace Snert

open CModel

/-- The `PDQ_SOA_` codes that `pdqListHasValidSOA` returns. -/
inductive PdqValidSoa where
  | ok
  | missing
  | badCname
  | rooted
  | mismatch
  | badNs
  | badContact
deriving DecidableEq, Repr

/-- `rr->name.string.value[rr->name.string.length-1] = c`. -/
def PdqRr.setLast (rr : PdqRr) (c : Octet) : Run PdqRr := do
  let value ← rr.name.value.write ((rr.name.length : Int) - 1) [c]
  pure { rr with name := { rr.name with value := value } }

/-- Is SOA LHS the root domain and query name is not? The second octet of an empty name is the one
    behind its NUL. -/
def soaRooted (behind : Octet) (name : List Octet) (rr : PdqRr) : Run Bool :=
  if peek name = ch '.' then pure false
  else do
    let second ← Run.load ⟨1, 1, name.length + 1⟩ ((name ++ [0]).getD 1 behind)
    pure (second ≠ 0 ∧ rr.name.length = 1)

/-- Is SOA LHS the tail of the name question, with or without a root dot? -/
def soaTail (name : List Octet) (rr : PdqRr) : Run (Bool × PdqRr) :=
  if 0 ≤ textInsensitiveEndsWith name rr.name.string then pure (true, rr)
  else do
    let rr ← rr.setLast 0
    if textInsensitiveEndsWith name rr.name.string < 0 then pure (false, rr)
    else do
      let rr ← rr.setLast (ch '.')
      pure (true, rr)

section

variable (nthTld : Nat → List (List Octet))

/-- Primary name server have a TLD? Does the responsible contact have a TLD? -/
def soaContacts (rr : PdqRr) : Run PdqValidSoa :=
  match rr.data with
  | .soa mname rname _ _ _ _ _ =>
      if indexValidTLD nthTld mname.string ≤ 0 then pure .badNs
      else if indexValidTLD nthTld rname.string ≤ 0 then pure .badContact
      else pure .ok
  | _ => Run.overrun ⟨1, 1, 1⟩

/-- The tests of an SOA record, which end the loop. -/
def checkSoa (behind : Octet) (name : List Octet) (rr : PdqRr) : Run (PdqValidSoa × PdqRr) := do
  let rooted ← soaRooted behind name rr
  if rooted then pure (.rooted, rr)
  else do
    let tail ← soaTail name rr
    if tail.1 then do
      let code ← soaContacts nthTld tail.2
      pure (code, tail.2)
    else pure (.mismatch, tail.2)

/-- The target of a CNAME record. -/
def cnameTarget (rr : PdqRr) : Run (List Octet) :=
  match rr.data with
  | .host host => pure host.string
  | _ => Run.overrun ⟨1, 1, 1⟩

/-- The domain of a target with a valid TLD: one label in front of the TLD. From the offset 0 the
    scan would begin before the string, and gives 0. -/
def targetDomain (target : List Octet) : List Octet :=
  target.drop (strlrcspn target [ch '.'] (indexValidTLD nthTld target - 1).toNat)

/-- The loop over the list: the code, and the records as they are left. -/
def validSoaLoop (behind : Octet) : List PdqRr → List Octet → Run (PdqValidSoa × List PdqRr)
  | [], _ => pure (.missing, [])
  | rr :: list, name =>
      if rr.type = PDQ_TYPE_CNAME then do
        let target ← cnameTarget rr
        if indexValidTLD nthTld target < 0 then pure (.badCname, rr :: list)
        else do
          let rest ← validSoaLoop behind list (targetDomain nthTld target)
          pure (rest.1, rr :: rest.2)
      else if rr.type = PDQ_TYPE_SOA then do
        let checked ← checkSoa nthTld behind name rr
        pure (checked.1, checked.2 :: list)
      else do
        let rest ← validSoaLoop behind list name
        pure (rest.1, rr :: rest.2)

/-- `pdqListHasValidSOA (list, name)`: the code, and the records as they are left. The array `ipv6` is
    not initialised. -/
def pdqListHasValidSOA (behind : Octet) (ipv6 : Ipv6) (list : List PdqRr) (name : Option CString) :
    Run (PdqValidSoa × List PdqRr) :=
  match name with
  | none => pure (.ok, list)
  | some name => do
      let parsed ← parseIPv6 name.octets ipv6
      -- Ignore IP addresses by assuming true.
      if 0 < parsed.1 then pure (.ok, list)
      else do
        let rest ← validSoaLoop nthTld behind (list.dropWhile PdqRr.isQuery) name.octets
        pure (rest.1, list.takeWhile PdqRr.isQuery ++ rest.2)

end

end Snert
