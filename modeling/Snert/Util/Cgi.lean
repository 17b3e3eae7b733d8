/-
Module: Snert.Util.Cgi
Purpose: `cgiUrlDecode` and `cgiParseForm` of util/cgi.c. The encoded string is an object with its
  NUL, of which every octet read is an access. The table of pointers and the space for the strings
  are one block; a pointer into it is an index. The NULL guard and a failing `malloc` are left out.
Trusted boundary: human-reviewed spec
Main exports: hexValue, sscanfHex2, cgiUrlDecode, CgiForm
-/
import Snert.CModel.Buffer
import Snert.CModel.CString

namespace Snert

open CModel

/-- The value of a hexadecimal digit. -/
def hexValue (c : Octet) : Option Nat :=
  if isxdigit c then digitValue c else none

/-- `sscanf (s, "%2x", &hex) == 1`: `hex` as a `char`. White space is skipped and not counted. Of
    the next two octets the start of a number is taken, which is a sign and a digit, or one digit or
    two. `0x` alone is no number. -/
def sscanfHex2 (s : List Octet) : Option Octet :=
  match (s.dropWhile isspace).take 2 with
  | [] => none
  | [c] => (hexValue c).map UInt8.ofNat
  | c :: d :: _ =>
      if c = ch '+' then (hexValue d).map UInt8.ofNat
      else if c = ch '-' then (hexValue d).map fun digit => - UInt8.ofNat digit
      else if c = ch '0' ∧ tolower d = ch 'x' then none
      else
        match hexValue c, hexValue d with
        | some a, some b => some (UInt8.ofNat (a * 16 + b))
        | some a, none => some (UInt8.ofNat a)
        | none, _ => none

section Decode

variable (text : List Octet) {n : Nat}

/-- An access to the rest of the encoded string and its NUL. -/
def restOf (s : List Octet) (count : Nat) : Access :=
  ⟨(text.length - s.length : Nat), count, text.length + 1⟩

/-- `cgiUrlDecode (&t, &s)`, where `t` points into a block and `s` to the rest of the encoded
    string. Yields the block and what is passed back. After a percent sign that `sscanf` makes a
    number of, two octets are skipped; if the second of them is the NUL, the loop goes on behind the
    string. -/
def cgiUrlDecode (block : Buffer n) (t : Nat) : List Octet → Run (Buffer n × Nat × List Octet)
  | [] => do
      Run.load (restOf text [] 1) ()
      let block ← block.write t [0]
      return (block, t + 1, [])
  | c :: s => do
      Run.load (restOf text (c :: s) 1) ()
      if c = ch '=' ∨ c = ch '&' then do
        let block ← block.write t [0]
        return (block, t + 1, s)
      else if c = ch '+' then do
        let block ← block.write t [ch ' ']
        cgiUrlDecode block (t + 1) s
      else if c = ch '%' then do
        Run.load (restOf text s (s.length + 1)) ()
        match sscanfHex2 s with
        | some hex => do
            let block ← block.write t [hex]
            match s with
            | _ :: _ :: s' => cgiUrlDecode block (t + 1) s'
            | _ => Run.overrun ⟨(text.length + 1 : Nat), 1, text.length + 1⟩
        | none => do
            let block ← block.write t [c]
            cgiUrlDecode block (t + 1) s
      else do
        let block ← block.write t [c]
        cgiUrlDecode block (t + 1) s

end Decode

/-! ### Forms -/

/-- `sizeof (CgiMap)`: two pointers. -/
abbrev CGI_MAP_SIZE : Nat := 16

/-- `nfields`. -/
def cgiFieldCount (urlencoded : List Octet) : Nat :=
  1 + urlencoded.count (ch '&')

/-- The size of the block of `cgiParseForm`: the entries and their end, and as many octets as the
    encoded string has with its NUL. -/
def cgiFormSize (urlencoded : List Octet) : Nat :=
  (cgiFieldCount urlencoded + 1) * CGI_MAP_SIZE + urlencoded.length + 1

/-- What `cgiParseForm` returns: the names and values of the entries before the one with NULL
    pointers, as indices into the block, and the block. -/
structure CgiForm (n : Nat) where
  out : List (Nat × Nat)
  block : Buffer n

/-- The string that a pointer of the table points to. -/
def CgiForm.string {n : Nat} (form : CgiForm n) (i : Nat) : List Octet :=
  (form.block.octets.drop i).takeWhile (· ≠ 0)

/-- The table as names and values. -/
def CgiForm.pairs {n : Nat} (form : CgiForm n) : List (List Octet × List Octet) :=
  form.out.map fun (name, value) => (form.string name, form.string value)

section Form

variable (urlencoded : List Octet) {n : Nat}

/-- The value of a field: decoded if an equals sign stands before it, else an empty string. -/
def cgiFieldValue (block : Buffer n) (t : Nat) (s : List Octet) :
    Run (Buffer n × Nat × List Octet) := do
  let i := urlencoded.length - s.length
  let c ← Run.load ⟨(i : Int) - 1, 1, urlencoded.length + 1⟩ (urlencoded.getD (i - 1) 0)
  if c = ch '=' then cgiUrlDecode urlencoded block t s
  else do
    let block ← block.write t [0]
    return (block, t + 1, s)

/-- The loop of `cgiParseForm`, with `count` fields still to come; and the entry behind the last
    field. -/
def cgiFields (block : Buffer n) (t : Nat) (s : List Octet) (out : List (Nat × Nat)) :
    Nat → Run (CgiForm n)
  | 0 => do
      Run.store ⟨(CGI_MAP_SIZE * out.length : Nat), CGI_MAP_SIZE, n⟩ ()
      return ⟨out, block⟩
  | count + 1 => do
      -- `out[i].name` and `out[i].value`.
      Run.store ⟨(CGI_MAP_SIZE * out.length : Nat), CGI_MAP_SIZE, n⟩ ()
      let name := t
      let (block, t, s) ← cgiUrlDecode urlencoded block t s
      let value := t
      let (block, t, s) ← cgiFieldValue urlencoded block t s
      cgiFields block t s (out ++ [(name, value)]) count

/-- `cgiParseForm (urlencoded)`, in a block that holds whatever it held before. -/
def cgiParseForm (block : Buffer (cgiFormSize urlencoded)) :
    Run (CgiForm (cgiFormSize urlencoded)) := do
  -- The fields are counted, and `strlen`.
  Run.load (restOf urlencoded urlencoded (urlencoded.length + 1)) ()
  cgiFields urlencoded block ((cgiFieldCount urlencoded + 1) * CGI_MAP_SIZE) urlencoded []
    (cgiFieldCount urlencoded)

end Form

end Snert
