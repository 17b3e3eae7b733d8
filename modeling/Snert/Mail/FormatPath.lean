/-
Module: Snert.Mail.FormatPath
Purpose: `formatPath` of mail/parsePath.c: a format with percent characters is expanded from the
  parts of a path into a string buffer. The index into the buffer advances by what `TextCopy`
  returns, as in the source. The buffer, the format and the path are never NULL here; the strings of
  the path may be. `STRIP_IP_AS_DOMAIN` is not defined.
Trusted boundary: human-reviewed spec
Main exports: ParsePath, formatConversion, formatLoop, formatPath
-/
import Snert.Util.Text

namespace Snert

open CModel

/-- The strings of a `ParsePath` that a format can name. -/
structure ParsePath where
  address : Option CString
  sourceRoute : Option CString
  localLeft : Option CString
  localRight : Option CString
  domain : Option CString
deriving DecidableEq, Repr

/-- A string of the path. `formatPath` puts the empty string for NULL before it begins. -/
def pathString (string : Option CString) : List Octet :=
  match string with
  | some string => string.octets
  | none => []

section

variable {n : Nat}

/-- `buffer[i++] = c`. -/
def putOctet (buffer : Buffer n) (i : Nat) (c : Octet) : Run (Buffer n × Nat) := do
  let buffer ← buffer.write i [c]
  pure (buffer, i + 1)

/-- `i += TextCopy (buffer + i, length - i, s)`, where `i` is below `length`. -/
def putString (buffer : Buffer n) (i : Nat) (s : List Octet) : Run (Buffer n × Nat) := do
  let copied ← textCopy buffer i (n - i) s
  pure (copied.1, i + copied.2)

/-- The case of `R`, which `P` falls into behind its plus sign. -/
def formatRight (p : ParsePath) (buffer : Buffer n) (i : Nat) : Run (Buffer n × Nat) :=
  putString buffer i (pathString p.localRight)

/-- The body of the `if` in the case of `P`. -/
def formatPlus (p : ParsePath) (buffer : Buffer n) (i : Nat) : Run (Buffer n × Nat) := do
  let put ← putOctet buffer i (ch '+')
  formatRight p put.1 put.2

/-- The switch on the character behind a percent sign. -/
def formatConversion (p : ParsePath) (c : Octet) (buffer : Buffer n) (i : Nat) :
    Run (Buffer n × Nat) :=
  if c = ch '%' then putOctet buffer i c
  else if c = ch 'A' then putString buffer i (pathString p.address)
  else if c = ch 'D' then putString buffer i (pathString p.domain)
  else if c = ch 'L' ∨ c = ch 'P' then do
    let put ← putString buffer i (pathString p.localLeft)
    if c = ch 'P' ∧ put.2 + 1 < n ∧ pathString p.localRight ≠ [] then formatPlus p put.1 put.2
    else pure put
  else if c = ch 'R' then formatRight p buffer i
  else if c = ch 'S' ∨ c = ch 'T' then do
    let put ← putString buffer i (pathString p.sourceRoute)
    if c = ch 'T' ∧ put.2 + 1 < n ∧ pathString p.sourceRoute ≠ [] then
      putOctet put.1 put.2 (ch ':')
    else pure put
  else pure (buffer, i)

/-- The loop over the format. Behind a percent sign at the end of the format it goes on past the
    NUL. -/
def formatLoop (p : ParsePath) : List Octet → Buffer n → Nat → Run (Buffer n × Nat)
  | [], buffer, i => pure (buffer, i)
  | c :: fmt, buffer, i =>
      if ¬ i < n then pure (buffer, i)
      else if c ≠ ch '%' then do
        let put ← putOctet buffer i c
        formatLoop p fmt put.1 put.2
      else
        match fmt with
        | [] => Run.overrun ⟨1, 1, 1⟩
        | c :: fmt => do
            let put ← formatConversion p c buffer i
            formatLoop p fmt put.1 put.2

/-- The end of `formatPath`: `buffer[i - (length <= i)] = '\0'`. -/
def formatTerminate (buffer : Buffer n) (i : Nat) : Run (Buffer n × Int) := do
  let buffer ← buffer.write (i - if n ≤ i then 1 else 0) [0]
  pure (buffer, i)

/-- `formatPath (buffer, length, fmt, p)`: the buffer, and the number of octets returned or -1. -/
def formatPath (buffer : Buffer n) (fmt : CString) (p : ParsePath) : Run (Buffer n × Int) :=
  if n ≤ 0 then pure (buffer, -1)
  else do
    let put ← formatLoop p fmt.octets buffer 0
    formatTerminate put.1 put.2

end

end Snert
