/-
Module: Snert.Mail.MfReply
Purpose: The replies of a milter of mail/mfReply.c. What is given to `smfi_setreply` and
  `smfi_setmlreply` is the value; what these do with it, the context and `errno` are left out. The
  format has been applied to its arguments, and `malloc` finds memory. A line of an array is an
  object that ends with its NUL.
Trusted boundary: human-reviewed spec
Main exports: CodeSource, MilterReply, mfReplyV, MultiLineReply
-/
import Snert.Util.Text

namespace Snert

open CModel

abbrev SMTP_REPLY_LINE_LENGTH : Nat := 512

inductive Sfsistat where
  | reject
  | tempfail
deriving DecidableEq, Repr

/-- Where the code that is passed on comes from. -/
inductive CodeSource where
  | argument
  | text
  | assumed
deriving DecidableEq, Repr

/-- `SMTP_ISS_PERM (x)`. -/
def smtpIssPerm (x : List Octet) : Bool :=
  peek x = ch '5'

/-- The value that goes with a reply code. -/
def replyStatus (rcode : List Octet) : Sfsistat :=
  if smtpIssPerm rcode then .reject else .tempfail

/-- The extended code that is assumed for a reply code. -/
def assumedXcode (rcode : List Octet) : List Octet :=
  if smtpIssPerm rcode then ascii "5.7.1" else ascii "4.7.1"

/-- The octets of a reply code. -/
def rcodeOctets : List Octet :=
  ascii "0123456789"

/-- The octets of an extended code. -/
def xcodeOctets : List Octet :=
  ascii "0123456789."

/-! ### One line -/

/-- What is given to `smfi_setreply`, with the sources of the codes, and the value. -/
structure MilterReply where
  rcode : List Octet
  rcodeFrom : CodeSource
  xcode : List Octet
  xcodeFrom : CodeSource
  reply : List Octet
  status : Sfsistat
deriving DecidableEq, Repr

/-- `s[span]` ends a code. -/
def codeEnds (s : List Octet) (span : Nat) : Bool :=
  isspace (peek (s.drop span)) || peek (s.drop span) = 0

/-- `s + span + (s[span] != '\0')`. -/
def pastCode (s : List Octet) (span : Nat) : List Octet :=
  s.drop (span + if peek (s.drop span) ≠ 0 then 1 else 0)

/-- Non-printable characters like CR become spaces. -/
def spaced (s : List Octet) : List Octet :=
  s.map fun c => if isspace c then ch ' ' else c

/-- The reply code of `mfReplyV`, its source, and where `reply` points to. -/
def replyRcode (rcode : Option (List Octet)) (buffer : List Octet) :
    List Octet × CodeSource × List Octet :=
  match rcode with
  | some rcode => (rcode, .argument, buffer)
  | none =>
      let span := strspn buffer rcodeOctets
      if span = 3 ∧ codeEnds buffer span then (buffer.take span, .text, pastCode buffer span)
      -- The loop that replaces white space has left `reply` at the end of the buffer.
      else (ascii "450", .assumed, [])

/-- The extended code of `mfReplyV`, its source, and where `reply` points to. -/
def replyXcode (rcode : List Octet) (xcode : Option (List Octet)) (reply : List Octet) :
    List Octet × CodeSource × List Octet :=
  match xcode with
  | some xcode => (xcode, .argument, reply)
  | none =>
      let span := strspn reply xcodeOctets
      if 5 ≤ span ∧ codeEnds reply span then (reply.take span, .text, pastCode reply span)
      else (assumedXcode rcode, .assumed, reply)

/-- `mfReplyV (ctx, rcode, xcode, fmt, args)`, where `text` is what the format and its arguments
    give. -/
def mfReplyV (rcode xcode : Option (List Octet)) (text : List Octet) : MilterReply :=
  let buffer := spaced (text.take (SMTP_REPLY_LINE_LENGTH - 1))
  let (rcode, rcodeFrom, reply) := replyRcode rcode buffer
  let (xcode, xcodeFrom, reply) := replyXcode rcode xcode reply
  ⟨rcode, rcodeFrom, xcode, xcodeFrom, reply, replyStatus rcode⟩

/-! ### Several lines -/

/-- What is given to `smfi_setmlreply`, and the value. -/
structure MultiLineReply where
  rcode : List Octet
  xcode : List Octet
  lines : List (List Octet)
  status : Sfsistat
deriving DecidableEq, Repr

/-- The string at `line + offset`. -/
def lineAt (line : List Octet) (offset : Nat) : Run (List Octet) :=
  Run.load ⟨offset, 1, line.length + 1⟩ (line.drop offset)

/-- The reply code of `mfMultiLineReplyA`, and `length`. -/
def multiLineRcode (rcode : Option (List Octet)) (line0 : List Octet) :
    Run (List Octet × Nat) :=
  match rcode with
  | some rcode => pure (rcode, 0)
  | none =>
      let span := strspn line0 rcodeOctets
      if span = 3 ∧ (codeEnds line0 span ∨ peek (line0.drop span) = ch '-') then do
        let (r_code, length) ← textCopy (Buffer.replicate 4 0) 0 4 line0
        pure (r_code.cstring, length + if peek (line0.drop span) ≠ 0 then 1 else 0)
      else pure (ascii "450", 0)

/-- The extended code of `mfMultiLineReplyA`, and `length`. -/
def multiLineXcode (rcode : List Octet) (xcode : Option (List Octet)) (line0 : List Octet)
    (length : Nat) : Run (List Octet × Nat) :=
  match xcode with
  | some xcode => pure (xcode, length)
  | none => do
      let line0 ← lineAt line0 length
      let span := strspn line0 xcodeOctets
      if 5 ≤ span ∧ codeEnds line0 span then do
        let (x_code, copied) ← textCopy (Buffer.replicate 10 0) 0 10 line0
        pure (x_code.cstring, length + copied + if peek (line0.drop span) ≠ 0 then 1 else 0)
      else pure (assumedXcode rcode, length)

/-- The strings at an offset in the lines. -/
def linesAt (offset : Nat) : List (List Octet) → Run (List (List Octet))
  | [] => pure []
  | line :: lines => do
      let line ← lineAt line offset
      let lines ← linesAt offset lines
      pure (line :: lines)

/-- `mfMultiLineReplyA (ctx, rcode, xcode, lines)`, with the first line and the others. -/
def mfMultiLineReplyA (rcode xcode : Option (List Octet)) (line0 : List Octet)
    (lines : List (List Octet)) : Run MultiLineReply := do
  let (rcode, length) ← multiLineRcode rcode line0
  let (xcode, length) ← multiLineXcode rcode xcode line0 length
  -- Remove leading return code and extended return code if necessary.
  let ln ← linesAt length ((line0 :: lines).take 32)
  pure ⟨rcode, xcode, ln, replyStatus rcode⟩

end Snert
